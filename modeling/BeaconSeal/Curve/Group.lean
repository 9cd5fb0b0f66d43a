import BeaconSeal.Curve.Point
import BeaconSeal.Groups
/-! The two source groups: subgroups of one prime order on a curve over the prime field
and on its twist, with their compressed encodings. -/
namespace BeaconSeal
open FieldOps

class Coordinate (F : Type) extends FieldOps F where
  size : Nat
  sqrt? : F → Option F
  isOdd : F → Bool
  isLarge : F → Bool
  bytes : F → Bytes
  ofBytes? : Bytes → Option F

instance : Coordinate Fp where
  size := Fp.size
  sqrt? := Fp.sqrt?
  isOdd := Fp.isOdd
  isLarge := Fp.isLarge
  bytes := Fp.bytes
  ofBytes? := Fp.ofBytes?

instance : Coordinate Fp2 where
  size := 2*Fp.size
  sqrt? := Fp2.sqrt?
  isOdd := Fp2.isOdd
  isLarge := Fp2.isLarge
  bytes := Fp2.bytes
  ofBytes? := Fp2.ofBytes?

variable {F : Type} [Coordinate F] [DecidableEq F]

namespace Point

def lift? (b x : F) (large : Bool) : Option (Point F) :=
  (Coordinate.sqrt? (x*x*x + b)).map (fun y =>
    .affine x (if Coordinate.isLarge y = large then y else -y))

def InSubgroup (p : Point F) : Prop := p.smul scalarOrder = infinity

instance (p : Point F) : Decidable p.InSubgroup := inferInstanceAs (Decidable (_ = _))

def compress : Point F → Bytes
  | infinity => 0xc0 :: List.replicate (Coordinate.size F - 1) 0
  | affine x y =>
    match Coordinate.bytes x with
    | [] => []
    | b :: bs => (b ||| (if Coordinate.isLarge y then 0xa0 else 0x80)) :: bs

/-- Reads a point of the subgroup; with the infinity flag the other bits are not looked at. -/
def decompress? (curveB : F) : Bytes → Option (Point F)
  | [] => none
  | b :: bs =>
    if b &&& 0x80 = 0 then none
    else if b &&& 0x40 ≠ 0 then some infinity
    else do
      let x ← Coordinate.ofBytes? ((b &&& 0x1f) :: bs)
      let p ← lift? curveB x (b &&& 0x20 ≠ 0)
      if p.InSubgroup then some p else none

end Point

namespace G1

def curveB : Fp := Fp.ofNat 4

def generator : Point Fp := .affine
  (Fp.ofNat 0x17f1d3a73197d7942695638c4fa9ac0fc3688c4f9774b905a14e3a3f171bac586c55e83ff97a1aeffb3af00adb22c6bb)
  (Fp.ofNat 0x08b3f481e3aaa0f1a09e30ed741d8ae4fcf5e095d5d00af600db18cb2c04b3edd03cc744a2888ae40caa232946c5e7e1)

end G1

namespace G2

def curveB : Fp2 := Fp2.ofNats 4 4

def generator : Point Fp2 := .affine
  (Fp2.ofNats
    0x024aa2b2f08f0a91260805272dc51051c6e47ad4fa403b02b4510b647ae3d1770bac0326a805bbefd48056c8c121bdb8
    0x13e02b6052719f607dacd3a088274f65596bd0d09920b61ab5da61bbdc7f5049334cf11213945d57e5ac7d055d042b7e)
  (Fp2.ofNats
    0x0ce5d527727d6e118cc9cdc6da2e351aadfd9baa8cbdd3a76d429a695160d12c923ac9cc3baca289e193548608b82801
    0x0606c4a02ea734cc32acd2b02bc28b99cb3e287e85a763af267492ab572e99ab3f370d275cec1da1aaa9075ff05f79be)

end G2
end BeaconSeal
