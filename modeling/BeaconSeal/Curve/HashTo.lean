import BeaconSeal.Curve.Group
import BeaconSeal.Hash.Sha256
/-! Hashing a message onto a source group: field elements are expanded from the message,
mapped to a curve that admits the simplified map, carried over by an isogeny, added,
and multiplied into the subgroup. -/
namespace BeaconSeal.HashTo
open FieldOps

def chain (tagged first : Bytes) : Nat → Nat → Bytes → List Bytes
  | 0, _, _ => []
  | count+1, i, last =>
    let next := Sha256.digest (Bytes.xor first last ++ UInt8.ofNat i :: tagged)
    next :: chain tagged first count (i+1) next

def expand (tag message : Bytes) (blocks : Nat) : Bytes :=
  let tagged := tag ++ [UInt8.ofNat tag.length]
  let first := Sha256.digest
    (List.replicate 64 0 ++ message ++ Bytes.bigEndian 2 (32*blocks) ++ 0 :: tagged)
  (chain tagged first blocks 1 (List.replicate 32 0)).flatten

def elements (tag message : Bytes) (count : Nat) : List Fp :=
  (Cut.cut 64 (expand tag message (2*count))).1.map (fun b => Fp.ofNat (Bytes.ofBigEndian b))

/-- A curve `y² = x³ + ax + b` with a non-square `z` for the simplified map, and an isogeny
from it given by the abscissae of half its kernel and a scale. -/
structure Source (F : Type) where
  a : F
  b : F
  z : F
  kernel : List F
  scale : F

variable {F : Type} [Coordinate F] [DecidableEq F]

namespace Source

def rhs (s : Source F) (x : F) : F := (square x + s.a)*x + s.b

def withParity (u x y : F) : Point F :=
  .affine x (if Coordinate.isOdd u = Coordinate.isOdd y then y else -y)

def map (s : Source F) (u : F) : Point F :=
  let zu := s.z*square u
  let t := inv (square zu + zu)
  let x1 := if t = 0 then s.b*inv (s.z*s.a) else -(s.b*inv s.a)*(1+t)
  match Coordinate.sqrt? (s.rhs x1) with
  | some y => withParity u x1 y
  | none =>
    let x2 := zu*x1
    match Coordinate.sqrt? (s.rhs x2) with
    | some y => withParity u x2 y
    | none => .infinity

/-- The isogeny adds to each coordinate what the translates by kernel points contribute;
a point of the kernel goes to infinity. -/
def isogeny (s : Source F) : Point F → Point F
  | .infinity => .infinity
  | .affine x y =>
    if s.kernel.contains x then .infinity
    else
      let terms := s.kernel.map (fun q =>
        let i := inv (x-q)
        let t := double (triple (square q) + s.a)*i
        let u := double (double (s.rhs q))*square i
        (t+u, (t + double u)*i))
      let dx := terms.foldl (fun acc t => acc+t.1) 0
      let dy := terms.foldl (fun acc t => acc+t.2) 0
      let c2 := square s.scale
      .affine (c2*(x+dx)) (c2*s.scale*y*(1-dy))

end Source

def hash (s : Source F) (cofactor : Nat) (us : List F) : Point F :=
  let points := us.map (fun u => s.isogeny (s.map u))
  (points.foldl Point.add .infinity).smul cofactor

end BeaconSeal.HashTo

namespace BeaconSeal
open HashTo FieldOps

namespace G1

def source : Source Fp where
  a := Fp.ofNat
    0x144698a3b8e9433d693a02c96d4982b0ea985383ee66a8d8e8981aefd881ac98936f8da0e0f97f5cf428082d584c1d
  b := Fp.ofNat
    0x12e2908d11688030018b12e8753eee3b2016c1f0f24f4070a0b9c14fcef35ef55a23215a316ceaa5d1cc48e98e172be0
  z := Fp.ofNat 11
  kernel := [
    0x10ef325dd1e98bdf0d97a4c6b7f968ed7f31f2fbff088acb39d5319cfc261ea18773405f325612742f0c5d90634bcf4,
    0xd7f2d0d03ae035321eed4c1479d13251abf0e9a96479623eb5380b575e319851fb5e5a8b43b9c1a46880f54bf2b2f7c,
    0x105249b4cac630ce5aa18e6c1189a18c82019b4e12e491fbac012c259ca3a67f638560b8bb416af02a4724385ed0fc8e,
    0x140d41735b10ce710727cd9356905701a2b866b803baa468948b7f423ddcc560c9a8f1cd5f8ed4297c37464fb8bfe4a7,
    0x1665a9c648e78314490a94f654d9b1039ab85847223bfaed9aa54f0f07736d122d1ceca1ac0e9123e753fde16e97c3d7
    ].map Fp.ofNat
  scale := inv (Fp.ofNat 11)

def cofactor : Nat := curveParameter+1

def hash (tag message : Bytes) : Point Fp := HashTo.hash source cofactor (elements tag message 2)

end G1

namespace G2

def source : Source Fp2 where
  a := Fp2.ofNats 0 240
  b := Fp2.ofNats 1012 1012
  z := -Fp2.ofNats 2 1
  kernel := [⟨-Fp.ofNat 6, Fp.ofNat 6⟩]
  scale := ⟨-inv (Fp.ofNat 3), 0⟩

def cofactor : Nat :=
  0xbc69f08f2ee75b3584c6a0ea91b352888e2a8e9145ad7689986ff031508ffe1329c2f178731db956d82bf015d1212b02ec0ec69d7477c1ae954cbc06689f6a359894c0adebbf6b4e8020005aaa95551

def pairs : List Fp → List Fp2
  | a :: b :: us => ⟨a, b⟩ :: pairs us
  | _ => []

def hash (tag message : Bytes) : Point Fp2 :=
  HashTo.hash source cofactor (pairs (elements tag message 4))

end G2
end BeaconSeal
