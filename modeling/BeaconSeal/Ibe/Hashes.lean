import BeaconSeal.Ibe.Fault
import BeaconSeal.Hash.Sha256
/-! The hash functions of the encryption: an identity from a round, pads from a pairing value
and from the seed, and a scalar from the seed and the message. -/
namespace BeaconSeal.Ibe

def roundIdentity (round : UInt64) : Bytes := Sha256.digest (Bytes.bigEndian 8 round.toNat)

def padSize : Nat := 32

def tagged (tag : String) (b : Bytes) : Bytes := Sha256.digest (Text.utf8 tag.toList ++ b)

def targetPad (E : PairingGroups) (value : E.Target) (len : Nat) : Bytes :=
  (tagged "IBE-H2" (E.targetBytes value)).take len

def seedPad (seed : Bytes) (len : Nat) : Bytes := (tagged "IBE-H4" seed).take len

def halve : Bytes → Bytes
  | [] => []
  | b :: bs => b >>> 1 :: bs

def trial (digest : Bytes) (i : Nat) : Bytes :=
  halve (Sha256.digest (Bytes.littleEndian 2 i ++ digest))

/-- The words of a number that is written highest byte first. The lowest word comes first, so
the string is cut from its end. -/
def words (b : Bytes) : List UInt64 :=
  (Cut.cut 8 b.reverse).1.map (fun w => UInt64.ofNat (Bytes.ofBigEndian w.reverse))

def ofWords (ws : List UInt64) : Nat := ws.foldr (fun w n => w.toNat + UInt64.size*n) 0

def scalar? (b : Bytes) : Option Scalar :=
  if h : ofWords (words b) < scalarOrder then some ⟨_, h⟩ else none

def firstScalar (digest : Bytes) : Nat → Nat → Option Scalar
  | 0, _ => none
  | n+1, i =>
    match scalar? (trial digest i) with
    | some r => some r
    | none => firstScalar digest n (i+1)

def seedScalar (seed message : Bytes) : Except Fault Scalar :=
  (firstScalar (tagged "IBE-H3" (seed ++ message)) 65534 1).elim (.error .scalarDerivation) .ok

end BeaconSeal.Ibe
