import BeaconSeal.Bytes.Basic
/-! What identity-based encryption asks of a pairing: two source groups of one prime order,
their encodings, a hash onto each, and the pairing. Everything above works over any such
groups, so that it can be reasoned about from their laws alone. -/
namespace BeaconSeal

inductive SourceGroup where
  | g1
  | g2
  deriving DecidableEq, Repr

namespace SourceGroup

def name : SourceGroup → String
  | g1 => "G1"
  | g2 => "G2"

def opposite : SourceGroup → SourceGroup
  | g1 => g2
  | g2 => g1

def pointSize : SourceGroup → Nat
  | g1 => 48
  | g2 => 96

end SourceGroup

def scalarOrder : Nat := 0x73eda753299d7d483339d80809a1d80553bda402fffe5bfeffffffff00000001

abbrev Scalar := Fin scalarOrder

def Scalar.ofNat (n : Nat) : Scalar := ⟨n % scalarOrder, Nat.mod_lt n (by decide)⟩

structure PairingGroups where
  Point : SourceGroup → Type
  decEq : (g : SourceGroup) → DecidableEq (Point g)
  identity : (g : SourceGroup) → Point g
  generator : (g : SourceGroup) → Point g
  smul : {g : SourceGroup} → Scalar → Point g → Point g
  compress : {g : SourceGroup} → Point g → Bytes
  decompress? : (g : SourceGroup) → Bytes → Option (Point g)
  /-- A hash onto the group under a domain separation tag. -/
  hash : (g : SourceGroup) → Bytes → Bytes → Point g
  Target : Type
  pair : Point .g1 → Point .g2 → Target
  targetBytes : Target → Bytes

namespace PairingGroups
variable (E : PairingGroups)

instance (g : SourceGroup) : DecidableEq (E.Point g) := E.decEq g

def pairAcross : (g : SourceGroup) → E.Point g → E.Point g.opposite → E.Target
  | .g1, p, q => E.pair p q
  | .g2, q, p => E.pair p q

end PairingGroups

structure SourcePoint (E : PairingGroups) where
  group : SourceGroup
  point : E.Point group
  deriving DecidableEq

end BeaconSeal
