import BeaconSeal.Bytes.Basic
/-! Field operations, with powers by scanning the binary digits of the exponent, and the prime
field under the curves. An element is its least residue, so equal elements are equal numbers and
have one encoding. -/
namespace BeaconSeal

def binary (n : Nat) : List Bool := (List.range (n.log2+1)).reverse.map n.testBit

class FieldOps (F : Type) extends Add F, Sub F, Neg F, Mul F, Zero F, One F where
  inv : F → F

namespace FieldOps
variable {F : Type}

def square [Mul F] (x : F) : F := x*x
def double [Add F] (x : F) : F := x+x
def triple [Add F] (x : F) : F := x+x+x

def power [Mul F] [One F] (x : F) (n : Nat) : F :=
  (binary n).foldl (fun acc bit => if bit then square acc * x else square acc) 1

end FieldOps

open FieldOps

/-- Every size of the curve family is a polynomial in this number, taken negative. -/
def curveParameter : Nat := 0xd201000000010000

namespace Fp

def modulus : Nat :=
  0x1a0111ea397fe69a4b1ba7b6434bacd764774b84f38512bf6730d2a0f6b0f6241eabfffeb153ffffb9feffffffffaaab

theorem modulus_pos : 0 < modulus := by decide

end Fp

structure Fp where
  val : Nat
  isLt : val < Fp.modulus
  deriving DecidableEq

namespace Fp

def ofNat (n : Nat) : Fp := ⟨n % modulus, Nat.mod_lt n modulus_pos⟩

instance : Add Fp := ⟨fun a b => ofNat (a.val + b.val)⟩
instance : Sub Fp := ⟨fun a b => ofNat (a.val + (modulus - b.val))⟩
instance : Neg Fp := ⟨fun a => ofNat (modulus - a.val)⟩
instance : Mul Fp := ⟨fun a b => ofNat (a.val * b.val)⟩
instance : Zero Fp := ⟨ofNat 0⟩
instance : One Fp := ⟨ofNat 1⟩

/-- The power by two less than the modulus is the inverse, since that by one less is one. -/
instance : FieldOps Fp where
  inv a := power a (modulus-2)

/-- The modulus is three more than a multiple of four, so a root of a square is this power. -/
def sqrt? (a : Fp) : Option Fp :=
  let r := power a ((modulus+1)/4)
  if r*r = a then some r else none

def isOdd (a : Fp) : Bool := a.val % 2 = 1

def isLarge (a : Fp) : Bool := modulus < 2*a.val

def size : Nat := 48
def bytes (a : Fp) : Bytes := Bytes.bigEndian size a.val
def littleEndian (a : Fp) : Bytes := Bytes.littleEndian size a.val
def ofBytes? (b : Bytes) : Option Fp :=
  if h : Bytes.ofBigEndian b < modulus then some ⟨_, h⟩ else none

end Fp
end BeaconSeal
