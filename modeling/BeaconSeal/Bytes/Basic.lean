/-! Byte strings, numbers written in a fixed count of bytes, and byte strings whose
length is part of the type. -/
namespace BeaconSeal

abbrev Bytes := List UInt8

namespace Bytes

def xor (a b : Bytes) : Bytes := List.zipWith (· ^^^ ·) a b

theorem length_xor (a b : Bytes) : (xor a b).length = min a.length b.length := by
  simp [xor]

def littleEndian : Nat → Nat → Bytes
  | 0, _ => []
  | w+1, n => UInt8.ofNat n :: littleEndian w (n/256)

def bigEndian (w n : Nat) : Bytes := (littleEndian w n).reverse

def ofLittleEndian (b : Bytes) : Nat := b.foldr (fun x n => x.toNat + 256*n) 0
def ofBigEndian (b : Bytes) : Nat := b.foldl (fun n x => 256*n + x.toNat) 0

@[simp] theorem length_littleEndian (w n : Nat) : (littleEndian w n).length = w := by
  induction w generalizing n with
  | zero => rfl
  | succ w ih => simp [littleEndian, ih]

@[simp] theorem length_bigEndian (w n : Nat) : (bigEndian w n).length = w := by
  simp [bigEndian]

end Bytes

abbrev SizedBytes (n : Nat) := { b : Bytes // b.length = n }

def SizedBytes.ofBytes? (n : Nat) (b : Bytes) : Option (SizedBytes n) :=
  if h : b.length = n then some ⟨b, h⟩ else none

end BeaconSeal
