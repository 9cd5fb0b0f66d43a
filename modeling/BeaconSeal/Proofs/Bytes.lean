import BeaconSeal.Bytes.Basic
import Mathlib.Data.List.Basic
/-! Byte strings of a known length, and exclusive or, which undoes itself. -/
namespace BeaconSeal

theorem SizedBytes.ofBytes?_eq_some_iff {n : Nat} {b : Bytes} {s : SizedBytes n} :
    SizedBytes.ofBytes? n b = some s ↔ s.1 = b := by
  unfold SizedBytes.ofBytes?
  by_cases h : b.length = n
  · simp [h, Subtype.ext_iff, eq_comm]
  · have hne : s.1 ≠ b := by
      intro hs
      exact h (hs ▸ s.2)
    simp [h, hne]

theorem SizedBytes.exists_append {n : Nat} {b : Bytes} (h : n ≤ b.length) :
    ∃ (s : SizedBytes n) (rest : Bytes), b = s.1 ++ rest :=
  ⟨⟨b.take n, by simp [Nat.min_eq_left h]⟩, b.drop n, (List.take_append_drop n b).symm⟩

namespace Bytes

theorem xor_xor_cancel {a b : Bytes} (h : a.length ≤ b.length) : xor (xor a b) b = a := by
  induction a generalizing b with
  | nil => rfl
  | cons x a ih =>
    cases b with
    | nil => simp at h
    | cons y b =>
      have hx : x ^^^ y ^^^ y = x := by rw [UInt8.xor_assoc, UInt8.xor_self, UInt8.xor_zero]
      simp only [List.length_cons] at h
      simpa [xor, hx] using ih (b := b) (by omega)

theorem xor_right_cancel {a b c : Bytes} (ha : a.length ≤ c.length) (hb : b.length ≤ c.length)
    (h : xor a c = xor b c) : a = b := by
  rw [← xor_xor_cancel ha, h, xor_xor_cancel hb]

theorem xor_left_cancel {a b c : Bytes} (ha : a.length ≤ c.length) (hb : b.length ≤ c.length)
    (h : xor c a = xor c b) : a = b := by
  have hcomm (d : Bytes) : xor c d = xor d c := List.zipWith_comm_of_comm UInt8.xor_comm
  rw [hcomm, hcomm] at h
  exact xor_right_cancel ha hb h

end Bytes
end BeaconSeal
