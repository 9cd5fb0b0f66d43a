import BeaconSeal.Field.Tower
import BeaconSeal.Proofs.Fields
/-! Pairing values as strings of bytes. They are written from the lowest byte to the highest, level by
level, and the string is turned round. Main statement: that is the twelve coefficients from the
highest to the lowest, each from its highest byte on, and no two values are written alike. -/
namespace BeaconSeal
open Function (Injective)

/-- Everything is written in as many bytes, and no two things alike. -/
structure Lossless {α : Type} (write : α → Bytes) (size : Nat) : Prop where
  length (a) : (write a).length = size
  injective : Injective write

namespace Lossless
variable {α β γ : Type} {f : α → Bytes} {g : β → Bytes} {m n : Nat}

/-- Where the first part ends is known from its size. -/
theorem append (hf : Lossless f m) (hg : Lossless g n) :
    Lossless (fun p : α × β => f p.1 ++ g p.2) (m+n) where
  length p := by rw [List.length_append, hf.length, hg.length]
  injective := by
    intro p q h
    obtain ⟨hleft, hright⟩ := List.append_inj h ((hf.length p.1).trans (hf.length q.1).symm)
    exact Prod.ext (hf.injective hleft) (hg.injective hright)

theorem comp (hf : Lossless f n) {e : γ → α} (he : Injective e) : Lossless (f ∘ e) n where
  length a := hf.length (e a)
  injective := hf.injective.comp he

end Lossless

theorem Fp.lossless : Lossless littleEndian size where
  length a := Bytes.length_littleEndian size a.val
  injective := by
    intro a b h
    have hbytes : a.bytes = b.bytes := congrArg List.reverse h
    have hval : a.val = b.val := by rw [← ofBigEndian_bytes a, hbytes, ofBigEndian_bytes]
    cases a
    cases b
    exact (mk.injEq ..).mpr hval

theorem Fp2.lossless : Lossless littleEndian (2*Fp.size) := by
  have hparts : Injective (fun a : Fp2 => (a.c0, a.c1)) := by
    intro a b h
    cases a
    cases b
    exact (mk.injEq ..).mpr (Prod.mk.inj h)
  exact (Fp.lossless.append Fp.lossless).comp hparts

theorem Fp6.lossless : Lossless littleEndian (6*Fp.size) := by
  have hparts : Injective (fun a : Fp6 => ((a.c0, a.c1), a.c2)) := by
    intro a b h
    cases a
    cases b
    cases h
    rfl
  exact ((Fp2.lossless.append Fp2.lossless).append Fp2.lossless).comp hparts

theorem Fp12.lossless : Lossless littleEndian (12*Fp.size) := by
  have hparts : Injective (fun a : Fp12 => (a.c0, a.c1)) := by
    intro a b h
    cases a
    cases b
    cases h
    rfl
  exact (Fp6.lossless.append Fp6.lossless).comp hparts

/-! Each level turned round: its parts change places, and each of them is turned round. -/

theorem Fp2.reverse_littleEndian (a : Fp2) :
    a.littleEndian.reverse = [a.c1, a.c0].flatMap Fp.bytes := by
  rw [littleEndian, List.reverse_append]
  simp [Fp.bytes, Fp.littleEndian, Bytes.bigEndian]

theorem Fp6.reverse_littleEndian (a : Fp6) :
    a.littleEndian.reverse =
      [a.c2.c1, a.c2.c0, a.c1.c1, a.c1.c0, a.c0.c1, a.c0.c0].flatMap Fp.bytes := by
  rw [littleEndian, List.reverse_append, List.reverse_append, Fp2.reverse_littleEndian,
    Fp2.reverse_littleEndian, Fp2.reverse_littleEndian, ← List.flatMap_append,
    ← List.flatMap_append]
  rfl

theorem Fp12.bytes_eq (a : Fp12) :
    a.bytes = [a.c1.c2.c1, a.c1.c2.c0, a.c1.c1.c1, a.c1.c1.c0, a.c1.c0.c1, a.c1.c0.c0,
      a.c0.c2.c1, a.c0.c2.c0, a.c0.c1.c1, a.c0.c1.c0, a.c0.c0.c1, a.c0.c0.c0].flatMap Fp.bytes := by
  rw [bytes, littleEndian, List.reverse_append, Fp6.reverse_littleEndian,
    Fp6.reverse_littleEndian, ← List.flatMap_append]
  rfl

/-- The twelve coefficients stand in the order of the tower, the highest first, and each takes 48
bytes with the highest first. From the 576 bytes the value is known. -/
theorem Fp12.bytes_descending :
    (∀ a : Fp12, a.bytes =
      [a.c1.c2.c1, a.c1.c2.c0, a.c1.c1.c1, a.c1.c1.c0, a.c1.c0.c1, a.c1.c0.c0,
        a.c0.c2.c1, a.c0.c2.c0, a.c0.c1.c1, a.c0.c1.c0, a.c0.c0.c1, a.c0.c0.c0].flatMap
          (fun c => Bytes.bigEndian 48 c.val)) ∧
    (∀ a : Fp12, a.bytes.length = 576) ∧ Injective Fp12.bytes := by
  refine ⟨bytes_eq, fun a => ?_, fun a b h => ?_⟩
  · rw [bytes, List.length_reverse, lossless.length]
    rfl
  · exact lossless.injective (List.reverse_injective h)

end BeaconSeal
