import BeaconSeal.Bytes.Endian
import BeaconSeal.Proofs.Modulus
import Mathlib.NumberTheory.LegendreSymbol.Basic
import Mathlib.Tactic.Ring
/-! The prime field as the integers modulo a prime. Main statements: a square root that is found is
one, of every square one is found, and each element is written as one string of bytes. -/
namespace BeaconSeal
open FieldOps

structure FieldOps.Embedding {F K : Type} [FieldOps F] [Field K] (φ : F → K) : Prop where
  injective : Function.Injective φ
  map_zero : φ 0 = 0
  map_one : φ 1 = 1
  map_add (a b) : φ (a+b) = φ a + φ b
  map_sub (a b) : φ (a-b) = φ a - φ b
  map_neg (a) : φ (-a) = -φ a
  map_mul (a b) : φ (a*b) = φ a * φ b

namespace FieldOps.Embedding
variable {F K : Type} [FieldOps F] [Field K] {φ : F → K} (h : Embedding φ)
include h

theorem ne_zero_iff {a : F} : a ≠ 0 ↔ φ a ≠ 0 := by
  rw [← h.map_zero, h.injective.ne_iff]

theorem eq_or_neg {a b : F} (hab : a*a = b*b) : a = b ∨ a = -b := by
  have hφ : φ a * φ a = φ b * φ b := by rw [← h.map_mul, hab, h.map_mul]
  rcases mul_self_eq_mul_self_iff.1 hφ with heq | heq
  · exact .inl (h.injective heq)
  · exact .inr (h.injective (heq.trans (h.map_neg b).symm))

theorem neg_mul_neg (a : F) : -a * -a = a*a := by
  apply h.injective
  rw [h.map_mul, h.map_neg, h.map_mul]
  ring

theorem neg_neg_self (a : F) : - -a = a := by
  apply h.injective
  rw [h.map_neg, h.map_neg, neg_neg]

theorem add_neg (a b : F) : a + -b = a - b := by
  apply h.injective
  rw [h.map_add, h.map_neg, h.map_sub, sub_eq_add_neg]

theorem sub_neg (a b : F) : a - -b = a + b := by
  apply h.injective
  rw [h.map_sub, h.map_neg, h.map_add, sub_neg_eq_add]

/-- Each digit squares what there is, and the digit one puts in a factor. -/
theorem map_foldl (x : F) (n k : Nat) (acc : F) :
    φ (((List.range k).reverse.map n.testBit).foldl
      (fun acc bit => if bit then square acc * x else square acc) acc) =
        φ acc ^ 2^k * φ x ^ (n % 2^k) := by
  induction k generalizing acc with
  | zero => simp [Nat.mod_one]
  | succ k ih =>
    have hsquare : φ (square acc) = φ acc ^ 2 := by rw [square, h.map_mul, sq]
    rw [List.range_succ, List.reverse_append, List.reverse_singleton, List.singleton_append,
      List.map_cons, List.foldl_cons, ih, Nat.mod_pow_succ, ← Nat.toNat_testBit]
    cases n.testBit k with
    | false =>
      simp only [Bool.false_eq_true, if_false, Bool.toNat_false, hsquare]
      ring
    | true =>
      simp only [if_true, Bool.toNat_true, h.map_mul, hsquare]
      ring

theorem map_power (x : F) (n : Nat) : φ (power x n) = φ x ^ n := by
  rw [power, binary, h.map_foldl, h.map_one, one_pow, one_mul, Nat.mod_eq_of_lt Nat.lt_log2_self]

end FieldOps.Embedding

instance : Fact Fp.modulus.Prime := ⟨Fp.modulus_prime⟩

namespace Fp

def residue (a : Fp) : ZMod modulus := a.val

theorem residue_ofNat (n : Nat) : (ofNat n).residue = n := ZMod.natCast_mod n modulus

theorem residue_neg (a : Fp) : (-a).residue = -a.residue := by
  change (ofNat (modulus - a.val)).residue = _
  rw [residue_ofNat, Nat.cast_sub a.isLt.le, ZMod.natCast_self, zero_sub, residue]

theorem embedding : FieldOps.Embedding residue where
  injective := by
    intro a b h
    have hval := (ZMod.natCast_eq_natCast_iff' a.val b.val modulus).1 h
    rw [Nat.mod_eq_of_lt a.isLt, Nat.mod_eq_of_lt b.isLt] at hval
    cases a
    cases b
    exact (mk.injEq ..).mpr hval
  map_zero := rfl
  map_one := rfl
  map_add a b := by
    change (ofNat (a.val + b.val)).residue = _
    rw [residue_ofNat, Nat.cast_add, residue, residue]
  map_sub a b := by
    change (ofNat (a.val + (modulus - b.val))).residue = _
    rw [residue_ofNat, Nat.cast_add, Nat.cast_sub b.isLt.le, ZMod.natCast_self, residue, residue]
    ring
  map_neg := residue_neg
  map_mul a b := by
    change (ofNat (a.val * b.val)).residue = _
    rw [residue_ofNat, Nat.cast_mul, residue, residue]

theorem residue_power (a : Fp) (n : Nat) : (power a n).residue = a.residue^n :=
  embedding.map_power a n

theorem residue_inv (a : Fp) : (inv a).residue = a.residue⁻¹ := by
  change (power a (modulus-2)).residue = _
  have hsum : modulus-2+1 = modulus-1 := by decide
  rw [residue_power]
  by_cases ha : a.residue = 0
  · rw [ha, zero_pow (by decide), inv_zero]
  · refine eq_inv_of_mul_eq_one_left ?_
    rw [← pow_succ, hsum, ZMod.pow_card_sub_one_eq_one ha]

theorem mul_self_of_sqrt? {a r : Fp} (h : sqrt? a = some r) : r*r = a := by
  obtain ⟨hroot, hr⟩ := Option.ite_none_right_eq_some.1 h
  rw [← Option.some.inj hr]
  exact hroot

/-- The power of a square by a quarter of one more than the modulus is a root of the square, by
Fermat's theorem. -/
theorem exists_sqrt? (y : Fp) : ∃ r, sqrt? (y*y) = some r := by
  have hroot : power (y*y) ((modulus+1)/4) * power (y*y) ((modulus+1)/4) = y*y := by
    have hquarter : (modulus+1)/4+(modulus+1)/4+((modulus+1)/4+(modulus+1)/4) = modulus+1 := by decide
    apply embedding.injective
    rw [embedding.map_mul, residue_power, embedding.map_mul, ← pow_add, mul_pow, ← pow_add,
      hquarter, pow_succ, ZMod.pow_card]
  exact ⟨_, if_pos hroot⟩

/-- The negative of a square is none, except for zero. -/
theorem mul_self_ne_neg {y r : Fp} (hy : y ≠ 0) : r*r ≠ -(y*y) := by
  intro h
  have hr := congrArg residue h
  rw [embedding.map_mul, embedding.map_neg, embedding.map_mul, ← sq, ← sq] at hr
  exact ZMod.mod_four_ne_three_of_sq_eq_neg_sq' (embedding.ne_zero_iff.1 hy) hr (by decide)

theorem natCast_ne_zero {n : Nat} (hpos : 0 < n) (hlt : n < modulus) :
    (n : ZMod modulus) ≠ 0 := by
  intro h
  exact absurd (Nat.le_of_dvd hpos ((ZMod.natCast_eq_zero_iff n modulus).1 h)) (Nat.not_le.2 hlt)

theorem two_ne_zero : (2 : ZMod modulus) ≠ 0 :=
  natCast_ne_zero (n := 2) (by decide) (by decide)

theorem residue_half : (inv (double (1 : Fp))).residue = 2⁻¹ := by
  rw [residue_inv, double, embedding.map_add, embedding.map_one, one_add_one_eq_two]

theorem isLarge_neg {a : Fp} (ha : a ≠ 0) : (-a).isLarge = !a.isLarge := by
  have hpos : 0 < a.val := by
    refine Nat.pos_of_ne_zero fun h => ha ?_
    cases a
    cases h
    rfl
  have hlt := a.isLt
  have hval : (-a).val = modulus - a.val := Nat.mod_eq_of_lt (by omega)
  have hodd : modulus % 2 = 1 := by decide
  rw [isLarge, isLarge, hval, ← decide_not, decide_eq_decide]
  omega

/-! Elements as strings of bytes. -/

theorem length_bytes (a : Fp) : a.bytes.length = size := Bytes.length_bigEndian _ _

theorem ofBigEndian_bytes (a : Fp) : Bytes.ofBigEndian a.bytes = a.val := by
  have hlt := a.isLt
  have hsize : modulus ≤ 256^size := by decide
  rw [bytes, Bytes.ofBigEndian_bigEndian, Nat.mod_eq_of_lt (by omega)]

theorem ofBytes?_eq_some_iff {b : Bytes} (hb : b.length = size) {a : Fp} :
    ofBytes? b = some a ↔ a.bytes = b := by
  rw [ofBytes?]
  constructor
  · intro h
    obtain ⟨hlt, ha⟩ := Option.dite_none_right_eq_some.1 h
    rw [← Option.some.inj ha, bytes, ← hb, Bytes.bigEndian_ofBigEndian]
  · intro h
    have hval : Bytes.ofBigEndian b = a.val := by rw [← h, ofBigEndian_bytes]
    simp only [hval, a.isLt, dite_true]

/-- The three highest bits of the first byte are free. -/
theorem lt_of_bytes {a : Fp} {x : UInt8} {b : Bytes} (h : a.bytes = x :: b) : x.toNat < 32 := by
  have hlength : b.length = 47 := by
    have hcons := length_bytes a
    rw [h, List.length_cons] at hcons
    exact Nat.succ.inj hcons
  have hval := ofBigEndian_bytes a
  rw [h, Bytes.ofBigEndian_cons, hlength] at hval
  have hlt := a.isLt
  have hmodulus : modulus < 32*256^47 := by decide
  by_contra hle
  have hmul : 32*256^47 ≤ x.toNat*256^47 := Nat.mul_le_mul_right _ (Nat.not_lt.1 hle)
  omega

end Fp

end BeaconSeal
