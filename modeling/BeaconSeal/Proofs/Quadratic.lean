import BeaconSeal.Curve.Group
import BeaconSeal.Proofs.Fields
import Mathlib.Algebra.QuadraticAlgebra.Basic
import Mathlib.Tactic.FieldSimp
/-! The extension of degree two, with a root of negative one adjoined to the integers modulo the
prime. Main statements: as for the prime field, a square root that is found is one, of every square
one is found, and each element is written as one string of bytes. -/
namespace BeaconSeal
open FieldOps

namespace Fp2

instance : Fact (∀ r : ZMod Fp.modulus, r^2 ≠ -1 + 0*r) := by
  refine ⟨fun r hr => ?_⟩
  rw [zero_mul, add_zero] at hr
  exact ZMod.mod_four_ne_three_of_sq_eq_neg_one hr (by decide)

def residue (a : Fp2) : QuadraticAlgebra (ZMod Fp.modulus) (-1) 0 := ⟨a.c0.residue, a.c1.residue⟩

theorem embedding : FieldOps.Embedding residue where
  injective := by
    intro a b h
    obtain ⟨h0, h1⟩ := QuadraticAlgebra.ext_iff.1 h
    cases a
    cases b
    exact (mk.injEq ..).mpr ⟨Fp.embedding.injective h0, Fp.embedding.injective h1⟩
  map_zero := rfl
  map_one := rfl
  map_add a b := QuadraticAlgebra.ext (Fp.embedding.map_add _ _) (Fp.embedding.map_add _ _)
  map_sub a b := QuadraticAlgebra.ext (Fp.embedding.map_sub _ _) (Fp.embedding.map_sub _ _)
  map_neg a := QuadraticAlgebra.ext (Fp.embedding.map_neg _) (Fp.embedding.map_neg _)
  map_mul a b := by
    change residue (mul a b) = _
    ext
    · simp only [residue, mul, Fp.embedding.map_sub, Fp.embedding.map_mul, QuadraticAlgebra.re_mul]
      ring
    · simp only [residue, mul, Fp.embedding.map_sub, Fp.embedding.map_add, Fp.embedding.map_mul,
        QuadraticAlgebra.im_mul]
      ring

theorem real_mul_self (r : Fp) : (⟨r, 0⟩ : Fp2)*⟨r, 0⟩ = ⟨r*r, 0⟩ := by
  apply embedding.injective
  rw [embedding.map_mul]
  ext <;> simp [residue, Fp.embedding.map_mul, Fp.embedding.map_zero]

theorem imaginary_mul_self (r : Fp) : (⟨0, r⟩ : Fp2)*⟨0, r⟩ = ⟨-(r*r), 0⟩ := by
  apply embedding.injective
  rw [embedding.map_mul]
  ext <;> simp [residue, Fp.embedding.map_mul, Fp.embedding.map_neg, Fp.embedding.map_zero]

theorem residue_imaginary (y : Fp2) :
    (y*y).c1.residue = 2*(y.c0.residue*y.c1.residue) := by
  have h := congrArg QuadraticAlgebra.im (embedding.map_mul y y)
  rw [QuadraticAlgebra.im_mul] at h
  refine h.trans ?_
  simp only [residue]
  ring

theorem residue_real (y : Fp2) : (y*y).c0.residue = y.c0.residue^2 - y.c1.residue^2 := by
  have h := congrArg QuadraticAlgebra.re (embedding.map_mul y y)
  rw [QuadraticAlgebra.re_mul] at h
  refine h.trans ?_
  simp only [residue]
  ring

theorem residue_norm (y : Fp2) : (norm y).residue = y.c0.residue^2 + y.c1.residue^2 := by
  rw [norm, Fp.embedding.map_add, Fp.embedding.map_mul, Fp.embedding.map_mul, sq, sq]

theorem norm_mul_self (y : Fp2) : norm (y*y) = norm y * norm y := by
  apply Fp.embedding.injective
  rw [Fp.embedding.map_mul, residue_norm, residue_norm, residue_real, residue_imaginary]
  ring

theorem real_iff {y : Fp2} : (y*y).c1 = 0 ↔ y.c0 = 0 ∨ y.c1 = 0 := by
  have hzero (a : Fp) : a = 0 ↔ a.residue = 0 := by
    rw [← Fp.embedding.map_zero, Fp.embedding.injective.eq_iff]
  rw [hzero, hzero, hzero, residue_imaginary, mul_eq_zero, mul_eq_zero]
  exact or_iff_right Fp.two_ne_zero

/-- The root through the norm, with whatever the prime field gives for a root, a half and an
inverse. Were these the functions themselves, comparing two forms of the root would evaluate them. -/
def sqrtBy (root : Fp → Option Fp) (half : Fp) (inverse : Fp → Fp) (a : Fp2) : Option Fp2 :=
  if a.c1 = 0 then
    match root a.c0 with
    | some r => some ⟨r, 0⟩
    | none => (root (-a.c0)).map (fun r => ⟨0, r⟩)
  else do
    let s ← root (norm a)
    let x ← match root ((a.c0+s)*half) with
      | some x => some x
      | none => root ((a.c0-s)*half)
    let r : Fp2 := ⟨x, a.c1*half*inverse x⟩
    if r*r = a then some r else none

theorem sqrt?_eq (a : Fp2) : sqrt? a = sqrtBy Fp.sqrt? (inv (double 1)) inv a := by
  unfold sqrt? sqrtBy
  generalize Fp.sqrt? = root
  revert root
  refine id ?_
  intro root
  rfl

theorem sqrtBy_of_root {root : Fp → Option Fp} {half : Fp} {inverse : Fp → Fp} {a : Fp2}
    {s x : Fp} (ha : a.c1 ≠ 0) (hs : root (norm a) = some s)
    (hx : (root ((a.c0+s)*half)).or (root ((a.c0-s)*half)) = some x)
    (hroot : (⟨x, a.c1*half*inverse x⟩ : Fp2)*⟨x, a.c1*half*inverse x⟩ = a) :
    sqrtBy root half inverse a = some ⟨x, a.c1*half*inverse x⟩ := by
  rw [sqrtBy, if_neg ha, hs]
  simp only [Option.bind_eq_bind, Option.bind_some]
  cases hfirst : root ((a.c0+s)*half) with
  | some x' =>
    rw [hfirst, Option.some_or] at hx
    cases hx
    exact if_pos hroot
  | none =>
    rw [hfirst, Option.none_or] at hx
    rw [hx]
    exact if_pos hroot

structure Roots (root : Fp → Option Fp) (half : Fp) (inverse : Fp → Fp) : Prop where
  mul_self {a r} : root a = some r → r*r = a
  exists_root (y) : ∃ r, root (y*y) = some r
  residue_half : half.residue = 2⁻¹
  residue_inverse (a) : (inverse a).residue = a.residue⁻¹

theorem roots : Roots Fp.sqrt? (inv (double 1)) inv where
  mul_self := Fp.mul_self_of_sqrt?
  exists_root := Fp.exists_sqrt?
  residue_half := Fp.residue_half
  residue_inverse := Fp.residue_inv

namespace Roots
variable {root : Fp → Option Fp} {half : Fp} {inverse : Fp → Fp} (R : Roots root half inverse)
include R

theorem mul_self_of_sqrtBy {a r : Fp2} (h : sqrtBy root half inverse a = some r) : r*r = a := by
  unfold sqrtBy at h
  split at h
  next hreal =>
    cases hroot : root a.c0 with
    | some x =>
      rw [hroot] at h
      cases h
      rw [real_mul_self, R.mul_self hroot, ← hreal]
    | none =>
      rw [hroot] at h
      obtain ⟨x, hx, rfl⟩ := Option.map_eq_some_iff.1 h
      rw [imaginary_mul_self, R.mul_self hx, Fp.embedding.neg_neg_self, ← hreal]
  · simp only [Option.bind_eq_bind, Option.bind_eq_some_iff] at h
    obtain ⟨s, _, h⟩ := h
    split at h
    all_goals
      obtain ⟨x, _, h⟩ := Option.bind_eq_some_iff.1 h
      obtain ⟨hroot, hr⟩ := Option.ite_none_right_eq_some.1 h
      rw [← Option.some.inj hr]
      exact hroot

theorem half_add (y : Fp2) : ((y*y).c0 + norm y)*half = y.c0*y.c0 := by
  have h2 := Fp.two_ne_zero
  apply Fp.embedding.injective
  rw [Fp.embedding.map_mul, Fp.embedding.map_add, R.residue_half, residue_real, residue_norm,
    Fp.embedding.map_mul]
  field_simp
  ring

theorem half_sub (y : Fp2) : ((y*y).c0 - norm y)*half = -(y.c1*y.c1) := by
  have h2 := Fp.two_ne_zero
  apply Fp.embedding.injective
  rw [Fp.embedding.map_mul, Fp.embedding.map_sub, R.residue_half, residue_real, residue_norm,
    Fp.embedding.map_neg, Fp.embedding.map_mul]
  field_simp
  ring

/-- Of the two candidates for the square of the real part the one is that square, and the other
the negative of the square of the part at `u`, which has no root. -/
theorem exists_real {y : Fp2} {s : Fp} (himaginary : y.c1 ≠ 0)
    (hs : root (norm (y*y)) = some s) : ∃ x, (x = y.c0 ∨ x = -y.c0) ∧
      (root (((y*y).c0 + s)*half)).or (root (((y*y).c0 - s)*half)) = some x := by
  obtain ⟨x, hx⟩ := R.exists_root y.c0
  have hnorm : s*s = norm y * norm y := by rw [R.mul_self hs, norm_mul_self]
  refine ⟨x, Fp.embedding.eq_or_neg (R.mul_self hx), ?_⟩
  rcases Fp.embedding.eq_or_neg hnorm with rfl | rfl
  · rw [R.half_add, hx, Option.some_or]
  · have hnone : root (-(y.c1*y.c1)) = none := by
      refine Option.eq_none_iff_forall_ne_some.2 fun r hr => ?_
      exact Fp.mul_self_ne_neg himaginary (R.mul_self hr)
    rw [Fp.embedding.add_neg, R.half_sub, hnone, Fp.embedding.sub_neg, R.half_add, hx,
      Option.none_or]

/-- The part at `u` is half of that of the square, over the real part. -/
theorem mul_self_of_real {x : Fp} {y : Fp2} (hreal : y.c0 ≠ 0) (hx : x = y.c0 ∨ x = -y.c0) :
    (⟨x, (y*y).c1*half*inverse x⟩ : Fp2)*⟨x, (y*y).c1*half*inverse x⟩ = y*y := by
  have h2 := Fp.two_ne_zero
  have h0 := Fp.embedding.ne_zero_iff.1 hreal
  rcases hx with rfl | rfl
  · have himaginary : (y*y).c1*half*inverse y.c0 = y.c1 := by
      apply Fp.embedding.injective
      rw [Fp.embedding.map_mul, Fp.embedding.map_mul, R.residue_half, R.residue_inverse,
        residue_imaginary]
      field_simp
    rw [himaginary]
  · have himaginary : (y*y).c1*half*inverse (-y.c0) = -y.c1 := by
      apply Fp.embedding.injective
      rw [Fp.embedding.map_mul, Fp.embedding.map_mul, R.residue_half, R.residue_inverse,
        residue_imaginary, Fp.embedding.map_neg, Fp.embedding.map_neg]
      field_simp
    rw [himaginary]
    exact embedding.neg_mul_neg y

theorem exists_sqrtBy (y : Fp2) : ∃ r, sqrtBy root half inverse (y*y) = some r := by
  by_cases hreal : (y*y).c1 = 0
  · obtain ⟨y0, y1⟩ := y
    rcases real_iff.1 hreal with h | h
    · dsimp only at h
      subst h
      rw [sqrtBy, imaginary_mul_self, if_pos rfl]
      cases root (-(y1*y1)) with
      | some r => exact ⟨_, rfl⟩
      | none =>
        obtain ⟨r, hr⟩ := R.exists_root y1
        rw [Fp.embedding.neg_neg_self, hr]
        exact ⟨_, rfl⟩
    · dsimp only at h
      subst h
      obtain ⟨r, hr⟩ := R.exists_root y0
      rw [sqrtBy, real_mul_self, if_pos rfl, hr]
      exact ⟨_, rfl⟩
  · obtain ⟨s, hs⟩ : ∃ s, root (norm (y*y)) = some s := by
      rw [norm_mul_self]
      exact R.exists_root _
    obtain ⟨h0, h1⟩ := not_or.1 (mt real_iff.2 hreal)
    obtain ⟨x, hx, hroot⟩ := R.exists_real h1 hs
    exact ⟨_, sqrtBy_of_root hreal hs hroot (R.mul_self_of_real h0 hx)⟩

end Roots

theorem mul_self_of_sqrt? {a r : Fp2} (h : sqrt? a = some r) : r*r = a :=
  roots.mul_self_of_sqrtBy (sqrt?_eq a ▸ h)

theorem exists_sqrt? (y : Fp2) : ∃ r, sqrt? (y*y) = some r := by
  rw [sqrt?_eq]
  exact roots.exists_sqrtBy y

theorem isLarge_neg {a : Fp2} (ha : a ≠ 0) : (-a).isLarge = !a.isLarge := by
  have hzero : -(0 : Fp) = 0 := rfl
  change (if -a.c1 = 0 then (-a.c0).isLarge else (-a.c1).isLarge) = !isLarge a
  rw [isLarge]
  by_cases h1 : a.c1 = 0
  · have h0 : a.c0 ≠ 0 := by
      intro h0
      cases a
      cases h0
      cases h1
      exact ha rfl
    rw [h1, hzero, if_pos rfl, if_pos rfl, Fp.isLarge_neg h0]
  · have hneg : -a.c1 ≠ 0 := by
      intro h
      rw [← Fp.embedding.neg_neg_self a.c1, h] at h1
      exact h1 hzero
    rw [if_neg h1, if_neg hneg, Fp.isLarge_neg h1]

/-! Elements as strings of bytes. -/

theorem length_bytes (a : Fp2) : a.bytes.length = 2*Fp.size := by
  rw [bytes, List.length_append, Fp.length_bytes, Fp.length_bytes, Nat.two_mul]

theorem ofBytes?_eq_some_iff {b : Bytes} (hb : b.length = 2*Fp.size) {a : Fp2} :
    ofBytes? b = some a ↔ a.bytes = b := by
  have htake : (b.take Fp.size).length = Fp.size := by
    rw [List.length_take, hb]
    rfl
  have hdrop : (b.drop Fp.size).length = Fp.size := by
    rw [List.length_drop, hb]
    rfl
  simp only [ofBytes?, Option.bind_eq_bind, Option.bind_eq_some_iff, Option.some.injEq,
    Fp.ofBytes?_eq_some_iff htake, Fp.ofBytes?_eq_some_iff hdrop]
  constructor
  · intro h
    obtain ⟨c1, h1, c0, h0, rfl⟩ := h
    rw [bytes, h1, h0, List.take_append_drop]
  · intro h
    obtain ⟨h1, h0⟩ := List.append_inj (h.trans (List.take_append_drop Fp.size b).symm)
      ((Fp.length_bytes _).trans htake.symm)
    exact ⟨a.c1, h1, a.c0, h0, rfl⟩

theorem lt_of_bytes {a : Fp2} {x : UInt8} {b : Bytes} (h : a.bytes = x :: b) :
    x.toNat < 32 := by
  have hlength := Fp.length_bytes a.c1
  cases h1 : a.c1.bytes with
  | nil =>
    rw [h1] at hlength
    cases hlength
  | cons y c =>
    rw [bytes, h1, List.cons_append] at h
    exact (List.cons.inj h).1 ▸ Fp.lt_of_bytes h1

end Fp2
end BeaconSeal
