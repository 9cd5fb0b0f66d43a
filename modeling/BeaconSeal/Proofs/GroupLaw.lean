import BeaconSeal.Proofs.Points
import Mathlib.AlgebraicGeometry.EllipticCurve.Affine.Point
import Mathlib.Tactic.LinearCombination
/-! Points as elements of the group of a curve. Main statement: the multiples that are computed with a
common denominator are the multiples in the group, so that the points whose multiple by the order is
infinity are a subgroup of it. -/
namespace BeaconSeal
open FieldOps

def curve {K : Type} [Field K] (b : K) : WeierstrassCurve.Affine K := ⟨0, 0, 0, 0, b⟩

namespace curve
variable {K : Type} [Field K] {b x x' y y' s : K}

theorem negY_eq : (curve b).negY x y = -y := by
  simp [curve, WeierstrassCurve.Affine.negY]

theorem addX_eq : (curve b).addX x x' s = s^2 - x - x' := by
  simp [curve, WeierstrassCurve.Affine.addX]

theorem addY_eq : (curve b).addY x x' y s = s*(x - (s^2 - x - x')) - y := by
  rw [WeierstrassCurve.Affine.addY, negY_eq, WeierstrassCurve.Affine.negAddY, addX_eq]
  ring

/-- With no double root on the right every point of the curve has a tangent. -/
theorem nonsingular_iff (h2 : (2 : K) ≠ 0) (h3 : (3 : K) ≠ 0) (hb : b ≠ 0) :
    (curve b).Nonsingular x y ↔ y*y = x*x*x + b := by
  have hdiscriminant : (curve b).Δ ≠ 0 := by
    have hvalue : (curve b).Δ = -(2^4*3^3*b^2) := by
      simp only [curve, WeierstrassCurve.Δ, WeierstrassCurve.b₂, WeierstrassCurve.b₄,
        WeierstrassCurve.b₆, WeierstrassCurve.b₈]
      ring
    rw [hvalue, neg_ne_zero]
    exact mul_ne_zero (mul_ne_zero (pow_ne_zero 4 h2) (pow_ne_zero 3 h3)) (pow_ne_zero 2 hb)
  rw [← (curve b).equation_iff_nonsingular_of_Δ_ne_zero hdiscriminant,
    WeierstrassCurve.Affine.equation_iff]
  simp only [curve]
  constructor <;> intro h <;> linear_combination h

variable [DecidableEq K]

theorem slope_mul (hx : x ≠ x') : (curve b).slope x x' y y' * (x-x') = y-y' := by
  rw [WeierstrassCurve.Affine.slope_of_X_ne hx, div_mul_cancel₀ _ (sub_ne_zero.2 hx)]

theorem slope_self_mul (h2 : (2 : K) ≠ 0) (hy : y ≠ 0) :
    (curve b).slope x x y y * (2*y) = 3*x^2 := by
  have hne : 2*y ≠ 0 := mul_ne_zero h2 hy
  have hslope : (curve b).slope x x y y = 3*x^2/(2*y) := by
    rw [WeierstrassCurve.Affine.slope_of_Y_ne rfl, negY_eq]
    · simp only [curve]
      ring_nf
    · rw [negY_eq]
      intro h
      exact hne (by linear_combination h)
  rw [hslope, div_mul_cancel₀ _ hne]

end curve

namespace FieldOps.Embedding
variable {F K : Type} [FieldOps F] [Field K] {φ : F → K} (h : Embedding φ)
include h

theorem map_square (a : F) : φ (square a) = φ a ^ 2 := by rw [square, h.map_mul, sq]
theorem map_double (a : F) : φ (double a) = 2*φ a := by rw [double, h.map_add, two_mul]

theorem map_triple (a : F) : φ (triple a) = 3*φ a := by
  rw [triple, h.map_add, h.map_add]
  ring

end FieldOps.Embedding

namespace Jacobian
variable {F K : Type} [FieldOps F] [Field K] {b : K}

inductive Represents (φ : F → K) (p : Jacobian F) : (curve b).Point → Prop where
  | zero (hz : φ p.z = 0) : Represents φ p 0
  | some {x y : K} (h : (curve b).Nonsingular x y) (hz : φ p.z ≠ 0)
    (hx : φ p.x = x*φ p.z^2) (hy : φ p.y = y*φ p.z^3) : Represents φ p (.some x y h)

section
variable {φ : F → K} (L : FieldOps.Embedding φ) {p q : Jacobian F} {x x' y y' s : K}
include L

theorem map_twice_z : φ p.twice.z = 2*(φ p.y*φ p.z) := by
  rw [twice, L.map_double, L.map_mul]

/-- The slope is that of the tangent. -/
theorem map_twice (hs : s*(2*y) = 3*x^2) (hx : φ p.x = x*φ p.z^2) (hy : φ p.y = y*φ p.z^3) :
    φ p.twice.x = (s^2-x-x)*φ p.twice.z^2 ∧
      φ p.twice.y = (s*(x-(s^2-x-x))-y)*φ p.twice.z^3 := by
  have hz : φ p.twice.z = 2*y*φ p.z^4 := by
    rw [map_twice_z L, hy]
    ring
  have hsquare : 3*φ p.x^2 = s*φ p.twice.z := by
    rw [hz, hx]
    linear_combination -φ p.z^4*hs
  have hd : 2*((φ p.x + φ p.y^2)^2 - φ p.x^2 - (φ p.y^2)^2) = x*φ p.twice.z^2 := by
    rw [hz, hx, hy]
    ring
  have hfourth : 2*(2*(2*(φ p.y^2)^2)) = y*φ p.twice.z^3 := by
    rw [hz, hy]
    ring
  have hx3 : φ p.twice.x = (s^2-x-x)*φ p.twice.z^2 := by
    have hvalue : φ p.twice.x = (3*φ p.x^2)^2 -
        2*(2*((φ p.x + φ p.y^2)^2 - φ p.x^2 - (φ p.y^2)^2)) := by
      simp only [twice, L.map_square, L.map_double, L.map_triple, L.map_sub, L.map_add]
    rw [hvalue, hsquare, hd]
    ring
  refine ⟨hx3, ?_⟩
  have hvalue : φ p.twice.y = 3*φ p.x^2*
      (2*((φ p.x + φ p.y^2)^2 - φ p.x^2 - (φ p.y^2)^2) - φ p.twice.x) -
        2*(2*(2*(φ p.y^2)^2)) := by
    simp only [twice, L.map_square, L.map_double, L.map_triple, L.map_sub, L.map_add, L.map_mul]
  rw [hvalue, hsquare, hd, hfourth, hx3]
  ring

/-- The sum of two points with the abscissae `u` and `u+h` and the ordinates `t` and `t+r`, all
over the denominator `d`. -/
def chord (u h t r d : F) : Jacobian F :=
  let x := square r - h*square h - double (u*square h)
  ⟨x, r*(u*square h - x) - t*(h*square h), h*d⟩

/-- The slope is that of the chord. -/
theorem map_chord {u h t r d : F} (hs : s*(x'-x) = y'-y) (hu : φ u = x*φ d^2)
    (hh : φ h = (x'-x)*φ d^2) (ht : φ t = y*φ d^3) (hr : φ r = (y'-y)*φ d^3) :
    φ (chord u h t r d).x = (s^2-x-x')*φ (chord u h t r d).z^2 ∧
      φ (chord u h t r d).y = (s*(x-(s^2-x-x'))-y)*φ (chord u h t r d).z^3 := by
  have hz : φ (chord u h t r d).z = (x'-x)*φ d^3 := by
    rw [chord, L.map_mul, hh]
    ring
  have hr : φ r = s*φ (chord u h t r d).z := by
    rw [hr, hz, ← hs]
    ring
  have hv : φ u*φ h^2 = x*φ (chord u h t r d).z^2 := by
    rw [hu, hh, hz]
    ring
  have hx : φ (chord u h t r d).x = (s^2-x-x')*φ (chord u h t r d).z^2 := by
    have hvalue : φ (chord u h t r d).x = φ r^2 - φ h*φ h^2 - 2*(φ u*φ h^2) := by
      simp only [chord, L.map_square, L.map_double, L.map_sub, L.map_mul]
    rw [hvalue, hr, hv, hh, hz]
    ring
  refine ⟨hx, ?_⟩
  have hvalue : φ (chord u h t r d).y =
      φ r*(φ u*φ h^2 - φ (chord u h t r d).x) - φ t*(φ h*φ h^2) := by
    simp only [chord, L.map_square, L.map_double, L.map_sub, L.map_mul]
  rw [hvalue, hr, hv, hx, ht, hh, hz]
  ring

end

def run (p q : Jacobian F) : F := q.x*square p.z - p.x*square q.z

def rise (p q : Jacobian F) : F := q.y*(p.z*square p.z) - p.y*(q.z*square q.z)

section
variable {φ : F → K} (L : FieldOps.Embedding φ) {p q : Jacobian F} {x x' y y' : K}
include L

theorem map_abscissa (hx : φ p.x = x*φ p.z^2) (d : F) : φ (p.x*square d) = x*φ (p.z*d)^2 := by
  rw [L.map_mul, L.map_square, L.map_mul, hx]
  ring

theorem map_ordinate (hy : φ p.y = y*φ p.z^3) (d : F) :
    φ (p.y*(d*square d)) = y*φ (p.z*d)^3 := by
  rw [L.map_mul, L.map_mul, L.map_square, L.map_mul, hy]
  ring

theorem map_run (hx : φ p.x = x*φ p.z^2) (hx' : φ q.x = x'*φ q.z^2) :
    φ (run p q) = (x'-x)*φ (p.z*q.z)^2 := by
  rw [run, L.map_sub, map_abscissa L hx, map_abscissa L hx', L.map_mul, L.map_mul]
  ring

theorem map_rise (hy : φ p.y = y*φ p.z^3) (hy' : φ q.y = y'*φ q.z^3) :
    φ (rise p q) = (y'-y)*φ (p.z*q.z)^3 := by
  rw [rise, L.map_sub, map_ordinate L hy, map_ordinate L hy', L.map_mul, L.map_mul]
  ring

theorem map_denominator_ne_zero (hz : φ p.z ≠ 0) (hz' : φ q.z ≠ 0) : φ (p.z*q.z) ≠ 0 := by
  rw [L.map_mul]
  exact mul_ne_zero hz hz'

end

theorem add_eq [DecidableEq F] {p q : Jacobian F} (hp : p.z ≠ 0) (hq : q.z ≠ 0) :
    p.add q = if run p q = 0 then if rise p q = 0 then p.twice else infinity
      else chord (p.x*square q.z) (run p q) (p.y*(q.z*square q.z)) (rise p q) (p.z*q.z) := by
  rw [add, if_neg hp, if_neg hq]
  rfl

section
variable [DecidableEq K] {φ : F → K} (L : FieldOps.Embedding φ) (h2 : (2 : K) ≠ 0)
  {p q : Jacobian F} {P Q : (curve b).Point}
include L

omit [DecidableEq K] in
theorem z_eq_zero_iff (hp : Represents φ p P) : p.z = 0 ↔ P = 0 := by
  cases hp with
  | zero hz => exact iff_of_true (L.injective (hz.trans L.map_zero.symm)) rfl
  | some hP hz =>
    exact iff_of_false (L.ne_zero_iff.2 hz) (WeierstrassCurve.Affine.Point.some_ne_zero hP)

include h2

/-- A point with ordinate zero is its own negative, and the double of every other one is given by
the tangent. -/
theorem represents_twice (hp : Represents φ p P) : Represents φ p.twice (P+P) := by
  cases hp with
  | zero hz =>
    rw [add_zero]
    exact .zero (by rw [map_twice_z L, hz, mul_zero, mul_zero])
  | @some x y hP hz hx hy =>
    by_cases hy0 : y = 0
    · have hself : y = (curve b).negY x y := by rw [curve.negY_eq, hy0, neg_zero]
      rw [WeierstrassCurve.Affine.Point.add_self_of_Y_eq hself]
      exact .zero (by rw [map_twice_z L, hy, hy0, zero_mul, zero_mul, mul_zero])
    · have hself : y ≠ (curve b).negY x y := by
        rw [curve.negY_eq]
        intro heq
        exact mul_ne_zero h2 hy0 (by linear_combination heq)
      obtain ⟨hx', hy'⟩ := map_twice L (curve.slope_self_mul (b := b) h2 hy0) hx hy
      rw [WeierstrassCurve.Affine.Point.add_self_of_Y_ne hself]
      refine .some _ ?_ (by rw [curve.addX_eq, hx']) (by rw [curve.addY_eq, hy'])
      rw [map_twice_z L, hy]
      exact mul_ne_zero h2 (mul_ne_zero (mul_ne_zero hy0 (pow_ne_zero 3 hz)) hz)

variable [DecidableEq F]

/-- With one abscissa two points are equal or opposite. -/
theorem represents_add_of_eq {x y y' : K} {hP : (curve b).Nonsingular x y}
    {hQ : (curve b).Nonsingular x y'} (hz : φ p.z ≠ 0) (hx : φ p.x = x*φ p.z^2)
    (hy : φ p.y = y*φ p.z^3) (hz' : φ q.z ≠ 0) (hx' : φ q.x = x*φ q.z^2)
    (hy' : φ q.y = y'*φ q.z^3) :
    Represents φ (p.add q) (.some x y hP + .some x y' hQ) := by
  have hrun : run p q = 0 := by
    apply L.injective
    rw [map_run L hx hx', sub_self, zero_mul, L.map_zero]
  have hrise := map_rise L hy hy'
  rw [add_eq (L.ne_zero_iff.2 hz) (L.ne_zero_iff.2 hz'), if_pos hrun]
  by_cases hyy : y = y'
  · subst hyy
    rw [sub_self, zero_mul, ← L.map_zero] at hrise
    rw [if_pos (L.injective hrise)]
    exact represents_twice L h2 (.some hP hz hx hy)
  · have hne : rise p q ≠ 0 := by
      rw [L.ne_zero_iff, hrise]
      exact mul_ne_zero (sub_ne_zero.2 (Ne.symm hyy))
        (pow_ne_zero 3 (map_denominator_ne_zero L hz hz'))
    have hopposite := (WeierstrassCurve.Affine.Y_eq_of_X_eq hP.1 hQ.1 rfl).resolve_left hyy
    rw [if_neg hne, WeierstrassCurve.Affine.Point.add_of_Y_eq rfl hopposite]
    exact .zero L.map_zero

omit h2 in
theorem represents_add_of_ne {x x' y y' : K} {hP : (curve b).Nonsingular x y}
    {hQ : (curve b).Nonsingular x' y'} (hz : φ p.z ≠ 0) (hx : φ p.x = x*φ p.z^2)
    (hy : φ p.y = y*φ p.z^3) (hz' : φ q.z ≠ 0) (hx' : φ q.x = x'*φ q.z^2)
    (hy' : φ q.y = y'*φ q.z^3) (hxx : x ≠ x') :
    Represents φ (p.add q) (.some x y hP + .some x' y' hQ) := by
  have hd := map_denominator_ne_zero L hz hz'
  have hrun := map_run L hx hx'
  have hne : run p q ≠ 0 := by
    rw [L.ne_zero_iff, hrun]
    exact mul_ne_zero (sub_ne_zero.2 (Ne.symm hxx)) (pow_ne_zero 2 hd)
  have hslope : (curve b).slope x x' y y'*(x'-x) = y'-y := by
    have hmul : (curve b).slope x x' y y'*(x-x') = y-y' := curve.slope_mul hxx
    linear_combination -hmul
  obtain ⟨hx3, hy3⟩ :=
    map_chord L hslope (map_abscissa L hx _) hrun (map_ordinate L hy _) (map_rise L hy hy')
  rw [add_eq (L.ne_zero_iff.2 hz) (L.ne_zero_iff.2 hz'), if_neg hne,
    WeierstrassCurve.Affine.Point.add_of_X_ne hxx]
  refine .some _ ?_ (by rw [curve.addX_eq, hx3]) (by rw [curve.addY_eq, hy3])
  rw [chord, L.map_mul]
  exact mul_ne_zero (L.ne_zero_iff.1 hne) hd

theorem represents_add (hp : Represents φ p P) (hq : Represents φ q Q) :
    Represents φ (p.add q) (P+Q) := by
  have hp0 := z_eq_zero_iff L hp
  have hq0 := z_eq_zero_iff L hq
  cases hp with
  | zero hz =>
    rw [add, if_pos (hp0.2 rfl), zero_add]
    exact hq
  | @some x y hP hz hx hy =>
  cases hq with
  | zero hz' =>
    rw [add, if_neg (L.ne_zero_iff.2 hz), if_pos (hq0.2 rfl), add_zero]
    exact .some hP hz hx hy
  | @some x' y' hQ hz' hx' hy' =>
    by_cases hxx : x = x'
    · subst hxx
      exact represents_add_of_eq L h2 hz hx hy hz' hx' hy'
    · exact represents_add_of_ne L hz hx hy hz' hx' hy' hxx

/-- Each digit doubles what there is, and the digit one adds the point. -/
theorem represents_foldl (hp : Represents φ p P) (n k : Nat) {acc : Jacobian F}
    (hacc : Represents φ acc Q) :
    Represents φ (((List.range k).reverse.map n.testBit).foldl
      (fun acc bit => if bit then add (twice acc) p else twice acc) acc)
        (2^k • Q + (n % 2^k) • P) := by
  -- on the digits that are still to come; `Q` is the multiple that those before them have given
  induction k generalizing acc Q with
  | zero => simpa [Nat.mod_one] using hacc
  | succ k ih =>
    have hstep (bit : Bool) : Represents φ (if bit then add (twice acc) p else twice acc)
        (2 • Q + bit.toNat • P) := by
      have htwice := represents_twice L h2 hacc
      rw [two_nsmul]
      cases bit with
      | false => simpa using htwice
      | true => simpa using represents_add L h2 htwice hp
    have hsum (d : Nat) : 2^(k+1) • Q + (n % 2^k + 2^k*d) • P =
        2^k • (2 • Q + d • P) + (n % 2^k) • P := by
      rw [nsmul_add, ← mul_nsmul', ← mul_nsmul', ← pow_succ, add_nsmul, add_assoc,
        add_comm ((n % 2^k) • P)]
    rw [List.range_succ, List.reverse_append, List.reverse_singleton, List.singleton_append,
      List.map_cons, List.foldl_cons, Nat.mod_pow_succ, ← Nat.toNat_testBit, hsum]
    exact ih (hstep _)

theorem represents_smul (hp : Represents φ p P) (n : Nat) : Represents φ (smul n p) (n • P) := by
  have h := represents_foldl L h2 hp n (n.log2+1) (.zero (p := infinity) L.map_zero)
  rw [nsmul_zero, zero_add, Nat.mod_eq_of_lt Nat.lt_log2_self] at h
  exact h

end

end Jacobian

namespace Point
variable {F K : Type} [FieldOps F] [Field K] {φ : F → K} {b : K}

def Shows (φ : F → K) : Point F → (curve b).Point → Prop
  | infinity, P => P = 0
  | affine x y, P => ∃ h, P = .some (φ x) (φ y) h

/-- The coordinates are those of an element of the group that the order multiplies to zero. -/
def InGroup [DecidableEq K] (φ : F → K) (c : F) (p : Point F) : Prop :=
  ∃ P : (curve (φ c)).Point, p.Shows φ P ∧ scalarOrder • P = 0

def neg : Point F → Point F
  | infinity => infinity
  | affine x y => affine x (-y)

variable (L : FieldOps.Embedding φ) {p : Point F} {P : (curve b).Point}
include L

theorem represents_ofPoint (h : p.Shows φ P) : (Jacobian.ofPoint p).Represents φ P := by
  cases p with
  | infinity =>
    cases h
    exact .zero L.map_zero
  | affine x y =>
    obtain ⟨hP, rfl⟩ := h
    have hone : φ (Jacobian.ofPoint (affine x y)).z = 1 := L.map_one
    refine .some hP (hone ▸ one_ne_zero) ?_ ?_
    · rw [hone, one_pow, mul_one, Jacobian.ofPoint]
    · rw [hone, one_pow, mul_one, Jacobian.ofPoint]

theorem shows_neg (h : p.Shows φ P) : p.neg.Shows φ (-P) := by
  cases p with
  | infinity =>
    cases h
    rfl
  | affine x y =>
    obtain ⟨hP, rfl⟩ := h
    have hneg : (curve b).negY (φ x) (φ y) = φ (-y) := by rw [curve.negY_eq, L.map_neg]
    have hP' := ((curve b).nonsingular_neg ..).2 hP
    rw [hneg] at hP'
    refine ⟨hP', ?_⟩
    rw [WeierstrassCurve.Affine.Point.neg_some]
    simp only [hneg]

/-- The group is closed under negation. -/
theorem inGroup_neg [DecidableEq K] {c : F} (h : p.InGroup φ c) : p.neg.InGroup φ c := by
  obtain ⟨P, hP, horder⟩ := h
  exact ⟨-P, shows_neg L hP, by rw [smul_neg, horder, neg_zero]⟩

theorem exists_shows_iff {c : F} (h2 : (2 : K) ≠ 0) (h3 : (3 : K) ≠ 0) (hc : φ c ≠ 0) :
    (∃ P : (curve (φ c)).Point, p.Shows φ P) ↔ p.OnCurve c := by
  cases p with
  | infinity => exact iff_of_true ⟨0, rfl⟩ trivial
  | affine x y =>
    have hcurve : (curve (φ c)).Nonsingular (φ x) (φ y) ↔ (affine x y).OnCurve c := by
      rw [curve.nonsingular_iff h2 h3 hc, ← L.map_mul, ← L.map_mul, ← L.map_mul, ← L.map_add,
        L.injective.eq_iff]
      rfl
    constructor
    · rintro ⟨_, hP, _⟩
      exact hcurve.1 hP
    · intro h
      exact ⟨_, hcurve.2 h, rfl⟩

end Point

namespace Point
variable {F K : Type} [Coordinate F] [DecidableEq F] [Field K] [DecidableEq K] {φ : F → K}
  (L : FieldOps.Embedding φ) (h2 : (2 : K) ≠ 0) {p : Point F}
include L h2

theorem inSubgroup_iff {b : K} {P : (curve b).Point} (h : p.Shows φ P) :
    p.InSubgroup ↔ scalarOrder • P = 0 := by
  have hsmul := Jacobian.represents_smul L h2 (represents_ofPoint L h) scalarOrder
  rw [← Jacobian.z_eq_zero_iff L hsmul, InSubgroup, smul]
  generalize (Jacobian.ofPoint p).smul scalarOrder = j
  rw [Jacobian.toPoint]
  split
  next hz => exact iff_of_true rfl hz
  next hz => exact iff_of_false (fun h => by cases h) hz

/-- What the reader of points asks is that the point belongs to the group. -/
theorem inGroup_iff (h3 : (3 : K) ≠ 0) {c : F} (hc : φ c ≠ 0) :
    p.InGroup φ c ↔ p.OnCurve c ∧ p.InSubgroup := by
  rw [← exists_shows_iff L h2 h3 hc]
  constructor
  · rintro ⟨P, hP, horder⟩
    exact ⟨⟨P, hP⟩, (inSubgroup_iff L h2 hP).2 horder⟩
  · rintro ⟨⟨P, hP⟩, hsubgroup⟩
    exact ⟨P, hP, (inSubgroup_iff L h2 hP).1 hsubgroup⟩

end Point
end BeaconSeal
