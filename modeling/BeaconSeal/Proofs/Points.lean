import BeaconSeal.Proofs.Quadratic
/-! Compressed points. Main statement: a string is read as a point other than infinity just when the
point is on the curve, has the prime order, and is written as that string. -/
namespace BeaconSeal
open FieldOps

structure Coordinate.Laws {F K : Type} [Coordinate F] [Field K] (φ : F → K) : Prop
    extends FieldOps.Embedding φ where
  mul_self_of_sqrt? {a r : F} : Coordinate.sqrt? a = some r → r*r = a
  exists_sqrt? (y : F) : ∃ r, Coordinate.sqrt? (y*y) = some r
  isLarge_neg {a : F} : a ≠ 0 → Coordinate.isLarge (-a) = !Coordinate.isLarge a
  size_pos : 0 < Coordinate.size F
  length_bytes (a : F) : (Coordinate.bytes a).length = Coordinate.size F
  lt_of_bytes {a : F} {x : UInt8} {b : Bytes} : Coordinate.bytes a = x :: b → x.toNat < 32
  ofBytes?_eq_some_iff {b : Bytes} : b.length = Coordinate.size F → ∀ {a : F},
    Coordinate.ofBytes? b = some a ↔ Coordinate.bytes a = b

theorem Coordinate.Laws.exists_bytes {F K : Type} [Coordinate F] [Field K] {φ : F → K}
    (L : Coordinate.Laws φ) (a : F) : ∃ x b, Coordinate.bytes a = x :: b :=
  List.exists_cons_of_length_pos (by rw [L.length_bytes]; exact L.size_pos)

theorem Fp.laws : Coordinate.Laws Fp.residue where
  toEmbedding := Fp.embedding
  mul_self_of_sqrt? := Fp.mul_self_of_sqrt?
  exists_sqrt? := Fp.exists_sqrt?
  isLarge_neg := Fp.isLarge_neg
  size_pos := by decide
  length_bytes := Fp.length_bytes
  lt_of_bytes := Fp.lt_of_bytes
  ofBytes?_eq_some_iff := Fp.ofBytes?_eq_some_iff

theorem Fp2.laws : Coordinate.Laws Fp2.residue where
  toEmbedding := Fp2.embedding
  mul_self_of_sqrt? := Fp2.mul_self_of_sqrt?
  exists_sqrt? := Fp2.exists_sqrt?
  isLarge_neg := Fp2.isLarge_neg
  size_pos := by decide
  length_bytes := Fp2.length_bytes
  lt_of_bytes := Fp2.lt_of_bytes
  ofBytes?_eq_some_iff := Fp2.ofBytes?_eq_some_iff

/-- The lowest digit comes last. -/
theorem binary_eq (n : Nat) : ∃ digits, binary n = digits ++ [n.testBit 0] := by
  refine ⟨((List.range n.log2).map Nat.succ).reverse.map n.testBit, ?_⟩
  rw [binary, List.range_succ_eq_map, List.reverse_cons, List.map_append]
  rfl

/-- A byte below thirty-two takes the flags, which can be read off again. -/
theorem flags_of_byte : ∀ n < 32, ∀ large : Bool,
    let c := UInt8.ofNat n ||| (if large then 0xa0 else 0x80)
    c &&& 0x1f = UInt8.ofNat n ∧ c &&& 0x80 ≠ 0 ∧ c &&& 0x40 = 0 ∧
      large = decide (c &&& 0x20 ≠ 0) := by
  decide

theorem byte_of_flags : ∀ n < 256, let c := UInt8.ofNat n
    c &&& 0x80 ≠ 0 → c &&& 0x40 = 0 →
      (c &&& 0x1f) ||| (if decide (c &&& 0x20 ≠ 0) then 0xa0 else 0x80) = c := by
  decide +kernel

section
variable {F K : Type} [Coordinate F] [Field K] {φ : F → K} (L : Coordinate.Laws φ)
include L

namespace Jacobian

/-- A point with ordinate zero is its own negative, and doubling it gives infinity. -/
theorem twice_z {p : Jacobian F} (h : p.y = 0 ∨ p.z = 0) : p.twice.z = 0 := by
  apply L.injective
  have hzero : φ p.y * φ p.z = 0 := by
    rcases h with h | h <;> simp [h, L.map_zero]
  change φ (double (p.y*p.z)) = φ 0
  rw [double, L.map_add, L.map_mul, hzero, L.map_zero, add_zero]

variable [DecidableEq F]

/-- Its multiples are the point itself and infinity in turn; an odd one is the point itself. -/
theorem foldl_of_ordinate_zero {p : Jacobian F} (hp : p.y = 0) (digits : List Bool)
    (acc : Jacobian F) (hacc : acc.y = 0 ∨ acc.z = 0) :
    let r := digits.foldl (fun acc bit => if bit then add (twice acc) p else twice acc) acc
    r.y = 0 ∨ r.z = 0 := by
  induction digits generalizing acc with
  | nil => exact hacc
  | cons bit digits ih =>
    have hz := twice_z L hacc
    cases bit with
    | false => exact ih acc.twice (.inr hz)
    | true =>
      refine ih (acc.twice.add p) ?_
      rw [add, if_pos hz]
      exact .inl hp

theorem smul_of_ordinate_zero {p : Jacobian F} (hp : p.y = 0) {n : Nat} (hn : n.testBit 0) :
    smul n p = p := by
  obtain ⟨digits, hdigits⟩ := binary_eq n
  have hz := twice_z L (foldl_of_ordinate_zero L hp digits infinity (.inr rfl))
  rw [smul, hdigits, List.foldl_append, hn]
  exact if_pos hz

end Jacobian

namespace Point
variable {b x y : F} {large : Bool} {p : Point F}

omit L in
theorem abscissa_of_lift? (h : lift? b x large = some p) : ∃ y, p = affine x y := by
  obtain ⟨y, _, rfl⟩ := Option.map_eq_some_iff.1 h
  exact ⟨_, rfl⟩

/-- Of the two ordinates that differ in sign the one with the right size is taken. -/
theorem lift?_eq_some_iff (hy : y ≠ 0) : lift? b x large = some (affine x y) ↔
    (affine x y).OnCurve b ∧ Coordinate.isLarge y = large := by
  have hneg := L.isLarge_neg hy
  constructor
  · intro h
    obtain ⟨r, hr, hp⟩ := Option.map_eq_some_iff.1 h
    have hroot := L.mul_self_of_sqrt? hr
    split at hp
    next hlarge =>
      cases hp
      exact ⟨hroot, hlarge⟩
    next hsmall =>
      cases hp
      rw [L.neg_neg_self] at hneg
      refine ⟨(L.neg_mul_neg r).trans hroot, ?_⟩
      rw [hneg] at hsmall
      revert hsmall
      cases Coordinate.isLarge (-r) <;> cases large <;> decide
  · intro h
    obtain ⟨hcurve, hlarge⟩ := h
    obtain ⟨r, hr⟩ := L.exists_sqrt? y
    have hcurve : y*y = x*x*x + b := hcurve
    rw [lift?, ← hcurve, hr, Option.map_some]
    rcases L.eq_or_neg (L.mul_self_of_sqrt? hr) with rfl | rfl
    · rw [if_pos hlarge]
    · rw [if_neg, L.neg_neg_self]
      rw [hneg, hlarge]
      cases large <;> decide

theorem length_compress (p : Point F) : p.compress.length = Coordinate.size F := by
  have hpos := L.size_pos
  cases p with
  | infinity =>
    rw [compress, List.length_cons, List.length_replicate]
    omega
  | affine x y =>
    obtain ⟨c, cs, hbytes⟩ := L.exists_bytes x
    have hlength := L.length_bytes x
    rw [hbytes] at hlength
    rw [compress, hbytes]
    exact hlength

/-- The abscissa stands under the flags, which say that the point is compressed and not infinity,
and whether the ordinate is large. -/
theorem compress_eq_cons_iff {c : UInt8} {l : Bytes} : (affine x y).compress = c :: l ↔
    Coordinate.bytes x = (c &&& 0x1f) :: l ∧ c &&& 0x80 ≠ 0 ∧ c &&& 0x40 = 0 ∧
      Coordinate.isLarge y = decide (c &&& 0x20 ≠ 0) := by
  obtain ⟨d, ds, hbytes⟩ := L.exists_bytes x
  rw [compress, hbytes]
  constructor
  · intro h
    obtain ⟨rfl, rfl⟩ := List.cons.inj h
    obtain ⟨hd, hflags⟩ := flags_of_byte d.toNat (L.lt_of_bytes hbytes) (Coordinate.isLarge y)
    rw [UInt8.ofNat_toNat] at hd hflags
    exact ⟨by rw [hd], hflags⟩
  · intro h
    obtain ⟨hd, hcompressed, hfinite, hlarge⟩ := h
    obtain ⟨rfl, rfl⟩ := List.cons.inj hd
    have hbyte := byte_of_flags c.toNat c.toNat_lt
    rw [UInt8.ofNat_toNat] at hbyte
    rw [hlarge]
    exact congrArg (· :: ds) (hbyte hcompressed hfinite)

variable [DecidableEq F]

theorem ordinate_ne_zero (h : (affine x y).InSubgroup) : y ≠ 0 := by
  intro hy
  have hodd : scalarOrder.testBit 0 := by decide
  have hsmul : (Jacobian.ofPoint (affine x y)).smul scalarOrder = Jacobian.ofPoint (affine x y) :=
    Jacobian.smul_of_ordinate_zero L hy hodd
  have hone : (1 : F) ≠ 0 := by
    rw [L.ne_zero_iff, L.map_one]
    exact one_ne_zero
  rw [InSubgroup, smul, hsmul, Jacobian.toPoint, Jacobian.ofPoint, if_neg hone] at h
  cases h

omit L in
/-- The flags say that the point is compressed and not infinity, and whether the ordinate is
large. -/
theorem decompress?_eq_some_iff {c : UInt8} {l : Bytes} (hp : p ≠ infinity) :
    decompress? b (c :: l) = some p ↔ c &&& 0x80 ≠ 0 ∧ c &&& 0x40 = 0 ∧
      (∃ x, Coordinate.ofBytes? ((c &&& 0x1f) :: l) = some x ∧
        lift? b x (c &&& 0x20 ≠ 0) = some p) ∧ p.InSubgroup := by
  rw [decompress?]
  split
  next hcompressed => simp [hcompressed]
  next hcompressed =>
    split
    next hinfinite => simp [hinfinite, hp.symm]
    next hinfinite =>
      simp only [Option.bind_eq_bind, Option.bind_eq_some_iff, Option.ite_none_right_eq_some]
      constructor
      · intro h
        obtain ⟨x, hx, q, hq, hsubgroup, heq⟩ := h
        cases heq
        exact ⟨hcompressed, not_not.1 hinfinite, ⟨x, hx, hq⟩, hsubgroup⟩
      · intro h
        obtain ⟨_, _, ⟨x, hx, hq⟩, hsubgroup⟩ := h
        exact ⟨x, hx, p, hq, hsubgroup, rfl⟩

/-- A string is read as a finite point just when the point is on the curve, has the prime order,
and is written as that string. -/
theorem decompress?_iff_compress {l : Bytes} (hl : l.length = Coordinate.size F)
    (hp : p ≠ infinity) :
    decompress? b l = some p ↔ p.OnCurve b ∧ p.InSubgroup ∧ p.compress = l := by
  have hpos := L.size_pos
  cases l with
  | nil =>
    rw [← hl] at hpos
    cases hpos
  | cons c l =>
  cases p with
  | infinity => exact absurd rfl hp
  | affine x y =>
  have hlength : ((c &&& 0x1f) :: l).length = Coordinate.size F := hl
  have hread (x : F) := L.ofBytes?_eq_some_iff hlength (a := x)
  rw [decompress?_eq_some_iff hp, compress_eq_cons_iff L]
  constructor
  · intro h
    obtain ⟨hcompressed, hfinite, ⟨x', hx, hlift⟩, hsubgroup⟩ := h
    obtain ⟨y', heq⟩ := abscissa_of_lift? hlift
    cases heq
    obtain ⟨hcurve, hlarge⟩ := (lift?_eq_some_iff L (ordinate_ne_zero L hsubgroup)).1 hlift
    exact ⟨hcurve, hsubgroup, (hread x).1 hx, hcompressed, hfinite, hlarge⟩
  · intro h
    obtain ⟨hcurve, hsubgroup, hx, hcompressed, hfinite, hlarge⟩ := h
    have hlift := (lift?_eq_some_iff L (ordinate_ne_zero L hsubgroup)).2 ⟨hcurve, hlarge⟩
    exact ⟨hcompressed, hfinite, ⟨x, (hread x).2 hx, hlift⟩, hsubgroup⟩

end Point
end
end BeaconSeal
