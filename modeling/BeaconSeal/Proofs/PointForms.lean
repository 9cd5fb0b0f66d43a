import BeaconSeal.Proofs.Ciphertexts
import BeaconSeal.Proofs.GroupLaw
/-! Points as strings of bytes. Main statement: each point of a group other than the identity has one
string that is read as it, and a string of another length, with the flag for infinity, or with a
number that is not reduced is read as no point. -/
namespace BeaconSeal

/-! The points of the two curves. -/

theorem Fp.three_ne_zero : (3 : ZMod modulus) ≠ 0 :=
  natCast_ne_zero (n := 3) (by decide) (by decide)

theorem Fp.residue_four_ne_zero : (ofNat 4).residue ≠ 0 := by
  rw [residue_ofNat]
  exact natCast_ne_zero (by decide) (by decide)

theorem Fp.inGroup_iff {p : Point Fp} :
    p.InGroup residue G1.curveB ↔ p.OnCurve G1.curveB ∧ p.InSubgroup :=
  Point.inGroup_iff embedding two_ne_zero three_ne_zero residue_four_ne_zero

theorem Fp2.inGroup_iff {p : Point Fp2} :
    p.InGroup residue G2.curveB ↔ p.OnCurve G2.curveB ∧ p.InSubgroup :=
  Point.inGroup_iff embedding (fun h => Fp.two_ne_zero (congrArg QuadraticAlgebra.re h))
    (fun h => Fp.three_ne_zero (congrArg QuadraticAlgebra.re h))
    (fun h => Fp.residue_four_ne_zero (congrArg QuadraticAlgebra.re h))

/-! The bytes under the flags. -/

def coordinates (b : Bytes) : List Nat := (Cut.cut Fp.size b).1.map Bytes.ofBigEndian

theorem Fp.coordinates_bytes (a : Fp) : coordinates a.bytes = [a.val] := by
  have hcut : Cut.cut size a.bytes = ([a.bytes], []) := by
    refine (Cut.cut_eq_iff (by decide)).2 ⟨?_, by decide, by simp⟩
    simp [length_bytes]
  rw [coordinates, hcut, List.map_singleton, ofBigEndian_bytes]

theorem Fp2.coordinates_bytes (a : Fp2) : coordinates a.bytes = [a.c1.val, a.c0.val] := by
  have hcut : Cut.cut Fp.size a.bytes = ([a.c1.bytes, a.c0.bytes], []) := by
    refine (Cut.cut_eq_iff (by decide)).2 ⟨?_, by decide, by simp [bytes]⟩
    simp [Fp.length_bytes]
  rw [coordinates, hcut, List.map_cons, List.map_singleton, Fp.ofBigEndian_bytes,
    Fp.ofBigEndian_bytes]

theorem Fp.reduced (a : Fp) : ∀ n ∈ coordinates a.bytes, n < modulus := by
  rw [coordinates_bytes]
  simpa using a.isLt

theorem Fp2.reduced (a : Fp2) : ∀ n ∈ coordinates a.bytes, n < Fp.modulus := by
  rw [coordinates_bytes]
  simpa using ⟨a.c1.isLt, a.c0.isLt⟩

/-- A string that no point is written as: of its flags the one for compressed points is missing or
the one for infinity is there, or a number under them is not below the modulus. -/
def Misformed (c : UInt8) (l : Bytes) : Prop :=
  c &&& 0x80 = 0 ∨ c &&& 0x40 ≠ 0 ∨ ∃ n ∈ coordinates ((c &&& 0x1f) :: l), Fp.modulus ≤ n

/-- With the other sign flag nothing else changes. -/
theorem other_sign : ∀ n < 256, let c := UInt8.ofNat n
    (c ^^^ 0x20) &&& 0x1f = c &&& 0x1f ∧ (c ^^^ 0x20) &&& 0x80 = c &&& 0x80 ∧
      (c ^^^ 0x20) &&& 0x40 = c &&& 0x40 ∧
      decide ((c ^^^ 0x20) &&& 0x20 ≠ 0) = !decide (c &&& 0x20 ≠ 0) := by
  decide +kernel

namespace Point

theorem neg_ne_infinity {F : Type} [FieldOps F] {p : Point F} (hp : p ≠ infinity) :
    p.neg ≠ infinity := by
  cases p with
  | infinity => exact absurd rfl hp
  | affine x y =>
    intro h
    cases h

variable {F K : Type} [Coordinate F] [Field K] {φ : F → K} (L : Coordinate.Laws φ) {p : Point F}
  {c : UInt8} {l : Bytes}
include L

theorem wellFormed_of_compress
    (hreduced : ∀ a : F, ∀ n ∈ coordinates (Coordinate.bytes a), n < Fp.modulus)
    (hp : p ≠ infinity) (h : p.compress = c :: l) : ¬ Misformed c l := by
  cases p with
  | infinity => exact absurd rfl hp
  | affine x y =>
    obtain ⟨hx, hcompressed, hfinite, _⟩ := (compress_eq_cons_iff L).1 h
    rintro (h | h | ⟨n, hn, hle⟩)
    · exact hcompressed h
    · exact h hfinite
    · rw [← hx] at hn
      exact absurd (hreduced x n hn) (Nat.not_lt.2 hle)

/-- The points with one abscissa differ in the sign flag. -/
theorem compress_neg [DecidableEq F] (hsubgroup : p.InSubgroup) (hp : p ≠ infinity)
    (h : p.compress = c :: l) : p.neg.compress = (c ^^^ 0x20) :: l := by
  cases p with
  | infinity => exact absurd rfl hp
  | affine x y =>
    obtain ⟨hx, hcompressed, hfinite, hlarge⟩ := (compress_eq_cons_iff L).1 h
    obtain ⟨hrest, hflag, hinfinity, hsign⟩ := other_sign c.toNat c.toNat_lt
    rw [UInt8.ofNat_toNat] at hrest hflag hinfinity hsign
    have hneg := L.isLarge_neg (ordinate_ne_zero L hsubgroup)
    rw [neg, compress_eq_cons_iff L, hrest, hflag, hinfinity, hsign, hneg, hlarge]
    exact ⟨hx, hcompressed, hfinite, rfl⟩

end Point

namespace bls12381

/-- The points that the order multiplies to zero in the group of the curve. -/
def InGroup : (g : SourceGroup) → bls12381.Point g → Prop
  | .g1, p => Point.InGroup Fp.residue G1.curveB p
  | .g2, p => Point.InGroup Fp2.residue G2.curveB p

def neg : {g : SourceGroup} → bls12381.Point g → bls12381.Point g
  | .g1, p => Point.neg (F := Fp) p
  | .g2, p => Point.neg (F := Fp2) p

variable {g : SourceGroup} {p : bls12381.Point g}

theorem inGroup_iff : InGroup g p ↔ Member g p := by
  cases g with
  | g1 => exact Fp.inGroup_iff
  | g2 => exact Fp2.inGroup_iff

theorem inGroup_neg (h : InGroup g p) : InGroup g (neg p) := by
  cases g with
  | g1 => exact Point.inGroup_neg Fp.embedding h
  | g2 => exact Point.inGroup_neg Fp2.embedding h

theorem neg_ne_identity (hp : p ≠ bls12381.identity g) : neg p ≠ bls12381.identity g := by
  cases g with
  | g1 => exact Point.neg_ne_infinity hp
  | g2 => exact Point.neg_ne_infinity hp

theorem wellFormed_of_compress (hp : p ≠ bls12381.identity g) {c : UInt8} {l : Bytes}
    (h : bls12381.compress p = c :: l) : ¬ Misformed c l := by
  cases g with
  | g1 => exact Point.wellFormed_of_compress Fp.laws Fp.reduced hp h
  | g2 => exact Point.wellFormed_of_compress Fp2.laws Fp2.reduced hp h

theorem compress_neg (hmember : Member g p) (hp : p ≠ bls12381.identity g) {c : UInt8} {l : Bytes}
    (h : bls12381.compress p = c :: l) : bls12381.compress (neg p) = (c ^^^ 0x20) :: l := by
  cases g with
  | g1 => exact Point.compress_neg Fp.laws hmember.2 hp h
  | g2 => exact Point.compress_neg Fp2.laws hmember.2 hp h

end bls12381

theorem PairingGroups.read_eq_ok_or_error {E : PairingGroups} {g : SourceGroup} {b : Bytes}
    (h : b.length = g.pointSize) :
    (∃ p, E.read g b = .ok p) ∨ E.read g b = .error (.invalidPoint g) := by
  rw [read, if_neg (not_not.2 h)]
  split
  next => exact .inr rfl
  next p _ =>
    split
    next => exact .inr rfl
    next => exact .inl ⟨p, rfl⟩

namespace SourcePoint
variable {g : SourceGroup} {b : Bytes} {c : UInt8} {l : Bytes}

theorem ofBytes_eq_ok_iff_inGroup {p : SourcePoint bls12381} : ofBytes g b = .ok p ↔
    p.group = g ∧ bls12381.InGroup p.group p.point ∧ p.isIdentity = false ∧ p.bytes = b := by
  have hidentity : p.isIdentity = false ↔ p.point ≠ bls12381.identity p.group :=
    decide_eq_false_iff_not
  rw [ofBytes_eq_ok_iff, bls12381.inGroup_iff, hidentity, and_assoc]

theorem ofBytes_of_length_ne (h : b.length ≠ g.pointSize) :
    ofBytes (E := bls12381) g b = .error (.invalidPointLength g g.pointSize b.length) := by
  rw [ofBytes, PairingGroups.read, if_pos h]
  rfl

theorem ofBytes_of_misformed (hlength : (c :: l).length = g.pointSize) (h : Misformed c l) :
    ofBytes (E := bls12381) g (c :: l) = .error (.invalidPoint g) := by
  rcases PairingGroups.read_eq_ok_or_error (E := bls12381) hlength with ⟨p, hp⟩ | herror
  · obtain ⟨⟨_, hfinite⟩, hbytes⟩ := bls12381.read_eq_ok_iff.1 hp
    exact absurd h (bls12381.wellFormed_of_compress hfinite hbytes)
  · rw [ofBytes, herror]
    rfl

/-- The string with the other sign is that of the opposite point, which is another one. -/
theorem ofBytes_other_sign {p : bls12381.Point g} (h : ofBytes g (c :: l) = .ok ⟨g, p⟩) :
    ofBytes g ((c ^^^ 0x20) :: l) = .ok ⟨g, bls12381.neg p⟩ ∧ bls12381.neg p ≠ p := by
  obtain ⟨_, ⟨hmember, hfinite⟩, hbytes⟩ := ofBytes_eq_ok_iff.1 h
  have hneg := bls12381.compress_neg hmember hfinite hbytes
  have hne : bls12381.neg p ≠ p := by
    intro heq
    rw [heq] at hneg
    have hbyte : c ^^^ 0x20 = c := (List.cons.inj (hneg.symm.trans hbytes)).1
    obtain ⟨_, _, _, hsign⟩ := other_sign c.toNat c.toNat_lt
    rw [UInt8.ofNat_toNat, hbyte] at hsign
    exact absurd hsign (by cases decide (c &&& 0x20 ≠ 0) <;> decide)
  have hmember' := bls12381.inGroup_iff.1 (bls12381.inGroup_neg (bls12381.inGroup_iff.2 hmember))
  exact ⟨ofBytes_eq_ok_iff.2 ⟨rfl, ⟨hmember', bls12381.neg_ne_identity hfinite⟩, hneg⟩, hne⟩

/-- A string is read as a point just when the point belongs to the group, is not its identity, and
is written as that string. No other string stands for it: one of another length, with the flag for
infinity, or with a number that is not reduced is refused, and the one with the other sign is the
opposite point's. -/
theorem point_form_unique (g : SourceGroup) :
    (∀ (b : Bytes) (p : SourcePoint bls12381), ofBytes g b = .ok p ↔
      p.group = g ∧ bls12381.InGroup p.group p.point ∧ p.isIdentity = false ∧ p.bytes = b) ∧
    (∀ b : Bytes, b.length ≠ g.pointSize →
      ofBytes (E := bls12381) g b = .error (.invalidPointLength g g.pointSize b.length)) ∧
    (∀ (c : UInt8) (l : Bytes), (c :: l).length = g.pointSize → Misformed c l →
      ofBytes (E := bls12381) g (c :: l) = .error (.invalidPoint g)) ∧
    ∀ (c : UInt8) (l : Bytes) (p : bls12381.Point g), ofBytes g (c :: l) = .ok ⟨g, p⟩ →
      ofBytes g ((c ^^^ 0x20) :: l) = .ok ⟨g, bls12381.neg p⟩ ∧ bls12381.neg p ≠ p :=
  ⟨fun _ _ => ofBytes_eq_ok_iff_inGroup, fun _ => ofBytes_of_length_ne,
    fun _ _ => ofBytes_of_misformed, fun _ _ _ => ofBytes_other_sign⟩

/-- The encodings of infinity, of the modulus as an abscissa, and of the opposite of the generator. -/
theorem point_form_unique_generator :
    let infinite := 0xc0 :: List.replicate 47 0
    let rest := (bls12381.compress (g := .g1) G1.generator).tail
    ofBytes (E := bls12381) .g2 infinite = .error (.invalidPointLength .g2 96 48) ∧
      ofBytes (E := bls12381) .g1 infinite = .error (.invalidPoint .g1) ∧
      ofBytes (E := bls12381) .g1 (0x9a :: Bytes.bigEndian 47 Fp.modulus) =
        .error (.invalidPoint .g1) ∧
      ofBytes (E := bls12381) .g1 (0xb7 :: rest) = .ok ⟨.g1, Point.neg G1.generator⟩ := by
  intro infinite rest
  obtain ⟨hread, _, hmisformed, hsign⟩ := point_form_unique .g1
  have hgenerator : bls12381.InGroup .g1 G1.generator :=
    bls12381.inGroup_iff.2 ⟨by decide +kernel, by decide +kernel⟩
  have hbytes : ofBytes .g1 (0x97 :: rest) = .ok (⟨.g1, G1.generator⟩ : SourcePoint bls12381) :=
    (hread _ _).2 ⟨rfl, hgenerator, by decide +kernel, by decide +kernel⟩
  have hmodulus : Fp.modulus ∈ coordinates (0x1a :: Bytes.bigEndian 47 Fp.modulus) := by
    decide +kernel
  exact ⟨(point_form_unique .g2).2.1 infinite (by decide),
    hmisformed 0xc0 _ (by decide) (.inr (.inl (by decide))),
    hmisformed 0x9a _ (by decide) (.inr (.inr ⟨_, hmodulus, le_rfl⟩)),
    (hsign 0x97 _ _ hbytes).1⟩

end SourcePoint

end BeaconSeal
