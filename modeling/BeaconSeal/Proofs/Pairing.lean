import BeaconSeal.Ibe.Cipher
/-! The laws of a pairing. They are stated relative to the points of the two subgroups, since
a curve has others too. Main statements: a factor can be moved from one argument of the pairing
to the other, and an encoded point is read back. Where the pairing has to tell points apart,
that is a hypothesis of its own. -/
namespace BeaconSeal.PairingGroups
variable {E : PairingGroups}

theorem read_eq_ok_iff {g : SourceGroup} {b : Bytes}
    {p : E.Point g} : E.read g b = .ok p ↔
      b.length = g.pointSize ∧ E.decompress? g b = some p ∧ p ≠ E.identity g := by
  rw [read]
  split
  next hlength => simp [hlength]
  next hlength =>
    rw [Decidable.not_not] at hlength
    cases E.decompress? g b with
    | none => simp
    | some q =>
      by_cases hq : q = E.identity g
      · subst hq
        simpa [hlength] using fun h => h.symm
      · simp only [hq, if_false, Except.ok.injEq, hlength, Option.some.injEq, true_and]
        exact ⟨fun h => ⟨h, h ▸ hq⟩, And.left⟩

/-- The generators have the order of the scalars: different multiples are different points. -/
def FullOrder (E : PairingGroups) : Prop :=
  ∀ g, Function.Injective (fun n : Scalar => E.smul n (E.generator g))

/-- No two points of a subgroup have the same value with a point other than the identity. -/
def NonDegenerate (E : PairingGroups) (Member : (g : SourceGroup) → E.Point g → Prop) : Prop :=
  ∀ {g} {p : E.Point g} {q q' : E.Point g.opposite}, Member g p → p ≠ E.identity g →
    Member g.opposite q → Member g.opposite q' →
    E.pairAcross g p q = E.pairAcross g p q' → q = q'

/-- The pairing is bilinear on the subgroups of prime order, to which generators, multiples
and hashes belong, and the encoding of a point of a subgroup is the point's own. -/
structure Laws (E : PairingGroups) (Member : (g : SourceGroup) → E.Point g → Prop)
    (power : Scalar → E.Target → E.Target) : Prop where
  generator_mem (g) : Member g (E.generator g)
  smul_mem {g} {p : E.Point g} (n : Scalar) : Member g p → Member g (E.smul n p)
  hash_mem (g) (tag message : Bytes) : Member g (E.hash g tag message)
  generator_ne_identity (g) : E.generator g ≠ E.identity g
  smul_ne_identity {g} {p : E.Point g} {n : Scalar} :
    Member g p → p ≠ E.identity g → n.val ≠ 0 → E.smul n p ≠ E.identity g
  pair_smul_left {p : E.Point .g1} {q : E.Point .g2} (n : Scalar) :
    Member .g1 p → Member .g2 q → E.pair (E.smul n p) q = power n (E.pair p q)
  pair_smul_right {p : E.Point .g1} {q : E.Point .g2} (n : Scalar) :
    Member .g1 p → Member .g2 q → E.pair p (E.smul n q) = power n (E.pair p q)
  length_compress {g} {p : E.Point g} : Member g p → (E.compress p).length = g.pointSize
  decompress?_compress {g} {p : E.Point g} :
    Member g p → p ≠ E.identity g → E.decompress? g (E.compress p) = some p

namespace Laws
variable {Member : (g : SourceGroup) → E.Point g → Prop} {power : Scalar → E.Target → E.Target}
  (L : E.Laws Member power) {g : SourceGroup}
include L

theorem pairAcross_smul_left (n : Scalar) {p : E.Point g} {q : E.Point g.opposite}
    (hp : Member g p) (hq : Member g.opposite q) :
    E.pairAcross g (E.smul n p) q = power n (E.pairAcross g p q) := by
  cases g with
  | g1 => exact L.pair_smul_left n hp hq
  | g2 => exact L.pair_smul_right n hq hp

theorem pairAcross_smul_right (n : Scalar) {p : E.Point g} {q : E.Point g.opposite}
    (hp : Member g p) (hq : Member g.opposite q) :
    E.pairAcross g p (E.smul n q) = power n (E.pairAcross g p q) := by
  cases g with
  | g1 => exact L.pair_smul_right n hp hq
  | g2 => exact L.pair_smul_left n hq hp

/-- Encryption and decryption pair the same: the secret stands on the key in the one, on the
hashed identity in the other. -/
theorem pairAcross_smul_smul (r s : Scalar) {p : E.Point g} {q : E.Point g.opposite}
    (hp : Member g p) (hq : Member g.opposite q) :
    E.pairAcross g (E.smul r (E.smul s p)) q = E.pairAcross g (E.smul r p) (E.smul s q) := by
  calc E.pairAcross g (E.smul r (E.smul s p)) q
      = power r (E.pairAcross g (E.smul s p) q) := L.pairAcross_smul_left r (L.smul_mem s hp) hq
    _ = power r (power s (E.pairAcross g p q)) := by rw [L.pairAcross_smul_left s hp hq]
    _ = power r (E.pairAcross g p (E.smul s q)) := by rw [L.pairAcross_smul_right s hp hq]
    _ = E.pairAcross g (E.smul r p) (E.smul s q) :=
      (L.pairAcross_smul_left r hp (L.smul_mem s hq)).symm

/-- The factor is moved to the other side, where it leaves a point other than the identity. -/
theorem eq_of_pairAcross_smul_right (hN : E.NonDegenerate Member) {n : Scalar} (hn : n.val ≠ 0)
    {p : E.Point g} {q q' : E.Point g.opposite} (hp : Member g p) (hne : p ≠ E.identity g)
    (hq : Member g.opposite q) (hq' : Member g.opposite q')
    (h : E.pairAcross g p (E.smul n q) = E.pairAcross g p (E.smul n q')) : q = q' := by
  rw [L.pairAcross_smul_right n hp hq, L.pairAcross_smul_right n hp hq',
    ← L.pairAcross_smul_left n hp hq, ← L.pairAcross_smul_left n hp hq'] at h
  exact hN (L.smul_mem n hp) (L.smul_ne_identity hp hne hn) hq hq' h

theorem read_compress {p : E.Point g} (hp : Member g p) (hne : p ≠ E.identity g) :
    E.read g (E.compress p) = .ok p := by
  simp [PairingGroups.read, L.length_compress hp, L.decompress?_compress hp hne, hne]

theorem ofBytes_compress {p : E.Point g} (hp : Member g p) (hne : p ≠ E.identity g) :
    SourcePoint.ofBytes g (E.compress p) = .ok ⟨g, p⟩ := by
  rw [SourcePoint.ofBytes, L.read_compress hp hne, Except.map]

end Laws
end BeaconSeal.PairingGroups
