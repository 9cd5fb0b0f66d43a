import BeaconSeal.Curve.Bls12381
import BeaconSeal.Proofs.Ibe
import BeaconSeal.Proofs.Points
/-! Ciphertexts as strings of bytes. Main statement: a string is read as a ciphertext just when the
ciphertext is well formed and written as that string, so that its three parts, which stand side by
side without their lengths, can be told apart in one way only. -/
namespace BeaconSeal

namespace bls12381

/-- The points of the two groups: on the curve, and of the prime order. -/
def Member : (g : SourceGroup) → bls12381.Point g → Prop
  | .g1, p => Point.OnCurve G1.curveB p ∧ Point.InSubgroup p
  | .g2, p => Point.OnCurve G2.curveB p ∧ Point.InSubgroup p

theorem length_compress {g : SourceGroup} (p : bls12381.Point g) :
    (bls12381.compress p).length = g.pointSize := by
  cases g with
  | g1 => exact Point.length_compress Fp.laws p
  | g2 => exact Point.length_compress Fp2.laws p

theorem decompress?_eq_some_iff {g : SourceGroup} {b : Bytes} {p : bls12381.Point g}
    (hb : b.length = g.pointSize) (hp : p ≠ bls12381.identity g) :
    bls12381.decompress? g b = some p ↔ Member g p ∧ bls12381.compress p = b := by
  cases g with
  | g1 => exact (Point.decompress?_iff_compress Fp.laws hb hp).trans and_assoc.symm
  | g2 => exact (Point.decompress?_iff_compress Fp2.laws hb hp).trans and_assoc.symm

/-- A string is read as a point just when it is what the point is written as, and the point is one
of the group other than the identity. -/
theorem read_eq_ok_iff {g : SourceGroup} {b : Bytes} {p : bls12381.Point g} :
    bls12381.read g b = .ok p ↔
      (Member g p ∧ p ≠ bls12381.identity g) ∧ bls12381.compress p = b := by
  rw [PairingGroups.read_eq_ok_iff]
  constructor
  · intro h
    obtain ⟨hlength, hread, hp⟩ := h
    obtain ⟨hmember, hbytes⟩ := (decompress?_eq_some_iff hlength hp).1 hread
    exact ⟨⟨hmember, hp⟩, hbytes⟩
  · intro h
    obtain ⟨⟨hmember, hp⟩, hbytes⟩ := h
    have hlength : b.length = g.pointSize := by rw [← hbytes, length_compress]
    exact ⟨hlength, (decompress?_eq_some_iff hlength hp).2 ⟨hmember, hbytes⟩, hp⟩

end bls12381

theorem SourcePoint.ofBytes_eq_ok_iff {g : SourceGroup} {b : Bytes} {u : SourcePoint bls12381} :
    SourcePoint.ofBytes g b = .ok u ↔ u.group = g ∧
      (bls12381.Member u.group u.point ∧ u.point ≠ bls12381.identity u.group) ∧ u.bytes = b := by
  rw [ofBytes, map_eq_ok_iff]
  constructor
  · intro h
    obtain ⟨p, hp, rfl⟩ := h
    exact ⟨rfl, bls12381.read_eq_ok_iff.1 hp⟩
  · intro h
    obtain ⟨rfl, h⟩ := h
    exact ⟨u.point, bls12381.read_eq_ok_iff.2 h, rfl⟩

namespace Ibe.Ciphertext
variable {E : PairingGroups} {variant : Variant} {b : Bytes}

/-- The point takes as many bytes as points of the group have, and the rest is halved. -/
theorem exists_of_ofBytes {c : Ciphertext E} (h : ofBytes variant b = .ok c) :
    ∃ point, SourcePoint.ofBytes variant.keyGroup point = .ok c.u ∧ point ++ c.v ++ c.w = b ∧
      c.v.length = c.w.length ∧ 1 ≤ c.v.length ∧ c.v.length ≤ padSize := by
  unfold ofBytes at h
  dsimp only at h
  split at h
  · cases h
  next hlong =>
    split at h
    · cases h
    next heven =>
      obtain ⟨u, hu, rfl⟩ := map_eq_ok_iff.1 h
      rw [List.length_drop] at heven
      refine ⟨_, hu, ?_, ?_⟩
      · dsimp only
        rw [List.append_assoc, List.take_append_drop, List.take_append_drop]
      · dsimp only
        simp only [List.length_take, List.length_drop]
        omega

end Ibe.Ciphertext

namespace Ibe

/-- A string is read as a ciphertext just when the opening point is one of the key's group other
than the identity, the halves have one length from one up to that of a digest, and the three are
written as that string. -/
theorem ciphertext_form_unique (variant : Variant) (b : Bytes) (c : Ciphertext bls12381) :
    Ciphertext.ofBytes variant b = .ok c ↔ c.u.group = variant.keyGroup ∧
      (bls12381.Member c.u.group c.u.point ∧ c.u.point ≠ bls12381.identity c.u.group) ∧
      (c.v.length = c.w.length ∧ 1 ≤ c.v.length ∧ c.v.length ≤ 32) ∧ c.bytes = b := by
  constructor
  · intro h
    obtain ⟨point, hu, hbytes, hlength⟩ := Ciphertext.exists_of_ofBytes h
    obtain ⟨hgroup, hpoint, rfl⟩ := SourcePoint.ofBytes_eq_ok_iff.1 hu
    exact ⟨hgroup, hpoint, hlength, hbytes⟩
  · intro h
    obtain ⟨hgroup, hpoint, ⟨hhalves, hlength⟩, rfl⟩ := h
    exact ofBytes_bytes (SourcePoint.ofBytes_eq_ok_iff.2 ⟨hgroup, hpoint, rfl⟩) hlength hhalves.symm

end Ibe
end BeaconSeal
