import BeaconSeal.Bytes.Endian
import BeaconSeal.Proofs.Pairing
import Mathlib.NumberTheory.LucasPrimality
import Mathlib.Tactic.NormNum.Prime
import Mathlib.Tactic.ReduceModChar
/-! Groups that satisfy the laws: a point is known by its exponent, and the pairing multiplies
exponents. The order of the groups is prime, so that no product of exponents vanishes. -/
namespace BeaconSeal

def orderFactors : List (Nat × Nat) := [(2, 32), (3, 1), (11, 1), (19, 1), (10177, 1),
  (125527, 1), (859267, 1), (906349, 2), (2508409, 1), (2529403, 1), (52437899, 1),
  (254760293, 2)]

theorem prod_orderFactors : (orderFactors.map (fun f => f.1^f.2)).prod = scalarOrder-1 := by
  decide

theorem prime_of_mem_orderFactors {f : Nat × Nat} (hf : f ∈ orderFactors) : f.1.Prime := by
  simp only [orderFactors, List.mem_cons, List.not_mem_nil, or_false] at hf
  rcases hf with rfl | rfl | rfl | rfl | rfl | rfl | rfl | rfl | rfl | rfl | rfl | rfl <;>
    norm_num

theorem eq_factor_of_prime_dvd {q : Nat} (hq : q.Prime) (h : q ∣ scalarOrder-1) :
    ∃ f ∈ orderFactors, q = f.1 := by
  obtain ⟨_, hmem, hd⟩ := (Prime.dvd_prod_iff hq.prime).1 (prod_orderFactors ▸ h)
  obtain ⟨f, hf, rfl⟩ := List.mem_map.1 hmem
  have hbase : q ∣ f.1 := hq.dvd_of_dvd_pow hd
  exact ⟨f, hf, (Nat.prime_dvd_prime_iff_eq hq (prime_of_mem_orderFactors hf)).1 hbase⟩

/-- Seven generates the units modulo the order. -/
theorem scalarOrder_prime : scalarOrder.Prime := by
  have horder : scalarOrder =
    52435875175126190479447740508185965837690552500527637822603658699938581184513 := rfl
  refine lucas_primality scalarOrder 7 ?_ ?_
  · rw [horder]
    reduce_mod_char
  · intro q hq hd
    obtain ⟨f, hf, rfl⟩ := eq_factor_of_prime_dvd hq hd
    rw [horder]
    simp only [orderFactors, List.mem_cons, List.not_mem_nil, or_false] at hf
    rcases hf with rfl | rfl | rfl | rfl | rfl | rfl | rfl | rfl | rfl | rfl | rfl | rfl
    all_goals
      reduce_mod_char
      exact by decide +kernel

/-- Every point is a multiple of the generator, and stands as the factor. -/
def exponents : PairingGroups where
  Point _ := Scalar
  decEq _ := inferInstanceAs (DecidableEq Scalar)
  identity _ := Scalar.ofNat 0
  generator _ := Scalar.ofNat 1
  smul n p := n*p
  compress {g} p := Bytes.bigEndian g.pointSize p.val
  decompress? _ b :=
    if h : Bytes.ofBigEndian b < scalarOrder then some ⟨Bytes.ofBigEndian b, h⟩ else none
  hash _ tag message := Scalar.ofNat (Bytes.ofBigEndian (Sha256.digest (tag ++ message)))
  Target := Scalar
  pair p q := p*q
  targetBytes t := Bytes.bigEndian 576 t.val

theorem Scalar.mul_left_comm (a b c : Scalar) : a*(b*c) = b*(a*c) := by
  rw [← Fin.mul_assoc, Fin.mul_comm a b, Fin.mul_assoc]

theorem Scalar.val_mul_ne_zero {a b : Scalar} (ha : a.val ≠ 0) (hb : b.val ≠ 0) :
    (a*b).val ≠ 0 := by
  intro h
  rw [Fin.val_mul] at h
  rcases scalarOrder_prime.dvd_mul.1 (Nat.dvd_of_mod_eq_zero h) with hd | hd
  · exact ha (Nat.eq_zero_of_dvd_of_lt hd a.isLt)
  · exact hb (Nat.eq_zero_of_dvd_of_lt hd b.isLt)

/-- A number that is not zero is cancelled: the order is prime. -/
theorem Scalar.mul_left_cancel {a b c : Scalar} (ha : a.val ≠ 0) (h : a*b = a*c) : b = c := by
  have hmod : a.val*b.val ≡ a.val*c.val [MOD scalarOrder] := congrArg Fin.val h
  have hcoprime : Nat.Coprime scalarOrder a.val :=
    (Nat.Prime.coprime_iff_not_dvd scalarOrder_prime).2
      (fun hd => ha (Nat.eq_zero_of_dvd_of_lt hd a.isLt))
  have hbc : b.val % scalarOrder = c.val % scalarOrder :=
    Nat.ModEq.cancel_left_of_coprime hcoprime hmod
  rw [Nat.mod_eq_of_lt b.isLt, Nat.mod_eq_of_lt c.isLt] at hbc
  exact Fin.ext hbc

namespace exponents
open PairingGroups

theorem smul_generator (n : Scalar) (g : SourceGroup) :
    exponents.smul n (exponents.generator g) = n := by
  apply Fin.ext
  change n.val * 1 % scalarOrder = n.val
  rw [Nat.mul_one, Nat.mod_eq_of_lt n.isLt]

theorem ne_identity_iff {g : SourceGroup} {p : Scalar} :
    (show exponents.Point g from p) ≠ exponents.identity g ↔ p.val ≠ 0 := by
  change p ≠ Scalar.ofNat 0 ↔ _
  rw [Ne, Fin.ext_iff]
  rfl

theorem fullOrder : FullOrder exponents := by
  intro g n m h
  have hsmul : exponents.smul n (exponents.generator g) =
    exponents.smul m (exponents.generator g) := h
  rw [smul_generator, smul_generator] at hsmul
  exact hsmul

theorem laws : exponents.Laws (fun _ _ => True) (fun (n t : Scalar) => n*t) where
  generator_mem _ := trivial
  smul_mem _ _ := trivial
  hash_mem _ _ _ := trivial
  generator_ne_identity _ := ne_identity_iff.2 (show (Scalar.ofNat 1).val ≠ 0 by decide)
  smul_ne_identity {g p n} _ hp hn :=
    ne_identity_iff.2 (Scalar.val_mul_ne_zero hn (ne_identity_iff.1 hp))
  pair_smul_left {p q} n _ _ := Fin.mul_assoc n p q
  pair_smul_right {p q} n _ _ := Scalar.mul_left_comm p n q
  length_compress _ := Bytes.length_bigEndian _ _
  decompress?_compress {g p} _ _ := by
    have hp : p.val < scalarOrder := p.isLt
    have hsize : scalarOrder ≤ 256^g.pointSize := by
      cases g <;> decide
    have hread : Bytes.ofBigEndian (exponents.compress p) = p.val := by
      change Bytes.ofBigEndian (Bytes.bigEndian g.pointSize p.val) = p.val
      rw [Bytes.ofBigEndian_bigEndian, Nat.mod_eq_of_lt (by omega)]
    change (if h : Bytes.ofBigEndian (exponents.compress p) < scalarOrder then
      some ⟨Bytes.ofBigEndian (exponents.compress p), h⟩ else none) = some p
    simp only [hread, hp, dite_true]
    rfl

theorem nonDegenerate : exponents.NonDegenerate (fun _ _ => True) := by
  intro g p q q' _ hp _ _ h
  have hp0 : (show Scalar from p).val ≠ 0 := ne_identity_iff.1 hp
  cases g with
  | g1 => exact Scalar.mul_left_cancel hp0 h
  | g2 =>
    rw [PairingGroups.pairAcross, PairingGroups.pairAcross] at h
    exact Scalar.mul_left_cancel hp0 ((Fin.mul_comm _ _).trans (h.trans (Fin.mul_comm _ _)))

end exponents
end BeaconSeal
