import BeaconSeal.Field.Prime
import Mathlib.Data.List.Prime
import Mathlib.FieldTheory.Finite.Basic
import Mathlib.Tactic.NormNum.GCD
import Mathlib.Tactic.NormNum.Prime
import Mathlib.Tactic.ReduceModChar
/-! The modulus of the field is prime. One less than it has a prime factor above its square root,
which is enough to know, and for that factor the same is shown in the same way, until the numbers
are small. -/
namespace BeaconSeal

theorem isUnit_ofNat_of_coprime {m n : Nat} [m.AtLeastTwo] (h : m.Coprime n) :
    IsUnit (OfNat.ofNat m : ZMod n) :=
  (ZMod.isUnit_iff_coprime m n).2 h

/-- A number is prime when the product of some prime factors of one less than it is above its
square root, and none of them can be taken off the order of some unit: the product divides that
order, which modulo the smallest prime factor of the number is less than that factor. -/
theorem prime_of_factors {n a : Nat} [a.AtLeastTwo] {l : List Nat} (hn : 1 < n)
    (hl : ∀ q ∈ l, q.Prime) (hdvd : l.prod ∣ n-1) (hlt : n < l.prod*l.prod)
    (hpow : (OfNat.ofNat a : ZMod n)^(n-1) = 1)
    (hunit : ∀ q ∈ l, IsUnit ((OfNat.ofNat a : ZMod n)^((n-1)/q) - 1)) : n.Prime := by
  by_contra hprime
  have : Fact n.minFac.Prime := ⟨Nat.minFac_prime hn.ne'⟩
  let cast : ZMod n →+* ZMod n.minFac := ZMod.castHom n.minFac_dvd _
  let b : ZMod n.minFac := cast (OfNat.ofNat a)
  have hb : b^(n-1) = 1 := by rw [← map_pow, hpow, map_one]
  have hb0 : b ≠ 0 := by
    intro h
    rw [h, zero_pow (by omega)] at hb
    exact zero_ne_one hb
  obtain ⟨m, hm⟩ := orderOf_dvd_of_pow_eq_one hb
  have hcoprime : l.prod.Coprime m := by
    refine Nat.coprime_of_dvd fun q hq hql hqm => ?_
    have hmem : q ∈ l := mem_list_primes_of_dvd_prod hq.prime (fun p hp => (hl p hp).prime) hql
    obtain ⟨k, rfl⟩ := hqm
    have hquotient : (n-1)/q = orderOf b * k := by
      rw [hm, Nat.mul_left_comm, Nat.mul_div_cancel_left _ hq.pos]
    have hone : b^((n-1)/q) = 1 := by rw [hquotient, pow_mul, pow_orderOf_eq_one, one_pow]
    have hzero : cast ((OfNat.ofNat a)^((n-1)/q) - 1) = 0 := by
      rw [map_sub, map_pow, map_one]
      exact sub_eq_zero.2 hone
    exact not_isUnit_zero (hzero ▸ (hunit q hmem).map cast)
  have horder : l.prod ∣ n.minFac-1 :=
    (hcoprime.dvd_of_dvd_mul_right (hm ▸ hdvd)).trans (ZMod.orderOf_dvd_card_sub_one hb0)
  have htwo : 2 ≤ n.minFac := this.1.two_le
  have hle : l.prod ≤ n.minFac-1 := Nat.le_of_dvd (by omega) horder
  have hsquare : n.minFac*n.minFac ≤ n := by
    rw [← sq]
    exact Nat.minFac_sq_le_self (by omega) hprime
  have hmul : l.prod*l.prod ≤ n.minFac*n.minFac := Nat.mul_le_mul (by omega) (by omega)
  omega

theorem prime_of_factor {n a q : Nat} [a.AtLeastTwo] (hn : 1 < n) (hq : q.Prime)
    (hdvd : q ∣ n-1) (hlt : n < q*q) (hpow : (OfNat.ofNat a : ZMod n)^(n-1) = 1)
    (hunit : IsUnit ((OfNat.ofNat a : ZMod n)^((n-1)/q) - 1)) : n.Prime :=
  prime_of_factors (l := [q]) hn (by simpa using hq) (by simpa using hdvd) (by simpa using hlt)
    hpow (by simpa using hunit)

theorem prime_of_72_bits : Nat.Prime 3819663927398918131021 := by
  have hsmall : ∀ q ∈ [2, 2, 3, 3, 5, 19, 113, 755057], q.Prime := by
    simp only [List.forall_mem_cons]
    norm_num
  refine prime_of_factors (a := 7) (by norm_num) hsmall (by norm_num) (by norm_num)
    (by reduce_mod_char) fun q hq => ?_
  simp only [List.mem_cons, List.not_mem_nil, or_false] at hq
  rcases hq with rfl | rfl | rfl | rfl | rfl | rfl | rfl | rfl
  all_goals
    norm_num only
    reduce_mod_char
    exact isUnit_ofNat_of_coprime (by norm_num)

theorem prime_of_120_bits : Nat.Prime 1125266252156850182658904441386709967 := by
  refine prime_of_factor (a := 2) (by norm_num) prime_of_72_bits (by norm_num) (by norm_num)
    (by reduce_mod_char) ?_
  norm_num only
  reduce_mod_char
  exact isUnit_ofNat_of_coprime (by norm_num)

theorem prime_of_234_bits :
    Nat.Prime 15778400344354997994418419698270088123916926905054652752758194827714659 := by
  refine prime_of_factor (a := 2) (by norm_num) prime_of_120_bits (by norm_num) (by norm_num)
    (by reduce_mod_char) ?_
  norm_num only
  reduce_mod_char
  exact isUnit_ofNat_of_coprime (by norm_num)

theorem Fp.modulus_prime : modulus.Prime := by
  rw [modulus]
  refine prime_of_factor (a := 2) (by norm_num) prime_of_234_bits (by norm_num) (by norm_num)
    (by reduce_mod_char) ?_
  norm_num only
  reduce_mod_char
  exact isUnit_ofNat_of_coprime (by norm_num)

end BeaconSeal
