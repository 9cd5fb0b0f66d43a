import BeaconSeal.Chain.Schedule
import BeaconSeal.Proofs.Success
import Mathlib.Algebra.Group.Nat.Defs
/-! The schedule of a chain. Main statement: a round is available at a time exactly when it has a
time of publication that is not later. -/
namespace BeaconSeal.ChainInfo
variable {info : ChainInfo} {round now t : UInt64} {genesis period : Nat}

theorem toNat_ne_zero_iff : round ≠ 0 ↔ 1 ≤ round.toNat := by
  rw [Ne, ← UInt64.toNat_inj, Nat.one_le_iff_ne_zero]
  rfl

/-- A period takes a second at least. -/
theorem millis_eq_ok_iff : info.millis = .ok (genesis, period) ↔
    genesis = 1000*info.genesisTime.toNat ∧ period = 1000*info.period.toNat ∧
      1000 ≤ period ∧ genesis < 2^64 ∧ period < 2^64 := by
  have hpos : info.period ≠ 0 ↔ 1 ≤ info.period.toNat := toNat_ne_zero_iff
  have hsize : UInt64.size = 2^64 := rfl
  rw [millis, hsize]
  split
  next hzero =>
    have hperiod : info.period.toNat = 0 := by rw [hzero]; rfl
    simp only [reduceCtorEq, false_iff]
    omega
  next hzero =>
    have hperiod := hpos.1 hzero
    split
    · simp only [reduceCtorEq, false_iff]
      omega
    · split
      · simp only [reduceCtorEq, false_iff]
        omega
      · simp only [Except.ok.injEq, Prod.mk.injEq]
        omega

theorem roundTime_eq_ok_iff (hmillis : info.millis = .ok (genesis, period)) :
    info.roundTime round = .ok t ↔ round ≠ 0 ∧ t.toNat = (round.toNat-1)*period + genesis := by
  rw [roundTime]
  by_cases hround : round = 0
  · simp [hround]
  · rw [if_neg hround, hmillis]
    change (if (round.toNat-1)*period + genesis < UInt64.size then _ else _) = _ ↔ _
    split
    next hlt =>
      rw [Except.ok.injEq, ← UInt64.toNat_inj, UInt64.toNat_ofNat_of_lt' hlt]
      exact ⟨fun h => ⟨hround, h.symm⟩, fun h => h.2.symm⟩
    next hlt =>
      have := t.toNat_lt_size
      simp only [reduceCtorEq, false_iff]
      omega

theorem exists_millis_of_roundTime (h : info.roundTime round = .ok t) :
    ∃ genesis period, info.millis = .ok (genesis, period) := by
  rw [roundTime] at h
  split at h
  · cases h
  · obtain ⟨⟨genesis, period⟩, hmillis, _⟩ := bind_eq_ok_iff.1 h
    exact ⟨genesis, period, mapError_eq_ok_iff.1 hmillis⟩

theorem exists_millis_of_currentRound (h : info.currentRound now = .ok t) :
    ∃ genesis period, info.millis = .ok (genesis, period) := by
  obtain ⟨⟨genesis, period⟩, hmillis, _⟩ := bind_eq_ok_iff.1 h
  exact ⟨genesis, period, mapError_eq_ok_iff.1 hmillis⟩

/-- As many rounds as periods have begun since genesis. The number fits into a word. -/
theorem exists_currentRound (hmillis : info.millis = .ok (genesis, period)) (now : UInt64) :
    ∃ r, info.currentRound now = .ok r ∧
      r.toNat = if now.toNat < genesis then 0 else (now.toNat-genesis)/period + 1 := by
  rw [currentRound, hmillis]
  change ∃ r, (if now.toNat < genesis then _ else _) = _ ∧ _
  by_cases hnow : now.toNat < genesis
  · rw [if_pos hnow, if_pos hnow]
    exact ⟨0, rfl, rfl⟩
  · rw [if_neg hnow, if_neg hnow]
    refine ⟨_, rfl, UInt64.toNat_ofNat_of_lt' ?_⟩
    have hdiv : (now.toNat-genesis)/period ≤ (now.toNat-genesis)/1000 :=
      Nat.div_le_div_left (millis_eq_ok_iff.1 hmillis).2.2.1 (by decide)
    have hsize : UInt64.size = 2^64 := rfl
    have hnow := now.toNat_lt_size
    omega

/-- There is a period, and genesis and period fit into words when they are counted in
milliseconds. -/
structure InWords (info : ChainInfo) : Prop where
  period_ne_zero : info.period ≠ 0
  genesis_lt : 1000*info.genesisTime.toNat < 2^64
  period_lt : 1000*info.period.toNat < 2^64

theorem InWords.period_pos (h : info.InWords) : 0 < 1000*info.period.toNat := by
  have := toNat_ne_zero_iff.1 h.period_ne_zero
  omega

theorem InWords.millis_eq (h : info.InWords) :
    info.millis = .ok (1000*info.genesisTime.toNat, 1000*info.period.toNat) := by
  have hperiod := toNat_ne_zero_iff.1 h.period_ne_zero
  exact millis_eq_ok_iff.2 ⟨rfl, rfl, by omega, h.genesis_lt, h.period_lt⟩

theorem inWords_of_millis (h : info.millis = .ok (genesis, period)) : info.InWords := by
  obtain ⟨rfl, rfl, hperiod, hgenesis_lt, hperiod_lt⟩ := millis_eq_ok_iff.1 h
  exact ⟨toNat_ne_zero_iff.2 (by omega), hgenesis_lt, hperiod_lt⟩

/-- When the round is published, in milliseconds, whether the time fits into a word or not. -/
def emission (info : ChainInfo) (round : Nat) : Nat :=
  (round-1)*(1000*info.period.toNat) + 1000*info.genesisTime.toNat

theorem le_currentRound_iff (h : info.InWords) {r : UInt64} (hr : info.currentRound now = .ok r)
    {n : Nat} (hn : 1 ≤ n) : n ≤ r.toNat ↔ info.emission n ≤ now.toNat := by
  obtain ⟨r', hr', hcurrent⟩ := exists_currentRound h.millis_eq now
  cases hr.symm.trans hr'
  rw [hcurrent, emission]
  split
  · omega
  · have := Nat.le_div_iff_mul_le h.period_pos (x := n-1) (y := now.toNat-1000*info.genesisTime.toNat)
    omega

/-- The rounds that have a time up to now are those up to the current one. -/
theorem published_iff (h : info.InWords) {r : UInt64} (hr : info.currentRound now = .ok r) :
    (∃ t, info.roundTime round = .ok t ∧ t ≤ now) ↔ round ≠ 0 ∧ round ≤ r := by
  constructor
  · intro hpublished
    obtain ⟨t, ht, hnow⟩ := hpublished
    obtain ⟨hround, htime⟩ := (roundTime_eq_ok_iff h.millis_eq).1 ht
    refine ⟨hround, ?_⟩
    rw [UInt64.le_iff_toNat_le, le_currentRound_iff h hr (toNat_ne_zero_iff.1 hround), emission,
      ← htime]
    exact UInt64.le_iff_toNat_le.1 hnow
  · intro hle
    obtain ⟨hround, hle⟩ := hle
    rw [UInt64.le_iff_toNat_le, le_currentRound_iff h hr (toNat_ne_zero_iff.1 hround)] at hle
    have htime := UInt64.toNat_ofNat_of_lt' (Nat.lt_of_le_of_lt hle now.toNat_lt_size)
    refine ⟨_, (roundTime_eq_ok_iff h.millis_eq).2 ⟨hround, htime⟩, ?_⟩
    rw [UInt64.le_iff_toNat_le, htime]
    exact hle

theorem isAvailable_eq (hround : round ≠ 0) {r : UInt64} (hr : info.currentRound now = .ok r) :
    info.isAvailable round now = .ok (round ≤ r) := by
  rw [isAvailable, if_neg hround, hr]
  rfl

theorem isAvailable_eq_ok_true_iff : info.isAvailable round now = .ok true ↔
    ∃ t, info.roundTime round = .ok t ∧ t ≤ now := by
  by_cases hround : round = 0
  · simp [hround, isAvailable, roundTime]
  cases hmillis : info.millis with
  | error fault =>
    constructor
    · intro h
      rw [isAvailable, if_neg hround] at h
      obtain ⟨r, hr, _⟩ := bind_eq_ok_iff.1 h
      obtain ⟨genesis, period, hok⟩ := exists_millis_of_currentRound hr
      cases hok.symm.trans hmillis
    · intro h
      obtain ⟨t, ht, _⟩ := h
      obtain ⟨genesis, period, hok⟩ := exists_millis_of_roundTime ht
      cases hok.symm.trans hmillis
  | ok m =>
    obtain ⟨r, hr, _⟩ := exists_currentRound hmillis now
    rw [isAvailable_eq hround hr, published_iff (inWords_of_millis hmillis) hr, Except.ok.injEq,
      decide_eq_true_iff, and_iff_right hround]

end BeaconSeal.ChainInfo
