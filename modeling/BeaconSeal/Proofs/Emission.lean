import BeaconSeal.Proofs.Schedule
import Mathlib.Algebra.Order.Floor.Div
import Mathlib.Data.Set.Card
import Mathlib.Order.Interval.Finset.Nat
/-! Rounds and their times. Main statements: over all words, the first round at a time is not after
a round exactly when the time is not after the round's, also where that time is no word; and the
current round counts the rounds that are published, which are the available ones. -/
namespace BeaconSeal.ChainInfo
variable {info : ChainInfo} {round now t n : UInt64}

theorem emission_le_iff (h : info.InWords) {r s : Nat} (hr : 1 ≤ r) (hs : 1 ≤ s) :
    info.emission r ≤ info.emission s ↔ r ≤ s := by
  rw [emission, emission, Nat.add_le_add_iff_right, Nat.mul_le_mul_right_iff h.period_pos]
  omega

/-- One more than the periods that have begun before the time, rounded up. The number fits into a
word, so that nothing wraps on the way to it. -/
theorem exists_roundAt (h : info.InWords) (now : UInt64) : ∃ n, info.roundAt now = .ok n ∧
    n.toNat = (now.toNat - 1000*info.genesisTime.toNat) ⌈/⌉ (1000*info.period.toNat) + 1 := by
  rw [roundAt, h.millis_eq]
  change ∃ n, (if now.toNat ≤ 1000*info.genesisTime.toNat then _ else _) = _ ∧ _
  split
  next hnow =>
    refine ⟨1, rfl, ?_⟩
    rw [Nat.sub_eq_zero_of_le hnow, zero_ceilDiv]
    rfl
  next hnow =>
    -- Half of the words is room enough, since a period takes a thousand milliseconds at least.
    have hceil : (now.toNat - 1000*info.genesisTime.toNat) ⌈/⌉ (1000*info.period.toNat) ≤ 2^63 := by
      rw [ceilDiv_le_iff_le_mul h.period_pos]
      have hperiod := toNat_ne_zero_iff.1 h.period_ne_zero
      have hnow := now.toNat_lt_size
      have hsize : UInt64.size = 2^64 := rfl
      omega
    rw [Nat.ceilDiv_eq_add_pred_div, Nat.add_sub_assoc (k := 1) h.period_pos] at hceil ⊢
    refine ⟨_, rfl, UInt64.toNat_ofNat_of_lt' ?_⟩
    have hsize : UInt64.size = 2^64 := rfl
    omega

theorem one_le_of_roundAt (h : info.InWords) (hn : info.roundAt now = .ok n) : 1 ≤ n.toNat := by
  obtain ⟨n', hn', hceil⟩ := exists_roundAt h now
  cases hn.symm.trans hn'
  omega

theorem roundAt_le_iff (h : info.InWords) (hn : info.roundAt now = .ok n) {r : Nat} (hr : 1 ≤ r) :
    n.toNat ≤ r ↔ now.toNat ≤ info.emission r := by
  obtain ⟨n', hn', hceil⟩ := exists_roundAt h now
  cases hn.symm.trans hn'
  have hle := ceilDiv_le_iff_le_mul h.period_pos (b := now.toNat - 1000*info.genesisTime.toNat)
    (c := r-1)
  rw [Nat.mul_comm (1000*info.period.toNat), Nat.sub_le_iff_le_add] at hle
  rw [hceil, emission, ← hle]
  omega

theorem roundTime_eq (h : info.InWords) (hround : round ≠ 0) : info.roundTime round =
    if info.emission round.toNat < 2^64 then .ok (UInt64.ofNat (info.emission round.toNat))
    else .error (.invalidRound round) := by
  rw [roundTime, if_neg hround, h.millis_eq]
  rfl

theorem toNat_of_roundTime (h : info.InWords) (ht : info.roundTime round = .ok t) :
    round ≠ 0 ∧ t.toNat = info.emission round.toNat :=
  (roundTime_eq_ok_iff h.millis_eq).1 ht

/-- A time is not after a round that has a time not before it, or that is too late to have one. -/
theorem le_emission_iff (h : info.InWords) (hround : round ≠ 0) :
    now.toNat ≤ info.emission round.toNat ↔ (∃ u, info.roundTime round = .ok u ∧ now ≤ u) ∨
      info.roundTime round = .error (.invalidRound round) ∧ 2^64 ≤ info.emission round.toNat := by
  rw [roundTime_eq h hround]
  split
  next htime =>
    have hword : (UInt64.ofNat (info.emission round.toNat)).toNat = info.emission round.toNat :=
      UInt64.toNat_ofNat_of_lt' htime
    constructor
    · intro hle
      refine .inl ⟨_, rfl, ?_⟩
      rw [UInt64.le_iff_toNat_le, hword]
      exact hle
    · rintro (⟨u, hu, hle⟩ | ⟨herror, _⟩)
      · cases hu
        rw [UInt64.le_iff_toNat_le, hword] at hle
        exact hle
      · cases herror
  next htime =>
    have hlate := Nat.le_of_not_lt htime
    have hnow := now.toNat_lt_size
    exact iff_of_true (Nat.le_trans (Nat.le_of_lt hnow) hlate) (.inr ⟨rfl, hlate⟩)

theorem roundAt_roundTime (h : info.InWords) (ht : info.roundTime round = .ok t) :
    info.roundAt t = .ok round := by
  obtain ⟨hround, htime⟩ := toNat_of_roundTime h ht
  obtain ⟨n, hn, _⟩ := exists_roundAt h t
  have hone := toNat_ne_zero_iff.1 hround
  have hnone := one_le_of_roundAt h hn
  have hle : n.toNat ≤ round.toNat := (roundAt_le_iff h hn hone).2 (Nat.le_of_eq htime)
  have hge : round.toNat ≤ n.toNat := by
    rw [← emission_le_iff h hone hnone, ← htime]
    exact (roundAt_le_iff h hn hnone).1 (Nat.le_refl _)
  rw [hn, UInt64.toNat_inj.1 (Nat.le_antisymm hle hge)]

theorem roundAt_mono (h : info.InWords) {now' n' : UInt64} (hle : now ≤ now')
    (hn : info.roundAt now = .ok n) (hn' : info.roundAt now' = .ok n') : n ≤ n' := by
  have hone := one_le_of_roundAt h hn'
  rw [UInt64.le_iff_toNat_le, roundAt_le_iff h hn hone]
  exact Nat.le_trans (UInt64.le_iff_toNat_le.1 hle) ((roundAt_le_iff h hn' hone).1 (Nat.le_refl _))

/-- The first round at a time is not after a round just when the time is not after that round's.
So it takes a round's time back to the round, and is monotone. -/
theorem roundAt_adjoint_roundTime (info : ChainInfo) (h : info.InWords) :
    (∀ now, ∃ n, info.roundAt now = .ok n ∧
      n.toNat = (now.toNat - 1000*info.genesisTime.toNat) ⌈/⌉ (1000*info.period.toNat) + 1 ∧
      ∀ round, round ≠ 0 → (n ≤ round ↔ (∃ u, info.roundTime round = .ok u ∧ now ≤ u) ∨
        info.roundTime round = .error (.invalidRound round) ∧
          2^64 ≤ info.emission round.toNat)) ∧
    (∀ round t, info.roundTime round = .ok t → info.roundAt t = .ok round) ∧
    ∀ now now', now ≤ now' →
      ∃ n n', info.roundAt now = .ok n ∧ info.roundAt now' = .ok n' ∧ n ≤ n' := by
  refine ⟨fun now => ?_, fun round t ht => roundAt_roundTime h ht, fun now now' hle => ?_⟩
  · obtain ⟨n, hn, hceil⟩ := exists_roundAt h now
    refine ⟨n, hn, hceil, fun round hround => ?_⟩
    rw [UInt64.le_iff_toNat_le, roundAt_le_iff h hn (toNat_ne_zero_iff.1 hround),
      le_emission_iff h hround]
  · obtain ⟨n, hn, _⟩ := exists_roundAt h now
    obtain ⟨n', hn', _⟩ := exists_roundAt h now'
    exact ⟨n, n', hn, hn', roundAt_mono h hle hn hn'⟩

/-- The last time that is a word falls before a round that is too late to have one. -/
theorem roundAt_adjoint_roundTime_last :
    let info : ChainInfo := ⟨[10], [], 1, 0, .unchained, []⟩
    info.InWords ∧ info.roundAt 18446744073709551615 = .ok 18446744073709553 ∧
      info.roundTime 18446744073709553 = .error (.invalidRound 18446744073709553) ∧
      info.roundTime 18446744073709552 = .ok 18446744073709551000 ∧
      info.roundAt 18446744073709551000 = .ok 18446744073709552 := by
  intro info
  have h : info.InWords := ⟨by decide, by decide, by decide⟩
  obtain ⟨hadjoint, hinverse, _⟩ := roundAt_adjoint_roundTime info h
  obtain ⟨n, hn, hceil, hle⟩ := hadjoint 18446744073709551615
  have hround : n = 18446744073709553 := by
    rw [← UInt64.toNat_inj, hceil]
    decide +kernel
  subst hround
  have hlate := (hle 18446744073709553 (by decide)).1 (by decide)
  have htime : info.roundTime 18446744073709552 = .ok 18446744073709551000 := rfl
  refine ⟨h, hn, ?_, htime, hinverse _ _ htime⟩
  rcases hlate with ⟨u, hu, _⟩ | ⟨herror, _⟩
  · cases hu
  · exact herror

theorem ncard_published (h : info.InWords) {c : UInt64} (hc : info.currentRound now = .ok c) :
    {round | ∃ t, info.roundTime round = .ok t ∧ t ≤ now}.ncard = c.toNat := by
  -- As numbers the published rounds are those from one to the current one, each of them once.
  have himage : UInt64.toNat '' {round | ∃ t, info.roundTime round = .ok t ∧ t ≤ now} =
      Finset.Icc 1 c.toNat := by
    ext r
    simp only [published_iff h hc, Set.mem_image, Set.mem_ofPred_eq, Finset.coe_Icc, Set.mem_Icc]
    constructor
    · rintro ⟨round, ⟨hround, hle⟩, rfl⟩
      exact ⟨toNat_ne_zero_iff.1 hround, UInt64.le_iff_toNat_le.1 hle⟩
    · intro hr
      obtain ⟨hone, hle⟩ := hr
      have hword : (UInt64.ofNat r).toNat = r :=
        UInt64.toNat_ofNat_of_lt' (Nat.lt_of_le_of_lt hle c.toNat_lt_size)
      refine ⟨UInt64.ofNat r, ⟨?_, ?_⟩, hword⟩
      · rw [toNat_ne_zero_iff, hword]
        exact hone
      · rw [UInt64.le_iff_toNat_le, hword]
        exact hle
  rw [← Set.ncard_image_of_injective _ (fun _ _ => UInt64.toNat_inj.1), himage,
    Set.ncard_coe_finset, Nat.card_Icc, Nat.add_sub_cancel]

/-- At the time of a round the current round is that round. -/
theorem roundAt_eq_currentRound (h : info.InWords) {c : UInt64} (hn : info.roundAt now = .ok n)
    (hc : info.currentRound now = .ok c) (hround : info.roundTime round = .ok now) : n = c := by
  cases hn.symm.trans (roundAt_roundTime h hround)
  obtain ⟨hne, hle⟩ := (published_iff h hc).1 ⟨now, hround, UInt64.le_refl now⟩
  have hone := toNat_ne_zero_iff.1 hne
  have hcone : 1 ≤ c.toNat := Nat.le_trans hone (UInt64.le_iff_toNat_le.1 hle)
  have hge : c.toNat ≤ round.toNat := by
    rw [← emission_le_iff h hcone hone, ← (toNat_of_roundTime h hround).2]
    exact (le_currentRound_iff h hc hcone).1 (Nat.le_refl _)
  exact UInt64.toNat_inj.1 (Nat.le_antisymm (UInt64.le_iff_toNat_le.1 hle) hge)

/-- Between the times of two rounds, and before genesis, the next round comes after the current
one. -/
theorem toNat_roundAt_of_between (h : info.InWords) {c : UInt64} (hn : info.roundAt now = .ok n)
    (hc : info.currentRound now = .ok c) (hbetween : ∀ round, info.roundTime round ≠ .ok now) :
    n.toNat = c.toNat + 1 := by
  have hone := one_le_of_roundAt h hn
  have hle : n.toNat ≤ c.toNat + 1 := by
    have hnext := le_currentRound_iff h hc (Nat.le_add_left 1 c.toNat)
    rw [roundAt_le_iff h hn (Nat.le_add_left 1 c.toNat)]
    omega
  have hlt : c.toNat < n.toNat := by
    refine Nat.lt_of_not_le fun hcurrent => hbetween n ?_
    have hbefore := (le_currentRound_iff h hc hone).1 hcurrent
    have hafter := (roundAt_le_iff h hn hone).1 (Nat.le_refl _)
    exact (roundTime_eq_ok_iff h.millis_eq).2
      ⟨toNat_ne_zero_iff.2 hone, Nat.le_antisymm hafter hbefore⟩
  omega

/-- A round is available just when it has a time that is not later. The current round counts the
rounds of which that holds, and is the first round at a time that is a round's, or else the one
before it. -/
theorem available_iff_published (info : ChainInfo) (h : info.InWords) :
    (∀ round now, round ≠ 0 →
      (info.isAvailable round now = .ok true ↔ ∃ t, info.roundTime round = .ok t ∧ t ≤ now) ∧
      (info.isAvailable round now = .ok false ↔ ¬ ∃ t, info.roundTime round = .ok t ∧ t ≤ now) ∧
      (2^64 ≤ info.emission round.toNat → info.isAvailable round now = .ok false)) ∧
    ∀ now, ∃ c n, info.currentRound now = .ok c ∧ info.roundAt now = .ok n ∧
      c.toNat = {round | ∃ t, info.roundTime round = .ok t ∧ t ≤ now}.ncard ∧
      c.toNat = (if now.toNat < 1000*info.genesisTime.toNat then 0
        else (now.toNat - 1000*info.genesisTime.toNat)/(1000*info.period.toNat) + 1) ∧
      ((∃ round, info.roundTime round = .ok now) → n = c) ∧
      ((∀ round, info.roundTime round ≠ .ok now) → n.toNat = c.toNat + 1) := by
  constructor
  · intro round now hround
    obtain ⟨c, hc, _⟩ := exists_currentRound h.millis_eq now
    have hfalse : info.isAvailable round now = .ok false ↔
        ¬ ∃ t, info.roundTime round = .ok t ∧ t ≤ now := by
      rw [isAvailable_eq hround hc, published_iff h hc, Except.ok.injEq, decide_eq_false_iff_not,
        and_iff_right hround]
    refine ⟨isAvailable_eq_ok_true_iff, hfalse, fun hlate => hfalse.2 ?_⟩
    rintro ⟨t, ht, _⟩
    rw [roundTime_eq h hround, if_neg (Nat.not_lt.2 hlate)] at ht
    cases ht
  · intro now
    obtain ⟨c, hc, hcurrent⟩ := exists_currentRound h.millis_eq now
    obtain ⟨n, hn, _⟩ := exists_roundAt h now
    refine ⟨c, n, hc, hn, (ncard_published h hc).symm, hcurrent, ?_, ?_⟩
    · rintro ⟨round, hround⟩
      exact roundAt_eq_currentRound h hn hc hround
    · exact toNat_roundAt_of_between h hn hc

/-- Before genesis the first round is to come; the last word is the number of a round that never
is available. -/
theorem available_iff_published_genesis :
    let info : ChainInfo := ⟨[10], [], 30, 1595431050, .unchained, []⟩
    info.InWords ∧ info.currentRound 1595431049999 = .ok 0 ∧
      info.roundAt 1595431049999 = .ok 1 ∧
      info.isAvailable 1 1595431049999 = .ok false ∧ info.isAvailable 1 1595431050000 = .ok true ∧
      info.isAvailable 18446744073709551615 18446744073709551615 = .ok false := by
  intro info
  have h : info.InWords := ⟨by decide, by decide, by decide⟩
  obtain ⟨havailable, hcurrent⟩ := available_iff_published info h
  obtain ⟨c, n, hc, hn, _, hcount, _, hbetween⟩ := hcurrent 1595431049999
  have hgenesis : info.roundTime 1 = .ok 1595431050000 :=
    (roundTime_eq_ok_iff h.millis_eq).2 ⟨by decide, by decide⟩
  have hbefore : (1595431049999 : UInt64).toNat < 1000*info.genesisTime.toNat := by decide
  have hzero : c.toNat = 0 := by rw [hcount, if_pos hbefore]
  have hone : n.toNat = 0 + 1 := by
    rw [hbetween fun round hround => ?_, hzero]
    have htime := (toNat_of_roundTime h hround).2
    rw [emission] at htime
    omega
  obtain rfl : c = 0 := UInt64.toNat_inj.1 hzero
  obtain rfl : n = 1 := UInt64.toNat_inj.1 hone
  refine ⟨h, hc, hn, (havailable 1 _ (by decide)).2.1.2 ?_,
    (havailable 1 _ (by decide)).1.2 ⟨_, hgenesis, by decide⟩,
    (havailable _ _ (by decide)).2.2 (by decide)⟩
  rintro ⟨t, ht, hnow⟩
  cases hgenesis.symm.trans ht
  exact absurd hnow (by decide)

end BeaconSeal.ChainInfo
