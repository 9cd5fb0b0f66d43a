import BeaconSeal.Chain.Document
import BeaconSeal.Curve.Bls12381
import BeaconSeal.Proofs.Emission
/-! What validation settles about the schedule. Main statement: a validated description has a
schedule exactly when genesis and period fit into words in milliseconds. Validation does not look
at that, and where one of them does not fit, every question about rounds fails with it. -/
namespace BeaconSeal.ChainInfo
variable {E : PairingGroups} {info : ChainInfo} {fault : Fault} {t : Text}

/-- At every time there is a first round and a current one, and each round is available or not. -/
def Scheduled (info : ChainInfo) : Prop :=
  ∀ now, (∃ n, info.roundAt now = .ok n) ∧ (∃ c, info.currentRound now = .ok c) ∧
    ∀ round, round ≠ 0 → ∃ b, info.isAvailable round now = .ok b

/-- At no time is there any of these, always for the same reason. -/
def Unscheduled (info : ChainInfo) (fault : Fault) : Prop :=
  ∀ now, info.roundAt now = .error (.invalidChainInfo fault) ∧
    info.currentRound now = .error (.invalidChainInfo fault) ∧
    ∀ round, round ≠ 0 → info.isAvailable round now = .error (.invalidChainInfo fault)

theorem InWords.scheduled (h : info.InWords) : info.Scheduled := by
  intro now
  obtain ⟨n, hn, _⟩ := exists_roundAt h now
  obtain ⟨c, hc, _⟩ := exists_currentRound h.millis_eq now
  exact ⟨⟨n, hn⟩, ⟨c, hc⟩, fun round hround => ⟨_, isAvailable_eq hround hc⟩⟩

theorem Scheduled.inWords (h : info.Scheduled) : info.InWords := by
  obtain ⟨_, ⟨c, hc⟩, _⟩ := h 0
  obtain ⟨genesis, period, hmillis⟩ := exists_millis_of_currentRound hc
  exact inWords_of_millis hmillis

theorem unscheduled_of_millis (h : info.millis = .error fault) : info.Unscheduled fault := by
  intro now
  have hcurrent : info.currentRound now = .error (.invalidChainInfo fault) := by
    rw [currentRound, h]
    rfl
  refine ⟨?_, hcurrent, fun round hround => ?_⟩
  · rw [roundAt, h]
    rfl
  · rw [isAvailable, if_neg hround, hcurrent]
    rfl

theorem millis_of_period (hperiod : info.period ≠ 0) : info.millis =
    if 2^64 ≤ 1000*info.genesisTime.toNat then .error .genesisOutOfRange
    else if 2^64 ≤ 1000*info.period.toNat then .error .periodOutOfRange
    else .ok (1000*info.genesisTime.toNat, 1000*info.period.toNat) := by
  have hsize : UInt64.size = 2^64 := rfl
  rw [millis, hsize, if_neg hperiod]

theorem validate_eq_ok_iff : info.validate E = .ok () ↔ info.period ≠ 0 ∧
    info.publicKey.length = info.scheme.keyGroup.pointSize ∧
      ∃ p, E.read info.scheme.keyGroup info.publicKey = .ok p := by
  rw [validate]
  split
  next hzero => simp [hzero]
  next hperiod =>
    split
    next hlength => simp [hlength]
    next hlength =>
      cases hread : E.read info.scheme.keyGroup info.publicKey with
      | error e => simp
      | ok p => simpa [hperiod] using not_not.1 hlength

/-- A document is read just when its members can be and their description is validated. -/
theorem ofJson_eq_ok_iff : ofJson E t = .ok info ↔ ∃ raw, readRaw t = some raw ∧
    Hex.decode (Text.utf8 raw.hash) = .ok info.hash ∧
    Hex.decode (Text.utf8 raw.publicKey) = .ok info.publicKey ∧
    Scheme.ofName raw.scheme = .ok info.scheme ∧ raw.period = info.period ∧
    raw.genesisTime = info.genesisTime ∧ raw.beaconId = info.beaconId ∧
    info.validate E = .ok () := by
  rw [ofJson]
  cases readRaw t with
  | none => simp
  | some raw =>
    simp only [bind_eq_ok_iff, mapError_eq_ok_iff, Option.some.injEq, exists_eq_left']
    constructor
    · rintro ⟨hash, hhash, key, hkey, scheme, hscheme, ⟨⟩, hvalid, hinfo⟩
      cases hinfo
      exact ⟨hhash, hkey, hscheme, rfl, rfl, rfl, hvalid⟩
    · rintro ⟨hhash, hkey, hscheme, hperiod, hgenesis, hid, hvalid⟩
      refine ⟨_, hhash, _, hkey, _, hscheme, (), ?_, ?_⟩
      · rw [hperiod, hgenesis, hid]
        exact hvalid
      · rw [hperiod, hgenesis, hid]

theorem validate_of_ofJson (h : ofJson E t = .ok info) : info.validate E = .ok () := by
  obtain ⟨raw, _, _, _, _, _, _, _, hvalid⟩ := ofJson_eq_ok_iff.1 h
  exact hvalid

/-- A description that is read is validated, and one that is validated has a schedule unless
genesis, or else the period, does not fit into a word in milliseconds. -/
theorem validated_scheduled_iff (E : PairingGroups) :
    (∀ t info, ofJson E t = .ok info → info.validate E = .ok ()) ∧
    ∀ info : ChainInfo, info.validate E = .ok () →
      (info.Scheduled ↔
        1000*info.genesisTime.toNat < 2^64 ∧ 1000*info.period.toNat < 2^64) ∧
      (2^64 ≤ 1000*info.genesisTime.toNat → info.Unscheduled .genesisOutOfRange) ∧
      (1000*info.genesisTime.toNat < 2^64 → 2^64 ≤ 1000*info.period.toNat →
        info.Unscheduled .periodOutOfRange) := by
  constructor
  · exact fun t info h => validate_of_ofJson h
  · intro info h
    obtain ⟨hperiod, _⟩ := validate_eq_ok_iff.1 h
    refine ⟨⟨fun h => ⟨h.inWords.genesis_lt, h.inWords.period_lt⟩, fun hlt => ?_⟩, ?_, ?_⟩
    · exact InWords.scheduled ⟨hperiod, hlt.1, hlt.2⟩
    · intro hgenesis
      apply unscheduled_of_millis
      rw [millis_of_period hperiod, if_pos hgenesis]
    · intro hgenesis hlong
      apply unscheduled_of_millis
      rw [millis_of_period hperiod, if_neg (Nat.not_le.2 hgenesis), if_pos hlong]

/-- The generator as a key, with the last genesis that fits, with the one after it, and with the
first period that does not fit. -/
theorem validated_scheduled_iff_generator :
    let key := Bytes.bigEndian 48
      0x97f1d3a73197d7942695638c4fa9ac0fc3688c4f9774b905a14e3a3f171bac586c55e83ff97a1aeffb3af00adb22c6bb
    let fits : ChainInfo := ⟨[10], key, 3, 18446744073709551, .unchained, []⟩
    let late : ChainInfo := ⟨[10], key, 3, 18446744073709552, .unchained, []⟩
    let long : ChainInfo := ⟨[10], key, 18446744073709552, 0, .unchained, []⟩
    fits.Scheduled ∧ late.Unscheduled .genesisOutOfRange ∧ long.Unscheduled .periodOutOfRange := by
  intro key fits late long
  obtain ⟨_, hsettled⟩ := validated_scheduled_iff bls12381
  obtain ⟨p, hp⟩ : ∃ p, bls12381.read .g1 key = .ok p := by
    have hread : (bls12381.read .g1 key).isOk := by decide +kernel
    cases h : bls12381.read .g1 key with
    | error e => rw [h] at hread; cases hread
    | ok p => exact ⟨p, rfl⟩
  have hvalid (period genesis : UInt64) (hperiod : period ≠ 0) :
      ChainInfo.validate bls12381 ⟨[10], key, period, genesis, .unchained, []⟩ = .ok () :=
    validate_eq_ok_iff.2 ⟨hperiod, Bytes.length_bigEndian _ _, p, hp⟩
  exact ⟨(hsettled fits (hvalid _ _ (by decide))).1.2 ⟨by decide, by decide⟩,
    (hsettled late (hvalid _ _ (by decide))).2.1 (by decide),
    (hsettled long (hvalid _ _ (by decide))).2.2 (by decide) (by decide)⟩

/-- A description whose genesis does not fit is read all the same. -/
theorem genesis_read_out_of_range :
    let t : Text := ("\x7b\"public_key\":\"97f1d3a73197d7942695638c4fa9ac0fc3688c4f9774b905a14e3" ++
      "a3f171bac586c55e83ff97a1aeffb3af00adb22c6bb\",\"period\":3,\"genesis_time\":" ++
      "18446744073709551615,\"hash\":\"0a\",\"schemeID\":\"pedersen-bls-unchained\"\x7d").toList
    ∃ info, ofJson bls12381 t = .ok info ∧ info.validate bls12381 = .ok () ∧
      info.roundAt 0 = .error (.invalidChainInfo .genesisOutOfRange) ∧
      info.currentRound 0 = .error (.invalidChainInfo .genesisOutOfRange) ∧
      info.isAvailable 1 0 = .error (.invalidChainInfo .genesisOutOfRange) := by
  intro t
  have hread : (ofJson bls12381 t).toOption.map (·.genesisTime) = some 18446744073709551615 := by
    decide +kernel
  cases h : ofJson bls12381 t with
  | error e =>
    rw [h] at hread
    cases hread
  | ok info =>
    rw [h] at hread
    have hvalid := validate_of_ofJson h
    obtain ⟨hperiod, _⟩ := validate_eq_ok_iff.1 hvalid
    have hgenesis : info.genesisTime = 18446744073709551615 := Option.some.inj hread
    have hlate : 2^64 ≤ 1000*info.genesisTime.toNat := by
      rw [hgenesis]
      decide
    have hmillis : info.millis = .error .genesisOutOfRange := by
      rw [millis_of_period hperiod, if_pos hlate]
    obtain ⟨hround, hcurrent, havailable⟩ := unscheduled_of_millis hmillis 0
    exact ⟨info, rfl, hvalid, hround, hcurrent, havailable 1 (by decide)⟩

end BeaconSeal.ChainInfo
