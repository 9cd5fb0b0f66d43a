import BeaconSeal.Proofs.Sealed
/-! What the arguments of a stanza name. Main statement: they name a round and a hash exactly when
they are digits of a number in the range of rounds and hexadecimal digits of the hash, and then one
round and one hash only; the number zero is refused as a round, and all else as a stanza. What the
wrapper writes is read as it was meant. -/
namespace BeaconSeal.Timelock
variable {E : PairingGroups} {s : Stanza} {round : UInt64} {hash body : Bytes}

theorem parseArgs_eq_zero_iff : parseArgs s = .error (.invalidRound 0) ↔
    ∃ number text : Text, s.args = [number, text] ∧ number ≠ [] ∧
      (∀ ch ∈ number, ch.isDigit) ∧ Text.decimal number = 0 := by
  rw [parseArgs]
  constructor
  · intro h
    split at h
    next number text hargs =>
      split at h
      · cases h
      next hdigits =>
      obtain ⟨hnumber, hall⟩ := digits_iff.1 hdigits
      rw [Text.decimalBelow?_eq] at h
      split at h
      · cases h
      next hzero =>
        obtain ⟨_, hdecimal⟩ := Option.ite_none_right_eq_some.1 hzero
        exact ⟨number, text, hargs, hnumber, hall, Option.some.inj hdecimal⟩
      · split at h <;> cases h
    · cases h
  · intro h
    obtain ⟨number, text, hargs, hnumber, hall, hdecimal⟩ := h
    have hbelow : Text.decimalBelow? UInt64.size 0 number = some 0 := by
      rw [Text.decimalBelow?_eq]
      change (if Text.decimal number < UInt64.size then some (Text.decimal number) else none) = _
      rw [hdecimal]
      rfl
    rw [hargs]
    dsimp only
    rw [if_neg (digits_iff.2 ⟨hnumber, hall⟩), hbelow]
    rfl

theorem error_of_parseArgs {e : Error} (h : parseArgs s = .error e) :
    e = .invalidRound 0 ∨ ∃ fault, e = .malformedStanza fault := by
  unfold parseArgs at h
  split at h
  · split at h
    · cases h
      exact .inr ⟨_, rfl⟩
    · split at h
      · cases h
        exact .inr ⟨_, rfl⟩
      · cases h
        exact .inl rfl
      · split at h
        · cases h
          exact .inr ⟨_, rfl⟩
        · cases h
  · cases h
    exact .inr ⟨_, rfl⟩

theorem parseArgs_written (hround : round ≠ 0) (word : Text) :
    parseArgs ⟨word, [Text.ofNat round.toNat, Hex.encode hash], body⟩ = .ok (round, hash) :=
  parseArgs_eq_ok_iff.2 ⟨_, _, rfl, Text.ofNat_ne_nil _, fun _ => Text.isDigit_of_mem_ofNat,
    Text.decimal_ofNat _, hround, Hex.decode_encode _⟩

/-- The arguments of a stanza name at most one round and one hash. They do so when the first is
digits, with zeros in front or not, of a number from one up to the last round, and the second is
hexadecimal digits, of either case, of the hash. -/
theorem arguments_name_one (E : PairingGroups) :
    (∀ (s : Stanza) (round : UInt64) (hash : Bytes), parseArgs s = .ok (round, hash) ↔
      ∃ number text : Text, s.args = [number, text] ∧
        (number ≠ [] ∧ (∀ ch ∈ number, ch.isDigit) ∧ Text.decimal number = round.toNat ∧
          1 ≤ round.toNat) ∧
        text.length % 2 = 0 ∧ (∀ ch ∈ text, ch.isHexDigit) ∧
          text.map Char.toLower = Hex.encode hash) ∧
    (∀ s : Stanza, parseArgs s = .error (.invalidRound 0) ↔
      ∃ number text : Text, s.args = [number, text] ∧ number ≠ [] ∧
        (∀ ch ∈ number, ch.isDigit) ∧ Text.decimal number = 0) ∧
    (∀ (s : Stanza) (e : Error), parseArgs s = .error e →
      e = .invalidRound 0 ∨ ∃ fault, e = .malformedStanza fault) ∧
    (∀ (round : UInt64) (hash body : Bytes) (word : Text), round ≠ 0 →
      parseArgs ⟨word, [Text.ofNat round.toNat, Hex.encode hash], body⟩ = .ok (round, hash)) ∧
    ∀ (σ : Type) (c : Client σ) (w w' : World σ) (r : Recipient) (key : FileKey)
      (stanzas : List Stanza), (wrap E r key).run c w = (.done stanzas, w') →
      ∃ info s, (c.info w.client).1 = .ok info ∧ stanzas = [s] ∧
        s.args = [Text.ofNat r.round.toNat, Hex.encode info.hash] ∧
        parseArgs s = .ok (r.round, info.hash) := by
  refine ⟨?_, fun s => parseArgs_eq_zero_iff, fun s e h => error_of_parseArgs h,
    fun round hash body word hround => parseArgs_written hround word, ?_⟩
  · intro s round hash
    rw [parseArgs_eq_ok_iff]
    simp only [Hex.decode_eq_ok_iff, ChainInfo.toNat_ne_zero_iff]
    constructor
    · intro h
      obtain ⟨number, text, hargs, hnumber, hall, hdecimal, hround, hhash⟩ := h
      have hlength := Hex.length_of_toLower hhash
      exact ⟨number, text, hargs, ⟨hnumber, hall, hdecimal, hround⟩, by omega,
        Hex.isHexDigit_of_mem hhash, hhash⟩
    · intro h
      obtain ⟨number, text, hargs, ⟨hnumber, hall, hdecimal, hround⟩, _, _, hhash⟩ := h
      exact ⟨number, text, hargs, hnumber, hall, hdecimal, hround, hhash⟩
  · intro σ c w w' r key stanzas h
    obtain ⟨info, variant, seed, ct, hinfo, _, _, _, _, rfl⟩ := exists_of_run_wrap h
    exact ⟨info, _, hinfo, rfl, rfl, parseArgs_written r.round_ne_zero tag⟩

/-- Zeros in front and letters in upper case are read; the number past the last round is not. -/
theorem arguments_name_one_padded :
    parseArgs ⟨tag, ["007".toList, "0A".toList], []⟩ = .ok (7, [10]) ∧
    parseArgs ⟨tag, ["000".toList, "no hash".toList], []⟩ = .error (.invalidRound 0) ∧
    (∃ fault, parseArgs ⟨tag, ["18446744073709551616".toList, "0a".toList], []⟩ =
      .error (.malformedStanza fault)) ∧
    parseArgs ⟨tag, [Text.ofNat (0xffffffffffffffff : UInt64).toNat, Hex.encode []], []⟩ =
      .ok (0xffffffffffffffff, []) := by
  obtain ⟨hok, hzero, herror, hwritten, _⟩ := arguments_name_one exponents
  refine ⟨(hok _ _ _).2 ?_, (hzero _).2 ?_, ?_, hwritten _ _ _ _ (by decide)⟩
  · exact ⟨_, _, rfl, ⟨by decide, List.all_eq_true.1 (by decide), by decide, by decide⟩,
      by decide, List.all_eq_true.1 (by decide), by decide⟩
  · exact ⟨_, _, rfl, by decide, List.all_eq_true.1 (by decide), by decide⟩
  · have hlarge : parseArgs ⟨tag, ["18446744073709551616".toList, "0a".toList], []⟩ =
      .error (.malformedStanza (.roundOutOfRange "18446744073709551616".toList)) := by decide
    rcases herror _ _ hlarge with h | h
    · cases h
    · exact ⟨_, hlarge⟩

end BeaconSeal.Timelock
