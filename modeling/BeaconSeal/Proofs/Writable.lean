import BeaconSeal.Proofs.Rejection
import BeaconSeal.Proofs.Validated
/-! Which wrapped keys a header can carry. Main statement: those of every chain but one whose hash
is empty, of which nothing can be written in the stanza; sealing for such a chain fails when all
else is done, and sealing fails over its stanzas for no other reason. -/
namespace BeaconSeal
variable {E : PairingGroups} {σ : Type} {c : Client σ} {s s' : World σ}

namespace Envelope
variable {key : FileKey} {stanzas : List Stanza} {payload : Bytes}

/-- Where there are stanzas, their words are all that can be malformed about them. -/
theorem run_finish_malformed_iff (hne : stanzas ≠ []) {fault : Stanza.Fault} :
    (finish payload key stanzas).run c s = (.failed (.malformedStanza fault), s') ↔
      s' = s ∧ ∃ word, fault = .word word ∧ Header.macInput stanzas = .error word := by
  have hempty : ¬ stanzas.isEmpty := by simpa using hne
  rw [finish, if_neg hempty, Dialogue.run_bind_eq_failed_iff, Dialogue.run_ofExcept_eq_failed_iff]
  constructor
  · intro h
    obtain ⟨⟨word, hword, hfault⟩, rfl⟩ | ⟨mac, t, _, h⟩ := h
    · cases hfault
      exact ⟨rfl, word, rfl, headerMac_eq_error_iff.1 hword⟩
    obtain h | ⟨nonce, t', _, h⟩ := Dialogue.run_bind_eq_failed_iff.1 h
    · obtain ⟨reason, hreason⟩ := Dialogue.failed_of_run_draw h
      cases hreason
    · cases h
  · intro h
    obtain ⟨rfl, word, rfl, hword⟩ := h
    exact .inl ⟨⟨word, headerMac_eq_error_iff.2 hword, rfl⟩, rfl⟩

end Envelope

namespace Timelock
variable {r : Recipient} {key : FileKey} {stanzas : List Stanza} {info : ChainInfo}

theorem macInput_stanza_of_empty (round : UInt64) (hhash : info.hash = [])
    (ct : Ibe.Ciphertext E) : Header.macInput [stanza round info ct] = .error .empty := by
  have htag : Stanza.checkWord tag = .ok () := by decide
  have hempty : Stanza.checkWord (Hex.encode []) = .error .empty := rfl
  have hrender : (stanza round info ct).render = .error .empty := by
    rw [Stanza.render, stanza, ChainInfo.hashHex, hhash]
    change ((Stanza.checkWord tag >>= fun _ => Stanza.checkWord (Text.ofNat round.toNat) >>=
      fun _ => Stanza.checkWord (Hex.encode []) >>= fun _ => .ok ()) >>= _) = _
    rw [htag, Stanza.checkWord_ofNat, hempty]
    rfl
  rw [Header.macInput, List.mapM_cons, hrender]
  rfl

theorem exists_macInput_stanza_iff (round : UInt64) (ct : Ibe.Ciphertext E) :
    (∃ t, Header.macInput [stanza round info ct] = .ok t) ↔ info.hash ≠ [] := by
  constructor
  · intro h hhash
    obtain ⟨t, ht⟩ := h
    rw [macInput_stanza_of_empty round hhash ct] at ht
    cases ht
  · intro hhash
    refine Header.exists_macInput_iff.2 fun s hs w hw => ?_
    obtain rfl := List.mem_singleton.1 hs
    exact checkWord_of_mem_stanza hhash hw

/-- With random bytes for the seed, only the search for its scalar can fail. -/
theorem exists_run_wrap (hvalid : info.validate E = .ok ()) {variant : Variant}
    (hvariant : info.scheme.variant = .ok variant) (seed : SizedBytes key.bytes.length)
    (hscalar : ∃ x, Ibe.seedScalar seed.1 key.bytes = .ok x) {client client' : σ}
    (hinfo : c.info client = (.ok info, client')) (pool : Bytes) : ∃ ct : Ibe.Ciphertext E,
      (wrap E r key).run c ⟨client, seed.1 ++ pool⟩ =
        (.done [stanza r.round info ct], ⟨client', pool⟩) := by
  have hlength : 1 ≤ key.bytes.length ∧ key.bytes.length ≤ Ibe.padSize := by
    rcases key.length_bytes with h | h <;> simp [h, Ibe.padSize]
  obtain ⟨_, _, hread⟩ := ChainInfo.validate_eq_ok_iff.1 hvalid
  rw [Scheme.keyGroup_of_variant hvariant] at hread
  obtain ⟨ct, hct⟩ := Ibe.exists_encryptWith_iff.2 ⟨hlength, hread, hscalar⟩
  exact ⟨ct, run_wrap hvalid hvariant r key seed hct hinfo pool⟩

/-- The wrapper itself does not look at the words of its stanza. -/
theorem not_malformed_of_run_wrap {fault : Stanza.Fault} :
    (wrap E r key).run c s ≠ (.failed (.malformedStanza fault), s') := by
  intro h
  obtain h | ⟨info, t, _, h⟩ := Dialogue.run_bind_eq_failed_iff.1 h
  · obtain ⟨_, hfault⟩ := fault_of_run_fetchInfo h rfl
    cases hfault
  obtain h | ⟨variant, t', _, h⟩ := Dialogue.run_bind_eq_failed_iff.1 h
  · obtain ⟨⟨_, _, hfault⟩, _⟩ := Dialogue.run_ofExcept_eq_failed_iff.1 h
    cases (Error.ofIbe_of_kind (hfault ▸ rfl)).symm.trans hfault
  obtain h | ⟨ct, t'', _, h⟩ := Dialogue.run_bind_eq_failed_iff.1 h
  · obtain ⟨_, hfault⟩ := Dialogue.failed_of_run_mapError h
    cases (Error.ofIbe_of_kind (hfault ▸ rfl)).symm.trans hfault
  · cases h

/-- What is left of encryption after wrapping fails over the stanza just when the hash is empty. -/
theorem run_finish_malformed_iff {payload : Bytes} {round : UInt64} {ct : Ibe.Ciphertext E}
    {fault : Stanza.Fault} :
    (Envelope.finish payload key [stanza round info ct]).run c s =
        (.failed (.malformedStanza fault), s') ↔
      s' = s ∧ fault = .word .empty ∧ info.hash = [] := by
  rw [Envelope.run_finish_malformed_iff (List.cons_ne_nil _ _)]
  constructor
  · intro h
    obtain ⟨hs, word, rfl, hword⟩ := h
    have hhash : info.hash = [] := by
      by_contra hne
      obtain ⟨t, ht⟩ := (exists_macInput_stanza_iff round ct).2 hne
      cases ht.symm.trans hword
    cases hword.symm.trans (macInput_stanza_of_empty round hhash ct)
    exact ⟨hs, rfl, hhash⟩
  · intro h
    obtain ⟨hs, rfl, hhash⟩ := h
    exact ⟨hs, _, rfl, macInput_stanza_of_empty round hhash ct⟩

/-- The file key was drawn and wrapped, for a chain whose hash is empty. -/
theorem run_encrypt_malformed_iff {payload : Bytes} {fault : Stanza.Fault} :
    (Envelope.encrypt payload (wrap E r)).run c s = (.failed (.malformedStanza fault), s') ↔
      fault = .word .empty ∧ ∃ (key : FileKey) (pool : Bytes) (stanzas : List Stanza)
        (info : ChainInfo), key.bytes.length = 32 ∧ s.pool = key.bytes ++ pool ∧
        (wrap E r key).run c ⟨s.client, pool⟩ = (.done stanzas, s') ∧
        (c.info s.client).1 = .ok info ∧ info.hash = [] := by
  constructor
  · intro h
    by_cases hpool : 32 ≤ s.pool.length
    · obtain ⟨b, pool, hb⟩ := SizedBytes.exists_append hpool
      let key : FileKey := ⟨b.1, .inr b.2⟩
      have hkey : key.bytes.length = 32 := b.2
      rw [Envelope.run_encrypt_of_wrap hkey hb] at h
      obtain h | ⟨stanzas, t, hwrap, h⟩ := Dialogue.run_bind_eq_failed_iff.1 h
      · exact absurd h not_malformed_of_run_wrap
      · obtain ⟨info, variant, seed, ct, hinfo, _, _, _, _, rfl⟩ := exists_of_run_wrap hwrap
        obtain ⟨rfl, hfault, hhash⟩ := run_finish_malformed_iff.1 h
        exact ⟨hfault, key, pool, _, info, hkey, hb, hwrap, hinfo, hhash⟩
    · rw [Envelope.run_encrypt_of_lt (Nat.lt_of_not_le hpool)] at h
      cases h
  · intro h
    obtain ⟨hfault, key, pool, stanzas, info, hkey, hpool, hwrap, hinfo, hhash⟩ := h
    obtain ⟨info', variant, seed, ct, hinfo', _, _, _, _, rfl⟩ := exists_of_run_wrap hwrap
    cases hinfo.symm.trans hinfo'
    rw [Envelope.run_encrypt_of_wrap hkey hpool, Dialogue.run_bind_of_done hwrap]
    exact run_finish_malformed_iff.2 ⟨rfl, hfault, hhash⟩

end Timelock

namespace Sealing
variable {o : SealOptions} {round : UInt64} {payload : Bytes} {fault : Stanza.Fault}

/-- Neither the envelope's bytes nor the armor have anything to say about stanzas. -/
theorem run_encryptWith_malformed_iff (hround : round ≠ 0) :
    (encryptWith E o round payload).run c s = (.failed (.malformedStanza fault), s') ↔
      (Envelope.encrypt payload (Timelock.wrap E ⟨round, hround⟩)).run c s =
        (.failed (.malformedStanza fault), s') := by
  rw [encryptWith, Dialogue.run_bind_eq_failed_iff, envelope,
    Dialogue.run_ofExcept_bind_ok (Timelock.Recipient.ofRound_eq hround),
    Dialogue.run_bind_eq_failed_iff]
  constructor
  · intro h
    obtain (h | ⟨e, t, hencrypt, h⟩) | ⟨raw, t, _, h⟩ := h
    · exact h
    · rcases Envelope.run_encrypt_cases c s payload (Timelock.wrap E ⟨round, hround⟩) with
        ⟨_, _, hdone⟩ | ⟨_, _, _, _, ⟨_, _, hdone⟩ | ⟨e', _, _, _, hdone, husable⟩⟩
      · cases hencrypt.symm.trans hdone
      · cases hencrypt.symm.trans hdone
      · cases hencrypt.symm.trans hdone
        obtain ⟨raw, hraw, _⟩ := husable.readable
        rw [hraw] at h
        cases h
    · split at h
      · obtain ⟨⟨_, _, hfault⟩, _⟩ := Dialogue.run_ofExcept_eq_failed_iff.1 h
        cases hfault
      · cases h
  · intro h
    exact .inl (.inl h)

/-- The stanza of a wrapped key can be written, unless the chain's hash is empty. Sealing fails
over its stanzas just when a file key was drawn and wrapped for such a chain. -/
theorem writable_unless_hash_empty (E : PairingGroups) (σ : Type) (c : Client σ) (s : World σ) :
    (∀ (r : Timelock.Recipient) (key : FileKey) (stanzas : List Stanza) (s' : World σ),
      (Timelock.wrap E r key).run c s = (.done stanzas, s') → ∃ info,
        (c.info s.client).1 = .ok info ∧ info.validate E = .ok () ∧
        ((∃ t, Header.macInput stanzas = .ok t) ↔ info.hash ≠ [])) ∧
    ∀ (o : SealOptions) (round : UInt64) (payload : Bytes) (fault : Stanza.Fault) (s' : World σ),
      (encryptWith E o round payload).run c s = (.failed (.malformedStanza fault), s') ↔
        fault = .word .empty ∧ ∃ (hround : round ≠ 0) (key : FileKey) (pool : Bytes)
          (stanzas : List Stanza) (info : ChainInfo), key.bytes.length = 32 ∧
          s.pool = key.bytes ++ pool ∧
          (Timelock.wrap E ⟨round, hround⟩ key).run c ⟨s.client, pool⟩ = (.done stanzas, s') ∧
          (c.info s.client).1 = .ok info ∧ info.hash = [] := by
  constructor
  · intro r key stanzas s' h
    obtain ⟨info, variant, seed, ct, hinfo, hvalid, _, _, _, rfl⟩ := Timelock.exists_of_run_wrap h
    exact ⟨info, hinfo, hvalid, Timelock.exists_macInput_stanza_iff _ _⟩
  · intro o round payload fault s'
    by_cases hround : round = 0
    · subst hround
      constructor
      · intro h
        cases h
      · intro h
        obtain ⟨_, hround, _⟩ := h
        exact absurd rfl hround
    · rw [run_encryptWith_malformed_iff hround, Timelock.run_encrypt_malformed_iff]
      constructor
      · intro h
        obtain ⟨hfault, h⟩ := h
        exact ⟨hfault, hround, h⟩
      · intro h
        obtain ⟨hfault, _, h⟩ := h
        exact ⟨hfault, h⟩

def generatorKey : Bytes := Bytes.bigEndian 48
  0x97f1d3a73197d7942695638c4fa9ac0fc3688c4f9774b905a14e3a3f171bac586c55e83ff97a1aeffb3af00adb22c6bb

def generatorNode (hash : Bytes) : FixedNode :=
  ⟨.ok ⟨hash, generatorKey, 3, 0, .unchained, []⟩, [], none⟩

def onesKey : FileKey := ⟨List.replicate 32 1, .inr rfl⟩

theorem validate_generator (hash : Bytes) :
    ChainInfo.validate bls12381 ⟨hash, generatorKey, 3, 0, .unchained, []⟩ = .ok () := by
  have hread : ∃ p, bls12381.read .g1 generatorKey = .ok p := exists_of_isOk (by decide +kernel)
  have hperiod : (3 : UInt64) ≠ 0 := by decide
  exact ChainInfo.validate_eq_ok_iff.2 ⟨hperiod, Bytes.length_bigEndian _ _, hread⟩

theorem exists_run_wrap_generator (hash pool : Bytes) : ∃ ct : Ibe.Ciphertext bls12381,
    (Timelock.wrap bls12381 ⟨1, by decide⟩ onesKey).run FixedNode.client
        ⟨generatorNode hash, List.replicate 32 1 ++ pool⟩ =
      (.done [Timelock.stanza 1 ⟨hash, generatorKey, 3, 0, .unchained, []⟩ ct],
        ⟨generatorNode hash, pool⟩) := by
  have hscalar : ∃ x, Ibe.seedScalar (List.replicate 32 1) onesKey.bytes = .ok x :=
    exists_of_isOk (by decide +kernel)
  exact Timelock.exists_run_wrap (validate_generator hash) rfl ⟨List.replicate 32 1, rfl⟩ hscalar
    rfl pool

/-- Two chains with the generator as their key, one of them without a hash. -/
theorem writable_unless_hash_empty_generator :
    (∃ stanzas t s', (Timelock.wrap bls12381 ⟨1, by decide⟩ onesKey).run
        FixedNode.client ⟨generatorNode [10], List.replicate 48 1⟩ =
          (.done stanzas, s') ∧ Header.macInput stanzas = .ok t) ∧
    ∃ s', (encryptWith bls12381 {} 1 [104, 105]).run FixedNode.client
        ⟨generatorNode [], List.replicate 80 1⟩ =
          (.failed (.malformedStanza (.word .empty)), s') := by
  constructor
  · obtain ⟨ct, hwrap⟩ := exists_run_wrap_generator [10] (List.replicate 16 1)
    obtain ⟨info, hinfo, _, hwritable⟩ :=
      (writable_unless_hash_empty bls12381 FixedNode FixedNode.client _).1 _ _ _ _ hwrap
    cases hinfo
    obtain ⟨t, ht⟩ := hwritable.2 (List.cons_ne_nil _ _)
    exact ⟨_, t, _, hwrap, ht⟩
  · obtain ⟨ct, hwrap⟩ := exists_run_wrap_generator [] (List.replicate 16 1)
    refine ⟨_, ((writable_unless_hash_empty bls12381 FixedNode FixedNode.client _).2 {} 1
      [104, 105] _ _).2 ⟨rfl, by decide, _, List.replicate 48 1, _, _, rfl, rfl, hwrap, rfl, rfl⟩⟩

/-- The description of a chain without a hash is valid and the key is wrapped, but the stanza
that holds it cannot be written, and sealing fails. -/
theorem malformed_for_valid_chain :
    ChainInfo.validate bls12381 ⟨[], generatorKey, 3, 0, .unchained, []⟩ = .ok () ∧
    ∃ stanzas, (Timelock.wrap bls12381 ⟨1, by decide⟩ onesKey).run
        FixedNode.client ⟨generatorNode [], List.replicate 48 1⟩ =
          (.done stanzas, ⟨generatorNode [], List.replicate 16 1⟩) ∧
      Header.macInput stanzas = .error .empty ∧
      (encryptWith bls12381 { armor := false } 1 [104, 105]).run FixedNode.client
        ⟨generatorNode [], List.replicate 80 1⟩ =
          (.failed (.malformedStanza (.word .empty)),
            ⟨generatorNode [], List.replicate 16 1⟩) := by
  obtain ⟨ct, hwrap⟩ := exists_run_wrap_generator [] (List.replicate 16 1)
  refine ⟨validate_generator [], _, hwrap, Timelock.macInput_stanza_of_empty 1 rfl ct, ?_⟩
  exact (run_encryptWith_malformed_iff (by decide)).2 (Timelock.run_encrypt_malformed_iff.2
    ⟨rfl, _, List.replicate 48 1, _, _, rfl, rfl, hwrap, rfl, rfl⟩)

end Sealing
end BeaconSeal
