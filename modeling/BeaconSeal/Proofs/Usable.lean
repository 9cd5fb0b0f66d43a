import BeaconSeal.Proofs.Envelope
/-! What encryption hands out can be used. Main statement: whatever the wrapper answers, the
result is an error or an envelope that can be written, is read back and is opened with its key;
with random bytes enough, the error is for stanzas that cannot be written. -/
namespace BeaconSeal

namespace Envelope

/-- There is no stanza, or a word among them is empty or has a character that is not a printable
one of seven bits, or is the space. -/
def Unwritable (stanzas : List Stanza) : Prop :=
  stanzas = [] ∨ ∃ s ∈ stanzas, ∃ w ∈ s.tag :: s.args, w = [] ∨ ∃ c ∈ w, ¬ ('!' ≤ c ∧ c ≤ '~')

theorem not_unwritable_iff {stanzas : List Stanza} : ¬ Unwritable stanzas ↔
    stanzas ≠ [] ∧ ∀ s ∈ stanzas, ∀ w ∈ s.tag :: s.args, Stanza.checkWord w = .ok () := by
  simp only [Unwritable, Stanza.checkWord_eq_ok_iff, Stanza.isGraphic_iff, not_or, not_exists,
    not_and, Classical.not_imp, not_not, ne_eq]

/-- The envelope has a binary form, from which it is read back, and whoever is answered with the
key is given the payload. -/
structure Usable (e : Envelope) (key : FileKey) (payload : Bytes) : Prop where
  readable : ∃ b, e.bytes = .ok b ∧ ofBytes b = .ok e
  opens : ∀ (σ : Type) (c : Client σ) (s s' : World σ) (unwrap : Unwrapper),
    (unwrap e.stanzas).run c s = (.done key, s') → (e.decrypt unwrap).run c s = (.done payload, s')

section
variable {σ : Type} {c : Client σ} {s s' : World σ} {stanzas : List Stanza}

theorem run_finish_of_unwritable (h : Unwritable stanzas) (payload : Bytes) (key : FileKey) :
    ∃ fault, (finish payload key stanzas).run c s = (.failed (.malformedStanza fault), s) := by
  by_cases hempty : stanzas.isEmpty
  · rw [finish, if_pos hempty]
    exact ⟨.noStanzas, rfl⟩
  · rw [finish, if_neg hempty]
    cases hmac : headerMac key stanzas with
    | error fault => exact ⟨.word fault, rfl⟩
    | ok mac =>
      have hne : stanzas ≠ [] := by simpa using hempty
      exact absurd h (not_unwritable_iff.2 ⟨hne, exists_headerMac_iff.1 ⟨mac, hmac⟩⟩)

/-- Once the stanzas are known to be writable, only the nonce can be missing. -/
theorem run_finish_of_writable (h : ¬ Unwritable stanzas) (payload : Bytes) (key : FileKey) :
    (s.pool.length < 16 ∧ ∃ error, (finish payload key stanzas).run c s = (.failed error, s)) ∨
      ∃ e s', (finish payload key stanzas).run c s = (.done e, s') ∧ e.stanzas = stanzas ∧
        e.Usable key payload := by
  obtain ⟨hne, hwords⟩ := not_unwritable_iff.1 h
  obtain ⟨mac, hmac⟩ : ∃ mac, headerMac key stanzas = .ok mac := exists_headerMac_iff.2 hwords
  by_cases hpool : 16 ≤ s.pool.length
  · obtain ⟨nonce, rest, hrest⟩ := SizedBytes.exists_append hpool
    have hrun := run_finish (c := c) hne hmac payload nonce s.client rest
    rw [← hrest] at hrun
    refine .inr ⟨_, _, hrun, rfl, ?_, ?_⟩
    · obtain ⟨b, hb⟩ : ∃ b, bytes ⟨stanzas, mac, nonce,
        Stream.encrypt (payloadKey key nonce) payload⟩ = .ok b := exists_bytes hwords
      exact ⟨b, hb, ofBytes_eq_ok_iff.2 ⟨hne, hb⟩⟩
    · intro σ c s s' unwrap hkey
      exact run_decrypt_eq_done_iff.2 ⟨key, hkey, hmac, rfl⟩
  · have hlt : s.pool.length < 16 := Nat.lt_of_not_le hpool
    have hempty : ¬ stanzas.isEmpty := by simpa using hne
    refine .inl ⟨hlt, Error.randomness "random pool exhausted", ?_⟩
    rw [finish, if_neg hempty, Dialogue.run_ofExcept_bind_ok hmac, Dialogue.run_bind,
      Dialogue.run_draw_of_lt hlt]

/-- The file key is the front of the pool, and the wrapper is asked about it. -/
theorem run_encrypt_of_wrap {key : FileKey} {pool : Bytes} (hkey : key.bytes.length = 32)
    (hpool : s.pool = key.bytes ++ pool) (payload : Bytes) (wrap : Wrapper) :
    (encrypt payload wrap).run c s =
      (wrap key >>= finish payload key).run c ⟨s.client, pool⟩ := by
  have hgenerate := run_generate (c := c) key hkey s.client pool
  rw [← hpool] at hgenerate
  rw [encrypt_eq, Dialogue.run_bind_of_done hgenerate]

/-- Encryption ends with an error, or the wrapper was asked about a fresh key: then encryption waits
as the wrapper does, or the wrapper's stanzas stand in a usable envelope. -/
theorem run_encrypt_cases (c : Client σ) (s : World σ) (payload : Bytes) (wrap : Wrapper) :
    (∃ error s', (encrypt payload wrap).run c s = (.failed error, s')) ∨
      ∃ (key : FileKey) (pool : Bytes), key.bytes.length = 32 ∧ s.pool = key.bytes ++ pool ∧
        ((∃ s', (wrap key).run c ⟨s.client, pool⟩ = (.waiting, s') ∧
            (encrypt payload wrap).run c s = (.waiting, s')) ∨
          ∃ e t s', (wrap key).run c ⟨s.client, pool⟩ = (.done e.stanzas, t) ∧
            (encrypt payload wrap).run c s = (.done e, s') ∧ e.Usable key payload) := by
  by_cases hpool : 32 ≤ s.pool.length
  · obtain ⟨b, pool, hb⟩ := SizedBytes.exists_append hpool
    let key : FileKey := ⟨b.1, .inr b.2⟩
    have hkey : key.bytes.length = 32 := b.2
    have hencrypt := run_encrypt_of_wrap (c := c) hkey hb payload wrap
    rw [Dialogue.run_bind] at hencrypt
    cases hwrap : (wrap key).run c ⟨s.client, pool⟩ with
    | mk answer t =>
      rw [hwrap] at hencrypt
      cases answer with
      | failed error => exact .inl ⟨error, t, hencrypt⟩
      | waiting => exact .inr ⟨key, pool, hkey, hb, .inl ⟨t, hwrap, hencrypt⟩⟩
      | done stanzas =>
        by_cases hbad : Unwritable stanzas
        · obtain ⟨fault, hfail⟩ := run_finish_of_unwritable (c := c) (s := t) hbad payload key
          exact .inl ⟨_, t, hencrypt.trans hfail⟩
        · rcases run_finish_of_writable (c := c) (s := t) hbad payload key with
            ⟨_, error, hfail⟩ | ⟨e, s', hdone, rfl, husable⟩
          · exact .inl ⟨error, t, hencrypt.trans hfail⟩
          · exact .inr ⟨key, pool, hkey, hb, .inr
              ⟨e, t, s', hwrap, hencrypt.trans hdone, husable⟩⟩
  · have hgenerate := run_generate_of_lt (c := c) (Nat.lt_of_not_le hpool)
    exact .inl ⟨_, s, by rw [encrypt_eq, Dialogue.run_bind, hgenerate]⟩

/-- With random bytes enough and stanzas from the wrapper, only the stanzas can be at fault. -/
theorem run_encrypt_failed_iff {wrap : Wrapper} {key : FileKey} {pool : Bytes}
    (hkey : key.bytes.length = 32)
    (hpool : s.pool = key.bytes ++ pool)
    (hwrap : (wrap key).run c ⟨s.client, pool⟩ = (.done stanzas, s'))
    (hnonce : 16 ≤ s'.pool.length) (payload : Bytes) :
    ((∃ error t, (encrypt payload wrap).run c s = (.failed error, t)) ↔ Unwritable stanzas) ∧
      ∀ error t, (encrypt payload wrap).run c s = (.failed error, t) →
        ∃ fault, error = .malformedStanza fault := by
  rw [run_encrypt_of_wrap hkey hpool, Dialogue.run_bind_of_done hwrap]
  by_cases hbad : Unwritable stanzas
  · obtain ⟨fault, hfail⟩ := run_finish_of_unwritable (c := c) (s := s') hbad payload key
    refine ⟨iff_of_true ⟨_, _, hfail⟩ hbad, fun error t h => ?_⟩
    rw [hfail] at h
    cases h
    exact ⟨fault, rfl⟩
  · obtain ⟨hlt, _⟩ | ⟨e, t, hdone, _⟩ :=
      run_finish_of_writable (c := c) (s := s') hbad payload key
    · omega
    · rw [hdone]
      exact ⟨iff_of_false (by simp) hbad, by simp⟩

end

/-- Encryption gives an error or a usable envelope, or waits with a wrapper that never answers; the
stanzas of the envelope are the wrapper's for the key that was drawn. Where random bytes suffice and the
wrapper gives stanzas, the error is that they cannot be written. -/
theorem encrypt_fails_or_usable {σ : Type} (c : Client σ) (s : World σ) (payload : Bytes)
    (wrap : Wrapper) :
    ((∃ error s', (encrypt payload wrap).run c s = (.failed error, s')) ∨
      ∃ (key : FileKey) (pool : Bytes), key.bytes.length = 32 ∧ s.pool = key.bytes ++ pool ∧
        ((∃ s', (wrap key).run c ⟨s.client, pool⟩ = (.waiting, s') ∧
            (encrypt payload wrap).run c s = (.waiting, s')) ∨
          ∃ e t s', (wrap key).run c ⟨s.client, pool⟩ = (.done e.stanzas, t) ∧
            (encrypt payload wrap).run c s = (.done e, s') ∧ e.Usable key payload)) ∧
    ∀ (key : FileKey) (pool : Bytes) (stanzas : List Stanza) (s' : World σ),
      key.bytes.length = 32 → s.pool = key.bytes ++ pool →
      (wrap key).run c ⟨s.client, pool⟩ = (.done stanzas, s') → 16 ≤ s'.pool.length →
      ((∃ error t, (encrypt payload wrap).run c s = (.failed error, t)) ↔
          Unwritable stanzas) ∧
        ∀ error t, (encrypt payload wrap).run c s = (.failed error, t) →
          ∃ fault, error = .malformedStanza fault :=
  ⟨run_encrypt_cases c s payload wrap, fun _ _ _ _ hkey hpool hwrap hnonce =>
    run_encrypt_failed_iff hkey hpool hwrap hnonce payload⟩

/-- With the key in the clear in its stanza the envelope is usable; a stanza with a space in its
type is refused. -/
theorem encrypt_fails_or_usable_plain :
    (∃ key e s', (encrypt [104, 105] PlainKey.wrap).run Client.offline
        ⟨(), List.replicate 48 5⟩ = (.done e, s') ∧ e.Usable key [104, 105]) ∧
    ∃ fault s', (encrypt [104, 105] (fun _ => .done [⟨"no op".toList, [], []⟩])).run
        Client.offline ⟨(), List.replicate 48 5⟩ = (.failed (.malformedStanza fault), s') := by
  let key : FileKey := ⟨List.replicate 32 5, .inr rfl⟩
  let rest : Bytes := List.replicate 16 5
  constructor
  · obtain ⟨hcases, hfailed⟩ := encrypt_fails_or_usable Client.offline
      ⟨(), List.replicate 48 5⟩ [104, 105] PlainKey.wrap
    obtain ⟨hiff, _⟩ := hfailed key rest _ ⟨(), rest⟩ rfl rfl rfl (by decide)
    have hgood : ¬ Unwritable [⟨PlainKey.tag, [], key.bytes⟩] :=
      not_unwritable_iff.2 ⟨List.cons_ne_nil _ _, PlainKey.checkWord_of_mem⟩
    rcases hcases with herror | ⟨key, pool, _, _, ⟨s', hwait, _⟩ | ⟨e, t, s', _, hdone, husable⟩⟩
    · exact absurd (hiff.1 herror) hgood
    · cases hwait
    · exact ⟨key, e, s', hdone, husable⟩
  · obtain ⟨_, hfailed⟩ := encrypt_fails_or_usable Client.offline
      ⟨(), List.replicate 48 5⟩ [104, 105] (fun _ => .done [⟨"no op".toList, [], []⟩])
    obtain ⟨hiff, hmalformed⟩ := hfailed key rest _ ⟨(), rest⟩ rfl rfl rfl (by decide)
    have hbad : Unwritable [⟨"no op".toList, [], []⟩] :=
      .inr ⟨_, List.mem_singleton_self _, _, List.mem_cons_self, .inr ⟨' ', by decide, by decide⟩⟩
    obtain ⟨error, s', hrun⟩ := hiff.2 hbad
    obtain ⟨fault, rfl⟩ := hmalformed error s' hrun
    exact ⟨fault, s', hrun⟩

end Envelope
end BeaconSeal
