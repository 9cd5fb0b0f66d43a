import BeaconSeal.Envelope
import BeaconSeal.Proofs.Dialogue
import BeaconSeal.Proofs.Header
import BeaconSeal.Proofs.Stream
/-! Envelopes. Main statements: reading and writing envelopes and headers are inverse to each
other, so that there is one binary form of each, and an envelope is decrypted with the file key
under which it was encrypted. -/
namespace BeaconSeal.Envelope

theorem bytes_eq_ok_iff {e : Envelope} {b : Bytes} : e.bytes = .ok b ↔
    ∃ t, (Header.mk e.stanzas e.mac).render = .ok t ∧
      Text.utf8 t ++ e.nonce.1 ++ e.payload = b := by
  simp only [bytes, bind_eq_ok_iff, Except.ok.injEq]

theorem ofBytes_eq_ok_iff {b : Bytes} {e : Envelope} :
    ofBytes b = .ok e ↔ e.stanzas ≠ [] ∧ e.bytes = .ok b := by
  rw [bytes_eq_ok_iff, ofBytes, bind_eq_ok_iff]
  constructor
  · intro h
    obtain ⟨⟨header, rest⟩, hread, h⟩ := h
    obtain ⟨hne, t, ht, rfl⟩ := Header.read_eq_ok_iff.1 hread
    dsimp only at h
    split at h
    · cases h
    next nonce hnonce =>
      cases h
      refine ⟨hne, t, ht, ?_⟩
      rw [SizedBytes.ofBytes?_eq_some_iff.1 hnonce, List.append_assoc, List.take_append_drop]
  · intro h
    obtain ⟨hne, t, ht, rfl⟩ := h
    refine ⟨(⟨e.stanzas, e.mac⟩, e.nonce.1 ++ e.payload), ?_, ?_⟩
    · exact Header.read_eq_ok_iff.2 ⟨hne, t, ht, by rw [List.append_assoc]⟩
    · have hnonce : SizedBytes.ofBytes? 16 e.nonce.1 = some e.nonce :=
        SizedBytes.ofBytes?_eq_some_iff.2 rfl
      simp [List.take_left' e.nonce.2, List.drop_left' e.nonce.2, hnonce]

/-- An input is an envelope exactly when it is the envelope's binary form, and starts with a
header exactly when it starts with the header's text, whatever stands after it. -/
theorem binary_form_unique :
    (∀ (b : Bytes) (e : Envelope),
      ofBytes b = .ok e ↔ e.stanzas ≠ [] ∧ e.bytes = .ok b) ∧
    ∀ (b : Bytes) (stanzas : List Stanza) (mac : SizedBytes 32) (offset : Nat),
      Header.locate b = .ok (⟨stanzas, mac⟩, offset) ↔
        stanzas ≠ [] ∧ ∃ input rest, Header.macInput stanzas = .ok input ∧
          b = Text.utf8 (input ++ ' ' :: Base64.encodeBare mac.1 ++ ['\n']) ++ rest ∧
          offset = (Text.utf8 (input ++ ' ' :: Base64.encodeBare mac.1 ++ ['\n'])).length := by
  refine ⟨fun b e => ofBytes_eq_ok_iff, fun b stanzas mac offset => ?_⟩
  have hrender {t : Text} : (Header.mk stanzas mac).render = .ok t ↔ ∃ input,
      Header.macInput stanzas = .ok input ∧
        input ++ ' ' :: Base64.encodeBare mac.1 ++ ['\n'] = t := by
    simp only [Header.render, bind_eq_ok_iff, Except.ok.injEq]
  simp only [Header.locate_eq_ok_iff, Header.read_eq_ok_iff]
  constructor
  · intro h
    obtain ⟨rest, ⟨hne, t, ht, rfl⟩, rfl⟩ := h
    obtain ⟨input, hinput, rfl⟩ := hrender.1 ht
    refine ⟨hne, input, rest, hinput, rfl, ?_⟩
    rw [List.length_append, Nat.add_sub_cancel]
  · intro h
    obtain ⟨hne, input, rest, hinput, rfl, rfl⟩ := h
    refine ⟨rest, ⟨hne, _, hrender.2 ⟨input, hinput, rfl⟩, rfl⟩, ?_⟩
    rw [List.length_append, Nat.add_sub_cancel]

theorem exists_bytes {e : Envelope}
    (h : ∀ s ∈ e.stanzas, ∀ w ∈ s.tag :: s.args, Stanza.checkWord w = .ok ()) :
    ∃ b, e.bytes = .ok b := by
  obtain ⟨input, hinput⟩ := Header.exists_macInput_iff.2 h
  have hrender : (Header.mk e.stanzas e.mac).render =
    .ok (input ++ ' ' :: Base64.encodeBare e.mac.1 ++ ['\n']) :=
    bind_eq_ok_iff.2 ⟨input, hinput, rfl⟩
  exact ⟨_, bytes_eq_ok_iff.2 ⟨_, hrender, rfl⟩⟩

theorem headerMac_eq_ok_iff {key : FileKey} {ss : List Stanza} {mac : SizedBytes 32} :
    headerMac key ss = .ok mac ↔ ∃ input, Header.macInput ss = .ok input ∧
      Hmac.mac (Hmac.deriveKey key.bytes [] headerInfo).1 (Text.utf8 input) = mac := by
  simp only [headerMac, bind_eq_ok_iff, Except.ok.injEq]

theorem headerMac_eq_error_iff {key : FileKey} {ss : List Stanza} {fault : Stanza.WordFault} :
    headerMac key ss = .error fault ↔ Header.macInput ss = .error fault := by
  simp only [headerMac, bind_eq_error_iff, reduceCtorEq, and_false, exists_false, or_false]

theorem exists_headerMac_iff {key : FileKey} {ss : List Stanza} :
    (∃ mac, headerMac key ss = .ok mac) ↔
      ∀ s ∈ ss, ∀ w ∈ s.tag :: s.args, Stanza.checkWord w = .ok () := by
  rw [← Header.exists_macInput_iff]
  constructor
  · rintro ⟨mac, hmac⟩
    obtain ⟨input, hinput, _⟩ := headerMac_eq_ok_iff.1 hmac
    exact ⟨input, hinput⟩
  · rintro ⟨input, hinput⟩
    exact ⟨_, headerMac_eq_ok_iff.2 ⟨input, hinput, rfl⟩⟩

def finish (payload : Bytes) (key : FileKey) (stanzas : List Stanza) : Dialogue Error Envelope :=
  if stanzas.isEmpty then .fail (.malformedStanza .noStanzas)
  else do
    let mac ← Dialogue.ofExcept Error.ofWord (headerMac key stanzas)
    let nonce ← Dialogue.draw Error.randomness 16
    .done ⟨stanzas, mac, nonce, Stream.encrypt (payloadKey key nonce) payload⟩

theorem encrypt_eq (payload : Bytes) (wrap : Wrapper) :
    encrypt payload wrap = FileKey.generate >>= fun key => wrap key >>= finish payload key := rfl

section
variable {σ : Type} {c : Client σ} {s s' : World σ}

theorem run_generate (key : FileKey) (h : key.bytes.length = 32) (client : σ) (pool : Bytes) :
    FileKey.generate.run c ⟨client, key.bytes ++ pool⟩ = (.done key, ⟨client, pool⟩) := by
  rw [FileKey.generate, Dialogue.run_bind_of_done
    (Dialogue.run_draw Error.randomness ⟨key.bytes, h⟩ pool client)]
  rfl

theorem run_generate_of_lt (h : s.pool.length < 32) :
    FileKey.generate.run c s = (.failed (.randomness "random pool exhausted"), s) := by
  rw [FileKey.generate, Dialogue.run_bind, Dialogue.run_draw_of_lt h]

theorem run_finish {key : FileKey} {stanzas : List Stanza} {mac : SizedBytes 32}
    (hne : stanzas ≠ []) (hmac : headerMac key stanzas = .ok mac) (payload : Bytes)
    (nonce : SizedBytes 16) (client : σ) (pool : Bytes) :
    (finish payload key stanzas).run c ⟨client, nonce.1 ++ pool⟩ = (.done ⟨stanzas, mac, nonce,
      Stream.encrypt (payloadKey key nonce) payload⟩, ⟨client, pool⟩) := by
  have hempty : ¬ stanzas.isEmpty := by simpa using hne
  rw [finish, if_neg hempty, Dialogue.run_ofExcept_bind_ok hmac,
    Dialogue.run_bind_of_done (Dialogue.run_draw Error.randomness nonce pool client)]
  rfl

theorem run_encrypt {wrap : Wrapper} {key : SizedBytes 32} {nonce : SizedBytes 16}
    {stanzas : List Stanza} {mac : SizedBytes 32} {client client' : σ} {pool pool' : Bytes}
    (hwrap : (wrap ⟨key.1, .inr key.2⟩).run c ⟨client, pool⟩ =
      (.done stanzas, ⟨client', nonce.1 ++ pool'⟩)) (hne : stanzas ≠ [])
    (hmac : headerMac ⟨key.1, .inr key.2⟩ stanzas = .ok mac) (payload : Bytes) :
    (encrypt payload wrap).run c ⟨client, key.1 ++ pool⟩ = (.done ⟨stanzas, mac, nonce,
      Stream.encrypt (payloadKey ⟨key.1, .inr key.2⟩ nonce) payload⟩, ⟨client', pool'⟩) := by
  rw [encrypt_eq, Dialogue.run_bind_of_done (run_generate ⟨key.1, .inr key.2⟩ key.2 _ _),
    Dialogue.run_bind_of_done hwrap, run_finish hne hmac]

theorem run_decrypt_of_failed {unwrap : Unwrapper} {e : Envelope} {error : Error}
    (h : (unwrap e.stanzas).run c s = (.failed error, s')) :
    (e.decrypt unwrap).run c s = (.failed error, s') := by
  rw [decrypt, Dialogue.run_bind, h]

theorem run_decrypt_of_waiting {unwrap : Unwrapper} {e : Envelope}
    (h : (unwrap e.stanzas).run c s = (.waiting, s')) :
    (e.decrypt unwrap).run c s = (.waiting, s') := by
  rw [decrypt, Dialogue.run_bind, h]

/-- Nothing is asked once the key is known. -/
theorem world_of_run_decrypt (unwrap : Unwrapper) (e : Envelope) (s : World σ) :
    ((e.decrypt unwrap).run c s).2 = ((unwrap e.stanzas).run c s).2 := by
  rw [decrypt, Dialogue.run_bind]
  cases (unwrap e.stanzas).run c s with
  | mk r s' =>
    cases r with
    | failed error => rfl
    | waiting => rfl
    | done key =>
      dsimp only
      rw [Dialogue.run_bind]
      cases headerMac key e.stanzas with
      | error fault => rfl
      | ok mac =>
        change ((if mac = e.mac then _ else _ : Dialogue Error Bytes).run c s').2 = s'
        split
        · cases Stream.decrypt (payloadKey key e.nonce) e.payload <;> rfl
        · rfl

theorem run_decrypt_eq_done_iff {unwrap : Unwrapper} {e : Envelope} {payload : Bytes} :
    (e.decrypt unwrap).run c s = (.done payload, s') ↔ ∃ key,
      (unwrap e.stanzas).run c s = (.done key, s') ∧ headerMac key e.stanzas = .ok e.mac ∧
      e.payload = Stream.encrypt (payloadKey key e.nonce) payload := by
  rw [decrypt, Dialogue.run_bind_eq_done_iff]
  constructor
  · rintro ⟨key, t, hkey, h⟩
    obtain ⟨mac, t', hcode, h⟩ := Dialogue.run_bind_eq_done_iff.1 h
    obtain ⟨hmac, rfl⟩ := Dialogue.run_ofExcept_eq_done_iff.1 hcode
    split at h
    next hverified =>
      obtain ⟨hpayload, rfl⟩ := Dialogue.run_ofExcept_eq_done_iff.1 h
      exact ⟨key, hkey, hverified ▸ hmac, ((Stream.decrypt_eq_ok_iff _).1 hpayload).symm⟩
    · cases h
  · rintro ⟨key, hkey, hmac, hpayload⟩
    refine ⟨key, s', hkey, ?_⟩
    rw [Dialogue.run_ofExcept_bind_ok hmac, if_pos rfl]
    exact Dialogue.run_ofExcept_eq_done_iff.2
      ⟨(Stream.decrypt_eq_ok_iff _).2 hpayload.symm, rfl⟩

end

end BeaconSeal.Envelope

namespace BeaconSeal.PlainKey

theorem checkWord_of_mem {b : Bytes} : ∀ s ∈ [Stanza.mk tag [] b], ∀ w ∈ s.tag :: s.args,
    Stanza.checkWord w = .ok () := by
  intro s hs w hw
  rw [List.mem_singleton.1 hs] at hw
  rw [List.mem_singleton.1 hw]
  rfl

end BeaconSeal.PlainKey
