import BeaconSeal.Proofs.Envelope
/-! Opening an envelope. Main statement: an envelope is opened to a payload exactly when its code
and its payload are, byte for byte, those that encryption makes under the key that its stanzas
are answered with. -/
namespace BeaconSeal.Envelope

def OpensTo (e : Envelope) (key : FileKey) (payload : Bytes) : Prop :=
  ∃ (σ : Type) (c : Client σ) (s s' t : World σ) (unwrap : Unwrapper),
    (unwrap e.stanzas).run c s = (.done key, s') ∧
    (e.decrypt unwrap).run c s = (.done payload, t)

theorem opensTo_iff {e : Envelope} {key : FileKey} {payload : Bytes} :
    e.OpensTo key payload ↔ headerMac key e.stanzas = .ok e.mac ∧
      e.payload = Stream.encrypt (payloadKey key e.nonce) payload := by
  constructor
  · intro h
    obtain ⟨σ, c, s, s', t, unwrap, hkey, hopen⟩ := h
    obtain ⟨key', hkey', hmac, hpayload⟩ := run_decrypt_eq_done_iff.1 hopen
    rw [hkey] at hkey'
    cases hkey'
    exact ⟨hmac, hpayload⟩
  · intro h
    obtain ⟨hmac, hpayload⟩ := h
    let s : World Unit := ⟨(), []⟩
    exact ⟨Unit, .offline, s, s, s, fun _ => .done key, rfl,
      run_decrypt_eq_done_iff.2 ⟨key, rfl, hmac, hpayload⟩⟩

theorem eq_of_opensTo {e e' : Envelope} {key : FileKey} {payload : Bytes}
    (hstanzas : e.stanzas = e'.stanzas) (hnonce : e.nonce = e'.nonce)
    (h : e.OpensTo key payload) (h' : e'.OpensTo key payload) : e = e' := by
  obtain ⟨hmac, hpayload⟩ := opensTo_iff.1 h
  obtain ⟨hmac', hpayload'⟩ := opensTo_iff.1 h'
  have hcode : e.mac = e'.mac := by
    rw [hstanzas, hmac'] at hmac
    exact (Except.ok.inj hmac).symm
  have hsealed : e.payload = e'.payload := by rw [hpayload, hnonce, hpayload']
  cases e with
  | mk stanzas mac nonce sealed =>
    cases e' with
    | mk stanzas' mac' nonce' sealed' =>
      exact (mk.injEq ..).mpr ⟨hstanzas, hcode, hnonce, hsealed⟩

/-- An envelope is opened to a payload just when its code is that of its stanzas under the key
that they are answered with, and its payload is the encrypted one. So the stanzas, the nonce, the
key and the payload leave no choice in an envelope that is opened. -/
theorem opened_iff_as_encrypted :
    (∀ (σ : Type) (c : Client σ) (s s' : World σ) (e : Envelope) (unwrap : Unwrapper)
        (payload : Bytes),
      (e.decrypt unwrap).run c s = (.done payload, s') ↔ ∃ (key : FileKey) (input : Text),
        (unwrap e.stanzas).run c s = (.done key, s') ∧ Header.macInput e.stanzas = .ok input ∧
        e.mac = Hmac.mac (Hmac.deriveKey key.bytes [] (Text.utf8 "header".toList)).1
          (Text.utf8 input) ∧
        e.payload = Stream.encrypt
          (Hmac.deriveKey key.bytes e.nonce.1 (Text.utf8 "payload".toList)) payload) ∧
    ∀ (e e' : Envelope) (key : FileKey) (payload : Bytes), e.stanzas = e'.stanzas →
      e.nonce = e'.nonce → e.OpensTo key payload → e'.OpensTo key payload → e = e' := by
  refine ⟨fun σ c s s' e unwrap payload => ?_,
    fun e e' key payload hstanzas hnonce h h' => eq_of_opensTo hstanzas hnonce h h'⟩
  rw [run_decrypt_eq_done_iff]
  constructor
  · intro h
    obtain ⟨key, hkey, hmac, hpayload⟩ := h
    obtain ⟨input, hinput, hcode⟩ := headerMac_eq_ok_iff.1 hmac
    exact ⟨key, input, hkey, hinput, hcode.symm, hpayload⟩
  · intro h
    obtain ⟨key, input, hkey, hinput, hcode, hpayload⟩ := h
    exact ⟨key, hkey, headerMac_eq_ok_iff.2 ⟨input, hinput, hcode.symm⟩, hpayload⟩

/-- With the key in the clear in the stanza: an envelope that was put together by hand is opened,
and it is the one that encryption makes. -/
theorem opened_iff_as_encrypted_plain : ∃ e : Envelope,
    (e.decrypt PlainKey.unwrap).run Client.offline ⟨(), []⟩ = (.done [104, 105], ⟨(), []⟩) ∧
    (encrypt [104, 105] PlainKey.wrap).run Client.offline ⟨(), List.replicate 48 5⟩ =
      (.done e, ⟨(), []⟩) := by
  obtain ⟨hopened, hunique⟩ := opened_iff_as_encrypted
  let b : SizedBytes 32 := ⟨List.replicate 32 5, rfl⟩
  let key : FileKey := ⟨b.1, .inr b.2⟩
  let nonce : SizedBytes 16 := ⟨List.replicate 16 5, rfl⟩
  let stanzas : List Stanza := [⟨PlainKey.tag, [], b.1⟩]
  have hwords : ∀ s ∈ stanzas, ∀ w ∈ s.tag :: s.args, Stanza.checkWord w = .ok () :=
    PlainKey.checkWord_of_mem
  obtain ⟨input, hinput⟩ := Header.exists_macInput_iff.2 hwords
  let e : Envelope := ⟨stanzas,
    Hmac.mac (Hmac.deriveKey key.bytes [] (Text.utf8 "header".toList)).1 (Text.utf8 input), nonce,
    Stream.encrypt (Hmac.deriveKey key.bytes nonce.1 (Text.utf8 "payload".toList)) [104, 105]⟩
  have hopen : (e.decrypt PlainKey.unwrap).run Client.offline ⟨(), []⟩ =
    (.done [104, 105], ⟨(), []⟩) := (hopened ..).2 ⟨key, input, rfl, hinput, rfl, rfl⟩
  obtain ⟨mac, hmac⟩ : ∃ mac, headerMac key stanzas = .ok mac := exists_headerMac_iff.2 hwords
  have hwrap : (PlainKey.wrap key).run Client.offline ⟨(), nonce.1 ++ []⟩ =
    (.done stanzas, ⟨(), nonce.1 ++ []⟩) := rfl
  have hencrypt := run_encrypt hwrap (List.cons_ne_nil _ _) hmac [104, 105]
  refine ⟨e, hopen, hencrypt.trans ?_⟩
  congr 2
  refine hunique _ _ key [104, 105] rfl rfl ?_ ?_
  · exact opensTo_iff.2 ⟨hmac, rfl⟩
  · exact ⟨Unit, .offline, ⟨(), []⟩, ⟨(), []⟩, ⟨(), []⟩, PlainKey.unwrap, rfl, hopen⟩

end BeaconSeal.Envelope
