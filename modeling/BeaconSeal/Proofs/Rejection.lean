import BeaconSeal.Curve.Bls12381
import BeaconSeal.Proofs.Sealed
/-! When an input is rejected. Main statement: of the failures that count as the input's fault, a
zero round and an input that is no envelope for a round come up before any question; the others
come up after the client was asked for the description, or for the signature too. -/
namespace BeaconSeal
variable {E : PairingGroups} {σ : Type} {c : Client σ} {s s' : World σ}

theorem Scheme.fault_of_variant {scheme : Scheme} {fault : Ibe.Fault}
    (h : scheme.variant = .error fault) : ∃ name, fault = .unsupportedScheme name := by
  cases scheme <;> cases h
  exact ⟨_, rfl⟩

namespace Error

theorem kind_ofClient (round : UInt64) (e : ClientError) : (ofClient round e).kind = .external := by
  unfold ofClient
  split <;> rfl

theorem ofIbe_of_kind {fault : Ibe.Fault} (h : (ofIbe fault).kind = .inputValidation) :
    ofIbe fault = .ibe fault := by
  cases fault <;> first | rfl | cases h

/-- Faults of the input that sealing finds when it has the chain's description. -/
inductive Unsealable (o : SealOptions) : Error → Prop where
  | chainInfo (fault : ChainInfo.Fault) : Unsealable o (.invalidChainInfo fault)
  | ibe (fault : Ibe.Fault) : Unsealable o (.ibe fault)
  | word (fault : Stanza.WordFault) : Unsealable o (.malformedStanza (.word fault))
  | width (harmor : o.armor = true) (hwidth : o.width = 0) :
    Unsealable o (.armor (.invalidWidth o.width))

/-- Faults of the input that opening finds when it has the chain's description. -/
inductive Unsettled (hash : Bytes) : Error → Prop where
  | chainInfo (fault : ChainInfo.Fault) : Unsettled hash (.invalidChainInfo fault)
  | mismatch (other : Text) : Unsettled hash (.chainMismatch (Hex.encode hash) other)
  | body (fault : Ibe.Fault) : Unsettled hash (.malformedStanza (.body fault))

/-- Faults of the input that opening finds when it has the signature. -/
inductive Unopened : Error → Prop where
  | ibe (fault : Ibe.Fault) : Unopened (.ibe fault)
  | keyLength (got : Nat) : Unopened (.malformedStanza (.keyLength got))

end Error

theorem Ibe.asked_encrypt {variant : Variant} {publicKey identity message : Bytes} :
    (encrypt (E := E) variant publicKey identity message).asked c s = [] := by
  rw [encrypt, Dialogue.asked_bind_of_silent _ (fun _ t => ?_), Dialogue.asked_ofExcept]
  rw [Dialogue.asked_bind_of_silent _ (fun _ t => Dialogue.asked_ofExcept _), Dialogue.asked_draw]

namespace Timelock
variable {round : UInt64} {r : Recipient} {key : FileKey} {e : Error}

theorem asked_fetchInfo : (fetchInfo E round).asked c s = [.info] := by
  rw [fetchInfo, Dialogue.asked]
  cases (c.info s.client).1 with
  | error e => rfl
  | ok info => exact congrArg (Question.info :: ·) (Dialogue.asked_ofExcept _)

theorem asked_wrap : (wrap E r key).asked c s = [.info] := by
  rw [wrap, Dialogue.asked_bind_of_silent _ (fun info t => ?_), asked_fetchInfo]
  rw [Dialogue.asked_bind_of_silent _ (fun variant t => ?_), Dialogue.asked_ofExcept]
  rw [Dialogue.asked_bind_of_silent _ (fun ct t => rfl), Dialogue.asked_mapError,
    Ibe.asked_encrypt]

theorem fault_of_run_fetchInfo (h : (fetchInfo E round).run c s = (.failed e, s'))
    (he : e.kind = .inputValidation) : ∃ fault, e = .invalidChainInfo fault := by
  rw [fetchInfo, Dialogue.run] at h
  cases hanswer : (c.info s.client).1 with
  | error e' =>
    rw [hanswer] at h
    cases h
    rw [Error.kind_ofClient] at he
    cases he
  | ok info =>
    rw [hanswer] at h
    obtain ⟨⟨fault, _, rfl⟩, _⟩ := Dialogue.run_ofExcept_eq_failed_iff.1 h
    exact ⟨fault, rfl⟩

theorem fault_of_run_wrap (h : (wrap E r key).run c s = (.failed e, s'))
    (he : e.kind = .inputValidation) (o : SealOptions) : e.Unsealable o := by
  obtain h | ⟨info, t, _, h⟩ := Dialogue.run_bind_eq_failed_iff.1 h
  · obtain ⟨fault, rfl⟩ := fault_of_run_fetchInfo h he
    exact .chainInfo fault
  obtain h | ⟨variant, t', _, h⟩ := Dialogue.run_bind_eq_failed_iff.1 h
  · obtain ⟨⟨fault, _, rfl⟩, _⟩ := Dialogue.run_ofExcept_eq_failed_iff.1 h
    rw [Error.ofIbe_of_kind he]
    exact .ibe fault
  obtain h | ⟨ct, t'', _, h⟩ := Dialogue.run_bind_eq_failed_iff.1 h
  · obtain ⟨fault, rfl⟩ := Dialogue.failed_of_run_mapError h
    rw [Error.ofIbe_of_kind he]
    exact .ibe fault
  · cases h

section
variable {o : Opening} {hash body : Bytes}

theorem fault_of_settle (hclock : o.clock = none) {answer : Except ClientError ChainInfo}
    (h : settle E o round hash body answer = .error e) (he : e.kind = .inputValidation) :
    e.Unsettled hash := by
  obtain h | ⟨info, _, h⟩ := bind_eq_error_iff.1 h
  · obtain ⟨e', _, rfl⟩ := mapError_eq_error_iff.1 h
    rw [Error.kind_ofClient] at he
    cases he
  obtain h | ⟨_, _, h⟩ := bind_eq_error_iff.1 h
  · obtain ⟨fault, _, rfl⟩ := mapError_eq_error_iff.1 h
    exact .chainInfo fault
  split at h
  · cases h
    exact .mismatch _
  obtain h | ⟨variant, _, h⟩ := bind_eq_error_iff.1 h
  · obtain ⟨fault, hfault, rfl⟩ := mapError_eq_error_iff.1 h
    obtain ⟨name, rfl⟩ := Scheme.fault_of_variant hfault
    cases he
  obtain h | ⟨_, _, h⟩ := bind_eq_error_iff.1 h
  · rw [hclock] at h
    cases h
  obtain h | ⟨ct, _, h⟩ := bind_eq_error_iff.1 h
  · obtain ⟨fault, _, rfl⟩ := mapError_eq_error_iff.1 h
    exact .body fault
  · cases h

theorem fault_of_keyOf {p : Variant × Ibe.Ciphertext E} {signature : Bytes}
    (h : keyOf p signature = .error e) (he : e.kind = .inputValidation) : e.Unopened := by
  obtain h | ⟨key, _, h⟩ := bind_eq_error_iff.1 h
  · obtain ⟨fault, _, rfl⟩ := mapError_eq_error_iff.1 h
    rw [Error.ofIbe_of_kind he]
    exact .ibe fault
  · obtain ⟨fault, hfault, rfl⟩ := mapError_eq_error_iff.1 h
    rw [FileKey.ofBytes] at hfault
    split at hfault
    · cases hfault
    · cases hfault
      exact .keyLength _

theorem fault_of_conclude {limit : Option Duration} {p : Variant × Ibe.Ciphertext E}
    {reply : Reply} (h : conclude limit round p reply = .failed e)
    (he : e.kind = .inputValidation) : e.Unopened := by
  unfold conclude at h
  split at h
  next signature =>
    split at h
    · cases h
    next e' hkey =>
      cases h
      exact fault_of_keyOf hkey he
  next e' =>
    cases h
    rw [Error.kind_ofClient] at he
    cases he
  · split at h
    · cases h
      cases he
    · cases h

theorem fault_of_run_unwrap (hclock : o.clock = none) {stanzas : List Stanza}
    (hnames : Names stanzas round hash body) (h : (unwrap E o stanzas).run c s = (.failed e, s'))
    (he : e.kind = .inputValidation) :
    e.Unsettled hash ∧ (unwrap E o stanzas).asked c s = [.info] ∨
      e.Unopened ∧ (unwrap E o stanzas).asked c s = [.info, .signature round] := by
  rw [unwrap_of_names hnames] at h ⊢
  rw [run_openBody] at h
  rw [asked_openBody]
  cases hsettle : settle E o round hash body (c.info s.client).1 with
  | error e' =>
    rw [hsettle] at h
    cases h
    exact .inl ⟨fault_of_settle hclock hsettle he, rfl⟩
  | ok p =>
    rw [hsettle] at h
    exact .inr ⟨fault_of_conclude (congrArg Prod.fst h) he, rfl⟩

end

end Timelock

namespace Envelope
variable {payload : Bytes} {key : FileKey} {stanzas : List Stanza} {wrap : Wrapper}
  {unwrap : Unwrapper} {e : Envelope} {error : Error}

theorem asked_generate : FileKey.generate.asked c s = [] := by
  rw [FileKey.generate, Dialogue.asked_bind_of_silent _ (fun b t => rfl), Dialogue.asked_draw]

theorem asked_finish : (finish payload key stanzas).asked c s = [] := by
  rw [finish]
  split
  · rfl
  · rw [Dialogue.asked_bind_of_silent _ (fun mac t => ?_), Dialogue.asked_ofExcept]
    rw [Dialogue.asked_bind_of_silent _ (fun nonce t => rfl), Dialogue.asked_draw]

/-- With bytes enough for a key, encryption asks what the wrapper asks. -/
theorem asked_encrypt (payload : Bytes) (wrap : Wrapper) (hpool : 32 ≤ s.pool.length) :
    ∃ key pool, (encrypt payload wrap).asked c s = (wrap key).asked c ⟨s.client, pool⟩ := by
  obtain ⟨b, pool, hb⟩ := SizedBytes.exists_append hpool
  have hgenerate := run_generate (c := c) ⟨b.1, .inr b.2⟩ b.2 s.client pool
  rw [← hb] at hgenerate
  refine ⟨⟨b.1, .inr b.2⟩, pool, ?_⟩
  rw [encrypt_eq, Dialogue.asked_bind_of_done hgenerate, asked_generate, List.nil_append,
    Dialogue.asked_bind_of_silent _ (fun stanzas t => asked_finish)]

theorem asked_decrypt : (e.decrypt unwrap).asked c s = (unwrap e.stanzas).asked c s := by
  rw [decrypt, Dialogue.asked_bind_of_silent _ (fun key t => ?_)]
  rw [Dialogue.asked_bind_of_silent _ (fun mac t => ?_), Dialogue.asked_ofExcept]
  split
  · exact Dialogue.asked_ofExcept _
  · rfl

theorem fault_of_run_finish (h : (finish payload key stanzas).run c s = (.failed error, s'))
    (herror : error.kind = .inputValidation) (hne : stanzas ≠ []) :
    ∃ fault, error = .malformedStanza (.word fault) := by
  have hempty : ¬ stanzas.isEmpty := by simpa using hne
  rw [finish, if_neg hempty] at h
  obtain h | ⟨mac, t, _, h⟩ := Dialogue.run_bind_eq_failed_iff.1 h
  · obtain ⟨⟨fault, _, rfl⟩, _⟩ := Dialogue.run_ofExcept_eq_failed_iff.1 h
    exact ⟨fault, rfl⟩
  obtain h | ⟨nonce, t', _, h⟩ := Dialogue.run_bind_eq_failed_iff.1 h
  · obtain ⟨reason, rfl⟩ := Dialogue.failed_of_run_draw h
    cases herror
  · cases h

theorem run_encrypt_of_lt (hpool : s.pool.length < 32) :
    (encrypt payload wrap).run c s = (.failed (.randomness "random pool exhausted"), s) := by
  rw [encrypt_eq, Dialogue.run_bind, run_generate_of_lt hpool]

theorem failed_of_run_encrypt (hpool : 32 ≤ s.pool.length)
    (h : (encrypt payload wrap).run c s = (.failed error, s')) : ∃ key t,
      (wrap key).run c t = (.failed error, s') ∨ ∃ stanzas t',
        (wrap key).run c t = (.done stanzas, t') ∧
        (finish payload key stanzas).run c t' = (.failed error, s') := by
  obtain ⟨b, pool, hb⟩ := SizedBytes.exists_append hpool
  let key : FileKey := ⟨b.1, .inr b.2⟩
  have hkey : key.bytes.length = 32 := b.2
  rw [run_encrypt_of_wrap hkey hb] at h
  exact ⟨key, ⟨s.client, pool⟩, Dialogue.run_bind_eq_failed_iff.1 h⟩

/-- Once the key is known only integrity is at stake. -/
theorem failed_of_run_decrypt {b : Bytes} (hread : ofBytes b = .ok e)
    (h : (e.decrypt unwrap).run c s = (.failed error, s'))
    (herror : error.kind = .inputValidation) :
    (unwrap e.stanzas).run c s = (.failed error, s') := by
  obtain h | ⟨key, t, _, h⟩ := Dialogue.run_bind_eq_failed_iff.1 h
  · exact h
  obtain h | ⟨mac, t', _, h⟩ := Dialogue.run_bind_eq_failed_iff.1 h
  · -- Stanzas that were read can be written.
    obtain ⟨⟨fault, hfault, _⟩, _⟩ := Dialogue.run_ofExcept_eq_failed_iff.1 h
    obtain ⟨_, hbytes⟩ := ofBytes_eq_ok_iff.1 hread
    obtain ⟨text, htext, _⟩ := bytes_eq_ok_iff.1 hbytes
    obtain ⟨blocks, hblocks, _⟩ := Header.render_eq_ok_iff.1 htext
    have hmac : headerMac key e.stanzas = .ok _ :=
      headerMac_eq_ok_iff.2 ⟨_, Header.macInput_eq_ok_iff.2 ⟨blocks, hblocks, rfl⟩, rfl⟩
    cases hmac.symm.trans hfault
  · split at h
    · obtain ⟨⟨fault, _, rfl⟩, _⟩ := Dialogue.run_ofExcept_eq_failed_iff.1 h
      cases herror
    · cases h
      cases herror

end Envelope

namespace Sealing
variable {o : SealOptions} {round : UInt64} {hash body payload input raw : Bytes} {e : Error}

/-- Sealing asks for the description, unless the round is zero or there is no file key. -/
theorem asked_encryptWith (hround : round ≠ 0) (hpool : 32 ≤ s.pool.length) :
    (encryptWith E o round payload).asked c s = [.info] := by
  have harmor (raw : Bytes) (t : World σ) : (if o.armor then
      Dialogue.ofExcept Error.armor ((Armor.encode o.width raw).map Text.utf8)
    else .done raw).asked c t = [] := by
    split
    · exact Dialogue.asked_ofExcept _
    · rfl
  obtain ⟨key, pool, hencrypt⟩ := Envelope.asked_encrypt (c := c) payload
    (Timelock.wrap E ⟨round, hround⟩) hpool
  rw [encryptWith, Dialogue.asked_bind_of_silent _ harmor, envelope,
    Timelock.Recipient.ofRound_eq hround]
  change (Envelope.encrypt payload (Timelock.wrap E ⟨round, hround⟩) >>= _).asked c s = _
  rw [Dialogue.asked_bind_of_silent _ (fun e t => Dialogue.asked_ofExcept _), hencrypt,
    Timelock.asked_wrap]

theorem encode_of_width_zero (hwidth : o.width = 0) :
    Armor.encode o.width raw = .error (.invalidWidth o.width) := by
  rw [Armor.encode, Armor.checkWidth, if_pos hwidth]
  rfl

theorem fault_of_run_armor (h : (if o.armor then
      Dialogue.ofExcept Error.armor ((Armor.encode o.width raw).map Text.utf8)
    else .done raw).run c s = (.failed e, s')) : e.Unsealable o := by
  split at h
  next harmor =>
    obtain ⟨⟨fault, hfault, rfl⟩, _⟩ := Dialogue.run_ofExcept_eq_failed_iff.1 h
    by_cases hwidth : o.width = 0
    · rw [encode_of_width_zero hwidth] at hfault
      cases hfault
      exact .width harmor hwidth
    · rw [Armor.encode, Armor.checkWidth, if_neg hwidth] at hfault
      cases hfault
  · cases h

theorem fault_of_run_envelope (hround : round ≠ 0) (hpool : 32 ≤ s.pool.length)
    (h : (envelope E round payload).run c s = (.failed e, s'))
    (he : e.kind = .inputValidation) : e.Unsealable o := by
  rw [envelope, Dialogue.run_ofExcept_bind_ok (Timelock.Recipient.ofRound_eq hround)] at h
  obtain h | ⟨sealed, t, _, h⟩ := Dialogue.run_bind_eq_failed_iff.1 h
  · obtain ⟨key, t, h | ⟨stanzas, t', hwrap, h⟩⟩ := Envelope.failed_of_run_encrypt hpool h
    · exact Timelock.fault_of_run_wrap h he o
    · obtain ⟨info, variant, seed, ct, _, _, _, _, _, rfl⟩ := Timelock.exists_of_run_wrap hwrap
      obtain ⟨fault, rfl⟩ := Envelope.fault_of_run_finish h he (List.cons_ne_nil _ _)
      exact .word fault
  · obtain ⟨⟨fault, _, rfl⟩, _⟩ := Dialogue.run_ofExcept_eq_failed_iff.1 h
    exact .word fault

theorem run_encryptWith_of_lt (hround : round ≠ 0) (hpool : s.pool.length < 32) :
    (encryptWith E o round payload).run c s =
      (.failed (.randomness "random pool exhausted"), s) := by
  rw [encryptWith, Dialogue.run_bind, envelope,
    Dialogue.run_ofExcept_bind_ok (Timelock.Recipient.ofRound_eq hround), Dialogue.run_bind,
    Envelope.run_encrypt_of_lt hpool]

theorem fault_of_run_encryptWith (hround : round ≠ 0)
    (h : (encryptWith E o round payload).run c s = (.failed e, s'))
    (he : e.kind = .inputValidation) :
    e.Unsealable o ∧ (encryptWith E o round payload).asked c s = [.info] := by
  by_cases hpool : 32 ≤ s.pool.length
  · refine ⟨?_, asked_encryptWith hround hpool⟩
    obtain h | ⟨raw, t, _, h⟩ := Dialogue.run_bind_eq_failed_iff.1 h
    · exact fault_of_run_envelope hround hpool h he
    · exact fault_of_run_armor h
  · -- That there are too few bytes for a file key is no fault of the input.
    rw [run_encryptWith_of_lt hround (Nat.lt_of_not_le hpool)] at h
    cases h
    cases he

/-- A width that no armor has is noticed when all else is done. -/
theorem run_encryptWith_of_width_zero {o' : SealOptions} {out : Bytes}
    (h : (encryptWith E o' round payload).run c s = (.done out, s')) (harmor : o.armor = true)
    (hwidth : o.width = 0) :
    (encryptWith E o round payload).run c s = (.failed (.armor (.invalidWidth 0)), s') := by
  obtain ⟨raw, t, hraw, hout⟩ := Dialogue.run_bind_eq_done_iff.1 h
  have ht : t = s' := by
    split at hout
    · exact (Dialogue.run_ofExcept_eq_done_iff.1 hout).2
    · cases hout
      rfl
  rw [encryptWith, Dialogue.run_bind_of_done hraw, if_pos harmor, encode_of_width_zero hwidth,
    hwidth, ht]
  rfl

/-- The input is an envelope, in armor of the width or bare, with one stanza for a round. -/
def Addressed (width : Nat) (input : Bytes) (round : UInt64) (hash body : Bytes) : Prop :=
  ∃ b e, unarmored width input = .ok b ∧ Envelope.ofBytes b = .ok e ∧
    Timelock.Names e.stanzas round hash body

theorem asked_of_not_addressed
    (h : ¬ ∃ round hash body, Addressed o.width input round hash body) :
    (decryptWith E o input).asked c s = [] := by
  rw [decryptWith]
  cases hunarmored : unarmored o.width input with
  | error fault => rfl
  | ok b =>
    change (Dialogue.ofExcept Error.malformedHeader (Envelope.ofBytes b) >>= _).asked c s = []
    cases hread : Envelope.ofBytes b with
    | error fault => rfl
    | ok e =>
      change (e.decrypt _).asked c s = []
      rw [Envelope.asked_decrypt, Timelock.asked_of_not_names]
      intro hnames
      obtain ⟨round, hash, body, hnames⟩ := hnames
      exact h ⟨round, hash, body, b, e, hunarmored, hread, hnames⟩

theorem fault_of_run_decryptWith (haddressed : Addressed o.width input round hash body)
    (h : (decryptWith E o input).run c s = (.failed e, s')) (he : e.kind = .inputValidation) :
    e.Unsettled hash ∧ (decryptWith E o input).asked c s = [.info] ∨
      e.Unopened ∧ (decryptWith E o input).asked c s = [.info, .signature round] := by
  obtain ⟨b, sealed, hunarmored, hread, hnames⟩ := haddressed
  rw [decryptWith_eq hunarmored hread] at h ⊢
  rw [Envelope.asked_decrypt]
  exact Timelock.fault_of_run_unwrap rfl hnames (Envelope.failed_of_run_decrypt hread h he) he

/-- A failure that counts as the input's fault. Sealing gives it before any question for round
zero, and otherwise after the one for the description. Opening gives it before any question when
the input is not addressed; otherwise after the question for the description, or after the ones
for that and for the signature, and then it can be told which. -/
theorem input_rejected_when (E : PairingGroups) (σ : Type) (c : Client σ) (o : SealOptions)
    (client : σ) (pool : Bytes) (e : Error) (he : e.kind = .inputValidation) :
    (∀ (round : UInt64) (payload : Bytes),
      let r := (encryptWith E o round payload).run c.logged ⟨(client, []), pool⟩
      r.1 = .failed e →
        round = 0 ∧ e = .invalidRound 0 ∧ r.2.client.2 = [] ∨
        round ≠ 0 ∧ e.Unsealable o ∧ r.2.client.2 = [.info]) ∧
    ∀ input : Bytes,
      let r := (decryptWith E o input).run c.logged ⟨(client, []), pool⟩
      r.1 = .failed e →
        (¬ ∃ round hash body, Addressed o.width input round hash body) ∧ r.2.client.2 = [] ∨
        ∃ round hash body, Addressed o.width input round hash body ∧
          (e.Unsettled hash ∧ r.2.client.2 = [.info] ∨
            e.Unopened ∧ r.2.client.2 = [.info, .signature round]) := by
  constructor
  · intro round payload r h
    simp only [r, Dialogue.run_logged, List.nil_append] at h ⊢
    by_cases hround : round = 0
    · subst hround
      cases h
      exact .inl ⟨rfl, rfl, rfl⟩
    · exact .inr ⟨hround, fault_of_run_encryptWith hround (Prod.ext h rfl) he⟩
  · intro input r h
    simp only [r, Dialogue.run_logged, List.nil_append] at h ⊢
    by_cases haddressed : ∃ round hash body, Addressed o.width input round hash body
    · obtain ⟨round, hash, body, haddressed⟩ := haddressed
      exact .inr ⟨round, hash, body, haddressed,
        fault_of_run_decryptWith haddressed (Prod.ext h rfl) he⟩
    · exact .inl ⟨haddressed, asked_of_not_addressed haddressed⟩

/-- A description without a period, and an empty input. -/
theorem input_rejected_when_bls12381 :
    let node : FixedNode := ⟨.ok ⟨[10], [], 0, 0, .unchainedOnG1, []⟩, [], none⟩
    let r := (encryptWith bls12381 {} 7 [104, 105]).run FixedNode.client.logged
      ⟨(node, []), List.replicate 80 1⟩
    let r' := (decryptWith bls12381 {} []).run FixedNode.client.logged ⟨(node, []), []⟩
    (r.1 = .failed (.invalidChainInfo .zeroPeriod) ∧ r.2.client.2 = [.info]) ∧
      r'.1 = .failed (.malformedHeader .unexpectedEnd) ∧ r'.2.client.2 = [] := by
  intro node r r'
  have hr : r.1 = .failed (.invalidChainInfo .zeroPeriod) := rfl
  have hr' : r'.1 = .failed (.malformedHeader .unexpectedEnd) := rfl
  refine ⟨⟨hr, ?_⟩, hr', ?_⟩
  · obtain ⟨h, _⟩ := input_rejected_when bls12381 FixedNode FixedNode.client {} node
      (List.replicate 80 1) (.invalidChainInfo .zeroPeriod) rfl
    rcases h 7 [104, 105] hr with ⟨hround, _⟩ | ⟨_, _, hasked⟩
    · cases hround
    · exact hasked
  · obtain ⟨_, h⟩ := input_rejected_when bls12381 FixedNode FixedNode.client {} node []
      (.malformedHeader .unexpectedEnd) rfl
    rcases h [] hr' with ⟨_, hasked⟩ | ⟨_, _, _, _, ⟨he, _⟩ | ⟨he, _⟩⟩
    · exact hasked
    · cases he
    · cases he

/-- A width of zero is known from the start, and is refused when the envelope is there. -/
theorem width_rejected_after_info :
    let node : FixedNode :=
      ⟨.ok ⟨[10], Bytes.bigEndian 96 1, 3, 0, .unchainedOnG1, []⟩, [], none⟩
    let r := (encryptWith exponents { width := 0 } 7 [104, 105]).run FixedNode.client.logged
      ⟨(node, []), List.replicate 80 1⟩
    r.1 = .failed (.armor (.invalidWidth 0)) ∧
      (Error.armor (.invalidWidth 0)).kind = .inputValidation ∧ r.2.client.2 ≠ [] := by
  intro node r
  obtain ⟨out, w, hdone⟩ := Outcome.exists_of_isDone (r := (encryptWith exponents {} 7
    [104, 105]).run FixedNode.client.logged ⟨(node, []), List.replicate 80 1⟩) (by decide +kernel)
  have hr : r = (.failed (.armor (.invalidWidth 0)), w) :=
    run_encryptWith_of_width_zero hdone rfl rfl
  refine ⟨congrArg Prod.fst hr, rfl, ?_⟩
  have hasked : r.2.client.2 = [.info] := by
    simp only [r, Dialogue.run_logged, List.nil_append]
    exact asked_encryptWith (by decide) (by decide)
  rw [hasked]
  exact List.cons_ne_nil _ _

end Sealing
end BeaconSeal
