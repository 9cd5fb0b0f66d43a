import BeaconSeal.Client.Local
import BeaconSeal.Proofs.Envelope
import BeaconSeal.Proofs.Exponents
import BeaconSeal.Timelock
/-! The header is verified before the payload is looked at. Main statement: nonce and payload have
no influence on an opening as long as the header's code is not the one under the key that the
stanzas are answered with; the payload comes out, or is refused, once it is. -/
namespace BeaconSeal
variable {σ : Type} {c : Client σ} {s s' : World σ}

def Error.OfPayload : Error → Prop
  | payloadDecryption _ => True
  | _ => False

/-- The payload was looked at: it came out, or was refused. -/
def Outcome.ReachesPayload : Outcome Error Bytes → Prop
  | .done _ => True
  | .failed error => error.OfPayload
  | .waiting => False

namespace Error

theorem not_ofPayload_ofClient (round : UInt64) (e : ClientError) :
    ¬ (ofClient round e).OfPayload := by
  unfold ofClient
  split <;> exact id

theorem not_ofPayload_ofIbe (fault : Ibe.Fault) : ¬ (ofIbe fault).OfPayload := by
  cases fault <;> exact id

end Error

theorem ChainInfo.not_ofPayload_of_isAvailable {info : ChainInfo} {round now : UInt64} {e : Error}
    (h : info.isAvailable round now = .error e) : ¬ e.OfPayload := by
  rw [isAvailable] at h
  split at h
  · cases h
    exact id
  obtain h | ⟨r, _, h⟩ := bind_eq_error_iff.1 h
  · obtain h | ⟨m, _, h⟩ := bind_eq_error_iff.1 h
    · obtain ⟨fault, _, rfl⟩ := mapError_eq_error_iff.1 h
      exact id
    · dsimp only at h
      split at h <;> cases h
  · cases h

namespace Timelock
variable {E : PairingGroups} {round : UInt64} {hash body : Bytes} {e : Error}

theorem not_ofPayload_of_parseArgs {stanza : Stanza} (h : parseArgs stanza = .error e) :
    ¬ e.OfPayload := by
  unfold parseArgs at h
  repeat' split at h
  all_goals
    cases h
    try exact id

theorem not_ofPayload_of_checkClock {clock : Option UInt64} {info : ChainInfo}
    (h : checkClock clock info round = .error e) : ¬ e.OfPayload := by
  cases clock with
  | none => cases h
  | some now =>
    obtain h | ⟨available, _, h⟩ := bind_eq_error_iff.1 h
    · exact ChainInfo.not_ofPayload_of_isAvailable h
    · split at h
      · cases h
      · cases h
        exact id

theorem failsWith_fetchInfo : (fetchInfo E round).FailsWith (¬ ·.OfPayload) := by
  intro r
  cases r with
  | error e => exact Error.not_ofPayload_ofClient round e
  | ok info => exact Dialogue.failsWith_ofExcept fun _ _ => id

theorem failsWith_fetchSignature (limit : Option Duration) :
    (fetchSignature limit round).FailsWith (¬ ·.OfPayload) := by
  intro r
  cases r with
  | answered r =>
    cases r with
    | error e => exact Error.not_ofPayload_ofClient round e
    | ok signature => exact trivial
  | pending =>
    cases limit with
    | none => exact trivial
    | some limit => exact id

theorem failsWith_openBody (o : Opening) :
    (openBody E o body round hash).FailsWith (¬ ·.OfPayload) := by
  refine failsWith_fetchInfo.bind fun info => ?_
  split
  · exact id
  -- In the order of the program: scheme, clock, body, signature, decryption, key.
  refine .bind (Dialogue.failsWith_ofExcept fun fault _ => Error.not_ofPayload_ofIbe fault)
    fun variant => ?_
  refine .bind (Dialogue.failsWith_ofExcept fun e h => not_ofPayload_of_checkClock h) fun _ => ?_
  refine .bind (Dialogue.failsWith_ofExcept fun _ _ => id) fun ct => ?_
  refine .bind (failsWith_fetchSignature o.limit) fun signature => ?_
  refine .bind (Dialogue.failsWith_ofExcept fun fault _ => Error.not_ofPayload_ofIbe fault)
    fun key => ?_
  exact Dialogue.failsWith_ofExcept fun _ _ => id

/-- Unwrapping does not say that a payload was refused. -/
theorem failsWith_unwrap (o : Opening) (stanzas : List Stanza) :
    (unwrap E o stanzas).FailsWith (¬ ·.OfPayload) := by
  rw [unwrap.eq_def]
  split
  · split
    · exact .bind (Dialogue.failsWith_ofExcept fun e h => not_ofPayload_of_parseArgs h)
        fun _ => failsWith_openBody o
    · exact id
  · exact id

end Timelock

theorem PlainKey.failsWith_unwrap (stanzas : List Stanza) :
    (unwrap stanzas).FailsWith (¬ ·.OfPayload) := by
  rw [unwrap.eq_def]
  split
  · split
    · exact Dialogue.failsWith_ofExcept fun _ _ => id
    · exact id
  · exact id

namespace Envelope
variable {unwrap : Unwrapper} {stanzas : List Stanza} {mac : SizedBytes 32} {key : FileKey}

def openHeader (stanzas : List Stanza) (mac : SizedBytes 32) (unwrap : Unwrapper) :
    Dialogue Error FileKey := do
  let key ← unwrap stanzas
  let code ← Dialogue.ofExcept Error.ofWord (headerMac key stanzas)
  if code = mac then .done key else .fail .macMismatch

theorem decrypt_eq (e : Envelope) (unwrap : Unwrapper) : e.decrypt unwrap =
    openHeader e.stanzas e.mac unwrap >>= fun key => Dialogue.ofExcept Error.payloadDecryption
      (Stream.decrypt (payloadKey key e.nonce) e.payload) := by
  rw [decrypt, openHeader, Dialogue.bind_bind]
  congr 1
  funext key
  rw [Dialogue.bind_bind]
  congr 1
  funext code
  split <;> rfl

/-- The stanzas are answered with a key, and the code is that of the header under the key. -/
def HeaderVerified (c : Client σ) (s : World σ) (unwrap : Unwrapper) (stanzas : List Stanza)
    (mac : SizedBytes 32) : Prop :=
  ∃ (key : FileKey) (t : World σ) (input : Text), (unwrap stanzas).run c s = (.done key, t) ∧
    Header.macInput stanzas = .ok input ∧
    mac = Hmac.mac (Hmac.deriveKey key.bytes [] (Text.utf8 "header".toList)).1 (Text.utf8 input)

theorem run_openHeader_eq_done_iff : (openHeader stanzas mac unwrap).run c s = (.done key, s') ↔
    (unwrap stanzas).run c s = (.done key, s') ∧ headerMac key stanzas = .ok mac := by
  rw [openHeader, Dialogue.run_bind_eq_done_iff]
  constructor
  · rintro ⟨key', t, hkey, h⟩
    obtain ⟨code, t', hrun, h⟩ := Dialogue.run_bind_eq_done_iff.1 h
    obtain ⟨hcode, rfl⟩ := Dialogue.run_ofExcept_eq_done_iff.1 hrun
    split at h
    next hmac =>
      cases h
      exact ⟨hkey, hmac ▸ hcode⟩
    · cases h
  · rintro ⟨hkey, hcode⟩
    refine ⟨key, s', hkey, ?_⟩
    rw [Dialogue.run_ofExcept_bind_ok hcode, if_pos rfl]
    rfl

theorem headerVerified_iff : HeaderVerified c s unwrap stanzas mac ↔
    ∃ key t, (openHeader stanzas mac unwrap).run c s = (.done key, t) := by
  simp only [HeaderVerified, run_openHeader_eq_done_iff, headerMac_eq_ok_iff, headerInfo]
  constructor
  · rintro ⟨key, t, input, hkey, hinput, hmac⟩
    exact ⟨key, t, hkey, input, hinput, hmac.symm⟩
  · rintro ⟨key, t, hkey, input, hinput, hmac⟩
    exact ⟨key, t, input, hkey, hinput, hmac.symm⟩

/-- Of the failures before the payload only the unwrapper's own can say that it was refused. -/
theorem run_unwrap_of_openHeader {error : Error}
    (h : (openHeader stanzas mac unwrap).run c s = (.failed error, s')) (he : error.OfPayload) :
    (unwrap stanzas).run c s = (.failed error, s') := by
  obtain h | ⟨key, t, _, h⟩ := Dialogue.run_bind_eq_failed_iff.1 h
  · exact h
  obtain h | ⟨code, t', _, h⟩ := Dialogue.run_bind_eq_failed_iff.1 h
  · obtain ⟨⟨fault, _, rfl⟩, _⟩ := Dialogue.run_ofExcept_eq_failed_iff.1 h
    cases he
  · split at h
    · cases h
    · cases h
      cases he

/-- What is looked at is what stands behind the header. -/
theorem reachesPayload_of_openHeader {t : World σ}
    (h : (openHeader stanzas mac unwrap).run c s = (.done key, t)) (nonce : SizedBytes 16)
    (payload : Bytes) :
    ((decrypt ⟨stanzas, mac, nonce, payload⟩ unwrap).run c s).1.ReachesPayload := by
  rw [decrypt_eq, Dialogue.run_bind_of_done h]
  cases Stream.decrypt (payloadKey key nonce) payload <;> exact trivial

theorem reachesPayload_iff (nonce : SizedBytes 16) (payload : Bytes) :
    ((decrypt ⟨stanzas, mac, nonce, payload⟩ unwrap).run c s).1.ReachesPayload ↔
      HeaderVerified c s unwrap stanzas mac ∨
        ∃ fault t, (unwrap stanzas).run c s = (.failed (.payloadDecryption fault), t) := by
  constructor
  · intro h
    cases hrun : (openHeader stanzas mac unwrap).run c s with
    | mk r t =>
      cases r with
      | done key => exact .inl (headerVerified_iff.2 ⟨key, t, hrun⟩)
      | waiting =>
        rw [decrypt_eq, Dialogue.run_bind, hrun] at h
        exact h.elim
      | failed error =>
        rw [decrypt_eq, Dialogue.run_bind, hrun] at h
        cases error with
        | payloadDecryption fault => exact .inr ⟨fault, t, run_unwrap_of_openHeader hrun h⟩
        | _ => exact h.elim
  · rintro (h | ⟨fault, t, h⟩)
    · obtain ⟨key, t, hrun⟩ := headerVerified_iff.1 h
      exact reachesPayload_of_openHeader hrun nonce payload
    · rw [run_decrypt_of_failed h]
      exact trivial

/-- Before the payload is reached nothing depends on it. -/
theorem run_decrypt_congr {nonce : SizedBytes 16} {payload : Bytes}
    (h : ¬ ((decrypt ⟨stanzas, mac, nonce, payload⟩ unwrap).run c s).1.ReachesPayload)
    (nonce' : SizedBytes 16) (payload' : Bytes) :
    (decrypt ⟨stanzas, mac, nonce', payload'⟩ unwrap).run c s =
      (decrypt ⟨stanzas, mac, nonce, payload⟩ unwrap).run c s := by
  cases hrun : (openHeader stanzas mac unwrap).run c s with
  | mk r t =>
    cases r with
    | done key => exact (h (reachesPayload_of_openHeader hrun nonce payload)).elim
    | failed error => simp only [decrypt_eq, Dialogue.run_bind, hrun]
    | waiting => simp only [decrypt_eq, Dialogue.run_bind, hrun]

/-- Let two envelopes have the same stanzas and code. An opening of the one that does not reach
the payload ends as that of the other does, with the same questions asked, and a failure to
unwrap is the failure of both. The payload is reached when the code is the one of the header
under the unwrapped key, and only then, unless the unwrapper itself says that a payload was
refused, which those of this library never do. -/
theorem header_verified_first (c : Client σ) (s : World σ) (unwrap : Unwrapper)
    (stanzas : List Stanza) (mac : SizedBytes 32) (nonce nonce' : SizedBytes 16)
    (payload payload' : Bytes) :
    let r := (decrypt ⟨stanzas, mac, nonce, payload⟩ unwrap).run c s
    let r' := (decrypt ⟨stanzas, mac, nonce', payload'⟩ unwrap).run c s
    (¬ r.1.ReachesPayload → r' = r) ∧
    (∀ error t, (unwrap stanzas).run c s = (.failed error, t) →
      r = (.failed error, t) ∧ r' = (.failed error, t)) ∧
    (r.1.ReachesPayload ↔ HeaderVerified c s unwrap stanzas mac ∨
      ∃ fault t, (unwrap stanzas).run c s = (.failed (.payloadDecryption fault), t)) ∧
    ∀ E o, unwrap = Timelock.unwrap E o ∨ unwrap = PlainKey.unwrap →
      (r.1.ReachesPayload ↔ HeaderVerified c s unwrap stanzas mac) := by
  intro r r'
  have hiff : r.1.ReachesPayload ↔ HeaderVerified c s unwrap stanzas mac ∨
      ∃ fault t, (unwrap stanzas).run c s = (.failed (.payloadDecryption fault), t) :=
    reachesPayload_iff nonce payload
  refine ⟨fun h => run_decrypt_congr h nonce' payload',
    fun error t h => ⟨run_decrypt_of_failed h, run_decrypt_of_failed h⟩, hiff, ?_⟩
  -- An unwrapper of the library never says that a payload was refused.
  intro E o hunwrap
  have hfails : (unwrap stanzas).FailsWith (¬ ·.OfPayload) := by
    obtain rfl | rfl := hunwrap
    · exact Timelock.failsWith_unwrap o stanzas
    · exact PlainKey.failsWith_unwrap stanzas
  refine hiff.trans (or_iff_left ?_)
  rintro ⟨fault, t, h⟩
  exact hfails.of_run h trivial

/-- A header under a code of zeros and under its own. -/
theorem header_verified_first_plain :
    let key : FileKey := ⟨List.replicate 32 0, .inr rfl⟩
    let stanzas : List Stanza := [⟨PlainKey.tag, [], key.bytes⟩]
    let run (mac : SizedBytes 32) (nonce : SizedBytes 16) (payload : Bytes) :=
      (decrypt ⟨stanzas, mac, nonce, payload⟩ PlainKey.unwrap).run Client.offline ⟨(), []⟩
    let zeros : SizedBytes 32 := ⟨List.replicate 32 0, rfl⟩
    let nonce : SizedBytes 16 := ⟨List.replicate 16 0, rfl⟩
    let nonce' : SizedBytes 16 := ⟨List.replicate 16 1, rfl⟩
    (¬ (run zeros nonce []).1.ReachesPayload ∧ run zeros nonce' [1] = run zeros nonce []) ∧
    ∃ mac, (run mac nonce []).1.ReachesPayload ∧ (run mac nonce' [1]).1.ReachesPayload := by
  intro key stanzas run zeros nonce nonce'
  have hkey : (PlainKey.unwrap stanzas).run Client.offline ⟨(), []⟩ = (.done key, ⟨(), []⟩) := rfl
  have hfirst (mac : SizedBytes 32) (nonce nonce' : SizedBytes 16) (payload payload' : Bytes) :=
    header_verified_first Client.offline ⟨(), []⟩ PlainKey.unwrap stanzas mac nonce nonce'
      payload payload'
  have hreaches (mac : SizedBytes 32) (nonce : SizedBytes 16) (payload : Bytes) :
      (run mac nonce payload).1.ReachesPayload ↔
        HeaderVerified Client.offline ⟨(), []⟩ PlainKey.unwrap stanzas mac :=
    (hfirst mac nonce nonce payload payload).2.2.2 exponents {} (.inr rfl)
  constructor
  · have hwrong : (headerMac key stanzas).toOption ≠ some zeros := by decide +kernel
    have hnot : ¬ (run zeros nonce []).1.ReachesPayload := by
      rw [hreaches, headerVerified_iff]
      rintro ⟨key', t, h⟩
      obtain ⟨hdone, hcode⟩ := run_openHeader_eq_done_iff.1 h
      cases hkey.symm.trans hdone
      exact hwrong (by rw [hcode]; rfl)
    exact ⟨hnot, (hfirst zeros nonce nonce' [] [1]).1 hnot⟩
  · obtain ⟨mac, hmac⟩ : ∃ mac, headerMac key stanzas = .ok mac :=
      exists_headerMac_iff.2 PlainKey.checkWord_of_mem
    have hverified := headerVerified_iff.2 ⟨key, _, run_openHeader_eq_done_iff.2 ⟨hkey, hmac⟩⟩
    exact ⟨mac, (hreaches mac nonce []).2 hverified, (hreaches mac nonce' [1]).2 hverified⟩

/-- An unwrapper that calls its own failure a refused payload is believed before any code is
compared, and a client that fails in another way the second time fails the second opening in that
way. -/
theorem header_unverified_counterexample :
    let zeros : SizedBytes 32 := ⟨List.replicate 32 0, rfl⟩
    let nonce : SizedBytes 16 := ⟨List.replicate 16 0, rfl⟩
    let nonce' : SizedBytes 16 := ⟨List.replicate 16 1, rfl⟩
    let refusing : Unwrapper := fun _ => .fail (.payloadDecryption (.other "refused"))
    let stanzas : List Stanza := [⟨Timelock.tag, [['1'], ['0', 'a']], []⟩]
    let run (message : String) (nonce : SizedBytes 16) :=
      (decrypt ⟨stanzas, zeros, nonce, []⟩ (Timelock.unwrap exponents {})).run FixedNode.client
        ⟨⟨.error ⟨message, .transient⟩, [], none⟩, []⟩
    (((decrypt ⟨stanzas, zeros, nonce, []⟩ refusing).run Client.offline ⟨(), []⟩).1 =
        .failed (.payloadDecryption (.other "refused")) ∧
      ¬ HeaderVerified Client.offline ⟨(), []⟩ refusing stanzas zeros) ∧
    (run "first" nonce).1 = .failed (.chainClient "first" true) ∧
      (run "second" nonce').1 = .failed (.chainClient "second" true) := by
  intro zeros nonce nonce' refusing stanzas run
  refine ⟨⟨rfl, ?_⟩, rfl, rfl⟩
  rintro ⟨key, t, input, hkey, _⟩
  cases hkey

end Envelope
end BeaconSeal
