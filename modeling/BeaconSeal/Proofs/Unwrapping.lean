import BeaconSeal.Client.Local
import BeaconSeal.Proofs.Exponents
import BeaconSeal.Proofs.Questions
import BeaconSeal.Proofs.Schedule
import BeaconSeal.Proofs.Timelock
/-! Unwrapping, question by question. Main statement: the signature of a round is asked for when
everything that can be checked without it has been checked, at most once, and for the round that
the stanza names. -/
namespace BeaconSeal.Timelock
variable {E : PairingGroups} {σ : Type} {c : Client σ} {o : Opening} {stanzas : List Stanza}
  {round : UInt64} {hash body : Bytes}

/-- The stanzas are one of the tag, whose arguments are the digits of a round and of a hash. -/
def Names (stanzas : List Stanza) (round : UInt64) (hash body : Bytes) : Prop :=
  ∃ number text : Text, stanzas = [⟨tag, [number, text], body⟩] ∧ number ≠ [] ∧
    (∀ ch ∈ number, ch.isDigit) ∧ Text.decimal number = round.toNat ∧ round ≠ 0 ∧
    Hex.decode (Text.utf8 text) = .ok hash

/-- The description is valid and the stanza's, the round is due, and the body is a ciphertext. -/
structure Passes (E : PairingGroups) (o : Opening) (info : ChainInfo) (round : UInt64)
    (hash body : Bytes) : Prop where
  valid : info.validate E = .ok ()
  hash_eq : info.hash = hash
  unchained : info.scheme ∈ [.unchained, .unchainedOnG1, .unchainedOnG1Rfc]
  due : ∀ now, o.clock = some now → ∃ t, info.roundTime round = .ok t ∧ t ≤ now
  ciphertext : ∃ variant, info.scheme.variant = .ok variant ∧
    ∃ ct : Ibe.Ciphertext E, Ibe.Ciphertext.ofBytes variant body = .ok ct

theorem digits_iff {number : Text} : ¬ (number.isEmpty ∨ ¬ number.all Char.isDigit) ↔
    number ≠ [] ∧ ∀ ch ∈ number, ch.isDigit := by
  rw [List.isEmpty_iff, List.all_eq_true, not_or, not_not]

theorem parseArgs_eq_ok_iff {s : Stanza} : parseArgs s = .ok (round, hash) ↔
    ∃ number text : Text, s.args = [number, text] ∧ number ≠ [] ∧
      (∀ ch ∈ number, ch.isDigit) ∧ Text.decimal number = round.toNat ∧ round ≠ 0 ∧
      Hex.decode (Text.utf8 text) = .ok hash := by
  rw [parseArgs]
  constructor
  · intro h
    split at h
    next number text hargs =>
      split at h
      · cases h
      next hdigits =>
      rw [Text.decimalBelow?_eq] at h
      split at h
      · cases h
      · cases h
      next n hne hn =>
      split at h
      · cases h
      next hhash =>
      obtain ⟨hlt, hn⟩ := Option.ite_none_right_eq_some.1 hn
      cases h
      have hround : (UInt64.ofNat n).toNat = n := by
        rw [← Option.some.inj hn]
        exact UInt64.toNat_ofNat_of_lt' hlt
      have hone : 1 ≤ n := Nat.one_le_iff_ne_zero.2 hne
      obtain ⟨hnumber, hall⟩ := digits_iff.1 hdigits
      refine ⟨number, text, hargs, hnumber, hall, ?_, ?_, hhash⟩
      · rw [hround]
        exact Option.some.inj hn
      · rw [ChainInfo.toNat_ne_zero_iff, hround]
        exact hone
    · cases h
  · intro h
    obtain ⟨number, text, hargs, hnumber, hall, hdecimal, hround, hhash⟩ := h
    have hbelow : Text.decimalBelow? UInt64.size 0 number = some round.toNat := by
      rw [Text.decimalBelow?_eq]
      change (if Text.decimal number < UInt64.size then some (Text.decimal number) else none) = _
      rw [hdecimal, if_pos round.toNat_lt_size]
    rw [hargs]
    dsimp only
    rw [if_neg (digits_iff.2 ⟨hnumber, hall⟩), hbelow, hhash]
    split
    next hnone => cases hnone
    next hzero =>
      have hone := ChainInfo.toNat_ne_zero_iff.1 hround
      have hround0 := Option.some.inj hzero
      omega
    next n _ hn => rw [← Option.some.inj hn, UInt64.ofNat_toNat]

theorem unwrap_of_names (h : Names stanzas round hash body) :
    unwrap E o stanzas = openBody E o body round hash := by
  obtain ⟨number, text, rfl, hargs⟩ := h
  have hparse : parseArgs ⟨tag, [number, text], body⟩ = .ok (round, hash) :=
    parseArgs_eq_ok_iff.2 ⟨number, text, rfl, hargs⟩
  simp only [unwrap, if_true, hparse]
  rfl

/-- The stanza of a round and a chain names them. -/
theorem names_stanza (hround : round ≠ 0) (info : ChainInfo) (ct : Ibe.Ciphertext E) :
    Names [stanza round info ct] round info.hash ct.bytes :=
  ⟨_, _, rfl, Text.ofNat_ne_nil _, fun _ => Text.isDigit_of_mem_ofNat, Text.decimal_ofNat _,
    hround, Hex.decode_encode _⟩

theorem unwrap_stanza (hround : round ≠ 0) {info : ChainInfo} {ct : Ibe.Ciphertext E} :
    unwrap E o [stanza round info ct] = openBody E o ct.bytes round info.hash :=
  unwrap_of_names (names_stanza hround info ct)

/-- Stanzas name one round, one hash and one body. -/
theorem Names.eq {round' : UInt64} {hash' body' : Bytes} (h : Names stanzas round hash body)
    (h' : Names stanzas round' hash' body') : round = round' ∧ hash = hash' ∧ body = body' := by
  obtain ⟨number, text, rfl, hargs⟩ := h
  obtain ⟨number', text', heq, hargs'⟩ := h'
  cases heq
  have hparse : parseArgs ⟨tag, [number, text], body⟩ = .ok (round, hash) :=
    parseArgs_eq_ok_iff.2 ⟨number, text, rfl, hargs⟩
  have hparse' : parseArgs ⟨tag, [number, text], body⟩ = .ok (round', hash') :=
    parseArgs_eq_ok_iff.2 ⟨number, text, rfl, hargs'⟩
  cases hparse.symm.trans hparse'
  exact ⟨rfl, rfl, rfl⟩

theorem exists_fail_of_not_names (h : ¬ ∃ round hash body, Names stanzas round hash body) :
    ∃ e, unwrap E o stanzas = .fail e := by
  rw [unwrap.eq_def]
  split
  next s =>
    split
    next htag =>
      cases hparse : parseArgs s with
      | error e => exact ⟨_, rfl⟩
      | ok p =>
        obtain ⟨round, hash⟩ := p
        obtain ⟨number, text, hargs, hrest⟩ := parseArgs_eq_ok_iff.1 hparse
        refine absurd ⟨round, hash, s.body, number, text, ?_, hrest⟩ h
        rw [← htag, ← hargs]
    · exact ⟨_, rfl⟩
  · exact ⟨_, rfl⟩

def settle (E : PairingGroups) (o : Opening) (round : UInt64) (hash body : Bytes)
    (r : Except ClientError ChainInfo) : Except Error (Variant × Ibe.Ciphertext E) := do
  let info ← r.mapError (Error.ofClient round)
  (info.validate E).mapError Error.invalidChainInfo
  if info.hash ≠ hash then .error (.chainMismatch (Hex.encode hash) info.hashHex)
  else
    let variant ← info.scheme.variant.mapError Error.ofIbe
    checkClock o.clock info round
    let ct ← (Ibe.Ciphertext.ofBytes (E := E) variant body).mapError (.malformedStanza ∘ .body)
    .ok (variant, ct)

def keyOf (p : Variant × Ibe.Ciphertext E) (signature : Bytes) : Except Error FileKey := do
  let key ← (Ibe.decrypt p.1 signature p.2).mapError Error.ofIbe
  (FileKey.ofBytes key).mapError Error.malformedStanza

/-- Whatever bytes come out of the ciphertext are taken as they are. -/
theorem keyOf_of_message {p : Variant × Ibe.Ciphertext E} {signature message : Bytes}
    (h : Ibe.decrypt p.1 signature p.2 = .ok message) :
    keyOf p signature = (FileKey.ofBytes message).mapError Error.malformedStanza := by
  rw [keyOf, h]
  rfl

theorem keyOf_of_decrypt {p : Variant × Ibe.Ciphertext E} {signature : Bytes} {key : FileKey}
    (h : Ibe.decrypt p.1 signature p.2 = .ok key.bytes) : keyOf p signature = .ok key := by
  have hkey : FileKey.ofBytes key.bytes = .ok key := dif_pos key.length_bytes
  rw [keyOf_of_message h, hkey]
  rfl

theorem keyOf_of_fault {p : Variant × Ibe.Ciphertext E} {signature : Bytes} {fault : Ibe.Fault}
    (h : Ibe.decrypt p.1 signature p.2 = .error fault) :
    keyOf p signature = .error (.ofIbe fault) := by
  rw [keyOf, h]
  rfl

theorem openBody_eq : openBody E o body round hash =
    .info (fun r => Dialogue.ofExcept id (settle E o round hash body r) >>= fun p =>
      fetchSignature o.limit round >>= fun signature =>
        Dialogue.ofExcept id (keyOf p signature)) := by
  refine congrArg Dialogue.info (funext fun r => ?_)
  cases r with
  | error e => rfl
  | ok info =>
    have hsettle : settle E o round hash body (.ok info) =
      (info.validate E).mapError Error.invalidChainInfo >>= fun _ =>
        if info.hash ≠ hash then .error (.chainMismatch (Hex.encode hash) info.hashHex)
        else info.scheme.variant.mapError Error.ofIbe >>= fun variant =>
          checkClock o.clock info round >>= fun _ =>
          (Ibe.Ciphertext.ofBytes (E := E) variant body).mapError (.malformedStanza ∘ .body) >>=
            fun ct => .ok (variant, ct) := rfl
    rw [hsettle]
    change (Dialogue.ofExcept Error.invalidChainInfo _).bind _ = _
    cases info.validate E with
    | error e => rfl
    | ok u =>
      change ite _ _ _ = Dialogue.ofExcept id (ite _ _ _) >>= _
      split
      · rfl
      · simp only [keyOf, Dialogue.ofExcept_bind, Dialogue.ofExcept_mapError, Dialogue.bind_bind]
        rfl

theorem checkClock_eq_ok_iff {clock : Option UInt64} {info : ChainInfo} :
    checkClock clock info round = .ok () ↔
      ∀ now, clock = some now → ∃ t, info.roundTime round = .ok t ∧ t ≤ now := by
  cases clock with
  | none => simp [checkClock]
  | some now =>
    simp only [checkClock, bind_eq_ok_iff, Option.some.injEq, forall_eq',
      ← ChainInfo.isAvailable_eq_ok_true_iff]
    constructor
    · intro h
      obtain ⟨a, ha, h⟩ := h
      cases a with
      | false => cases h
      | true => exact ha
    · intro h
      exact ⟨true, h, rfl⟩

theorem settle_eq_ok_iff {r : Except ClientError ChainInfo} {variant : Variant}
    {ct : Ibe.Ciphertext E} : settle E o round hash body r = .ok (variant, ct) ↔
      ∃ info, r = .ok info ∧ info.validate E = .ok () ∧ info.hash = hash ∧
        info.scheme.variant = .ok variant ∧ checkClock o.clock info round = .ok () ∧
        Ibe.Ciphertext.ofBytes variant body = .ok ct := by
  rw [settle, bind_eq_ok_iff]
  simp only [mapError_eq_ok_iff]
  constructor
  · intro h
    obtain ⟨info, hr, h⟩ := h
    obtain ⟨⟨⟩, hvalid, h⟩ := bind_eq_ok_iff.1 h
    split at h
    · cases h
    next hhash =>
    obtain ⟨v, hv, h⟩ := bind_eq_ok_iff.1 h
    obtain ⟨⟨⟩, hclock, h⟩ := bind_eq_ok_iff.1 h
    obtain ⟨ct', hct, h⟩ := bind_eq_ok_iff.1 h
    cases h
    exact ⟨info, hr, mapError_eq_ok_iff.1 hvalid, not_not.1 hhash, mapError_eq_ok_iff.1 hv, hclock,
      mapError_eq_ok_iff.1 hct⟩
  · intro h
    obtain ⟨info, hr, hvalid, hhash, hv, hclock, hct⟩ := h
    refine ⟨info, hr, bind_eq_ok_iff.2 ⟨(), mapError_eq_ok_iff.2 hvalid, ?_⟩⟩
    rw [if_neg (not_not.2 hhash)]
    refine bind_eq_ok_iff.2 ⟨variant, mapError_eq_ok_iff.2 hv, bind_eq_ok_iff.2 ⟨(), hclock, ?_⟩⟩
    exact bind_eq_ok_iff.2 ⟨ct, mapError_eq_ok_iff.2 hct, rfl⟩

theorem exists_settle_iff {r : Except ClientError ChainInfo} :
    (∃ p, settle E o round hash body r = .ok p) ↔
      ∃ info, r = .ok info ∧ Passes E o info round hash body := by
  have hscheme {scheme : Scheme} {variant : Variant} (h : scheme.variant = .ok variant) :
      scheme ∈ [.unchained, .unchainedOnG1, .unchainedOnG1Rfc] := by
    cases scheme <;> first | cases h; done | decide
  constructor
  · intro h
    obtain ⟨⟨variant, ct⟩, h⟩ := h
    obtain ⟨info, hr, hvalid, hhash, hvariant, hclock, hct⟩ := settle_eq_ok_iff.1 h
    exact ⟨info, hr, hvalid, hhash, hscheme hvariant, checkClock_eq_ok_iff.1 hclock, variant,
      hvariant, ct, hct⟩
  · intro h
    obtain ⟨info, hr, hpasses⟩ := h
    obtain ⟨variant, hvariant, ct, hct⟩ := hpasses.ciphertext
    exact ⟨(variant, ct), settle_eq_ok_iff.2 ⟨info, hr, hpasses.valid, hpasses.hash_eq, hvariant,
      checkClock_eq_ok_iff.2 hpasses.due, hct⟩⟩

def conclude (limit : Option Duration) (round : UInt64) (p : Variant × Ibe.Ciphertext E) :
    Reply → Outcome Error FileKey
  | .answered (.ok signature) =>
    match keyOf p signature with
    | .ok key => .done key
    | .error e => .failed e
  | .answered (.error e) => .failed (.ofClient round e)
  | .pending =>
    match limit with
    | some d => .failed (.timeout d)
    | none => .waiting

theorem conclude_eq_done_iff {limit : Option Duration} {p : Variant × Ibe.Ciphertext E}
    {r : Reply} {key : FileKey} : conclude limit round p r = .done key ↔
      ∃ signature, r = .answered (.ok signature) ∧ keyOf p signature = .ok key := by
  cases r with
  | answered r =>
    cases r with
    | error e => simp [conclude]
    | ok signature => cases hkey : keyOf p signature <;> simp [conclude, hkey]
  | pending => cases limit <;> simp [conclude]

theorem run_openBody (client : σ) (pool : Bytes) :
    (openBody E o body round hash).run c ⟨client, pool⟩ =
      match settle E o round hash body (c.info client).1 with
      | .error e => (.failed e, ⟨(c.info client).2, pool⟩)
      | .ok p =>
        let r := c.signature round (c.info client).2
        (conclude o.limit round p r.1, ⟨r.2, pool⟩) := by
  rw [openBody_eq, Dialogue.run]
  dsimp only
  cases settle E o round hash body (c.info client).1 with
  | error e => rfl
  | ok p =>
    change (Dialogue.signature round _).run c _ = _
    rw [Dialogue.run]
    dsimp only
    cases (c.signature round (c.info client).2).1 with
    | answered r =>
      cases r with
      | error e => rfl
      | ok signature =>
        change (Dialogue.ofExcept id (keyOf p signature)).run c _ = _
        rw [conclude]
        cases keyOf p signature <;> rfl
    | pending => cases o.limit <;> rfl

theorem run_unwrap (hclock : o.clock = none) {info : ChainInfo}
    (hvalid : info.validate E = .ok ()) {variant : Variant}
    (hvariant : info.scheme.variant = .ok variant) (hround : round ≠ 0)
    {ct : Ibe.Ciphertext E} (hbytes : Ibe.Ciphertext.ofBytes variant ct.bytes = .ok ct)
    {signature : Bytes} {key : FileKey}
    (hdecrypt : Ibe.decrypt variant signature ct = .ok key.bytes) {client client' client'' : σ}
    (hinfo : c.info client = (.ok info, client'))
    (hsignature : c.signature round client' = (.answered (.ok signature), client''))
    (pool : Bytes) : (unwrap E o [stanza round info ct]).run c ⟨client, pool⟩ =
      (.done key, ⟨client'', pool⟩) := by
  have hcheck : checkClock o.clock info round = .ok () := by rw [hclock]; rfl
  have hsettle : settle E o round info.hash ct.bytes (.ok info) = .ok (variant, ct) :=
    settle_eq_ok_iff.2 ⟨info, rfl, hvalid, rfl, hvariant, hcheck, hbytes⟩
  have hkey : keyOf (variant, ct) signature = .ok key := keyOf_of_decrypt hdecrypt
  rw [unwrap_stanza hround, run_openBody, hinfo, hsettle]
  dsimp only
  rw [hsignature, conclude, hkey]

theorem asked_openBody (s : World σ) : (openBody E o body round hash).asked c s =
    .info :: match settle E o round hash body (c.info s.client).1 with
      | .error _ => []
      | .ok _ => [.signature round] := by
  rw [openBody_eq, Dialogue.asked]
  cases settle E o round hash body (c.info s.client).1 with
  | error e => rfl
  | ok p =>
    change Question.info :: (Dialogue.signature round _).asked c _ = _
    rw [Dialogue.asked]
    dsimp only
    cases (c.signature round (c.info s.client).2).1 with
    | answered r =>
      cases r with
      | error e => rfl
      | ok signature =>
        change _ :: _ :: (Dialogue.ofExcept id (keyOf p signature)).asked c _ = _
        cases keyOf p signature <;> rfl
    | pending => cases o.limit <;> rfl

theorem asked_of_names (h : Names stanzas round hash body) (s : World σ) :
    (∃ info, (c.info s.client).1 = .ok info ∧ Passes E o info round hash body) ∧
        (unwrap E o stanzas).asked c s = [.info, .signature round] ∨
      (¬ ∃ info, (c.info s.client).1 = .ok info ∧ Passes E o info round hash body) ∧
        (unwrap E o stanzas).asked c s = [.info] := by
  rw [unwrap_of_names h, asked_openBody, ← exists_settle_iff]
  cases settle E o round hash body (c.info s.client).1 with
  | error e => exact .inr ⟨by simp, rfl⟩
  | ok p => exact .inl ⟨⟨p, rfl⟩, rfl⟩

theorem asked_of_not_names (h : ¬ ∃ round hash body, Names stanzas round hash body)
    (s : World σ) : (unwrap E o stanzas).asked c s = [] := by
  obtain ⟨e, he⟩ := exists_fail_of_not_names (E := E) (o := o) h
  rw [he]
  rfl

theorem signature_mem_asked_iff {s : World σ} :
    .signature round ∈ (unwrap E o stanzas).asked c s ↔ ∃ hash body info,
      Names stanzas round hash body ∧ (c.info s.client).1 = .ok info ∧
        Passes E o info round hash body := by
  by_cases hnames : ∃ round hash body, Names stanzas round hash body
  · obtain ⟨round', hash, body, hnames⟩ := hnames
    rcases asked_of_names (E := E) (o := o) (c := c) hnames s with
      ⟨hpasses, hasked⟩ | ⟨hno, hasked⟩
    · rw [hasked]
      constructor
      · intro h
        obtain rfl : round = round' := by simpa using h
        obtain ⟨info, hinfo, hpasses⟩ := hpasses
        exact ⟨hash, body, info, hnames, hinfo, hpasses⟩
      · intro h
        obtain ⟨hash', body', info, hnames', _⟩ := h
        obtain ⟨rfl, _⟩ := hnames.eq hnames'
        simp
    · rw [hasked]
      constructor
      · intro h
        simp at h
      · intro h
        obtain ⟨hash', body', info, hnames', hpasses⟩ := h
        obtain ⟨rfl, rfl, rfl⟩ := hnames.eq hnames'
        exact absurd ⟨info, hpasses⟩ hno
  · rw [asked_of_not_names hnames]
    constructor
    · intro h
      cases h
    · intro h
      obtain ⟨hash, body, info, h, _⟩ := h
      exact absurd ⟨round, hash, body, h⟩ hnames

theorem count_info_asked (h : Names stanzas round hash body) (s : World σ) :
    ((unwrap E o stanzas).asked c s).count .info = 1 := by
  rcases asked_of_names (E := E) (o := o) (c := c) h s with ⟨_, hasked⟩ | ⟨_, hasked⟩
  · rw [hasked]
    rfl
  · rw [hasked]
    rfl

theorem countP_isSignature_asked_le (s : World σ) :
    ((unwrap E o stanzas).asked c s).countP Question.isSignature ≤ 1 := by
  by_cases hnames : ∃ round hash body, Names stanzas round hash body
  · obtain ⟨round, hash, body, hnames⟩ := hnames
    rcases asked_of_names (E := E) (o := o) (c := c) hnames s with ⟨_, hasked⟩ | ⟨_, hasked⟩
    · rw [hasked]
      exact Nat.le_refl 1
    · rw [hasked]
      exact Nat.zero_le 1
  · rw [asked_of_not_names hnames]
    exact Nat.zero_le 1

/-- A key is there only when the signature was asked for and came. -/
theorem asked_of_done {client : σ} {pool : Bytes} {key : FileKey}
    (h : ((unwrap E o stanzas).run c ⟨client, pool⟩).1 = .done key) : ∃ round signature,
      (unwrap E o stanzas).asked c ⟨client, pool⟩ = [.info, .signature round] ∧
      (c.signature round (c.info client).2).1 = .answered (.ok signature) := by
  by_cases hnames : ∃ round hash body, Names stanzas round hash body
  · obtain ⟨round, hash, body, hnames⟩ := hnames
    rw [unwrap_of_names hnames, run_openBody] at h
    rw [unwrap_of_names hnames, asked_openBody]
    cases hp : settle E o round hash body (c.info client).1 with
    | error e =>
      rw [hp] at h
      cases h
    | ok p =>
      rw [hp] at h
      obtain ⟨signature, hsignature, _⟩ := conclude_eq_done_iff.1 h
      exact ⟨round, signature, rfl, hsignature⟩
  · obtain ⟨e, he⟩ := exists_fail_of_not_names (E := E) (o := o) hnames
    rw [he] at h
    cases h

/-- No round of a chain is due whose times do not fit into a word. -/
theorem not_passes_of_overflow {info : ChainInfo} {now : UInt64} (hclock : o.clock = some now)
    (h : 2^64 ≤ 1000*info.genesisTime.toNat ∨ 2^64 ≤ 1000*info.period.toNat) :
    ¬ Passes E o info round hash body := by
  intro hpasses
  obtain ⟨t, ht, _⟩ := hpasses.due now hclock
  obtain ⟨genesis, period, hmillis⟩ := ChainInfo.exists_millis_of_roundTime ht
  have := ChainInfo.millis_eq_ok_iff.1 hmillis
  omega

/-- Unwrapping asks for the chain's description once if the stanzas name a round, and for nothing
otherwise. It asks for a signature at most once: for the round that is named, when all else has
passed; and no key is there unless that was answered. -/
theorem unwrap_asks (E : PairingGroups) (o : Opening) (stanzas : List Stanza) (σ : Type)
    (c : Client σ) (client : σ) (pool : Bytes) :
    let r := (unwrap E o stanzas).run c.logged ⟨(client, []), pool⟩
    let asked := r.2.client.2
    ((∃ round hash body, Names stanzas round hash body) → asked.count .info = 1) ∧
    ((¬ ∃ round hash body, Names stanzas round hash body) → asked = []) ∧
    asked.countP Question.isSignature ≤ 1 ∧
    (∀ round, .signature round ∈ asked ↔ ∃ hash body info, Names stanzas round hash body ∧
      (c.info client).1 = .ok info ∧ Passes E o info round hash body) ∧
    (∀ key, r.1 = .done key → ∃ round signature, asked = [.info, .signature round] ∧
      (c.signature round (c.info client).2).1 = .answered (.ok signature)) ∧
    ∀ info, (c.info client).1 = .ok info → o.clock ≠ none →
      2^64 ≤ 1000*info.genesisTime.toNat ∨ 2^64 ≤ 1000*info.period.toNat →
      asked.countP Question.isSignature = 0 := by
  intro r asked
  have hlog := Dialogue.run_logged (c := c) (unwrap E o stanzas) client [] pool
  have hasked : asked = (unwrap E o stanzas).asked c ⟨client, pool⟩ := by
    simp only [asked, r, hlog, List.nil_append]
  have hresult : r.1 = ((unwrap E o stanzas).run c ⟨client, pool⟩).1 := by
    simp only [r, hlog]
  rw [hasked, hresult]
  refine ⟨?_, fun h => asked_of_not_names h _, countP_isSignature_asked_le _,
    fun round => signature_mem_asked_iff, fun key hkey => asked_of_done hkey, ?_⟩
  · intro h
    obtain ⟨round, hash, body, hnames⟩ := h
    exact count_info_asked hnames _
  · intro info hinfo hclock hover
    obtain ⟨now, hnow⟩ := Option.ne_none_iff_exists'.1 hclock
    rw [List.countP_eq_zero]
    intro q hq
    cases q with
    | info => simp [Question.isSignature]
    | signature round =>
      obtain ⟨hash, body, info', _, hinfo', hpasses⟩ := signature_mem_asked_iff.1 hq
      cases hinfo.symm.trans hinfo'
      exact absurd hpasses (not_passes_of_overflow hnow hover)

/-- A round is asked for at its time, and none of a chain whose genesis is out of range. -/
theorem unwrap_asks_due :
    .signature 7 ∈ ((unwrap exponents { clock := some 18000 }
        [⟨tag, [['7'], ['0', 'a']], Bytes.bigEndian 96 1 ++ [1, 2]⟩]).run FixedNode.client.logged
      ⟨(⟨.ok ⟨[10], Bytes.bigEndian 96 1, 3, 0, .unchainedOnG1, []⟩, [], none⟩, []),
        []⟩).2.client.2 ∧
    ((unwrap exponents { clock := some 18000 }
        [⟨tag, [['7'], ['0', 'a']], Bytes.bigEndian 96 1 ++ [1, 2]⟩]).run FixedNode.client.logged
      ⟨(⟨.ok ⟨[10], Bytes.bigEndian 96 1, 3, 0x8000000000000000, .unchainedOnG1, []⟩, [], none⟩,
        []), []⟩).2.client.2.countP Question.isSignature = 0 := by
  constructor
  · have hnames : Names [⟨tag, [['7'], ['0', 'a']], Bytes.bigEndian 96 1 ++ [1, 2]⟩] 7 [10]
        (Bytes.bigEndian 96 1 ++ [1, 2]) :=
      ⟨_, _, rfl, by decide, List.all_eq_true.1 (by decide), by decide, by decide, by decide⟩
    refine ((unwrap_asks exponents { clock := some 18000 } _ FixedNode _ _ []).2.2.2.1 7).2
      ⟨_, _, _, hnames, rfl, by decide +kernel, rfl, by decide, ?_, _, rfl, ?_⟩
    · intro now hnow
      cases hnow
      exact ⟨18000, by decide +kernel, by decide⟩
    · exact ⟨⟨⟨.g2, Scalar.ofNat 1⟩, [1], [2]⟩, by decide +kernel⟩
  · exact (unwrap_asks exponents { clock := some 18000 } _ FixedNode _ _ []).2.2.2.2.2 _ rfl
      (by decide) (.inl (by decide))

end BeaconSeal.Timelock
