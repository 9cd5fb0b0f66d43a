import BeaconSeal.Proofs.Ibe
import BeaconSeal.Proofs.Unwrapping
/-! Stanzas from elsewhere. Main statement: what another program encrypted for a round, a key of
any length under any seed, is opened to the very same key if it has a length of file keys, and
refused by its length if not. -/
namespace BeaconSeal.Timelock
variable {E : PairingGroups} {σ : Type} {c : Client σ} {o : Opening} {stanzas : List Stanza}
  {round : UInt64} {info : ChainInfo} {variant : Variant} {ct : Ibe.Ciphertext E}
  {signature message hash body : Bytes} {client client' client'' : σ}

/-- Hexadecimal digits name the hash in either case. -/
theorem names_of_toLower {text : Text} (hround : round ≠ 0)
    (htext : text.map Char.toLower = Hex.encode hash) :
    Names [⟨tag, [Text.ofNat round.toNat, text], body⟩] round hash body :=
  ⟨_, _, rfl, Text.ofNat_ne_nil _, fun _ => Text.isDigit_of_mem_ofNat, Text.decimal_ofNat _,
    hround, Hex.decode_eq_ok_iff.2 htext⟩

/-- With a signature that opens the ciphertext, only the length of the message is left to
check. -/
theorem run_unwrap_of_message (hnames : Names stanzas round info.hash ct.bytes)
    (hvalid : info.validate E = .ok ()) (hvariant : info.scheme.variant = .ok variant)
    (hdue : ∀ now, o.clock = some now → ∃ t, info.roundTime round = .ok t ∧ t ≤ now)
    (hbytes : Ibe.Ciphertext.ofBytes variant ct.bytes = .ok ct)
    (hdecrypt : Ibe.decrypt variant signature ct = .ok message)
    (hinfo : c.info client = (.ok info, client'))
    (hsignature : c.signature round client' = (.answered (.ok signature), client''))
    (pool : Bytes) : (unwrap E o stanzas).run c ⟨client, pool⟩ =
      (if h : message.length = 16 ∨ message.length = 32 then .done ⟨message, h⟩
        else .failed (.malformedStanza (.keyLength message.length)), ⟨client'', pool⟩) := by
  have hsettle : settle E o round info.hash ct.bytes (.ok info) = .ok (variant, ct) :=
    settle_eq_ok_iff.2 ⟨info, rfl, hvalid, rfl, hvariant, checkClock_eq_ok_iff.2 hdue, hbytes⟩
  have hkey : keyOf (variant, ct) signature =
    (FileKey.ofBytes message).mapError Error.malformedStanza := keyOf_of_message hdecrypt
  rw [unwrap_of_names hnames, run_openBody, hinfo, hsettle]
  dsimp only
  rw [hsignature, conclude, hkey, FileKey.ofBytes]
  by_cases hlength : message.length = 16 ∨ message.length = 32
  · rw [dif_pos hlength, dif_pos hlength]
    rfl
  · rw [dif_neg hlength, dif_neg hlength]
    rfl

section
variable {Member : (g : SourceGroup) → E.Point g → Prop} {power : Scalar → E.Target → E.Target}

/-- A key that was encrypted for a round, under whichever seed, is opened with the round's
signature: a key of sixteen or thirty-two bytes is returned as it is, and any other is refused by
its length. -/
theorem unwrap_encrypted_elsewhere (L : E.Laws Member power) (info : ChainInfo)
    (variant : Variant) (s : Scalar) (round : UInt64) (key seed : Bytes)
    (hvalid : info.validate E = .ok ()) (hvariant : info.scheme.variant = .ok variant)
    (hsecret : s.val ≠ 0)
    (hpublic : info.publicKey = E.compress (E.smul s (E.generator variant.keyGroup)))
    (hround : round ≠ 0)
    (hidentity : E.smul s (Ibe.hashIdentity E variant (Ibe.roundIdentity round)) ≠
      E.identity variant.signatureGroup)
    (hkey : 1 ≤ key.length ∧ key.length ≤ 32) (hseed : seed.length = key.length)
    (hscalar : ∃ r, Ibe.seedScalar seed key = .ok r ∧ r.val ≠ 0) :
    ∃ ct : Ibe.Ciphertext E,
      Ibe.encryptWith variant info.publicKey (Ibe.roundIdentity round) key seed = .ok ct ∧
      ∀ (σ : Type) (c : Client σ) (client client' client'' : σ) (pool : Bytes) (o : Opening)
        (text : Text), text.map Char.toLower = Hex.encode info.hash →
        (∀ now, o.clock = some now → ∃ t, info.roundTime round = .ok t ∧ t ≤ now) →
        c.info client = (.ok info, client') →
        c.signature round client' = (.answered (.ok (E.compress
          (E.smul s (Ibe.hashIdentity E variant (Ibe.roundIdentity round))))), client'') →
        let r := (unwrap E o [⟨tag, [Text.ofNat round.toNat, text], ct.bytes⟩]).run c
          ⟨client, pool⟩
        (∀ h : key.length = 16 ∨ key.length = 32, r = (.done ⟨key, h⟩, ⟨client'', pool⟩)) ∧
        (key.length ≠ 16 → key.length ≠ 32 →
          r = (.failed (.malformedStanza (.keyLength key.length)), ⟨client'', pool⟩)) := by
  obtain ⟨r, hr, hr0⟩ := hscalar
  obtain ⟨ct, hct, hopens, hbytes⟩ := Ibe.exists_encryptWith L hsecret hidentity hkey hseed hr
  refine ⟨ct, by rw [hpublic]; exact hct, ?_⟩
  intro σ c client client' client'' pool o text htext hdue hinfo hsignature
  dsimp only
  rw [run_unwrap_of_message (names_of_toLower hround htext) hvalid hvariant hdue (hbytes hr0)
    (Ibe.decrypt_of_opens hopens) hinfo hsignature]
  constructor
  · intro h
    rw [dif_pos h]
  · intro h16 h32
    rw [dif_neg (fun h => h.elim h16 h32)]

end

/-- Under one chain and one signature: a key of sixteen bytes, in a stanza with the hash in upper
case, and a key of five bytes. -/
theorem unwrap_encrypted_elsewhere_exponents :
    let info : ChainInfo := ⟨[10], Bytes.bigEndian 96 5, 3, 0, .unchainedOnG1, []⟩
    let node : FixedNode := ⟨.ok info, [(7, exponents.compress (exponents.smul (Scalar.ofNat 5)
      (Ibe.hashIdentity exponents .keyOnG2Legacy (Ibe.roundIdentity 7))))], none⟩
    let key : FileKey := ⟨List.replicate 16 1, .inl rfl⟩
    (∃ ct : Ibe.Ciphertext exponents,
      ((unwrap exponents { clock := some 18000 } [⟨tag, [['7'], ['0', 'A']], ct.bytes⟩]).run
        FixedNode.client ⟨node, []⟩).1 = .done key) ∧
    ∃ ct : Ibe.Ciphertext exponents,
      ((unwrap exponents {} [⟨tag, [['7'], ['0', 'a']], ct.bytes⟩]).run
        FixedNode.client ⟨node, []⟩).1 = .failed (.malformedStanza (.keyLength 5)) := by
  intro info node key
  have hvalid : info.validate exponents = .ok () := by decide +kernel
  have hidentity : exponents.smul (g := .g1) (Scalar.ofNat 5)
      (Ibe.hashIdentity exponents .keyOnG2Legacy (Ibe.roundIdentity 7)) ≠
      exponents.identity .g1 := exponents.ne_identity_iff.2 (by decide +kernel)
  have hlong : Ibe.seedScalar (List.replicate 16 2) key.bytes = .ok (Scalar.ofNat
      2949149821562992152654359826695763594470142577668690328309126493489529941753) := by
    decide +kernel
  have hshort : Ibe.seedScalar (List.replicate 5 2) (List.replicate 5 1) = .ok (Scalar.ofNat
      44032085400013692776023332173683739830613637274466144029559232732155999961287) := by
    decide +kernel
  obtain ⟨ct, _, hopen⟩ := unwrap_encrypted_elsewhere exponents.laws info .keyOnG2Legacy
    (Scalar.ofNat 5) 7 key.bytes (List.replicate 16 2) hvalid rfl (by decide) (by decide)
    (by decide) hidentity (by decide) (by decide) ⟨_, hlong, by decide⟩
  obtain ⟨ct', _, hrefuse⟩ := unwrap_encrypted_elsewhere exponents.laws info .keyOnG2Legacy
    (Scalar.ofNat 5) 7 (List.replicate 5 1) (List.replicate 5 2) hvalid rfl (by decide)
    (by decide) (by decide) hidentity (by decide) (by decide) ⟨_, hshort, by decide⟩
  refine ⟨⟨ct, ?_⟩, ct', ?_⟩
  · have hdue : ∀ now, some (18000 : UInt64) = some now →
        ∃ t, info.roundTime 7 = .ok t ∧ t ≤ now := by
      intro now hnow
      cases hnow
      exact ⟨18000, by decide +kernel, by decide⟩
    exact congrArg Prod.fst ((hopen FixedNode _ node node node [] { clock := some 18000 }
      ['0', 'A'] (by decide) hdue rfl rfl).1 key.length_bytes)
  · exact congrArg Prod.fst ((hrefuse FixedNode _ node node node [] {} ['0', 'a'] (by decide)
      (fun now hnow => nomatch hnow) rfl rfl).2 (by decide) (by decide))

end BeaconSeal.Timelock
