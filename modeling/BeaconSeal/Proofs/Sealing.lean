import BeaconSeal.Proofs.Forms
import BeaconSeal.Proofs.Ibe
import BeaconSeal.Proofs.Unwrapping
import BeaconSeal.Sealing
/-! Sealing until a round and opening. Main statement: what was sealed for a round of a beacon's
chain is opened, with the same options, by any client of the chain that serves the round. -/
namespace BeaconSeal
variable {E : PairingGroups} {Member : (g : SourceGroup) → E.Point g → Prop}
  {power : Scalar → E.Target → E.Target}

theorem Scheme.keyGroup_of_variant {scheme : Scheme} {variant : Variant}
    (h : scheme.variant = .ok variant) : scheme.keyGroup = variant.keyGroup := by
  cases scheme <;> cases h <;> rfl

namespace LocalBeacon

def secretOf (seed : Bytes) : Scalar := Scalar.ofNat (Bytes.ofBigEndian (Sha256.digest seed))

def ofSecret (E : PairingGroups) (scheme : Scheme) (variant : Variant) (s : Scalar) :
    LocalBeacon E :=
  ⟨scheme, variant, s, E.compress (E.smul s (E.generator variant.keyGroup))⟩

theorem exists_ofSeed {scheme : Scheme} (h : scheme ≠ .chained) (seed : Bytes) :
    ∃ variant, scheme.variant = .ok variant ∧
      ofSeed scheme seed = .ok (ofSecret E scheme variant (secretOf seed)) := by
  cases scheme with
  | chained => contradiction
  | unchained => exact ⟨_, rfl, rfl⟩
  | unchainedOnG1 => exact ⟨_, rfl, rfl⟩
  | unchainedOnG1Rfc => exact ⟨_, rfl, rfl⟩

theorem validate_info (L : E.Laws Member power) {scheme : Scheme} {variant : Variant} {s : Scalar}
    (hvariant : scheme.variant = .ok variant) (hs : s.val ≠ 0) {period : UInt64}
    (hperiod : period ≠ 0) (genesisTime : UInt64) :
    ((ofSecret E scheme variant s).info period genesisTime).validate E = .ok () := by
  have hG := L.generator_mem variant.keyGroup
  have hmem := L.smul_mem s hG
  have hread : ∃ p, E.read scheme.keyGroup
      (E.compress (E.smul s (E.generator variant.keyGroup))) = .ok p := by
    rw [Scheme.keyGroup_of_variant hvariant]
    exact ⟨_, L.read_compress hmem (L.smul_ne_identity hG (L.generator_ne_identity _) hs)⟩
  obtain ⟨p, hp⟩ := hread
  have hlength : (E.compress (E.smul s (E.generator variant.keyGroup))).length =
      scheme.keyGroup.pointSize := by
    rw [Scheme.keyGroup_of_variant hvariant]
    exact L.length_compress hmem
  simp [ChainInfo.validate, info, ofSecret, hp, hperiod, hlength]

end LocalBeacon

namespace Sealing

/-- Armor or not, the output of sealing is some bytes that are taken back as the envelope's. -/
theorem exists_output {o : SealOptions} (h : 0 < o.width) {e : Envelope} {raw : Bytes}
    (hraw : e.bytes = .ok raw) : ∃ out, unarmored o.width out = .ok raw ∧
      (if o.armor then
        Dialogue.ofExcept Error.armor ((Armor.encode o.width raw).map Text.utf8)
      else .done raw) = .done out := by
  by_cases harmor : o.armor
  · obtain ⟨t, ht, hout⟩ := unarmored_utf8 h raw
    refine ⟨Text.utf8 t, hout, ?_⟩
    rw [if_pos harmor, ht]
    rfl
  · exact ⟨raw, unarmored_bytes hraw o.width, if_neg harmor⟩

section
variable {o : SealOptions} {round : UInt64} {e : Envelope} {raw out payload : Bytes}
  {σ : Type} {c : Client σ} {s s' : World σ}

theorem run_encryptWith (hround : round ≠ 0) (hraw : e.bytes = .ok raw)
    (hout : (if o.armor then
        Dialogue.ofExcept Error.armor ((Armor.encode o.width raw).map Text.utf8)
      else .done raw) = .done out)
    (hencrypt : (Envelope.encrypt payload (Timelock.wrap E ⟨round, hround⟩)).run c s =
      (.done e, s')) : (encryptWith E o round payload).run c s = (.done out, s') := by
  have henvelope : (envelope E round payload).run c s = (.done raw, s') := by
    rw [envelope, Dialogue.run_ofExcept_bind_ok (Timelock.Recipient.ofRound_eq hround),
      Dialogue.run_bind_of_done hencrypt, hraw]
    rfl
  rw [encryptWith, Dialogue.run_bind_of_done henvelope, hout]
  rfl

theorem run_decryptWith (hraw : e.bytes = .ok raw) (hne : e.stanzas ≠ [])
    (hunarmored : unarmored o.width out = .ok raw)
    (hdecrypt : (e.decrypt (Timelock.unwrap E { limit := o.limit })).run c s =
      (.done payload, s')) : (decryptWith E o out).run c s = (.done payload, s') := by
  have hread : Envelope.ofBytes raw = .ok e := Envelope.ofBytes_eq_ok_iff.2 ⟨hne, hraw⟩
  rw [decryptWith, Dialogue.run_ofExcept_bind_ok hunarmored, Dialogue.run_ofExcept_bind_ok hread]
  exact hdecrypt

end

/-- Sealing asks once for the chain's description, and takes the file key, the seed and the
nonce from the pool. Opening asks for the description and for the signature of the round. -/
theorem exists_sealed {info : ChainInfo} (hvalid : info.validate E = .ok ()) {variant : Variant}
    (hvariant : info.scheme.variant = .ok variant) (hhash : info.hash ≠ []) {round : UInt64}
    (hround : round ≠ 0) {key seed : SizedBytes 32} {ct : Ibe.Ciphertext E}
    (hct : Ibe.encryptWith variant info.publicKey (Ibe.roundIdentity round) key.1 seed.1 = .ok ct)
    (hbytes : Ibe.Ciphertext.ofBytes variant ct.bytes = .ok ct) {signature : Bytes}
    (hdecrypt : Ibe.decrypt variant signature ct = .ok key.1) {o : SealOptions}
    (hwidth : 0 < o.width) (nonce : SizedBytes 16) (payload : Bytes) : ∃ out,
      (∀ {σ : Type} {c : Client σ} {client client' : σ} (pool : Bytes),
        c.info client = (.ok info, client') →
        (encryptWith E o round payload).run c
          ⟨client, key.1 ++ (seed.1 ++ (nonce.1 ++ pool))⟩ = (.done out, ⟨client', pool⟩)) ∧
      ∀ {σ : Type} {c : Client σ} {client client' client'' : σ} (pool : Bytes),
        c.info client = (.ok info, client') →
        c.signature round client' = (.answered (.ok signature), client'') →
        (decryptWith E o out).run c ⟨client, pool⟩ = (.done payload, ⟨client'', pool⟩) := by
  let fileKey : FileKey := ⟨key.1, .inr key.2⟩
  have hwords : ∀ s ∈ [Timelock.stanza round info ct], ∀ w ∈ s.tag :: s.args,
      Stanza.checkWord w = .ok () := by
    intro s hs w hw
    rw [List.mem_singleton] at hs
    subst hs
    exact Timelock.checkWord_of_mem_stanza hhash hw
  obtain ⟨mac, hmac⟩ := Envelope.exists_headerMac_iff.2 hwords
  let e : Envelope := ⟨[Timelock.stanza round info ct], mac, nonce,
    Stream.encrypt (Envelope.payloadKey fileKey nonce) payload⟩
  have hne : e.stanzas ≠ [] := List.cons_ne_nil _ _
  obtain ⟨raw, hraw⟩ : ∃ raw, e.bytes = .ok raw := Envelope.exists_bytes hwords
  obtain ⟨out, hunarmored, hout⟩ := exists_output hwidth hraw
  refine ⟨out, ?_, ?_⟩
  · intro σ c client client' pool hinfo
    have hwrap := Timelock.run_wrap hvalid hvariant ⟨round, hround⟩ fileKey
      ⟨seed.1, seed.2.trans key.2.symm⟩ hct hinfo (nonce.1 ++ pool)
    exact run_encryptWith hround hraw hout (Envelope.run_encrypt hwrap hne hmac payload)
  · intro σ c client client' client'' pool hinfo hsignature
    have hunwrap : (Timelock.unwrap E { limit := o.limit } e.stanzas).run c ⟨client, pool⟩ =
        (.done fileKey, ⟨client'', pool⟩) :=
      Timelock.run_unwrap rfl hvalid hvariant hround hbytes hdecrypt hinfo hsignature pool
    exact run_decryptWith hraw hne hunarmored
      (Envelope.run_decrypt_eq_done_iff.2 ⟨fileKey, hunwrap, hmac, rfl⟩)

/-- Sealing for a round of a beacon's chain succeeds, and any client that describes the chain and
serves the round's signature opens the result to the payload. Of the eighty random bytes the
first part is the file key and the second the seed, whose scalar must not vanish. -/
theorem decryptWith_encryptWith (L : E.Laws Member power) (scheme : Scheme) (beaconSeed : Bytes)
    (period genesisTime round : UInt64) (payload : Bytes) (random : SizedBytes 80)
    (o : SealOptions) (hscheme : scheme ≠ .chained)
    (hsecret : (Scalar.ofNat (Bytes.ofBigEndian (Sha256.digest beaconSeed))).val ≠ 0)
    (hperiod : period ≠ 0) (hround : round ≠ 0) (hwidth : 1 ≤ o.width)
    (hidentity : ∀ variant, scheme.variant = .ok variant →
      Ibe.hashIdentity E variant (Ibe.roundIdentity round) ≠ E.identity variant.signatureGroup)
    (hscalar : ∃ r, Ibe.seedScalar ((random.1.drop 32).take 32) (random.1.take 32) = .ok r ∧
      r.val ≠ 0) :
    ∃ (b : LocalBeacon E) (out : Bytes), LocalBeacon.ofSeed scheme beaconSeed = .ok b ∧
      (encryptWith E o round payload).run LocalNode.client
          ⟨LocalNode.ofBeacon b period genesisTime, random.1⟩ =
        (.done out, ⟨LocalNode.ofBeacon b period genesisTime, []⟩) ∧
      ∀ (σ : Type) (c : Client σ) (client client' client'' : σ) (pool : Bytes),
        c.info client = (.ok (b.info period genesisTime), client') →
        c.signature round client' = (.answered (.ok (b.sign round)), client'') →
        (decryptWith E o out).run c ⟨client, pool⟩ = (.done payload, ⟨client'', pool⟩) := by
  obtain ⟨variant, hvariant, hb⟩ := LocalBeacon.exists_ofSeed (E := E) hscheme beaconSeed
  obtain ⟨r, hr, hr0⟩ := hscalar
  have hlen : random.1.length = 80 := random.2
  let key : SizedBytes 32 := ⟨random.1.take 32, by simp [hlen]⟩
  let seed : SizedBytes 32 := ⟨(random.1.drop 32).take 32, by simp [hlen]⟩
  let nonce : SizedBytes 16 := ⟨random.1.drop 64, by simp [hlen]⟩
  have hrandom : random.1 = key.1 ++ (seed.1 ++ (nonce.1 ++ [])) := by
    have hdrop : random.1.drop 64 = (random.1.drop 32).drop 32 := by rw [List.drop_drop]
    simp only [key, seed, nonce]
    rw [List.append_nil, hdrop, List.take_append_drop, List.take_append_drop]
  have hid := L.smul_ne_identity (L.hash_mem _ _ _) (hidentity variant hvariant) hsecret
  have hmessage : 1 ≤ key.1.length ∧ key.1.length ≤ Ibe.padSize := by rw [key.2]; decide
  obtain ⟨ct, hct, hopens, hbytes⟩ := Ibe.exists_encryptWith L hsecret hid hmessage
    (seed.2.trans key.2.symm) hr
  have hhash : ((LocalBeacon.ofSecret E scheme variant (LocalBeacon.secretOf beaconSeed)).info
      period genesisTime).hash ≠ [] := by
    apply List.ne_nil_of_length_pos
    simp [LocalBeacon.info]
  obtain ⟨out, hencrypt, hdecrypt⟩ := exists_sealed
    (LocalBeacon.validate_info L hvariant hsecret hperiod genesisTime) hvariant hhash hround hct
    (hbytes hr0) (Ibe.decrypt_of_opens hopens) hwidth nonce payload
  refine ⟨_, out, hb, ?_, ?_⟩
  · rw [hrandom]
    exact hencrypt [] rfl
  · intro σ c client client' client'' pool hinfo hsignature
    exact hdecrypt pool hinfo hsignature

theorem decryptWith_encryptWith_exponents : ∃ (b : LocalBeacon exponents) (out : Bytes),
    LocalBeacon.ofSeed .unchainedOnG1 LocalBeacon.defaultSeed = .ok b ∧
    ((encryptWith exponents {} 1000 [104, 105]).run LocalNode.client
      ⟨LocalNode.ofBeacon b 3 0, List.replicate 32 1 ++ List.replicate 48 2⟩).1 = .done out ∧
    ((decryptWith exponents {} out).run LocalNode.client
      ⟨LocalNode.ofBeacon b 3 0, []⟩).1 = .done [104, 105] := by
  let random : SizedBytes 80 := ⟨List.replicate 32 1 ++ List.replicate 48 2, rfl⟩
  have hr : Ibe.seedScalar ((random.1.drop 32).take 32) (random.1.take 32) = .ok (Scalar.ofNat
      36224223904676079120785318022599171833472288878015865734041533115418248941847) := by
    decide +kernel
  obtain ⟨b, out, hb, hencrypt, hdecrypt⟩ := decryptWith_encryptWith exponents.laws
    .unchainedOnG1 LocalBeacon.defaultSeed 3 0 1000 [104, 105]
    random {} (by decide) (by decide +kernel)
    (by decide) (by decide) (by decide)
    (fun variant h => by cases h; decide +kernel) ⟨_, hr, by decide⟩
  refine ⟨b, out, hb, congrArg Prod.fst hencrypt, ?_⟩
  exact congrArg Prod.fst (hdecrypt _ LocalNode.client _ _ _ [] rfl rfl)

end Sealing
end BeaconSeal
