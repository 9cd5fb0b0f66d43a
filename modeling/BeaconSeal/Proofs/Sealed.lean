import BeaconSeal.Proofs.Sealing
import BeaconSeal.Proofs.Usable
/-! What a successful sealing leaves behind. Main statement: the description was valid, the
random bytes are the file key and the seed of the ciphertext in the one stanza, and with the same
line width the output is opened as the envelope of that stanza. -/
namespace BeaconSeal
variable {E : PairingGroups} {σ : Type} {c : Client σ} {s s' : World σ}

namespace Ibe
variable {variant : Variant} {publicKey identity message seed : Bytes} {ct : Ciphertext E}

/-- Encryption gives a ciphertext when the message has a length in bounds, the key is read, and
the scalar of seed and message is found. -/
theorem exists_encryptWith_iff :
    (∃ ct : Ciphertext E, encryptWith variant publicKey identity message seed = .ok ct) ↔
      (1 ≤ message.length ∧ message.length ≤ padSize) ∧
      (∃ p, E.read variant.keyGroup publicKey = .ok p) ∧
      ∃ r, seedScalar seed message = .ok r := by
  rw [← checkLength_eq_ok_iff]
  constructor
  · intro h
    obtain ⟨ct, h⟩ := h
    obtain ⟨⟨⟩, hlength, h⟩ := bind_eq_ok_iff.1 h
    obtain ⟨p, hp, h⟩ := bind_eq_ok_iff.1 h
    obtain ⟨r, hr, _⟩ := bind_eq_ok_iff.1 h
    exact ⟨hlength, ⟨p, hp⟩, r, hr⟩
  · intro h
    obtain ⟨hlength, ⟨p, hp⟩, r, hr⟩ := h
    exact ⟨_, bind_eq_ok_iff.2 ⟨(), hlength,
      bind_eq_ok_iff.2 ⟨p, hp, bind_eq_ok_iff.2 ⟨r, hr, rfl⟩⟩⟩⟩

theorem exists_of_run_encrypt
    (h : (encrypt variant publicKey identity message).run c s = (.done ct, s')) :
    ∃ seed : SizedBytes message.length, s = ⟨s'.client, seed.1 ++ s'.pool⟩ ∧
      encryptWith variant publicKey identity message seed.1 = .ok ct := by
  obtain ⟨⟨⟩, t, hlength, h⟩ := Dialogue.run_bind_eq_done_iff.1 h
  obtain ⟨_, rfl⟩ := Dialogue.run_ofExcept_eq_done_iff.1 hlength
  obtain ⟨seed, t, hdraw, h⟩ := Dialogue.run_bind_eq_done_iff.1 h
  obtain ⟨hct, rfl⟩ := Dialogue.run_ofExcept_eq_done_iff.1 h
  exact ⟨seed, Dialogue.eq_of_run_draw hdraw, hct⟩

end Ibe

namespace Timelock
variable {info : ChainInfo} {round : UInt64}

theorem Recipient.of_ofRound {r : Recipient} (h : Recipient.ofRound round = .ok r) :
    round ≠ 0 ∧ r.round = round := by
  rw [Recipient.ofRound] at h
  split at h
  · cases h
  next hround =>
    cases h
    exact ⟨hround, rfl⟩

theorem of_run_fetchInfo (h : (fetchInfo E round).run c s = (.done info, s')) :
    c.info s.client = (.ok info, s'.client) ∧ info.validate E = .ok () ∧ s'.pool = s.pool := by
  rw [fetchInfo, Dialogue.run] at h
  cases hanswer : c.info s.client with
  | mk r client =>
    rw [hanswer] at h
    cases r with
    | error e => cases h
    | ok info' =>
      obtain ⟨hmap, rfl⟩ := Dialogue.run_ofExcept_eq_done_iff.1 h
      obtain ⟨⟨⟩, hvalid, rfl⟩ := map_eq_ok_iff.1 hmap
      exact ⟨rfl, hvalid, rfl⟩

theorem exists_of_run_wrap {r : Recipient} {key : FileKey} {stanzas : List Stanza}
    (h : (wrap E r key).run c s = (.done stanzas, s')) :
    ∃ (info : ChainInfo) (variant : Variant) (seed : SizedBytes key.bytes.length)
      (ct : Ibe.Ciphertext E), (c.info s.client).1 = .ok info ∧ info.validate E = .ok () ∧
      info.scheme.variant = .ok variant ∧ s.pool = seed.1 ++ s'.pool ∧
      Ibe.encryptWith variant info.publicKey (Ibe.roundIdentity r.round) key.bytes seed.1 =
        .ok ct ∧ stanzas = [stanza r.round info ct] := by
  obtain ⟨info, t, hinfo, h⟩ := Dialogue.run_bind_eq_done_iff.1 h
  obtain ⟨hanswer, hvalid, hpool⟩ := of_run_fetchInfo hinfo
  obtain ⟨variant, t', hscheme, h⟩ := Dialogue.run_bind_eq_done_iff.1 h
  obtain ⟨hvariant, rfl⟩ := Dialogue.run_ofExcept_eq_done_iff.1 hscheme
  obtain ⟨ct, t', hencrypt, h⟩ := Dialogue.run_bind_eq_done_iff.1 h
  obtain ⟨seed, hseed, hct⟩ := Ibe.exists_of_run_encrypt (Dialogue.done_of_run_mapError hencrypt)
  cases h
  refine ⟨info, variant, seed, ct, ?_, hvalid, hvariant, ?_, hct, rfl⟩
  · rw [hanswer]
  · rw [← hpool, hseed]

end Timelock

namespace Sealing
variable {o : SealOptions} {round : UInt64} {payload out : Bytes}

theorem decryptWith_eq {e : Envelope} {raw : Bytes} (h : unarmored o.width out = .ok raw)
    (hread : Envelope.ofBytes raw = .ok e) :
    decryptWith E o out = e.decrypt (Timelock.unwrap E { limit := o.limit }) := by
  rw [decryptWith, h]
  change (Dialogue.ofExcept Error.malformedHeader (Envelope.ofBytes raw)).bind _ = _
  rw [hread]
  rfl

/-- What is written out is taken back as the bytes of the envelope. -/
theorem unarmored_of_output {e : Envelope} {raw : Bytes} (hraw : e.bytes = .ok raw)
    (h : (if o.armor then
        Dialogue.ofExcept Error.armor ((Armor.encode o.width raw).map Text.utf8)
      else .done raw).run c s = (.done out, s')) : unarmored o.width out = .ok raw ∧ s = s' := by
  split at h
  · obtain ⟨hout, rfl⟩ := Dialogue.run_ofExcept_eq_done_iff.1 h
    obtain ⟨t, ht, rfl⟩ := map_eq_ok_iff.1 hout
    exact ⟨unarmored_of_encode ht, rfl⟩
  · cases h
    exact ⟨unarmored_bytes hraw o.width, rfl⟩

/-- The file key is the front of the random bytes, and the seed of the ciphertext comes next. -/
theorem exists_of_run_encryptWith {client : σ} {pool : Bytes}
    (h : (encryptWith E o round payload).run c ⟨client, pool⟩ = (.done out, s')) :
    round ≠ 0 ∧ ∃ (info : ChainInfo) (variant : Variant) (key : FileKey) (ct : Ibe.Ciphertext E)
      (e : Envelope), (c.info client).1 = .ok info ∧ info.validate E = .ok () ∧
      info.scheme.variant = .ok variant ∧ key.bytes = pool.take 32 ∧ key.bytes.length = 32 ∧
      ((pool.drop 32).take 32).length = 32 ∧
      Ibe.encryptWith variant info.publicKey (Ibe.roundIdentity round) key.bytes
        ((pool.drop 32).take 32) = .ok ct ∧
      e.stanzas = [Timelock.stanza round info ct] ∧ e.Usable key payload ∧
      ∀ o' : SealOptions, o'.width = o.width →
        decryptWith E o' out = e.decrypt (Timelock.unwrap E { limit := o'.limit }) := by
  obtain ⟨raw, t, henvelope, hout⟩ := Dialogue.run_bind_eq_done_iff.1 h
  obtain ⟨r, t', hchecked, henvelope⟩ := Dialogue.run_bind_eq_done_iff.1 henvelope
  obtain ⟨hrecipient, rfl⟩ := Dialogue.run_ofExcept_eq_done_iff.1 hchecked
  obtain ⟨e, t', hencrypt, hbytes⟩ := Dialogue.run_bind_eq_done_iff.1 henvelope
  obtain ⟨hraw, rfl⟩ := Dialogue.run_ofExcept_eq_done_iff.1 hbytes
  obtain ⟨hunarmored, _⟩ := unarmored_of_output hraw hout
  obtain ⟨hround, hr⟩ := Timelock.Recipient.of_ofRound hrecipient
  rcases Envelope.run_encrypt_cases c _ payload (Timelock.wrap E r) with
    ⟨error, t, hfail⟩ | ⟨key, rest, hkey, hpool, ⟨t, _, hwait⟩ | ⟨e', t, t', hwrap, hdone, husable⟩⟩
  · rw [hfail] at hencrypt
    cases hencrypt
  · rw [hwait] at hencrypt
    cases hencrypt
  · rw [hdone] at hencrypt
    cases hencrypt
    obtain ⟨info, variant, seed, ct, hinfo, hvalid, hvariant, hseed, hct, hstanzas⟩ :=
      Timelock.exists_of_run_wrap hwrap
    obtain rfl : pool = key.bytes ++ rest := hpool
    obtain rfl : rest = seed.1 ++ t.pool := hseed
    have hlength : seed.1.length = 32 := seed.2.trans hkey
    rw [hr] at hct hstanzas
    rw [List.take_left' hkey, List.drop_left' hkey, List.take_left' hlength]
    refine ⟨hround, info, variant, key, ct, e, hinfo, hvalid, hvariant, rfl, hkey, hlength, hct,
      hstanzas, husable, fun o' hwidth => ?_⟩
    obtain ⟨b, hb, hread⟩ := husable.readable
    cases hraw.symm.trans hb
    exact decryptWith_eq (hwidth ▸ hunarmored) hread

end Sealing
end BeaconSeal
