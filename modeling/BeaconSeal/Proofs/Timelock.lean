import BeaconSeal.Proofs.Dialogue
import BeaconSeal.Proofs.Digits
import BeaconSeal.Proofs.Success
import BeaconSeal.Timelock
/-! Wrapping a file key, against a client that answers. Main statement: the result is one stanza,
with the round, the chain and the ciphertext. -/
namespace BeaconSeal
variable {E : PairingGroups} {σ : Type} {c : Client σ}

namespace Ibe

theorem run_encrypt {variant : Variant} {publicKey identity message pool : Bytes}
    {seed : SizedBytes message.length} {ct : Ciphertext E} {client : σ}
    (hct : encryptWith variant publicKey identity message seed.1 = .ok ct) :
    (encrypt variant publicKey identity message).run c ⟨client, seed.1 ++ pool⟩ =
      (.done ct, ⟨client, pool⟩) := by
  have hlength : checkLength message.length = .ok () := by
    obtain ⟨⟨⟩, h, _⟩ := bind_eq_ok_iff.1 hct
    exact h
  rw [encrypt, Dialogue.run_ofExcept_bind_ok hlength,
    Dialogue.run_bind_of_done (Dialogue.run_draw Fault.randomness seed pool client), hct]
  rfl

end Ibe

namespace Timelock

def stanza (round : UInt64) (info : ChainInfo) (ct : Ibe.Ciphertext E) : Stanza :=
  ⟨tag, [Text.ofNat round.toNat, info.hashHex], ct.bytes⟩

theorem checkWord_of_mem_stanza {round : UInt64} {info : ChainInfo} (h : info.hash ≠ [])
    {ct : Ibe.Ciphertext E} {w : Text}
    (hw : w ∈ (stanza round info ct).tag :: (stanza round info ct).args) :
    Stanza.checkWord w = .ok () := by
  simp only [stanza, List.mem_cons, List.not_mem_nil, or_false] at hw
  rcases hw with rfl | rfl | rfl
  · decide
  · exact Stanza.checkWord_ofNat _
  · exact Stanza.checkWord_hex h

theorem Recipient.ofRound_eq {round : UInt64} (hround : round ≠ 0) :
    ofRound round = .ok ⟨round, hround⟩ :=
  dif_neg hround

theorem run_fetchInfo {info : ChainInfo} (hvalid : info.validate E = .ok ()) {client client' : σ}
    (hinfo : c.info client = (.ok info, client')) (round : UInt64) (pool : Bytes) :
    (fetchInfo E round).run c ⟨client, pool⟩ = (.done info, ⟨client', pool⟩) := by
  simp [fetchInfo, Dialogue.run, hinfo, hvalid, Except.map, Dialogue.ofExcept]

theorem run_wrap {info : ChainInfo} (hvalid : info.validate E = .ok ()) {variant : Variant}
    (hvariant : info.scheme.variant = .ok variant) (r : Recipient) (key : FileKey)
    (seed : SizedBytes key.bytes.length) {ct : Ibe.Ciphertext E}
    (hct : Ibe.encryptWith variant info.publicKey (Ibe.roundIdentity r.round) key.bytes seed.1 =
      .ok ct) {client client' : σ} (hinfo : c.info client = (.ok info, client')) (pool : Bytes) :
    (wrap E r key).run c ⟨client, seed.1 ++ pool⟩ =
      (.done [stanza r.round info ct], ⟨client', pool⟩) := by
  rw [wrap, Dialogue.run_bind_of_done (run_fetchInfo hvalid hinfo _ _),
    Dialogue.run_ofExcept_bind_ok hvariant,
    Dialogue.run_bind_of_done (Dialogue.run_mapError_of_done (Ibe.run_encrypt hct) _)]
  rfl

end Timelock
end BeaconSeal
