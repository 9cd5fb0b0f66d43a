import BeaconSeal.Proofs.Ibe
/-! What decryption makes of a ciphertext under a signature, the right one or another. Main
statement: with the signature on another identity the ciphertext is refused, unless the pads or
the scalars of the two signatures are the same. -/
namespace BeaconSeal.Ibe
variable {E : PairingGroups} {variant : Variant}

namespace Ciphertext

def seedUnder (c : Ciphertext E) (t : E.Target) : Bytes :=
  Bytes.xor c.v (targetPad E t c.v.length)

def messageUnder (c : Ciphertext E) (t : E.Target) : Bytes :=
  Bytes.xor c.w (seedPad (c.seedUnder t) c.v.length)

/-- Different pads uncover different seeds. -/
theorem targetPad_eq_of_seedUnder_eq {c : Ciphertext E} {t t' : E.Target}
    (hv : c.v.length ≤ padSize) (h : c.seedUnder t = c.seedUnder t') :
    targetPad E t c.v.length = targetPad E t' c.v.length :=
  Bytes.xor_left_cancel (length_targetPad t hv).le (length_targetPad t' hv).le h

end Ciphertext

theorem decrypt_eq {signature : Bytes} {c : Ciphertext E} {s : SourcePoint E} {t : E.Target}
    (hlength : c.v.length = c.w.length) (hv : 1 ≤ c.v.length ∧ c.v.length ≤ padSize)
    (hs : SourcePoint.ofBytes variant.signatureGroup signature = .ok s)
    (ht : pairOpening c.u s = .ok t) : decrypt variant signature c =
      seedScalar (c.seedUnder t) (c.messageUnder t) >>= fun r =>
        if E.smul r (E.generator c.u.group) = c.u.point then .ok (c.messageUnder t)
        else .error .integrityCheckFailed := by
  rw [decrypt, if_neg (not_not.2 hlength), checkLength_eq_ok_iff.2 hv, ok_bind, hs, ok_bind, ht,
    ok_bind]
  simp only [Ciphertext.messageUnder, Ciphertext.seedUnder]

/-- The pad of a pairing value is what encryption put on the seed. -/
theorem Opens.under_eq {signature seed message : Bytes} {c : Ciphertext E} {s : SourcePoint E}
    {t : E.Target} (h : Opens variant signature c seed message)
    (hs : SourcePoint.ofBytes variant.signatureGroup signature = .ok s)
    (ht : pairOpening c.u s = .ok t) : c.seedUnder t = seed ∧ c.messageUnder t = message := by
  obtain ⟨s', t', hs', ht', hv⟩ := h.v_eq
  cases hs.symm.trans hs'
  cases ht.symm.trans ht'
  have hseed : c.seedUnder t = seed := by
    have hpad := length_targetPad t h.length_message.2
    have hlen := h.length_seed
    rw [Ciphertext.seedUnder, h.length_v, hv, Bytes.xor_xor_cancel (by omega)]
  refine ⟨hseed, ?_⟩
  have hpad := length_seedPad seed h.length_message.2
  rw [Ciphertext.messageUnder, hseed, h.length_v, h.w_eq, Bytes.xor_xor_cancel (by omega)]

/-- The scalars are compared through the points that they give, which are different for
different scalars. -/
theorem decrypt_of_opens_other (hE : E.FullOrder) {signature signature' seed message : Bytes}
    {c : Ciphertext E} {s' : SourcePoint E} {t' : E.Target}
    (h : Opens variant signature c seed message)
    (hs : SourcePoint.ofBytes variant.signatureGroup signature' = .ok s')
    (ht : pairOpening c.u s' = .ok t') : decrypt variant signature' c =
      seedScalar (c.seedUnder t') (c.messageUnder t') >>= fun r =>
        if seedScalar seed message = .ok r then .ok (c.messageUnder t')
        else .error .integrityCheckFailed := by
  have hlength : c.v.length = c.w.length := h.length_v.trans h.length_w.symm
  rw [decrypt_eq hlength (h.length_v.symm ▸ h.length_message) hs ht]
  obtain ⟨r, hr, hu⟩ := h.u_eq
  refine congrArg _ (funext fun r' => ?_)
  have hiff : E.smul r' (E.generator c.u.group) = c.u.point ↔ seedScalar seed message = .ok r' := by
    rw [hu, hr, Except.ok.injEq]
    constructor
    · intro heq
      exact (hE c.u.group heq).symm
    · intro heq
      rw [heq]
  simp only [hiff]

end BeaconSeal.Ibe
