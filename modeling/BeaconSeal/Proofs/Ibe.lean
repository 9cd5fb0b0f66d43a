import BeaconSeal.Proofs.Bytes
import BeaconSeal.Proofs.Exponents
import BeaconSeal.Proofs.Success
/-! Encryption to an identity. Main statements: a ciphertext decrypts to a message exactly when
it is the encryption of the message under some seed, which fixes both, and what is encrypted
under a key is decrypted with the key's signature on the identity. -/
namespace BeaconSeal.Ibe
variable {E : PairingGroups}

theorem length_targetPad (t : E.Target) {n : Nat} (h : n ≤ padSize) :
    (targetPad E t n).length = n := by
  rw [targetPad, tagged, List.length_take, Sha256.length_digest]
  exact Nat.min_eq_left h

theorem length_seedPad (seed : Bytes) {n : Nat} (h : n ≤ padSize) :
    (seedPad seed n).length = n := by
  rw [seedPad, tagged, List.length_take, Sha256.length_digest]
  exact Nat.min_eq_left h

theorem checkLength_eq_ok_iff {n : Nat} : checkLength n = .ok () ↔ 1 ≤ n ∧ n ≤ padSize := by
  unfold checkLength
  by_cases h : n = 0 ∨ n > padSize
  · simp only [h, if_true, reduceCtorEq, false_iff]
    omega
  · simp only [h, if_false, true_iff]
    omega

/-- The ciphertext is the encryption of the message under the seed, as seen with the
signature: its point is the scalar of the two, and its halves are the two under their pads. -/
structure Opens (variant : Variant) (signature : Bytes) (c : Ciphertext E)
    (seed message : Bytes) : Prop where
  length_message : 1 ≤ message.length ∧ message.length ≤ padSize
  length_seed : seed.length = message.length
  u_eq : ∃ r, seedScalar seed message = .ok r ∧
    c.u.point = E.smul r (E.generator c.u.group)
  v_eq : ∃ s target, SourcePoint.ofBytes variant.signatureGroup signature = .ok s ∧
    pairOpening c.u s = .ok target ∧ c.v = Bytes.xor seed (targetPad E target message.length)
  w_eq : c.w = Bytes.xor message (seedPad seed message.length)

namespace Opens
variable {variant : Variant} {signature seed message : Bytes} {c : Ciphertext E}
  (h : Opens variant signature c seed message)
include h

theorem length_v : c.v.length = message.length := by
  obtain ⟨s, t, _, _, hv⟩ := h.v_eq
  rw [hv, Bytes.length_xor, length_targetPad t h.length_message.2, h.length_seed, Nat.min_self]

theorem length_w : c.w.length = message.length := by
  rw [h.w_eq, Bytes.length_xor, length_seedPad seed h.length_message.2, Nat.min_self]

end Opens

theorem exists_opens_of_decrypt {variant : Variant} {signature message : Bytes}
    {c : Ciphertext E} (h : decrypt variant signature c = .ok message) :
    ∃ seed, Opens variant signature c seed message := by
  unfold decrypt at h
  split at h
  · cases h
  next hvw =>
  rw [Decidable.not_not] at hvw
  simp only [bind_eq_ok_iff] at h
  obtain ⟨_, hlen, s, hs, t, ht, r, hr, h⟩ := h
  split at h
  next hu =>
    have hn := checkLength_eq_ok_iff.1 hlen
    have htarget := length_targetPad t hn.2
    generalize hseed : Bytes.xor c.v (targetPad E t c.v.length) = seed at hr h
    have hpad := length_seedPad seed hn.2
    generalize hmessage : Bytes.xor c.w (seedPad seed c.v.length) = m at hr h
    cases h
    have hlseed : seed.length = c.v.length := by
      rw [← hseed, Bytes.length_xor, htarget, Nat.min_self]
    have hlmessage : message.length = c.v.length := by
      rw [← hmessage, Bytes.length_xor, hpad, ← hvw, Nat.min_self]
    refine ⟨seed, ⟨by rw [hlmessage]; exact hn, by rw [hlseed, hlmessage], ⟨r, hr, hu.symm⟩,
      ⟨s, t, hs, ht, ?_⟩, ?_⟩⟩
    · rw [hlmessage, ← hseed, Bytes.xor_xor_cancel (by omega)]
    · rw [hlmessage, ← hmessage, Bytes.xor_xor_cancel (by omega)]
  · cases h

theorem decrypt_of_opens {variant : Variant} {signature seed message : Bytes}
    {c : Ciphertext E} (h : Opens variant signature c seed message) :
    decrypt variant signature c = .ok message := by
  obtain ⟨r, hr, hu⟩ := h.u_eq
  obtain ⟨s, t, hs, ht, hv⟩ := h.v_eq
  have hn := h.length_message
  have hseed : Bytes.xor c.v (targetPad E t message.length) = seed := by
    have hpad := length_targetPad t hn.2
    have hlen := h.length_seed
    rw [hv, Bytes.xor_xor_cancel (by omega)]
  have hmessage : Bytes.xor c.w (seedPad seed message.length) = message := by
    have hpad := length_seedPad seed hn.2
    rw [h.w_eq, Bytes.xor_xor_cancel (by omega)]
  rw [decrypt, h.length_v, h.length_w, if_neg (fun hne => hne rfl)]
  refine bind_eq_ok_iff.2 ⟨(), checkLength_eq_ok_iff.2 hn, ?_⟩
  refine bind_eq_ok_iff.2 ⟨s, hs, bind_eq_ok_iff.2 ⟨t, ht, ?_⟩⟩
  dsimp only
  rw [hseed, hmessage]
  exact bind_eq_ok_iff.2 ⟨r, hr, if_pos hu.symm⟩

theorem decrypt_eq_ok_iff {variant : Variant} {signature message : Bytes} {c : Ciphertext E} :
    decrypt variant signature c = .ok message ↔
      ∃ seed, Opens variant signature c seed message := by
  constructor
  · exact exists_opens_of_decrypt
  · intro h
    obtain ⟨seed, h⟩ := h
    exact decrypt_of_opens h

theorem pointSize_injective : Function.Injective SourceGroup.pointSize := by
  intro g g' h
  cases g <;> cases g' <;> first | rfl | exact absurd h (by decide)

theorem size_and_group_of_ofBytes {g : SourceGroup} {b : Bytes} {s : SourcePoint E}
    (h : SourcePoint.ofBytes g b = .ok s) : b.length = g.pointSize ∧ s.group = g := by
  obtain ⟨p, hp, rfl⟩ := map_eq_ok_iff.1 h
  exact ⟨(PairingGroups.read_eq_ok_iff.1 hp).1, rfl⟩

theorem group_of_pairOpening {u s : SourcePoint E} {t : E.Target} (h : pairOpening u s = .ok t) :
    u.group = s.group.opposite := by
  obtain ⟨g, p⟩ := u
  obtain ⟨g', q⟩ := s
  cases g <;> cases g' <;> first | rfl | cases h

namespace Opens
variable {variant variant' : Variant} {signature signature' : Bytes} {c c' : Ciphertext E}
  {seed seed' message message' : Bytes}

theorem scalar_eq (hE : E.FullOrder) (h : Opens variant signature c seed message)
    (h' : Opens variant' signature' c' seed' message') (hu : c.u = c'.u) :
    seedScalar seed message = seedScalar seed' message' := by
  obtain ⟨r, hr, hp⟩ := h.u_eq
  obtain ⟨r', hr', hp'⟩ := h'.u_eq
  rw [← hu, hp] at hp'
  have hrr : r = r' := hE c.u.group hp'
  rw [hr, hr', hrr]

/-- Seed and message have one length, so that their concatenation can be divided in one
way only. -/
theorem pair_eq_of_append_eq (h : Opens variant signature c seed message)
    (h' : Opens variant' signature' c' seed' message')
    (happend : seed ++ message = seed' ++ message') : (seed, message) = (seed', message') := by
  have hlen := congrArg List.length happend
  have hl := h.length_seed
  have hl' := h'.length_seed
  simp only [List.length_append] at hlen
  obtain ⟨hs, hm⟩ := List.append_inj happend (by omega)
  rw [hs, hm]

theorem group_eq (h : Opens variant signature c seed message) :
    c.u.group = variant.signatureGroup.opposite := by
  obtain ⟨s, t, hs, ht, _⟩ := h.v_eq
  rw [group_of_pairOpening ht, (size_and_group_of_ofBytes hs).2]

theorem u_eq_smul (h : Opens variant signature c seed message) :
    ∃ r, seedScalar seed message = .ok r ∧
      c.u = ⟨variant.keyGroup, E.smul r (E.generator variant.keyGroup)⟩ := by
  obtain ⟨r, hr, hu⟩ := h.u_eq
  have hgroup : c.u.group = variant.keyGroup := by
    rw [h.group_eq]
    cases variant <;> rfl
  refine ⟨r, hr, ?_⟩
  -- The type of the point depends on its group.
  obtain ⟨⟨g, u⟩, v, w⟩ := c
  dsimp only at hgroup hu
  subst hgroup
  rw [hu]

/-- The length of a signature tells its group. -/
theorem signatureGroup_eq (h : Opens variant signature c seed message)
    (h' : Opens variant' signature c' seed' message') :
    variant.signatureGroup = variant'.signatureGroup := by
  obtain ⟨s, t, hs, _⟩ := h.v_eq
  obtain ⟨s', t', hs', _⟩ := h'.v_eq
  have hsize := (size_and_group_of_ofBytes hs).1
  have hsize' := (size_and_group_of_ofBytes hs').1
  exact pointSize_injective (hsize.symm.trans hsize')

theorem point_eq (h : Opens variant signature c seed message)
    (h' : Opens variant' signature c' seed message) : c.u = c'.u := by
  -- The type of a point depends on its group, so the groups have to agree first.
  have hgroup : c.u.group = c'.u.group := by
    rw [h.group_eq, h'.group_eq, h.signatureGroup_eq h']
  obtain ⟨r, hr, hu⟩ := h.u_eq
  obtain ⟨r', hr', hu'⟩ := h'.u_eq
  cases hr.symm.trans hr'
  obtain ⟨⟨g, p⟩, v, w⟩ := c
  obtain ⟨⟨g', p'⟩, v', w'⟩ := c'
  dsimp only at hgroup hu hu'
  subst hgroup
  rw [hu, hu']

theorem target_unique (h : Opens variant signature c seed message)
    (h' : Opens variant' signature c' seed' message') (hu : c.u = c'.u) :
    ∃ t : E.Target, c.v = Bytes.xor seed (targetPad E t message.length) ∧
      c'.v = Bytes.xor seed' (targetPad E t message'.length) := by
  obtain ⟨s, t, hs, ht, hv⟩ := h.v_eq
  obtain ⟨s', t', hs', ht', hv'⟩ := h'.v_eq
  rw [← h.signatureGroup_eq h', hs] at hs'
  cases hs'
  rw [← hu, ht] at ht'
  cases ht'
  exact ⟨t, hv, hv'⟩

/-- A seed and a message have one ciphertext that the signature opens. -/
theorem ciphertext_eq (h : Opens variant signature c seed message)
    (h' : Opens variant' signature c' seed message) : c = c' := by
  have hu := h.point_eq h'
  obtain ⟨t, hv, hv'⟩ := h.target_unique h' hu
  have hw := h.w_eq.trans h'.w_eq.symm
  obtain ⟨u, v, w⟩ := c
  obtain ⟨u', v', w'⟩ := c'
  dsimp only at hu hv hv' hw
  rw [hu, hv, hv', hw]

/-- The pads leave no choice of the seed and the message. -/
theorem pair_eq (h : Opens variant signature c seed message)
    (h' : Opens variant signature c seed' message') : (seed, message) = (seed', message') := by
  have hlen : message.length = message'.length := h.length_v.symm.trans h'.length_v
  obtain ⟨t, hv, hv'⟩ := h.target_unique h' rfl
  have hseed : seed = seed' := by
    have hpad := length_targetPad t h.length_message.2
    have hl := h.length_seed
    have hl' := h'.length_seed
    rw [← hlen, hv] at hv'
    exact Bytes.xor_right_cancel (by omega) (by omega) hv'
  subst hseed
  have hmessage : message = message' := by
    have hpad := length_seedPad seed h.length_message.2
    have hw := h'.w_eq
    rw [← hlen, h.w_eq] at hw
    exact Bytes.xor_right_cancel (by omega) (by omega) hw
  rw [hmessage]

end Opens

/-- No ciphertext is decrypted to anything but the message it is the encryption of, and that
message stays with its opening point: another signature or other halves give the same seed and
message, or else two inputs of one scalar. -/
theorem decrypt_committing (hE : E.FullOrder) :
    (∀ (variant : Variant) (signature : Bytes) (c : Ciphertext E) (message : Bytes),
      decrypt variant signature c = .ok message ↔
        ∃ seed, Opens variant signature c seed message) ∧
    (∀ (variant : Variant) (signature : Bytes) (c : Ciphertext E) (seed message : Bytes),
      Opens variant signature c seed message →
        c.v.length = message.length ∧ c.w.length = message.length ∧
        ∀ seed' message', Opens variant signature c seed' message' →
          (seed, message) = (seed', message')) ∧
    ∀ (variant variant' : Variant) (signature signature' : Bytes) (c c' : Ciphertext E)
      (seed message seed' message' : Bytes), Opens variant signature c seed message →
        Opens variant' signature' c' seed' message' →
        (c.u = c'.u → (seed, message) = (seed', message') ∨
          (seed ++ message ≠ seed' ++ message' ∧
            seedScalar seed message = seedScalar seed' message')) ∧
        (signature = signature' → c ≠ c' → (seed, message) ≠ (seed', message')) := by
  refine ⟨fun variant signature c message => decrypt_eq_ok_iff, ?_, ?_⟩
  · intro variant signature c seed message h
    exact ⟨h.length_v, h.length_w, fun seed' message' h' => h.pair_eq h'⟩
  · intro variant variant' signature signature' c c' seed message seed' message' h h'
    constructor
    · intro hu
      by_cases happend : seed ++ message = seed' ++ message'
      · exact .inl (h.pair_eq_of_append_eq h' happend)
      · exact .inr ⟨happend, h.scalar_eq hE h' hu⟩
    · intro hsignature hne hpair
      subst hsignature
      cases hpair
      exact hne (h.ciphertext_eq h')

theorem decrypt_committing_exponents : exponents.FullOrder ∧
    ∃ seed, Opens (E := exponents) .keyOnG1 (Bytes.bigEndian 96 5)
      ⟨⟨.g1, Scalar.ofNat
        17010968493301646725176358693147888506472423432671613960530188463072852930234⟩,
        [46, 94], [62, 111]⟩ seed [104, 105] := by
  refine ⟨exponents.fullOrder, ?_⟩
  have h := (decrypt_committing exponents.fullOrder).1
  exact (h _ _ _ _).1 (by decide +kernel)

theorem ofBytes_bytes {variant : Variant} {c : Ciphertext E}
    (hu : SourcePoint.ofBytes variant.keyGroup c.u.bytes = .ok c.u)
    (hv : 1 ≤ c.v.length ∧ c.v.length ≤ padSize) (hw : c.w.length = c.v.length) :
    Ciphertext.ofBytes variant c.bytes = .ok c := by
  have hsize := (size_and_group_of_ofBytes hu).1
  have hbytes : c.bytes = c.u.bytes ++ (c.v ++ c.w) := by
    rw [Ciphertext.bytes, List.append_assoc]
  have hrest : c.bytes.drop variant.keyGroup.pointSize = c.v ++ c.w := by
    rw [hbytes, List.drop_left' hsize]
  have hhalf : (c.v ++ c.w).length/2 = c.v.length := by
    rw [List.length_append]
    omega
  unfold Ciphertext.ofBytes
  dsimp only
  rw [hrest, hhalf, if_neg, if_neg]
  · rw [hbytes, List.take_left' hsize, hu, List.take_left' rfl, List.drop_left' rfl, Except.map]
  · rw [List.length_append]
    omega
  · rw [hbytes, List.length_append, List.length_append]
    omega

section
variable {Member : (g : SourceGroup) → E.Point g → Prop} {power : Scalar → E.Target → E.Target}
  {variant : Variant} {s : Scalar} {identity message seed : Bytes}

theorem pairOpening_eq (u : E.Point variant.keyGroup) (q : E.Point variant.signatureGroup) :
    pairOpening ⟨variant.keyGroup, u⟩ ⟨variant.signatureGroup, q⟩ =
      .ok (E.pairAcross variant.keyGroup u q) := by
  cases variant <;> rfl

/-- The signature opens what was encrypted to the identity, and the ciphertext is read back
from its bytes, unless the scalar of seed and message is zero. -/
theorem exists_encryptWith (L : E.Laws Member power) (hs : s.val ≠ 0)
    (hid : E.smul s (hashIdentity E variant identity) ≠ E.identity variant.signatureGroup)
    (hmessage : 1 ≤ message.length ∧ message.length ≤ padSize)
    (hseed : seed.length = message.length) {r : Scalar} (hr : seedScalar seed message = .ok r) :
    ∃ c : Ciphertext E,
      encryptWith variant (E.compress (E.smul s (E.generator variant.keyGroup))) identity
        message seed = .ok c ∧
      Opens variant (E.compress (E.smul s (hashIdentity E variant identity))) c seed message ∧
      (r.val ≠ 0 → Ciphertext.ofBytes variant c.bytes = .ok c) := by
  have hG := L.generator_mem variant.keyGroup
  have hH : Member variant.signatureGroup (hashIdentity E variant identity) :=
    L.hash_mem _ _ _
  have hkey := L.read_compress (L.smul_mem s hG)
    (L.smul_ne_identity hG (L.generator_ne_identity _) hs)
  have hopens : Opens (E := E) variant (E.compress (E.smul s (hashIdentity E variant identity)))
      ⟨⟨variant.keyGroup, E.smul r (E.generator variant.keyGroup)⟩,
        Bytes.xor seed (targetPad E (E.pairAcross variant.keyGroup
          (E.smul r (E.smul s (E.generator variant.keyGroup)))
          (hashIdentity E variant identity)) seed.length),
        Bytes.xor message (seedPad seed message.length)⟩ seed message := {
    length_message := hmessage
    length_seed := hseed
    u_eq := ⟨r, hr, rfl⟩
    v_eq := by
      refine ⟨_, _, L.ofBytes_compress (L.smul_mem s hH) hid, pairOpening_eq _ _, ?_⟩
      rw [hseed, L.pairAcross_smul_smul r s hG hH]
      rfl
    w_eq := rfl }
  refine ⟨_, ?_, hopens, fun hr0 => ?_⟩
  · refine bind_eq_ok_iff.2 ⟨(), checkLength_eq_ok_iff.2 hmessage, ?_⟩
    exact bind_eq_ok_iff.2 ⟨_, hkey, bind_eq_ok_iff.2 ⟨r, hr, rfl⟩⟩
  · refine ofBytes_bytes ?_ (hopens.length_v.symm ▸ hmessage)
      (hopens.length_w.trans hopens.length_v.symm)
    exact L.ofBytes_compress (L.smul_mem r hG)
      (L.smul_ne_identity hG (L.generator_ne_identity _) hr0)

/-- Only the search for a scalar can fail. -/
theorem encryptWith_eq_error (L : E.Laws Member power) (hs : s.val ≠ 0)
    (hmessage : 1 ≤ message.length ∧ message.length ≤ padSize) {fault : Fault}
    (hr : seedScalar seed message = .error fault) :
    encryptWith (E := E) variant (E.compress (E.smul s (E.generator variant.keyGroup))) identity
      message seed = .error fault := by
  have hG := L.generator_mem variant.keyGroup
  have hkey := L.read_compress (L.smul_mem s hG)
    (L.smul_ne_identity hG (L.generator_ne_identity _) hs)
  rw [encryptWith, checkLength_eq_ok_iff.2 hmessage, hkey, hr]
  rfl

/-- What is encrypted to an identity under the key of a secret is decrypted with the secret's
signature on the identity. -/
theorem decrypt_encryptWith (L : E.Laws Member power) (variant : Variant) (s : Scalar)
    (identity message seed : Bytes) (hs : s.val ≠ 0)
    (hid : E.smul s (hashIdentity E variant identity) ≠ E.identity variant.signatureGroup)
    (hmessage : 1 ≤ message.length ∧ message.length ≤ 32)
    (hseed : seed.length = message.length) :
    (∀ fault, seedScalar seed message = .error fault →
      encryptWith (E := E) variant (E.compress (E.smul s (E.generator variant.keyGroup)))
        identity message seed = .error fault) ∧
    ∀ r, seedScalar seed message = .ok r → ∃ c : Ciphertext E,
      encryptWith variant (E.compress (E.smul s (E.generator variant.keyGroup))) identity
        message seed = .ok c ∧
      decrypt variant (E.compress (E.smul s (hashIdentity E variant identity))) c =
        .ok message ∧
      c.v.length = message.length ∧ c.w.length = message.length ∧
      (r.val ≠ 0 → Ciphertext.ofBytes variant c.bytes = .ok c) := by
  refine ⟨fun fault hr => encryptWith_eq_error L hs hmessage hr, fun r hr => ?_⟩
  obtain ⟨c, hc, hopens, hbytes⟩ := exists_encryptWith L hs hid hmessage hseed hr
  exact ⟨c, hc, decrypt_of_opens hopens, hopens.length_v, hopens.length_w, hbytes⟩

theorem decrypt_encryptWith_exponents : ∃ c : Ciphertext exponents,
    encryptWith .keyOnG2 (exponents.compress (exponents.smul (Scalar.ofNat 5)
      (exponents.generator .g2))) [7] [104, 105] [1, 2] = .ok c ∧
    decrypt .keyOnG2 (exponents.compress (exponents.smul (Scalar.ofNat 5)
      (hashIdentity exponents .keyOnG2 [7]))) c = .ok [104, 105] ∧
    Ciphertext.ofBytes .keyOnG2 c.bytes = .ok c := by
  have hr : seedScalar [1, 2] [104, 105] = .ok (Scalar.ofNat
      17010968493301646725176358693147888506472423432671613960530188463072852930234) := by
    decide +kernel
  obtain ⟨c, hc, hdecrypt, _, _, hbytes⟩ := (decrypt_encryptWith exponents.laws .keyOnG2
    (Scalar.ofNat 5) [7] [104, 105] [1, 2] (by decide) (by decide +kernel) (by decide)
    (by decide)).2 _ hr
  exact ⟨c, hc, hdecrypt, hbytes (by decide)⟩

end

end BeaconSeal.Ibe
