import BeaconSeal.Proofs.Opening
/-! What the authentication code of a header binds. Main statement: the bytes that it covers tell
all lists of stanzas apart, and none begins with those of another list; so two envelopes that are
opened under one key with one code have the same stanzas, or the code has a collision. -/
namespace BeaconSeal.Header
open Stanza

/-- No stanza's text begins with another one's. -/
theorem eq_of_render_append {s s' : Stanza} {t t' : Text} {rest rest' : Bytes}
    (ht : s.render = .ok t) (ht' : s'.render = .ok t')
    (h : Text.utf8 t ++ rest = Text.utf8 t' ++ rest') : s = s' ∧ rest = rest' := by
  obtain ⟨words, r, hline, hs⟩ := stanza_line_iff.2 ⟨t, ht, rfl⟩
  obtain ⟨words', r', hline', hs'⟩ := stanza_line_iff.2 ⟨t', ht', h⟩
  obtain ⟨hwords, rfl⟩ := Prod.mk.inj (Except.ok.inj (hline.symm.trans hline'))
  cases List.append_cancel_left hwords
  cases hs.symm.trans hs'
  exact ⟨rfl, rfl⟩

/-- The second byte tells a stanza from the marker. -/
theorem render_append_ne_marker {s : Stanza} {t : Text} (ht : s.render = .ok t)
    (rest rest' : Bytes) : Text.utf8 t ++ rest ≠ Text.utf8 marker ++ rest' := by
  obtain ⟨_, rfl⟩ := Stanza.render_eq_ok_iff.1 ht
  have hdash : String.utf8EncodeChar '-' = [45] := by decide
  have hangle : String.utf8EncodeChar '>' = [62] := by decide
  simp [firstLine, arrow, marker, Text.utf8_cons, hdash, hangle]

theorem eq_of_blocks_append {ss ss' : List Stanza} {blocks blocks' : List Text}
    {rest rest' : Bytes} (hblocks : ss.mapM Stanza.render = .ok blocks)
    (hblocks' : ss'.mapM Stanza.render = .ok blocks')
    (h : Text.utf8 blocks.flatten ++ (Text.utf8 marker ++ rest) =
      Text.utf8 blocks'.flatten ++ (Text.utf8 marker ++ rest')) : ss = ss' := by
  -- What follows the markers is left open, so that prefixes are covered.
  induction ss generalizing ss' blocks blocks' with
  | nil =>
    cases hblocks
    cases ss' with
    | nil => rfl
    | cons s' ss' =>
      obtain ⟨t', blocks', ht', _, rfl⟩ := mapM_cons_eq_ok_iff.1 hblocks'
      rw [List.flatten_cons, Text.utf8_append, List.append_assoc] at h
      exact absurd h.symm (render_append_ne_marker ht' _ _)
  | cons s ss ih =>
    obtain ⟨t, blocks, ht, htail, rfl⟩ := mapM_cons_eq_ok_iff.1 hblocks
    rw [List.flatten_cons, Text.utf8_append, List.append_assoc] at h
    cases ss' with
    | nil =>
      cases hblocks'
      exact absurd h (render_append_ne_marker ht _ _)
    | cons s' ss' =>
      obtain ⟨t', blocks', ht', htail', rfl⟩ := mapM_cons_eq_ok_iff.1 hblocks'
      rw [List.flatten_cons, Text.utf8_append, List.append_assoc] at h
      obtain ⟨rfl, h⟩ := eq_of_render_append ht ht' h
      rw [ih htail htail' h]

theorem eq_of_prefix_macInput {a b : List Stanza} {s t : Text} (hs : macInput a = .ok s)
    (ht : macInput b = .ok t) (h : Text.utf8 s <+: Text.utf8 t) : a = b := by
  obtain ⟨blocks, hblocks, rfl⟩ := macInput_eq_ok_iff.1 hs
  obtain ⟨blocks', hblocks', rfl⟩ := macInput_eq_ok_iff.1 ht
  obtain ⟨rest, h⟩ := h
  simp only [Text.utf8_append, List.append_assoc, Text.utf8_cons] at h
  have hblocks_eq := List.append_cancel_left (List.append_cancel_left h)
  rw [← List.append_nil (Text.utf8 marker), List.append_assoc, List.nil_append] at hblocks_eq
  exact eq_of_blocks_append hblocks hblocks' hblocks_eq

/-- The bytes that are covered differ, and their codes under the file key's header key do not. -/
def CodesCollide (key : FileKey) (a b : List Stanza) : Prop :=
  ∃ s t : Text, macInput a = .ok s ∧ macInput b = .ok t ∧ Text.utf8 s ≠ Text.utf8 t ∧
    Hmac.mac (Hmac.deriveKey key.bytes [] (Text.utf8 "header".toList)).1 (Text.utf8 s) =
      Hmac.mac (Hmac.deriveKey key.bytes [] (Text.utf8 "header".toList)).1 (Text.utf8 t)

/-- The bytes that the code covers bind the stanzas: their number, their order, their words and
their bodies. Envelopes that one key opens and that carry one code agree in all of that, or the
code collides. -/
theorem code_binds_stanzas :
    (∀ (a b : List Stanza) (s t : Text), macInput a = .ok s → macInput b = .ok t → a ≠ b →
      Text.utf8 s ≠ Text.utf8 t ∧ ¬ Text.utf8 s <+: Text.utf8 t ∧
        ¬ Text.utf8 t <+: Text.utf8 s) ∧
    ∀ (e e' : Envelope) (key : FileKey) (payload payload' : Bytes), e.OpensTo key payload →
      e'.OpensTo key payload' → e.mac = e'.mac →
        e.stanzas = e'.stanzas ∨ CodesCollide key e.stanzas e'.stanzas := by
  constructor
  · intro a b s t hs ht hne
    refine ⟨fun h => ?_, fun h => hne (eq_of_prefix_macInput hs ht h),
      fun h => hne (eq_of_prefix_macInput ht hs h).symm⟩
    exact hne (eq_of_prefix_macInput hs ht (h ▸ List.prefix_refl _))
  · intro e e' key payload payload' h h' hmac
    obtain ⟨s, hs, hcode⟩ := Envelope.headerMac_eq_ok_iff.1 (Envelope.opensTo_iff.1 h).1
    obtain ⟨t, ht, hcode'⟩ := Envelope.headerMac_eq_ok_iff.1 (Envelope.opensTo_iff.1 h').1
    by_cases hstanzas : e.stanzas = e'.stanzas
    · exact .inl hstanzas
    · refine .inr ⟨s, t, hs, ht, fun heq => hstanzas ?_, hcode.trans (hmac.trans hcode'.symm)⟩
      exact eq_of_prefix_macInput hs ht (heq ▸ List.prefix_refl _)

/-- One word and the same letters in two; and two envelopes for one key that differ behind the
header only. -/
theorem code_binds_stanzas_plain :
    (∃ s t, macInput [⟨['t'], [['a', 'b']], []⟩] = .ok s ∧
      macInput [⟨['t'], [['a'], ['b']], []⟩] = .ok t ∧ ¬ Text.utf8 s <+: Text.utf8 t) ∧
    ∃ (key : FileKey) (e e' : Envelope), e.OpensTo key [1] ∧ e'.OpensTo key [2] ∧
      e.mac = e'.mac ∧ e.nonce ≠ e'.nonce ∧
      (e.stanzas = e'.stanzas ∨ CodesCollide key e.stanzas e'.stanzas) := by
  obtain ⟨hbytes, hopened⟩ := code_binds_stanzas
  constructor
  · obtain ⟨s, hs⟩ : ∃ s, macInput [⟨['t'], [['a', 'b']], []⟩] = .ok s := ⟨_, rfl⟩
    obtain ⟨t, ht⟩ : ∃ t, macInput [⟨['t'], [['a'], ['b']], []⟩] = .ok t := ⟨_, rfl⟩
    exact ⟨s, t, hs, ht, (hbytes _ _ s t hs ht (by decide)).2.1⟩
  · let b : SizedBytes 32 := ⟨List.replicate 32 5, rfl⟩
    let key : FileKey := ⟨b.1, .inr b.2⟩
    let nonce : SizedBytes 16 := ⟨List.replicate 16 5, rfl⟩
    let nonce' : SizedBytes 16 := ⟨List.replicate 16 6, rfl⟩
    have hwords : ∀ s ∈ [Stanza.mk PlainKey.tag [] b.1], ∀ w ∈ s.tag :: s.args,
      checkWord w = .ok () := PlainKey.checkWord_of_mem
    obtain ⟨mac, hmac⟩ : ∃ mac, Envelope.headerMac key [⟨PlainKey.tag, [], b.1⟩] = .ok mac :=
      Envelope.exists_headerMac_iff.2 hwords
    let e : Envelope := ⟨[⟨PlainKey.tag, [], b.1⟩], mac, nonce,
      Stream.encrypt (Envelope.payloadKey key nonce) [1]⟩
    let e' : Envelope := ⟨[⟨PlainKey.tag, [], b.1⟩], mac, nonce',
      Stream.encrypt (Envelope.payloadKey key nonce') [2]⟩
    have he : e.OpensTo key [1] := Envelope.opensTo_iff.2 ⟨hmac, rfl⟩
    have he' : e'.OpensTo key [2] := Envelope.opensTo_iff.2 ⟨hmac, rfl⟩
    have hnonce : nonce ≠ nonce' := by decide
    exact ⟨key, e, e', he, he', rfl, hnonce, hopened e e' key [1] [2] he he' rfl⟩

end BeaconSeal.Header
