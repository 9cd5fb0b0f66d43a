import BeaconSeal.Header
import BeaconSeal.Proofs.Bytes
import BeaconSeal.Proofs.Stanza
/-! Reading a header. Each reader takes from the front of its input just what the matching
part is written as, and no other bytes give the same result. Main statement: a header is read
exactly from its own text, whatever follows. -/
namespace BeaconSeal.Header
open Stanza

def spell (lines : List Text) : Text := lines.flatMap (· ++ ['\n'])

theorem spell_cons (l : Text) (ls : List Text) : spell (l :: ls) = l ++ '\n' :: spell ls := by
  simp [spell]

theorem utf8_line (l t : Text) (b : Bytes) :
    Text.utf8 (l ++ '\n' :: t) ++ b = Text.utf8 l ++ 10 :: (Text.utf8 t ++ b) := by
  have hn : String.utf8EncodeChar '\n' = [10] := by decide
  simp [Text.utf8_append, Text.utf8_cons, hn]

theorem nextLine_eq_ok_iff {b rest : Bytes} {t : Text} :
    nextLine b = .ok (t, rest) ↔ '\n' ∉ t ∧ b = Text.utf8 t ++ 10 :: rest := by
  unfold nextLine
  constructor
  · intro h
    have hb := List.takeWhile_append_dropWhile (p := (· ≠ 10)) (l := b)
    split at h
    · cases h
    next x rest' hd =>
    split at h
    · cases h
    next t' ht =>
    cases h
    have hne : b.dropWhile (· ≠ 10) ≠ [] := by rw [hd]; exact List.cons_ne_nil x rest
    have hx : x = 10 := by
      have := List.head_dropWhile_not (fun y : UInt8 => decide (y ≠ 10)) hne
      simpa only [hd, List.head_cons, decide_eq_false_iff_not, not_not] using this
    subst hx
    have henc := Text.ofUtf8?_eq_some_iff.1 ht
    refine ⟨Text.newline_notMem_of_utf8 (fun y hy => ?_), ?_⟩
    · rw [henc] at hy
      simpa using List.mem_takeWhile_imp hy
    · rw [henc, ← hd, hb]
  · rintro ⟨hn, rfl⟩
    have hne : ∀ y ∈ Text.utf8 t, decide (y ≠ 10) = true := by
      simpa using Text.newline_notMem_utf8 hn
    rw [List.dropWhile_append_of_pos hne, List.takeWhile_append_of_pos hne]
    simp [Text.ofUtf8?_utf8]

def BodyLayout (full : List Text) (last : Text) : Prop :=
  (∀ l ∈ full, Text.width l = columns ∧ '\n' ∉ l) ∧ Text.width last < columns ∧ '\n' ∉ last

theorem readBody_spell {full : List Text} {last : Text} (h : BodyLayout full last) (rest : Bytes) :
    readBody (Text.utf8 (spell (full ++ [last])) ++ rest) = .ok (full ++ [last], rest) := by
  obtain ⟨hfull, hlast, hn⟩ := h
  induction full with
  | nil =>
    have hline := nextLine_eq_ok_iff.2 ⟨hn, utf8_line last (spell []) rest⟩
    rw [List.nil_append, spell_cons, readBody, hline]
    simp [hlast, Nat.le_of_lt hlast, spell, Text.utf8_nil]
  | cons l full ih =>
    obtain ⟨hw, hl⟩ := hfull l (by simp)
    have hline := nextLine_eq_ok_iff.2 ⟨hl, utf8_line l (spell (full ++ [last])) rest⟩
    rw [List.cons_append, spell_cons, readBody, hline]
    simp [hw, ih (fun m hm => hfull m (List.mem_cons_of_mem l hm))]

theorem spell_of_readBody {b rest : Bytes} {lines : List Text}
    (h : readBody b = .ok (lines, rest)) : ∃ full last, lines = full ++ [last] ∧
      BodyLayout full last ∧ b = Text.utf8 (spell lines) ++ rest := by
  induction b using readBody.induct generalizing lines rest with
  | case1 b e he => rw [readBody, he] at h; cases h
  | case2 b line r hl hw => rw [readBody, hl] at h; simp [hw] at h
  | case3 b line r hl hw hw' =>
    rw [readBody, hl] at h
    simp [hw, hw'] at h
    obtain ⟨rfl, rfl⟩ := h
    obtain ⟨hn, rfl⟩ := nextLine_eq_ok_iff.1 hl
    exact ⟨[], line, rfl, ⟨by simp, hw', hn⟩, by simp [utf8_line, spell, Text.utf8_nil]⟩
  | case4 b line r hl hw hw' e he ih => rw [readBody, hl] at h; simp [hw, hw', he] at h
  | case5 b line r hl hw hw' ls r' hr ih =>
    rw [readBody, hl] at h
    simp [hw, hw', hr] at h
    obtain ⟨rfl, rfl⟩ := h
    obtain ⟨hn, rfl⟩ := nextLine_eq_ok_iff.1 hl
    obtain ⟨full, last, rfl, ⟨hfull, hlast⟩, rfl⟩ := ih hr
    refine ⟨line :: full, last, rfl, ⟨?_, hlast⟩, by rw [spell_cons, utf8_line]⟩
    intro m hm
    rcases List.mem_cons.mp hm with rfl | hm
    · exact ⟨by omega, hn⟩
    · exact hfull m hm

theorem readStanza_eq_ok_iff {words : Text} {b rest : Bytes} {s : Stanza} :
    readStanza words b = .ok (s, rest) ↔ (∀ w ∈ s.tag :: s.args, checkWord w = .ok ()) ∧
      s.firstLine = arrow ++ words ∧ b = Text.utf8 (spell s.bodyLines) ++ rest := by
  constructor
  · intro h
    unfold readStanza at h
    dsimp only at h
    split at h
    · cases h
    next hws =>
    split at h
    · cases h
    next lines r hr =>
    split at h
    · cases h
    next body hbody =>
    cases h
    obtain ⟨hne, hsep, hjoin⟩ := Text.fields_eq_iff.1 (Eq.refl (Text.fields ' ' words))
    have hwords := forM_eq_ok_iff.1 (mapError_eq_ok_iff.1 hws)
    obtain ⟨full, last, rfl, ⟨hfull, hlast, _⟩, rfl⟩ := spell_of_readBody hr
    have hlist : (Text.fields ' ' words).headD [] :: (Text.fields ' ' words).tail =
        Text.fields ' ' words := by
      cases hf : Text.fields ' ' words with
      | nil => contradiction
      | cons f fs => rfl
    refine ⟨by rw [hlist]; exact hwords, by simp only [firstLine, hlist, hjoin], ?_⟩
    congr 3
    refine (bodyLines_eq_iff.2 ⟨fun l hl => (hfull l hl).1, hlast, ?_⟩).symm
    simpa using Base64.decodeBare?_eq_some_iff.1 hbody
  · rintro ⟨hwords, hfirst, rfl⟩
    have hfields : Text.fields ' ' words = s.tag :: s.args := by
      refine Text.fields_eq_iff.2 ⟨by simp, fun w hw => ?_, List.append_cancel_left hfirst⟩
      exact notMem_of_checkWord (hwords w hw) (by decide)
    have hlines : s.bodyLines = (Cut.cut columns (Base64.encodeBare s.body)).1 ++
        [(Cut.cut columns (Base64.encodeBare s.body)).2] := rfl
    have hlayout := bodyLines_eq_iff.1 hlines
    have hn {l : Text} (hl : l ∈ s.bodyLines) : '\n' ∉ l := newline_notMem_bodyLines hl
    rw [hlines] at hn ⊢
    have hcut : BodyLayout (Cut.cut columns (Base64.encodeBare s.body)).1
        (Cut.cut columns (Base64.encodeBare s.body)).2 :=
      ⟨fun l hl => ⟨hlayout.1 l hl, hn (by simp [hl])⟩, hlayout.2.1, hn (by simp)⟩
    have hbody := readBody_spell hcut rest
    unfold readStanza
    dsimp only
    rw [hfields, mapError_eq_ok_iff.2 (forM_eq_ok_iff.2 hwords), hbody]
    simp [hlayout.2.2, Base64.decodeBare?_encodeBare]

theorem readMac_eq_ok_iff {t : Text} {mac : SizedBytes 32} :
    readMac t = .ok mac ↔ t = Base64.encodeBare mac.1 := by
  rw [← Base64.decodeBare?_eq_some_iff, readMac]
  cases Base64.decodeBare? t with
  | none => simp
  | some b =>
    have hsized : b = mac.1 ↔ SizedBytes.ofBytes? 32 b = some mac :=
      eq_comm.trans SizedBytes.ofBytes?_eq_some_iff.symm
    rw [Option.some.injEq, hsized]
    dsimp only
    cases SizedBytes.ofBytes? 32 b <;> simp

theorem stanza_line_iff {b rest : Bytes} {s : Stanza} :
    (∃ words r, nextLine b = .ok (arrow ++ words, r) ∧ readStanza words r = .ok (s, rest)) ↔
      ∃ t, s.render = .ok t ∧ b = Text.utf8 t ++ rest := by
  constructor
  · intro h
    obtain ⟨words, r, hline, hs⟩ := h
    obtain ⟨_, rfl⟩ := nextLine_eq_ok_iff.1 hline
    obtain ⟨hwords, hfirst, rfl⟩ := readStanza_eq_ok_iff.1 hs
    refine ⟨_, render_eq_ok_iff.2 ⟨hwords, rfl⟩, ?_⟩
    rw [← hfirst, ← utf8_line, ← spell_cons, spell]
  · intro h
    obtain ⟨t, ht, rfl⟩ := h
    obtain ⟨hwords, rfl⟩ := render_eq_ok_iff.1 ht
    have hline := nextLine_eq_ok_iff.2
      ⟨newline_notMem_firstLine hwords, utf8_line s.firstLine (spell s.bodyLines) rest⟩
    rw [← spell_cons] at hline
    exact ⟨_, _, hline, readStanza_eq_ok_iff.2 ⟨hwords, rfl, rfl⟩⟩

def macLine (mac : SizedBytes 32) : Text := macArrow ++ Base64.encodeBare mac.1 ++ ['\n']

theorem mac_line_iff {b rest : Bytes} {mac : SizedBytes 32} :
    (∃ t, nextLine b = .ok (macArrow ++ t, rest) ∧ readMac t = .ok mac) ↔
      b = Text.utf8 (macLine mac) ++ rest := by
  have hspell : Text.utf8 (macLine mac) ++ rest =
      Text.utf8 (macArrow ++ Base64.encodeBare mac.1) ++ 10 :: rest := by
    simpa [macLine, Text.utf8_nil] using utf8_line (macArrow ++ Base64.encodeBare mac.1) [] rest
  rw [hspell]
  constructor
  · intro h
    obtain ⟨t, hline, ht⟩ := h
    obtain rfl := readMac_eq_ok_iff.1 ht
    exact (nextLine_eq_ok_iff.1 hline).2
  · intro h
    have hn : '\n' ∉ macArrow ++ Base64.encodeBare mac.1 := by
      simpa [macArrow] using Base64.newline_notMem_encodeBare mac.1
    exact ⟨_, nextLine_eq_ok_iff.2 ⟨hn, h⟩, readMac_eq_ok_iff.2 rfl⟩

theorem readStanzas_of_stanza {done : List Stanza} {b rest : Bytes} {s : Stanza} {t : Text}
    (ht : s.render = .ok t) (hb : b = Text.utf8 t ++ rest) :
    readStanzas done b = readStanzas (s :: done) rest := by
  obtain ⟨words, r, hline, hs⟩ := stanza_line_iff.2 ⟨t, ht, hb⟩
  have hwords : arrow.isPrefixOf? (arrow ++ words) = some words :=
    List.isPrefixOf?_eq_some_iff_append_eq.2 rfl
  rw [readStanzas, hline]
  simp only [hwords]
  rw [hs]

theorem readStanzas_of_mac {done : List Stanza} {b rest : Bytes} {mac : SizedBytes 32}
    (hb : b = Text.utf8 (macLine mac) ++ rest) (hdone : done ≠ []) :
    readStanzas done b = .ok (⟨done.reverse, mac⟩, rest) := by
  obtain ⟨t, hline, ht⟩ := mac_line_iff.2 hb
  have harrow : arrow.isPrefixOf? (macArrow ++ t) = none := rfl
  have hmac : macArrow.isPrefixOf? (macArrow ++ t) = some t :=
    List.isPrefixOf?_eq_some_iff_append_eq.2 rfl
  rw [readStanzas, hline]
  simp [harrow, hmac, ht, hdone]

/-- What is read up to the end of a header, after the stanzas that were read before. -/
theorem stanzas_of_readStanzas {done : List Stanza} {b rest : Bytes} {h : Header}
    (hr : readStanzas done b = .ok (h, rest)) : ∃ ss blocks, h.stanzas = done.reverse ++ ss ∧
      h.stanzas ≠ [] ∧ ss.mapM Stanza.render = .ok blocks ∧
      b = Text.utf8 blocks.flatten ++ (Text.utf8 (macLine h.mac) ++ rest) := by
  induction done, b using readStanzas.induct with
  | case1 done b e he => rw [readStanzas, he] at hr; cases hr
  | case2 done b line r hl words hw e he =>
    rw [readStanzas, hl] at hr
    simp only [hw] at hr
    rw [he] at hr
    cases hr
  | case3 done b line r hl words hw s r' hs ih =>
    obtain rfl := List.isPrefixOf?_eq_some_iff_append_eq.1 hw
    obtain ⟨t, ht, hb⟩ := stanza_line_iff.1 ⟨words, r, hl, hs⟩
    rw [readStanzas_of_stanza ht hb] at hr
    obtain ⟨ss, blocks, hss, hne, hblocks, rfl⟩ := ih hr
    refine ⟨s :: ss, t :: blocks, by simpa using hss, hne, ?_, by simp [hb, Text.utf8_append]⟩
    exact mapM_cons_eq_ok_iff.2 ⟨t, blocks, ht, hblocks, rfl⟩
  | case4 done b line r hl hw hm =>
    rw [readStanzas, hl] at hr
    simp [hw, hm] at hr
  | case5 done b line r hl hw t hm e he =>
    rw [readStanzas, hl] at hr
    simp [hw, hm, he] at hr
  | case6 done b line r hl hw t hm mac hmac hdone =>
    rw [readStanzas, hl] at hr
    simp [hw, hm, hmac, hdone] at hr
  | case7 done b line r hl hw t hm mac hmac hdone =>
    obtain rfl := List.isPrefixOf?_eq_some_iff_append_eq.1 hm
    have hdone : done ≠ [] := by simpa using hdone
    have hb := mac_line_iff.1 ⟨t, hl, hmac⟩
    rw [readStanzas_of_mac hb hdone] at hr
    cases hr
    exact ⟨[], [], by simp, by simpa using hdone, rfl, by simpa [Text.utf8_nil] using hb⟩

theorem readStanzas_of_text {done ss : List Stanza} {blocks : List Text} {b rest : Bytes}
    {h : Header} (hss : h.stanzas = done.reverse ++ ss) (hne : h.stanzas ≠ [])
    (hblocks : ss.mapM Stanza.render = .ok blocks)
    (hb : b = Text.utf8 blocks.flatten ++ (Text.utf8 (macLine h.mac) ++ rest)) :
    readStanzas done b = .ok (h, rest) := by
  induction ss generalizing done b blocks with
  | nil =>
    cases hblocks
    rw [List.append_nil] at hss
    have hdone : done ≠ [] := by simpa [hss] using hne
    rw [readStanzas_of_mac (by simpa [Text.utf8_nil] using hb) hdone, ← hss]
  | cons s ss ih =>
    obtain ⟨t, blocks', ht, hblocks', rfl⟩ := mapM_cons_eq_ok_iff.1 hblocks
    rw [List.flatten_cons, Text.utf8_append, List.append_assoc] at hb
    rw [readStanzas_of_stanza ht hb]
    exact ih (by simpa using hss) hblocks' rfl

theorem macInput_eq_ok_iff {ss : List Stanza} {t : Text} : macInput ss = .ok t ↔
    ∃ blocks, ss.mapM Stanza.render = .ok blocks ∧
      versionLine ++ '\n' :: blocks.flatten ++ marker = t := by
  simp only [macInput, bind_eq_ok_iff, Except.ok.injEq]

/-- Just the stanzas whose words can be written have a text. -/
theorem exists_macInput_iff {ss : List Stanza} : (∃ t, macInput ss = .ok t) ↔
    ∀ s ∈ ss, ∀ w ∈ s.tag :: s.args, checkWord w = .ok () := by
  have hrender (s : Stanza) : (∃ t, s.render = .ok t) ↔
      ∀ w ∈ s.tag :: s.args, checkWord w = .ok () := by
    simp only [Stanza.render_eq_ok_iff, exists_and_left, exists_eq, and_true]
  simp only [← hrender]
  rw [← exists_mapM_eq_ok_iff]
  constructor
  · rintro ⟨t, ht⟩
    obtain ⟨blocks, hblocks, _⟩ := macInput_eq_ok_iff.1 ht
    exact ⟨blocks, hblocks⟩
  · rintro ⟨blocks, hblocks⟩
    exact ⟨_, macInput_eq_ok_iff.2 ⟨blocks, hblocks, rfl⟩⟩

theorem render_eq_ok_iff {h : Header} {t : Text} : h.render = .ok t ↔
    ∃ blocks, h.stanzas.mapM Stanza.render = .ok blocks ∧
      versionLine ++ '\n' :: (blocks.flatten ++ macLine h.mac) = t := by
  have hmark : macArrow = marker ++ [' '] := rfl
  simp only [render, bind_eq_ok_iff, macInput_eq_ok_iff, Except.ok.injEq]
  constructor
  · intro hr
    obtain ⟨_, ⟨blocks, hblocks, rfl⟩, rfl⟩ := hr
    exact ⟨blocks, hblocks, by simp [macLine, hmark]⟩
  · intro hr
    obtain ⟨blocks, hblocks, rfl⟩ := hr
    exact ⟨_, ⟨blocks, hblocks, rfl⟩, by simp [macLine, hmark]⟩

/-- What a header takes from the front of an input is its own text. -/
theorem read_eq_ok_iff {b rest : Bytes} {h : Header} : read b = .ok (h, rest) ↔
    h.stanzas ≠ [] ∧ ∃ t, h.render = .ok t ∧ b = Text.utf8 t ++ rest := by
  have hversion : '\n' ∉ versionLine := by decide
  constructor
  · intro hr
    unfold read at hr
    split at hr
    · cases hr
    next line r hl =>
    split at hr
    next hline =>
      subst hline
      obtain ⟨_, rfl⟩ := nextLine_eq_ok_iff.1 hl
      obtain ⟨ss, blocks, hss, hne, hblocks, rfl⟩ := stanzas_of_readStanzas hr
      obtain rfl : h.stanzas = ss := hss
      refine ⟨hne, _, render_eq_ok_iff.2 ⟨blocks, hblocks, rfl⟩, ?_⟩
      rw [utf8_line, Text.utf8_append, List.append_assoc]
    · cases hr
  · intro hr
    obtain ⟨hne, t, ht, rfl⟩ := hr
    obtain ⟨blocks, hblocks, rfl⟩ := render_eq_ok_iff.1 ht
    have hline := nextLine_eq_ok_iff.2
      ⟨hversion, utf8_line versionLine (blocks.flatten ++ macLine h.mac) rest⟩
    rw [read, hline]
    refine readStanzas_of_text rfl hne hblocks ?_
    rw [Text.utf8_append, List.append_assoc]

theorem locate_eq_ok_iff {b : Bytes} {h : Header} {n : Nat} : locate b = .ok (h, n) ↔
    ∃ rest, read b = .ok (h, rest) ∧ n = b.length - rest.length := by
  rw [locate, map_eq_ok_iff]
  constructor
  · intro hr
    obtain ⟨⟨h', rest⟩, hread, he⟩ := hr
    cases he
    exact ⟨rest, hread, rfl⟩
  · intro hr
    obtain ⟨rest, hread, rfl⟩ := hr
    exact ⟨(h, rest), hread, rfl⟩

end BeaconSeal.Header
