import BeaconSeal.Armor
import BeaconSeal.Proofs.Base64
import BeaconSeal.Proofs.Success
import BeaconSeal.Proofs.Text
/-! Armor. Main statement: a text is read as some bytes exactly when it is laid out as armor of
them, and what was armored in lines of one width is laid out so. -/
namespace BeaconSeal.Armor

inductive LineBreak : Text → Prop
  | newline : LineBreak ['\n']
  | returnNewline : LineBreak ['\r', '\n']

/-- The parts of an armored text. Each line but the last stands with the break after it. -/
structure Layout where
  lead : Text
  first : Text
  rows : List (Text × Text)
  last : Text
  lastBreak : Text
  trail : Text

namespace Layout

def lines (l : Layout) : Text := l.rows.flatMap (fun r => r.1 ++ r.2) ++ l.last ++ l.lastBreak

def text (l : Layout) : Text :=
  l.lead ++ (header ++ (l.first ++ l.lines ++ footer)) ++ l.trail

/-- Every line has the width but the last, which is shorter; together they spell the data. Breaks
are of either kind, each one as it likes, and after the last line there may be a return too many. -/
structure Spells (l : Layout) (width : Nat) (data : Bytes) : Prop where
  blank_lead : ∀ c ∈ l.lead, Text.isBlank c
  break_first : LineBreak l.first
  break_rows : ∀ r ∈ l.rows, LineBreak r.2
  width_rows : ∀ r ∈ l.rows, Text.width r.1 = width
  width_last : Text.width l.last < width
  break_last : LineBreak l.lastBreak ∨ l.lastBreak = ['\r', '\r', '\n']
  spells : (l.rows.map Prod.fst).flatten ++ l.last = Base64.encode data
  blank_trail : ∀ c ∈ l.trail, Text.isBlank c
  length_trail : l.trail.length ≤ 1024

end Layout

theorem afterBreak?_eq_some_iff {t rest : Text} :
    afterBreak? t = some rest ↔ ∃ b, LineBreak b ∧ t = b ++ rest := by
  constructor
  · intro h
    unfold afterBreak? at h
    split at h
    · cases h
      exact ⟨_, .returnNewline, rfl⟩
    · cases h
      exact ⟨_, .newline, rfl⟩
    · cases h
  · intro h
    obtain ⟨b, hb, rfl⟩ := h
    cases hb with
    | newline => rfl
    | returnNewline => rfl

theorem beforeBreak?_eq_some_iff {t rest : Text} : beforeBreak? t = some rest ↔
    t = rest ++ ['\r', '\n'] ∨ t = rest ++ ['\n'] ∧ ∀ u, rest ≠ u ++ ['\r'] := by
  constructor
  · intro h
    rw [beforeBreak?] at h
    split at h
    next r hr =>
      cases h
      exact .inl (by rw [← List.reverse_reverse t, hr]; simp)
    next r hne hr =>
      cases h
      refine .inr ⟨by rw [← List.reverse_reverse t, hr]; simp, fun u hu => hne u.reverse ?_⟩
      rw [← List.reverse_reverse r, hu]
      simp
    · cases h
  · intro h
    rcases h with rfl | ⟨rfl, hne⟩
    · simp [beforeBreak?]
    · have hreverse : (rest ++ ['\n']).reverse = '\n' :: rest.reverse := by simp
      rw [beforeBreak?, hreverse]
      split
      next r hr =>
        obtain ⟨_, hr⟩ := List.cons.inj hr
        refine absurd ?_ (hne r.reverse)
        rw [← List.reverse_reverse rest, hr]
        simp
      next r _ hr => rw [← (List.cons.inj hr).2, List.reverse_reverse]
      next hno => exact absurd rfl (hno rest.reverse)

theorem body_eq_ok_iff {t inner : Text} : body t = .ok inner ↔ ∃ first rest, LineBreak first ∧
    beforeBreak? rest = some inner ∧ t = header ++ (first ++ rest ++ footer) := by
  constructor
  · intro h
    rw [body] at h
    split at h
    · cases h
    next rest hheader =>
    split at h
    · cases h
    next middle hfooter =>
    split at h
    · cases h
    next afterFirst hfirst =>
    split at h
    · cases h
    next hlast =>
    cases h
    obtain ⟨first, hbreak, rfl⟩ := afterBreak?_eq_some_iff.1 hfirst
    refine ⟨first, afterFirst, hbreak, hlast, ?_⟩
    rw [List.isSuffixOf?_eq_some_iff_append_eq.1 hfooter,
      List.isPrefixOf?_eq_some_iff_append_eq.1 hheader]
  · intro h
    obtain ⟨first, rest, hfirst, hlast, rfl⟩ := h
    have hheader : header.isPrefixOf? (header ++ (first ++ rest ++ footer)) =
      some (first ++ rest ++ footer) := List.isPrefixOf?_eq_some_iff_append_eq.2 rfl
    have hfooter : footer.isSuffixOf? (first ++ rest ++ footer) = some (first ++ rest) :=
      List.isSuffixOf?_eq_some_iff_append_eq.2 rfl
    have hafter : afterBreak? (first ++ rest) = some rest :=
      afterBreak?_eq_some_iff.2 ⟨first, hfirst, rfl⟩
    simp only [body, hheader, hfooter, hafter, hlast]

theorem dropReturn_concat (line : Text) : dropReturn (line ++ ['\r']) = line := by
  simp [dropReturn]

theorem dropReturn_eq {line : Text} (h : '\r' ∉ line) : dropReturn line = line := by
  unfold dropReturn
  split
  next r hr =>
    have : '\r' ∈ line := by
      rw [← List.mem_reverse, hr]
      simp
    contradiction
  · rfl

theorem eq_dropReturn (raw : Text) : raw = dropReturn raw ∨ raw = dropReturn raw ++ ['\r'] := by
  unfold dropReturn
  split
  next r hr => exact .inr (by rw [← List.reverse_reverse raw, hr]; simp)
  · exact .inl rfl

theorem checkLines_eq_ok_iff {width i : Nat} {full : List Text} {last : Text} :
    checkLines width i (full ++ [last]) = .ok () ↔
      (∀ l ∈ full, Text.width l = width) ∧ Text.width last < width := by
  induction full generalizing i with
  | nil =>
    rw [List.nil_append, checkLines]
    simp only [List.isEmpty_nil, if_true]
    split
    · simp; omega
    · split
      · simp; omega
      · simp; omega
  | cons l full ih =>
    have hne : (full ++ [last]).isEmpty = false := by simp
    rw [List.cons_append, checkLines, List.forall_mem_cons, hne]
    simp only [Bool.false_eq_true, if_false]
    split
    · simp; omega
    · split
      · simp; omega
      · rw [ih]
        have hl : Text.width l = width := by omega
        simp [hl]

theorem exists_break (raw : Text) :
    ∃ b, LineBreak b ∧ raw ++ ['\n'] = dropReturn raw ++ b := by
  rcases eq_dropReturn raw with h | h
  · exact ⟨_, .newline, by rw [← h]⟩
  · refine ⟨_, .returnNewline, ?_⟩
    rw [h, dropReturn_concat, List.append_assoc]
    rfl

/-- Between newlines stands a line, and the rest of its break if that has two characters. -/
theorem exists_raw {line b : Text} (hb : LineBreak b) (hcr : '\r' ∉ line) (hnl : '\n' ∉ line) :
    ∃ raw, dropReturn raw = line ∧ raw ++ ['\n'] = line ++ b ∧ '\n' ∉ raw := by
  cases hb with
  | newline => exact ⟨line, dropReturn_eq hcr, rfl, hnl⟩
  | returnNewline => exact ⟨line ++ ['\r'], dropReturn_concat line, by simp, by simp [hnl]⟩

theorem exists_rows (full : List Text) : ∃ rows : List (Text × Text),
    (∀ r ∈ rows, LineBreak r.2) ∧ rows.map Prod.fst = full.map dropReturn ∧
      rows.flatMap (fun r => r.1 ++ r.2) = full.flatMap (· ++ ['\n']) := by
  induction full with
  | nil => exact ⟨[], by simp⟩
  | cons raw full ih =>
    obtain ⟨b, hb, hraw⟩ := exists_break raw
    obtain ⟨rows, hbreaks, hlines, htext⟩ := ih
    refine ⟨(dropReturn raw, b) :: rows, ?_, by simp [hlines], by simp [htext, ← hraw]⟩
    exact List.forall_mem_cons.2 ⟨hb, hbreaks⟩

theorem exists_full {rows : List (Text × Text)} (hbreaks : ∀ r ∈ rows, LineBreak r.2)
    (hcr : ∀ r ∈ rows, '\r' ∉ r.1) (hnl : ∀ r ∈ rows, '\n' ∉ r.1) : ∃ full : List Text,
    (∀ l ∈ full, '\n' ∉ l) ∧ full.map dropReturn = rows.map Prod.fst ∧
      full.flatMap (· ++ ['\n']) = rows.flatMap (fun r => r.1 ++ r.2) := by
  induction rows with
  | nil => exact ⟨[], by simp⟩
  | cons r rows ih =>
    rw [List.forall_mem_cons] at hbreaks hcr hnl
    obtain ⟨raw, hline, hraw, hn⟩ := exists_raw hbreaks.1 hcr.1 hnl.1
    obtain ⟨full, hns, hlines, htext⟩ := ih hbreaks.2 hcr.2 hnl.2
    refine ⟨raw :: full, List.forall_mem_cons.2 ⟨hn, hns⟩, by simp [hline, hlines], ?_⟩
    rw [List.flatMap_cons, List.flatMap_cons, htext, hraw]

theorem checkWidth_eq_ok_iff {width : Nat} : checkWidth width = .ok () ↔ 0 < width := by
  by_cases h : width = 0
  · simp [checkWidth, h]
  · simp [checkWidth, h, Nat.pos_of_ne_zero h]

theorem decode_eq_ok_iff {width : Nat} {t : Text} {data : Bytes} : decode width t = .ok data ↔
    0 < width ∧ (Text.trimEnd (Text.trimStart t)).2 ≤ maxTrailing ∧
      ∃ inner full last, body (Text.trimEnd (Text.trimStart t)).1 = .ok inner ∧
        Text.fields '\n' inner = full ++ [last] ∧
        (∀ l ∈ full, Text.width (dropReturn l) = width) ∧ Text.width (dropReturn last) < width ∧
        (full.map dropReturn).flatten ++ dropReturn last = Base64.encode data := by
  have hfields (inner : Text) : ∃ full last, Text.fields '\n' inner = full ++ [last] :=
    ⟨_, _, (List.dropLast_concat_getLast (Text.fields_eq_iff.1 (Eq.refl _)).1).symm⟩
  rw [decode, bind_eq_ok_iff]
  constructor
  · intro h
    obtain ⟨⟨⟩, hwidth, h⟩ := h
    dsimp only at h
    split at h
    · cases h
    next htrailing =>
    obtain ⟨inner, hbody, h⟩ := bind_eq_ok_iff.1 h
    obtain ⟨⟨⟩, hlines, h⟩ := bind_eq_ok_iff.1 h
    split at h
    · cases h
    next hdata =>
    cases h
    obtain ⟨full, last, hsplit⟩ := hfields inner
    rw [hsplit, List.map_append, List.map_singleton] at hlines hdata
    obtain ⟨hfull, hlast⟩ := checkLines_eq_ok_iff.1 hlines
    refine ⟨checkWidth_eq_ok_iff.1 hwidth, Nat.le_of_not_lt htrailing, inner, full, last, hbody,
      hsplit, by simpa using hfull, hlast, ?_⟩
    simpa using Base64.decode?_eq_some_iff.1 hdata
  · intro h
    obtain ⟨hwidth, htrailing, inner, full, last, hbody, hsplit, hfull, hlast, hspell⟩ := h
    refine ⟨(), checkWidth_eq_ok_iff.2 hwidth, ?_⟩
    dsimp only
    have hlines : checkLines width 1 ((full ++ [last]).map dropReturn) = .ok () := by
      rw [List.map_append, List.map_singleton]
      exact checkLines_eq_ok_iff.2 ⟨by simpa using hfull, hlast⟩
    have hdata : Base64.decode? ((full ++ [last]).map dropReturn).flatten = some data :=
      Base64.decode?_eq_some_iff.2 (by simpa using hspell)
    rw [if_neg (Nat.not_lt.2 htrailing)]
    refine bind_eq_ok_iff.2 ⟨inner, hbody, ?_⟩
    rw [hsplit]
    refine bind_eq_ok_iff.2 ⟨(), hlines, ?_⟩
    rw [hdata]

theorem exists_spells_of_decode {width : Nat} {t : Text} {data : Bytes}
    (h : decode width t = .ok data) : ∃ l : Layout, l.Spells width data ∧ t = l.text := by
  obtain ⟨_, hmax, inner, full, last, hbody, hsplit, hfull, hlast, hspell⟩ :=
    decode_eq_ok_iff.1 h
  obtain ⟨lead, hlead, hstart⟩ := Text.exists_trimStart t
  obtain ⟨trail, htrail, hend, hcount⟩ := Text.exists_trimEnd (Text.trimStart t)
  obtain ⟨first, rest, hfirst, hrest, hkept⟩ := body_eq_ok_iff.1 hbody
  obtain ⟨_, hinner⟩ := Text.fields_eq_concat_iff.1 hsplit
  obtain ⟨rows, hbreaks, hlines, htext⟩ := exists_rows full
  -- The break that was taken off, and the return that may have been left before it.
  have hbreak : ∃ b, (LineBreak b ∨ b = ['\r', '\r', '\n']) ∧
      rest = full.flatMap (· ++ ['\n']) ++ dropReturn last ++ b := by
    rcases beforeBreak?_eq_some_iff.1 hrest with hrest | ⟨hrest, _⟩
    · rcases eq_dropReturn last with heq | heq
      · exact ⟨_, .inl .returnNewline, by rw [hrest, hinner, ← heq]⟩
      · refine ⟨_, .inr rfl, ?_⟩
        rw [hrest, hinner, heq, dropReturn_concat]
        simp
    · obtain ⟨b, hb, heq⟩ := exists_break last
      exact ⟨b, .inl hb, by rw [hrest, hinner, List.append_assoc, heq, List.append_assoc]⟩
  obtain ⟨b, hb, hrest⟩ := hbreak
  refine ⟨⟨lead, first, rows, dropReturn last, b, trail⟩, ?_, ?_⟩
  · refine ⟨hlead, hfirst, hbreaks, ?_, hlast, hb, by rw [hlines]; exact hspell, htrail, ?_⟩
    · intro r hr
      obtain ⟨l, hl, heq⟩ := List.mem_map.1 (hlines ▸ List.mem_map_of_mem hr)
      rw [← heq]
      exact hfull l hl
    · rw [hcount]
      exact hmax
  · rw [hstart, hend, hkept, hrest, ← htext, Layout.text, Layout.lines]
    simp only [List.append_assoc]

/-- The lines are of base64, so that no character of a break is found in them. -/
theorem Layout.Spells.notMem {l : Layout} {width : Nat} {data : Bytes} (h : l.Spells width data)
    {c : Char} (hc : c.toNat < 0x21) : (∀ r ∈ l.rows, c ∉ r.1) ∧ c ∉ l.last := by
  have hmem {line : Text} (hline : line ∈ l.rows.map Prod.fst ++ [l.last]) : c ∉ line := by
    intro hin
    have hbase : c ∈ Base64.encode data := by
      rw [← h.spells]
      simpa using List.mem_flatten.2 ⟨line, hline, hin⟩
    have := (Base64.graphic_of_mem_encode hbase).1
    omega
  exact ⟨fun r hr => hmem (by simp; exact .inl ⟨r.2, hr⟩), hmem (by simp)⟩

theorem header_eq : header = '-' :: header.tail := by decide

theorem trim_text {l : Layout} (hlead : ∀ c ∈ l.lead, Text.isBlank c)
    (htrail : ∀ c ∈ l.trail, Text.isBlank c) : Text.trimEnd (Text.trimStart l.text) =
      (header ++ (l.first ++ l.lines ++ footer), l.trail.length) := by
  have hfooter : footer = footer.dropLast ++ ['-'] := by decide
  have hstart : Text.trimStart l.text = header ++ (l.first ++ l.lines ++ footer) ++ l.trail := by
    rw [Layout.text, List.append_assoc, Text.trimStart_append hlead, header_eq]
    exact Text.trimStart_cons (by decide) _
  have hend : header ++ (l.first ++ l.lines ++ footer) =
      header ++ (l.first ++ l.lines ++ footer.dropLast) ++ ['-'] := by
    conv => lhs; rw [hfooter]
    simp only [List.append_assoc]
  rw [hstart, hend, Text.trimEnd_append (by decide) htrail]

theorem flatMap_newline_ne (full : List Text) (u : Text) :
    full.flatMap (· ++ ['\n']) ≠ u ++ ['\r'] := by
  intro h
  rcases List.eq_nil_or_concat full with rfl | ⟨front, l, rfl⟩
  · simp at h
  · rw [List.concat_eq_append, List.flatMap_append, List.flatMap_singleton,
      ← List.append_assoc] at h
    have := (List.append_singleton_inj.1 h).2
    contradiction

/-- The break after the last line is taken off, but for a return too many. -/
theorem exists_last {front last b : Text} (hb : LineBreak b ∨ b = ['\r', '\r', '\n'])
    (hfront : ∀ u, front ≠ u ++ ['\r']) (hcr : '\r' ∉ last) (hnl : '\n' ∉ last) :
    ∃ raw, dropReturn raw = last ∧ '\n' ∉ raw ∧
      beforeBreak? (front ++ last ++ b) = some (front ++ raw) := by
  rcases hb with hb | rfl
  · refine ⟨last, dropReturn_eq hcr, hnl, beforeBreak?_eq_some_iff.2 ?_⟩
    cases hb with
    | returnNewline => exact .inl rfl
    | newline =>
      refine .inr ⟨rfl, fun u hu => ?_⟩
      rcases List.eq_nil_or_concat last with rfl | ⟨init, c, rfl⟩
      · exact hfront u (by simpa using hu)
      · rw [List.concat_eq_append, ← List.append_assoc] at hu
        obtain ⟨_, rfl⟩ := List.append_singleton_inj.1 hu
        simp at hcr
  · refine ⟨last ++ ['\r'], dropReturn_concat last, by simp [hnl], ?_⟩
    exact beforeBreak?_eq_some_iff.2 (.inl (by simp))

/-- Read with any width, a text that spells data is judged by the lengths of its lines alone. -/
theorem decode_text {width w : Nat} {l : Layout} {data : Bytes} (h : l.Spells width data)
    (hw : 0 < w) : decode w l.text =
      (checkLines w 1 (l.rows.map Prod.fst ++ [l.last])).map fun _ => data := by
  have hcr := h.notMem (c := '\r') (by decide)
  have hnl := h.notMem (c := '\n') (by decide)
  obtain ⟨full, hfull, hrows, htext⟩ := exists_full h.break_rows hcr.1 hnl.1
  obtain ⟨raw, hlast, hraw, hbefore⟩ :=
    exists_last h.break_last (flatMap_newline_ne full) hcr.2 hnl.2
  have hlines : beforeBreak? l.lines = some (full.flatMap (· ++ ['\n']) ++ raw) := by
    rw [Layout.lines, ← htext, hbefore]
  have hbody : body (header ++ (l.first ++ l.lines ++ footer)) =
      .ok (full.flatMap (· ++ ['\n']) ++ raw) :=
    body_eq_ok_iff.2 ⟨_, _, h.break_first, hlines, rfl⟩
  have hfields : Text.fields '\n' (full.flatMap (· ++ ['\n']) ++ raw) = full ++ [raw] := by
    refine Text.fields_eq_concat_iff.2 ⟨fun line hline => ?_, rfl⟩
    rcases List.mem_append.1 hline with hline | hline
    · exact hfull line hline
    · rw [List.mem_singleton.1 hline]
      exact hraw
  have hdata : Base64.decode? (l.rows.map Prod.fst ++ [l.last]).flatten = some data := by
    rw [List.flatten_append, List.flatten_singleton, h.spells]
    exact Base64.decode?_eq_some_iff.2 rfl
  have htrailing : ¬ l.trail.length > maxTrailing := Nat.not_lt.2 h.length_trail
  rw [decode, checkWidth_eq_ok_iff.2 hw, trim_text h.blank_lead h.blank_trail]
  simp only [ok_bind, if_neg htrailing, hbody, hfields, List.map_append, List.map_singleton, hrows,
    hlast, hdata]
  cases checkLines w 1 (l.rows.map Prod.fst ++ [l.last]) with
  | error e => rfl
  | ok u => rfl

theorem decode_of_spells {width : Nat} {l : Layout} {data : Bytes} (h : l.Spells width data) :
    decode width l.text = .ok data := by
  have hlines : checkLines width 1 (l.rows.map Prod.fst ++ [l.last]) = .ok () :=
    checkLines_eq_ok_iff.2 ⟨List.forall_mem_map.2 h.width_rows, h.width_last⟩
  rw [decode_text h (Nat.zero_lt_of_lt h.width_last), hlines]
  rfl

theorem width_of_base64 {line : Text} {data : Bytes} (h : ∀ c ∈ line, c ∈ Base64.encode data) :
    Text.width line = line.length := by
  refine Text.width_of_ascii (fun c hc => ?_)
  have := (Base64.graphic_of_mem_encode (h c hc)).2
  omega

def layoutOf (width : Nat) (data : Bytes) : Layout where
  lead := []
  first := ['\n']
  rows := (Cut.cut width (Base64.encode data)).1.map (·, ['\n'])
  last := (Cut.cut width (Base64.encode data)).2
  lastBreak := ['\n']
  trail := ['\n']

theorem encode_eq {width : Nat} (h : 0 < width) (data : Bytes) :
    encode width data = .ok (layoutOf width data).text := by
  rw [encode, checkWidth_eq_ok_iff.2 h]
  change Except.ok _ = _
  simp [Cut.rows, Layout.text, Layout.lines, layoutOf, List.flatMap_map]

theorem spells_layoutOf {width : Nat} (h : 0 < width) (data : Bytes) :
    (layoutOf width data).Spells width data := by
  obtain ⟨hfull, hlast, hflat⟩ := Cut.cut_sound h (Base64.encode data)
  have hblank : ∀ c ∈ ['\n'], Text.isBlank c := List.all_eq_true.1 (by decide)
  refine ⟨by simp [layoutOf], .newline, ?_, ?_, ?_, .inl .newline, ?_, hblank, by simp [layoutOf]⟩
  · intro r hr
    obtain ⟨row, _, rfl⟩ := List.mem_map.1 hr
    exact .newline
  · intro r hr
    obtain ⟨row, hrow, rfl⟩ := List.mem_map.1 hr
    rw [width_of_base64, hfull row hrow]
    intro c hc
    rw [← hflat]
    exact List.mem_append_left _ (List.mem_flatten.2 ⟨row, hrow, hc⟩)
  · rw [width_of_base64]
    · exact hlast
    · intro c hc
      rw [← hflat]
      exact List.mem_append_right _ hc
  · simpa [layoutOf, Function.comp_def] using hflat

theorem isProbablyArmored_iff {t : Text} : isProbablyArmored t ↔
    ∃ lead rest, (∀ c ∈ lead, Text.isBlank c) ∧ t = lead ++ (header ++ rest) := by
  rw [isProbablyArmored, List.isPrefixOf_iff_prefix]
  constructor
  · intro h
    obtain ⟨rest, hrest⟩ := h
    obtain ⟨lead, hlead, ht⟩ := Text.exists_trimStart t
    exact ⟨lead, rest, hlead, by rw [hrest]; exact ht⟩
  · intro h
    obtain ⟨lead, rest, hlead, rfl⟩ := h
    refine ⟨rest, ?_⟩
    rw [Text.trimStart_append hlead, header_eq, List.cons_append, Text.trimStart_cons (by decide)]

theorem Layout.Spells.isProbablyArmored {l : Layout} {width : Nat} {data : Bytes}
    (h : l.Spells width data) : isProbablyArmored l.text := by
  refine isProbablyArmored_iff.2
    ⟨l.lead, l.first ++ l.lines ++ footer ++ l.trail, h.blank_lead, ?_⟩
  simp only [Layout.text, List.append_assoc]

theorem isProbablyArmored_of_decode {width : Nat} {t : Text} {data : Bytes}
    (h : decode width t = .ok data) : isProbablyArmored t := by
  obtain ⟨l, hl, rfl⟩ := exists_spells_of_decode h
  exact hl.isProbablyArmored

theorem decode_encode {width : Nat} (h : 0 < width) (data : Bytes) :
    ∃ t, encode width data = .ok t ∧ isProbablyArmored t ∧ decode width t = .ok data := by
  have hspells := spells_layoutOf h data
  exact ⟨_, encode_eq h data, hspells.isProbablyArmored, decode_of_spells hspells⟩

/-- What is read from a text is what its lines spell between the markers, and a text that is no such
layout is refused; every line width reads back what it writes. -/
theorem decode_iff_layout (width : Nat) (h : 1 ≤ width) :
    (∀ (t : Text) (data : Bytes), decode width t = .ok data ↔
      ∃ l : Layout, l.Spells width data ∧ t = l.text) ∧
    ∀ data : Bytes, ∃ t, encode width data = .ok t ∧ decode width t = .ok data := by
  refine ⟨fun t data => ⟨exists_spells_of_decode, ?_⟩, fun data => ?_⟩
  · intro hl
    obtain ⟨l, hl, rfl⟩ := hl
    exact decode_of_spells hl
  · exact ⟨_, encode_eq h data, decode_of_spells (spells_layoutOf h data)⟩

/-- Breaks of both kinds in one text, and a return too many before the footer. -/
theorem decode_iff_layout_mixed : 1 ≤ 4 ∧
    decode 4 ("\n -----BEGIN AGE ENCRYPTED FILE-----\r\naGVs\nbG8=\r\n\r\r\n" ++
      "-----END AGE ENCRYPTED FILE-----\t\n").toList = .ok [104, 101, 108, 108, 111] := by
  refine ⟨by decide, ((decode_iff_layout 4 (by decide)).1 _ _).2 ?_⟩
  refine ⟨⟨['\n', ' '], ['\r', '\n'], [("aGVs".toList, ['\n']), ("bG8=".toList, ['\r', '\n'])],
    [], ['\r', '\r', '\n'], ['\t', '\n']⟩, ?_, by decide⟩
  refine ⟨List.all_eq_true.1 (by decide), .returnNewline, ?_, by decide, by decide, .inr rfl,
    by decide, List.all_eq_true.1 (by decide), by decide⟩
  simp [LineBreak.newline, LineBreak.returnNewline]

end BeaconSeal.Armor
