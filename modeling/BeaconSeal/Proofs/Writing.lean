import BeaconSeal.Proofs.Header
/-! Writing a stanza at the end of a text. Main statement: either a word of the stanza cannot be
written and nothing is, or a block is added that is the same after every text. So the text under the
authentication code is what writing the stanzas one after the other leaves. -/
namespace BeaconSeal

namespace Stanza
open Header (spell)
variable {α : Type}

def Adds (m : Writer Unit) (t : Text) : Prop := ∀ out, m.run.run out = (.ok (), out ++ t)

theorem adds_put (t : Text) : Adds (put t) t := fun _ => rfl

theorem Adds.seq {m m' : Writer Unit} {t t' : Text} (h : Adds m t) (h' : Adds m' t') :
    Adds (m >>= fun _ => m') (t ++ t') := by
  intro out
  rw [ExceptT.run_bind, StateT.run_bind, h out]
  change m'.run.run (out ++ t) = _
  rw [h', List.append_assoc]

theorem Adds.forM {f : α → Writer Unit} {g : α → Text} (h : ∀ x, Adds (f x) (g x))
    (xs : List α) : Adds (xs.forM f) (xs.flatMap g) := by
  induction xs with
  | nil =>
    intro out
    rw [List.flatMap_nil, List.append_nil]
    rfl
  | cons x xs ih =>
    rw [List.flatMap_cons]
    exact (h x).seq ih

theorem adds_putRows (t : Text) : Adds (putRows t) (spell (Cut.rows columns t)) := by
  induction t using Cut.rows_induction (by decide : 0 < columns) with
  | short t h =>
    rw [putRows, if_neg (Nat.not_le.2 h), Cut.rows_of_lt h, spell, List.flatMap_singleton]
    exact (adds_put t).seq (adds_put ['\n'])
  | full row t h ih =>
    have hfull : columns ≤ (row ++ t).length := by
      rw [List.length_append]
      omega
    rw [putRows, if_pos hfull, List.take_left' h, List.drop_left' h,
      Cut.rows_append (by decide) h, Header.spell_cons]
    exact (adds_put row).seq ((adds_put ['\n']).seq ih)

def putLines (s : Stanza) : Writer Unit := do
  put arrow
  put s.tag
  s.args.forM (fun w => do
    put [' ']
    put w)
  put ['\n']
  putRows (Base64.encodeBare s.body)

theorem intercalate_words (tag : Text) (args : List Text) :
    [' '].intercalate (tag :: args) = tag ++ args.flatMap (fun w => [' '] ++ w) := by
  induction args generalizing tag with
  | nil => simp
  | cons w args ih =>
    rw [List.intercalate_cons_cons, ih, List.flatMap_cons]
    simp only [List.append_assoc]

theorem adds_putLines (s : Stanza) : Adds s.putLines (spell (s.firstLine :: s.bodyLines)) := by
  have hargs := Adds.forM (fun w => (adds_put [' ']).seq (adds_put w)) s.args
  have hlines := (adds_put ['\n']).seq (adds_putRows (Base64.encodeBare s.body))
  have h := (adds_put arrow).seq ((adds_put s.tag).seq (hargs.seq hlines))
  have htext : spell (s.firstLine :: s.bodyLines) = arrow ++ (s.tag ++
      (s.args.flatMap (fun w => [' '] ++ w) ++ (['\n'] ++ spell s.bodyLines))) := by
    rw [Header.spell_cons, firstLine, intercalate_words]
    simp only [List.append_assoc, List.singleton_append]
  rw [htext]
  exact h

/-- Looking at words writes nothing, and stops at the first that cannot be written. -/
theorem run_forM_check (ws : List Text) (m : Writer Unit) (out : Text) :
    (ws.forM check >>= fun _ => m).run.run out =
      match ws.forM checkWord with
      | .ok () => m.run.run out
      | .error e => (.error e, out) := by
  induction ws with
  | nil => rfl
  | cons w ws ih =>
    simp only [List.forM_eq_forM, List.forM_cons, bind_assoc, check] at ih ⊢
    cases checkWord w with
    | error e => rfl
    | ok u => exact ih

theorem run_write (s : Stanza) (out : Text) : s.write.run.run out =
    match s.render with
    | .ok t => (.ok (), out ++ t)
    | .error e => (.error e, out) := by
  have hwrite : s.write = ((s.tag :: s.args).forM check >>= fun _ => s.putLines) := by
    rw [List.forM_eq_forM, List.forM_cons, bind_assoc]
    rfl
  rw [hwrite, run_forM_check, render]
  cases (s.tag :: s.args).forM checkWord with
  | error e => rfl
  | ok u => exact adds_putLines s out

/-- The written form: the words on a line of their own, lines of 64 characters, and a last line that
is shorter. The lines below the first spell the body. -/
structure Written (s : Stanza) (t : Text) (full : List Text) (last : Text) : Prop where
  text : t = arrow ++ [' '].intercalate (s.tag :: s.args) ++ ['\n'] ++
    full.flatMap (· ++ ['\n']) ++ last ++ ['\n']
  length_full : full.length = (Base64.encodeBare s.body).length/64
  length_row : ∀ row ∈ full, row.length = 64
  length_last : last.length = (Base64.encodeBare s.body).length%64
  spells : full.flatten ++ last = Base64.encodeBare s.body

theorem exists_written (s : Stanza) :
    ∃ full last, Written s (spell (s.firstLine :: s.bodyLines)) full last := by
  obtain ⟨hrow, hlast, hspell⟩ := Cut.cut_sound (by decide : 0 < 64) (Base64.encodeBare s.body)
  have hlength := congrArg List.length hspell
  have hfull := List.map_eq_replicate_iff.2 hrow
  rw [List.length_append, List.length_flatten, hfull, List.sum_replicate_nat] at hlength
  refine ⟨_, _, ?_, ?_, hrow, ?_, hspell⟩
  · rw [Header.spell_cons, bodyLines, columns, Cut.rows, spell, firstLine]
    simp
  · omega
  · omega

/-- Empty, or with a character that is not a printable one of seven bits, or is the space. -/
def BadWord (w : Text) : Prop := w = [] ∨ ∃ c ∈ w, ¬ ('!' ≤ c ∧ c ≤ '~')

theorem not_badWord_iff {w : Text} : ¬ BadWord w ↔ checkWord w = .ok () := by
  simp only [BadWord, checkWord_eq_ok_iff, isGraphic_iff, not_or, not_exists, not_and,
    Classical.not_imp, not_not, ne_eq]

theorem writeTo_of_writable {s : Stanza} (h : ∀ w ∈ s.tag :: s.args, ¬ BadWord w) (out : Text) :
    writeTo out s = (out ++ spell (s.firstLine :: s.bodyLines), .ok ()) := by
  have hrender : s.render = .ok (spell (s.firstLine :: s.bodyLines)) :=
    render_eq_ok_iff.2 ⟨fun w hw => not_badWord_iff.1 (h w hw), rfl⟩
  rw [writeTo, run_write, hrender]
  rfl

theorem exists_writeTo_of_badWord {s : Stanza} {w : Text} (hw : w ∈ s.tag :: s.args)
    (hbad : BadWord w) (out : Text) : ∃ e, writeTo out s = (out, .error e) := by
  rw [writeTo, run_write]
  cases hrender : s.render with
  | error e => exact ⟨e, rfl⟩
  | ok t => exact absurd hbad (not_badWord_iff.2 ((render_eq_ok_iff.1 hrender).1 w hw))

end Stanza

namespace Header
open Stanza (write run_write)

/-- Stanzas are written up to the first that cannot be; when all can, their blocks are added. -/
theorem run_forM_write (stanzas : List Stanza) (out : Text) : ∃ out',
    (stanzas.forM write).run.run out = ((stanzas.mapM Stanza.render).map (fun _ => ()), out') ∧
    ∀ blocks, stanzas.mapM Stanza.render = .ok blocks → out' = out ++ blocks.flatten := by
  induction stanzas generalizing out with
  | nil =>
    refine ⟨out, rfl, fun blocks h => ?_⟩
    cases h
    exact (List.append_nil out).symm
  | cons s stanzas ih =>
    rw [List.forM_eq_forM, List.forM_cons, ExceptT.run_bind, StateT.run_bind, run_write,
      List.mapM_cons]
    cases s.render with
    | error e => exact ⟨out, rfl, fun blocks h => by cases h⟩
    | ok block =>
      obtain ⟨out', hrun, htext⟩ := ih (out ++ block)
      rw [ok_bind]
      cases hrest : stanzas.mapM Stanza.render with
      | error e =>
        rw [hrest] at hrun
        exact ⟨out', hrun, fun blocks h => by cases h⟩
      | ok rest =>
        rw [hrest] at hrun
        refine ⟨out', hrun, fun blocks h => ?_⟩
        cases h
        rw [htext rest hrest, List.flatten_cons, List.append_assoc]

/-- What the authentication code covers is what is left when the stanzas are written one after the
other below the version line. -/
theorem macInput_eq_write (stanzas : List Stanza) : macInput stanzas =
    match (stanzas.forM write).run.run (versionLine ++ ['\n']) with
    | (.ok (), out) => .ok (out ++ marker)
    | (.error e, _) => .error e := by
  obtain ⟨out, hrun, htext⟩ := run_forM_write stanzas (versionLine ++ ['\n'])
  rw [hrun, macInput]
  cases hblocks : stanzas.mapM Stanza.render with
  | error e => rfl
  | ok blocks =>
    rw [htext blocks hblocks]
    simp [bind, Except.bind, Except.map]

end Header

namespace Stanza

/-- A stanza has one block. It is added to any text when every word can be written, and when one
cannot, wherever it stands, the writing fails and the text stays as it was. What a header's code
covers is written so, stanza after stanza. -/
theorem writeTo_atomic :
    (∀ s : Stanza, ∃ block full last, s.Written block full last ∧ ∀ out : Text,
      ((∃ e, writeTo out s = (out, .error e)) ↔ ∃ w ∈ s.tag :: s.args, BadWord w) ∧
      (writeTo out s = (out ++ block, .ok ()) ↔ ∀ w ∈ s.tag :: s.args, ¬ BadWord w)) ∧
    ∀ stanzas : List Stanza, Header.macInput stanzas =
      match (stanzas.forM write).run.run (Header.versionLine ++ ['\n']) with
      | (.ok (), out) => .ok (out ++ Header.marker)
      | (.error e, _) => .error e := by
  refine ⟨fun s => ?_, Header.macInput_eq_write⟩
  obtain ⟨full, last, hblock⟩ := exists_written s
  refine ⟨_, full, last, hblock, fun out => ?_⟩
  by_cases hbad : ∃ w ∈ s.tag :: s.args, BadWord w
  · obtain ⟨w, hw, hword⟩ := hbad
    obtain ⟨e, he⟩ := exists_writeTo_of_badWord hw hword out
    refine ⟨⟨fun _ => ⟨w, hw, hword⟩, fun _ => ⟨e, he⟩⟩, ?_⟩
    rw [he]
    constructor
    · intro h
      cases congrArg Prod.snd h
    · intro h
      exact absurd hword (h w hw)
  · have hgood : ∀ w ∈ s.tag :: s.args, ¬ BadWord w := fun w hw hword => hbad ⟨w, hw, hword⟩
    have hwrite := writeTo_of_writable hgood out
    refine ⟨?_, fun _ => hgood, fun _ => hwrite⟩
    rw [hwrite]
    constructor
    · intro h
      obtain ⟨e, he⟩ := h
      cases congrArg Prod.snd he
    · intro h
      exact absurd h hbad

end Stanza
end BeaconSeal
