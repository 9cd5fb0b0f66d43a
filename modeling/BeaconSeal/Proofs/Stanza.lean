import BeaconSeal.Stanza
import BeaconSeal.Proofs.Base64
import BeaconSeal.Proofs.Success
import BeaconSeal.Proofs.Text
/-! The written form of a stanza, part by part: when its words can be written, and what the
lines of its body are. -/
namespace BeaconSeal

namespace Stanza

theorem isGraphic_iff {c : Char} : isGraphic c ↔ '!' ≤ c ∧ c ≤ '~' := by
  have hle (a b : Char) : a ≤ b ↔ a.toNat ≤ b.toNat := Iff.rfl
  simp [isGraphic, hle]

theorem checkWord_eq_ok_iff {w : Text} :
    checkWord w = .ok () ↔ w ≠ [] ∧ ∀ c ∈ w, isGraphic c := by
  unfold checkWord
  cases w with
  | nil => simp
  | cons c w =>
    simp only [List.isEmpty_cons, Bool.false_eq_true, if_false, ne_eq, reduceCtorEq,
      not_false_eq_true, true_and]
    cases h : (c :: w).find? (fun c => !isGraphic c) with
    | none => simpa using h
    | some d =>
      have hd : isGraphic d = false := by simpa using List.find?_some h
      have hmem := List.mem_of_find?_eq_some h
      simp only [reduceCtorEq, false_iff]
      intro hall
      rw [hall d hmem] at hd
      cases hd

theorem notMem_of_checkWord {w : Text} (h : checkWord w = .ok ()) {c : Char}
    (hc : isGraphic c = false) : c ∉ w := by
  intro hmem
  rw [(checkWord_eq_ok_iff.1 h).2 c hmem] at hc
  cases hc

theorem render_eq_ok_iff {s : Stanza} {t : Text} : s.render = .ok t ↔
    (∀ w ∈ s.tag :: s.args, checkWord w = .ok ()) ∧
      t = (s.firstLine :: s.bodyLines).flatMap (· ++ ['\n']) := by
  rw [render, ← forM_eq_ok_iff]
  cases (s.tag :: s.args).forM checkWord with
  | error e => simp [bind, Except.bind]
  | ok u => simp [bind, Except.bind, eq_comm]

/-- Words that can be written stay on their line. -/
theorem newline_notMem_firstLine {s : Stanza} (h : ∀ w ∈ s.tag :: s.args, checkWord w = .ok ()) :
    '\n' ∉ s.firstLine := by
  have hwords : '\n' ∉ [' '].intercalate (s.tag :: s.args) :=
    Text.notMem_intercalate (by decide) (fun w hw => notMem_of_checkWord (h w hw) (by decide))
  simpa [firstLine, arrow] using hwords

theorem mem_encodeBare_of_mem_bodyLines {s : Stanza} {l : Text} (hl : l ∈ s.bodyLines) {c : Char}
    (hc : c ∈ l) : c ∈ Base64.encodeBare s.body := by
  rw [← Cut.rows_flatten (by decide : 0 < columns) (Base64.encodeBare s.body)]
  exact List.mem_flatten.2 ⟨l, hl, hc⟩

theorem newline_notMem_bodyLines {s : Stanza} {l : Text} (hl : l ∈ s.bodyLines) : '\n' ∉ l :=
  fun hc => Base64.newline_notMem_encodeBare s.body (mem_encodeBare_of_mem_bodyLines hl hc)

/-- What is spelled in base64 takes one byte in each column. -/
theorem width_of_spelled {b : Bytes} {l : Text} (h : ∀ c ∈ l, c ∈ Base64.encodeBare b) :
    Text.width l = l.length := by
  refine Text.width_of_ascii (fun c hc => ?_)
  obtain ⟨n, hn, rfl⟩ := Base64.mem_encodeBare (h c hc)
  have := (Base64.symbol_graphic hn).2.1
  omega

/-- The lines of a body are the only ones that are full up to a last one that is not, and
that spell its bytes. -/
theorem bodyLines_eq_iff {s : Stanza} {full : List Text} {last : Text} :
    s.bodyLines = full ++ [last] ↔ (∀ l ∈ full, Text.width l = columns) ∧
      Text.width last < columns ∧ full.flatten ++ last = Base64.encodeBare s.body := by
  constructor
  · intro h
    have hw {l : Text} (hl : l ∈ full ++ [last]) : Text.width l = l.length :=
      width_of_spelled (fun c hc => mem_encodeBare_of_mem_bodyLines (h ▸ hl) hc)
    obtain ⟨hfull, hlast, hflat⟩ := (Cut.rows_eq_iff (by decide)).1 h
    refine ⟨fun l hl => ?_, ?_, hflat⟩
    · rw [hw (by simp [hl]), hfull l hl]
    · rwa [hw (by simp)]
  · rintro ⟨hfull, hlast, hflat⟩
    -- The reader measures bytes, the writer characters; on what spells base64 they agree.
    have hw {l : Text} (hl : l ∈ full ++ [last]) : Text.width l = l.length := by
      refine width_of_spelled (b := s.body) (fun c hc => ?_)
      rw [← hflat]
      simpa using List.mem_flatten.2 ⟨l, hl, hc⟩
    refine (Cut.rows_eq_iff (by decide)).2 ⟨fun l hl => ?_, ?_, hflat⟩
    · rw [← hw (by simp [hl]), hfull l hl]
    · rwa [hw (by simp)] at hlast

end Stanza
end BeaconSeal
