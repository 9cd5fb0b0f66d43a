import BeaconSeal.Text.Basic
import Mathlib.Data.List.TakeWhile
/-! Text and its bytes. Main statements: bytes are read as a text exactly when they are its
encoding, a byte of seven bits stands for its character only, and cutting a text at
separators undoes joining its fields. Trimming takes blanks off and nothing else. -/
namespace BeaconSeal.Text

theorem utf8_nil : utf8 [] = [] := rfl

theorem utf8_append (s t : Text) : utf8 (s ++ t) = utf8 s ++ utf8 t := by
  simp [utf8]

theorem utf8_cons (c : Char) (t : Text) : utf8 (c :: t) = String.utf8EncodeChar c ++ utf8 t := by
  simp [utf8]

theorem toByteArray_utf8 (t : Text) : (utf8 t).toByteArray = t.utf8Encode := rfl

theorem ofUtf8?_eq_some_iff {b : Bytes} {t : Text} : ofUtf8? b = some t ↔ utf8 t = b := by
  constructor
  · intro h
    obtain ⟨cs, hcs, rfl⟩ := Option.map_eq_some_iff.mp h
    have hsome : b.toByteArray.utf8Decode?.isSome := by simp [hcs]
    have hget : b.toByteArray.utf8Decode?.get hsome = cs := by simp [hcs]
    have henc := ByteArray.utf8Encode_get_utf8Decode? (h := hsome)
    rw [hget, ← toByteArray_utf8] at henc
    simpa using congrArg (fun a => a.data.toList) henc
  · rintro rfl
    simp [ofUtf8?, toByteArray_utf8]

theorem ofUtf8?_utf8 (t : Text) : ofUtf8? (utf8 t) = some t := ofUtf8?_eq_some_iff.2 rfl

theorem utf8_injective {s t : Text} (h : utf8 s = utf8 t) : s = t := by
  have hs := ofUtf8?_utf8 s
  rw [h, ofUtf8?_utf8] at hs
  exact (Option.some.inj hs).symm

/-- A byte of seven bits in the encoding of a character is all of it. -/
theorem toNat_of_mem_utf8EncodeChar {c : Char} {b : UInt8} (h : b ∈ String.utf8EncodeChar c)
    (hb : b.toNat < 128) : b.toNat = c.toNat := by
  have hc : c.toNat = c.val.toNat := rfl
  unfold String.utf8EncodeChar at h
  simp only at h
  split at h
  · simp only [List.mem_cons, List.not_mem_nil, or_false] at h
    subst h
    simp only [UInt8.toNat_ofNat'] at hb ⊢
    omega
  split at h
  · simp only [List.mem_cons, List.not_mem_nil, or_false] at h
    rcases h with rfl | rfl <;> simp only [UInt8.toNat_ofNat'] at hb <;> omega
  split at h
  · simp only [List.mem_cons, List.not_mem_nil, or_false] at h
    rcases h with rfl | rfl | rfl <;> simp only [UInt8.toNat_ofNat'] at hb <;> omega
  · simp only [List.mem_cons, List.not_mem_nil, or_false] at h
    rcases h with rfl | rfl | rfl | rfl <;> simp only [UInt8.toNat_ofNat'] at hb <;> omega

theorem utf8EncodeChar_of_lt {c : Char} (h : c.toNat < 128) :
    String.utf8EncodeChar c = [UInt8.ofNat c.toNat] := by
  have hc : c.val.toNat ≤ 0x7f := Nat.le_of_lt_succ h
  unfold String.utf8EncodeChar
  simp only
  rw [if_pos hc]
  rfl

/-- A first byte of seven bits is the first character. -/
theorem exists_cons_of_utf8 {t : Text} {x : UInt8} {b : Bytes} (hx : x.toNat < 128)
    (h : utf8 t = x :: b) : ∃ c t', t = c :: t' ∧ c.toNat = x.toNat := by
  cases t with
  | nil => cases h
  | cons c t =>
    refine ⟨c, t, rfl, ?_⟩
    cases henc : String.utf8EncodeChar c with
    | nil =>
      have := String.length_utf8EncodeChar c
      rw [henc] at this
      exact absurd this (Nat.ne_of_lt c.utf8Size_pos)
    | cons y ys =>
      rw [utf8_cons, henc, List.cons_append] at h
      obtain ⟨rfl, _⟩ := List.cons.inj h
      exact (toNat_of_mem_utf8EncodeChar (by simp [henc]) hx).symm

theorem newline_notMem_utf8 {t : Text} (h : '\n' ∉ t) : ∀ b ∈ utf8 t, b ≠ 10 := by
  rintro b hb rfl
  obtain ⟨c, hc, hbc⟩ := List.mem_flatMap.mp hb
  have hn := toNat_of_mem_utf8EncodeChar hbc (by decide)
  have : c = '\n' := Char.toNat_inj.1 hn.symm
  exact h (this ▸ hc)

theorem newline_notMem_of_utf8 {t : Text} (h : ∀ b ∈ utf8 t, b ≠ 10) : '\n' ∉ t := by
  intro hc
  exact h 10 (List.mem_flatMap.mpr ⟨'\n', hc, by decide⟩) rfl

theorem width_cons (c : Char) (t : Text) : width (c :: t) = c.utf8Size + width t := by
  have hfold (n : Nat) : t.foldl (fun n c => n + c.utf8Size) n = n + width t := by
    unfold width
    induction t generalizing n with
    | nil => rfl
    | cons d t ih =>
      have hzero := ih (0 + d.utf8Size)
      simp only [List.foldl_cons, ih (n + d.utf8Size)]
      omega
  simpa [width] using hfold c.utf8Size

theorem length_utf8 (t : Text) : (utf8 t).length = width t := by
  induction t with
  | nil => rfl
  | cons c t ih =>
    rw [utf8_cons, List.length_append, String.length_utf8EncodeChar, ih, width_cons]

/-- Characters of seven bits take a byte each. -/
theorem width_of_ascii {t : Text} (h : ∀ c ∈ t, c.toNat < 128) : width t = t.length := by
  induction t with
  | nil => rfl
  | cons c t ih =>
    have hc : (String.utf8EncodeChar c).length = 1 := by
      rw [utf8EncodeChar_of_lt (h c (by simp))]
      rfl
    rw [String.length_utf8EncodeChar] at hc
    rw [width_cons, hc, ih (fun d hd => h d (List.mem_cons_of_mem c hd)), List.length_cons]
    omega

theorem fields_eq_splitOn (sep : Char) (t : Text) : fields sep t = t.splitOn sep := by
  induction t with
  | nil => rfl
  | cons c t ih =>
    rw [List.splitOn_cons_eq_if_modifyHead, ← ih]
    simp only [fields, List.foldr_cons, beq_iff_eq]
    split
    · rfl
    · cases h : t.foldr (fun c acc => if c = sep then [] :: acc else
        match acc with
        | [] => [[c]]
        | f :: fs => (c :: f) :: fs) [[]] with
      | nil =>
        rw [fields] at ih
        exact absurd (ih.symm.trans h) (List.splitOn_ne_nil sep t)
      | cons f fs => rfl

theorem sep_notMem_splitOn (sep : Char) (t : Text) : ∀ f ∈ t.splitOn sep, sep ∉ f := by
  induction t with
  | nil => simp
  | cons c t ih =>
    rw [List.splitOn_cons_eq_if_modifyHead]
    by_cases hc : c = sep
    · simpa [hc] using ih
    · cases h : t.splitOn sep with
      | nil => exact absurd h (List.splitOn_ne_nil sep t)
      | cons f fs =>
        rw [h] at ih
        simp only [List.mem_cons, forall_eq_or_imp] at ih
        simpa [hc, ih.1, Ne.symm hc] using ih.2

/-- The fields are the only texts without separators that the separators join to the text. -/
theorem fields_eq_iff {sep : Char} {t : Text} {fs : List Text} :
    fields sep t = fs ↔ fs ≠ [] ∧ (∀ f ∈ fs, sep ∉ f) ∧ [sep].intercalate fs = t := by
  rw [fields_eq_splitOn]
  constructor
  · rintro rfl
    exact ⟨List.splitOn_ne_nil sep t, sep_notMem_splitOn sep t, List.intercalate_splitOn sep⟩
  · rintro ⟨hne, hfs, rfl⟩
    exact List.splitOn_intercalate sep hfs hne

/-- The fields are pinned by what stands between the separators; the last one has none after it. -/
theorem fields_eq_concat_iff {sep : Char} {t : Text} {full : List Text} {last : Text} :
    fields sep t = full ++ [last] ↔ (∀ l ∈ full ++ [last], sep ∉ l) ∧
      t = full.flatMap (· ++ [sep]) ++ last := by
  have hjoin : [sep].intercalate (full ++ [last]) = full.flatMap (· ++ [sep]) ++ last := by
    induction full with
    | nil => simp
    | cons l full ih =>
      cases full with
      | nil => simp [List.intercalate_cons_cons]
      | cons m full =>
        rw [List.cons_append, List.cons_append, List.intercalate_cons_cons, ← List.cons_append, ih]
        simp
  rw [fields_eq_iff, hjoin]
  constructor
  · intro h
    exact ⟨h.2.1, h.2.2.symm⟩
  · intro h
    exact ⟨by simp, h.1, h.2.symm⟩

theorem notMem_intercalate {c sep : Char} (hc : c ≠ sep) {ws : List Text}
    (h : ∀ w ∈ ws, c ∉ w) : c ∉ [sep].intercalate ws := by
  induction ws with
  | nil => simp
  | cons w ws ih =>
    have hw := h w (by simp)
    have hws := ih (fun v hv => h v (List.mem_cons_of_mem w hv))
    cases ws with
    | nil => simpa using hw
    | cons v ws =>
      rw [List.intercalate_cons_cons]
      simpa [hw, hc] using hws

theorem trimStart_cons {c : Char} (h : isBlank c = false) (t : Text) :
    trimStart (c :: t) = c :: t := by
  simp [trimStart, h]

theorem trimStart_append {lead : Text} (h : ∀ c ∈ lead, isBlank c) (t : Text) :
    trimStart (lead ++ t) = trimStart t :=
  List.dropWhile_append_of_pos h

theorem exists_trimStart (t : Text) : ∃ lead, (∀ c ∈ lead, isBlank c) ∧ t = lead ++ trimStart t :=
  ⟨t.takeWhile isBlank, fun _ hc => List.mem_takeWhile_imp hc,
    List.takeWhile_append_dropWhile.symm⟩

/-- Blanks at the end are taken off and counted when another character stands before them. -/
theorem trimEnd_append {t trail : Text} {c : Char} (hc : isBlank c = false)
    (h : ∀ d ∈ trail, isBlank d) : trimEnd (t ++ [c] ++ trail) = (t ++ [c], trail.length) := by
  have hreverse : (t ++ [c] ++ trail).reverse = trail.reverse ++ c :: t.reverse := by simp
  have hdrop : (trail.reverse ++ c :: t.reverse).dropWhile isBlank = c :: t.reverse := by
    rw [List.dropWhile_append_of_pos (fun d hd => h d (List.mem_reverse.1 hd))]
    simp [hc]
  rw [trimEnd, hreverse, hdrop]
  simp only [List.reverse_cons, List.reverse_reverse, List.length_append, List.length_singleton]
  rw [Nat.add_sub_cancel_left]

theorem exists_trimEnd (t : Text) : ∃ trail, (∀ c ∈ trail, isBlank c) ∧
    t = (trimEnd t).1 ++ trail ∧ trail.length = (trimEnd t).2 := by
  have hsplit : t =
      (t.reverse.dropWhile isBlank).reverse ++ (t.reverse.takeWhile isBlank).reverse := by
    rw [← List.reverse_append, List.takeWhile_append_dropWhile, List.reverse_reverse]
  refine ⟨(t.reverse.takeWhile isBlank).reverse, ?_, hsplit, ?_⟩
  · intro c hc
    exact List.mem_takeWhile_imp (List.mem_reverse.1 hc)
  · have hlen := congrArg List.length hsplit
    rw [List.length_append] at hlen
    simp only [trimEnd]
    omega

end BeaconSeal.Text
