import BeaconSeal.Proofs.Armor
/-! Armor read with another width than it was written with. The lines of base64 are counted in
characters, and the first line already tells: it is as long as the width that it was written with,
or it is the only one. Main statement: the outcome for any two widths. -/
namespace BeaconSeal.Armor
open Cut

theorem lines_layoutOf (w : Nat) (data : Bytes) :
    (layoutOf w data).rows.map Prod.fst ++ [(layoutOf w data).last] =
      rows w (Base64.encode data) := by
  simp [layoutOf, rows, Function.comp_def]

/-- The text that is written with one width, under the checks of another. -/
theorem exists_encode_decode {w w' : Nat} (hw : 0 < w) (hw' : 0 < w') (data : Bytes) :
    ∃ t, encode w data = .ok t ∧
      decode w' t = (checkLines w' 1 (rows w (Base64.encode data))).map fun _ => data := by
  refine ⟨_, encode_eq hw data, ?_⟩
  rw [decode_text (spells_layoutOf hw data) hw', lines_layoutOf]

section First
variable {w i : Nat} {line : Text} {lines : List Text}

theorem checkLines_of_long (h : w < Text.width line) :
    checkLines w i (line :: lines) = .error (.lineTooLong i (Text.width line) w) := by
  rw [checkLines, if_pos h]

theorem checkLines_of_short (h : Text.width line < w) (hne : lines ≠ []) :
    checkLines w i (line :: lines) = .error (.lineTooShort i (Text.width line) w) := by
  have hlong : ¬ Text.width line > w := by omega
  simp [checkLines, hlong, hne, h]

theorem checkLines_of_full (h : Text.width line = w) :
    checkLines w i [line] = .error (.lastLineTooLong w w) := by
  simp [checkLines, h]

end First

/-- Less than a line stands alone, and it fits any width that is greater. -/
theorem checkLines_rows_of_lt {w w' : Nat} {data : Bytes} (h : (Base64.encode data).length < w) :
    checkLines w' 1 (rows w (Base64.encode data)) =
      if (Base64.encode data).length < w' then .ok ()
      else if (Base64.encode data).length = w' then
        .error (.lastLineTooLong (Base64.encode data).length w')
      else .error (.lineTooLong 1 (Base64.encode data).length w') := by
  have hwidth : Text.width (Base64.encode data) = (Base64.encode data).length :=
    width_of_base64 (fun c hc => hc)
  rw [rows_of_lt h]
  split
  next hlt =>
    have hnone : ∀ l ∈ ([] : List Text), Text.width l = w' := by simp
    exact checkLines_eq_ok_iff.2 ⟨hnone, by rwa [hwidth]⟩
  next hle =>
    split
    next heq => rw [checkLines_of_full (by rwa [hwidth]), heq]
    next hne => rw [checkLines_of_long (by omega), hwidth]

/-- A full line is never the last one, so that the first line settles what happens. -/
theorem checkLines_rows_of_le {w w' : Nat} {data : Bytes} (hw : 0 < w)
    (h : w ≤ (Base64.encode data).length) :
    checkLines w' 1 (rows w (Base64.encode data)) =
      if w = w' then .ok ()
      else if w' < w then .error (.lineTooLong 1 w w')
      else .error (.lineTooShort 1 w w') := by
  have hlen : ((Base64.encode data).take w).length = w := List.length_take_of_le h
  have hwidth : Text.width ((Base64.encode data).take w) = w := by
    rw [width_of_base64 (fun c hc => List.mem_of_mem_take hc), hlen]
  have hrows : rows w (Base64.encode data) =
      (Base64.encode data).take w :: rows w ((Base64.encode data).drop w) := by
    rw [← rows_append hw hlen, List.take_append_drop]
  split
  next heq =>
    have hspells := spells_layoutOf hw data
    rw [← heq, ← lines_layoutOf]
    exact checkLines_eq_ok_iff.2 ⟨List.forall_mem_map.2 hspells.width_rows, hspells.width_last⟩
  next hne =>
    split
    next hlt => rw [hrows, checkLines_of_long (by rwa [hwidth]), hwidth]
    next hge => rw [hrows, checkLines_of_short (by omega) (by simp [rows]), hwidth]

/-- What was written with one width is read with another just if it fits on one line of both, and
then it is read right. Otherwise the first line is refused: as the last one where it fills the
width that it is read with, as too long where it exceeds it, and as too short where it is full but
falls behind it. -/
theorem decode_other_width (data : Bytes) (w w' : Nat) (hw : 1 ≤ w) (hw' : 1 ≤ w') :
    ∃ t, encode w data = .ok t ∧
      (∀ d, decode w' t = .ok d ↔
        (w = w' ∨ (Base64.encode data).length < min w w') ∧ d = data) ∧
      ((Base64.encode data).length < w → (Base64.encode data).length = w' →
        decode w' t = .error (.lastLineTooLong (Base64.encode data).length w')) ∧
      (w' < min (Base64.encode data).length w →
        decode w' t = .error (.lineTooLong 1 (min (Base64.encode data).length w) w')) ∧
      (w ≤ (Base64.encode data).length → w < w' →
        decode w' t = .error (.lineTooShort 1 w w')) := by
  obtain ⟨t, hencode, hdecode⟩ := exists_encode_decode hw hw' data
  have hsingle (h : (Base64.encode data).length < w) : decode w' t =
      if (Base64.encode data).length < w' then .ok data
      else if (Base64.encode data).length = w' then
        .error (.lastLineTooLong (Base64.encode data).length w')
      else .error (.lineTooLong 1 (Base64.encode data).length w') := by
    rw [hdecode, checkLines_rows_of_lt h]
    split_ifs <;> rfl
  have hfull (h : w ≤ (Base64.encode data).length) : decode w' t =
      if w = w' then .ok data
      else if w' < w then .error (.lineTooLong 1 w w')
      else .error (.lineTooShort 1 w w') := by
    rw [hdecode, checkLines_rows_of_le hw h]
    split_ifs <;> rfl
  clear hdecode
  generalize (Base64.encode data).length = L at hsingle hfull ⊢
  refine ⟨t, hencode, fun d => ?_, ?_, ?_, ?_⟩
  · by_cases h : L < w
    · rw [hsingle h]
      split_ifs <;> simp [eq_comm] <;> omega
    · rw [hfull (by omega)]
      split_ifs <;> simp [eq_comm] <;> omega
  · intro hlt heq
    rw [hsingle hlt, if_neg (by omega), if_pos heq]
  · intro hmin
    by_cases h : L < w
    · rw [hsingle h, if_neg (by omega), if_neg (by omega), Nat.min_eq_left h.le]
    · rw [hfull (by omega), if_neg (by omega), if_pos (by omega), Nat.min_eq_right (by omega)]
  · intro hle hlt
    rw [hfull hle, if_neg (by omega), if_neg (by omega)]

/-- Eight symbols fill two lines of four and half a line of sixteen; read in lines of eight, the
first are too short and the other is a last line that is full. -/
theorem decode_other_width_eight : (1 ≤ 4 ∧ 1 ≤ 16 ∧ 1 ≤ 8) ∧
    (∃ t, encode 4 [1, 2, 3, 4, 5, 6] = .ok t ∧ decode 8 t = .error (.lineTooShort 1 4 8)) ∧
    ∃ t, encode 16 [1, 2, 3, 4, 5, 6] = .ok t ∧ decode 8 t = .error (.lastLineTooLong 8 8) := by
  have hlen : (Base64.encode [1, 2, 3, 4, 5, 6]).length = 8 := by decide
  obtain ⟨t, ht, -, -, -, hshort⟩ :=
    decode_other_width [1, 2, 3, 4, 5, 6] 4 8 (by decide) (by decide)
  obtain ⟨u, hu, -, hfull, -⟩ :=
    decode_other_width [1, 2, 3, 4, 5, 6] 16 8 (by decide) (by decide)
  rw [hlen] at hshort hfull
  exact ⟨by decide, ⟨t, ht, hshort (by decide) (by decide)⟩, u, hu, hfull (by decide) rfl⟩

end BeaconSeal.Armor
