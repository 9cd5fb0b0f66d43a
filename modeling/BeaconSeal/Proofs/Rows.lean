import BeaconSeal.Bytes.Cut
import Mathlib.Algebra.Order.Floor.Div
/-! Rows and pieces of a list, one at a time. A list is either shorter than a row, or a row
followed by a list; the two equations for `rows` follow that division, and so do inductions.
For `pieces` a list of just the length counts as short. -/
namespace BeaconSeal.Cut
variable {α : Type _}

theorem rows_of_lt {n : Nat} {xs : List α} (h : xs.length < n) : rows n xs = [xs] := by
  have hc : cut n xs = ([], xs) := (cut_eq_iff (by omega)).2 ⟨by simp, h, by simp⟩
  simp [rows, hc]

theorem cut_append {n : Nat} (hn : 0 < n) {row : List α} (hr : row.length = n) (xs : List α) :
    cut n (row ++ xs) = (row :: (cut n xs).1, (cut n xs).2) := by
  obtain ⟨hfull, hrest, hflat⟩ := cut_sound hn xs
  refine (cut_eq_iff hn).2 ⟨?_, hrest, by simp [hflat]⟩
  intro b hb
  rcases List.mem_cons.mp hb with rfl | hb
  · exact hr
  · exact hfull b hb

theorem rows_append {n : Nat} (hn : 0 < n) {row : List α} (hr : row.length = n) (xs : List α) :
    rows n (row ++ xs) = row :: rows n xs := by
  simp [rows, cut_append hn hr]

theorem rows_flatten {n : Nat} (hn : 0 < n) (xs : List α) : (rows n xs).flatten = xs := by
  obtain ⟨_, _, hflat⟩ := cut_sound hn xs
  simpa [rows] using hflat

theorem rows_eq_iff {n : Nat} (hn : 0 < n) {xs : List α} {full : List (List α)} {last : List α} :
    rows n xs = full ++ [last] ↔
      (∀ b ∈ full, b.length = n) ∧ last.length < n ∧ full.flatten ++ last = xs := by
  rw [← cut_eq_iff hn, rows, List.append_singleton_inj, Prod.ext_iff]

/-- A list is shorter than a row, or it is a row and a list to which the claim applies. -/
theorem rows_induction {n : Nat} (hn : 0 < n) {motive : List α → Prop}
    (short : ∀ xs, xs.length < n → motive xs)
    (full : ∀ row xs, row.length = n → motive xs → motive (row ++ xs)) (xs : List α) :
    motive xs := by
  by_cases h : xs.length < n
  · exact short xs h
  · have hdrop : motive (xs.drop n) := rows_induction hn short full (xs.drop n)
    have := full (xs.take n) (xs.drop n) (by simp; omega) hdrop
    rwa [List.take_append_drop] at this
termination_by xs.length
decreasing_by simp only [List.length_drop]; omega

theorem pieces_of_le {n : Nat} (hn : 0 < n) {xs : List α} (h : xs.length ≤ n) :
    pieces n xs = [xs] := by
  by_cases hlt : xs.length < n
  · have hc : cut n xs = ([], xs) := (cut_eq_iff hn).2 ⟨by simp, hlt, by simp⟩
    cases xs <;> simp [pieces, hc]
  · have hlen : xs.length = n := by omega
    have hc : cut n xs = ([xs], []) := (cut_eq_iff hn).2 ⟨by simpa using hlen, hn, by simp⟩
    simp [pieces, hc]

theorem pieces_append {n : Nat} (hn : 0 < n) {row : List α} (hr : row.length = n) {xs : List α}
    (hne : xs ≠ []) : pieces n (row ++ xs) = row :: pieces n xs := by
  obtain ⟨_, _, hflat⟩ := cut_sound hn xs
  rw [pieces, pieces, cut_append hn hr]
  cases hc : cut n xs with
  | mk full rest =>
    rw [hc] at hflat
    cases rest with
    | nil =>
      have hfull : full ≠ [] := by
        intro h
        subst h
        exact hne (by simpa using hflat.symm)
      simp [hfull]
    | cons x rest => rfl

theorem pieces_ne_nil (n : Nat) (xs : List α) : pieces n xs ≠ [] := by
  unfold pieces
  split
  · split
    · simp
    next h => simpa using h
  · simp

theorem pieces_induction {n : Nat} (hn : 0 < n) {motive : List α → Prop}
    (short : ∀ xs, xs.length ≤ n → motive xs)
    (full : ∀ row xs, row.length = n → xs ≠ [] → motive xs → motive (row ++ xs)) (xs : List α) :
    motive xs := by
  by_cases h : xs.length ≤ n
  · exact short xs h
  · have hdrop : motive (xs.drop n) := pieces_induction hn short full (xs.drop n)
    have hne : xs.drop n ≠ [] := by simpa using h
    have := full (xs.take n) (xs.drop n) (by simp; omega) hne hdrop
    rwa [List.take_append_drop] at this
termination_by xs.length
decreasing_by simp only [List.length_drop]; omega

theorem pieces_flatten {n : Nat} (hn : 0 < n) (xs : List α) : (pieces n xs).flatten = xs := by
  induction xs using pieces_induction hn with
  | short xs h => simp [pieces_of_le hn h]
  | full row xs hr hne ih => rw [pieces_append hn hr hne, List.flatten_cons, ih]

/-- As many pieces as it takes, but one at least. -/
theorem length_pieces {n : Nat} (hn : 0 < n) (xs : List α) :
    (pieces n xs).length = max 1 (xs.length ⌈/⌉ n) := by
  induction xs using pieces_induction hn with
  | short xs h =>
    have hone : xs.length ⌈/⌉ n ≤ 1 := (ceilDiv_le_iff_le_mul hn).2 (by simpa using h)
    rw [pieces_of_le hn h, Nat.max_eq_left hone, List.length_singleton]
  | full row xs hr hne ih =>
    have hpos : 0 < xs.length := List.length_pos_of_ne_nil hne
    have hstep : (n + xs.length) ⌈/⌉ n = xs.length ⌈/⌉ n + 1 := by
      rw [Nat.ceilDiv_eq_add_pred_div, Nat.ceilDiv_eq_add_pred_div, ← Nat.add_div_right _ hn]
      congr 1
      omega
    have hrest : 0 < xs.length ⌈/⌉ n := by
      rw [Nat.ceilDiv_eq_add_pred_div]
      exact Nat.div_pos (by omega) hn
    rw [pieces_append hn hr hne, List.length_cons, ih, List.length_append, hr, hstep]
    omega

end BeaconSeal.Cut
