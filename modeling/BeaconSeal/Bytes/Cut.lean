/-! Cutting a list into consecutive pieces of one length. A block cipher reads its
input that way, and text is laid out in columns that way. Main statement: the full
pieces and the shorter rest are determined by their lengths and their concatenation. -/
namespace BeaconSeal.Cut
variable {α : Type _}

/-- Walks the list with the piece under construction (reversed), its length, and the
finished pieces (reversed). -/
def walk (n : Nat) : List α → Nat → List (List α) → List α → List (List α) × List α
  | piece, _, done, [] => (done.reverse, piece.reverse)
  | piece, k, done, x :: xs =>
    if k+1 = n then walk n [] 0 ((x :: piece).reverse :: done) xs
    else walk n (x :: piece) (k+1) done xs

def cut (n : Nat) (xs : List α) : List (List α) × List α := walk n [] 0 [] xs

def rows (n : Nat) (xs : List α) : List (List α) := (cut n xs).1 ++ [(cut n xs).2]

def pieces (n : Nat) (xs : List α) : List (List α) :=
  match cut n xs with
  | (full, []) => if full.isEmpty then [[]] else full
  | (full, rest) => full ++ [rest]

theorem walk_full {n : Nat} (b : List α) (k : Nat) (done : List (List α)) (xs piece : List α)
    (hk : piece.length = k) (hb : b ≠ []) (h : k + b.length = n) :
    walk n piece k done (b ++ xs) = walk n [] 0 ((piece.reverse ++ b) :: done) xs := by
  induction b generalizing piece k with
  | nil => contradiction
  | cons x b ih =>
    simp only [List.length_cons] at h
    match b, ih with
    | [], _ =>
      have hn : k+1 = n := by simpa using h
      simp [walk, hn]
    | y :: b, ih =>
      have hn : k+1 ≠ n := by simp only [List.length_cons] at h; omega
      rw [List.cons_append, walk, if_neg hn,
        ih (k+1) (x :: piece) (by simp [hk]) (by simp) (by omega)]
      simp

theorem walk_short {n : Nat} (b : List α) (k : Nat) (done : List (List α)) (piece : List α)
    (h : k + b.length < n) :
    walk n piece k done b = (done.reverse, piece.reverse ++ b) := by
  induction b generalizing piece k with
  | nil => simp [walk]
  | cons x b ih =>
    simp only [List.length_cons] at h
    have hn : k+1 ≠ n := by omega
    simp only [walk, hn, if_false]
    rw [ih (k+1) (x :: piece) (by omega)]
    simp

theorem walk_flatten {n : Nat} (hn : 0 < n) (full : List (List α)) (rest : List α)
    (done : List (List α)) (hfull : ∀ b ∈ full, b.length = n) (hrest : rest.length < n) :
    walk n [] 0 done (full.flatten ++ rest) = (done.reverse ++ full, rest) := by
  induction full generalizing done with
  | nil => simpa using walk_short rest 0 done [] (by simpa using hrest)
  | cons b full ih =>
    have hb := hfull b (by simp)
    have hne : b ≠ [] := by rintro rfl; simp at hb; omega
    rw [List.flatten_cons, List.append_assoc,
      walk_full b 0 done _ [] rfl hne (by simpa using hb),
      ih _ (fun c hc => hfull c (by simp [hc]))]
    simp

theorem cut_flatten {n : Nat} (hn : 0 < n) {full : List (List α)} {rest : List α}
    (hfull : ∀ b ∈ full, b.length = n) (hrest : rest.length < n) :
    cut n (full.flatten ++ rest) = (full, rest) := by
  simpa [cut] using walk_flatten hn full rest [] hfull hrest

theorem walk_sound {n : Nat} (hn : 0 < n) (xs : List α) (k : Nat) (done : List (List α))
    (piece : List α) (hk : piece.length = k) (hkn : k < n) (hdone : ∀ b ∈ done, b.length = n) :
    (∀ b ∈ (walk n piece k done xs).1, b.length = n) ∧
      (walk n piece k done xs).2.length < n ∧
      (walk n piece k done xs).1.flatten ++ (walk n piece k done xs).2 =
        done.reverse.flatten ++ (piece.reverse ++ xs) := by
  induction xs generalizing piece k done with
  | nil => simpa [walk, hk] using ⟨hdone, hkn⟩
  | cons x xs ih =>
    by_cases h : k+1 = n
    · simp only [walk, h, if_true]
      have := ih 0 ((x :: piece).reverse :: done) [] rfl hn (by
        intro b hb
        rcases List.mem_cons.mp hb with rfl | hb
        · simp [hk, h]
        · exact hdone b hb)
      simpa using this
    · simp only [walk, h, if_false]
      have := ih (k+1) done (x :: piece) (by simp [hk]) (by omega) hdone
      simpa using this

theorem cut_sound {n : Nat} (hn : 0 < n) (xs : List α) :
    (∀ b ∈ (cut n xs).1, b.length = n) ∧ (cut n xs).2.length < n ∧
      (cut n xs).1.flatten ++ (cut n xs).2 = xs := by
  simpa [cut] using walk_sound hn xs 0 [] [] rfl hn (by simp)

/-- The pieces are the only ones of their lengths whose concatenation is the list. -/
theorem cut_eq_iff {n : Nat} (hn : 0 < n) {xs : List α} {full : List (List α)} {rest : List α} :
    cut n xs = (full, rest) ↔
      (∀ b ∈ full, b.length = n) ∧ rest.length < n ∧ full.flatten ++ rest = xs := by
  constructor
  · intro h
    simpa [h] using cut_sound hn xs
  · rintro ⟨hfull, hrest, rfl⟩
    exact cut_flatten hn hfull hrest

end BeaconSeal.Cut
