import BeaconSeal.Bytes.Basic
/-! Text as a list of characters: its bytes in UTF-8, its fields and numbers, and its white
space in the sense of the Unicode property. -/
namespace BeaconSeal

abbrev Text := List Char

namespace Text

def utf8 (t : Text) : Bytes := t.flatMap String.utf8EncodeChar

/-- Refuses what is no UTF-8: stray or missing continuations, overlong forms,
surrogates, and numbers past the last character. -/
def ofUtf8? (b : Bytes) : Option Text := b.toByteArray.utf8Decode?.map Array.toList

def width (t : Text) : Nat := t.foldl (fun n c => n + c.utf8Size) 0

def fields (sep : Char) (t : Text) : List Text :=
  t.foldr (fun c acc => if c = sep then [] :: acc else
    match acc with
    | [] => [[c]]
    | f :: fs => (c :: f) :: fs) [[]]

def isBlank (c : Char) : Bool :=
  let n := c.toNat
  (9 ≤ n && n ≤ 13) || n = 32 || n = 0x85 || n = 0xa0 || n = 0x1680 ||
    (0x2000 ≤ n && n ≤ 0x200a) || n = 0x2028 || n = 0x2029 || n = 0x202f || n = 0x205f || n = 0x3000

def trimStart (t : Text) : Text := t.dropWhile isBlank

def trimEnd (t : Text) : Text × Nat :=
  let kept := (t.reverse.dropWhile isBlank).reverse
  (kept, t.length - kept.length)

def ofNat (n : Nat) : Text := Nat.toDigits 10 n

def withDigit (n : Nat) (c : Char) : Nat := 10*n + (c.toNat-48)

def decimal (t : Text) : Nat := t.foldl withDigit 0

def decimalBelow? (bound : Nat) : Nat → Text → Option Nat
  | n, [] => if n < bound then some n else none
  | n, c :: t => if n < bound then decimalBelow? bound (withDigit n c) t else none

theorem le_foldl_withDigit (t : Text) (n : Nat) : n ≤ t.foldl withDigit n := by
  induction t generalizing n with
  | nil => exact Nat.le_refl _
  | cons c t ih =>
    have h := ih (withDigit n c)
    simp only [List.foldl_cons]
    simp only [withDigit] at h ⊢
    omega

theorem decimalBelow?_eq (bound n : Nat) (t : Text) : decimalBelow? bound n t =
    if t.foldl withDigit n < bound then some (t.foldl withDigit n) else none := by
  induction t generalizing n with
  | nil => rfl
  | cons c t ih =>
    by_cases h : n < bound
    · simp only [decimalBelow?, if_pos h, List.foldl_cons]
      exact ih _
    · have hle := le_foldl_withDigit (c :: t) n
      rw [decimalBelow?, if_neg h, if_neg (by omega)]

end Text
end BeaconSeal
