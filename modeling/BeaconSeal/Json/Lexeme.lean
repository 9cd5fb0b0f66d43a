import BeaconSeal.Text.Basic
/-! Lexemes of JSON. A string is read in full where its characters matter, and only checked
for its form where it is skipped: there an escape may name half of a surrogate pair. -/
namespace BeaconSeal.Json

def isBlank (c : Char) : Bool := c = ' ' || c = '\n' || c = '\t' || c = '\r'
def skipBlanks (t : Text) : Text := t.dropWhile isBlank

def hexValue? (c : Char) : Option Nat :=
  if '0' ≤ c ∧ c ≤ '9' then some (c.toNat-48)
  else if 'a' ≤ c ∧ c ≤ 'f' then some (c.toNat-87)
  else if 'A' ≤ c ∧ c ≤ 'F' then some (c.toNat-55)
  else none

def unit? (a b c d : Char) : Option Nat := do
  some ((((← hexValue? a)*16 + (← hexValue? b))*16 + (← hexValue? c))*16 + (← hexValue? d))

def short? : Char → Option Char
  | '"' => some '"'
  | '\\' => some '\\'
  | '/' => some '/'
  | 'b' => some '\x08'
  | 'f' => some '\x0c'
  | 'n' => some '\n'
  | 'r' => some '\r'
  | 't' => some '\t'
  | _ => none

def isLead (n : Nat) : Bool := 0xd800 ≤ n && n < 0xdc00
def isTrail (n : Nat) : Bool := 0xdc00 ≤ n && n < 0xe000
def joined (lead trail : Nat) : Char :=
  Char.ofNat (0x10000 + (lead-0xd800)*0x400 + (trail-0xdc00))

def readString (done : Text) : Text → Option (Text × Text)
  | [] => none
  | '"' :: t => some (done.reverse, t)
  | '\\' :: 'u' :: a :: b :: c :: d :: t =>
    match unit? a b c d with
    | none => none
    | some n =>
      if isLead n then
        match t with
        | '\\' :: 'u' :: e :: f :: g :: h :: t =>
          match unit? e f g h with
          | none => none
          | some m => if isTrail m then readString (joined n m :: done) t else none
        | _ => none
      else if isTrail n then none
      else readString (Char.ofNat n :: done) t
  | '\\' :: c :: t =>
    match short? c with
    | none => none
    | some x => readString (x :: done) t
  | c :: t => if c = '\\' ∨ c.toNat < 0x20 then none else readString (c :: done) t

def skipString : Text → Option Text
  | [] => none
  | '"' :: t => some t
  | '\\' :: 'u' :: a :: b :: c :: d :: t =>
    if (unit? a b c d).isSome then skipString t else none
  | '\\' :: c :: t => if (short? c).isSome then skipString t else none
  | c :: t => if c = '\\' ∨ c.toNat < 0x20 then none else skipString t

def digits? : Text → Option Text
  | c :: t => if c.isDigit then some (t.dropWhile Char.isDigit) else none
  | [] => none

def integer? : Text → Option Text
  | '0' :: c :: t => if c.isDigit then none else some (c :: t)
  | t => digits? t

def fraction? : Text → Option Text
  | '.' :: t => digits? t
  | t => some t

def exponent? : Text → Option Text
  | 'e' :: '+' :: t | 'e' :: '-' :: t | 'E' :: '+' :: t | 'E' :: '-' :: t => digits? t
  | 'e' :: t | 'E' :: t => digits? t
  | t => some t

def skipNumber (t : Text) : Option Text :=
  let t := match t with
    | '-' :: t => t
    | t => t
  integer? t >>= fraction? >>= exponent?

inductive Token where
  | openArray
  | closeArray
  | openObject
  | closeObject
  | comma
  | colon
  | text
  | atom
  deriving DecidableEq, Repr

def token? (t : Text) : Option (Token × Text) :=
  match skipBlanks t with
  | [] => none
  | '[' :: t => some (.openArray, t)
  | ']' :: t => some (.closeArray, t)
  | '\x7b' :: t => some (.openObject, t)
  | '\x7d' :: t => some (.closeObject, t)
  | ',' :: t => some (.comma, t)
  | ':' :: t => some (.colon, t)
  | '"' :: t => (skipString t).map (fun t => (.text, t))
  | 'n' :: 'u' :: 'l' :: 'l' :: t => some (.atom, t)
  | 't' :: 'r' :: 'u' :: 'e' :: t => some (.atom, t)
  | 'f' :: 'a' :: 'l' :: 's' :: 'e' :: t => some (.atom, t)
  | t => (skipNumber t).map (fun t => (.atom, t))

theorem length_dropWhile_le (p : Char → Bool) (t : Text) : (t.dropWhile p).length ≤ t.length :=
  (List.dropWhile_sublist p).length_le

theorem length_of_readString {done t s rest : Text} (h : readString done t = some (s, rest)) :
    rest.length < t.length := by
  fun_induction readString done t <;> (try simp only [List.length_cons]) <;> grind

theorem length_of_skipString {t rest : Text} (h : skipString t = some rest) :
    rest.length < t.length := by
  fun_induction skipString t <;> (try simp only [List.length_cons]) <;> grind

theorem length_of_digits {t rest : Text} (h : digits? t = some rest) :
    rest.length < t.length := by
  unfold digits? at h
  split at h
  · split at h
    · cases h
      have := length_dropWhile_le Char.isDigit ‹_›
      simp only [List.length_cons]
      omega
    · cases h
  · cases h

theorem length_of_integer {t rest : Text} (h : integer? t = some rest) :
    rest.length < t.length := by
  unfold integer? at h
  split at h
  · split at h
    · cases h
    · cases h; simp
  · exact length_of_digits h

theorem length_of_fraction {t rest : Text} (h : fraction? t = some rest) :
    rest.length ≤ t.length := by
  unfold fraction? at h
  split at h
  · have := length_of_digits h; simp only [List.length_cons]; omega
  · cases h; exact Nat.le_refl _

theorem length_of_exponent {t rest : Text} (h : exponent? t = some rest) :
    rest.length ≤ t.length := by
  unfold exponent? at h
  split at h
  all_goals first
    | (have hd := length_of_digits h; simp only [List.length_cons]; omega)
    | (cases h; exact Nat.le_refl _)

theorem length_of_skipNumber {t rest : Text} (h : skipNumber t = some rest) :
    rest.length < t.length := by
  unfold skipNumber at h
  simp only [Option.bind_eq_bind, Option.bind_eq_some_iff] at h
  obtain ⟨b, ⟨a, ha, hb⟩, hr⟩ := h
  have h1 := length_of_integer ha
  have h2 := length_of_fraction hb
  have h3 := length_of_exponent hr
  split at h1
  · simp only [List.length_cons]; omega
  · omega

theorem length_of_token {t rest : Text} {k : Token} (h : token? t = some (k, rest)) :
    rest.length < t.length := by
  have hb := length_dropWhile_le isBlank t
  unfold token? skipBlanks at h
  generalize t.dropWhile isBlank = u at h hb
  split at h
  all_goals first
    | cases h
    | (obtain ⟨r, hr, he⟩ := Option.map_eq_some_iff.1 h
       cases he
       first
         | have := length_of_skipString hr
         | have := length_of_skipNumber hr)
  all_goals
    try simp only [List.length_cons] at hb
    omega

end BeaconSeal.Json
