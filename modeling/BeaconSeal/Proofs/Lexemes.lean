import BeaconSeal.Json.Lexeme
import BeaconSeal.Proofs.Digits
/-! The forms of lexemes in JSON, and that the reader takes each one off the front of a text. A
string has many spellings; reading gives back what is spelled, whichever was chosen, and skipping
only asks for the form. -/
namespace BeaconSeal.Json

def Blanks (t : Text) : Prop := ∀ c ∈ t, isBlank c

/-- What may come after a number without being taken for a part of it. -/
def Follows (t : Text) : Prop :=
  ∀ c, t.head? = some c → ¬ c.isDigit ∧ c ≠ '.' ∧ c ≠ 'e' ∧ c ≠ 'E'

def FourDigits (n : Nat) (ds : Text) : Prop :=
  n < 0x10000 ∧ ds.map Char.toLower =
    [Hex.digit (n/0x1000), Hex.digit (n/0x100%16), Hex.digit (n/0x10%16), Hex.digit (n%16)]

instance (n : Nat) (ds : Text) : Decidable (FourDigits n ds) :=
  inferInstanceAs (Decidable (_ ∧ _))

def shorts : List (Char × Char) := [('"', '"'), ('\\', '\\'), ('/', '/'), ('b', '\x08'),
  ('f', '\x0c'), ('n', '\n'), ('r', '\r'), ('t', '\t')]

def Plain (c : Char) : Prop := 0x20 ≤ c.toNat ∧ c ≠ '"' ∧ c ≠ '\\'

instance (c : Char) : Decidable (Plain c) := inferInstanceAs (Decidable (_ ∧ _ ∧ _))

/-- How a text may be written between quotation marks. A character past the first plane takes two
escapes, which name the halves of a pair. -/
inductive Spelled : Text → Text → Prop
  | nil : Spelled [] []
  | plain {c lit s} : Plain c → Spelled lit s → Spelled (c :: lit) (c :: s)
  | short {e c lit s} : (e, c) ∈ shorts → Spelled lit s → Spelled ('\\' :: e :: lit) (c :: s)
  | unit {c ds lit s} : FourDigits c.toNat ds → Spelled lit s →
    Spelled ('\\' :: 'u' :: ds ++ lit) (c :: s)
  | pair {c ds es lit s} : 0x10000 ≤ c.toNat → FourDigits (0xd800 + (c.toNat - 0x10000)/0x400) ds →
    FourDigits (0xdc00 + (c.toNat - 0x10000)%0x400) es → Spelled lit s →
    Spelled ('\\' :: 'u' :: ds ++ '\\' :: 'u' :: es ++ lit) (c :: s)

/-- What may stand between quotation marks where nobody asks what it spells. -/
inductive Literal : Text → Prop
  | nil : Literal []
  | plain {c lit} : Plain c → Literal lit → Literal (c :: lit)
  | short {e c lit} : (e, c) ∈ shorts → Literal lit → Literal ('\\' :: e :: lit)
  | unit {n ds lit} : FourDigits n ds → Literal lit → Literal ('\\' :: 'u' :: ds ++ lit)

theorem Spelled.literal {lit s : Text} (h : Spelled lit s) : Literal lit := by
  induction h with
  | nil => exact .nil
  | plain hc _ ih => exact .plain hc ih
  | short he _ ih => exact .short he ih
  | unit hds _ ih => exact .unit hds ih
  | pair _ hds hes _ ih =>
    rw [List.append_assoc]
    exact .unit hds (.unit hes ih)

theorem plain_of_all {s : Text} (h : s.all (fun c => decide (Plain c))) : ∀ c ∈ s, Plain c := by
  simpa using h

theorem spelled_plain {s : Text} (h : ∀ c ∈ s, Plain c) : Spelled s s := by
  induction s with
  | nil => exact .nil
  | cons c s ih =>
    rw [List.forall_mem_cons] at h
    exact .plain h.1 (ih h.2)

/-- Each text can be spelled: up to the first plane by the numbers of its characters. -/
theorem exists_spelled (s : Text) : ∃ lit, Spelled lit s := by
  induction s with
  | nil => exact ⟨[], .nil⟩
  | cons c s ih =>
    obtain ⟨lit, hlit⟩ := ih
    by_cases hc : c.toNat < 0x10000
    · have hdigits : FourDigits c.toNat [Hex.digit (c.toNat/0x1000), Hex.digit (c.toNat/0x100%16),
          Hex.digit (c.toNat/0x10%16), Hex.digit (c.toNat%16)] := by
        refine ⟨hc, ?_⟩
        simp only [List.map_cons, List.map_nil]
        rw [Hex.toLower_digit (by omega), Hex.toLower_digit (by omega),
          Hex.toLower_digit (by omega), Hex.toLower_digit (by omega)]
      exact ⟨_, .unit hdigits hlit⟩
    · have hplain : Plain c := by
        refine ⟨by omega, ?_, ?_⟩
        · rintro rfl
          exact hc (by decide)
        · rintro rfl
          exact hc (by decide)
      exact ⟨_, .plain hplain hlit⟩

def Digits (ds : Text) : Prop := ds ≠ [] ∧ ∀ c ∈ ds, c.isDigit

def Whole (ds : Text) : Prop := Digits ds ∧ ∀ ds', ds = '0' :: ds' → ds' = []

inductive Fraction : Text → Prop
  | none : Fraction []
  | point {ds} : Digits ds → Fraction ('.' :: ds)

inductive Exponent : Text → Prop
  | none : Exponent []
  | bare {e ds} : e = 'e' ∨ e = 'E' → Digits ds → Exponent (e :: ds)
  | signed {e sign ds} : e = 'e' ∨ e = 'E' → sign = '+' ∨ sign = '-' → Digits ds →
    Exponent (e :: sign :: ds)

inductive Number : Text → Prop
  | plain {w f e} : Whole w → Fraction f → Exponent e → Number (w ++ (f ++ e))
  | minus {w f e} : Whole w → Fraction f → Exponent e → Number ('-' :: (w ++ (f ++ e)))

section Blanks
variable {a t : Text}

theorem blanks_nil : Blanks [] := fun _ hc => absurd hc List.not_mem_nil

theorem skipBlanks_append (h : Blanks a) (t : Text) : skipBlanks (a ++ t) = skipBlanks t :=
  List.dropWhile_append_of_pos h

theorem skipBlanks_cons {c : Char} (h : isBlank c = false) (t : Text) :
    skipBlanks (c :: t) = c :: t := by
  rw [skipBlanks, List.dropWhile_cons, h]
  rfl

theorem skipBlanks_eq_nil (h : Blanks a) : skipBlanks a = [] := List.dropWhile_eq_nil_iff.2 h

theorem token?_append (h : Blanks a) (t : Text) : token? (a ++ t) = token? t := by
  rw [token?, skipBlanks_append h, token?]

theorem follows_append (h : Blanks a) (ht : Follows t) : Follows (a ++ t) := by
  cases a with
  | nil => exact ht
  | cons b a =>
    intro c hc
    obtain rfl : b = c := by simpa using hc
    have hb := h b List.mem_cons_self
    simp only [isBlank, Bool.or_eq_true, decide_eq_true_eq] at hb
    rcases hb with ((rfl | rfl) | rfl) | rfl
    all_goals decide

end Blanks

theorem hexValue?_of_toLower {c : Char} {n : Nat} (hn : n < 16) (h : c.toLower = Hex.digit n) :
    hexValue? c = some n := by
  have hall : ∀ m < 128, ∀ n < 16, (Char.ofNat m).toLower = Hex.digit n →
      hexValue? (Char.ofNat m) = some n := by decide +kernel
  have hvalue := hall c.toNat (Hex.lt_of_toLower (h ▸ Hex.digit_lt hn)) n hn
  rw [Char.ofNat_toNat] at hvalue
  exact hvalue h

theorem FourDigits.exists_unit? {n : Nat} {ds : Text} (h : FourDigits n ds) :
    ∃ a b c d, ds = [a, b, c, d] ∧ unit? a b c d = some n := by
  obtain ⟨hn, hds⟩ := h
  obtain ⟨a, ds, rfl, ha, hds⟩ := List.map_eq_cons_iff.1 hds
  obtain ⟨b, ds, rfl, hb, hds⟩ := List.map_eq_cons_iff.1 hds
  obtain ⟨c, ds, rfl, hc, hds⟩ := List.map_eq_cons_iff.1 hds
  obtain ⟨d, ds, rfl, hd, hds⟩ := List.map_eq_cons_iff.1 hds
  obtain rfl := List.map_eq_nil_iff.1 hds
  refine ⟨a, b, c, d, rfl, ?_⟩
  have hvalues : (((n/0x1000*16 + n/0x100%16)*16 + n/0x10%16)*16 + n%16) = n := by omega
  rw [unit?, hexValue?_of_toLower (by omega) ha, hexValue?_of_toLower (by omega) hb,
    hexValue?_of_toLower (by omega) hc, hexValue?_of_toLower (by omega) hd]
  exact congrArg some hvalues

theorem short?_of_mem {e c : Char} (h : (e, c) ∈ shorts) : short? e = some c := by
  simp only [shorts, List.mem_cons, Prod.mk.injEq, List.not_mem_nil, or_false] at h
  rcases h with ⟨rfl, rfl⟩ | ⟨rfl, rfl⟩ | ⟨rfl, rfl⟩ | ⟨rfl, rfl⟩ | ⟨rfl, rfl⟩ | ⟨rfl, rfl⟩ |
    ⟨rfl, rfl⟩ | ⟨rfl, rfl⟩
  all_goals rfl

section Strings
variable {done t : Text} {c : Char}

theorem readString_plain (h : Plain c) :
    readString done (c :: t) = readString (c :: done) t := by
  obtain ⟨hc, hquote, hslash⟩ := h
  rw [readString]
  · rw [if_neg]
    simp [hslash]
    omega
  · exact hquote
  · intros
    contradiction
  · intros
    contradiction

theorem skipString_plain (h : Plain c) : skipString (c :: t) = skipString t := by
  obtain ⟨hc, hquote, hslash⟩ := h
  rw [skipString]
  · rw [if_neg]
    simp [hslash]
    omega
  · exact hquote
  · intros
    contradiction
  · intros
    contradiction

theorem readString_short {e : Char} (h : (e, c) ∈ shorts) :
    readString done ('\\' :: e :: t) = readString (c :: done) t := by
  have hshort := short?_of_mem h
  rw [readString]
  · rw [hshort]
  · intros
    subst_vars
    cases hshort

theorem skipString_short {e : Char} (h : (e, c) ∈ shorts) :
    skipString ('\\' :: e :: t) = skipString t := by
  have hshort := short?_of_mem h
  rw [skipString]
  · rw [hshort]
    rfl
  · intros
    subst_vars
    cases hshort

theorem skipString_unit {n : Nat} {ds : Text} (h : FourDigits n ds) :
    skipString ('\\' :: 'u' :: ds ++ t) = skipString t := by
  obtain ⟨a, b, c, d, rfl, hunit⟩ := h.exists_unit?
  simp [skipString, hunit]

/-- A character of the first plane is no half of a pair. -/
theorem not_half (c : Char) : isLead c.toNat = false ∧ isTrail c.toNat = false := by
  have hvalid : c.toNat < 0xd800 ∨ 0xdfff < c.toNat ∧ c.toNat < 0x110000 := c.valid
  simp only [isLead, isTrail, Bool.and_eq_false_iff, decide_eq_false_iff_not]
  omega

theorem readString_unit {ds : Text} (h : FourDigits c.toNat ds) :
    readString done ('\\' :: 'u' :: ds ++ t) = readString (c :: done) t := by
  obtain ⟨a, b, c', d, rfl, hunit⟩ := h.exists_unit?
  obtain ⟨hlead, htrail⟩ := not_half c
  simp [readString, hunit, hlead, htrail]

theorem readString_pair {ds es : Text} (hc : 0x10000 ≤ c.toNat)
    (hds : FourDigits (0xd800 + (c.toNat - 0x10000)/0x400) ds)
    (hes : FourDigits (0xdc00 + (c.toNat - 0x10000)%0x400) es) :
    readString done ('\\' :: 'u' :: ds ++ '\\' :: 'u' :: es ++ t) = readString (c :: done) t := by
  have hvalid : c.toNat < 0xd800 ∨ 0xdfff < c.toNat ∧ c.toNat < 0x110000 := c.valid
  obtain ⟨a, b, c', d, rfl, hlead⟩ := hds.exists_unit?
  obtain ⟨e, f, g, k, rfl, htrail⟩ := hes.exists_unit?
  have hisLead : isLead (0xd800 + (c.toNat - 0x10000)/0x400) := by
    simp only [isLead, Bool.and_eq_true, decide_eq_true_eq]
    omega
  have hisTrail : isTrail (0xdc00 + (c.toNat - 0x10000)%0x400) := by
    simp only [isTrail, Bool.and_eq_true, decide_eq_true_eq]
    omega
  have hjoined : joined (0xd800 + (c.toNat - 0x10000)/0x400)
      (0xdc00 + (c.toNat - 0x10000)%0x400) = c := by
    rw [joined, show 0x10000 + (0xd800 + (c.toNat - 0x10000)/0x400 - 0xd800)*0x400 +
      (0xdc00 + (c.toNat - 0x10000)%0x400 - 0xdc00) = c.toNat by omega, Char.ofNat_toNat]
  simp [readString, hlead, htrail, hisLead, hisTrail, hjoined]

/-- A string is read as the text that it spells, up to the quotation mark. -/
theorem readString_of_spelled {lit s : Text} (h : Spelled lit s) (done rest : Text) :
    readString done (lit ++ '"' :: rest) = some (done.reverse ++ s, rest) := by
  induction h generalizing done with
  | nil => simp [readString]
  | plain hc _ ih =>
    rw [List.cons_append, readString_plain hc, ih]
    simp
  | short he _ ih =>
    rw [List.cons_append, List.cons_append, readString_short he, ih]
    simp
  | unit hds _ ih =>
    rw [List.append_assoc, readString_unit hds, ih]
    simp
  | pair hc hds hes _ ih =>
    rw [List.append_assoc, readString_pair hc hds hes, ih]
    simp

theorem skipString_of_literal {lit : Text} (h : Literal lit) (rest : Text) :
    skipString (lit ++ '"' :: rest) = some rest := by
  induction h with
  | nil => simp [skipString]
  | plain hc _ ih => rw [List.cons_append, skipString_plain hc, ih]
  | short he _ ih => rw [List.cons_append, List.cons_append, skipString_short he, ih]
  | unit hds _ ih => rw [List.append_assoc, skipString_unit hds, ih]

end Strings

section Numbers
variable {ds rest : Text}

def NoDigit (t : Text) : Prop := ∀ c, t.head? = some c → ¬ c.isDigit

theorem Follows.noDigit (h : Follows rest) : NoDigit rest := fun c hc => (h c hc).1

theorem dropWhile_digits (h : ∀ c ∈ ds, c.isDigit) (hrest : NoDigit rest) :
    (ds ++ rest).dropWhile Char.isDigit = rest := by
  rw [List.dropWhile_append_of_pos h]
  cases rest with
  | nil => rfl
  | cons c rest => rw [List.dropWhile_cons, if_neg (hrest c rfl)]

theorem digits?_append (h : Digits ds) (hrest : NoDigit rest) :
    digits? (ds ++ rest) = some rest := by
  obtain ⟨hne, hds⟩ := h
  cases ds with
  | nil => contradiction
  | cons d ds =>
    rw [List.forall_mem_cons] at hds
    rw [List.cons_append, digits?, if_pos hds.1, dropWhile_digits hds.2 hrest]

theorem integer?_append (h : Whole ds) (hrest : NoDigit rest) :
    integer? (ds ++ rest) = some rest := by
  have hdigits := digits?_append h.1 hrest
  unfold integer?
  split
  next c t heq =>
    -- a zero before another character is all there is of the number
    cases ds with
    | nil => exact absurd rfl h.1.1
    | cons d ds =>
      rw [List.cons_append, List.cons.injEq] at heq
      obtain ⟨rfl, heq⟩ := heq
      rw [h.2 ds rfl, List.nil_append] at heq
      rw [heq, if_neg (hrest c (by rw [heq]; rfl))]
  · exact hdigits

theorem fraction?_append {f : Text} (h : Fraction f) (hrest : NoDigit rest)
    (hpoint : rest.head? ≠ some '.') : fraction? (f ++ rest) = some rest := by
  cases h with
  | none =>
    rw [List.nil_append]
    unfold fraction?
    split
    · exact absurd rfl hpoint
    · rfl
  | point hds => rw [List.cons_append, fraction?, digits?_append hds hrest]

theorem exponent?_append {e : Text} (h : Exponent e) (hrest : Follows rest) :
    exponent? (e ++ rest) = some rest := by
  cases h with
  | none =>
    cases rest with
    | nil => rfl
    | cons c rest =>
      obtain ⟨-, -, he, hE⟩ := hrest c rfl
      simp [exponent?, he, hE]
  | @bare e ds he hds =>
    have hread := digits?_append hds hrest.noDigit
    cases ds with
    | nil => exact absurd rfl hds.1
    | cons d ds =>
      -- a digit is no sign
      have hd := hds.2 d List.mem_cons_self
      have hplus : d ≠ '+' := fun h => by subst h; cases hd
      have hminus : d ≠ '-' := fun h => by subst h; cases hd
      rw [← hread]
      rcases he with rfl | rfl
      · simp [exponent?, hplus, hminus]
      · simp [exponent?, hplus, hminus]
  | signed he hsign hds =>
    rw [← digits?_append hds hrest.noDigit]
    rcases he with rfl | rfl
    · rcases hsign with rfl | rfl <;> rfl
    · rcases hsign with rfl | rfl <;> rfl

/-- Fraction and exponent are told by their first character, which is no digit. -/
theorem noDigit_parts {f e : Text} (hf : Fraction f) (he : Exponent e) (hrest : Follows rest) :
    NoDigit (e ++ rest) ∧ (e ++ rest).head? ≠ some '.' ∧ NoDigit (f ++ (e ++ rest)) := by
  have hexp : NoDigit (e ++ rest) ∧ (e ++ rest).head? ≠ some '.' := by
    cases he with
    | none => exact ⟨hrest.noDigit, fun h => (hrest '.' h).2.1 rfl⟩
    | bare he _ => rcases he with rfl | rfl <;> simp [NoDigit]
    | signed he _ _ => rcases he with rfl | rfl <;> simp [NoDigit]
  refine ⟨hexp.1, hexp.2, ?_⟩
  cases hf with
  | none => exact hexp.1
  | point _ => simp [NoDigit]

/-- A number begins with a digit or with the sign. -/
theorem Number.exists_cons {t : Text} (h : Number t) :
    ∃ c t', t = c :: t' ∧ (c.isDigit ∨ c = '-') := by
  cases h with
  | @plain w f e hw hf he =>
    cases w with
    | nil => exact absurd rfl hw.1.1
    | cons d w => exact ⟨d, _, rfl, .inl (hw.1.2 d List.mem_cons_self)⟩
  | minus hw hf he => exact ⟨_, _, rfl, .inr rfl⟩

theorem skipNumber_of_digit {c : Char} (h : c.isDigit) (t : Text) :
    skipNumber (c :: t) = (integer? (c :: t) >>= fraction? >>= exponent?) := by
  have hminus : c ≠ '-' := fun heq => by subst heq; cases h
  simp [skipNumber, hminus]

theorem parts_append {w f e : Text} (hw : Whole w) (hf : Fraction f) (he : Exponent e)
    (hrest : Follows rest) :
    (integer? (w ++ (f ++ e) ++ rest) >>= fraction? >>= exponent?) = some rest := by
  obtain ⟨hexp, hpoint, hfrac⟩ := noDigit_parts hf he hrest
  simp only [List.append_assoc, Option.bind_eq_bind]
  rw [integer?_append hw hfrac, Option.bind_some, fraction?_append hf hexp hpoint,
    Option.bind_some, exponent?_append he hrest]

theorem skipNumber_append {t : Text} (h : Number t) (hrest : Follows rest) :
    skipNumber (t ++ rest) = some rest := by
  cases h with
  | @plain w f e hw hf he =>
    rw [← parts_append hw hf he hrest]
    cases w with
    | nil => exact absurd rfl hw.1.1
    | cons d w => exact skipNumber_of_digit (hw.1.2 d List.mem_cons_self) _
  | minus hw hf he => exact parts_append hw hf he hrest

end Numbers

section Tokens

theorem ne_of_number {c : Char} (hc : c.isDigit ∨ c = '-') (d : Char) (hd : d.isDigit = false)
    (hminus : d ≠ '-') : c ≠ d := by
  intro heq
  subst heq
  simp [hd, hminus] at hc

theorem isBlank_of_number {c : Char} (hc : c.isDigit ∨ c = '-') : isBlank c = false := by
  have hne := ne_of_number hc
  simp only [isBlank, Bool.or_eq_false_iff, decide_eq_false_iff_not]
  exact ⟨⟨⟨hne _ rfl (by decide), hne _ rfl (by decide)⟩, hne _ rfl (by decide)⟩,
    hne _ rfl (by decide)⟩

/-- A digit or the sign begins no other token. -/
theorem token?_of_number {c : Char} (hc : c.isDigit ∨ c = '-') (t : Text) :
    token? (c :: t) = (skipNumber (c :: t)).map (fun t => (.atom, t)) := by
  rw [token?, skipBlanks_cons (isBlank_of_number hc)]
  split
  case h_1 heq => cases heq
  case h_12 => rfl
  all_goals
    next heq => exact absurd (List.cons.inj heq).1 (ne_of_number hc _ rfl (by decide))

theorem token?_number {t rest : Text} (h : Number t) (hrest : Follows rest) :
    token? (t ++ rest) = some (.atom, rest) := by
  have hskip := skipNumber_append h hrest
  obtain ⟨c, t, rfl, hc⟩ := h.exists_cons
  rw [List.cons_append] at hskip ⊢
  rw [token?_of_number hc, hskip]
  rfl

theorem token?_string {lit : Text} (h : Literal lit) (rest : Text) :
    token? ('"' :: (lit ++ '"' :: rest)) = some (.text, rest) := by
  change (skipString (lit ++ '"' :: rest)).map (fun t => (Token.text, t)) = _
  rw [skipString_of_literal h]
  rfl

inductive Mark : Char → Token → Prop
  | openArray : Mark '[' .openArray
  | closeArray : Mark ']' .closeArray
  | openObject : Mark '\x7b' .openObject
  | closeObject : Mark '\x7d' .closeObject
  | comma : Mark ',' .comma
  | colon : Mark ':' .colon

theorem token?_mark {c : Char} {k : Token} (h : Mark c k) {a : Text} (ha : Blanks a) (t : Text) :
    token? (a ++ c :: t) = some (k, t) := by
  rw [token?_append ha]
  cases h <;> rfl

theorem token?_word {w : Text} (h : w ∈ ["null".toList, "true".toList, "false".toList])
    (t : Text) : token? (w ++ t) = some (.atom, t) := by
  simp only [List.mem_cons, List.not_mem_nil, or_false] at h
  rcases h with rfl | rfl | rfl <;> rfl

end Tokens

end BeaconSeal.Json
