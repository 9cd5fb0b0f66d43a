import BeaconSeal.Json.Skip
import BeaconSeal.Proofs.Lexemes
/-! The grammar of values, nested to any depth, and that skipping passes over just one value. What
is skipped is told by a stack of open brackets, so that the induction is on the grammar and carries
what happens after the value with the stack as it was. -/
namespace BeaconSeal.Json

namespace Bracket

def left : Bracket → Char
  | array => '['
  | object => '\x7b'

def right : Bracket → Char
  | array => ']'
  | object => '\x7d'

end Bracket

section Lists
variable {α : Type}

inductive Listed (text : α → Text) : List α → Text → Prop
  | one {a x b} : Blanks a → Blanks b → Listed text [x] (a ++ (text x ++ b))
  | cons {a x b xs t} : Blanks a → Blanks b → Listed text xs t →
    Listed text (x :: xs) (a ++ (text x ++ (b ++ ',' :: t)))

inductive Bracketed (b : Bracket) (text : α → Text) : List α → Text → Prop
  | empty {a} : Blanks a → Bracketed b text [] (b.left :: (a ++ [b.right]))
  | items {xs t} : Listed text xs t → Bracketed b text xs (b.left :: (t ++ [b.right]))

end Lists

structure Pair where
  key : Text
  before : Text
  after : Text
  value : Text

namespace Pair

def text (p : Pair) : Text := '"' :: (p.key ++ '"' :: (p.before ++ ':' :: (p.after ++ p.value)))

structure Formed (p : Pair) : Prop where
  literal : Literal p.key
  blanks_before : Blanks p.before
  blanks_after : Blanks p.after

end Pair

inductive Value : Text → Prop
  | word {w} : w ∈ ["null".toList, "true".toList, "false".toList] → Value w
  | number {t} : Number t → Value t
  | string {lit} : Literal lit → Value ('"' :: (lit ++ ['"']))
  | array {vs t} : (∀ v ∈ vs, Value v) → Bracketed .array id vs t → Value t
  | object {ps t} : (∀ p ∈ ps, Pair.Formed p) → (∀ p ∈ ps, Value p.value) →
    Bracketed .object Pair.text ps t → Value t

def resume : List Bracket → Text → Option Text
  | [], rest => some rest
  | b :: s, rest => skip .after (b :: s) rest

section Steps
variable {want want' : Want} {s s' : List Bracket} {t rest r : Text} {k : Token}

/-- One token, and then what its step says. -/
theorem skip_eq (want : Want) (s : List Bracket) (t : Text) : skip want s t =
    (token? t).bind fun p => (step want s p.1).bind fun q =>
      if q.1 = .after then resume q.2 p.2 else skip q.1 q.2 p.2 := by
  rw [skip]
  split
  next ht => rw [ht, Option.bind_none]
  next k rest ht =>
    rw [ht, Option.bind_some]
    split
    next hs => rw [hs, Option.bind_none]
    next hs => rw [hs, Option.bind_some, if_pos rfl, resume]
    next want' s' hne hs =>
      rw [hs, Option.bind_some]
      split
      next hafter =>
        subst hafter
        cases s' with
        | nil => exact absurd rfl (hne rfl)
        | cons b s' => rfl
      · rfl

theorem skip_of_step (ht : token? t = some (k, rest)) (hs : step want s k = some (want', s'))
    (hne : want' ≠ .after) : skip want s t = skip want' s' rest := by
  rw [skip_eq, ht, Option.bind_some, hs, Option.bind_some, if_neg hne]

theorem skip_of_after (ht : token? t = some (k, rest)) (hs : step want s k = some (.after, s')) :
    skip want s t = resume s' rest := by
  rw [skip_eq, ht, Option.bind_some, hs, Option.bind_some, if_pos rfl]

theorem skip_append {a : Text} (h : Blanks a) (t : Text) : skip want s (a ++ t) = skip want s t := by
  rw [skip_eq, skip_eq, token?_append h]

/-- Where each token of one state is good for another too, so is each text. -/
theorem skip_mono (hstep : ∀ k x, step want s k = some x → step want' s k = some x)
    (h : skip want s t = some r) : skip want' s t = some r := by
  rw [skip_eq, Option.bind_eq_some_iff] at h
  obtain ⟨p, hp, h⟩ := h
  obtain ⟨q, hq, h⟩ := Option.bind_eq_some_iff.1 h
  rw [skip_eq, hp, Option.bind_some, hstep _ _ hq, Option.bind_some]
  exact h

theorem follows_mark {c : Char} {k : Token} (h : Mark c k) (t : Text) : Follows (c :: t) := by
  intro d hd
  obtain rfl : c = d := by simpa using hd
  cases h <;> decide

end Steps

/-! Arrays and objects go through the same steps, each with its own tokens. -/

namespace Bracket

def opening : Bracket → Token
  | array => .openArray
  | object => .openObject

def closing : Bracket → Token
  | array => .closeArray
  | object => .closeObject

def item : Bracket → Want
  | array => .value
  | object => .key

def itemOrClose : Bracket → Want
  | array => .valueOrClose
  | object => .keyOrClose

variable (b : Bracket) (s : List Bracket)

theorem mark_left : Mark b.left b.opening := by
  cases b
  · exact .openArray
  · exact .openObject

theorem mark_right : Mark b.right b.closing := by
  cases b
  · exact .closeArray
  · exact .closeObject

theorem item_ne_after : b.item ≠ .after := by cases b <;> decide

theorem itemOrClose_ne_after : b.itemOrClose ≠ .after := by cases b <;> decide

theorem step_opening : step .value s b.opening = some (b.itemOrClose, b :: s) := by
  cases b <;> rfl

theorem step_comma : step .after (b :: s) .comma = some (b.item, b :: s) := by
  cases b <;> rfl

theorem step_closing : step .after (b :: s) b.closing = some (.after, s) := by
  cases b <;> rfl

theorem step_closing_empty : step b.itemOrClose (b :: s) b.closing = some (.after, s) := by
  cases b <;> rfl

theorem step_item {k : Token} {x : Want × List Bracket} (h : step b.item (b :: s) k = some x) :
    step b.itemOrClose (b :: s) k = some x := by
  cases b with
  | array =>
    cases k with
    | closeArray => cases h
    | _ => exact h
  | object =>
    cases k with
    | closeObject => cases h
    | _ => exact h

end Bracket

section Skipping
variable {α : Type} {s : List Bracket} {rest r : Text}

/-- Items are passed over one after the other, as each one is. -/
theorem skip_listed {text : α → Text} {xs : List α} {t : Text} (h : Listed text xs t) {b : Bracket}
    (hitem : ∀ x ∈ xs, ∀ rest r, Follows rest → skip .after (b :: s) rest = some r →
      skip b.item (b :: s) (text x ++ rest) = some r)
    (hr : resume s rest = some r) : skip b.item (b :: s) (t ++ b.right :: rest) = some r := by
  induction h with
  | @one a x _ ha hc =>
    rw [List.append_assoc, List.append_assoc, skip_append ha]
    refine hitem x List.mem_cons_self _ r (follows_append hc (follows_mark b.mark_right rest)) ?_
    rw [skip_of_after (token?_mark b.mark_right hc rest) (b.step_closing s), hr]
  | @cons a x _ xs t ha hc _ ih =>
    rw [List.append_assoc, List.append_assoc, List.append_assoc, skip_append ha]
    refine hitem x List.mem_cons_self _ r (follows_append hc (follows_mark .comma _)) ?_
    rw [List.cons_append, skip_of_step (token?_mark .comma hc _) (b.step_comma s) b.item_ne_after]
    exact ih fun x hx => hitem x (List.mem_cons_of_mem _ hx)

theorem skip_bracketed {text : α → Text} {xs : List α} {t : Text} {b : Bracket}
    (h : Bracketed b text xs t)
    (hitem : ∀ x ∈ xs, ∀ rest r, Follows rest → skip .after (b :: s) rest = some r →
      skip b.item (b :: s) (text x ++ rest) = some r)
    (hr : resume s rest = some r) : skip .value s (t ++ rest) = some r := by
  have hopen (u : Text) : skip .value s (b.left :: u) = skip b.itemOrClose (b :: s) u :=
    skip_of_step (token?_mark b.mark_left blanks_nil u) (b.step_opening s) b.itemOrClose_ne_after
  cases h with
  | empty ha =>
    rw [List.cons_append, List.append_assoc, List.singleton_append, hopen,
      skip_of_after (token?_mark b.mark_right ha rest) (b.step_closing_empty s), hr]
  | items ht =>
    rw [List.cons_append, List.append_assoc, List.singleton_append, hopen]
    exact skip_mono (fun k x => b.step_item s) (skip_listed ht hitem hr)

/-- A key and its value, where the value can be passed over. -/
theorem skip_pair {p : Pair} (h : p.Formed)
    (hvalue : skip .value s (p.value ++ rest) = some r) :
    skip .key s (p.text ++ rest) = some r := by
  have hkey : token? (p.text ++ rest) =
      some (.text, p.before ++ ':' :: (p.after ++ (p.value ++ rest))) := by
    rw [← token?_string h.literal]
    simp [Pair.text]
  rw [skip_of_step hkey rfl (by decide),
    skip_of_step (token?_mark .colon h.blanks_before _) rfl (by decide),
    skip_append h.blanks_after, hvalue]

/-- A value is passed over just as far as it goes, whatever brackets are open around it. -/
theorem skip_value {v : Text} (h : Value v) (hrest : Follows rest) (hr : resume s rest = some r) :
    skip .value s (v ++ rest) = some r := by
  induction h generalizing s rest r with
  | word hw => rw [skip_of_after (token?_word hw rest) rfl, hr]
  | number ht => rw [skip_of_after (token?_number ht hrest) rfl, hr]
  | string hlit =>
    rw [List.cons_append, List.append_assoc, List.singleton_append,
      skip_of_after (token?_string hlit rest) rfl, hr]
  | array _ ht ih =>
    refine skip_bracketed ht ?_ hr
    exact fun v hv rest r hrest hr => ih v hv hrest hr
  | object hformed _ ht ih =>
    refine skip_bracketed ht ?_ hr
    exact fun p hp rest r hrest hr => skip_pair (hformed p hp) (ih p hp hrest hr)

theorem skipValue_append {v : Text} (h : Value v) (hrest : Follows rest) :
    skipValue (v ++ rest) = some rest := skip_value h hrest rfl

end Skipping

end BeaconSeal.Json
