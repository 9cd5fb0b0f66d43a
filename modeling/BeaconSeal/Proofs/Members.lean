import BeaconSeal.Json.Record
import BeaconSeal.Proofs.Values
import Mathlib.Data.List.Forall2
/-! Objects as lists of members, each one with its name, a spelling of it, and its value. Main
statements: an object is read as its members in their order, whatever stands after it, and a field
is found among them by its name, unless it is missing or repeated. -/
namespace BeaconSeal.Json

structure Member extends Pair where
  name : Text
  spelled : Spelled key name
  blanks_before : Blanks before
  blanks_after : Blanks after
  isValue : Value value

def Object (ms : List Member) (t : Text) : Prop := Bracketed .object (fun m => m.text) ms t

def Document (ms : List Member) (t : Text) : Prop :=
  ∃ lead body trail, Blanks lead ∧ Object ms body ∧ Blanks trail ∧ t = lead ++ (body ++ trail)

theorem Member.formed (m : Member) : m.toPair.Formed :=
  ⟨m.spelled.literal, m.blanks_before, m.blanks_after⟩

theorem Listed.map {α β : Type} {f : α → β} {text : β → Text} {xs : List α} {t : Text}
    (h : Listed (fun x => text (f x)) xs t) : Listed text (xs.map f) t := by
  induction h with
  | one ha hb => exact .one ha hb
  | cons ha hb _ ih => exact .cons ha hb ih

theorem Object.value {ms : List Member} {t : Text} (h : Object ms t) : Value t := by
  have hformed : ∀ p ∈ ms.map Member.toPair, p.Formed :=
    List.forall_mem_map.2 fun m _ => m.formed
  have hvalues : ∀ p ∈ ms.map Member.toPair, Value p.value :=
    List.forall_mem_map.2 fun m _ => m.isValue
  refine .object hformed hvalues ?_
  cases h with
  | empty ha => exact .empty ha
  | items h => exact .items h.map

def Member.bare (name v : Text) (hname : ∀ c ∈ name, Plain c) (hv : Value v) : Member where
  name := name
  key := name
  before := []
  after := []
  value := v
  spelled := spelled_plain hname
  blanks_before := blanks_nil
  blanks_after := blanks_nil
  isValue := hv

theorem exists_listed {α : Type} (text : α → Text) (x : α) (xs : List α) :
    ∃ t, Listed text (x :: xs) t := by
  induction xs generalizing x with
  | nil => exact ⟨_, .one blanks_nil blanks_nil⟩
  | cons y xs ih =>
    obtain ⟨t, ht⟩ := ih y
    exact ⟨_, .cons blanks_nil blanks_nil ht⟩

theorem exists_object (ms : List Member) : ∃ t, Object ms t := by
  cases ms with
  | nil => exact ⟨_, .empty blanks_nil⟩
  | cons m ms =>
    obtain ⟨t, ht⟩ := exists_listed (fun m : Member => m.text) m ms
    exact ⟨_, .items ht⟩

theorem exists_document (ms : List Member) : ∃ t, Document ms t := by
  obtain ⟨t, ht⟩ := exists_object ms
  exact ⟨_, [], t, [], blanks_nil, ht, blanks_nil, rfl⟩

theorem isBlank_left (b : Bracket) : isBlank b.left = false := by
  cases b <;> rfl

theorem Value.exists_cons {v : Text} (h : Value v) : ∃ c v', v = c :: v' ∧ isBlank c = false := by
  cases h with
  | word hw =>
    simp only [List.mem_cons, List.not_mem_nil, or_false] at hw
    rcases hw with rfl | rfl | rfl <;> exact ⟨_, _, rfl, rfl⟩
  | number ht =>
    obtain ⟨c, t, rfl, hc⟩ := ht.exists_cons
    exact ⟨c, t, rfl, isBlank_of_number hc⟩
  | string _ => exact ⟨_, _, rfl, rfl⟩
  | array _ ht => cases ht <;> exact ⟨_, _, rfl, isBlank_left _⟩
  | object _ _ ht => cases ht <;> exact ⟨_, _, rfl, isBlank_left _⟩

section Reading
variable {a t rest : Text}

theorem valueAt_append {v : Text} (ha : Blanks a) (hv : Value v) (hrest : Follows rest) :
    valueAt (a ++ (v ++ rest)) = some (v ++ rest, rest) := by
  obtain ⟨c, v', rfl, hc⟩ := hv.exists_cons
  have hstart : skipBlanks (a ++ (c :: v' ++ rest)) = c :: v' ++ rest := by
    rw [skipBlanks_append ha, List.cons_append, skipBlanks_cons hc]
  simp only [valueAt, hstart, skipValue_append hv hrest, Option.map_some]

theorem expect_append {c : Char} (ha : Blanks a) (hc : isBlank c = false) (t : Text) :
    expect c (a ++ c :: t) = some t := by
  rw [expect, skipBlanks_append ha, skipBlanks_cons hc]
  exact if_pos rfl

theorem expect_other {c d : Char} (ha : Blanks a) (hd : isBlank d = false) (hne : d ≠ c) (t : Text) :
    expect c (a ++ d :: t) = none := by
  rw [expect, skipBlanks_append ha, skipBlanks_cons hd]
  exact if_neg hne

theorem member_append (m : Member) (ha : Blanks a) (hrest : Follows rest) :
    member (a ++ (m.text ++ rest)) = some (m.name, m.value ++ rest, rest) := by
  have htext : m.text ++ rest =
      '"' :: (m.key ++ '"' :: (m.before ++ ':' :: (m.after ++ (m.value ++ rest)))) := by
    simp [Pair.text]
  have hquote := expect_append ha (by decide : isBlank '"' = false)
    (m.key ++ '"' :: (m.before ++ ':' :: (m.after ++ (m.value ++ rest))))
  have hkey := readString_of_spelled m.spelled []
    (m.before ++ ':' :: (m.after ++ (m.value ++ rest)))
  have hcolon := expect_append m.blanks_before (by decide : isBlank ':' = false)
    (m.after ++ (m.value ++ rest))
  have hvalue := valueAt_append m.blanks_after m.isValue hrest
  simp [member, htext, hquote, hkey, hcolon, hvalue]

end Reading

def Reads (m : Member) (r : Text × Text) : Prop :=
  r.1 = m.name ∧ ∃ rest, r.2 = m.value ++ rest ∧ Follows rest

section Members
variable {ms : List Member} {done : List (Text × Text)} {t key v rest : Text}

theorem reads_append (m : Member) (h : Follows rest) : Reads m (m.name, m.value ++ rest) :=
  ⟨rfl, rest, rfl, h⟩

theorem members_eq (hm : member t = some (key, v, rest)) : members done t =
    match expect ',' rest with
    | some rest' => members ((key, v) :: done) rest'
    | none => (expect '\x7d' rest).map fun _ => ((key, v) :: done).reverse := by
  rw [members]
  split
  next h =>
    rw [hm] at h
    cases h
  next h =>
    rw [hm] at h
    cases h
    split
    next hc => rw [hc]
    next hc => rw [hc]

theorem members_listed (h : Listed (fun m : Member => m.text) ms t)
    (done : List (Text × Text)) (rest : Text) :
    ∃ rs, members done (t ++ '\x7d' :: rest) = some (done.reverse ++ rs) ∧
      List.Forall₂ Reads ms rs := by
  induction h generalizing done with
  | @one a m b ha hb =>
    have hfollows : Follows (b ++ '\x7d' :: rest) := follows_append hb (follows_mark .closeObject _)
    refine ⟨_, ?_, .cons (reads_append m hfollows) .nil⟩
    rw [List.append_assoc, List.append_assoc]
    rw [members_eq (member_append m ha hfollows), expect_other hb (by decide) (by decide),
      expect_append hb (by decide)]
    simp
  | @cons a m b ms t ha hb _ ih =>
    have hfollows : Follows (b ++ ',' :: (t ++ '\x7d' :: rest)) :=
      follows_append hb (follows_mark .comma _)
    obtain ⟨rs, hrs, hreads⟩ :=
      ih ((m.name, m.value ++ (b ++ ',' :: (t ++ '\x7d' :: rest))) :: done)
    refine ⟨_, ?_, .cons (reads_append m hfollows) hreads⟩
    rw [List.append_assoc, List.append_assoc, List.append_assoc, List.cons_append,
      members_eq (member_append m ha hfollows), expect_append hb (by decide)]
    simpa using hrs

/-- Before the first key stand only blanks. -/
theorem expect_listed (h : Listed (fun m : Member => m.text) ms t) (rest : Text) :
    expect '\x7d' (t ++ rest) = none := by
  cases h with
  | one ha _ =>
    rw [List.append_assoc]
    exact expect_other ha (by decide) (by decide) _
  | cons ha _ _ =>
    rw [List.append_assoc]
    exact expect_other ha (by decide) (by decide) _

theorem object?_append (h : Object ms t) (rest : Text) :
    ∃ rs, object? (t ++ rest) = some rs ∧ List.Forall₂ Reads ms rs := by
  have hopen (u : Text) : expect '\x7b' ('\x7b' :: u) = some u :=
    expect_append blanks_nil (by decide) u
  cases h with
  | empty ha =>
    refine ⟨[], ?_, .nil⟩
    have hclose := expect_append ha (by decide : isBlank '\x7d' = false) rest
    simp [object?, Bracket.left, Bracket.right, hopen, hclose]
  | items ht =>
    obtain ⟨rs, hrs, hreads⟩ := members_listed ht [] rest
    refine ⟨rs, ?_, hreads⟩
    have hclose := expect_listed ht ('\x7d' :: rest)
    simpa [object?, Bracket.left, Bracket.right, hopen, hclose] using hrs

theorem follows_blanks (h : Blanks t) : Follows t := by
  have hnil : Follows [] := fun c hc => by cases hc
  simpa using follows_append h hnil

theorem document?_append (h : Document ms t) :
    ∃ body trail, Object ms body ∧ document? t = some (body ++ trail) := by
  obtain ⟨lead, body, trail, hlead, hbody, htrail, rfl⟩ := h
  refine ⟨body, trail, hbody, ?_⟩
  have hvalue := valueAt_append hlead hbody.value (follows_blanks htrail)
  simp [document?, hvalue, skipBlanks_eq_nil htrail]

end Members

section Fields
variable {ms : List Member} {rs : List (Text × Text)} {name : Text}

theorem filter_reads (h : List.Forall₂ Reads ms rs) (name : Text) :
    List.Forall₂ Reads (ms.filter (fun m => m.name = name)) (rs.filter (fun r => r.1 = name)) := by
  refine List.rel_filter ?_ h
  intro m r hr
  simp [hr.1]

/-- A member of a name that no other has is found, with whatever stands after its value. -/
theorem single_of_filter_eq {m : Member} (h : List.Forall₂ Reads ms rs)
    (hone : ms.filter (fun m => m.name = name) = [m]) :
    ∃ rest, Follows rest ∧ single rs name = some (some (m.value ++ rest)) := by
  have hreads := filter_reads h name
  rw [hone] at hreads
  obtain ⟨r, rs', hr, hnil, heq⟩ := List.forall₂_cons_left_iff.1 hreads
  obtain ⟨-, rest, hvalue, hrest⟩ := hr
  rw [List.forall₂_nil_left_iff] at hnil
  refine ⟨rest, hrest, ?_⟩
  simp [single, heq, hnil, hvalue]

theorem single_of_missing (h : List.Forall₂ Reads ms rs) (hnone : ∀ m ∈ ms, m.name ≠ name) :
    single rs name = some none := by
  have hreads := filter_reads h name
  rw [List.filter_eq_nil_iff.2 (by simpa using hnone), List.forall₂_nil_left_iff] at hreads
  rw [single, hreads]

/-- What is found shows how often the name occurs. -/
theorem length_filter_of_single (h : List.Forall₂ Reads ms rs) {v : Option Text}
    (hv : single rs name = some v) :
    (ms.filter (fun m => m.name = name)).length = v.toList.length := by
  rw [(filter_reads h name).length_eq]
  rw [single] at hv
  split at hv
  next heq =>
    cases hv
    simp [heq]
  next heq =>
    cases hv
    simp [heq]
  · cases hv

end Fields

def Quoted (s v : Text) : Prop := ∃ lit, Spelled lit s ∧ v = '"' :: (lit ++ ['"'])

def Once (ms : List Member) (name : String) (p : Text → Prop) : Prop :=
  ∃ m, ms.filter (fun m => m.name = name.toList) = [m] ∧ p m.value

def Field {α : Type} (rs : List (Text × Text)) (name : String) (read : Text → Option α) (a : α) :
    Prop :=
  ∃ v, single rs name.toList = some (some v) ∧ read v = some a

section Values
variable {s v rest : Text}

/-- A number in base ten is a number of a document. -/
theorem number_ofNat (n : Nat) : Number (Text.ofNat n) := by
  have hdigits : Digits (Text.ofNat n) :=
    ⟨Text.ofNat_ne_nil n, fun c hc => Text.isDigit_of_mem_ofNat hc⟩
  have hzero (ds : Text) (h : Text.ofNat n = '0' :: ds) : ds = [] := by
    have hn : n = 0 := Text.eq_zero_of_head_ofNat (by rw [h]; rfl)
    subst hn
    exact (List.cons.inj h).2.symm
  have hnumber := Number.plain ⟨hdigits, hzero⟩ .none .none
  rwa [List.append_nil, List.append_nil] at hnumber

theorem Quoted.value (h : Quoted s v) : Value v := by
  obtain ⟨lit, hlit, rfl⟩ := h
  exact .string hlit.literal

theorem exists_quoted (s : Text) : ∃ v, Quoted s v := by
  obtain ⟨lit, hlit⟩ := exists_spelled s
  exact ⟨_, lit, hlit, rfl⟩

theorem text?_append (h : Quoted s v) (rest : Text) : text? (v ++ rest) = some s := by
  obtain ⟨lit, hlit, rfl⟩ := h
  have hread := readString_of_spelled hlit [] rest
  rw [List.cons_append, List.append_assoc, List.singleton_append, text?, hread]
  rfl

theorem word?_append (n : UInt64) (hrest : Follows rest) :
    word? (Text.ofNat n.toNat ++ rest) = some n := by
  have hdigits : ∀ c ∈ Text.ofNat n.toNat, c.isDigit := fun c hc => Text.isDigit_of_mem_ofNat hc
  have htake : (Text.ofNat n.toNat ++ rest).takeWhile Char.isDigit = Text.ofNat n.toNat := by
    rw [List.takeWhile_append_of_pos hdigits]
    cases rest with
    | nil => simp
    | cons c rest => simp [(hrest c rfl).1]
  have hzero : ¬ ((Text.ofNat n.toNat).isEmpty ∨
      ((Text.ofNat n.toNat).head? = some '0' ∧ (Text.ofNat n.toNat).length > 1)) := by
    intro h
    rcases h with hempty | ⟨hhead, hlength⟩
    · exact Text.ofNat_ne_nil _ (List.isEmpty_iff.1 hempty)
    · rw [Text.eq_zero_of_head_ofNat hhead] at hlength
      contradiction
  have hvalue : Text.decimalBelow? UInt64.size 0 (Text.ofNat n.toNat) = some n.toNat := by
    have hdecimal := Text.decimal_ofNat n.toNat
    rw [Text.decimal] at hdecimal
    rw [Text.decimalBelow?_eq, hdecimal, if_pos n.toNat_lt]
  simp only [word?, htake, dropWhile_digits hdigits hrest.noDigit]
  split
  · exact absurd rfl (hrest _ rfl).2.1
  · exact absurd rfl (hrest _ rfl).2.2.1
  · exact absurd rfl (hrest _ rfl).2.2.2
  · rw [if_neg hzero, hvalue, Option.map_some, UInt64.ofNat_toNat]

end Values

section Records
variable {ms : List Member} {rs : List (Text × Text)} {t : Text}

/-- A field that is once among the members is read as any text that begins with its value is. -/
theorem field_of_once {α : Type} {name : String} {p : Text → Prop} {read : Text → Option α} {a : α}
    (h : List.Forall₂ Reads ms rs) (hone : Once ms name p)
    (hread : ∀ v rest, p v → Follows rest → read (v ++ rest) = some a) : Field rs name read a := by
  obtain ⟨m, hm, hp⟩ := hone
  obtain ⟨rest, hrest, hsingle⟩ := single_of_filter_eq h hm
  exact ⟨_, hsingle, hread m.value rest hp hrest⟩

theorem mapM_eq_some_iff {α β : Type} {f : α → Option β} {xs : List α} {ys : List β} :
    xs.mapM f = some ys ↔ List.Forall₂ (fun x y => f x = some y) xs ys := by
  induction xs generalizing ys with
  | nil => simp [eq_comm]
  | cons x xs ih =>
    simp only [List.mapM_cons, Option.bind_eq_bind, Option.bind_eq_some_iff, Option.pure_def,
      Option.some.injEq, ih, List.forall₂_cons_left_iff]
    constructor
    · intro h
      obtain ⟨y, hy, ys', hys, rfl⟩ := h
      exact ⟨y, ys', hy, hys, rfl⟩
    · intro h
      obtain ⟨y, ys', hy, hys, rfl⟩ := h
      exact ⟨y, hy, ys', hys, rfl⟩

theorem record_of_object? (names : List Text) (h : object? t = some rs) :
    record names t = names.mapM (single rs) := by
  rw [record, h]

end Records

end BeaconSeal.Json
