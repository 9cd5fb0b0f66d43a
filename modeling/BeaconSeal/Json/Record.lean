import BeaconSeal.Json.Skip
/-! Reading a record from a JSON document. The fields have names and an order; the document
is an object with those members, among others, or an array of the fields in their order.
A value is handed on as the text that begins with it, so that nothing is copied. -/
namespace BeaconSeal.Json

def valueAt (t : Text) : Option (Text × Text) :=
  let t := skipBlanks t
  (skipValue t).map (fun rest => (t, rest))

theorem length_of_valueAt {t v rest : Text} (h : valueAt t = some (v, rest)) :
    rest.length < t.length := by
  obtain ⟨r, hr, he⟩ := Option.map_eq_some_iff.1 h
  cases he
  exact Nat.lt_of_lt_of_le (length_of_skip hr) (length_dropWhile_le isBlank t)

def document? (t : Text) : Option Text := do
  let (v, rest) ← valueAt t
  if (skipBlanks rest).isEmpty then some v else none

def expect (c : Char) (t : Text) : Option Text :=
  match skipBlanks t with
  | [] => none
  | d :: rest => if d = c then some rest else none

theorem length_of_expect {c : Char} {t rest : Text} (h : expect c t = some rest) :
    rest.length < t.length := by
  have hb := length_dropWhile_le isBlank t
  unfold expect skipBlanks at h
  split at h
  · cases h
  · next d r hs =>
    rw [hs] at hb
    split at h
    · cases h
      simp only [List.length_cons] at hb
      omega
    · cases h

def member (t : Text) : Option (Text × Text × Text) := do
  let (key, t) ← (← expect '"' t) |> readString []
  let (v, rest) ← valueAt (← expect ':' t)
  some (key, v, rest)

theorem length_of_member {t key v rest : Text} (h : member t = some (key, v, rest)) :
    rest.length < t.length := by
  simp only [member, Option.bind_eq_bind, Option.bind_eq_some_iff, Option.some.injEq,
    Prod.exists, Prod.mk.injEq] at h
  obtain ⟨t1, h1, k, t2, h2, t3, h3, v', r, h4, _, _, rfl⟩ := h
  have := length_of_expect h1
  have := length_of_readString h2
  have := length_of_expect h3
  have := length_of_valueAt h4
  omega

def members (done : List (Text × Text)) (t : Text) : Option (List (Text × Text)) :=
  match _h : member t with
  | none => none
  | some (key, v, rest) =>
    match _hc : expect ',' rest with
    | some rest => members ((key, v) :: done) rest
    | none => (expect '\x7d' rest).map (fun _ => ((key, v) :: done).reverse)
termination_by t.length
decreasing_by exact Nat.lt_trans (length_of_expect _hc) (length_of_member _h)

def elements (done : List Text) (t : Text) : Option (List Text) :=
  match _h : valueAt t with
  | none => none
  | some (v, rest) =>
    match _hc : expect ',' rest with
    | some rest => elements (v :: done) rest
    | none => (expect ']' rest).map (fun _ => (v :: done).reverse)
termination_by t.length
decreasing_by exact Nat.lt_trans (length_of_expect _hc) (length_of_valueAt _h)

def object? (t : Text) : Option (List (Text × Text)) := do
  let t ← expect '\x7b' t
  match expect '\x7d' t with
  | some _ => some []
  | none => members [] t

def array? (t : Text) : Option (List Text) := do
  let t ← expect '[' t
  match expect ']' t with
  | some _ => some []
  | none => elements [] t

def single (ms : List (Text × Text)) (name : Text) : Option (Option Text) :=
  match ms.filter (fun m => m.1 = name) with
  | [] => some none
  | [m] => some (some m.2)
  | _ => none

def record (names : List Text) (t : Text) : Option (List (Option Text)) :=
  match object? t with
  | some ms => names.mapM (single ms)
  | none =>
    match array? t with
    | none => none
    | some vs =>
      if vs.length ≤ names.length then
        some (vs.map some ++ List.replicate (names.length - vs.length) none)
      else none

def text? : Text → Option Text
  | '"' :: t => (readString [] t).map Prod.fst
  | _ => none

def word? (t : Text) : Option UInt64 :=
  let digits := t.takeWhile Char.isDigit
  match t.dropWhile Char.isDigit with
  | '.' :: _ | 'e' :: _ | 'E' :: _ => none
  | _ =>
    if digits.isEmpty ∨ (digits.head? = some '0' ∧ digits.length > 1) then none
    else (Text.decimalBelow? UInt64.size 0 digits).map UInt64.ofNat

def optional? {α : Type} (read : Text → Option α) : Option Text → Option (Option α)
  | none | some ('n' :: _) => some none
  | some t => (read t).map some

end BeaconSeal.Json
