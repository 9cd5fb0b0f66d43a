import BeaconSeal.Json.Lexeme
/-! Skipping a value of any depth: an automaton over tokens with the open brackets on a stack. -/
namespace BeaconSeal.Json

inductive Bracket where
  | array
  | object
  deriving DecidableEq, Repr

inductive Want where
  | value
  | valueOrClose
  | keyOrClose
  | key
  | colon
  | after
  deriving DecidableEq, Repr

def beginValue (s : List Bracket) : Token → Option (Want × List Bracket)
  | .openArray => some (.valueOrClose, .array :: s)
  | .openObject => some (.keyOrClose, .object :: s)
  | .text | .atom => some (.after, s)
  | _ => none

def step : Want → List Bracket → Token → Option (Want × List Bracket)
  | .value, s, k => beginValue s k
  | .valueOrClose, .array :: s, .closeArray => some (.after, s)
  | .valueOrClose, s, k => beginValue s k
  | .keyOrClose, .object :: s, .closeObject => some (.after, s)
  | .keyOrClose, s, .text | .key, s, .text => some (.colon, s)
  | .colon, s, .colon => some (.value, s)
  | .after, .array :: s, .comma => some (.value, .array :: s)
  | .after, .array :: s, .closeArray => some (.after, s)
  | .after, .object :: s, .comma => some (.key, .object :: s)
  | .after, .object :: s, .closeObject => some (.after, s)
  | _, _, _ => none

def skip (want : Want) (s : List Bracket) (t : Text) : Option Text :=
  match _h : token? t with
  | none => none
  | some (k, rest) =>
    match step want s k with
    | none => none
    | some (.after, []) => some rest
    | some (want, s) => skip want s rest
termination_by t.length
decreasing_by exact length_of_token _h

def skipValue (t : Text) : Option Text := skip .value [] t

theorem length_of_skip {want : Want} {s : List Bracket} {t rest : Text}
    (h : skip want s t = some rest) : rest.length < t.length := by
  fun_induction skip want s t with
  | case1 => cases h
  | case2 => cases h
  | case3 want s t k r hk => cases h; exact length_of_token hk
  | case4 want s t k r hk want' s' _ _ ih =>
    exact Nat.lt_trans (ih h) (length_of_token hk)

end BeaconSeal.Json
