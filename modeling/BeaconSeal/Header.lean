import BeaconSeal.Stanza
/-! The text header of an envelope: a version line, the stanzas, and a line with the
authentication code over everything up to its marker. -/
namespace BeaconSeal

structure Header where
  stanzas : List Stanza
  mac : SizedBytes 32
  deriving DecidableEq, Repr

namespace Header

inductive Fault where
  | unexpectedEnd
  | notUtf8
  | version
  | word (fault : Stanza.WordFault)
  | unexpectedLine (line : Text)
  | bodyColumns (got : Nat)
  | bodyBase64 (reason : String)
  | macBase64 (reason : String)
  | macLength (got : Nat)
  | noStanzas
  | shortPayload (got : Nat)
  | other (reason : String)
  deriving DecidableEq, Repr

def Fault.message : Fault → String
  | unexpectedEnd => "unexpected end of header"
  | notUtf8 => "non-UTF-8 header line"
  | version => "unsupported version line"
  | word fault => fault.message
  | unexpectedLine line => "unexpected line " ++ Text.quote (line.take 32)
  | bodyColumns got => s!"stanza body line of {got} columns"
  | bodyBase64 reason => "stanza body: Invalid base64: " ++ reason
  | macBase64 reason => "MAC: Invalid base64: " ++ reason
  | macLength got => s!"MAC must be 32 bytes, got {got}"
  | noStanzas => "no stanzas"
  | shortPayload got => s!"payload of {got} bytes is shorter than the 16-byte nonce"
  | other reason => reason

def versionLine : Text := "age-encryption.org/v1".toList
def marker : Text := ['-', '-', '-']
def macArrow : Text := ['-', '-', '-', ' ']

def macInput (stanzas : List Stanza) : Except Stanza.WordFault Text := do
  let blocks ← stanzas.mapM Stanza.render
  .ok (versionLine ++ '\n' :: blocks.flatten ++ marker)

def render (h : Header) : Except Stanza.WordFault Text := do
  .ok ((← macInput h.stanzas) ++ ' ' :: Base64.encodeBare h.mac.1 ++ ['\n'])

def nextLine (b : Bytes) : Except Fault (Text × Bytes) :=
  match b.dropWhile (· ≠ 10) with
  | [] => .error .unexpectedEnd
  | _ :: rest =>
    match Text.ofUtf8? (b.takeWhile (· ≠ 10)) with
    | none => .error .notUtf8
    | some t => .ok (t, rest)

theorem length_of_nextLine {b rest : Bytes} {t : Text} (h : nextLine b = .ok (t, rest)) :
    rest.length < b.length := by
  have hb := congrArg List.length (List.takeWhile_append_dropWhile (p := (· ≠ 10)) (l := b))
  unfold nextLine at h
  split at h
  · cases h
  · next x rest' hs =>
    rw [hs] at hb
    split at h
    · cases h
    · cases h
      simp only [List.length_append, List.length_cons] at hb
      omega

def readBody (b : Bytes) : Except Fault (List Text × Bytes) :=
  match _h : nextLine b with
  | .error e => .error e
  | .ok (line, rest) =>
    if Text.width line > Stanza.columns then .error (.bodyColumns (Text.width line))
    else if Text.width line < Stanza.columns then .ok ([line], rest)
    else
      match readBody rest with
      | .error e => .error e
      | .ok (lines, rest) => .ok (line :: lines, rest)
termination_by b.length
decreasing_by exact length_of_nextLine _h

theorem length_of_readBody {b rest : Bytes} {lines : List Text}
    (h : readBody b = .ok (lines, rest)) : rest.length < b.length := by
  induction b using readBody.induct generalizing lines rest with
  | case1 b e he => rw [readBody, he] at h; cases h
  | case2 b line r hl hw => rw [readBody, hl] at h; simp [hw] at h
  | case3 b line r hl hw hw' =>
    rw [readBody, hl] at h
    simp [hw, hw'] at h
    rw [← h.2]
    exact length_of_nextLine hl
  | case4 b line r hl hw hw' e he ih => rw [readBody, hl] at h; simp [hw, hw', he] at h
  | case5 b line r hl hw hw' ls r' hr ih =>
    rw [readBody, hl] at h
    simp [hw, hw', hr] at h
    rw [← h.2]
    exact Nat.lt_trans (ih hr) (length_of_nextLine hl)

def readStanza (words : Text) (b : Bytes) : Except Fault (Stanza × Bytes) :=
  let ws := Text.fields ' ' words
  match (ws.forM Stanza.checkWord).mapError Fault.word with
  | .error e => .error e
  | .ok () =>
    match readBody b with
    | .error e => .error e
    | .ok (lines, rest) =>
      match Base64.decodeBare? lines.flatten with
      | none => .error (.bodyBase64 Base64.refusal)
      | some body => .ok (⟨ws.headD [], ws.tail, body⟩, rest)

def readMac (t : Text) : Except Fault (SizedBytes 32) :=
  match Base64.decodeBare? t with
  | none => .error (.macBase64 Base64.refusal)
  | some b =>
    match SizedBytes.ofBytes? 32 b with
    | none => .error (.macLength b.length)
    | some mac => .ok mac

theorem length_of_readStanza {words : Text} {b rest : Bytes} {s : Stanza}
    (h : readStanza words b = .ok (s, rest)) : rest.length < b.length := by
  unfold readStanza at h
  dsimp only at h
  split at h
  · cases h
  · split at h
    · cases h
    · next lines r hr =>
      split at h
      · cases h
      · cases h
        exact length_of_readBody hr

def readStanzas (done : List Stanza) (b : Bytes) : Except Fault (Header × Bytes) :=
  match _h : nextLine b with
  | .error e => .error e
  | .ok (line, rest) =>
    match Stanza.arrow.isPrefixOf? line with
    | some words =>
      match _hs : readStanza words rest with
      | .error e => .error e
      | .ok (s, rest') => readStanzas (s :: done) rest'
    | none =>
      match macArrow.isPrefixOf? line with
      | none => .error (.unexpectedLine line)
      | some t =>
        match readMac t with
        | .error e => .error e
        | .ok mac =>
          if done.isEmpty then .error .noStanzas else .ok (⟨done.reverse, mac⟩, rest)
termination_by b.length
decreasing_by exact Nat.lt_trans (length_of_readStanza _hs) (length_of_nextLine _h)

def read (b : Bytes) : Except Fault (Header × Bytes) :=
  match nextLine b with
  | .error e => .error e
  | .ok (line, rest) => if line = versionLine then readStanzas [] rest else .error .version

def locate (b : Bytes) : Except Fault (Header × Nat) :=
  (read b).map (fun r => (r.1, b.length - r.2.length))

end Header
end BeaconSeal
