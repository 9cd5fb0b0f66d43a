import BeaconSeal.Bytes.Base64
import BeaconSeal.Ibe.Fault
import BeaconSeal.Text.Quoted
import BeaconSeal.Bytes.Hex
/-! Stanzas, the records of a header that carry wrapped keys, and their written form: one
line with the type and the arguments, then the body in base64, in columns. -/
namespace BeaconSeal

structure Stanza where
  tag : Text
  args : List Text
  body : Bytes
  deriving DecidableEq, Repr

namespace Stanza

inductive WordFault where
  | empty
  | badCharacter (c : Char)
  deriving DecidableEq, Repr

def WordFault.message : WordFault → String
  | empty => "empty stanza argument"
  | badCharacter c => "invalid character " ++ Text.quoteChar c ++ " in stanza argument"

inductive Fault where
  | word (fault : WordFault)
  | argumentCount (got : Nat)
  | invalidRound (text : Text)
  | roundOutOfRange (text : Text)
  | chainHash (fault : Hex.Fault)
  | body (fault : Ibe.Fault)
  | keyLength (got : Nat)
  | unexpectedTag (expected got : Text)
  | stanzaCount (got : Nat)
  | noStanzas
  | expectedOne (tag : Text)
  | other (reason : String)
  deriving DecidableEq, Repr

def Fault.message : Fault → String
  | word fault => fault.message
  | argumentCount got => s!"expected 2 arguments, got {got}"
  | invalidRound text => "invalid round " ++ Text.quote text
  | roundOutOfRange text => "round " ++ String.ofList text ++ " out of range"
  | chainHash fault => "chain hash: " ++ fault.message
  | body fault => fault.message
  | keyLength got => s!"file key must be 16 or 32 bytes, got {got}"
  | unexpectedTag expected got =>
    "expected a " ++ String.ofList expected ++ " stanza, got " ++ String.ofList got
  | stanzaCount got => s!"expected exactly one stanza, got {got}"
  | noStanzas => "key wrapper produced no stanzas"
  | expectedOne tag => "expected one " ++ String.ofList tag ++ " stanza"
  | other reason => reason

def isGraphic (c : Char) : Bool := 0x21 ≤ c.toNat && c.toNat ≤ 0x7e

def checkWord (w : Text) : Except WordFault Unit :=
  if w.isEmpty then .error .empty
  else
    match w.find? (fun c => !isGraphic c) with
    | some c => .error (.badCharacter c)
    | none => .ok ()

def columns : Nat := 64

def arrow : Text := ['-', '>', ' ']

def firstLine (s : Stanza) : Text := arrow ++ [' '].intercalate (s.tag :: s.args)

/-- The last row is always shorter than the others, so that the end can be told. -/
def bodyLines (s : Stanza) : List Text := Cut.rows columns (Base64.encodeBare s.body)

def render (s : Stanza) : Except WordFault Text := do
  (s.tag :: s.args).forM checkWord
  .ok ((s.firstLine :: s.bodyLines).flatMap (· ++ ['\n']))

/-- Writing at the end of a text. A failure takes nothing back of what was written before it. -/
abbrev Writer := ExceptT WordFault (StateM Text)

def put (t : Text) : Writer Unit := modify (· ++ t)

def check (w : Text) : Writer Unit := liftExcept (checkWord w)

def putRows (rest : Text) : Writer Unit :=
  if columns ≤ rest.length then do
    put (rest.take columns)
    put ['\n']
    putRows (rest.drop columns)
  else do
    put rest
    put ['\n']
termination_by rest.length
decreasing_by
  have hcolumns : columns = 64 := rfl
  simp only [List.length_drop]
  omega

/-- All words are looked at before the first character is written. -/
def write (s : Stanza) : Writer Unit := do
  check s.tag
  s.args.forM check
  put arrow
  put s.tag
  s.args.forM (fun w => do
    put [' ']
    put w)
  put ['\n']
  putRows (Base64.encodeBare s.body)

def writeTo (out : Text) (s : Stanza) : Text × Except WordFault Unit :=
  ((write s).run.run out).swap

end Stanza
end BeaconSeal
