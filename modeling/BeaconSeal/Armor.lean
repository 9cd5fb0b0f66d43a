import BeaconSeal.Bytes.Base64
import BeaconSeal.Text.Basic
/-! Text armor: base64 in lines of one width between two marker lines. The last line is
always shorter than the others, possibly empty, so that the end can be told. -/
namespace BeaconSeal.Armor

inductive Fault where
  | excessiveWhitespace (got max : Nat)
  | missingHeader
  | missingFooter
  | lineTooLong (line got max : Nat)
  | lineTooShort (line got width : Nat)
  | lastLineTooLong (got width : Nat)
  | invalidWidth (width : Nat)
  | base64 (reason : String)
  deriving DecidableEq, Repr

def Fault.message : Fault → String
  | excessiveWhitespace got max =>
    s!"Armor has {got} trailing whitespace characters, limit is {max}"
  | missingHeader => "Armor header not found"
  | missingFooter => "Armor footer not found"
  | lineTooLong line got max => s!"Armor line {line} is {got} characters, limit is {max}"
  | lineTooShort line got width => s!"Armor line {line} is {got} characters, expected {width}"
  | lastLineTooLong got width =>
    s!"Armor last line is {got} characters, must be shorter than {width}"
  | invalidWidth width => s!"Invalid armor chunk width: {width}"
  | base64 reason => s!"Invalid base64: {reason}"

def header : Text := "-----BEGIN AGE ENCRYPTED FILE-----".toList
def footer : Text := "-----END AGE ENCRYPTED FILE-----".toList

def defaultWidth : Nat := 64
def maxTrailing : Nat := 1024

def checkWidth (width : Nat) : Except Fault Unit :=
  if width = 0 then .error (.invalidWidth width) else .ok ()

def encode (width : Nat) (data : Bytes) : Except Fault Text := do
  checkWidth width
  let lines := Cut.rows width (Base64.encode data)
  .ok ((header :: lines ++ [footer]).flatMap (· ++ ['\n']))

def afterBreak? : Text → Option Text
  | '\r' :: '\n' :: t => some t
  | '\n' :: t => some t
  | _ => none

def beforeBreak? (t : Text) : Option Text :=
  match t.reverse with
  | '\n' :: '\r' :: r => some r.reverse
  | '\n' :: r => some r.reverse
  | _ => none

def dropReturn (line : Text) : Text :=
  match line.reverse with
  | '\r' :: r => r.reverse
  | _ => line

def checkLines (width : Nat) : Nat → List Text → Except Fault Unit
  | _, [] => .ok ()
  | i, line :: lines =>
    let got := Text.width line
    if got > width then .error (.lineTooLong i got width)
    else if lines.isEmpty then
      if got = width then .error (.lastLineTooLong got width) else .ok ()
    else if got < width then .error (.lineTooShort i got width)
    else checkLines width (i+1) lines

def body (t : Text) : Except Fault Text :=
  match header.isPrefixOf? t with
  | none => .error .missingHeader
  | some rest =>
    match footer.isSuffixOf? rest with
    | none => .error .missingFooter
    | some inner =>
      match afterBreak? inner with
      | none => .error .missingHeader
      | some inner =>
        match beforeBreak? inner with
        | none => .error .missingFooter
        | some inner => .ok inner

def decode (width : Nat) (t : Text) : Except Fault Bytes := do
  checkWidth width
  let (kept, trailing) := Text.trimEnd (Text.trimStart t)
  if trailing > maxTrailing then .error (.excessiveWhitespace trailing maxTrailing)
  else
    let lines := (Text.fields '\n' (← body kept)).map dropReturn
    checkLines width 1 lines
    match Base64.decode? lines.flatten with
    | none => .error (.base64 Base64.refusal)
    | some data => .ok data

def isProbablyArmored (t : Text) : Bool := header.isPrefixOf (Text.trimStart t)

end BeaconSeal.Armor
