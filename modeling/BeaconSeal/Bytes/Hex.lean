import BeaconSeal.Text.Quoted
/-! Hexadecimal text: written in lower case, read in either case. -/
namespace BeaconSeal.Hex

inductive Fault where
  | oddLength
  | badDigit (byte : UInt8) (index : Nat)
  deriving DecidableEq, Repr

def Fault.message : Fault → String
  | oddLength => "Odd number of digits"
  | badDigit byte index =>
    "Invalid character " ++ Text.quoteChar (Char.ofNat byte.toNat) ++ s!" at position {index}"

def digit (n : Nat) : Char := if n < 10 then Char.ofNat (48+n) else Char.ofNat (87+n)

def value? (b : UInt8) : Option UInt8 :=
  if 48 ≤ b ∧ b ≤ 57 then some (b-48)
  else if 97 ≤ b ∧ b ≤ 102 then some (b-87)
  else if 65 ≤ b ∧ b ≤ 70 then some (b-55)
  else none

def encode (b : Bytes) : List Char :=
  b.flatMap (fun x => [digit (x.toNat/16), digit (x.toNat%16)])

def decodeFrom (i : Nat) : Bytes → Except Fault Bytes
  | x :: y :: b =>
    match value? x, value? y with
    | none, _ => .error (.badDigit x i)
    | some _, none => .error (.badDigit y (i+1))
    | some h, some l => (decodeFrom (i+2) b).map ((16*h + l) :: ·)
  | _ => .ok []

/-- An odd length is reported before any digit is looked at. -/
def decode (b : Bytes) : Except Fault Bytes :=
  if b.length % 2 = 1 then .error .oddLength else decodeFrom 0 b

end BeaconSeal.Hex
