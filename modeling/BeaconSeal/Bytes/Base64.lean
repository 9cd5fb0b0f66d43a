import BeaconSeal.Bytes.Basic
import BeaconSeal.Bytes.Cut
/-! Base64 over the standard alphabet, padded and unpadded. Reading is strict: the bits
that no byte uses are zero and the padding is exactly what the length asks for. -/
namespace BeaconSeal.Base64

def symbol (n : Nat) : Char :=
  if n < 26 then Char.ofNat (65+n)
  else if n < 52 then Char.ofNat (71+n)
  else if n < 62 then Char.ofNat (n-4)
  else if n = 62 then '+' else '/'

def value? (c : Char) : Option Nat :=
  if 'A' ≤ c ∧ c ≤ 'Z' then some (c.toNat-65)
  else if 'a' ≤ c ∧ c ≤ 'z' then some (c.toNat-71)
  else if '0' ≤ c ∧ c ≤ '9' then some (c.toNat+4)
  else if c = '+' then some 62
  else if c = '/' then some 63
  else none

def encodeGroup : Bytes → List Char
  | [a] => [symbol (a.toNat/4), symbol (a.toNat%4*16)]
  | [a, b] => [symbol (a.toNat/4), symbol (a.toNat%4*16 + b.toNat/16), symbol (b.toNat%16*4)]
  | [a, b, c] => [symbol (a.toNat/4), symbol (a.toNat%4*16 + b.toNat/16),
      symbol (b.toNat%16*4 + c.toNat/64), symbol (c.toNat%64)]
  | _ => []

def joinValues : List Nat → Option Bytes
  | [] => some []
  | [a, b] => if b%16 = 0 then some [UInt8.ofNat (a*4 + b/16)] else none
  | [a, b, c] =>
    if c%4 = 0 then some [UInt8.ofNat (a*4 + b/16), UInt8.ofNat (b%16*16 + c/4)] else none
  | [a, b, c, d] =>
    some [UInt8.ofNat (a*4 + b/16), UInt8.ofNat (b%16*16 + c/4), UInt8.ofNat (c%4*64 + d)]
  | _ => none

def decodeGroup (t : List Char) : Option Bytes := t.mapM value? >>= joinValues

def pad (t : List Char) : List Char := t ++ List.replicate ((4 - t.length%4)%4) '='

def encodeBare (b : Bytes) : List Char := (Cut.rows 3 b).flatMap encodeGroup
def decodeBare? (t : List Char) : Option Bytes :=
  ((Cut.rows 4 t).mapM decodeGroup).map List.flatten

def encode (b : Bytes) : List Char := pad (encodeBare b)

/-- What stands before the padding has to ask for just that padding. -/
def decode? (t : List Char) : Option Bytes :=
  let bare := (t.reverse.dropWhile (· = '=')).reverse
  if pad bare = t then decodeBare? bare else none

def refusal : String := "invalid Base64 encoding"

end BeaconSeal.Base64
