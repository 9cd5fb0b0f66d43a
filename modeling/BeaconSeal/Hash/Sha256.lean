import BeaconSeal.Bytes.Basic
import BeaconSeal.Bytes.Cut
/-! SHA-256, the keyed hash HMAC over it, and the key derivation built on that. -/
namespace BeaconSeal
namespace Sha256

structure State where
  a : UInt32
  b : UInt32
  c : UInt32
  d : UInt32
  e : UInt32
  f : UInt32
  g : UInt32
  h : UInt32

def initial : State :=
  ⟨0x6a09e667, 0xbb67ae85, 0x3c6ef372, 0xa54ff53a, 0x510e527f, 0x9b05688c, 0x1f83d9ab, 0x5be0cd19⟩

def constants : List UInt32 := [
  0x428a2f98, 0x71374491, 0xb5c0fbcf, 0xe9b5dba5, 0x3956c25b, 0x59f111f1, 0x923f82a4, 0xab1c5ed5,
  0xd807aa98, 0x12835b01, 0x243185be, 0x550c7dc3, 0x72be5d74, 0x80deb1fe, 0x9bdc06a7, 0xc19bf174,
  0xe49b69c1, 0xefbe4786, 0x0fc19dc6, 0x240ca1cc, 0x2de92c6f, 0x4a7484aa, 0x5cb0a9dc, 0x76f988da,
  0x983e5152, 0xa831c66d, 0xb00327c8, 0xbf597fc7, 0xc6e00bf3, 0xd5a79147, 0x06ca6351, 0x14292967,
  0x27b70a85, 0x2e1b2138, 0x4d2c6dfc, 0x53380d13, 0x650a7354, 0x766a0abb, 0x81c2c92e, 0x92722c85,
  0xa2bfe8a1, 0xa81a664b, 0xc24b8b70, 0xc76c51a3, 0xd192e819, 0xd6990624, 0xf40e3585, 0x106aa070,
  0x19a4c116, 0x1e376c08, 0x2748774c, 0x34b0bcb5, 0x391c0cb3, 0x4ed8aa4a, 0x5b9cca4f, 0x682e6ff3,
  0x748f82ee, 0x78a5636f, 0x84c87814, 0x8cc70208, 0x90befffa, 0xa4506ceb, 0xbef9a3f7, 0xc67178f2]

def rotate (x n : UInt32) : UInt32 := x >>> n ||| x <<< (32-n)

def round (s : State) (k w : UInt32) : State :=
  let s1 := rotate s.e 6 ^^^ rotate s.e 11 ^^^ rotate s.e 25
  let choice := (s.e &&& s.f) ^^^ (~~~ s.e &&& s.g)
  let t1 := s.h + s1 + choice + k + w
  let s0 := rotate s.a 2 ^^^ rotate s.a 13 ^^^ rotate s.a 22
  let majority := (s.a &&& s.b) ^^^ (s.a &&& s.c) ^^^ (s.b &&& s.c)
  ⟨t1 + (s0 + majority), s.a, s.b, s.c, s.d + t1, s.e, s.f, s.g⟩

def nextWord (ws : List UInt32) : UInt32 :=
  let x := ws.getD 14 0
  let y := ws.getD 1 0
  (rotate y 17 ^^^ rotate y 19 ^^^ y >>> 10) + ws.getD 6 0 +
    (rotate x 7 ^^^ rotate x 18 ^^^ x >>> 3) + ws.getD 15 0

def extend : Nat → List UInt32 → List UInt32
  | 0, ws => ws
  | n+1, ws => extend n (nextWord ws :: ws)

def words (block : Bytes) : List UInt32 :=
  (Cut.cut 4 block).1.map (fun b => UInt32.ofNat (Bytes.ofBigEndian b))

def schedule (block : Bytes) : List UInt32 := (extend 48 (words block).reverse).reverse

def State.add (s t : State) : State :=
  ⟨s.a+t.a, s.b+t.b, s.c+t.c, s.d+t.d, s.e+t.e, s.f+t.f, s.g+t.g, s.h+t.h⟩

def compress (s : State) (block : Bytes) : State :=
  s.add ((constants.zip (schedule block)).foldl (fun t kw => round t kw.1 kw.2) s)

def pad (b : Bytes) : Bytes :=
  b ++ 0x80 :: List.replicate ((119 - b.length%64)%64) 0 ++ Bytes.bigEndian 8 (8*b.length)

def State.bytes (s : State) : Bytes :=
  [s.a, s.b, s.c, s.d, s.e, s.f, s.g, s.h].flatMap (fun w => Bytes.bigEndian 4 w.toNat)

def digest (b : Bytes) : Bytes := ((Cut.cut 64 (pad b)).1.foldl compress initial).bytes

@[simp] theorem length_digest (b : Bytes) : (digest b).length = 32 := by
  simp [digest, State.bytes]

end Sha256

namespace Hmac

def keyBlock (key : Bytes) : Bytes :=
  let k := if key.length > 64 then Sha256.digest key else key
  k ++ List.replicate (64 - k.length) 0

def mac (key message : Bytes) : SizedBytes 32 :=
  let outer := (keyBlock key).map (· ^^^ 0x5c)
  let inner := (keyBlock key).map (· ^^^ 0x36)
  ⟨Sha256.digest (outer ++ Sha256.digest (inner ++ message)), Sha256.length_digest _⟩

/-- HKDF with one block of output. An empty salt counts as a block of zeros. -/
def deriveKey (secret salt info : Bytes) : SizedBytes 32 :=
  mac (mac salt secret).1 (info ++ [1])

end Hmac
end BeaconSeal
