import BeaconSeal.Bytes.Basic
import BeaconSeal.Bytes.Cut
/-! The ChaCha20 stream cipher. -/
namespace BeaconSeal.ChaCha20

abbrev Words := Vector UInt32 16

def rotate (x n : UInt32) : UInt32 := x <<< n ||| x >>> (32-n)

def quarter (a b c d : Fin 16) (s : Words) : Words :=
  let xa := s[a] + s[b]
  let xd := rotate (s[d] ^^^ xa) 16
  let xc := s[c] + xd
  let xb := rotate (s[b] ^^^ xc) 12
  let xa := xa + xb
  let xd := rotate (xd ^^^ xa) 8
  let xc := xc + xd
  let xb := rotate (xb ^^^ xc) 7
  (((s.set a xa).set b xb).set c xc).set d xd

def doubleRound (s : Words) : Words :=
  let s := quarter 3 7 11 15 (quarter 2 6 10 14 (quarter 1 5 9 13 (quarter 0 4 8 12 s)))
  quarter 3 4 9 14 (quarter 2 7 8 13 (quarter 1 6 11 12 (quarter 0 5 10 15 s)))

def rounds : Nat → Words → Words
  | 0, s => s
  | n+1, s => rounds n (doubleRound s)

def words (b : Bytes) : List UInt32 :=
  (Cut.cut 4 b).1.map (fun w => UInt32.ofNat (Bytes.ofLittleEndian w))

def start (key : SizedBytes 32) (nonce : SizedBytes 12) (counter : Nat) : Words :=
  let ws := [0x61707865, 0x3320646e, 0x79622d32, 0x6b206574] ++ words key.1 ++
    UInt32.ofNat counter :: words nonce.1
  Vector.ofFn (fun i => ws.getD i.val 0)

def bytes (s : Words) : Bytes := s.toList.flatMap (fun w => Bytes.littleEndian 4 w.toNat)

@[simp] theorem length_bytes (s : Words) : (bytes s).length = 64 := by
  simp [bytes, List.length_flatMap, List.map_const']

def block (key : SizedBytes 32) (nonce : SizedBytes 12) (counter : Nat) : Bytes :=
  let s := start key nonce counter
  bytes (Vector.zipWith (· + ·) (rounds 10 s) s)

@[simp] theorem length_block (key : SizedBytes 32) (nonce : SizedBytes 12) (counter : Nat) :
    (block key nonce counter).length = 64 := by
  simp [block]

/-- Adds the key stream from block one on; block zero is kept for the authenticator. -/
def apply (key : SizedBytes 32) (nonce : SizedBytes 12) (b : Bytes) : Bytes :=
  ((Cut.rows 64 b).zipIdx 1).flatMap (fun row => Bytes.xor row.1 (block key nonce row.2))

end BeaconSeal.ChaCha20
