import BeaconSeal.Cipher.ChaCha20
/-! Authenticated encryption: the ciphertext is followed by a tag of sixteen bytes over it, from
the one-time authenticator Poly1305. -/
namespace BeaconSeal
namespace Poly1305

def prime : Nat := 0x3fffffffffffffffffffffffffffffffb

def clamp (r : Nat) : Nat := r &&& 0x0ffffffc0ffffffc0ffffffc0fffffff

def accumulate (r : Nat) (pieces : List Bytes) : Nat :=
  pieces.foldl (fun acc b => (acc + Bytes.ofLittleEndian (b ++ [1]))*r % prime) 0

def tag (key message : Bytes) : Bytes :=
  let r := clamp (Bytes.ofLittleEndian (key.take 16))
  let s := Bytes.ofLittleEndian ((key.drop 16).take 16)
  Bytes.littleEndian 16 (accumulate r (Cut.cut 16 message).1 + s)

@[simp] theorem length_tag (key message : Bytes) : (tag key message).length = 16 := by
  simp [tag]

end Poly1305

namespace Authenticated
variable (key : SizedBytes 32) (nonce : SizedBytes 12)

def tagSize : Nat := 16

def fill (b : Bytes) : Bytes := b ++ List.replicate ((16 - b.length%16)%16) 0

def tag (ciphertext : Bytes) : Bytes :=
  Poly1305.tag (ChaCha20.block key nonce 0)
    (fill ciphertext ++ Bytes.littleEndian 8 0 ++ Bytes.littleEndian 8 ciphertext.length)

def encrypt (plaintext : Bytes) : Bytes :=
  let c := ChaCha20.apply key nonce plaintext
  c ++ tag key nonce c

def decrypt? (sealed : Bytes) : Option Bytes :=
  if sealed.length < tagSize then none
  else
    let c := sealed.take (sealed.length - tagSize)
    if sealed.drop (sealed.length - tagSize) = tag key nonce c then
      some (ChaCha20.apply key nonce c)
    else none

end Authenticated
end BeaconSeal
