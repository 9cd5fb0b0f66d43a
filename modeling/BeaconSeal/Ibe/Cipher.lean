import BeaconSeal.Ibe.Hashes
import BeaconSeal.Scheme
import BeaconSeal.Dialogue
/-! Encryption to an identity under a chain's public key. The private key of an identity is
the chain's signature on it. The opening point is recomputed on decryption, so that a wrong
key or an altered ciphertext is noticed. -/
namespace BeaconSeal

/-- Reads a point. The identity is refused: as a key it would make every pairing trivial. -/
def PairingGroups.read (E : PairingGroups) (g : SourceGroup) (b : Bytes) :
    Except Ibe.Fault (E.Point g) :=
  if b.length ≠ g.pointSize then .error (.invalidPointLength g g.pointSize b.length)
  else
    match E.decompress? g b with
    | none => .error (.invalidPoint g)
    | some p => if p = E.identity g then .error (.invalidPoint g) else .ok p

variable {E : PairingGroups}

namespace SourcePoint

def ofBytes (g : SourceGroup) (b : Bytes) : Except Ibe.Fault (SourcePoint E) :=
  (E.read g b).map (fun p => ⟨g, p⟩)

def bytes (p : SourcePoint E) : Bytes := E.compress p.point

def isIdentity (p : SourcePoint E) : Bool := p.point = E.identity p.group

end SourcePoint

namespace Ibe

structure Ciphertext (E : PairingGroups) where
  u : SourcePoint E
  v : Bytes
  w : Bytes
  deriving DecidableEq

namespace Ciphertext

def bytes (c : Ciphertext E) : Bytes := c.u.bytes ++ c.v ++ c.w

def ofBytes (variant : Variant) (b : Bytes) : Except Fault (Ciphertext E) :=
  let size := variant.keyGroup.pointSize
  let rest := b.drop size
  if b.length ≤ size then .error (.invalidCiphertext (.tooShort size b.length))
  else if rest.length % 2 ≠ 0 ∨ rest.length > 2*padSize then
    .error (.invalidCiphertext (.unevenBody rest.length))
  else
    (SourcePoint.ofBytes variant.keyGroup (b.take size)).map
      (fun u => ⟨u, rest.take (rest.length/2), rest.drop (rest.length/2)⟩)

end Ciphertext

def checkLength (n : Nat) : Except Fault Unit :=
  if n = 0 ∨ n > padSize then .error (.invalidMessageLength padSize n) else .ok ()

def hashIdentity (E : PairingGroups) (variant : Variant) (identity : Bytes) :
    E.Point variant.signatureGroup :=
  E.hash variant.signatureGroup variant.tag identity

def encryptWith (variant : Variant) (publicKey identity message seed : Bytes) :
    Except Fault (Ciphertext E) := do
  checkLength message.length
  let key ← E.read variant.keyGroup publicKey
  let r ← seedScalar seed message
  let target := E.pairAcross variant.keyGroup (E.smul r key) (hashIdentity E variant identity)
  .ok {
    u := ⟨variant.keyGroup, E.smul r (E.generator variant.keyGroup)⟩
    v := Bytes.xor seed (targetPad E target seed.length)
    w := Bytes.xor message (seedPad seed message.length) }

def encrypt (variant : Variant) (publicKey identity message : Bytes) :
    Dialogue Fault (Ciphertext E) := do
  Dialogue.ofExcept id (checkLength message.length)
  let seed ← Dialogue.draw Fault.randomness message.length
  Dialogue.ofExcept id (encryptWith variant publicKey identity message seed.1)

def pairOpening : SourcePoint E → SourcePoint E → Except Fault E.Target
  | ⟨.g1, u⟩, ⟨.g2, s⟩ => .ok (E.pair u s)
  | ⟨.g2, u⟩, ⟨.g1, s⟩ => .ok (E.pair s u)
  | u, _ => .error (.invalidCiphertext (.unpaired u.group))

def decrypt (variant : Variant) (signature : Bytes) (c : Ciphertext E) : Except Fault Bytes := do
  if c.v.length ≠ c.w.length then
    .error (.invalidCiphertext (.padLengths c.v.length c.w.length))
  else
    checkLength c.v.length
    let s ← SourcePoint.ofBytes variant.signatureGroup signature
    let target ← pairOpening c.u s
    let seed := Bytes.xor c.v (targetPad E target c.v.length)
    let message := Bytes.xor c.w (seedPad seed c.v.length)
    let r ← seedScalar seed message
    if E.smul r (E.generator c.u.group) = c.u.point then .ok message
    else .error .integrityCheckFailed

end Ibe
end BeaconSeal
