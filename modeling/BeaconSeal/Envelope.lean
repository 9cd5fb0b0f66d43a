import BeaconSeal.Dialogue
import BeaconSeal.Error
import BeaconSeal.Hash.Sha256
/-! Envelopes: a payload under a fresh file key, the file key in the stanzas of the header.
How the key gets into the stanzas and out of them is up to the recipient. -/
namespace BeaconSeal

structure FileKey where
  bytes : Bytes
  length_bytes : bytes.length = 16 ∨ bytes.length = 32
  deriving DecidableEq

namespace FileKey

def ofBytes (b : Bytes) : Except Stanza.Fault FileKey :=
  if h : b.length = 16 ∨ b.length = 32 then .ok ⟨b, h⟩ else .error (.keyLength b.length)

def generate : Dialogue Error FileKey := do
  let b ← Dialogue.draw Error.randomness 32
  .done ⟨b.1, .inr b.2⟩

def text (_ : FileKey) : String := "FileKey([REDACTED])"

end FileKey

structure Envelope where
  stanzas : List Stanza
  mac : SizedBytes 32
  nonce : SizedBytes 16
  payload : Bytes
  deriving DecidableEq, Repr

abbrev Wrapper := FileKey → Dialogue Error (List Stanza)
abbrev Unwrapper := List Stanza → Dialogue Error FileKey

namespace Envelope

def bytes (e : Envelope) : Except Stanza.WordFault Bytes := do
  let header ← (Header.mk e.stanzas e.mac).render
  .ok (Text.utf8 header ++ e.nonce.1 ++ e.payload)

def ofBytes (b : Bytes) : Except Header.Fault Envelope := do
  let (header, rest) ← Header.read b
  match SizedBytes.ofBytes? 16 (rest.take 16) with
  | none => .error (.shortPayload rest.length)
  | some nonce => .ok ⟨header.stanzas, header.mac, nonce, rest.drop 16⟩

def headerInfo : Bytes := Text.utf8 "header".toList
def payloadInfo : Bytes := Text.utf8 "payload".toList

def headerMac (key : FileKey) (stanzas : List Stanza) :
    Except Stanza.WordFault (SizedBytes 32) := do
  let input ← Header.macInput stanzas
  .ok (Hmac.mac (Hmac.deriveKey key.bytes [] headerInfo).1 (Text.utf8 input))

def payloadKey (key : FileKey) (nonce : SizedBytes 16) : SizedBytes 32 :=
  Hmac.deriveKey key.bytes nonce.1 payloadInfo

def encrypt (payload : Bytes) (wrap : Wrapper) : Dialogue Error Envelope := do
  let key ← FileKey.generate
  let stanzas ← wrap key
  if stanzas.isEmpty then .fail (.malformedStanza .noStanzas)
  else
    let mac ← Dialogue.ofExcept Error.ofWord (headerMac key stanzas)
    let nonce ← Dialogue.draw Error.randomness 16
    .done ⟨stanzas, mac, nonce, Stream.encrypt (payloadKey key nonce) payload⟩

def decrypt (e : Envelope) (unwrap : Unwrapper) : Dialogue Error Bytes := do
  let key ← unwrap e.stanzas
  let mac ← Dialogue.ofExcept Error.ofWord (headerMac key e.stanzas)
  if mac = e.mac then
    Dialogue.ofExcept Error.payloadDecryption (Stream.decrypt (payloadKey key e.nonce) e.payload)
  else .fail .macMismatch

end Envelope

namespace PlainKey

def tag : Text := "no-op".toList

def wrap : Wrapper := fun key => .done [⟨tag, [], key.bytes⟩]

def unwrap : Unwrapper
  | [s] =>
    if s.tag = tag then Dialogue.ofExcept Error.malformedStanza (FileKey.ofBytes s.body)
    else .fail (.malformedStanza (.expectedOne tag))
  | _ => .fail (.malformedStanza (.expectedOne tag))

end PlainKey
end BeaconSeal
