import BeaconSeal.Timelock
/-! Sealing a payload until a round, and opening it: an envelope for the round, armored or
not. Either form is taken back, whichever it is. -/
namespace BeaconSeal

structure SealOptions where
  armor : Bool := true
  width : Nat := Armor.defaultWidth
  limit : Option Duration := none
  deriving DecidableEq, Repr

namespace Sealing
variable (E : PairingGroups)

def envelope (round : UInt64) (payload : Bytes) : Dialogue Error Bytes := do
  let r ← Dialogue.ofExcept id (Timelock.Recipient.ofRound round)
  let e ← Envelope.encrypt payload (Timelock.wrap E r)
  Dialogue.ofExcept Error.ofWord e.bytes

def encrypt (round : UInt64) (payload : Bytes) : Dialogue Error Text := do
  let b ← envelope E round payload
  Dialogue.ofExcept Error.armor (Armor.encode Armor.defaultWidth b)

def encryptWith (o : SealOptions) (round : UInt64) (payload : Bytes) : Dialogue Error Bytes := do
  let b ← envelope E round payload
  if o.armor then
    Dialogue.ofExcept Error.armor ((Armor.encode o.width b).map Text.utf8)
  else .done b

def unarmored (width : Nat) (input : Bytes) : Except Armor.Fault Bytes :=
  match Text.ofUtf8? input with
  | some t => if Armor.isProbablyArmored t then Armor.decode width t else .ok input
  | none => .ok input

def decryptWith (o : SealOptions) (input : Bytes) : Dialogue Error Bytes := do
  let b ← Dialogue.ofExcept Error.armor (unarmored o.width input)
  let e ← Dialogue.ofExcept Error.malformedHeader (Envelope.ofBytes b)
  e.decrypt (Timelock.unwrap E { limit := o.limit })

def decrypt (input : Bytes) : Dialogue Error Bytes := decryptWith E {} input

end Sealing
end BeaconSeal
