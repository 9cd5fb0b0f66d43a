import BeaconSeal.Chain.Document
import BeaconSeal.Chain.Schedule
import BeaconSeal.Envelope
/-! Wrapping a file key for a round to come: it is encrypted to the identity of the round
under the chain's key, and the signature that the beacon publishes for the round opens it.
The stanza names the round and the chain. -/
namespace BeaconSeal.Timelock

def tag : Text := "tlock".toList

structure Recipient where
  round : UInt64
  round_ne_zero : round ≠ 0

def Recipient.ofRound (round : UInt64) : Except Error Recipient :=
  if h : round = 0 then .error (.invalidRound round) else .ok ⟨round, h⟩

variable (E : PairingGroups)

def fetchInfo (round : UInt64) : Dialogue Error ChainInfo :=
  .info (fun
    | .error e => .fail (.ofClient round e)
    | .ok info =>
      Dialogue.ofExcept Error.invalidChainInfo ((info.validate E).map (fun _ => info)))

def wrap (r : Recipient) : Wrapper := fun key => do
  let info ← fetchInfo E r.round
  let variant ← Dialogue.ofExcept Error.ofIbe info.scheme.variant
  let c ← (Ibe.encrypt (E := E) variant info.publicKey (Ibe.roundIdentity r.round)
    key.bytes).mapError Error.ofIbe
  .done [⟨tag, [Text.ofNat r.round.toNat, info.hashHex], c.bytes⟩]

def parseArgs (s : Stanza) : Except Error (UInt64 × Bytes) :=
  match s.args with
  | [round, hash] =>
    if round.isEmpty ∨ ¬ round.all Char.isDigit then .error (.malformedStanza (.invalidRound round))
    else
      match Text.decimalBelow? UInt64.size 0 round with
      | none => .error (.malformedStanza (.roundOutOfRange round))
      | some 0 => .error (.invalidRound 0)
      | some n =>
        match Hex.decode (Text.utf8 hash) with
        | .error e => .error (.malformedStanza (.chainHash e))
        | .ok h => .ok (UInt64.ofNat n, h)
  | args => .error (.malformedStanza (.argumentCount args.length))

/-- How stanzas are opened: with a clock, a round to come is refused without asking for its
signature; with a limit, the wait for a signature ends. -/
structure Opening where
  clock : Option UInt64 := none
  limit : Option Duration := none

def fetchSignature (limit : Option Duration) (round : UInt64) : Dialogue Error Bytes :=
  .signature round (fun
    | .answered (.ok s) => .done s
    | .answered (.error e) => .fail (.ofClient round e)
    | .pending =>
      match limit with
      | some d => .fail (.timeout d)
      | none => .wait)

def checkClock (clock : Option UInt64) (info : ChainInfo) (round : UInt64) : Except Error Unit :=
  match clock with
  | none => .ok ()
  | some now => do
    if ← info.isAvailable round now then .ok () else .error (.roundNotYetAvailable round)

def openBody (o : Opening) (body : Bytes) (round : UInt64) (hash : Bytes) :
    Dialogue Error FileKey := do
  let info ← fetchInfo E round
  if info.hash ≠ hash then .fail (.chainMismatch (Hex.encode hash) info.hashHex)
  else
    let variant ← Dialogue.ofExcept Error.ofIbe info.scheme.variant
    Dialogue.ofExcept id (checkClock o.clock info round)
    let c ← Dialogue.ofExcept (.malformedStanza ∘ .body)
      (Ibe.Ciphertext.ofBytes (E := E) variant body)
    let signature ← fetchSignature o.limit round
    let key ← Dialogue.ofExcept Error.ofIbe (Ibe.decrypt variant signature c)
    Dialogue.ofExcept Error.malformedStanza (FileKey.ofBytes key)

def unwrap (o : Opening) : Unwrapper
  | [s] =>
    if s.tag = tag then do
      let (round, hash) ← Dialogue.ofExcept id (parseArgs s)
      openBody E o s.body round hash
    else .fail (.malformedStanza (.unexpectedTag tag s.tag))
  | stanzas => .fail (.malformedStanza (.stanzaCount stanzas.length))

end BeaconSeal.Timelock
