import BeaconSeal.Error
import BeaconSeal.Ibe.Cipher
import BeaconSeal.Json.Record
/-! The documents in which a beacon's node describes its chain and publishes its rounds. -/
namespace BeaconSeal

namespace ChainInfo

def validate (E : PairingGroups) (info : ChainInfo) : Except Fault Unit :=
  let g := info.scheme.keyGroup
  if info.period = 0 then .error .zeroPeriod
  else if info.publicKey.length ≠ g.pointSize then
    .error (.publicKeyLength info.scheme g.pointSize info.publicKey.length)
  else
    match E.read g info.publicKey with
    | .error e => .error (.publicKey e)
    | .ok _ => .ok ()

structure Raw where
  publicKey : Text
  period : UInt64
  genesisTime : UInt64
  hash : Text
  scheme : Text
  beaconId : Text

def fieldNames : List Text := ["public_key".toList, "period".toList, "genesis_time".toList,
  "hash".toList, "schemeID".toList, "metadata".toList]

def readMetadata (t : Text) : Option Text :=
  match Json.record ["beaconID".toList] t with
  | some [some id] => Json.text? id
  | _ => none

def readRaw (t : Text) : Option Raw := do
  match Json.record fieldNames (← Json.document? t) with
  | some [some key, some period, some genesis, some hash, some scheme, metadata] => do
    some {
      publicKey := ← Json.text? key
      period := ← Json.word? period
      genesisTime := ← Json.word? genesis
      hash := ← Json.text? hash
      scheme := ← Json.text? scheme
      beaconId := (← Json.optional? readMetadata metadata).getD [] }
  | _ => none

def ofJson (E : PairingGroups) (t : Text) : Except Error ChainInfo := do
  match readRaw t with
  | none => .error (.invalidChainInfo .json)
  | some raw =>
    let hash ← (Hex.decode (Text.utf8 raw.hash)).mapError (.invalidChainInfo ∘ .hash)
    let key ← (Hex.decode (Text.utf8 raw.publicKey)).mapError
      (.invalidChainInfo ∘ .publicKeyText)
    let scheme ← (Scheme.ofName raw.scheme).mapError (fun _ => .unsupportedScheme raw.scheme)
    let info : ChainInfo := {
      hash := hash
      publicKey := key
      period := raw.period
      genesisTime := raw.genesisTime
      scheme := scheme
      beaconId := raw.beaconId }
    (info.validate E).mapError Error.invalidChainInfo
    .ok info

end ChainInfo

structure Beacon where
  round : UInt64
  signature : Bytes
  randomness : Option Bytes
  deriving DecidableEq, Repr

namespace Beacon

def verifyRandomness (b : Beacon) : Except Error Unit :=
  match b.randomness with
  | none => .ok ()
  | some r =>
    if r = Sha256.digest b.signature then .ok ()
    else .error (.chainClient s!"beacon {b.round} randomness does not match signature" false)

def fieldNames : List Text := ["round".toList, "signature".toList, "randomness".toList]

def readRaw (t : Text) : Option (UInt64 × Text × Option Text) := do
  match Json.record fieldNames (← Json.document? t) with
  | some [some round, some signature, randomness] => do
    some (← Json.word? round, ← Json.text? signature, ← Json.optional? Json.text? randomness)
  | _ => none

def hexField (name : String) (t : Text) : Except Error Bytes :=
  (Hex.decode (Text.utf8 t)).mapError
    (fun e => .chainClient ("beacon " ++ name ++ ": " ++ e.message) false)

def ofJson (t : Text) : Except Error Beacon := do
  match readRaw t with
  | none => .error (.chainClient "invalid beacon JSON: <json>" false)
  | some (round, signature, randomness) =>
    let signature ← hexField "signature" signature
    let randomness ← match randomness with
      | none => .ok none
      | some r => (hexField "randomness" r).map some
    let b : Beacon := ⟨round, signature, randomness⟩
    b.verifyRandomness
    .ok b

end Beacon
end BeaconSeal
