import BeaconSeal.Scheme
import BeaconSeal.Bytes.Hex
/-! What a chain of rounds says about itself, and the failures of whoever answers for it. -/
namespace BeaconSeal

structure ChainInfo where
  hash : Bytes
  publicKey : Bytes
  /-- Seconds between rounds. -/
  period : UInt64
  /-- The time of the first round, in seconds. -/
  genesisTime : UInt64
  scheme : Scheme
  beaconId : Text
  deriving DecidableEq, Repr

namespace ChainInfo

def hashHex (info : ChainInfo) : Text := Hex.encode info.hash

inductive Fault where
  | json
  | hash (fault : Hex.Fault)
  | publicKeyText (fault : Hex.Fault)
  | publicKeyLength (scheme : Scheme) (expected got : Nat)
  | publicKey (fault : Ibe.Fault)
  | zeroPeriod
  | genesisOutOfRange
  | periodOutOfRange
  | other (reason : String)
  deriving DecidableEq, Repr

def Fault.message : Fault → String
  | json => "<json>"
  | hash fault => "hash: " ++ fault.message
  | publicKeyText fault => "public_key: " ++ fault.message
  | publicKeyLength scheme expected got =>
    "public key for " ++ String.ofList scheme.name ++ s!" must be {expected} bytes, got {got}"
  | publicKey fault => "public key: " ++ fault.message
  | zeroPeriod => "period must be positive"
  | genesisOutOfRange => "genesis time out of range"
  | periodOutOfRange => "period out of range"
  | other reason => reason

end ChainInfo

inductive ClientError.Kind where
  | notYetAvailable
  | transient
  | permanent
  deriving DecidableEq, Repr

structure ClientError where
  message : String
  kind : ClientError.Kind
  deriving DecidableEq, Repr

namespace ClientError

def ofMessage (message : String) : ClientError := ⟨message, .transient⟩

def notYetAvailable (round : UInt64) : ClientError :=
  ⟨s!"round {round} not yet published", .notYetAvailable⟩

end ClientError

end BeaconSeal
