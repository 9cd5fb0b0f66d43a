import BeaconSeal.Armor
import BeaconSeal.Chain.Info
import BeaconSeal.Header
import BeaconSeal.Stream
/-! Everything that sealing and opening can fail with, its text, and what a caller can make
of it: the kind of the failure, and whether the same call may succeed later. A span of time is
written in the largest unit that has an integer part. -/
namespace BeaconSeal

structure Duration where
  nanos : Nat
  deriving DecidableEq, Repr

namespace Duration

def fraction (unit rest : Nat) : Text :=
  let digits := ((Text.ofNat (unit+rest)).drop 1).reverse.dropWhile (· = '0')
  if digits.isEmpty then [] else '.' :: digits.reverse

def inUnit (unit : Nat) (name : String) (nanos : Nat) : String :=
  String.ofList (Text.ofNat (nanos/unit) ++ fraction unit (nanos%unit)) ++ name

def text (d : Duration) : String :=
  if d.nanos ≥ 1000000000 then inUnit 1000000000 "s" d.nanos
  else if d.nanos ≥ 1000000 then inUnit 1000000 "ms" d.nanos
  else if d.nanos ≥ 1000 then inUnit 1000 "µs" d.nanos
  else inUnit 1 "ns" d.nanos

end Duration

inductive Error where
  | invalidRound (round : UInt64)
  | invalidChainInfo (fault : ChainInfo.Fault)
  | unsupportedScheme (scheme : Text)
  | integrity
  | malformedStanza (fault : Stanza.Fault)
  | chainMismatch (stanza client : Text)
  | macMismatch
  | payloadDecryption (fault : Stream.Fault)
  | armor (fault : Armor.Fault)
  | malformedHeader (fault : Header.Fault)
  | roundNotYetAvailable (round : UInt64)
  | chainClient (message : String) (retryable : Bool)
  | timeout (limit : Duration)
  | payloadEncryption (reason : String)
  | keyDerivation (reason : String)
  | randomness (reason : String)
  | ibe (fault : Ibe.Fault)
  deriving DecidableEq, Repr

namespace Error

inductive Kind where
  /-- The input is at fault. -/
  | inputValidation
  /-- The signing scheme is unknown or of no use. -/
  | scheme
  /-- A cryptographic check failed. -/
  | integrity
  /-- The chain's client failed, or the round is still to come. -/
  | external
  deriving DecidableEq, Repr

def message : Error → String
  | invalidRound round => s!"Invalid round {round}: rounds start at 1"
  | invalidChainInfo fault => "Invalid chain info: " ++ fault.message
  | unsupportedScheme scheme => "Unsupported scheme: " ++ String.ofList scheme
  | integrity =>
    "Decryption integrity check failed: wrong round, wrong chain or corrupted ciphertext"
  | malformedStanza fault => "Malformed stanza: " ++ fault.message
  | chainMismatch stanza client => "Chain mismatch: stanza is for chain " ++
    String.ofList stanza ++ ", client serves " ++ String.ofList client
  | macMismatch => "Header MAC verification failed"
  | payloadDecryption fault => "Payload decryption failed: " ++ fault.message
  | armor fault => fault.message
  | malformedHeader fault => "Malformed header: " ++ fault.message
  | roundNotYetAvailable round => s!"Round {round} is not yet available"
  | chainClient message _ => "Chain client error: " ++ message
  | timeout limit => "Beacon fetch timed out after " ++ limit.text
  | payloadEncryption reason => "Payload encryption failed: " ++ reason
  | keyDerivation reason => "Key derivation failed: " ++ reason
  | randomness reason => "Random number generation failed: " ++ reason
  | ibe fault => "IBE error: " ++ fault.message

def kind : Error → Kind
  | invalidRound _ | invalidChainInfo _ | malformedStanza _ | chainMismatch .. | armor _
  | malformedHeader _ => .inputValidation
  | unsupportedScheme _ => .scheme
  | integrity | macMismatch | payloadDecryption _ | payloadEncryption _ | keyDerivation _
  | randomness _ => .integrity
  | roundNotYetAvailable _ | chainClient .. | timeout _ => .external
  | ibe (.unsupportedScheme _) => .scheme
  | ibe .integrityCheckFailed => .integrity
  | ibe _ => .inputValidation

def retryable : Error → Bool
  | roundNotYetAvailable _ | timeout _ => true
  | chainClient _ retryable => retryable
  | _ => false

def ofIbe : Ibe.Fault → Error
  | .integrityCheckFailed => integrity
  | .unsupportedScheme scheme => unsupportedScheme scheme
  | fault => ibe fault

def ofWord (fault : Stanza.WordFault) : Error := malformedStanza (.word fault)

def ofClient (round : UInt64) (e : ClientError) : Error :=
  match e.kind with
  | .notYetAvailable => roundNotYetAvailable round
  | .transient => chainClient e.message true
  | .permanent => chainClient e.message false

end Error
end BeaconSeal
