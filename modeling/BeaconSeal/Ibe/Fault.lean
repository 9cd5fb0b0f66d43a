import BeaconSeal.Groups
import BeaconSeal.Text.Basic
/-! What can be wrong with the input of the identity-based encryption. -/
namespace BeaconSeal.Ibe

inductive Defect where
  | tooShort (pointSize got : Nat)
  | unevenBody (got : Nat)
  | padLengths (v w : Nat)
  | unpaired (group : SourceGroup)
  | other (reason : String)
  deriving DecidableEq, Repr

def Defect.message : Defect → String
  | tooShort pointSize got => s!"expected more than {pointSize} bytes, got {got}"
  | unevenBody got => s!"body of {got} bytes cannot split into V and W"
  | padLengths v w => s!"V is {v} bytes but W is {w} bytes"
  | unpaired group => s!"U on {group.name} does not pair with the signature"
  | other reason => reason

inductive Fault where
  | unsupportedScheme (scheme : Text)
  | invalidPoint (group : SourceGroup)
  | invalidPointLength (group : SourceGroup) (expected got : Nat)
  | invalidMessageLength (max got : Nat)
  | invalidCiphertext (defect : Defect)
  | integrityCheckFailed
  | hashToCurve (reason : String)
  | scalarDerivation
  | serialization (reason : String)
  | randomness (reason : String)
  deriving DecidableEq, Repr

def Fault.message : Fault → String
  | unsupportedScheme scheme => "Unsupported scheme: " ++ String.ofList scheme
  | invalidPoint group => s!"Invalid {group.name} point encoding"
  | invalidPointLength group expected got =>
    s!"Invalid {group.name} point length: expected {expected} bytes, got {got}"
  | invalidMessageLength max got =>
    s!"Invalid message length: expected 1..={max} bytes, got {got}"
  | invalidCiphertext defect => "Invalid ciphertext: " ++ defect.message
  | integrityCheckFailed => "Decryption integrity check failed"
  | hashToCurve reason => "Hash to curve failed: " ++ reason
  | scalarDerivation => "Could not derive a scalar from sigma and message"
  | serialization reason => "Serialization error: " ++ reason
  | randomness reason => "Random number generation failed: " ++ reason

end BeaconSeal.Ibe
