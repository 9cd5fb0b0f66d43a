import BeaconSeal.Bytes.Basic
import BeaconSeal.Bytes.Endian
import BeaconSeal.Bytes.Cut
import BeaconSeal.Bytes.Hex
import BeaconSeal.Bytes.Base64
import BeaconSeal.Text.Basic
import BeaconSeal.Hash.Sha256
import BeaconSeal.Curve.HashTo
import BeaconSeal.Curve.Pairing
import BeaconSeal.Text.Quoted
import BeaconSeal.Stream
import BeaconSeal.Armor
import BeaconSeal.Ibe.Cipher
import BeaconSeal.Header
import BeaconSeal.Json.Record
import BeaconSeal.Chain.Document
import BeaconSeal.Chain.Schedule
import BeaconSeal.Envelope
import BeaconSeal.Sealing
import BeaconSeal.Client.Local
import BeaconSeal.Curve.Bls12381
import BeaconSeal.Proofs.Rows
import BeaconSeal.Proofs.Base64
import BeaconSeal.Proofs.Stanza
import BeaconSeal.Proofs.Header
import BeaconSeal.Proofs.Bytes
import BeaconSeal.Proofs.Envelope
import BeaconSeal.Proofs.Exponents
import BeaconSeal.Proofs.Ibe
import BeaconSeal.Proofs.Stream
import BeaconSeal.Proofs.Armor
import BeaconSeal.Proofs.Dialogue
import BeaconSeal.Proofs.Digits
import BeaconSeal.Proofs.Questions
import BeaconSeal.Proofs.Schedule
import BeaconSeal.Proofs.Forms
import BeaconSeal.Proofs.Timelock
import BeaconSeal.Proofs.Unwrapping
import BeaconSeal.Proofs.Sealing
import BeaconSeal.Proofs.Places
import BeaconSeal.Proofs.Opening
import BeaconSeal.Proofs.Usable
import BeaconSeal.Proofs.Recovery
import BeaconSeal.Proofs.Sealed
import BeaconSeal.Proofs.History
import BeaconSeal.Proofs.Cache
import BeaconSeal.Proofs.Transparency
import BeaconSeal.Proofs.Binding
import BeaconSeal.Proofs.Rejection
import BeaconSeal.Proofs.Emission
import BeaconSeal.Proofs.Validated
import BeaconSeal.Proofs.Verification
import BeaconSeal.Proofs.Arguments
import BeaconSeal.Proofs.Interchange
import BeaconSeal.Proofs.Writable
import BeaconSeal.Proofs.Ciphertexts
import BeaconSeal.Proofs.Writing
import BeaconSeal.Proofs.Canonical
import BeaconSeal.Proofs.Widths
import BeaconSeal.Proofs.Lexemes
import BeaconSeal.Proofs.Values
import BeaconSeal.Proofs.Members
import BeaconSeal.Proofs.Description
import BeaconSeal.Proofs.Sampling
import BeaconSeal.Proofs.TargetBytes
import BeaconSeal.Proofs.GroupLaw
import BeaconSeal.Proofs.PointForms
