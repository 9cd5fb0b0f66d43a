import BeaconSeal.Ibe.Fault
/-! Signing schemes of beacon chains, and which way round each one uses the two groups. -/
namespace BeaconSeal

def tagG1 : Bytes := Text.utf8 "BLS_SIG_BLS12381G1_XMD:SHA-256_SSWU_RO_NUL_".toList
def tagG2 : Bytes := Text.utf8 "BLS_SIG_BLS12381G2_XMD:SHA-256_SSWU_RO_NUL_".toList

inductive Variant where
  | keyOnG1
  | keyOnG2Legacy
  | keyOnG2
  deriving DecidableEq, Repr

namespace Variant

def keyGroup : Variant → SourceGroup
  | keyOnG1 => .g1
  | keyOnG2Legacy | keyOnG2 => .g2

def signatureGroup (v : Variant) : SourceGroup := v.keyGroup.opposite

/-- The legacy variant signs on the first group under the tag of the second. -/
def tag : Variant → Bytes
  | keyOnG1 | keyOnG2Legacy => tagG2
  | keyOnG2 => tagG1

end Variant

inductive Scheme where
  | chained
  | unchained
  | unchainedOnG1
  | unchainedOnG1Rfc
  deriving DecidableEq, Repr

namespace Scheme

def name : Scheme → Text
  | chained => "pedersen-bls-chained".toList
  | unchained => "pedersen-bls-unchained".toList
  | unchainedOnG1 => "bls-unchained-on-g1".toList
  | unchainedOnG1Rfc => "bls-unchained-g1-rfc9380".toList

def all : List Scheme := [chained, unchained, unchainedOnG1, unchainedOnG1Rfc]

def ofName (t : Text) : Except Ibe.Fault Scheme :=
  match all.find? (fun s => s.name = t) with
  | some s => .ok s
  | none => .error (.unsupportedScheme t)

def keyGroup : Scheme → SourceGroup
  | chained | unchained => .g1
  | unchainedOnG1 | unchainedOnG1Rfc => .g2

/-- A chained scheme signs the previous signature too, so that what a later round signs is
not known beforehand. -/
def variant : Scheme → Except Ibe.Fault Variant
  | chained => .error (.unsupportedScheme chained.name)
  | unchained => .ok .keyOnG1
  | unchainedOnG1 => .ok .keyOnG2Legacy
  | unchainedOnG1Rfc => .ok .keyOnG2

theorem ofName_name (s : Scheme) : ofName s.name = .ok s := by
  cases s <;> rfl

end Scheme
end BeaconSeal
