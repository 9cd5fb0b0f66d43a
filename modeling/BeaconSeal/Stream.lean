import BeaconSeal.Cipher.Authenticated
/-! Payload encryption in pieces. The nonce of a piece holds its index and whether it is
the last one, so that pieces can be neither moved nor dropped nor added. -/
namespace BeaconSeal.Stream

def pieceSize : Nat := 65536
def sealedSize : Nat := pieceSize + Authenticated.tagSize

inductive Fault where
  | tooShort
  | truncated
  | emptyLast
  | unauthentic (index : Nat)
  | other (reason : String)
  deriving DecidableEq, Repr

def Fault.message : Fault → String
  | tooShort => "payload shorter than one chunk"
  | truncated => "truncated chunk"
  | emptyLast => "empty final chunk after data"
  | unauthentic i => s!"chunk {i} failed authentication"
  | other reason => reason

def nonce (index : Nat) (last : Bool) : SizedBytes 12 :=
  ⟨[0, 0, 0] ++ Bytes.bigEndian 8 index ++ [if last then 1 else 0], by simp⟩

variable (key : SizedBytes 32)

def encryptFrom (i : Nat) : List Bytes → Bytes
  | [] => []
  | [b] => Authenticated.encrypt key (nonce i true) b
  | b :: bs => Authenticated.encrypt key (nonce i false) b ++ encryptFrom (i+1) bs

def encrypt (plaintext : Bytes) : Bytes := encryptFrom key 0 (Cut.pieces pieceSize plaintext)

/-- Decrypts one piece. Only the first piece may be the last one and hold no data. -/
def decryptPiece (i : Nat) (last : Bool) (b : Bytes) : Except Fault Bytes :=
  if b.length < Authenticated.tagSize then .error .truncated
  else if last ∧ b.length = Authenticated.tagSize ∧ 0 < i then .error .emptyLast
  else
    match Authenticated.decrypt? key (nonce i last) b with
    | none => .error (.unauthentic i)
    | some p => .ok p

def decryptFrom (i : Nat) : List Bytes → Except Fault Bytes
  | [] => .ok []
  | [b] => decryptPiece key i true b
  | b :: bs => do
    let p ← decryptPiece key i false b
    let ps ← decryptFrom (i+1) bs
    .ok (p ++ ps)

def decrypt (sealed : Bytes) : Except Fault Bytes :=
  if sealed.length < Authenticated.tagSize then .error .tooShort
  else decryptFrom key 0 (Cut.pieces sealedSize sealed)

end BeaconSeal.Stream
