import BeaconSeal.Client.Cache
import BeaconSeal.Ibe.Cipher
/-! A beacon whose secret comes from a seed, a client that answers for it and can be told to
misbehave, and a client with fixed answers. -/
namespace BeaconSeal

structure LocalBeacon (E : PairingGroups) where
  scheme : Scheme
  variant : Variant
  secret : Scalar
  publicKey : Bytes

namespace LocalBeacon
variable {E : PairingGroups}

def defaultGenesis : UInt64 := 1692803367
def defaultPeriod : UInt64 := 3
def defaultSeed : Bytes := Text.utf8 "tlock-harness".toList

def ofSeed (scheme : Scheme) (seed : Bytes) : Except Ibe.Fault (LocalBeacon E) := do
  let variant ← scheme.variant
  let secret := Scalar.ofNat (Bytes.ofBigEndian (Sha256.digest seed))
  .ok ⟨scheme, variant, secret, E.compress (E.smul secret (E.generator variant.keyGroup))⟩

def sign (b : LocalBeacon E) (round : UInt64) : Bytes :=
  E.compress (E.smul b.secret (Ibe.hashIdentity E b.variant (Ibe.roundIdentity round)))

def info (b : LocalBeacon E) (period genesisTime : UInt64) : ChainInfo where
  hash := Sha256.digest (Text.utf8 b.scheme.name ++ b.publicKey ++
    Bytes.bigEndian 8 period.toNat ++ Bytes.bigEndian 8 genesisTime.toNat)
  publicKey := b.publicKey
  period := period
  genesisTime := genesisTime
  scheme := b.scheme
  beaconId := "harness".toList

end LocalBeacon

structure LocalNode (E : PairingGroups) where
  beacon : LocalBeacon E
  chain : ChainInfo
  /-- The last round that is published; at first, all are. -/
  latest : UInt64 := 0xffffffffffffffff
  /-- The round whose signature is served for a round. -/
  served : UInt64 → UInt64 := id
  infoFailure : Option ClientError := none
  stalled : Bool := false

namespace LocalNode
variable {E : PairingGroups}

def ofBeacon (b : LocalBeacon E) (period genesisTime : UInt64) : LocalNode E where
  beacon := b
  chain := b.info period genesisTime

def publishThrough (round : UInt64) (n : LocalNode E) : LocalNode E := { n with latest := round }

def serveSignatureOf (requested served : UInt64) (n : LocalNode E) : LocalNode E :=
  { n with served := fun r => if r = requested then served else n.served r }

def failInfo (e : Option ClientError) (n : LocalNode E) : LocalNode E :=
  { n with infoFailure := e }

def stall (on : Bool) (n : LocalNode E) : LocalNode E := { n with stalled := on }

def answerInfo (n : LocalNode E) : Except ClientError ChainInfo :=
  match n.infoFailure with
  | some e => .error e
  | none => .ok n.chain

def answerSignature (n : LocalNode E) (round : UInt64) : Reply :=
  if n.stalled then .pending
  else if round = 0 then .answered (.error ⟨"round 0 does not exist", .permanent⟩)
  else if n.latest < round then .answered (.error (.notYetAvailable round))
  else .answered (.ok (n.beacon.sign (n.served round)))

def client : Client (LocalNode E) where
  info n := (n.answerInfo, n)
  signature round n := (n.answerSignature round, n)

end LocalNode

structure FixedNode where
  info : Except ClientError ChainInfo
  signatures : List (UInt64 × Bytes)
  /-- Why other rounds are refused; otherwise they are still to come. -/
  refusal : Option ClientError

namespace FixedNode

def answerSignature (n : FixedNode) (round : UInt64) : Except ClientError Bytes :=
  match n.signatures.find? (fun s => s.1 = round) with
  | some s => .ok s.2
  | none => .error (n.refusal.getD (.notYetAvailable round))

def client : Client FixedNode where
  info n := (n.info, n)
  signature round n := (.answered (n.answerSignature round), n)

end FixedNode

inductive Server (E : PairingGroups) where
  | ofLocal (n : LocalNode E)
  | fixed (n : FixedNode)

namespace Server
variable {E : PairingGroups}

def client : Client (Server E) where
  info
    | ofLocal n => (n.answerInfo, ofLocal n)
    | fixed n => (n.info, fixed n)
  signature round
    | ofLocal n => (n.answerSignature round, ofLocal n)
    | fixed n => (.answered (n.answerSignature round), fixed n)

def modify (f : LocalNode E → LocalNode E) : Server E → Server E
  | ofLocal n => ofLocal (f n)
  | fixed n => fixed n

end Server

inductive Node (E : PairingGroups) where
  | direct (s : Server E × Calls)
  | caching (s : Cached (Server E × Calls))

namespace Node
variable {E : PairingGroups}

def ofServer (s : Server E) (cache : Bool) : Node E :=
  if cache then caching { inner := (s, {}) } else direct (s, {})

def client : Client (Node E) where
  info
    | direct s =>
      let r := Server.client.counted.info s
      (r.1, direct r.2)
    | caching s =>
      let r := Server.client.counted.cached.info s
      (r.1, caching r.2)
  signature round
    | direct s =>
      let r := Server.client.counted.signature round s
      (r.1, direct r.2)
    | caching s =>
      let r := Server.client.counted.cached.signature round s
      (r.1, caching r.2)

def infoMany (n : Nat) : Node E → List (Except ClientError ChainInfo) × Node E
  | direct s =>
    let r := Server.client.counted.infoTimes n s
    (r.1, direct r.2)
  | caching s =>
    let r := Crowd.ask Server.client.counted n s
    (r.1, caching r.2)

def calls : Node E → Calls
  | direct s => s.2
  | caching s => s.inner.2

def modify (f : LocalNode E → LocalNode E) : Node E → Node E
  | direct s => direct (s.1.modify f, s.2)
  | caching s => caching { s with inner := (s.inner.1.modify f, s.inner.2) }

end Node
end BeaconSeal
