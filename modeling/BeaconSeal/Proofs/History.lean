import BeaconSeal.Proofs.Recovery
import BeaconSeal.Proofs.Sealed
import BeaconSeal.Proofs.Unwrapping
/-! The history of a node. Main statement: whatever was done to a node after something was sealed
with it, opening comes to what the node's faults say, in a fixed order, and leaves the node as it
is, so that the same bytes are opened once the round is served. -/
namespace BeaconSeal
variable {E : PairingGroups} {Member : (g : SourceGroup) → E.Point g → Prop}
  {power : Scalar → E.Target → E.Target}

def LocalBeacon.target (b : LocalBeacon E) (ct : Ibe.Ciphertext E) (round : UInt64) :
    Except Ibe.Fault E.Target := do
  let s ← SourcePoint.ofBytes b.variant.signatureGroup (b.sign round)
  Ibe.pairOpening ct.u s

theorem LocalBeacon.of_ofSeed {scheme : Scheme} {seed : Bytes} {b : LocalBeacon E}
    (h : LocalBeacon.ofSeed scheme seed = .ok b) : b.scheme.variant = .ok b.variant ∧
      b.publicKey = E.compress (E.smul b.secret (E.generator b.variant.keyGroup)) := by
  obtain ⟨variant, hvariant, h⟩ := bind_eq_ok_iff.1 h
  cases h
  exact ⟨hvariant, rfl⟩

namespace LocalNode

inductive Event where
  | publishThrough (round : UInt64)
  | serveSignatureOf (requested served : UInt64)
  | failInfo (e : Option ClientError)
  | stall (on : Bool)
  | encrypt (o : SealOptions) (round : UInt64) (payload pool : Bytes)
  | decrypt (o : SealOptions) (input pool : Bytes)

def step (s : LocalNode E × Calls) : Event → LocalNode E × Calls
  | .publishThrough round => (s.1.publishThrough round, s.2)
  | .serveSignatureOf requested served => (s.1.serveSignatureOf requested served, s.2)
  | .failInfo e => (s.1.failInfo e, s.2)
  | .stall on => (s.1.stall on, s.2)
  | .encrypt o round payload pool =>
    ((Sealing.encryptWith E o round payload).run client.counted ⟨s, pool⟩).2.client
  | .decrypt o input pool =>
    ((Sealing.decryptWith E o input).run client.counted ⟨s, pool⟩).2.client

def after (s : LocalNode E × Calls) (events : List Event) : LocalNode E × Calls :=
  events.foldl step s

/-- Questions do not change a node. -/
theorem node_of_run {ε α : Type} (d : Dialogue ε α) (s : World (LocalNode E × Calls)) :
    (d.run client.counted s).2.client.1 = s.client.1 := by
  induction d generalizing s with
  | done a => rfl
  | fail e => rfl
  | wait => rfl
  | random n next ih => exact ih _ _
  | info next ih => exact ih _ _
  | signature round next ih => exact ih _ _

theorem chain_of_step (s : LocalNode E × Calls) (event : Event) :
    (step s event).1.beacon = s.1.beacon ∧ (step s event).1.chain = s.1.chain := by
  cases event with
  | publishThrough round => exact ⟨rfl, rfl⟩
  | serveSignatureOf requested served => exact ⟨rfl, rfl⟩
  | failInfo e => exact ⟨rfl, rfl⟩
  | stall on => exact ⟨rfl, rfl⟩
  | encrypt o round payload pool => rw [step, node_of_run]; exact ⟨rfl, rfl⟩
  | decrypt o input pool => rw [step, node_of_run]; exact ⟨rfl, rfl⟩

/-- A node answers for one chain all its life. -/
theorem chain_of_after (s : LocalNode E × Calls) (events : List Event) :
    (after s events).1.beacon = s.1.beacon ∧ (after s events).1.chain = s.1.chain := by
  induction events generalizing s with
  | nil => exact ⟨rfl, rfl⟩
  | cons event events ih =>
    obtain ⟨hbeacon, hchain⟩ := chain_of_step s event
    obtain ⟨hbeacons, hchains⟩ := ih (step s event)
    exact ⟨hbeacons.trans hbeacon, hchains.trans hchain⟩

/-- Two rounds whose digests are hashed to one point, so that they have one signature. -/
def SameIdentity (b : LocalBeacon E) (round other : UInt64) : Prop :=
  E.hash b.variant.signatureGroup b.variant.tag (Sha256.digest (Bytes.bigEndian 8 round.toNat)) =
    E.hash b.variant.signatureGroup b.variant.tag (Sha256.digest (Bytes.bigEndian 8 other.toNat))

instance (b : LocalBeacon E) (round other : UInt64) : Decidable (SameIdentity b round other) :=
  inferInstanceAs (Decidable (_ = _))

/-- Two different pairing values have one pad, or two different pairs of seed and message that
they uncover have one scalar. -/
def HashesCollide (ct : Ibe.Ciphertext E) (t t' : E.Target) : Prop :=
  t ≠ t' ∧ Ibe.targetPad E t 32 = Ibe.targetPad E t' 32 ∨
    (ct.seedUnder t, ct.messageUnder t) ≠ (ct.seedUnder t', ct.messageUnder t') ∧
      Ibe.seedScalar (ct.seedUnder t) (ct.messageUnder t) =
        Ibe.seedScalar (ct.seedUnder t') (ct.messageUnder t')

/-- The signature of another round is noticed unless the hashes collide. As when sealing, what
is uncovered is taken to have a scalar. -/
def Misled (b : LocalBeacon E) (ct : Ibe.Ciphertext E) (round other : UInt64)
    (r : Outcome Error Bytes) : Prop :=
  ∃ t t', b.target ct round = .ok t ∧ b.target ct other = .ok t' ∧
    ∀ x, Ibe.seedScalar (ct.seedUnder t') (ct.messageUnder t') = .ok x →
      ¬ HashesCollide ct t t' → r = .failed .integrity

/-- What opening comes to. The faults of the node are met in this order. -/
def Verdict (n : LocalNode E) (ct : Ibe.Ciphertext E) (round : UInt64) (payload : Bytes)
    (limit : Option Duration) (r : Outcome Error Bytes) : Prop :=
  match n.infoFailure with
  | some e => r = .failed (.ofClient round e)
  | none =>
    if n.stalled then
      match limit with
      | some d => r = .failed (.timeout d)
      | none => r = .waiting
    else if n.latest < round then r = .failed (.roundNotYetAvailable round)
    else if n.served round = round then r = .done payload
    else if SameIdentity n.beacon round (n.served round) then r = .done payload
    else
      Ibe.hashIdentity E n.beacon.variant (Ibe.roundIdentity (n.served round)) ≠
          E.identity n.beacon.variant.signatureGroup →
        Misled n.beacon ct round (n.served round) r

/-- The envelope has a stanza of the chain for the round, whose ciphertext the beacon's signature
of the round opens to the file key. Neither the signature nor the ciphertext's point is the
identity. -/
structure Sealed (b : LocalBeacon E) (info : ChainInfo) (round : UInt64) (payload : Bytes)
    (ct : Ibe.Ciphertext E) (e : Envelope) : Prop where
  round_ne_zero : round ≠ 0
  valid : info.validate E = .ok ()
  variant : info.scheme.variant = .ok b.variant
  secret : b.secret.val ≠ 0
  identity : Ibe.hashIdentity E b.variant (Ibe.roundIdentity round) ≠
    E.identity b.variant.signatureGroup
  ofBytes_bytes : Ibe.Ciphertext.ofBytes b.variant ct.bytes = .ok ct
  stanzas : e.stanzas = [Timelock.stanza round info ct]
  opens : ∃ (key : FileKey) (seed : Bytes), key.bytes.length = 32 ∧
    (∀ r, Ibe.seedScalar seed key.bytes = .ok r → r.val ≠ 0) ∧
    Ibe.Opens b.variant (b.sign round) ct seed key.bytes ∧ e.Usable key payload

theorem Sealed.after {s : LocalNode E × Calls} {round : UInt64} {payload : Bytes}
    {ct : Ibe.Ciphertext E} {e : Envelope} (h : Sealed s.1.beacon s.1.chain round payload ct e)
    (events : List Event) : Sealed (LocalNode.after s events).1.beacon
      (LocalNode.after s events).1.chain round payload ct e := by
  obtain ⟨hbeacon, hchain⟩ := chain_of_after s events
  rw [hbeacon, hchain]
  exact h

theorem sign_eq_of_sameIdentity {b : LocalBeacon E} {round other : UInt64}
    (h : SameIdentity b round other) : b.sign round = b.sign other := by
  have hidentity : Ibe.hashIdentity E b.variant (Ibe.roundIdentity round) =
    Ibe.hashIdentity E b.variant (Ibe.roundIdentity other) := h
  rw [LocalBeacon.sign, LocalBeacon.sign, hidentity]

section
variable {b : LocalBeacon E} {info : ChainInfo} {round other : UInt64} {payload : Bytes}
  {ct : Ibe.Ciphertext E} {e : Envelope} {u : E.Point b.variant.keyGroup}
  (L : E.Laws Member power)
include L

theorem target_eq (hsecret : b.secret.val ≠ 0)
    (hidentity : Ibe.hashIdentity E b.variant (Ibe.roundIdentity round) ≠
      E.identity b.variant.signatureGroup) (hu : ct.u = ⟨b.variant.keyGroup, u⟩) :
    b.target ct round = .ok (E.pairAcross b.variant.keyGroup u
      (E.smul b.secret (Ibe.hashIdentity E b.variant (Ibe.roundIdentity round)))) := by
  have hmem := L.hash_mem b.variant.signatureGroup b.variant.tag (Ibe.roundIdentity round)
  have hs := L.ofBytes_compress (L.smul_mem b.secret hmem)
    (L.smul_ne_identity hmem hidentity hsecret)
  rw [LocalBeacon.target, hu]
  exact bind_eq_ok_iff.2 ⟨_, hs, Ibe.pairOpening_eq u _⟩

theorem sameIdentity_of_target_eq (hN : E.NonDegenerate Member) (hsecret : b.secret.val ≠ 0)
    (hround : Ibe.hashIdentity E b.variant (Ibe.roundIdentity round) ≠
      E.identity b.variant.signatureGroup)
    (hother : Ibe.hashIdentity E b.variant (Ibe.roundIdentity other) ≠
      E.identity b.variant.signatureGroup) (hu : ct.u = ⟨b.variant.keyGroup, u⟩)
    (hmem : Member b.variant.keyGroup u) (hne : u ≠ E.identity b.variant.keyGroup)
    (h : b.target ct round = b.target ct other) : SameIdentity b round other := by
  rw [target_eq L hsecret hround hu, target_eq L hsecret hother hu] at h
  exact L.eq_of_pairAcross_smul_right hN hsecret hmem hne (L.hash_mem _ _ _) (L.hash_mem _ _ _)
    (Except.ok.inj h)

/-- The pairing values differ. Without a collision the scalars do then, and so do the points that
are compared. -/
theorem Sealed.keyOf_of_other (hE : E.FullOrder) (hN : E.NonDegenerate Member)
    (h : Sealed b info round payload ct e)
    (hidentity : Ibe.hashIdentity E b.variant (Ibe.roundIdentity other) ≠
      E.identity b.variant.signatureGroup) (hdistinct : ¬ SameIdentity b round other) :
    ∃ t t', b.target ct round = .ok t ∧ b.target ct other = .ok t' ∧
      ∀ x, Ibe.seedScalar (ct.seedUnder t') (ct.messageUnder t') = .ok x →
        ¬ HashesCollide ct t t' →
          Timelock.keyOf (b.variant, ct) (b.sign other) = .error .integrity := by
  obtain ⟨key, seed, hkey, hscalar, hopens, _⟩ := h.opens
  obtain ⟨r, hr, hu⟩ := hopens.u_eq_smul
  have hG := L.generator_mem b.variant.keyGroup
  have hpoint := L.smul_ne_identity hG (L.generator_ne_identity _) (hscalar r hr)
  obtain ⟨t, ht⟩ : ∃ t, b.target ct round = .ok t := ⟨_, target_eq L h.secret h.identity hu⟩
  obtain ⟨t', ht'⟩ : ∃ t, b.target ct other = .ok t := ⟨_, target_eq L h.secret hidentity hu⟩
  have hne : t ≠ t' := by
    intro heq
    subst heq
    exact hdistinct (sameIdentity_of_target_eq L hN h.secret h.identity hidentity hu
      (L.smul_mem r hG) hpoint (ht.trans ht'.symm))
  refine ⟨t, t', ht, ht', fun x hx hcollide => ?_⟩
  obtain ⟨s, hs, hpair⟩ := bind_eq_ok_iff.1 ht
  obtain ⟨s', hs', hpair'⟩ := bind_eq_ok_iff.1 ht'
  obtain ⟨hseed, hmessage⟩ := hopens.under_eq hs hpair
  -- With one scalar the pairs are the same, so the pads are, and those are of different values.
  have hother : Ibe.seedScalar seed key.bytes ≠ .ok x := by
    intro hsame
    rw [← hseed, ← hmessage, ← hx] at hsame
    refine hcollide (.inr ⟨fun heq => hcollide (.inl ⟨hne, ?_⟩), hsame⟩)
    have hpad := Ibe.Ciphertext.targetPad_eq_of_seedUnder_eq
      (hopens.length_v ▸ hopens.length_message.2) (Prod.mk.inj heq).1
    rwa [hopens.length_v, hkey] at hpad
  have hdecrypt := Ibe.decrypt_of_opens_other hE hopens hs' hpair'
  rw [hx, ok_bind, if_neg hother] at hdecrypt
  exact Timelock.keyOf_of_fault (p := (b.variant, ct)) hdecrypt

end

section
variable {n : LocalNode E} {round : UInt64} {ct : Ibe.Ciphertext E} {payload : Bytes}
  {e : Envelope} (calls : Calls) (limit : Option Duration) (pool : Bytes)

theorem run_unwrap_of_infoFailure (h : Sealed n.beacon n.chain round payload ct e)
    {error : ClientError} (hinfo : n.infoFailure = some error) :
    (Timelock.unwrap E { limit := limit } e.stanzas).run client.counted ⟨(n, calls), pool⟩ =
      (.failed (.ofClient round error), ⟨(n, { calls with info := calls.info+1 }), pool⟩) := by
  have hanswer : (client.counted.info (n, calls)).1 = .error error := by
    change n.answerInfo = _
    rw [answerInfo, hinfo]
  rw [h.stanzas, Timelock.unwrap_stanza h.round_ne_zero, Timelock.run_openBody, hanswer]
  rfl

/-- A node that describes its chain is asked for the signature. -/
theorem run_unwrap_of_answerInfo (h : Sealed n.beacon n.chain round payload ct e)
    (hinfo : n.infoFailure = none) :
    (Timelock.unwrap E { limit := limit } e.stanzas).run client.counted ⟨(n, calls), pool⟩ =
      (Timelock.conclude limit round (n.beacon.variant, ct) (n.answerSignature round),
        ⟨(n, ⟨calls.info+1, calls.signature+1⟩), pool⟩) := by
  have hanswer : (client.counted.info (n, calls)).1 = .ok n.chain := by
    change n.answerInfo = _
    rw [answerInfo, hinfo]
  have hsettle : Timelock.settle E { limit := limit } round n.chain.hash ct.bytes (.ok n.chain) =
      .ok (n.beacon.variant, ct) :=
    Timelock.settle_eq_ok_iff.2 ⟨n.chain, rfl, h.valid, rfl, h.variant, rfl, h.ofBytes_bytes⟩
  rw [h.stanzas, Timelock.unwrap_stanza h.round_ne_zero, Timelock.run_openBody, hanswer, hsettle]
  rfl

theorem world_of_run_decrypt (h : Sealed n.beacon n.chain round payload ct e) :
    ((e.decrypt (Timelock.unwrap E { limit := limit })).run client.counted
        ⟨(n, calls), pool⟩).2 =
      ⟨(n, ⟨calls.info+1, calls.signature + if n.infoFailure.isNone then 1 else 0⟩), pool⟩ := by
  rw [Envelope.world_of_run_decrypt]
  cases hinfo : n.infoFailure with
  | some error =>
    rw [run_unwrap_of_infoFailure calls limit pool h hinfo]
    rfl
  | none =>
    rw [run_unwrap_of_answerInfo calls limit pool h hinfo]
    rfl

theorem verdict_of_run_decrypt (L : E.Laws Member power) (hE : E.FullOrder)
    (hN : E.NonDegenerate Member) (h : Sealed n.beacon n.chain round payload ct e) :
    Verdict n ct round payload limit ((e.decrypt (Timelock.unwrap E { limit := limit })).run
      client.counted ⟨(n, calls), pool⟩).1 := by
  unfold Verdict
  cases hinfo : n.infoFailure with
  | some error =>
    have hunwrap := run_unwrap_of_infoFailure calls limit pool h hinfo
    exact congrArg Prod.fst (Envelope.run_decrypt_of_failed hunwrap)
  | none =>
    have hunwrap := run_unwrap_of_answerInfo calls limit pool h hinfo
    have hfailed {error : Error}
        (hreply : Timelock.conclude limit round (n.beacon.variant, ct) (n.answerSignature round) =
          .failed error) : ((e.decrypt (Timelock.unwrap E { limit := limit })).run client.counted
            ⟨(n, calls), pool⟩).1 = .failed error := by
      rw [hreply] at hunwrap
      exact congrArg Prod.fst (Envelope.run_decrypt_of_failed hunwrap)
    dsimp only
    by_cases hstalled : n.stalled
    · have hreply : n.answerSignature round = .pending := if_pos hstalled
      rw [if_pos hstalled]
      rw [hreply] at hunwrap hfailed
      cases limit with
      | some d => exact hfailed rfl
      | none => exact congrArg Prod.fst (Envelope.run_decrypt_of_waiting hunwrap)
    rw [if_neg hstalled]
    by_cases hlatest : n.latest < round
    · have hreply : n.answerSignature round = .answered (.error (.notYetAvailable round)) := by
        rw [answerSignature, if_neg hstalled, if_neg h.round_ne_zero, if_pos hlatest]
      rw [if_pos hlatest]
      rw [hreply] at hfailed
      exact hfailed rfl
    rw [if_neg hlatest]
    have hreply : n.answerSignature round = .answered (.ok (n.beacon.sign (n.served round))) := by
      rw [answerSignature, if_neg hstalled, if_neg h.round_ne_zero, if_neg hlatest]
    rw [hreply, Timelock.conclude] at hunwrap hfailed
    have hdone (hsign : n.beacon.sign round = n.beacon.sign (n.served round)) :
        ((e.decrypt (Timelock.unwrap E { limit := limit })).run client.counted
          ⟨(n, calls), pool⟩).1 = .done payload := by
      obtain ⟨key, seed, _, _, hopens, husable⟩ := h.opens
      rw [← hsign, Timelock.keyOf_of_decrypt (Ibe.decrypt_of_opens hopens)] at hunwrap
      exact congrArg Prod.fst (husable.opens _ _ _ _ _ hunwrap)
    by_cases hserved : n.served round = round
    · rw [if_pos hserved]
      exact hdone (congrArg _ hserved.symm)
    rw [if_neg hserved]
    by_cases hsame : SameIdentity n.beacon round (n.served round)
    · rw [if_pos hsame]
      exact hdone (sign_eq_of_sameIdentity hsame)
    · rw [if_neg hsame]
      intro hidentity
      obtain ⟨t, t', ht, ht', hok⟩ := h.keyOf_of_other L hE hN hidentity hsame
      exact ⟨t, t', ht, ht', fun x hx hcollide => hfailed (by rw [hok x hx hcollide])⟩

end

section
variable {n : LocalNode E} {ct : Ibe.Ciphertext E} {round : UInt64} {payload : Bytes}
  {limit : Option Duration} {r : Outcome Error Bytes}

theorem timeout_of_verdict {d : Duration} (h : Verdict n ct round payload (some d) r)
    (hinfo : n.infoFailure = none) (hstalled : n.stalled) : r = .failed (.timeout d) := by
  unfold Verdict at h
  rw [hinfo] at h
  dsimp only at h
  rwa [if_pos hstalled] at h

theorem done_of_verdict (h : Verdict n ct round payload limit r) (hinfo : n.infoFailure = none)
    (hstalled : n.stalled = false) (hlatest : round ≤ n.latest)
    (hserved : n.served round = round) : r = .done payload := by
  unfold Verdict at h
  rw [hinfo, hstalled] at h
  dsimp only at h
  rwa [if_neg Bool.false_ne_true, if_neg (UInt64.not_lt.2 hlatest), if_pos hserved] at h

end

theorem info_of_answerInfo {n : LocalNode E} {info : ChainInfo} (h : n.answerInfo = .ok info) :
    info = n.chain := by
  rw [answerInfo] at h
  split at h
  · cases h
  · cases h
    rfl

/-- What a node of the beacon sealed is opened as an envelope that the node's chain can open. -/
theorem exists_sealed_of_run (L : E.Laws Member power) {scheme : Scheme} {beaconSeed : Bytes}
    {b : LocalBeacon E} (hb : LocalBeacon.ofSeed scheme beaconSeed = .ok b)
    (hsecret : b.secret.val ≠ 0) {s : LocalNode E × Calls} {period genesisTime round : UInt64}
    (hbeacon : s.1.beacon = b) (hchain : s.1.chain = b.info period genesisTime)
    (hidentity : Ibe.hashIdentity E b.variant (Ibe.roundIdentity round) ≠
      E.identity b.variant.signatureGroup) {random payload out : Bytes}
    (hscalar : ∀ r, Ibe.seedScalar ((random.drop 32).take 32) (random.take 32) = .ok r →
      r.val ≠ 0) {o : SealOptions} {w : World (LocalNode E × Calls)}
    (h : (Sealing.encryptWith E o round payload).run client.counted ⟨s, random⟩ =
      (.done out, w)) :
    ∃ (ct : Ibe.Ciphertext E) (e : Envelope),
      Ibe.encryptWith b.variant b.publicKey (Ibe.roundIdentity round) (random.take 32)
        ((random.drop 32).take 32) = .ok ct ∧
      Sealed w.client.1.beacon w.client.1.chain round payload ct e ∧
      ∀ o' : SealOptions, o'.width = o.width →
        Sealing.decryptWith E o' out = e.decrypt (Timelock.unwrap E { limit := o'.limit }) := by
  obtain ⟨hscheme, hpublic⟩ := LocalBeacon.of_ofSeed hb
  obtain ⟨hround, info, variant, key, ct, e, hinfo, hvalid, hvariant, htake, hkey, hseed, hct,
    hstanzas, husable, heq⟩ := Sealing.exists_of_run_encryptWith h
  obtain rfl : info = b.info period genesisTime := (info_of_answerInfo hinfo).trans hchain
  obtain rfl : variant = b.variant := Except.ok.inj (hvariant.symm.trans hscheme)
  obtain ⟨hmessage, _, r, hr⟩ := Ibe.exists_encryptWith_iff.1 ⟨ct, hct⟩
  obtain ⟨ct', hct', hopens, hbytes⟩ := Ibe.exists_encryptWith L hsecret
    (L.smul_ne_identity (L.hash_mem _ _ _) hidentity hsecret) hmessage (hseed.trans hkey.symm) hr
  rw [← hpublic] at hct'
  cases hct.symm.trans hct'
  have hnode := node_of_run (Sealing.encryptWith E o round payload) ⟨s, random⟩
  rw [h] at hnode
  refine ⟨ct, e, htake ▸ hct, ?_, heq⟩
  rw [hnode, hbeacon, hchain]
  exact {
    round_ne_zero := hround
    valid := hvalid
    variant := hvariant
    secret := hsecret
    identity := hidentity
    ofBytes_bytes := hbytes (hscalar r (htake ▸ hr))
    stanzas := hstanzas
    opens := ⟨key, _, hkey, fun r hr => hscalar r (htake ▸ hr), hopens, husable⟩ }

/-- Whatever is done to a node after it sealed something, opening comes to the verdict on its
faults, and adds to its counts but leaves it as it is; and once it misbehaves no more and the
round is out, the payload is there. -/
theorem decryptWith_after (L : E.Laws Member power) (hE : E.FullOrder)
    (hN : E.NonDegenerate Member) (scheme : Scheme) (beaconSeed : Bytes) (b : LocalBeacon E)
    (period genesisTime : UInt64) (before : List Event) (o : SealOptions) (round : UInt64)
    (payload random out : Bytes) (w : World (LocalNode E × Calls))
    (hb : LocalBeacon.ofSeed scheme beaconSeed = .ok b) (hsecret : b.secret.val ≠ 0)
    (hidentity : Ibe.hashIdentity E b.variant (Ibe.roundIdentity round) ≠
      E.identity b.variant.signatureGroup)
    (hscalar : ∀ r, Ibe.seedScalar ((random.drop 32).take 32) (random.take 32) = .ok r →
      r.val ≠ 0)
    (hsealed : (Sealing.encryptWith E o round payload).run client.counted
      ⟨after (ofBeacon b period genesisTime, {}) before, random⟩ = (.done out, w)) :
    ∃ ct, Ibe.encryptWith b.variant b.publicKey (Ibe.roundIdentity round) (random.take 32)
        ((random.drop 32).take 32) = .ok ct ∧
      (∀ (events : List Event) (n : LocalNode E) (calls : Calls) (o' : SealOptions)
          (pool : Bytes), after w.client events = (n, calls) → o'.width = o.width →
        let r := (Sealing.decryptWith E o' out).run client.counted ⟨(n, calls), pool⟩
        Verdict n ct round payload o'.limit r.1 ∧
          r.2 = ⟨(n, ⟨calls.info+1,
            calls.signature + if n.infoFailure.isNone then 1 else 0⟩), pool⟩) ∧
      ∀ (events : List Event) (last : UInt64) (o' : SealOptions) (pool : Bytes),
        round ≤ last → o'.width = o.width →
        ((Sealing.decryptWith E o' out).run client.counted
          ⟨after w.client (events ++ [.failInfo none, .stall false, .publishThrough last,
            .serveSignatureOf round round]), pool⟩).1 = .done payload := by
  obtain ⟨hbeacon, hchain⟩ := chain_of_after (ofBeacon b period genesisTime, {}) before
  obtain ⟨ct, e, hct, he, heq⟩ :=
    exists_sealed_of_run L hb hsecret hbeacon hchain hidentity hscalar hsealed
  have hverdict (events : List Event) (n : LocalNode E) (calls : Calls) (o' : SealOptions)
      (pool : Bytes) (hafter : after w.client events = (n, calls)) (hwidth : o'.width = o.width) :
      let r := (Sealing.decryptWith E o' out).run client.counted ⟨(n, calls), pool⟩
      Verdict n ct round payload o'.limit r.1 ∧
        r.2 = ⟨(n, ⟨calls.info+1,
          calls.signature + if n.infoFailure.isNone then 1 else 0⟩), pool⟩ := by
    have h := he.after events
    rw [hafter] at h
    rw [heq o' hwidth]
    exact ⟨verdict_of_run_decrypt calls o'.limit pool L hE hN h,
      world_of_run_decrypt calls o'.limit pool h⟩
  refine ⟨ct, hct, hverdict, fun events last o' pool hlast hwidth => ?_⟩
  have hafter : after w.client (events ++ [.failInfo none, .stall false, .publishThrough last,
      .serveSignatureOf round round]) = (((((after w.client events).1.failInfo none).stall
        false).publishThrough last).serveSignatureOf round round, (after w.client events).2) := by
    rw [after, List.foldl_append]
    rfl
  have h := (hverdict _ _ _ o' pool hafter hwidth).1
  rw [hafter]
  exact done_of_verdict h rfl rfl hlast (if_pos rfl)

/-- Opening runs out of time at a stalled node, and succeeds later. -/
theorem decryptWith_after_stall : ∃ (b : LocalBeacon exponents) (out : Bytes)
    (w : World (LocalNode exponents × Calls)),
    LocalBeacon.ofSeed .unchainedOnG1 LocalBeacon.defaultSeed = .ok b ∧
    (Sealing.encryptWith exponents {} 1000 [104, 105]).run client.counted
      ⟨after (ofBeacon b 3 0, {}) [.publishThrough 999],
        List.replicate 32 1 ++ List.replicate 48 2⟩ = (.done out, w) ∧
    ((Sealing.decryptWith exponents { limit := some ⟨5⟩ } out).run client.counted
      ⟨after w.client [.failInfo none, .stall true], []⟩).1 = .failed (.timeout ⟨5⟩) ∧
    ((Sealing.decryptWith exponents {} out).run client.counted
      ⟨after w.client ([.failInfo none, .stall true, .decrypt {} out []] ++ [.failInfo none,
        .stall false, .publishThrough 1000, .serveSignatureOf 1000 1000]), []⟩).1 =
      .done [104, 105] := by
  have hscheme : Scheme.unchainedOnG1 ≠ .chained := by decide
  obtain ⟨variant, hvariant, hb⟩ :=
    LocalBeacon.exists_ofSeed (E := exponents) hscheme LocalBeacon.defaultSeed
  cases hvariant
  let b := LocalBeacon.ofSecret exponents .unchainedOnG1 .keyOnG2Legacy
    (LocalBeacon.secretOf LocalBeacon.defaultSeed)
  let random : Bytes := List.replicate 32 1 ++ List.replicate 48 2
  obtain ⟨out, w, hsealed⟩ := Outcome.exists_of_isDone (r := (Sealing.encryptWith exponents {}
    1000 [104, 105]).run client.counted ⟨after (ofBeacon b 3 0, {}) [.publishThrough 999],
      random⟩) (by decide +kernel)
  have hr : Ibe.seedScalar ((random.drop 32).take 32) (random.take 32) = .ok (Scalar.ofNat
      36224223904676079120785318022599171833472288878015865734041533115418248941847) := by
    decide +kernel
  obtain ⟨ct, _, hverdict, hlater⟩ := decryptWith_after exponents.laws exponents.fullOrder
    exponents.nonDegenerate .unchainedOnG1 LocalBeacon.defaultSeed _ 3 0 [.publishThrough 999] {}
    1000 [104, 105] random out w hb (by decide +kernel) (by decide +kernel)
    (fun r h => by
      cases hr.symm.trans h
      decide) hsealed
  refine ⟨b, out, w, hb, hsealed, ?_, hlater _ 1000 {} [] (by decide) rfl⟩
  have h := (hverdict [.failInfo none, .stall true] _ _ { limit := some ⟨5⟩ } [] rfl rfl).1
  exact timeout_of_verdict h rfl rfl

end LocalNode
end BeaconSeal
