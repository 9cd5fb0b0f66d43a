import BeaconSeal.Proofs.Cache
import BeaconSeal.Proofs.History
/-! A node behind the cache next to the same node without it. Main statement: in any history
without a failure to describe the chain, each operation ends in the same way and leaves the same
random bytes, as many signatures are asked for, and the description is asked for once if at all. -/
namespace BeaconSeal
namespace Node
variable {E : PairingGroups} {n : LocalNode E} {calls : Calls}

def perform (m : Node E) : LocalNode.Event → Option (Outcome Error Bytes × Bytes) × Node E
  | .publishThrough round => (none, m.modify (LocalNode.publishThrough round))
  | .serveSignatureOf requested served =>
    (none, m.modify (LocalNode.serveSignatureOf requested served))
  | .failInfo e => (none, m.modify (LocalNode.failInfo e))
  | .stall on => (none, m.modify (LocalNode.stall on))
  | .encrypt o round payload pool =>
    let r := (Sealing.encryptWith E o round payload).run client ⟨m, pool⟩
    (some (r.1, r.2.pool), r.2.client)
  | .decrypt o input pool =>
    let r := (Sealing.decryptWith E o input).run client ⟨m, pool⟩
    (some (r.1, r.2.pool), r.2.client)

def trace (m : Node E) :
    List LocalNode.Event → List (Option (Outcome Error Bytes × Bytes) × Calls)
  | [] => []
  | event :: events =>
    let r := m.perform event
    (r.1, r.2.calls) :: trace r.2 events

def throughCache (calls : Calls) : Calls := { calls with info := min 1 calls.info }

def plain (n : LocalNode E) (calls : Calls) : Node E := direct (.ofLocal n, calls)

def cached (n : LocalNode E) (calls : Calls) : Node E :=
  caching {
    inner := (.ofLocal n, throughCache calls)
    cell := if calls.info = 0 then none else some n.chain }

theorem info_plain (h : n.infoFailure = none) : client.info (plain n calls) =
    (.ok n.chain, plain n { calls with info := calls.info+1 }) := by
  change (n.answerInfo, _) = _
  rw [LocalNode.answerInfo, h]
  rfl

theorem info_cached (h : n.infoFailure = none) : client.info (cached n calls) =
    (.ok n.chain, cached n { calls with info := calls.info+1 }) := by
  have hanswer : n.answerInfo = .ok n.chain := by
    rw [LocalNode.answerInfo, h]
  obtain ⟨info, signature⟩ := calls
  cases info with
  | zero =>
    have hinfo : Server.client.counted.info (.ofLocal n, throughCache ⟨0, signature⟩) =
        (.ok n.chain, .ofLocal n, ⟨1, signature⟩) := Prod.ext hanswer rfl
    simp only [cached, client, if_true, Client.cached_info_of_none hinfo]
    rfl
  | succ k =>
    have hcalls : throughCache ⟨k+1+1, signature⟩ = throughCache ⟨k+1, signature⟩ := by
      simp [throughCache]
    simp only [cached, hcalls]
    rfl

theorem run_cached {ε α : Type} (h : n.infoFailure = none) (d : Dialogue ε α) (calls : Calls)
    (pool : Bytes) : ∃ (r : Outcome ε α) (calls' : Calls) (pool' : Bytes),
      d.run client ⟨plain n calls, pool⟩ = (r, ⟨plain n calls', pool'⟩) ∧
      d.run client ⟨cached n calls, pool⟩ = (r, ⟨cached n calls', pool'⟩) := by
  induction d generalizing calls pool with
  | done a => exact ⟨_, _, _, rfl, rfl⟩
  | fail e => exact ⟨_, _, _, rfl, rfl⟩
  | wait => exact ⟨_, _, _, rfl, rfl⟩
  | random k next ih => exact ih _ _ _
  | info next ih =>
    simp only [Dialogue.run, info_plain h, info_cached h]
    exact ih _ _ _
  | signature round next ih => exact ih _ { calls with signature := calls.signature+1 } _

theorem perform_cached (h : n.infoFailure = none) (calls : Calls) (event : LocalNode.Event)
    (hevent : ∀ e, event ≠ .failInfo (some e)) :
    ∃ (r : Option (Outcome Error Bytes × Bytes)) (n' : LocalNode E) (calls' : Calls),
      n'.infoFailure = none ∧ (plain n calls).perform event = (r, plain n' calls') ∧
      (cached n calls).perform event = (r, cached n' calls') := by
  cases event with
  | publishThrough round => exact ⟨none, n.publishThrough round, calls, h, rfl, rfl⟩
  | serveSignatureOf requested served =>
    exact ⟨none, n.serveSignatureOf requested served, calls, h, rfl, rfl⟩
  | failInfo e =>
    cases e with
    | none => exact ⟨none, n.failInfo none, calls, rfl, rfl, rfl⟩
    | some e => exact absurd rfl (hevent e)
  | stall on => exact ⟨none, n.stall on, calls, h, rfl, rfl⟩
  | encrypt o round payload pool =>
    obtain ⟨r, calls', pool', hplain, hcached⟩ :=
      run_cached h (Sealing.encryptWith E o round payload) calls pool
    refine ⟨some (r, pool'), n, calls', h, ?_, ?_⟩
    · simp only [perform, hplain]
    · simp only [perform, hcached]
  | decrypt o input pool =>
    obtain ⟨r, calls', pool', hplain, hcached⟩ :=
      run_cached h (Sealing.decryptWith E o input) calls pool
    refine ⟨some (r, pool'), n, calls', h, ?_, ?_⟩
    · simp only [perform, hplain]
    · simp only [perform, hcached]

theorem trace_cached (h : n.infoFailure = none) (calls : Calls) (events : List LocalNode.Event)
    (hevents : ∀ e, .failInfo (some e) ∉ events) :
    (cached n calls).trace events =
      ((plain n calls).trace events).map (fun r => (r.1, throughCache r.2)) := by
  induction events generalizing n calls with
  | nil => rfl
  | cons event events ih =>
    obtain ⟨r, n', calls', h', hplain, hcached⟩ := perform_cached h calls event
      (fun e he => hevents e (he ▸ List.mem_cons_self))
    simp only [trace, List.map_cons, hplain, hcached]
    rw [ih h' calls' (fun e he => hevents e (List.mem_cons_of_mem _ he))]
    rfl

/-- The cache cannot be told from the outside but by the count of descriptions. -/
theorem trace_ofServer (n : LocalNode E) (h : n.infoFailure = none)
    (events : List LocalNode.Event) (hevents : ∀ e, .failInfo (some e) ∉ events) :
    (ofServer (.ofLocal n) true).trace events =
      ((ofServer (.ofLocal n) false).trace events).map
        (fun r => (r.1, { r.2 with info := min 1 r.2.info })) :=
  trace_cached h {} events hevents

/-- Operations that fail before the first question, between the two and after the second. -/
theorem trace_ofServer_failures :
    let n : LocalNode exponents := {
      beacon := LocalBeacon.ofSecret exponents .unchainedOnG1 .keyOnG2Legacy (Scalar.ofNat 1)
      chain := ⟨[10], Bytes.bigEndian 96 1, 3, 0, .unchainedOnG1, []⟩
      latest := 6 }
    let e : Envelope := ⟨[⟨Timelock.tag, [['7'], ['0', 'a']], Bytes.bigEndian 96 1 ++ [1, 2]⟩],
      ⟨List.replicate 32 0, rfl⟩, ⟨List.replicate 16 0, rfl⟩, []⟩
    let input := e.bytes.toOption.getD []
    let events : List LocalNode.Event := [.encrypt {} 0 [] [], .decrypt {} input [],
      .encrypt {} 7 [] (List.replicate 32 1), .stall true,
      .decrypt { limit := some ⟨5⟩ } input []]
    ((ofServer (.ofLocal n) false).trace events).map (fun r => r.2) =
      [⟨0, 0⟩, ⟨1, 1⟩, ⟨2, 1⟩, ⟨2, 1⟩, ⟨3, 2⟩] ∧
    ((ofServer (.ofLocal n) true).trace events).map (fun r => r.2) =
      [⟨0, 0⟩, ⟨1, 1⟩, ⟨1, 1⟩, ⟨1, 1⟩, ⟨1, 2⟩] := by
  intro n e input events
  have hplain : ((ofServer (.ofLocal n) false).trace events).map (fun r => r.2) =
      [⟨0, 0⟩, ⟨1, 1⟩, ⟨2, 1⟩, ⟨2, 1⟩, ⟨3, 2⟩] := by
    decide +kernel
  refine ⟨hplain, ?_⟩
  have hcached := congrArg (List.map Prod.snd) (trace_ofServer n rfl events (by simp [events]))
  have hcalls := congrArg (List.map throughCache) hplain
  rw [List.map_map] at hcached hcalls
  exact hcached.trans hcalls

end Node
end BeaconSeal
