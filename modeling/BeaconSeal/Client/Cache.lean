import BeaconSeal.Client.Basic
/-! A client in front of another one that asks for the chain's description once. Many callers
may ask at a time; one of them fetches and the others wait, and when a fetch fails its
caller takes the failure and another one tries. -/
namespace BeaconSeal
variable {σ : Type}

structure Cached (σ : Type) where
  inner : σ
  cell : Option ChainInfo := none

namespace Client

def cached (c : Client σ) : Client (Cached σ) where
  info s :=
    match s.cell with
    | some info => (.ok info, s)
    | none =>
      match c.info s.inner with
      | (.ok info, inner) => (.ok info, ⟨inner, some info⟩)
      | (.error e, inner) => (.error e, ⟨inner, none⟩)
  signature round s :=
    let r := c.signature round s.inner
    (r.1, { s with inner := r.2 })

def infoTimes (c : Client σ) : Nat → σ → List (Except ClientError ChainInfo) × σ
  | 0, s => ([], s)
  | n+1, s =>
    let r := c.info s
    let rs := c.infoTimes n r.2
    (r.1 :: rs.1, rs.2)

end Client

inductive Stage where
  | absent
  /-- It has yet to look into the cell. -/
  | looking
  /-- It found the cell empty, and waits for the right to fill it. -/
  | waiting
  /-- It has the right, and has asked the inner client. -/
  | fetching
  | answered (r : Except ClientError ChainInfo)
  /-- It has given up. -/
  | gone

def Stage.answer? : Stage → Option (Except ClientError ChainInfo)
  | answered r => some r
  | _ => none

/-- Callers that share one cell, at any moment between their first question and their answers. -/
structure Crowd where
  cell : Option ChainInfo := none
  /-- There is one right to fill the cell, and a caller has it. -/
  taken : Bool := false
  stage : Nat → Stage := fun _ => .absent
  /-- Fetches that ended, with their callers, the latest first. -/
  fetched : List (Nat × Except ClientError ChainInfo) := []

namespace Crowd

inductive Event where
  /-- A caller asks. -/
  | arrive (caller : Nat)
  /-- A caller looks into the cell: it is answered at once, or has to wait. -/
  | look (caller : Nat)
  /-- A waiting caller finds the cell empty and the right to fill it free, and fetches. -/
  | start (caller : Nat)
  /-- The fetch of a caller ends. -/
  | finish (caller : Nat) (r : Except ClientError ChainInfo)
  /-- A waiting caller finds the cell full. -/
  | leave (caller : Nat)
  /-- A caller gives up, and its fetch with it. -/
  | abandon (caller : Nat)

def move (s : Crowd) (i : Nat) (g : Stage) : Crowd :=
  { s with stage := fun j => if j = i then g else s.stage j }

/-- An event that the moment does not allow changes nothing. A failed fetch leaves the cell. -/
def step (s : Crowd) : Event → Crowd
  | .arrive i =>
    match s.stage i with
    | .absent => s.move i .looking
    | _ => s
  | .look i =>
    match s.stage i, s.cell with
    | .looking, some info => s.move i (.answered (.ok info))
    | .looking, none => s.move i .waiting
    | _, _ => s
  | .start i =>
    match s.stage i, s.cell, s.taken with
    | .waiting, none, false => { s.move i .fetching with taken := true }
    | _, _, _ => s
  | .finish i r =>
    match s.stage i with
    | .fetching => { s.move i (.answered r) with
        cell := r.toOption.or s.cell
        taken := false
        fetched := (i, r) :: s.fetched }
    | _ => s
  | .leave i =>
    match s.stage i, s.cell with
    | .waiting, some info => s.move i (.answered (.ok info))
    | _, _ => s
  | .abandon i =>
    match s.stage i with
    | .looking => s.move i .gone
    | .waiting => s.move i .gone
    | .fetching => { s.move i .gone with taken := false }
    | _ => s

def run (s : Crowd) (events : List Event) : Crowd := events.foldl step s

def serve (c : Client σ) : List Nat → Crowd → σ → Crowd × σ
  | [], s, inner => (s, inner)
  | i :: callers, s, inner =>
    match s.cell with
    | some _ => serve c callers (s.step (.look i)) inner
    | none =>
      let r := c.info inner
      serve c callers (s.run [.look i, .start i, .finish i r.1]) r.2

def ask (c : Client σ) (n : Nat) (s : Cached σ) : List (Except ClientError ChainInfo) × Cached σ :=
  let callers := List.range n
  let start : Crowd := { cell := s.cell }
  let r := serve c callers (start.run (callers.map .arrive)) s.inner
  (callers.filterMap (fun i => (r.1.stage i).answer?), ⟨r.2, r.1.cell⟩)

end Crowd
end BeaconSeal
