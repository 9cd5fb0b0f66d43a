import BeaconSeal.Dialogue
/-! Clients that answer for a chain, and the run of a dialogue against one of them and a
supply of random bytes. -/
namespace BeaconSeal

structure Client (σ : Type) where
  info : σ → Except ClientError ChainInfo × σ
  signature : UInt64 → σ → Reply × σ

structure World (σ : Type) where
  client : σ
  pool : Bytes

inductive Outcome (ε α : Type) where
  | done (a : α)
  | failed (e : ε)
  | waiting

def drawFrom (pool : Bytes) (n : Nat) : Except String (SizedBytes n) × Bytes :=
  if h : n ≤ pool.length then (.ok ⟨pool.take n, by simp [Nat.min_eq_left h]⟩, pool.drop n)
  else (.error "random pool exhausted", pool)

variable {σ ε α : Type}

def Dialogue.run (c : Client σ) : Dialogue ε α → World σ → Outcome ε α × World σ
  | done a, s => (.done a, s)
  | fail e, s => (.failed e, s)
  | wait, s => (.waiting, s)
  | random n next, s =>
    let r := drawFrom s.pool n
    (next r.1).run c { s with pool := r.2 }
  | info next, s =>
    let r := c.info s.client
    (next r.1).run c { s with client := r.2 }
  | signature round next, s =>
    let r := c.signature round s.client
    (next r.1).run c { s with client := r.2 }

structure Calls where
  info : Nat := 0
  signature : Nat := 0
  deriving DecidableEq, Repr

def Calls.total (n : Calls) : Nat := n.info + n.signature

namespace Client

def offline : Client Unit where
  info _ := (.error ⟨"no client", .permanent⟩, ())
  signature _ _ := (.answered (.error ⟨"no client", .permanent⟩), ())

def counted (c : Client σ) : Client (σ × Calls) where
  info s :=
    let r := c.info s.1
    (r.1, r.2, { s.2 with info := s.2.info+1 })
  signature round s :=
    let r := c.signature round s.1
    (r.1, r.2, { s.2 with signature := s.2.signature+1 })

end Client
end BeaconSeal
