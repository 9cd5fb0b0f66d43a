import BeaconSeal.Proofs.Dialogue
/-! What is asked of a client in the run of a dialogue. Main statement: a client that keeps a log of
the questions answers as before, and what it notes is the questions of the run. -/
namespace BeaconSeal
variable {σ ε ε' α β : Type}

inductive Question where
  | info
  | signature (round : UInt64)
  deriving DecidableEq, Repr

def Question.isSignature : Question → Bool
  | info => false
  | signature _ => true

def Client.logged (c : Client σ) : Client (σ × List Question) where
  info s :=
    let r := c.info s.1
    (r.1, r.2, s.2 ++ [.info])
  signature round s :=
    let r := c.signature round s.1
    (r.1, r.2, s.2 ++ [.signature round])

namespace Dialogue
variable {c : Client σ} {s s' : World σ} {lift : ε' → ε}

def asked (c : Client σ) : Dialogue ε α → World σ → List Question
  | done _, _ => []
  | fail _, _ => []
  | wait, _ => []
  | random n next, s =>
    let r := drawFrom s.pool n
    (next r.1).asked c { s with pool := r.2 }
  | info next, s =>
    let r := c.info s.client
    .info :: (next r.1).asked c { s with client := r.2 }
  | signature round next, s =>
    let r := c.signature round s.client
    .signature round :: (next r.1).asked c { s with client := r.2 }

theorem run_logged (d : Dialogue ε α) (client : σ) (log : List Question) (pool : Bytes) :
    d.run c.logged ⟨(client, log), pool⟩ =
      let r := d.run c ⟨client, pool⟩
      (r.1, ⟨(r.2.client, log ++ d.asked c ⟨client, pool⟩), r.2.pool⟩) := by
  induction d generalizing client log pool with
  | done a => simp [run, asked]
  | fail e => simp [run, asked]
  | wait => simp [run, asked]
  | random n next ih => exact ih _ _ _ _
  | info next ih =>
    have h := ih (c.info client).1 (c.info client).2 (log ++ [.info]) pool
    rw [List.append_assoc] at h
    exact h
  | signature round next ih =>
    have h := ih (c.signature round client).1 (c.signature round client).2
      (log ++ [.signature round]) pool
    rw [List.append_assoc] at h
    exact h

theorem asked_bind (d : Dialogue ε α) (f : α → Dialogue ε β) (s : World σ) :
    (d >>= f).asked c s = d.asked c s ++ match d.run c s with
      | (.done a, t) => (f a).asked c t
      | _ => [] := by
  change (d.bind f).asked c s = _
  induction d generalizing s with
  | done a => rfl
  | fail e => rfl
  | wait => rfl
  | random n next ih => exact ih _ _
  | info next ih => exact congrArg (Question.info :: ·) (ih _ _)
  | signature round next ih => exact congrArg (Question.signature round :: ·) (ih _ _)

theorem asked_ofExcept (x : Except ε' α) : (ofExcept lift x).asked c s = [] := by
  cases x <;> rfl

theorem asked_draw (lift : String → ε) (n : Nat) : (draw lift n).asked c s = [] :=
  asked_ofExcept _

theorem asked_bind_of_done {d : Dialogue ε α} {a : α} (h : d.run c s = (.done a, s'))
    (f : α → Dialogue ε β) : (d >>= f).asked c s = d.asked c s ++ (f a).asked c s' := by
  rw [asked_bind, h]

theorem asked_bind_of_silent (d : Dialogue ε α) {f : α → Dialogue ε β}
    (h : ∀ a t, (f a).asked c t = []) : (d >>= f).asked c s = d.asked c s := by
  rw [asked_bind]
  cases d.run c s with
  | mk r t => cases r <;> simp [h]

theorem asked_mapError (d : Dialogue ε' α) (lift : ε' → ε) (s : World σ) :
    (d.mapError lift).asked c s = d.asked c s := by
  induction d generalizing s with
  | done a => rfl
  | fail e => rfl
  | wait => rfl
  | random n next ih => exact ih _ _
  | info next ih => exact congrArg (Question.info :: ·) (ih _ _)
  | signature round next ih => exact congrArg (Question.signature round :: ·) (ih _ _)

end Dialogue
end BeaconSeal
