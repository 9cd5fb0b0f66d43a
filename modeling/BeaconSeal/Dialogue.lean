import BeaconSeal.Chain.Info
/-! Computations that ask questions: for random bytes, for the chain's description, for the
signature of a round. The questions are part of the value, so that what a computation asks,
and in which order, can be read off without running it. -/
namespace BeaconSeal

inductive Reply where
  | answered (r : Except ClientError Bytes)
  | pending

inductive Dialogue (ε α : Type) where
  | done (a : α)
  | fail (e : ε)
  /-- Waits for an answer that never comes. -/
  | wait
  | random (n : Nat) (next : Except String (SizedBytes n) → Dialogue ε α)
  | info (next : Except ClientError ChainInfo → Dialogue ε α)
  | signature (round : UInt64) (next : Reply → Dialogue ε α)

namespace Dialogue
variable {ε ε' α β : Type}

def bind : Dialogue ε α → (α → Dialogue ε β) → Dialogue ε β
  | done a, f => f a
  | fail e, _ => fail e
  | wait, _ => wait
  | random n next, f => random n (fun r => (next r).bind f)
  | info next, f => info (fun r => (next r).bind f)
  | signature round next, f => signature round (fun r => (next r).bind f)

instance : Monad (Dialogue ε) where
  pure := done
  bind := bind

def mapError (lift : ε → ε') : Dialogue ε α → Dialogue ε' α
  | done a => done a
  | fail e => fail (lift e)
  | wait => wait
  | random n next => random n (fun r => (next r).mapError lift)
  | info next => info (fun r => (next r).mapError lift)
  | signature round next => signature round (fun r => (next r).mapError lift)

def ofExcept (lift : ε' → ε) : Except ε' α → Dialogue ε α
  | .ok a => done a
  | .error e => fail (lift e)

def draw (lift : String → ε) (n : Nat) : Dialogue ε (SizedBytes n) := random n (ofExcept lift)

@[simp] theorem bind_done (a : α) (f : α → Dialogue ε β) : (done a).bind f = f a := rfl

theorem bind_assoc {γ : Type} (t : Dialogue ε α) (f : α → Dialogue ε β) (g : β → Dialogue ε γ) :
    (t.bind f).bind g = t.bind (fun a => (f a).bind g) := by
  induction t with
  | done a => rfl
  | fail e => rfl
  | wait => rfl
  | random n next ih => simp only [bind]; congr; funext r; exact ih r
  | info next ih => simp only [bind]; congr; funext r; exact ih r
  | signature round next ih => simp only [bind]; congr; funext r; exact ih r

end Dialogue
end BeaconSeal
