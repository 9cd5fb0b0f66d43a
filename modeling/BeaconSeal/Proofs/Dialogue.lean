import BeaconSeal.Client.Basic
/-! Runs of dialogues. The run of two dialogues in a row is the run of the first and then, from
the world that it leaves, the run of the second. -/
namespace BeaconSeal

def Outcome.isDone {ε α : Type} : Outcome ε α → Bool
  | done _ => true
  | failed _ => false
  | waiting => false

theorem Outcome.exists_of_isDone {ε α β : Type} {r : Outcome ε α × β} (h : r.1.isDone) :
    ∃ a s, r = (.done a, s) := by
  obtain ⟨⟨a⟩ | _ | _, s⟩ := r
  · exact ⟨a, s, rfl⟩
  · cases h
  · cases h

namespace Dialogue
variable {σ ε ε' α β : Type} {c : Client σ} {s s' : World σ}

theorem bind_bind {γ : Type} (d : Dialogue ε α) (f : α → Dialogue ε β) (g : β → Dialogue ε γ) :
    d >>= f >>= g = d >>= fun a => f a >>= g :=
  bind_assoc d f g

theorem ofExcept_bind (x : Except ε α) (f : α → Except ε β) :
    (ofExcept id (x >>= f) : Dialogue ε β) = ofExcept id x >>= fun a => ofExcept id (f a) := by
  cases x <;> rfl

theorem ofExcept_mapError (lift : ε' → ε) (x : Except ε' α) :
    ofExcept id (x.mapError lift) = ofExcept lift x := by
  cases x <;> rfl

theorem run_bind (d : Dialogue ε α) (f : α → Dialogue ε β) (s : World σ) :
    (d >>= f).run c s = match d.run c s with
      | (.done a, s') => (f a).run c s'
      | (.failed e, s') => (.failed e, s')
      | (.waiting, s') => (.waiting, s') := by
  change (d.bind f).run c s = _
  induction d generalizing s with
  | done a => rfl
  | fail e => rfl
  | wait => rfl
  | random n next ih => exact ih _ _
  | info next ih => exact ih _ _
  | signature round next ih => exact ih _ _

theorem run_bind_eq_done_iff {d : Dialogue ε α} {f : α → Dialogue ε β} {b : β} :
    (d >>= f).run c s = (.done b, s') ↔
      ∃ a t, d.run c s = (.done a, t) ∧ (f a).run c t = (.done b, s') := by
  rw [run_bind]
  constructor
  · intro h
    split at h
    next a t ht => exact ⟨a, t, ht, h⟩
    · cases h
    · cases h
  · rintro ⟨a, t, ht, h⟩
    rw [ht]
    exact h

theorem run_bind_eq_failed_iff {d : Dialogue ε α} {f : α → Dialogue ε β} {e : ε} :
    (d >>= f).run c s = (.failed e, s') ↔ d.run c s = (.failed e, s') ∨
      ∃ a t, d.run c s = (.done a, t) ∧ (f a).run c t = (.failed e, s') := by
  rw [run_bind]
  constructor
  · intro h
    split at h
    next a t ht => exact .inr ⟨a, t, ht, h⟩
    next e' t ht =>
      cases h
      exact .inl ht
    · cases h
  · rintro (h | ⟨a, t, ht, h⟩)
    · rw [h]
    · rw [ht]
      exact h

theorem run_bind_of_done {d : Dialogue ε α} {a : α} (h : d.run c s = (.done a, s'))
    (f : α → Dialogue ε β) : (d >>= f).run c s = (f a).run c s' := by
  rw [run_bind, h]

theorem run_mapError_of_done {d : Dialogue ε α} {a : α} (h : d.run c s = (.done a, s'))
    (lift : ε → ε') : (d.mapError lift).run c s = (.done a, s') := by
  induction d generalizing s with
  | done b =>
    cases h
    rfl
  | fail e => cases h
  | wait => cases h
  | random n next ih => exact ih _ h
  | info next ih => exact ih _ h
  | signature round next ih => exact ih _ h

theorem done_of_run_mapError {d : Dialogue ε α} {lift : ε → ε'} {a : α}
    (h : (d.mapError lift).run c s = (.done a, s')) : d.run c s = (.done a, s') := by
  induction d generalizing s with
  | done b =>
    cases h
    rfl
  | fail e => cases h
  | wait => cases h
  | random n next ih => exact ih _ h
  | info next ih => exact ih _ h
  | signature round next ih => exact ih _ h

theorem failed_of_run_mapError {d : Dialogue ε' α} {lift : ε' → ε} {e : ε}
    (h : (d.mapError lift).run c s = (.failed e, s')) : ∃ e', lift e' = e := by
  induction d generalizing s with
  | done b => cases h
  | fail e' =>
    cases h
    exact ⟨e', rfl⟩
  | wait => cases h
  | random n next ih => exact ih _ h
  | info next ih => exact ih _ h
  | signature round next ih => exact ih _ h

theorem run_ofExcept_bind_ok {lift : ε' → ε} {x : Except ε' α} {a : α} (h : x = .ok a)
    (f : α → Dialogue ε β) : (ofExcept lift x >>= f).run c s = (f a).run c s := by
  subst h
  rfl

theorem run_ofExcept_eq_done_iff {lift : ε' → ε} {x : Except ε' α} {a : α} :
    (ofExcept lift x).run c s = (.done a, s') ↔ x = .ok a ∧ s = s' := by
  cases x with
  | error e =>
    change (Outcome.failed (lift e), s) = (Outcome.done a, s') ↔ _
    simp
  | ok b =>
    change (Outcome.done b, s) = (Outcome.done a, s') ↔ _
    simp

theorem run_ofExcept_eq_failed_iff {lift : ε' → ε} {x : Except ε' α} {e : ε} :
    (ofExcept lift x).run c s = (.failed e, s') ↔ (∃ e', x = .error e' ∧ lift e' = e) ∧ s = s' := by
  cases x with
  | error e' =>
    change (Outcome.failed (lift e'), s) = (Outcome.failed e, s') ↔ _
    simp
  | ok a =>
    change (Outcome.done a, s) = (Outcome.failed e, s') ↔ _
    simp

/-- A draw takes its bytes off the front of the pool. -/
theorem run_draw (lift : String → ε) {n : Nat} (b : SizedBytes n) (pool : Bytes) (client : σ) :
    (draw lift n).run c ⟨client, b.1 ++ pool⟩ = (.done b, ⟨client, pool⟩) := by
  have hlen : n ≤ (b.1 ++ pool).length := by
    rw [List.length_append, b.2]
    omega
  have hdraw : drawFrom (b.1 ++ pool) n = (.ok b, pool) := by
    rw [drawFrom, dif_pos hlen, List.drop_left' b.2]
    simp only [List.take_left' b.2]
  change ((ofExcept lift (drawFrom (b.1 ++ pool) n).1).run c _ : _ × _) = _
  rw [hdraw]
  rfl

/-- A draw from too small a pool takes nothing and fails. -/
theorem run_draw_of_lt {lift : String → ε} {n : Nat} (h : s.pool.length < n) :
    (draw lift n).run c s = (.failed (lift "random pool exhausted"), s) := by
  have hdraw : drawFrom s.pool n = (.error "random pool exhausted", s.pool) :=
    dif_neg (by omega)
  change ((ofExcept lift (drawFrom s.pool n).1).run c _ : _ × _) = _
  rw [hdraw]
  rfl

theorem failed_of_run_draw {lift : String → ε} {n : Nat} {e : ε}
    (h : (draw lift n).run c s = (.failed e, s')) : ∃ reason, lift reason = e := by
  obtain ⟨⟨reason, _, heq⟩, _⟩ := run_ofExcept_eq_failed_iff.1 h
  exact ⟨reason, heq⟩

/-- What is drawn stood at the front of the pool. -/
theorem eq_of_run_draw {lift : String → ε} {n : Nat} {b : SizedBytes n}
    (h : (draw lift n).run c s = (.done b, s')) : s = ⟨s'.client, b.1 ++ s'.pool⟩ := by
  by_cases hpool : n ≤ s.pool.length
  · have hdraw : drawFrom s.pool n =
        (.ok ⟨s.pool.take n, by simp [Nat.min_eq_left hpool]⟩, s.pool.drop n) := dif_pos hpool
    change (ofExcept lift (drawFrom s.pool n).1).run c _ = _ at h
    rw [hdraw] at h
    obtain ⟨hb, rfl⟩ := run_ofExcept_eq_done_iff.1 h
    cases hb
    rw [List.take_append_drop]
  · rw [run_draw_of_lt (Nat.lt_of_not_le hpool)] at h
    cases h

def FailsWith (P : ε → Prop) : Dialogue ε α → Prop
  | done _ => True
  | fail e => P e
  | wait => True
  | random _ next => ∀ r, (next r).FailsWith P
  | info next => ∀ r, (next r).FailsWith P
  | signature _ next => ∀ r, (next r).FailsWith P

section
variable {P : ε → Prop}

theorem FailsWith.bind {d : Dialogue ε α} {f : α → Dialogue ε β} (hd : d.FailsWith P)
    (hf : ∀ a, (f a).FailsWith P) : (d >>= f).FailsWith P := by
  change (d.bind f).FailsWith P
  induction d with
  | done a => exact hf a
  | fail e => exact hd
  | wait => exact hd
  | random n next ih => exact fun r => ih r (hd r)
  | info next ih => exact fun r => ih r (hd r)
  | signature round next ih => exact fun r => ih r (hd r)

theorem failsWith_ofExcept {lift : ε' → ε} {x : Except ε' α}
    (h : ∀ e, x = .error e → P (lift e)) : (ofExcept lift x).FailsWith P := by
  cases x with
  | error e => exact h e rfl
  | ok a => exact trivial

theorem FailsWith.of_run {d : Dialogue ε α} {e : ε} (hd : d.FailsWith P)
    (h : d.run c s = (.failed e, s')) : P e := by
  induction d generalizing s with
  | done a => cases h
  | fail e' =>
    cases h
    exact hd
  | wait => cases h
  | random n next ih => exact ih _ (hd _) h
  | info next ih => exact ih _ (hd _) h
  | signature round next ih => exact ih _ (hd _) h

end

end Dialogue
end BeaconSeal
