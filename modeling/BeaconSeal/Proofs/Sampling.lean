import BeaconSeal.Bytes.Endian
import BeaconSeal.Ibe.Hashes
import Mathlib.Order.Bounds.Basic
/-! The scalar of a seed and a message. Main statement: it is the first of a sequence of numbers
that is below the order, unchanged, and there is none only when all of them are too large. -/
namespace BeaconSeal.Ibe

/-- The `i`-th number of the sequence: a digest without its highest bit, the first byte halved. -/
def candidate (digest : Bytes) (i : Nat) : Nat :=
  Bytes.ofBigEndian (halve (Sha256.digest (Bytes.littleEndian 2 i ++ digest)))

theorem length_trial (digest : Bytes) (i : Nat) : (trial digest i).length = 32 := by
  have hdigest := Sha256.length_digest (Bytes.littleEndian 2 i ++ digest)
  rw [trial]
  revert hdigest
  cases Sha256.digest (Bytes.littleEndian 2 i ++ digest) with
  | nil => exact id
  | cons x b => exact id

/-! Numbers in words. -/

theorem toNat_word {w : Bytes} (h : w.length = 8) :
    (UInt64.ofNat (Bytes.ofBigEndian w.reverse)).toNat = Bytes.ofLittleEndian w := by
  have hlt := Bytes.ofLittleEndian_lt w
  rw [h] at hlt
  rw [Bytes.ofBigEndian_eq, List.reverse_reverse, UInt64.toNat_ofNat']
  exact Nat.mod_eq_of_lt hlt

theorem ofWords_map {ws : List Bytes} (h : ∀ w ∈ ws, w.length = 8) :
    ofWords (ws.map (fun w => UInt64.ofNat (Bytes.ofBigEndian w.reverse))) =
      Bytes.ofLittleEndian ws.flatten := by
  induction ws with
  | nil => rfl
  | cons w ws ih =>
    obtain ⟨hw, hws⟩ := List.forall_mem_cons.1 h
    rw [List.flatten_cons, Bytes.ofLittleEndian_append, hw, ← ih hws, ← toNat_word hw]
    rfl

/-- In a string of whole words no byte is left over. -/
theorem ofWords_words {b : Bytes} (h : b.length % 8 = 0) :
    ofWords (words b) = Bytes.ofBigEndian b := by
  obtain ⟨hfull, hshort, hflatten⟩ := Cut.cut_sound (n := 8) (by decide) b.reverse
  have hrest : (Cut.cut 8 b.reverse).2 = [] := by
    have hlength := congrArg List.length hflatten
    rw [List.length_append, List.length_flatten, List.map_eq_replicate_iff.2 hfull,
      List.sum_replicate_nat, List.length_reverse] at hlength
    exact List.length_eq_zero_iff.1 (by omega)
  rw [hrest, List.append_nil] at hflatten
  rw [words, ofWords_map hfull, hflatten, Bytes.ofBigEndian_eq]

/-- What is read is the number itself, and never another one of the same residue. -/
theorem scalar?_eq_some_iff {b : Bytes} (h : b.length % 8 = 0) {r : Scalar} :
    scalar? b = some r ↔ r.val = Bytes.ofBigEndian b := by
  rw [scalar?, ← ofWords_words h]
  constructor
  · intro hr
    obtain ⟨_, hr⟩ := Option.dite_none_right_eq_some.1 hr
    exact (congrArg Fin.val (Option.some.inj hr)).symm
  · intro hr
    rw [dif_pos (hr ▸ r.isLt)]
    exact congrArg some (Fin.ext hr.symm)

theorem scalar?_eq_none_iff {b : Bytes} (h : b.length % 8 = 0) :
    scalar? b = none ↔ scalarOrder ≤ Bytes.ofBigEndian b := by
  rw [scalar?, ← ofWords_words h, dite_eq_right_iff, ← Nat.not_lt]
  exact forall_congr' fun hlt => iff_false_intro (Option.some_ne_none _)

/-! The search. -/

variable {digest : Bytes} {i : Nat}

theorem firstScalar_of_lt {n : Nat} (h : candidate digest i < scalarOrder) :
    firstScalar digest (n+1) i = some ⟨candidate digest i, h⟩ := by
  have hread : scalar? (trial digest i) = some ⟨candidate digest i, h⟩ :=
    (scalar?_eq_some_iff (by rw [length_trial])).2 rfl
  rw [firstScalar, hread]

/-- A number that is too large is passed over. -/
theorem firstScalar_of_le {n : Nat} (h : scalarOrder ≤ candidate digest i) :
    firstScalar digest (n+1) i = firstScalar digest n (i+1) := by
  have hread : scalar? (trial digest i) = none :=
    (scalar?_eq_none_iff (by rw [length_trial])).2 h
  rw [firstScalar, hread]

theorem firstScalar_eq_none_iff {n : Nat} : firstScalar digest n i = none ↔
    ∀ k, i ≤ k → k < i+n → scalarOrder ≤ candidate digest k := by
  induction n generalizing i with
  | zero => exact iff_of_true rfl fun k hle hlt => absurd hlt (Nat.not_lt.2 hle)
  | succ n ih =>
    rcases Nat.lt_or_ge (candidate digest i) scalarOrder with hlt | hle
    · rw [firstScalar_of_lt hlt]
      refine iff_of_false (Option.some_ne_none _) fun h => ?_
      exact absurd (h i (Nat.le_refl i) (by omega)) (Nat.not_le.2 hlt)
    · rw [firstScalar_of_le hle, ih]
      constructor
      · intro h k hik hk
        rcases Nat.eq_or_lt_of_le hik with rfl | hik
        · exact hle
        · exact h k hik (by omega)
      · intro h k hik hk
        exact h k (by omega) (by omega)

/-- The number that is taken is below the order, and all those before it are not. -/
theorem firstScalar_eq_some_iff {n : Nat} {r : Scalar} : firstScalar digest n i = some r ↔
    ∃ k, IsLeast {k | i ≤ k ∧ k < i+n ∧ candidate digest k < scalarOrder} k ∧
      r.val = candidate digest k := by
  induction n generalizing i with
  | zero =>
    refine iff_of_false (Option.some_ne_none r).symm fun h => ?_
    obtain ⟨k, ⟨⟨hik, hk, _⟩, _⟩, _⟩ := h
    exact absurd hk (Nat.not_lt.2 hik)
  | succ n ih =>
    rcases Nat.lt_or_ge (candidate digest i) scalarOrder with hlt | hle
    · have hleast : IsLeast {k | i ≤ k ∧ k < i+(n+1) ∧ candidate digest k < scalarOrder} i :=
        ⟨⟨Nat.le_refl i, by omega, hlt⟩, fun k hk => hk.1⟩
      rw [firstScalar_of_lt hlt]
      constructor
      · intro h
        exact ⟨i, hleast, (congrArg Fin.val (Option.some.inj h)).symm⟩
      · intro h
        obtain ⟨k, hk, hval⟩ := h
        rw [hk.unique hleast] at hval
        exact congrArg some (Fin.ext hval.symm)
    · have hset : {k | i+1 ≤ k ∧ k < i+1+n ∧ candidate digest k < scalarOrder} =
          {k | i ≤ k ∧ k < i+(n+1) ∧ candidate digest k < scalarOrder} := by
        ext k
        constructor
        · rintro ⟨hik, hk, hlt⟩
          exact ⟨by omega, by omega, hlt⟩
        · rintro ⟨hik, hk, hlt⟩
          have hne : k ≠ i := fun heq => absurd hlt (Nat.not_lt.2 (heq ▸ hle))
          exact ⟨by omega, by omega, hlt⟩
      rw [firstScalar_of_le hle, ih, hset]

/-- Under the digest of the seed and the message the numbers are tried in turn, from the first to
the 65534th. The scalar is the first of them below the order, and without one the search fails. -/
theorem seedScalar_least (seed message : Bytes) :
    let digest := Sha256.digest (Text.utf8 "IBE-H3".toList ++ seed ++ message)
    (∀ r : Scalar, seedScalar seed message = .ok r ↔
      ∃ i, IsLeast {k | 1 ≤ k ∧ k ≤ 65534 ∧ candidate digest k < scalarOrder} i ∧
        r.val = candidate digest i) ∧
    ∀ fault, seedScalar seed message = .error fault ↔ fault = .scalarDerivation ∧
      ∀ k, 1 ≤ k → k ≤ 65534 → scalarOrder ≤ candidate digest k := by
  intro digest
  have hdigest : tagged "IBE-H3" (seed ++ message) = digest :=
    congrArg Sha256.digest (List.append_assoc ..).symm
  have hbound (k : Nat) : k < 1+65534 ↔ k ≤ 65534 := by omega
  rw [seedScalar, hdigest]
  constructor
  · intro r
    have hfirst : firstScalar digest 65534 1 = some r ↔ _ := firstScalar_eq_some_iff
    simp only [hbound] at hfirst
    rw [← hfirst]
    cases firstScalar digest 65534 1 with
    | none => simp
    | some r' => simp
  · intro fault
    have hfirst : firstScalar digest 65534 1 = none ↔ _ := firstScalar_eq_none_iff
    simp only [hbound] at hfirst
    rw [← hfirst]
    cases firstScalar digest 65534 1 with
    | none => simp [eq_comm]
    | some r' => simp

end BeaconSeal.Ibe
