import BeaconSeal.Client.Cache
import BeaconSeal.Proofs.Questions
/-! The cache in front of a client. Main statement: in whatever order callers ask, look, wait,
fetch and give up, one fetch is under way at a time and one succeeds at most; callers are
answered with that one, or with the failure of a fetch of their own; and signatures are asked
for as if there were no cache. -/
namespace BeaconSeal

namespace Client
variable {σ : Type} {c : Client σ} {client inner : σ} {r : Except ClientError ChainInfo}

theorem cached_info_of_none (h : c.info client = (r, inner)) :
    c.cached.info ⟨client, none⟩ = (r, ⟨inner, r.toOption⟩) := by
  simp only [cached, h]
  cases r <;> rfl

theorem logged_info (log : List Question) (h : c.info client = (r, inner)) :
    c.logged.info (client, log) = (r, inner, log ++ [.info]) := by
  simp only [logged, h]

end Client

namespace Crowd
variable {s : Crowd} {i j : Nat} {info : ChainInfo} {e : ClientError}

def successes (s : Crowd) : List ChainInfo := s.fetched.filterMap (fun f => f.2.toOption)

theorem stage_move (s : Crowd) (i j : Nat) (g : Stage) :
    (s.move i g).stage j = if j = i then g else s.stage j := rfl

def Quiet (s : Crowd) : Stage → Prop
  | .absent => False
  | .fetching => False
  | .answered (.ok info) => s.cell = some info
  | .answered (.error _) => False
  | _ => True

/-- All that an event can do. -/
theorem step_cases (s : Crowd) (event : Event) :
    s.step event = s ∨
    (∃ i g, s.stage i ≠ .fetching ∧ s.Quiet g ∧ s.step event = s.move i g) ∨
    (∃ i, s.cell = none ∧ s.taken = false ∧
      s.step event = { s.move i .fetching with taken := true }) ∨
    (∃ i, s.stage i = .fetching ∧ s.step event = { s.move i .gone with taken := false }) ∨
    ∃ i r, s.stage i = .fetching ∧ s.step event = { s.move i (.answered r) with
      cell := r.toOption.or s.cell
      taken := false
      fetched := (i, r) :: s.fetched } := by
  cases event with
  | arrive i =>
    simp only [step]
    split
    next h => exact .inr (.inl ⟨i, .looking, by simp [h], trivial, rfl⟩)
    · exact .inl rfl
  | look i =>
    simp only [step]
    split
    next h hcell => exact .inr (.inl ⟨i, .answered (.ok _), by simp [h], hcell, rfl⟩)
    next h hcell => exact .inr (.inl ⟨i, .waiting, by simp [h], trivial, rfl⟩)
    · exact .inl rfl
  | start i =>
    simp only [step]
    split
    next h hcell htaken => exact .inr (.inr (.inl ⟨i, hcell, htaken, rfl⟩))
    · exact .inl rfl
  | finish i r =>
    simp only [step]
    split
    next h => exact .inr (.inr (.inr (.inr ⟨i, r, h, rfl⟩)))
    · exact .inl rfl
  | leave i =>
    simp only [step]
    split
    next h hcell => exact .inr (.inl ⟨i, .answered (.ok _), by simp [h], hcell, rfl⟩)
    · exact .inl rfl
  | abandon i =>
    simp only [step]
    split
    next h => exact .inr (.inl ⟨i, .gone, by simp [h], trivial, rfl⟩)
    next h => exact .inr (.inl ⟨i, .gone, by simp [h], trivial, rfl⟩)
    next h => exact .inr (.inr (.inr (.inl ⟨i, h, rfl⟩)))
    · exact .inl rfl

/-- The one who fetches has the right, and nobody has it once the cell is full. -/
structure Sound (s : Crowd) : Prop where
  taken_iff : s.taken = true ↔ ∃ i, s.stage i = .fetching
  fetching_unique : ∀ i j, s.stage i = .fetching → s.stage j = .fetching → i = j
  cell_of_taken : s.taken = true → s.cell = none
  successes_eq : s.successes = s.cell.toList
  cell_of_answered : ∀ i info, s.stage i = .answered (.ok info) → s.cell = some info
  mem_fetched : ∀ i e, s.stage i = .answered (.error e) → (i, .error e) ∈ s.fetched

theorem sound_empty : Sound {} where
  taken_iff := by simp
  fetching_unique _ _ h := by cases h
  cell_of_taken h := by cases h
  successes_eq := rfl
  cell_of_answered _ _ h := by cases h
  mem_fetched _ _ h := by cases h

theorem stage_of_move {g g' : Stage} (h : (s.move i g).stage j = g') (hne : g ≠ g') :
    j ≠ i ∧ s.stage j = g' := by
  rw [stage_move] at h
  split at h
  · exact absurd h hne
  next hj => exact ⟨hj, h⟩

theorem Sound.move (h : Sound s) (hi : s.stage i ≠ .fetching) {g : Stage} (hg : s.Quiet g) :
    Sound (s.move i g) := by
  have hfetching : g ≠ .fetching := by
    intro hg'
    subst hg'
    exact hg
  exact {
    taken_iff := by
      refine h.taken_iff.trans (exists_congr fun j => ?_)
      by_cases hji : j = i
      · rw [stage_move, if_pos hji, hji]
        exact iff_of_false hi hfetching
      · rw [stage_move, if_neg hji]
    fetching_unique := fun j k hj hk =>
      h.fetching_unique j k (stage_of_move hj hfetching).2 (stage_of_move hk hfetching).2
    cell_of_taken := h.cell_of_taken
    successes_eq := h.successes_eq
    cell_of_answered := by
      intro j info hj
      rw [stage_move] at hj
      split at hj
      · subst hj
        exact hg
      · exact h.cell_of_answered j info hj
    mem_fetched := by
      intro j e hj
      refine h.mem_fetched j e (stage_of_move hj ?_).2
      intro hg'
      subst hg'
      exact hg }

theorem Sound.start (h : Sound s) (hcell : s.cell = none) (htaken : s.taken = false) :
    Sound { s.move i .fetching with taken := true } := by
  have honly {j : Nat} (hj : (s.move i .fetching).stage j = .fetching) : j = i := by
    rw [stage_move] at hj
    split at hj
    next hji => exact hji
    · rw [h.taken_iff.2 ⟨j, hj⟩] at htaken
      cases htaken
  exact {
    taken_iff := iff_of_true rfl ⟨i, if_pos rfl⟩
    fetching_unique := fun j k hj hk => (honly hj).trans (honly hk).symm
    cell_of_taken := fun _ => hcell
    successes_eq := h.successes_eq
    cell_of_answered := fun j info hj =>
      h.cell_of_answered j info (stage_of_move hj (by simp)).2
    mem_fetched := fun j e hj => h.mem_fetched j e (stage_of_move hj (by simp)).2 }

/-- When the one who fetches goes on, nobody fetches. -/
theorem Sound.stage_ne_fetching (h : Sound s) (hi : s.stage i = .fetching) {g : Stage}
    (hg : g ≠ .fetching) (j : Nat) : (s.move i g).stage j ≠ .fetching := by
  intro hj
  obtain ⟨hne, hj⟩ := stage_of_move hj hg
  exact hne (h.fetching_unique j i hj hi)

theorem Sound.giveUp (h : Sound s) (hi : s.stage i = .fetching) :
    Sound { s.move i .gone with taken := false } := by
  have hnone := h.stage_ne_fetching hi (g := .gone) (by simp)
  exact {
    taken_iff := iff_of_false Bool.false_ne_true (not_exists.2 hnone)
    fetching_unique := fun j _ hj => absurd hj (hnone j)
    cell_of_taken := fun htaken => by cases htaken
    successes_eq := h.successes_eq
    cell_of_answered := fun j info hj =>
      h.cell_of_answered j info (stage_of_move hj (by simp)).2
    mem_fetched := fun j e hj => h.mem_fetched j e (stage_of_move hj (by simp)).2 }

theorem Sound.finish (h : Sound s) (hi : s.stage i = .fetching)
    (r : Except ClientError ChainInfo) : Sound { s.move i (.answered r) with
      cell := r.toOption.or s.cell
      taken := false
      fetched := (i, r) :: s.fetched } := by
  have hcell : s.cell = none := h.cell_of_taken (h.taken_iff.2 ⟨i, hi⟩)
  have hnone := h.stage_ne_fetching hi (g := .answered r) (by simp)
  have hsuccesses := h.successes_eq
  rw [hcell] at hsuccesses
  exact {
    taken_iff := iff_of_false Bool.false_ne_true (not_exists.2 hnone)
    fetching_unique := fun j _ hj => absurd hj (hnone j)
    cell_of_taken := fun htaken => by cases htaken
    successes_eq := by
      rw [hcell, Option.or_none]
      change (((i, r) :: s.fetched).filterMap fun f => f.2.toOption) = _
      cases r with
      | error e => exact hsuccesses
      | ok info => exact congrArg (info :: ·) hsuccesses
    cell_of_answered := by
      intro j info hj
      by_cases hne : j = i
      · rw [stage_move, if_pos hne] at hj
        cases hj
        rfl
      · rw [stage_move, if_neg hne] at hj
        cases hcell.symm.trans (h.cell_of_answered j info hj)
    mem_fetched := by
      intro j e hj
      by_cases hne : j = i
      · rw [stage_move, if_pos hne] at hj
        cases hj
        rw [hne]
        exact List.mem_cons_self
      · rw [stage_move, if_neg hne] at hj
        exact List.mem_cons_of_mem _ (h.mem_fetched j e hj) }

theorem Sound.step (h : Sound s) (event : Event) : Sound (s.step event) := by
  rcases step_cases s event with heq | ⟨i, g, hi, hg, heq⟩ | ⟨i, hcell, htaken, heq⟩ |
    ⟨i, hi, heq⟩ | ⟨i, r, hi, heq⟩
  · rw [heq]
    exact h
  · rw [heq]
    exact h.move hi hg
  · rw [heq]
    exact h.start hcell htaken
  · rw [heq]
    exact h.giveUp hi
  · rw [heq]
    exact h.finish hi r

theorem Sound.run (h : Sound s) (events : List Event) : Sound (s.run events) := by
  induction events generalizing s with
  | nil => exact h
  | cons event events ih => exact ih (h.step event)

/-- Once the cell is full it stays so, and nobody fetches any more. -/
theorem Sound.not_fetching_of_cell (h : Sound s) (hcell : s.cell = some info) (i : Nat) :
    s.stage i ≠ .fetching := by
  intro hi
  rw [h.cell_of_taken (h.taken_iff.2 ⟨i, hi⟩)] at hcell
  cases hcell

theorem Sound.step_of_cell (h : Sound s) (hcell : s.cell = some info) (event : Event) :
    (s.step event).cell = some info ∧ (s.step event).fetched = s.fetched := by
  rcases step_cases s event with heq | ⟨i, g, _, _, heq⟩ | ⟨i, hnone, _, _⟩ | ⟨i, hi, _⟩ |
    ⟨i, r, hi, _⟩
  · rw [heq]
    exact ⟨hcell, rfl⟩
  · rw [heq]
    exact ⟨hcell, rfl⟩
  · rw [hnone] at hcell
    cases hcell
  · exact absurd hi (h.not_fetching_of_cell hcell i)
  · exact absurd hi (h.not_fetching_of_cell hcell i)

theorem Sound.run_of_cell (h : Sound s) (hcell : s.cell = some info) (events : List Event) :
    (s.run events).cell = some info ∧ (s.run events).fetched = s.fetched := by
  induction events generalizing s with
  | nil => exact ⟨hcell, rfl⟩
  | cons event events ih =>
    obtain ⟨hstep, hfetched⟩ := h.step_of_cell hcell event
    obtain ⟨hrun, hfetched'⟩ := ih (h.step event) hstep
    exact ⟨hrun, hfetched'.trans hfetched⟩

theorem start_of_waiting (hj : s.stage j = .waiting) (hcell : s.cell = none)
    (htaken : s.taken = false) : (s.step (.start j)).stage j = .fetching := by
  simp only [step, hj, hcell, htaken, stage_move, if_true]

theorem fetching_of_absent (hj : s.stage j = .absent) (hcell : s.cell = none)
    (htaken : s.taken = false) :
    (s.run [.arrive j, .look j, .start j]).stage j = .fetching := by
  have harrive : s.step (.arrive j) = s.move j .looking := by simp only [step, hj]
  have hlook : (s.move j .looking).step (.look j) = (s.move j .looking).move j .waiting := by
    have hcell' : (s.move j .looking).cell = none := hcell
    simp only [step, stage_move, if_true, hcell']
  change (((s.step (.arrive j)).step (.look j)).step (.start j)).stage j = .fetching
  rw [harrive, hlook]
  exact start_of_waiting (if_pos rfl) hcell htaken

theorem Sound.of_failure (h : Sound s) (hi : s.stage i = .fetching) (e : ClientError) :
    (s.step (.finish i (.error e))).cell = none ∧
      ∀ j, (s.step (.finish i (.error e))).stage j ≠ .fetching := by
  have hcell : s.cell = none := h.cell_of_taken (h.taken_iff.2 ⟨i, hi⟩)
  have hstep : s.step (.finish i (.error e)) = { s.move i (.answered (.error e)) with
      cell := s.cell
      taken := false
      fetched := (i, .error e) :: s.fetched } := by
    simp only [Crowd.step, hi, Except.toOption, Option.none_or]
  rw [hstep]
  exact ⟨hcell, h.stage_ne_fetching hi (by simp)⟩

theorem stage_run_arrive (callers : List Nat) (h : ∀ i ∈ callers, s.stage i = .absent)
    (hnodup : callers.Nodup) : (s.run (callers.map .arrive)).cell = s.cell ∧
      (s.run (callers.map .arrive)).taken = s.taken ∧
      ∀ j, (s.run (callers.map .arrive)).stage j =
        if j ∈ callers then .looking else s.stage j := by
  induction callers generalizing s with
  | nil => exact ⟨rfl, rfl, fun j => by simp [run]⟩
  | cons i callers ih =>
    obtain ⟨hi, hnodup⟩ := List.nodup_cons.1 hnodup
    obtain ⟨habsent, h⟩ := List.forall_mem_cons.1 h
    have hstep : s.step (.arrive i) = s.move i .looking := by simp only [step, habsent]
    have hcallers : ∀ j ∈ callers, (s.move i .looking).stage j = .absent := by
      intro j hj
      rw [stage_move, if_neg (ne_of_mem_of_not_mem hj hi)]
      exact h j hj
    obtain ⟨hcell, htaken, hstage⟩ := ih hcallers hnodup
    rw [← hstep] at hcell htaken hstage
    refine ⟨hcell.trans ?_, htaken.trans ?_, fun j => (hstage j).trans ?_⟩
    · rw [hstep]
      rfl
    · rw [hstep]
      rfl
    · rw [hstep, stage_move]
      by_cases hj : j ∈ callers
      · simp [hj]
      · by_cases hji : j = i <;> simp [hj, hji]

/-- A caller that finds the cell empty and nobody in its way fetches. -/
theorem run_fetch (hi : s.stage i = .looking) (hcell : s.cell = none) (htaken : s.taken = false)
    (r : Except ClientError ChainInfo) :
    (s.run [.look i, .start i, .finish i r]).cell = r.toOption ∧
      (s.run [.look i, .start i, .finish i r]).taken = false ∧
      ∀ j, (s.run [.look i, .start i, .finish i r]).stage j =
        if j = i then .answered r else s.stage j := by
  have hlook : s.step (.look i) = s.move i .waiting := by simp only [step, hi, hcell]
  have hstart : (s.move i .waiting).step (.start i) =
      { (s.move i .waiting).move i .fetching with taken := true } := by
    have hcell' : (s.move i .waiting).cell = none := hcell
    have htaken' : (s.move i .waiting).taken = false := htaken
    simp only [step, stage_move, if_true, hcell', htaken']
  have hrun : s.run [.look i, .start i, .finish i r] =
      ((s.step (.look i)).step (.start i)).step (.finish i r) := rfl
  rw [hrun, hlook, hstart]
  simp only [step, stage_move, if_true]
  refine ⟨?_, trivial, fun j => ?_⟩
  · change r.toOption.or s.cell = _
    rw [hcell, Option.or_none]
  · by_cases hj : j = i <;> simp [hj]

theorem serve_cons {σ : Type} (c : Client σ) (callers : List Nat) (inner : σ)
    (hi : s.stage i = .looking) (htaken : s.taken = false) :
    ∃ (t : Crowd) (inner' : σ) (r : Except ClientError ChainInfo),
      serve c (i :: callers) s inner = serve c callers t inner' ∧
      c.cached.info ⟨inner, s.cell⟩ = (r, ⟨inner', t.cell⟩) ∧ t.taken = false ∧
      ∀ j, t.stage j = if j = i then .answered r else s.stage j := by
  cases hcell : s.cell with
  | some info =>
    have hlook : s.step (.look i) = s.move i (.answered (.ok info)) := by
      simp only [step, hi, hcell]
    refine ⟨s.move i (.answered (.ok info)), inner, .ok info, ?_, ?_, htaken, fun j => rfl⟩
    · rw [serve, hcell, hlook]
    · change _ = (Except.ok info, (⟨inner, s.cell⟩ : Cached σ))
      rw [hcell]
      rfl
  | none =>
    cases hr : c.info inner with
    | mk r inner' =>
      obtain ⟨hcell', htaken', hstage⟩ := run_fetch hi hcell htaken r
      refine ⟨s.run [.look i, .start i, .finish i r], inner', r, ?_, ?_, htaken', hstage⟩
      · rw [serve, hcell, hr]
      · rw [hcell', Client.cached_info_of_none hr]

theorem serve_eq {σ : Type} (c : Client σ) (callers : List Nat) (s : Crowd) (inner : σ)
    (h : ∀ i ∈ callers, s.stage i = .looking) (hnodup : callers.Nodup)
    (htaken : s.taken = false) :
    let r := serve c callers s inner
    let q := c.cached.infoTimes callers.length ⟨inner, s.cell⟩
    callers.filterMap (fun i => (r.1.stage i).answer?) = q.1 ∧
      (⟨r.2, r.1.cell⟩ : Cached σ) = q.2 ∧ ∀ j, j ∉ callers → r.1.stage j = s.stage j := by
  -- Between two callers nobody fetches, and the later ones have not looked yet.
  induction callers generalizing s inner with
  | nil => exact ⟨rfl, rfl, fun _ _ => rfl⟩
  | cons i callers ih =>
    obtain ⟨hi, hnodup⟩ := List.nodup_cons.1 hnodup
    obtain ⟨hlooking, h⟩ := List.forall_mem_cons.1 h
    obtain ⟨t, inner', r, hserve, hinfo, htaken', hstage⟩ :=
      serve_cons c callers inner hlooking htaken
    have hcallers : ∀ j ∈ callers, t.stage j = .looking := by
      intro j hj
      rw [hstage, if_neg (ne_of_mem_of_not_mem hj hi)]
      exact h j hj
    obtain ⟨hanswers, hworld, hother⟩ := ih t inner' hcallers hnodup htaken'
    have hanswer : (serve c callers t inner').1.stage i = .answered r := by
      rw [hother i hi, hstage, if_pos rfl]
    rw [hserve, List.length_cons, Client.infoTimes, hinfo]
    refine ⟨?_, hworld, fun j hj => ?_⟩
    · rw [List.filterMap_cons, hanswer, hanswers]
      rfl
    · obtain ⟨hji, hj⟩ := not_or.1 (mt List.mem_cons.2 hj)
      rw [hother j hj, hstage, if_neg hji]

/-- Callers that ask together, with fetches that are answered at once, are answered as if each
one asked when the one before had its answer. -/
theorem ask_eq_infoTimes {σ : Type} (c : Client σ) (n : Nat) (s : Cached σ) :
    ask c n s = c.cached.infoTimes n s := by
  obtain ⟨hcell, htaken, hstage⟩ := stage_run_arrive (s := { cell := s.cell }) (List.range n)
    (fun _ _ => rfl) List.nodup_range
  obtain ⟨hanswers, hworld, _⟩ := serve_eq c (List.range n) _ s.inner
    (fun i hi => (hstage i).trans (if_pos hi)) List.nodup_range htaken
  rw [List.length_range, hcell] at hanswers hworld
  exact Prod.ext hanswers hworld

end Crowd

namespace Dialogue
variable {σ ε α : Type}

/-- The client behind the cache is asked for the signatures that the cache is asked for. -/
theorem run_logged_cached (c : Client σ) (d : Dialogue ε α) (client : σ) (log : List Question)
    (cell : Option ChainInfo) (pool : Bytes) :
    let r := d.run c.cached ⟨⟨client, cell⟩, pool⟩
    ∃ more, d.run c.logged.cached ⟨⟨(client, log), cell⟩, pool⟩ =
        (r.1, ⟨⟨(r.2.client.inner, log ++ more), r.2.client.cell⟩, r.2.pool⟩) ∧
      more.filter Question.isSignature =
        (d.asked c.cached ⟨⟨client, cell⟩, pool⟩).filter Question.isSignature := by
  induction d generalizing client log cell pool with
  | done a => exact ⟨[], by simp [run], rfl⟩
  | fail e => exact ⟨[], by simp [run], rfl⟩
  | wait => exact ⟨[], by simp [run], rfl⟩
  | random n next ih => exact ih _ _ _ _ _
  | info next ih =>
    cases cell with
    | some info => exact ih _ _ _ _ _
    | none =>
      cases hr : c.info client with
      | mk r inner =>
        have hinfo := Client.cached_info_of_none hr
        have hlogged := Client.cached_info_of_none (Client.logged_info log hr)
        obtain ⟨more, hrun, hmore⟩ := ih r inner (log ++ [.info]) r.toOption pool
        rw [List.append_assoc] at hrun
        refine ⟨.info :: more, ?_, ?_⟩
        · simp only [run, hinfo, hlogged]
          exact hrun
        · simp only [asked, hinfo]
          exact hmore
  | signature round next ih =>
    obtain ⟨more, hrun, hmore⟩ := ih (c.signature round client).1 (c.signature round client).2
      (log ++ [.signature round]) cell pool
    rw [List.append_assoc] at hrun
    exact ⟨.signature round :: more, hrun, congrArg (Question.signature round :: ·) hmore⟩

end Dialogue

namespace Crowd

/-- Of all the fetches one at a time is under way and one at most succeeds. Whoever is answered
with a description is answered with that one's; whoever is answered with a failure fetched
himself and failed. A failure leaves the cell empty and nobody fetching, and then the next
caller may fetch; once the cell is full nobody fetches again. Callers that find their fetches
answered at once get what they get from a cache that they ask in turn. Signatures pass through. -/
theorem fetched_once (events : List Event) :
    let s := run {} events
    s.successes.length ≤ 1 ∧
    (∀ i j, s.stage i = .fetching → s.stage j = .fetching → i = j) ∧
    (∀ i info, s.stage i = .answered (.ok info) → s.successes = [info]) ∧
    (∀ i e, s.stage i = .answered (.error e) → (i, .error e) ∈ s.fetched) ∧
    (∀ i e, s.stage i = .fetching →
      let t := s.step (.finish i (.error e))
      t.stage i = .answered (.error e) ∧ t.cell = none ∧ ∀ j, t.stage j ≠ .fetching) ∧
    (s.cell = none → (∀ i, s.stage i ≠ .fetching) → ∀ j,
      (s.stage j = .waiting → (s.step (.start j)).stage j = .fetching) ∧
      (s.stage j = .absent → (s.run [.arrive j, .look j, .start j]).stage j = .fetching)) ∧
    (∀ info, s.cell = some info → ∀ more, (s.run more).cell = some info ∧
      (s.run more).fetched = s.fetched ∧ ∀ i, (s.run more).stage i ≠ .fetching) ∧
    (∀ (σ : Type) (c : Client σ) (n : Nat) (client : Cached σ),
      ask c n client = c.cached.infoTimes n client) ∧
    ∀ (σ ε α : Type) (c : Client σ) (d : Dialogue ε α) (client : σ) (cell : Option ChainInfo)
        (pool : Bytes),
      let r := d.run c.logged.cached ⟨⟨(client, []), cell⟩, pool⟩
      r.1 = (d.run c.cached ⟨⟨client, cell⟩, pool⟩).1 ∧
      r.2.client.inner.2.filter Question.isSignature =
        (d.asked c.cached ⟨⟨client, cell⟩, pool⟩).filter Question.isSignature ∧
      ∀ round, c.cached.signature round ⟨client, cell⟩ =
        ((c.signature round client).1, ⟨(c.signature round client).2, cell⟩) := by
  intro s
  have h : Sound s := sound_empty.run events
  refine ⟨?_, h.fetching_unique, ?_, h.mem_fetched, ?_, ?_, ?_,
    fun σ c n client => ask_eq_infoTimes c n client, ?_⟩
  · rw [h.successes_eq]
    cases s.cell <;> simp
  · intro i info hi
    rw [h.successes_eq, h.cell_of_answered i info hi]
    rfl
  · intro i e hi
    obtain ⟨hcell, hnone⟩ := h.of_failure hi e
    refine ⟨?_, hcell, hnone⟩
    simp only [step, hi, stage_move, if_true]
  · intro hcell hnone j
    have htaken : s.taken = false :=
      Bool.eq_false_iff.2 (fun htaken => not_exists.2 hnone (h.taken_iff.1 htaken))
    exact ⟨fun hj => start_of_waiting hj hcell htaken,
      fun hj => fetching_of_absent hj hcell htaken⟩
  · intro info hcell more
    obtain ⟨hcell', hfetched⟩ := h.run_of_cell hcell more
    exact ⟨hcell', hfetched, (h.run more).not_fetching_of_cell hcell'⟩
  · intro σ ε α c d client cell pool r
    obtain ⟨more, hrun, hmore⟩ := Dialogue.run_logged_cached c d client [] cell pool
    refine ⟨congrArg Prod.fst hrun, ?_, fun round => rfl⟩
    rw [← hmore]
    exact congrArg (fun r => r.2.client.inner.2.filter Question.isSignature) hrun

/-- Two callers look while the cell is empty, the first one fails and the second one takes its
turn; whoever looks after that is answered at once. -/
theorem fetched_once_retry :
    let e : ClientError := ⟨"no route", .transient⟩
    let info : ChainInfo := ⟨[7], [8], 3, 0, .unchainedOnG1Rfc, "quicknet".toList⟩
    let events : List Event := [.arrive 0, .arrive 1, .look 0, .look 1, .start 0, .start 1,
      .finish 0 (.error e), .start 1, .finish 1 (.ok info), .arrive 2, .look 2]
    let s := run {} events
    s.stage 0 = .answered (.error e) ∧ (0, .error e) ∈ s.fetched ∧
      s.stage 1 = .answered (.ok info) ∧ s.stage 2 = .answered (.ok info) ∧
      s.successes = [info] ∧ (s.run [.arrive 3, .look 3, .start 3]).stage 3 ≠ .fetching := by
  intro e info events s
  obtain ⟨_, _, hanswered, hfailed, _, _, hfull, _, _⟩ := fetched_once events
  exact ⟨rfl, hfailed 0 e rfl, rfl, rfl, hanswered 2 info rfl, (hfull info rfl _).2.2 3⟩

end Crowd
end BeaconSeal
