import ThreadKernel.Proofs.Table.Effect

/-!
# ThreadKernel.Proofs.Table.Release

Queues that lose their owner, or go away with their waiters.

* `unclaim`, `disown` — an owner gives a queue up; `releaseOwnership_effect`.
* `detach`, `dissolve` — a queue goes away; `destroyQueue_effect`.
* `releaseOwnership_cases`, `destroyQueue_cases` — what a call that succeeds does.
-/

namespace ThreadKernel.Table

/-! ## Giving a queue up -/

/-- `o` no longer counts `q` among its queues. -/
def unclaim (q : QueueId) (o : ThreadId) (tb : Table) : Table :=
  tb.modifyThread o fun s => { s with acquired := s.acquired.filter (· ≠ q) }

theorem state_unclaim {q : QueueId} {o : ThreadId} {tb : Table}
    (h : ∀ u, q ∈ (tb.state u).acquired → u = o) (u : ThreadId) :
    (unclaim q o tb).state u =
      { tb.state u with acquired := (tb.state u).acquired.filter (· ≠ q) } := by
  rw [unclaim, state_modifyThread _ _ _ rfl]
  split
  · rfl
  · rename_i hne
    have hf : (tb.state u).acquired.filter (· ≠ q) = (tb.state u).acquired :=
      List.filter_eq_self.2 fun r hr => by
        simpa using fun hrq : r = q => hne (h u (hrq ▸ hr)).symm
    rw [hf]

@[simp] theorem queue?_unclaim (q r : QueueId) (o : ThreadId) (tb : Table) :
    (unclaim q o tb).queue? r = tb.queue? r := queue?_modifyThread _ _ _ _

@[simp] theorem policy_unclaim (q : QueueId) (o : ThreadId) (tb : Table) :
    (unclaim q o tb).policy = tb.policy := policy_modifyThread _ _ _

@[simp] theorem arrivals_unclaim (q : QueueId) (o : ThreadId) (tb : Table) :
    (unclaim q o tb).arrivals = tb.arrivals := arrivals_modifyThread _ _ _

/-- The owner `o` gives `q` up. -/
def disown (q : QueueId) (o : ThreadId) (tb : Table) : Table :=
  unclaim q o (tb.modifyQueue q fun qs => { qs with owner := none })

theorem queue?_disown (q r : QueueId) (o : ThreadId) (tb : Table) :
    (disown q o tb).queue? r =
      if q = r then (tb.queue? r).map fun qs => { qs with owner := none } else tb.queue? r := by
  rw [disown, queue?_unclaim, queue?_modifyQueue]

@[simp] theorem policy_disown (q : QueueId) (o : ThreadId) (tb : Table) :
    (disown q o tb).policy = tb.policy := policy_unclaim _ _ _

@[simp] theorem arrivals_disown (q : QueueId) (o : ThreadId) (tb : Table) :
    (disown q o tb).arrivals = tb.arrivals := arrivals_unclaim _ _ _

section Disown

variable {q : QueueId} {o : ThreadId} {tb : Table} {qs : QueueState}

theorem acquired_by_owner (h : Linked tb) (hq : tb.queue? q = some qs) {u : ThreadId}
    (hu : q ∈ (tb.state u).acquired) : qs.owner = some u := by
  obtain ⟨qs', hq', ho⟩ := h.owner_of_acquired hu
  rw [hq] at hq'
  cases hq'
  exact ho

theorem state_disown (h : Linked tb) (hq : tb.queue? q = some qs) (ho : qs.owner = some o)
    (u : ThreadId) : (disown q o tb).state u =
      { tb.state u with acquired := (tb.state u).acquired.filter (· ≠ q) } := by
  unfold disown
  refine state_unclaim (fun u hu => ?_) u
  exact Option.some.inj ((acquired_by_owner h hq hu).symm.trans ho)

theorem disown_linked (h : Linked tb) (hq : tb.queue? q = some qs) (ho : qs.owner = some o) :
    Linked (disown q o tb) := by
  have hst := state_disown h hq ho
  constructor
  · intro r rs hr
    rw [queue?_disown] at hr
    rw [policy_disown]
    have := @h.ranked
    grind
  · intro r rs hr
    rw [queue?_disown] at hr
    have := @h.threads_nodup
    grind
  · intro t r
    rw [hst, queue?_disown]
    have := @h.waiting_iff
    grind
  · intro t r hr
    rw [hst] at hr
    rw [queue?_disown]
    have := @h.owner_of_acquired
    grind
  · intro t
    rw [hst]
    exact (h.acquired_nodup t).filter _
  · intro r rs t hr
    rw [queue?_disown] at hr
    have := @h.owner_elsewhere
    grind
  · intro r rs x hr
    rw [queue?_disown] at hr
    rw [arrivals_disown]
    have := @h.arrival_lt
    grind
  · intro r r' rs rs' x x' hr hr'
    rw [queue?_disown] at hr hr'
    have := @h.arrival_inj
    grind

theorem disown_owned (h : Sound tb) (hq : tb.queue? q = some qs) (ho : qs.owner = some o) :
    Owned (disown q o tb) := by
  intro r rs t hr hown
  rw [queue?_disown] at hr
  rw [state_disown h.linked hq ho]
  have := @h.owned r rs t
  grind

theorem disown_settledBut (h : Sound tb) (hq : tb.queue? q = some qs) (ho : qs.owner = some o) :
    SettledBut (some o) (disown q o tb) := by
  have hst := state_disown h.linked hq ho
  refine ⟨fun {r rs x} hr hx => ?_, fun t => ?_, fun t => ?_, fun t ht => ?_⟩
  · rw [queue?_disown] at hr
    rw [hst]
    have := @h.settled.weight
    grind
  · rw [hst, policy_disown]
    exact h.settled.base_le t
  · rw [hst, policy_disown]
    exact h.settled.effective_le t
  · have hne : q ∉ (tb.state t).acquired := fun hu =>
      ht (ho.symm.trans (acquired_by_owner h.linked hq hu))
    have hst' : (disown q o tb).state t = tb.state t := by rw [hst, filter_ne_eq_self hne]
    have hd : (disown q o tb).donatedValue t = tb.donatedValue t := by
      refine donatedValue_congr (policy_disown q o tb) (by rw [hst']) (by rw [hst']) fun r hr => ?_
      simp only [gift, queue?_disown, policy_disown]
      rw [if_neg (by rintro rfl; exact hne hr)]
    rw [hd, hst']
    exact h.settled.value t (by simp)

theorem disown_links (h : Linked tb) (hq : tb.queue? q = some qs) (ho : qs.owner = some o) :
    (disown q o tb).links = { tb.links with owner := Function.update tb.links.owner q none } := by
  have hst := state_disown h hq ho
  ext r : 2
  · simp only [links, hst]
  · simp only [links, hst]
  · simp only [links, queue?_disown, Function.update_apply, eq_comm (a := r)]
    split
    · rename_i hqr
      simp [← hqr, hq]
    · rfl
  · simp only [links, queue?_disown]
    split
    · rename_i hqr
      simp [← hqr, hq]
    · rfl

theorem disown_precedes (hq : tb.queue? q = some qs) : Precedes tb (disown q o tb) := by
  refine ⟨by simp, by simp, ?_⟩
  rintro r t a ⟨rs, hr, hm⟩
  rw [queue?_disown] at hr
  left
  split at hr
  · rename_i hqr
    subst hqr
    rw [hq] at hr
    cases hr
    exact ⟨qs, hq, hm⟩
  · exact ⟨rs, hr, hm⟩

end Disown

/-- The owner gives the queue up, if there is one. -/
theorem releaseOwnership_cases {tb tb' : Table} {q : QueueId}
    (hr : tb.releaseOwnership q = .ok tb') :
    ∃ qs, tb.queue? q = some qs ∧ (qs.owner = none ∧ tb' = tb ∨
      ∃ o, qs.owner = some o ∧ (disown q o tb).refreshOption (some o) = .ok tb') := by
  unfold releaseOwnership at hr
  split at hr
  · cases hr
  · rename_i qs hq
    refine ⟨qs, hq, ?_⟩
    split at hr
    · rename_i ho
      cases hr
      exact .inl ⟨ho, rfl⟩
    · rename_i o ho
      exact .inr ⟨o, ho, hr⟩

theorem releaseOwnership_effect {tb tb' : Table} {q : QueueId} (h : Sound tb)
    (hr : tb.releaseOwnership q = .ok tb') :
    (tb.queue? q).isSome ∧
      Effect tb { tb.links with owner := Function.update tb.links.owner q none } tb' := by
  obtain ⟨qs, hq, ⟨ho, rfl⟩ | ⟨o, ho, hr⟩⟩ := releaseOwnership_cases hr
  · have hn : tb'.links.owner q = none := by simp [links, hq, ho]
    rw [update_owner_none hn]
    exact ⟨by rw [hq]; rfl, .unchanged h⟩
  · rw [← disown_links h.linked hq ho]
    exact ⟨by rw [hq]; rfl, .of_refresh (disown_linked h.linked hq ho) (disown_owned h hq ho)
      (disown_settledBut h hq ho) (disown_precedes hq) hr⟩

/-- The queue exists afterwards, and nobody owns it. -/
theorem releaseOwnership_vacant {tb tb' : Table} {q : QueueId} (h : Sound tb)
    (hr : tb.releaseOwnership q = .ok tb') : ∃ qs, tb'.queue? q = some qs ∧ qs.owner = none := by
  obtain ⟨hex, he⟩ := releaseOwnership_effect h hr
  obtain ⟨qs, hq⟩ := Option.isSome_iff_exists.1 (he.exists_queue rfl hex)
  have hown : tb'.links.owner q = none := by
    rw [he.links]
    exact Function.update_self _ _ _
  exact ⟨qs, hq, by simpa [links, hq] using hown⟩

theorem releaseOwnership_unowned {tb tb' : Table} {q : QueueId}
    (ho : tb.links.owner q = none) (hr : tb.releaseOwnership q = .ok tb') : tb' = tb := by
  obtain ⟨qs, hq, ⟨-, rfl⟩ | ⟨o, hown, -⟩⟩ := releaseOwnership_cases hr
  · rfl
  · simp [links, hq, hown] at ho

/-! ## Destroying a queue -/

def detach (records : List WaitRecord) (tb : Table) : Table :=
  records.foldl (fun tb r => tb.modifyThread r.thread fun s => { s with waiting := none }) tb

theorem state_detach (records : List WaitRecord) : ∀ (tb : Table) (u : ThreadId),
    (detach records tb).state u =
      if u ∈ records.map WaitRecord.thread then { tb.state u with waiting := none }
      else tb.state u := by
  induction records with
  | nil => intro tb u; rfl
  | cons r records ih =>
    intro tb u
    show (detach records _).state u = _
    rw [ih, state_modifyThread _ _ _ rfl]
    simp only [List.map_cons, List.mem_cons]
    by_cases hu : u ∈ records.map WaitRecord.thread <;> by_cases hr : r.thread = u <;>
      simp [hu, hr, eq_comm (a := u)]

theorem detach_rest (records : List WaitRecord) : ∀ tb : Table,
    (detach records tb).policy = tb.policy ∧ (detach records tb).arrivals = tb.arrivals ∧
      (detach records tb).queue? = tb.queue? := by
  induction records with
  | nil => exact fun tb => ⟨rfl, rfl, rfl⟩
  | cons r records ih =>
    intro tb
    obtain ⟨hp, ha, hq⟩ := ih (tb.modifyThread r.thread fun s => { s with waiting := none })
    exact ⟨hp.trans (policy_modifyThread _ _ _), ha.trans (arrivals_modifyThread _ _ _),
      hq.trans (funext fun q => queue?_modifyThread _ _ _ q)⟩

/-- The queue `q` goes away. -/
def dissolve (q : QueueId) (qs : QueueState) (tb : Table) : Table :=
  let rest := detach qs.waiters.records { tb with queues := tb.queues.erase q.number }
  match qs.owner with
  | none => rest
  | some o => unclaim q o rest

theorem destroyQueue_eq {q : QueueId} {qs : QueueState} {tb : Table} (hq : tb.queue? q = some qs) :
    tb.destroyQueue q = (dissolve q qs tb).refreshOption qs.owner := by
  cases ho : qs.owner <;>
    · simp only [destroyQueue, dissolve, hq, ho]
      rfl

section Dissolve

variable {q : QueueId} {tb : Table} {qs : QueueState}

theorem queue?_dissolve (q r : QueueId) (qs : QueueState) (tb : Table) :
    (dissolve q qs tb).queue? r = if q = r then none else tb.queue? r := by
  have he : Table.queue? { tb with queues := tb.queues.erase q.number } r =
      if q = r then none else tb.queue? r := by
    rw [queue?, Arena.get?_erase]
    by_cases h : q = r
    · rw [if_pos h, if_pos (congrArg QueueId.number h)]
    · rw [if_neg h, if_neg fun e => h (congrArg QueueId.mk e), queue?]
  rw [← he]
  unfold dissolve
  split
  · rw [(detach_rest _ _).2.2]
  · rw [queue?_unclaim, (detach_rest _ _).2.2]

theorem policy_dissolve (q : QueueId) (qs : QueueState) (tb : Table) :
    (dissolve q qs tb).policy = tb.policy := by
  unfold dissolve
  split
  · exact (detach_rest _ _).1
  · exact (policy_unclaim _ _ _).trans (detach_rest _ _).1

theorem arrivals_dissolve (q : QueueId) (qs : QueueState) (tb : Table) :
    (dissolve q qs tb).arrivals = tb.arrivals := by
  unfold dissolve
  split
  · exact (detach_rest _ _).2.1
  · exact (arrivals_unclaim _ _ _).trans (detach_rest _ _).2.1

theorem state_dissolve (h : Linked tb) (hq : tb.queue? q = some qs) (u : ThreadId) :
    (dissolve q qs tb).state u =
      { tb.state u with
        waiting := if (tb.state u).waiting = some q then none else (tb.state u).waiting
        acquired := (tb.state u).acquired.filter (· ≠ q) } := by
  have hmem : u ∈ qs.waiters.records.map WaitRecord.thread ↔ (tb.state u).waiting = some q := by
    rw [h.waiting_iff]
    exact ⟨fun hu => ⟨qs, hq, hu⟩, fun ⟨qs', hq', hu⟩ => by rw [hq] at hq'; cases hq'; exact hu⟩
  have hst : ∀ u, (detach qs.waiters.records
      { tb with queues := tb.queues.erase q.number }).state u =
        if u ∈ qs.waiters.records.map WaitRecord.thread then { tb.state u with waiting := none }
        else tb.state u := fun u => state_detach _ _ u
  have hacq : ∀ u, ((detach qs.waiters.records
      { tb with queues := tb.queues.erase q.number }).state u).acquired =
        (tb.state u).acquired := by
    intro u
    rw [hst]
    split <;> rfl
  unfold dissolve
  cases ho : qs.owner with
  | none =>
    have hne : q ∉ (tb.state u).acquired := fun hu => by
      have := acquired_by_owner h hq hu
      rw [ho] at this
      cases this
    simp only [hst, filter_ne_eq_self hne, hmem]
    split <;> rfl
  | some o =>
    have hown : ∀ u, q ∈ ((detach qs.waiters.records
        { tb with queues := tb.queues.erase q.number }).state u).acquired → u = o := by
      intro u hu
      rw [hacq] at hu
      exact Option.some.inj ((acquired_by_owner h hq hu).symm.trans ho)
    simp only [state_unclaim hown, hst, hmem]
    split <;> rfl

theorem dissolve_linked (h : Linked tb) (hq : tb.queue? q = some qs) :
    Linked (dissolve q qs tb) := by
  have hst := state_dissolve h hq
  constructor
  · intro r rs hr
    rw [queue?_dissolve] at hr
    rw [policy_dissolve]
    have := @h.ranked
    grind
  · intro r rs hr
    rw [queue?_dissolve] at hr
    have := @h.threads_nodup
    grind
  · intro t r
    rw [hst, queue?_dissolve]
    have := @h.waiting_iff
    grind
  · intro t r hr
    rw [hst] at hr
    rw [queue?_dissolve]
    have := @h.owner_of_acquired
    grind
  · intro t
    rw [hst]
    exact (h.acquired_nodup t).filter _
  · intro r rs t hr
    rw [queue?_dissolve] at hr
    have := @h.owner_elsewhere
    grind
  · intro r rs x hr
    rw [queue?_dissolve] at hr
    rw [arrivals_dissolve]
    have := @h.arrival_lt
    grind
  · intro r r' rs rs' x x' hr hr'
    rw [queue?_dissolve] at hr hr'
    have := @h.arrival_inj
    grind

theorem dissolve_owned (h : Sound tb) (hq : tb.queue? q = some qs) :
    Owned (dissolve q qs tb) := by
  intro r rs t hr hown
  rw [queue?_dissolve] at hr
  rw [state_dissolve h.linked hq]
  have := @h.owned r rs t
  grind

theorem dissolve_settledBut (h : Sound tb) (hq : tb.queue? q = some qs) :
    SettledBut qs.owner (dissolve q qs tb) := by
  have hst := state_dissolve h.linked hq
  refine ⟨fun {r rs x} hr hx => ?_, fun t => ?_, fun t => ?_, fun t ht => ?_⟩
  · rw [queue?_dissolve] at hr
    rw [hst]
    have := @h.settled.weight
    grind
  · rw [hst, policy_dissolve]
    exact h.settled.base_le t
  · rw [hst, policy_dissolve]
    exact h.settled.effective_le t
  · have hne : q ∉ (tb.state t).acquired := fun hu => ht (acquired_by_owner h.linked hq hu)
    have hd : (dissolve q qs tb).donatedValue t = tb.donatedValue t := by
      refine donatedValue_congr (policy_dissolve q qs tb) (by rw [hst])
        (by rw [hst]; exact filter_ne_eq_self hne) fun r hr => ?_
      simp only [gift, queue?_dissolve, policy_dissolve]
      rw [if_neg (by rintro rfl; exact hne hr)]
    rw [hd, h.settled.value t (by simp), hst]

theorem dissolve_links (h : Linked tb) (hq : tb.queue? q = some qs) :
    (dissolve q qs tb).links =
      { tb.links with
        waiting := fun t => if tb.links.waiting t = some q then none else tb.links.waiting t
        owner := Function.update tb.links.owner q none
        transfer := Function.update tb.links.transfer q none } := by
  have hst := state_dissolve h hq
  ext r : 2
  · simp only [links, hst]
  · simp only [links, hst]
    exact if_congr Iff.rfl rfl rfl
  · simp only [links, queue?_dissolve, Function.update_apply, eq_comm (a := r)]
    split <;> rfl
  · simp only [links, queue?_dissolve, Function.update_apply, eq_comm (a := r)]
    split <;> rfl

theorem dissolve_precedes : Precedes tb (dissolve q qs tb) := by
  refine ⟨policy_dissolve q qs tb, (arrivals_dissolve q qs tb).ge, ?_⟩
  rintro r t a ⟨rs, hr, hm⟩
  rw [queue?_dissolve] at hr
  left
  split at hr
  · cases hr
  · exact ⟨rs, hr, hm⟩

end Dissolve

/-- A queue that does not exist is left alone. -/
theorem destroyQueue_cases {tb tb' : Table} {q : QueueId} (hr : tb.destroyQueue q = .ok tb') :
    tb.queue? q = none ∧ tb' = tb ∨
      ∃ qs, tb.queue? q = some qs ∧ (dissolve q qs tb).refreshOption qs.owner = .ok tb' := by
  cases hq : tb.queue? q with
  | none =>
    rw [destroyQueue, hq] at hr
    cases hr
    exact .inl ⟨rfl, rfl⟩
  | some qs => exact .inr ⟨qs, rfl, destroyQueue_eq hq ▸ hr⟩

/-- A queue that does not exist is left alone, and the links say so. -/
theorem destroyQueue_effect {tb tb' : Table} {q : QueueId} (h : Sound tb)
    (hr : tb.destroyQueue q = .ok tb') :
    Effect tb
      { tb.links with
        waiting := fun t => if tb.links.waiting t = some q then none else tb.links.waiting t
        owner := Function.update tb.links.owner q none
        transfer := Function.update tb.links.transfer q none } tb' := by
  obtain ⟨hq, rfl⟩ | ⟨qs, hq, hr⟩ := destroyQueue_cases hr
  · have hw : ∀ t, tb'.links.waiting t ≠ some q := fun t ht => by
      obtain ⟨qs, hqs, -⟩ := h.linked.waiting_iff.1 ht
      rw [hq] at hqs
      cases hqs
    have ho : tb'.links.owner q = none := by simp [links, hq]
    have ht : tb'.links.transfer q = none := by simp [links, hq]
    have hl : { tb'.links with
        waiting := fun t => if tb'.links.waiting t = some q then none else tb'.links.waiting t
        owner := Function.update tb'.links.owner q none
        transfer := Function.update tb'.links.transfer q none } = tb'.links := by
      ext r : 2
      · rfl
      · simp only [if_neg (hw r)]
      · rw [← ho, Function.update_eq_self]
      · rw [← ht, Function.update_eq_self]
    rw [hl]
    exact .unchanged h
  · rw [← dissolve_links h.linked hq]
    exact .of_refresh (dissolve_linked h.linked hq) (dissolve_owned h hq)
      (dissolve_settledBut h hq) dissolve_precedes hr

end ThreadKernel.Table
