import ThreadKernel.Table.Access
import ThreadKernel.Proofs.WaitSet

/-!
# ThreadKernel.Proofs.Table.Links

How threads and queues refer to each other.

* `Table.Linked`    — waits and records agree, acquired queues are owned, arrival numbers differ.
* `Table.Owned`     — whoever owns a queue has it among the queues it acquired.
* `Table.Links`     — the links alone: base values, waits, owners, kinds of queues.
* `Table.SameLinks` — two tables that differ in values and in the order of records at most.
* `Table.Precedes`  — no arrival number of the earlier table is given to a new record.
-/

namespace ThreadKernel

/-- Who waits since which arrival, without the weights. -/
def WaitSet.entries (s : WaitSet) : List (ThreadId × Nat) :=
  s.records.map fun r => (r.thread, r.arrival)

theorem WaitSet.mem_entries {s : WaitSet} {t : ThreadId} {a : Nat} :
    (t, a) ∈ s.entries ↔ ∃ r ∈ s.records, r.thread = t ∧ r.arrival = a := by
  simp [entries]

theorem WaitSet.threads_eq_entries (s : WaitSet) : s.threads = s.entries.map Prod.fst := by
  simp [threads, entries]

namespace Table

/-! ## States of threads -/

theorem state_of_get? {tb : Table} {t : ThreadId} {s : ThreadState}
    (h : tb.threads.get? t = some s) : tb.state t = s := by
  rw [state, h]

theorem state_of_absent {tb : Table} {t : ThreadId} (h : tb.threads.get? t = none) :
    tb.state t = .initial tb.policy := by
  rw [state, h]

theorem state_setThread (tb : Table) (t u : ThreadId) (s : ThreadState) :
    (tb.setThread t s).state u = if t = u then s else tb.state u := by
  simp only [state, get?_setThread]
  by_cases h : t = u
  · simp [h]
  · simp only [if_neg h]
    rfl

/-- A change that leaves an initial state as it is acts on the state of the thread. -/
theorem state_modifyThread (tb : Table) (t u : ThreadId) {f : ThreadState → ThreadState}
    (hf : f (.initial tb.policy) = .initial tb.policy) :
    (tb.modifyThread t f).state u = if t = u then f (tb.state u) else tb.state u := by
  unfold modifyThread
  split
  · rename_i s h
    rw [state_setThread]
    split
    · rename_i htu
      rw [← htu, state_of_get? h]
    · rfl
  · rename_i h
    split
    · rename_i htu
      rw [← htu, state_of_absent h, hf]
    · rfl

@[simp] theorem state_ensure (tb : Table) (t u : ThreadId) :
    (tb.ensure t).state u = tb.state u := by
  unfold ensure
  split
  · rfl
  · rename_i h
    rw [state_setThread]
    split
    · rename_i htu
      rw [← htu, state_of_absent h]
    · rfl

@[simp] theorem queue?_ensure (tb : Table) (t : ThreadId) (q : QueueId) :
    (tb.ensure t).queue? q = tb.queue? q := by
  unfold ensure
  split <;> rfl

@[simp] theorem queue?_modifyThread (tb : Table) (t : ThreadId) (f : ThreadState → ThreadState)
    (q : QueueId) : (tb.modifyThread t f).queue? q = tb.queue? q := by
  unfold modifyThread
  split <;> rfl

@[simp] theorem state_modifyQueue (tb : Table) (q : QueueId) (f : QueueState → QueueState)
    (t : ThreadId) : (tb.modifyQueue q f).state t = tb.state t := rfl

@[simp] theorem policy_ensure (tb : Table) (t : ThreadId) : (tb.ensure t).policy = tb.policy := by
  unfold ensure
  split <;> rfl

@[simp] theorem arrivals_ensure (tb : Table) (t : ThreadId) :
    (tb.ensure t).arrivals = tb.arrivals := by
  unfold ensure
  split <;> rfl

@[simp] theorem policy_modifyThread (tb : Table) (t : ThreadId) (f : ThreadState → ThreadState) :
    (tb.modifyThread t f).policy = tb.policy := by
  unfold modifyThread
  split <;> rfl

@[simp] theorem arrivals_modifyThread (tb : Table) (t : ThreadId) (f : ThreadState → ThreadState) :
    (tb.modifyThread t f).arrivals = tb.arrivals := by
  unfold modifyThread
  split <;> rfl

/-! ## Linked tables -/

/-- The links of threads agree with those of queues. An owner may lack the queue among those it
acquired; `Owned` rules that out. -/
structure Linked (tb : Table) : Prop where
  ranked : ∀ {q qs}, tb.queue? q = some qs → qs.waiters.Ranked tb.policy
  threads_nodup : ∀ {q qs}, tb.queue? q = some qs → qs.waiters.threads.Nodup
  waiting_iff : ∀ {t q}, (tb.state t).waiting = some q ↔
    ∃ qs, tb.queue? q = some qs ∧ t ∈ qs.waiters.threads
  owner_of_acquired : ∀ {t q}, q ∈ (tb.state t).acquired →
    ∃ qs, tb.queue? q = some qs ∧ qs.owner = some t
  acquired_nodup : ∀ t, (tb.state t).acquired.Nodup
  owner_elsewhere : ∀ {q qs t}, tb.queue? q = some qs → qs.owner = some t →
    t ∉ qs.waiters.threads
  arrival_lt : ∀ {q qs r}, tb.queue? q = some qs → r ∈ qs.waiters.records →
    r.arrival < tb.arrivals
  arrival_inj : ∀ {q q' qs qs' r r'}, tb.queue? q = some qs → tb.queue? q' = some qs' →
    r ∈ qs.waiters.records → r' ∈ qs'.waiters.records → r.arrival = r'.arrival →
    r.thread = r'.thread

theorem Linked.ranked_priority {tb : Table} {q : QueueId} {qs : QueueState} (h : Linked tb)
    (hp : tb.policy = .priority) (hq : tb.queue? q = some qs) : qs.waiters.Ranked .priority :=
  hp ▸ h.ranked hq

/-- An owner has the queue among those it acquired. -/
def Owned (tb : Table) : Prop :=
  ∀ {q qs t}, tb.queue? q = some qs → qs.owner = some t → q ∈ (tb.state t).acquired

/-- Base values, waits, owners and kinds of queues. -/
@[ext]
structure Links where
  base : ThreadId → Nat
  waiting : ThreadId → Option QueueId
  owner : QueueId → Option ThreadId
  /-- Whether the queue transfers, `none` if it does not exist. -/
  transfer : QueueId → Option Bool

def links (tb : Table) : Links where
  base t := (tb.state t).base
  waiting t := (tb.state t).waiting
  owner q := (tb.queue? q).bind QueueState.owner
  transfer q := (tb.queue? q).map QueueState.transfer

/-- A thread waits on a queue under an arrival number. -/
def Ticket (tb : Table) (q : QueueId) (t : ThreadId) (arrival : Nat) : Prop :=
  ∃ qs, tb.queue? q = some qs ∧ (t, arrival) ∈ qs.waiters.entries

/-- Time passed from `tb` to `tb'`: every record of `tb'` was in its queue already, or has an
arrival number that `tb` had not given out. -/
structure Precedes (tb tb' : Table) : Prop where
  policy : tb'.policy = tb.policy
  arrivals : tb.arrivals ≤ tb'.arrivals
  ticket : ∀ {q t a}, tb'.Ticket q t a → tb.Ticket q t a ∨ tb.arrivals ≤ a

theorem Precedes.refl (tb : Table) : Precedes tb tb := ⟨rfl, Nat.le_refl _, .inl⟩

theorem Precedes.trans {tb₁ tb₂ tb₃ : Table} (h : Precedes tb₁ tb₂) (h' : Precedes tb₂ tb₃) :
    Precedes tb₁ tb₃ := by
  refine ⟨h'.policy.trans h.policy, h.arrivals.trans h'.arrivals, fun ht => ?_⟩
  rcases h'.ticket ht with ht | ht
  · exact h.ticket ht
  · exact .inr (h.arrivals.trans ht)

/-! ## The same links -/

/-- The queue has the same kind, owner and waiters, in whatever order. -/
structure SameQueue (qs qs' : QueueState) : Prop where
  transfer : qs'.transfer = qs.transfer
  owner : qs'.owner = qs.owner
  entries : qs'.waiters.entries.Perm qs.waiters.entries

/-- Only effective values, weights and the order of records differ. -/
structure SameLinks (tb tb' : Table) : Prop where
  policy : tb'.policy = tb.policy
  arrivals : tb'.arrivals = tb.arrivals
  state : ∀ t, ∃ e, tb'.state t = { tb.state t with effective := e }
  absent : ∀ {q}, tb.queue? q = none → tb'.queue? q = none
  queue : ∀ {q qs}, tb.queue? q = some qs → ∃ qs', tb'.queue? q = some qs' ∧ SameQueue qs qs'

theorem SameQueue.refl (qs : QueueState) : SameQueue qs qs := ⟨rfl, rfl, .refl _⟩

theorem SameQueue.threads {qs qs' : QueueState} (h : SameQueue qs qs') :
    qs'.waiters.threads.Perm qs.waiters.threads := by
  rw [WaitSet.threads_eq_entries, WaitSet.threads_eq_entries]
  exact h.entries.map _

namespace SameLinks

theorem refl (tb : Table) : SameLinks tb tb :=
  ⟨rfl, rfl, fun t => ⟨(tb.state t).effective, rfl⟩, fun h => h, fun h => ⟨_, h, .refl _⟩⟩

theorem trans {tb₁ tb₂ tb₃ : Table} (h : SameLinks tb₁ tb₂) (h' : SameLinks tb₂ tb₃) :
    SameLinks tb₁ tb₃ := by
  refine ⟨h'.policy.trans h.policy, h'.arrivals.trans h.arrivals, fun t => ?_,
    fun hq => h'.absent (h.absent hq), fun hq => ?_⟩
  · obtain ⟨e, he⟩ := h.state t
    obtain ⟨e', he'⟩ := h'.state t
    exact ⟨e', by rw [he', he]⟩
  · obtain ⟨qs₂, hq₂, s₂⟩ := h.queue hq
    obtain ⟨qs₃, hq₃, s₃⟩ := h'.queue hq₂
    exact ⟨qs₃, hq₃, s₃.transfer.trans s₂.transfer, s₃.owner.trans s₂.owner,
      s₃.entries.trans s₂.entries⟩

/-- Every queue of the later table comes from one of the earlier. -/
theorem queue_rev {tb tb' : Table} (h : SameLinks tb tb') {q : QueueId} {qs' : QueueState}
    (hq : tb'.queue? q = some qs') : ∃ qs, tb.queue? q = some qs ∧ SameQueue qs qs' := by
  cases hq₀ : tb.queue? q with
  | none => rw [h.absent hq₀] at hq; cases hq
  | some qs =>
    obtain ⟨qs₁, hq₁, hs⟩ := h.queue hq₀
    rw [hq₁] at hq
    cases hq
    exact ⟨qs, rfl, hs⟩

theorem base {tb tb' : Table} (h : SameLinks tb tb') (t : ThreadId) :
    (tb'.state t).base = (tb.state t).base := by
  obtain ⟨e, he⟩ := h.state t
  rw [he]

theorem acquired {tb tb' : Table} (h : SameLinks tb tb') (t : ThreadId) :
    (tb'.state t).acquired = (tb.state t).acquired := by
  obtain ⟨e, he⟩ := h.state t
  rw [he]

theorem waiting {tb tb' : Table} (h : SameLinks tb tb') (t : ThreadId) :
    (tb'.state t).waiting = (tb.state t).waiting := by
  obtain ⟨e, he⟩ := h.state t
  rw [he]

theorem links_eq {tb tb' : Table} (h : SameLinks tb tb') : tb'.links = tb.links := by
  simp only [links, Links.mk.injEq]
  refine ⟨funext h.base, funext h.waiting, funext fun q => ?_, funext fun q => ?_⟩ <;>
    cases hq : tb.queue? q with
    | none => rw [h.absent hq]
    | some qs =>
      obtain ⟨qs', hq', hs⟩ := h.queue hq
      simp [hq', hs.owner, hs.transfer]

theorem precedes {tb tb' : Table} (h : SameLinks tb tb') : Precedes tb tb' := by
  refine ⟨h.policy, h.arrivals.ge, fun ⟨qs', hq', ht⟩ => ?_⟩
  obtain ⟨qs, hq, hs⟩ := h.queue_rev hq'
  exact .inl ⟨qs, hq, hs.entries.mem_iff.1 ht⟩

theorem owned {tb tb' : Table} (h : SameLinks tb tb') (ho : Owned tb) : Owned tb' := by
  intro q qs' t hq' hown
  obtain ⟨qs, hq, hs⟩ := h.queue_rev hq'
  rw [h.acquired]
  exact ho hq (hs.owner ▸ hown)

/-- With its wait sets ranked, a table that has the links of a linked one is linked. -/
theorem linked {tb tb' : Table} (h : SameLinks tb tb') (hl : Linked tb)
    (hr : ∀ {q qs}, tb'.queue? q = some qs → qs.waiters.Ranked tb'.policy) : Linked tb' where
  ranked := hr
  threads_nodup hq' := by
    obtain ⟨qs, hq, hs⟩ := h.queue_rev hq'
    exact hs.threads.nodup_iff.2 (hl.threads_nodup hq)
  waiting_iff {t q} := by
    rw [h.waiting, hl.waiting_iff]
    constructor
    · rintro ⟨qs, hq, ht⟩
      obtain ⟨qs', hq', hs⟩ := h.queue hq
      exact ⟨qs', hq', hs.threads.mem_iff.2 ht⟩
    · rintro ⟨qs', hq', ht⟩
      obtain ⟨qs, hq, hs⟩ := h.queue_rev hq'
      exact ⟨qs, hq, hs.threads.mem_iff.1 ht⟩
  owner_of_acquired ha := by
    rw [h.acquired] at ha
    obtain ⟨qs, hq, hown⟩ := hl.owner_of_acquired ha
    obtain ⟨qs', hq', hs⟩ := h.queue hq
    exact ⟨qs', hq', hs.owner.trans hown⟩
  acquired_nodup t := by
    rw [h.acquired]
    exact hl.acquired_nodup t
  owner_elsewhere hq' hown := by
    obtain ⟨qs, hq, hs⟩ := h.queue_rev hq'
    rw [hs.threads.mem_iff]
    exact hl.owner_elsewhere hq (hs.owner ▸ hown)
  arrival_lt {q qs' r} hq' hr' := by
    obtain ⟨qs, hq, hs⟩ := h.queue_rev hq'
    have hm : (r.thread, r.arrival) ∈ qs.waiters.entries :=
      hs.entries.mem_iff.1 (WaitSet.mem_entries.2 ⟨r, hr', rfl, rfl⟩)
    obtain ⟨r₀, hr₀, -, ha⟩ := WaitSet.mem_entries.1 hm
    rw [h.arrivals, ← ha]
    exact hl.arrival_lt hq hr₀
  arrival_inj {q₁ q₂ qs₁' qs₂' r₁ r₂} hq₁' hq₂' hr₁' hr₂' heq := by
    obtain ⟨qs₁, hq₁, hs₁⟩ := h.queue_rev hq₁'
    obtain ⟨qs₂, hq₂, hs₂⟩ := h.queue_rev hq₂'
    obtain ⟨x₁, hx₁, ht₁, ha₁⟩ := WaitSet.mem_entries.1
      (hs₁.entries.mem_iff.1 (WaitSet.mem_entries.2 ⟨r₁, hr₁', rfl, rfl⟩))
    obtain ⟨x₂, hx₂, ht₂, ha₂⟩ := WaitSet.mem_entries.1
      (hs₂.entries.mem_iff.1 (WaitSet.mem_entries.2 ⟨r₂, hr₂', rfl, rfl⟩))
    rw [← ht₁, ← ht₂]
    exact hl.arrival_inj hq₁ hq₂ hx₁ hx₂ (by rw [ha₁, ha₂, heq])

end SameLinks
end Table
end ThreadKernel
