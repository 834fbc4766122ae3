import ThreadKernel.Proofs.Table.Consistency

/-!
# ThreadKernel.Proofs.Table.References

Threads name queues and queues name threads. Both sides agree in every table that operations lead
to, although the identifier of a destroyed queue is given to a new one.

* `Table.pendingArrivals`   — the arrival numbers of all records of all queues.
* `Table.CrossReferenced`   — waits, records, owners and acquired queues name each other.
* `Linked.unnamed`          — a queue that does not exist is named by no thread.
* `reachable_crossReferenced` — the agreement holds after any operations.
-/

namespace ThreadKernel.Table

def arrivalsIn (tb : Table) (q : QueueId) : List Nat :=
  match tb.queue? q with
  | some qs => qs.waiters.records.map WaitRecord.arrival
  | none => []

def pendingArrivals (tb : Table) : List Nat := tb.queueIds.flatMap tb.arrivalsIn

/-- What threads say about queues is what queues say about threads. -/
structure CrossReferenced (tb : Table) : Prop where
  waiting : ∀ t q, tb.waitingQueue t = some q ↔
    ∃ qs, tb.queue? q = some qs ∧ qs.waiters.threads.count t = 1
  nowhere_else : ∀ t q r rs, tb.waitingQueue t = some q → tb.queue? r = some rs → r ≠ q →
    rs.waiters.threads.count t = 0
  owner : ∀ t q, tb.owner q = .ok (some t) ↔
    (tb.queue? q).isSome ∧ ∃ s, tb.threads.get? t = some s ∧ q ∈ s.acquired
  acquired_nodup : ∀ t s, tb.threads.get? t = some s → s.acquired.Nodup
  owner_elsewhere : ∀ t q qs, tb.queue? q = some qs → qs.owner = some t →
    qs.waiters.threads.count t = 0
  stateful : ∀ t q qs, tb.queue? q = some qs → qs.owner = some t ∨ t ∈ qs.waiters.threads →
    (tb.threads.get? t).isSome
  arrivals_nodup : tb.pendingArrivals.Nodup
  arrivals_lt : ∀ a ∈ tb.pendingArrivals, a < tb.arrivals

variable {tb : Table} {t : ThreadId} {q : QueueId}

/-! ## Waits and records -/

theorem Linked.waiting_iff_count (h : Linked tb) : tb.waitingQueue t = some q ↔
    ∃ qs, tb.queue? q = some qs ∧ qs.waiters.threads.count t = 1 := by
  refine h.waiting_iff.trans ⟨?_, ?_⟩
  · rintro ⟨qs, hq, ht⟩
    exact ⟨qs, hq, List.count_eq_one_of_mem (h.threads_nodup hq) ht⟩
  · rintro ⟨qs, hq, ht⟩
    exact ⟨qs, hq, List.count_pos_iff.1 (by omega)⟩

theorem Linked.not_mem_of_waits {r : QueueId} {rs : QueueState} (h : Linked tb)
    (hw : tb.waitingQueue t = some q) (hr : tb.queue? r = some rs) (hne : r ≠ q) :
    t ∉ rs.waiters.threads := by
  intro ht
  have hwr : tb.waitingQueue t = some r := h.waiting_iff.2 ⟨rs, hr, ht⟩
  rw [hw] at hwr
  exact hne (Option.some.inj hwr).symm

/-! ## Owners -/

theorem owner_eq_some : tb.owner q = .ok (some t) ↔
    ∃ qs, tb.queue? q = some qs ∧ qs.owner = some t := by
  rw [owner, queue]
  cases hq : tb.queue? q with
  | none => simp [Except.map]
  | some qs => simp [Except.map]

/-- Only a thread with state has acquired queues or waits. -/
theorem exists_state_of_acquired (hq : q ∈ (tb.state t).acquired) :
    ∃ s, tb.threads.get? t = some s ∧ q ∈ s.acquired := by
  cases hs : tb.threads.get? t with
  | none =>
    rw [state_of_absent hs] at hq
    cases hq
  | some s => exact ⟨s, rfl, state_of_get? hs ▸ hq⟩

theorem isSome_of_waits (hw : tb.waitingQueue t = some q) : (tb.threads.get? t).isSome := by
  cases hs : tb.threads.get? t with
  | none =>
    rw [waitingQueue, state_of_absent hs] at hw
    cases hw
  | some s => rfl

theorem Sound.owner_iff (h : Sound tb) : tb.owner q = .ok (some t) ↔
    (tb.queue? q).isSome ∧ ∃ s, tb.threads.get? t = some s ∧ q ∈ s.acquired := by
  rw [owner_eq_some]
  constructor
  · rintro ⟨qs, hq, ho⟩
    exact ⟨by rw [hq]; rfl, exists_state_of_acquired (h.owned hq ho)⟩
  · rintro ⟨-, s, hs, ha⟩
    exact h.linked.owner_of_acquired (state_of_get? hs ▸ ha)

/-! ## Arrivals -/

theorem mem_arrivalsIn {a : Nat} : a ∈ tb.arrivalsIn q ↔
    ∃ qs, tb.queue? q = some qs ∧ ∃ r ∈ qs.waiters.records, r.arrival = a := by
  rw [arrivalsIn]
  cases hq : tb.queue? q with
  | none => simp
  | some qs => simp

/-- The records of a queue belong to different threads, so their arrivals differ. -/
theorem Linked.arrivalsIn_nodup (h : Linked tb) (q : QueueId) : (tb.arrivalsIn q).Nodup := by
  rw [arrivalsIn]
  split
  · rename_i qs hq
    have hn : qs.waiters.records.Pairwise fun a b => a.thread ≠ b.thread :=
      List.pairwise_map.1 (h.threads_nodup hq)
    refine List.pairwise_map.2 (hn.imp_of_mem fun ha hb hne harr => hne ?_)
    exact h.arrival_inj hq hq ha hb harr
  · exact .nil

/-- Records of two queues with one arrival would be two waits of one thread. -/
theorem Linked.disjoint_arrivalsIn (h : Linked tb) {r : QueueId} (hne : q ≠ r) :
    (tb.arrivalsIn q).Disjoint (tb.arrivalsIn r) := by
  intro a hq hr
  obtain ⟨qs, hq, x, hx, hxa⟩ := mem_arrivalsIn.1 hq
  obtain ⟨rs, hr, y, hy, hya⟩ := mem_arrivalsIn.1 hr
  have hthread := h.arrival_inj hq hr hx hy (hxa.trans hya.symm)
  have hwx := h.waiting_of_mem hq hx
  have hwy := h.waiting_of_mem hr hy
  rw [hthread, hwy] at hwx
  exact hne (Option.some.inj hwx).symm

theorem Linked.pendingArrivals_nodup (h : Linked tb) : tb.pendingArrivals.Nodup :=
  List.nodup_flatMap.2 ⟨fun q _ => h.arrivalsIn_nodup q,
    (queueIds_nodup tb).imp fun hne => h.disjoint_arrivalsIn hne⟩

theorem Linked.pendingArrivals_lt (h : Linked tb) {a : Nat} (ha : a ∈ tb.pendingArrivals) :
    a < tb.arrivals := by
  obtain ⟨q, -, ha⟩ := List.mem_flatMap.1 ha
  obtain ⟨qs, hq, r, hr, rfl⟩ := mem_arrivalsIn.1 ha
  exact h.arrival_lt hq hr

/-! ## Both sides -/

theorem Sound.crossReferenced (h : Sound tb) : CrossReferenced tb where
  waiting t q := h.linked.waiting_iff_count
  nowhere_else t q r rs hw hr hne :=
    List.count_eq_zero_of_not_mem (h.linked.not_mem_of_waits hw hr hne)
  owner t q := h.owner_iff
  acquired_nodup t s hs := state_of_get? hs ▸ h.linked.acquired_nodup t
  owner_elsewhere t q qs hq ho := List.count_eq_zero_of_not_mem (h.linked.owner_elsewhere hq ho)
  stateful t q qs hq ht := by
    rcases ht with ho | ht
    · obtain ⟨s, hs, -⟩ := exists_state_of_acquired (h.owned hq ho)
      rw [hs]
      rfl
    · exact isSome_of_waits (h.linked.waiting_iff.2 ⟨qs, hq, ht⟩)
  arrivals_nodup := h.linked.pendingArrivals_nodup
  arrivals_lt a ha := h.linked.pendingArrivals_lt ha

/-- No thread refers to a queue that does not exist, so one that gets its identifier starts
afresh. -/
theorem Linked.unnamed (h : Linked tb) (hq : tb.queue? q = none) (t : ThreadId) :
    tb.waitingQueue t ≠ some q ∧ q ∉ (tb.state t).acquired := by
  refine ⟨fun hw => ?_, fun ha => ?_⟩
  · obtain ⟨qs, hqs, -⟩ := h.waiting_iff.1 hw
    rw [hq] at hqs
    cases hqs
  · obtain ⟨qs, hqs, -⟩ := h.owner_of_acquired ha
    rw [hq] at hqs
    cases hqs

theorem reachable_crossReferenced {p : Policy} (h : Reachable p tb) : CrossReferenced tb :=
  h.sound.2.crossReferenced

/-- A queue is destroyed together with its owner and its waiter, and a new queue gets its
identifier. The thread that waited owns that one, and the earlier owner waits for it. -/
def recycledOps : List Op :=
  [.createQueue true, .acquire ⟨0⟩ ⟨1⟩, .waitForAccess ⟨0⟩ ⟨2⟩, .destroyQueue ⟨0⟩,
    .createQueue false, .acquire ⟨0⟩ ⟨2⟩, .waitForAccess ⟨0⟩ ⟨1⟩]

theorem reachable_crossReferenced_recycled : ∃ tb,
    Reachable .lottery tb ∧
    (tb.waitingQueue ⟨1⟩, tb.waitingQueue ⟨2⟩, tb.ownedQueues ⟨2⟩) = (some ⟨0⟩, none, [⟨0⟩]) ∧
    (tb.pendingArrivals, tb.arrivals) = ([1], 2) ∧ CrossReferenced tb := by
  have hrun : (ofOps .lottery .counting recycledOps).toOption.any (fun tb =>
      (tb.waitingQueue ⟨1⟩, tb.waitingQueue ⟨2⟩, tb.ownedQueues ⟨2⟩) = (some ⟨0⟩, none, [⟨0⟩]) ∧
        (tb.pendingArrivals, tb.arrivals) = ([1], 2)) = true := by
    decide +kernel
  obtain ⟨tb, hr, hrun⟩ := exists_reachable hrun
  obtain ⟨hw, ha⟩ := of_decide_eq_true hrun
  exact ⟨tb, hr, hw, ha, reachable_crossReferenced hr⟩

end ThreadKernel.Table
