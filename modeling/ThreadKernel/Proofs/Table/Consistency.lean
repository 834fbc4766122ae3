import ThreadKernel.Proofs.Table.Forget
import Mathlib.Data.List.Nodup

/-!
# ThreadKernel.Proofs.Table.Consistency

Every table that operations lead to has the right values.

* `Table.donations`           — what the queues that name a thread as their owner give it.
* `Table.Consistent`          — effective values, weights and bounds, as callers see them.
* `Table.apply_effect`        — every operation keeps a table sound.
* `reachable_consistent`      — so values are right after any operations, cyclic owners included.
-/

namespace ThreadKernel.Table

/-- The queues that name `t` as their owner, ascending. -/
def ownedQueues (tb : Table) (t : ThreadId) : List QueueId :=
  tb.queueIds.filter fun q => (tb.queue? q).bind QueueState.owner = some t

def queueDonation (tb : Table) (q : QueueId) : Option Nat :=
  (tb.queue? q).bind fun qs => if qs.transfer then some (tb.policy.donation qs.waiters) else none

/-- The donation of each transferring queue that `t` owns. -/
def donations (tb : Table) (t : ThreadId) : List Nat :=
  (tb.ownedQueues t).filterMap tb.queueDonation

/-- Values are what a computation from scratch gives, records carry them, and they lie within the
bounds of the policy. -/
structure Consistent (tb : Table) : Prop where
  effective : ∀ {t s}, tb.threads.get? t = some s →
    s.effective = (tb.donations t).foldl tb.policy.combine s.base
  computed : ∀ {t s}, tb.threads.get? t = some s → tb.donatedValue t = .ok s.effective
  weight : ∀ {q qs r}, tb.queue? q = some qs → r ∈ qs.waiters.records →
    ∃ s, tb.threads.get? r.thread = some s ∧ r.weight = s.effective
  ranked : ∀ {q qs}, tb.queue? q = some qs → qs.waiters.Ranked tb.policy
  bounds : ∀ {t s}, tb.threads.get? t = some s →
    tb.policy.bounds.least ≤ s.base ∧ s.base ≤ s.effective ∧
      s.effective ≤ tb.policy.bounds.greatest

/-! ## Donations through owners -/

theorem mem_queueIds {tb : Table} {q : QueueId} : q ∈ tb.queueIds ↔ (tb.queue? q).isSome := by
  rw [queueIds, List.mem_map]
  constructor
  · rintro ⟨k, hk, rfl⟩
    exact (KeyMap.mem_keys_iff _ _).1 hk
  · exact fun h => ⟨q.number, (KeyMap.mem_keys_iff _ _).2 h, rfl⟩

theorem queueIds_nodup (tb : Table) : tb.queueIds.Nodup := by
  refine List.Nodup.map (fun a b h => QueueId.mk.inj h) ?_
  refine List.pairwise_map.2 (tb.queues.cells.sorted.imp fun hlt heq => ?_)
  rw [heq] at hlt
  exact Nat.lt_irrefl _ hlt

/-- A thread acquired exactly the queues that name it as their owner. -/
theorem Sound.acquired_perm {tb : Table} (h : Sound tb) (t : ThreadId) :
    (tb.state t).acquired.Perm (tb.ownedQueues t) := by
  have hn : (tb.ownedQueues t).Nodup := (queueIds_nodup tb).filter _
  refine (List.perm_ext_iff_of_nodup (h.linked.acquired_nodup t) hn).2 fun q => ?_
  rw [ownedQueues, List.mem_filter, mem_queueIds, decide_eq_true_eq]
  constructor
  · intro hq
    obtain ⟨qs, hqs, ho⟩ := h.linked.owner_of_acquired hq
    exact ⟨by rw [hqs]; rfl, by rw [hqs]; exact ho⟩
  · rintro ⟨-, ho⟩
    obtain ⟨qs, hqs, ho⟩ := Option.bind_eq_some_iff.1 ho
    exact h.owned hqs ho

theorem combineDonations_eq_foldl {tb : Table} {l : List QueueId}
    (h : ∀ q ∈ l, (tb.queue? q).isSome) : ∀ v, tb.combineDonations v l =
      .ok ((l.filterMap tb.queueDonation).foldl tb.policy.combine v) := by
  induction l with
  | nil => intro v; rfl
  | cons q l ih =>
    intro v
    obtain ⟨qs, hqs⟩ := Option.isSome_iff_exists.1 (h q List.mem_cons_self)
    have ih := ih fun r hr => h r (List.mem_cons_of_mem _ hr)
    simp only [combineDonations, hqs, ih]
    cases htr : qs.transfer with
    | true =>
      have hd : tb.queueDonation q = some (tb.policy.donation qs.waiters) := by
        simp [queueDonation, hqs, htr]
      rw [List.filterMap_cons_some hd]
      rfl
    | false =>
      have hd : tb.queueDonation q = none := by simp [queueDonation, hqs, htr]
      rw [List.filterMap_cons_none hd]
      rfl

theorem Sound.donatedValue_eq_foldl {tb : Table} (h : Sound tb) (t : ThreadId) :
    tb.donatedValue t = .ok ((tb.donations t).foldl tb.policy.combine (tb.state t).base) := by
  have hex : ∀ q ∈ (tb.state t).acquired, (tb.queue? q).isSome := by
    intro q hq
    obtain ⟨qs, hqs, -⟩ := h.linked.owner_of_acquired hq
    rw [hqs]
    rfl
  rw [donatedValue_eq, combineDonations_eq_foldl hex, donations,
    ((h.acquired_perm t).filterMap _).foldl_eq]

theorem Sound.effective_eq {tb : Table} (h : Sound tb) (t : ThreadId) :
    tb.effective t = (tb.donations t).foldl tb.policy.combine (tb.priority t) := by
  have hv := h.settled.value t (by simp)
  rw [h.donatedValue_eq_foldl] at hv
  exact (Except.ok.inj hv).symm

theorem Sound.consistent {tb : Table} (h : Sound tb) : Consistent tb where
  effective {t s} hs := by
    rw [← state_of_get? hs]
    exact h.effective_eq t
  computed {t s} hs := by
    rw [← state_of_get? hs]
    exact h.settled.value t (by simp)
  weight {q qs r} hq hr := by
    have hw := h.linked.waiting_of_mem hq hr
    cases hs : tb.threads.get? r.thread with
    | none =>
      rw [state_of_absent hs] at hw
      cases hw
    | some s => exact ⟨s, rfl, by rw [← state_of_get? hs]; exact h.settled.weight hq hr⟩
  ranked hq := h.linked.ranked hq
  bounds {t s} hs := by
    have hb := h.settled.donatedValue_bounds (h.settled.value t (by simp))
    rw [state_of_get? hs] at hb
    refine ⟨?_, hb⟩
    cases tb.policy <;> exact Nat.zero_le _

/-! ## Every history -/

theorem apply_effect {tb tb' : Table} {op : Op} (h : Sound tb) (ha : tb.apply op = .ok tb') :
    ∃ after, Effect tb after tb' := by
  cases op with
  | createQueue transfer =>
    cases ha
    exact ⟨_, createQueue_effect h transfer⟩
  | destroyQueue q => exact ⟨_, destroyQueue_effect h ha⟩
  | waitForAccess q t => exact ⟨_, (waitForAccess_effect h ha).2.2⟩
  | acquire q t => exact ⟨_, (acquire_effect h ha).2.2⟩
  | nextThread q =>
    obtain ⟨served, hn⟩ := apply_nextThread_ok ha
    obtain ⟨qs, -, ⟨-, -, he⟩ | ⟨r, -, -, -, he⟩⟩ := nextThread_effect h hn
    · exact ⟨_, he⟩
    · exact ⟨_, he⟩
  | releaseOwnership q => exact ⟨_, (releaseOwnership_effect h ha).2⟩
  | setPriority t p => exact ⟨_, (setPriority_effect h ha).2⟩
  | removeThread t => exact ⟨_, removeThread_effect h ha⟩

theorem Reachable.sound {p : Policy} {tb : Table} (h : Reachable p tb) :
    tb.policy = p ∧ Sound tb := by
  induction h with
  | empty g => exact ⟨rfl, empty_sound p g⟩
  | step op _ ha ih =>
    obtain ⟨hp, hs⟩ := ih
    obtain ⟨after, he⟩ := apply_effect hs ha
    exact ⟨he.precedes.policy.trans hp, he.sound⟩

/-- The table after a history that began with an empty one. -/
def ofOps (p : Policy) (g : Random) (ops : List Op) : Except Fault Table :=
  ops.foldlM apply (empty p g)

theorem reachable_foldlM {p : Policy} {ops : List Op} : ∀ {tb tb' : Table}, Reachable p tb →
    ops.foldlM apply tb = .ok tb' → Reachable p tb' := by
  induction ops with
  | nil =>
    intro tb tb' h hf
    cases hf
    exact h
  | cons op ops ih =>
    intro tb tb' h hf
    rw [List.foldlM_cons] at hf
    cases ha : tb.apply op with
    | error e =>
      rw [ha] at hf
      cases hf
    | ok tb₁ =>
      rw [ha] at hf
      exact ih (h.step op ha) hf

theorem reachable_ofOps {p : Policy} {g : Random} {ops : List Op} {tb : Table}
    (h : ofOps p g ops = .ok tb) : Reachable p tb := reachable_foldlM (.empty g) h

theorem exists_reachable {p : Policy} {g : Random} {ops : List Op} {ok : Table → Bool}
    (h : (ofOps p g ops).toOption.any ok = true) : ∃ tb, Reachable p tb ∧ ok tb = true := by
  cases hr : ofOps p g ops with
  | error e =>
    rw [hr] at h
    cases h
  | ok tb =>
    rw [hr] at h
    exact ⟨tb, reachable_ofOps hr, h⟩

theorem reachable_consistent {p : Policy} {tb : Table} (h : Reachable p tb) :
    tb.policy = p ∧ Consistent tb := ⟨h.sound.1, h.sound.2.consistent⟩

/-- Two threads that own a queue each and wait for each other's. -/
def crossedOps : List Op :=
  [.createQueue true, .createQueue true, .acquire ⟨0⟩ ⟨1⟩, .acquire ⟨1⟩ ⟨2⟩,
    .waitForAccess ⟨1⟩ ⟨1⟩, .waitForAccess ⟨0⟩ ⟨2⟩]

theorem reachable_consistent_crossed : ∃ tb,
    Reachable .priority tb ∧
    (tb.waitingQueue ⟨1⟩, tb.waitingQueue ⟨2⟩) = (some ⟨1⟩, some ⟨0⟩) ∧
    (tb.ownedQueues ⟨1⟩, tb.ownedQueues ⟨2⟩) = ([⟨0⟩], [⟨1⟩]) ∧
    tb.policy = .priority ∧ Consistent tb := by
  have hrun : (ofOps .priority .counting crossedOps).toOption.any (fun tb =>
      (tb.waitingQueue ⟨1⟩, tb.waitingQueue ⟨2⟩) = (some ⟨1⟩, some ⟨0⟩) ∧
        (tb.ownedQueues ⟨1⟩, tb.ownedQueues ⟨2⟩) = ([⟨0⟩], [⟨1⟩])) = true := by
    decide +kernel
  obtain ⟨tb, hr, hrun⟩ := exists_reachable hrun
  obtain ⟨hw, ho⟩ := of_decide_eq_true hrun
  exact ⟨tb, hr, hw, ho, reachable_consistent hr⟩

end ThreadKernel.Table
