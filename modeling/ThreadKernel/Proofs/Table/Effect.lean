import ThreadKernel.Proofs.Table.Refresh
import Mathlib.Logic.Function.Basic

/-!
# ThreadKernel.Proofs.Table.Effect

What an operation of the table leaves behind.

An operation first changes links, which may make the effective value of one thread wrong, and then
walks from there. For each change of links there is a definition, its lookups, and the proof that
all values but one are right after it. The walk does the rest.

* `Table.Sound`         — linked, owned, and every value right.
* `Table.Effect`        — soundness, the new links, and old arrival numbers kept.
* `empty_sound`, `createQueue_effect` — the operations that need no walk.
-/

namespace ThreadKernel.Table

structure Sound (tb : Table) : Prop where
  linked : Linked tb
  owned : Owned tb
  settled : SettledBut none tb

/-- An operation on `tb` left a sound table with the given links. -/
structure Effect (tb : Table) (after : Links) (tb' : Table) : Prop where
  sound : Sound tb'
  links : tb'.links = after
  precedes : Precedes tb tb'

/-- A walk after a change of links ends the operation. -/
theorem Effect.of_refresh {tb tb₁ tb' : Table} {x : Option ThreadId} (hl : Linked tb₁)
    (ho : Owned tb₁) (hs : SettledBut x tb₁) (hp : Precedes tb tb₁)
    (hr : tb₁.refreshOption x = .ok tb') : Effect tb tb₁.links tb' := by
  obtain ⟨hsame, hl', hs'⟩ := refreshOption_spec hl hs hr
  exact ⟨⟨hl', hsame.owned ho, hs'⟩, hsame.links_eq, hp.trans hsame.precedes⟩

/-- A queue whose kind stays still exists. -/
theorem Effect.exists_queue {tb tb' : Table} {after : Links} {q : QueueId} (h : Effect tb after tb')
    (ht : after.transfer q = tb.links.transfer q) (hq : (tb.queue? q).isSome) :
    (tb'.queue? q).isSome := by
  have hs : (tb'.links.transfer q).isSome := by
    rw [h.links, ht]
    simpa [Table.links] using hq
  simpa [Table.links] using hs

/-- The values of a thread whose base value and acquired queues are as before, with gifts as before,
stay right. -/
theorem donatedValue_congr {tb tb' : Table} {t : ThreadId} (hp : tb'.policy = tb.policy)
    (hb : (tb'.state t).base = (tb.state t).base)
    (ha : (tb'.state t).acquired = (tb.state t).acquired)
    (hg : ∀ q ∈ (tb.state t).acquired, tb'.gift q = tb.gift q) :
    tb'.donatedValue t = tb.donatedValue t := by
  rw [donatedValue_eq, donatedValue_eq, hb, ha]
  exact combineDonations_congr hp hg _

theorem Linked.waiting_of_mem {tb : Table} (h : Linked tb) {q : QueueId} {qs : QueueState}
    {r : WaitRecord} (hq : tb.queue? q = some qs) (hr : r ∈ qs.waiters.records) :
    (tb.state r.thread).waiting = some q :=
  h.waiting_iff.2 ⟨qs, hq, WaitSet.mem_threads.2 ⟨r, hr, rfl⟩⟩

theorem filter_ne_eq_self {q : QueueId} {l : List QueueId} (h : q ∉ l) : l.filter (· ≠ q) = l :=
  List.filter_eq_self.2 fun r hr => by
    simpa using fun e : r = q => h (e ▸ hr)

/-- Nothing changes in the links if the queue has no owner. -/
theorem update_owner_none {tb : Table} {q : QueueId} (h : tb.links.owner q = none) :
    { tb.links with owner := Function.update tb.links.owner q none } = tb.links := by
  rw [← h, Function.update_eq_self]

theorem Effect.unchanged {tb : Table} (h : Sound tb) : Effect tb tb.links tb := ⟨h, rfl, .refl _⟩

/-! ## A new table and a new queue -/

theorem empty_sound (p : Policy) (g : Random) : Sound (empty p g) := by
  have hq : ∀ q, (empty p g).queue? q = none := fun q => Arena.get?_empty q.number
  have hs : ∀ t, (empty p g).state t = .initial p := fun t => by
    rw [state_of_absent (show (empty p g).threads.get? t = none from KeyMap.get?_empty t)]
    rfl
  have hb : p.bounds.initial ≤ p.bounds.greatest := by cases p <;> decide
  refine ⟨⟨?_, ?_, ?_, ?_, ?_, ?_, ?_, ?_⟩, ?_, ⟨?_, ?_, ?_, ?_⟩⟩ <;>
    simp [Owned, hq, hs, ThreadState.initial, donatedValue_eq, combineDonations] <;>
    exact hb

theorem state_createQueue (transfer : Bool) (tb : Table) (t : ThreadId) :
    (tb.createQueue transfer).2.state t = tb.state t := rfl

theorem queue?_createQueue (transfer : Bool) (tb : Table) (q : QueueId) :
    (tb.createQueue transfer).2.queue? q =
      if (tb.createQueue transfer).1 = q then some ⟨transfer, none, ∅⟩ else tb.queue? q := by
  have h := Arena.get?_insert tb.queues ⟨transfer, none, ∅⟩ q.number
  by_cases hq : (tb.createQueue transfer).1 = q
  · rw [if_pos hq]
    exact h.trans (if_pos (congrArg QueueId.number hq))
  · rw [if_neg hq]
    exact h.trans (if_neg fun e => hq (congrArg QueueId.mk e))

/-- The number of a new queue was free. -/
theorem queue?_createQueue_fst (transfer : Bool) (tb : Table) :
    tb.queue? (tb.createQueue transfer).1 = none := Arena.get?_insert_key _ _

section CreateQueue

variable {tb : Table} {transfer : Bool}

/-- A queue that has a record or an owner was there before. -/
theorem queue?_of_createQueue {r : QueueId} {rs : QueueState}
    (hr : (tb.createQueue transfer).2.queue? r = some rs)
    (hne : rs ≠ ⟨transfer, none, ∅⟩) : tb.queue? r = some rs := by
  rw [queue?_createQueue] at hr
  split at hr
  · exact absurd (Option.some.inj hr).symm hne
  · exact hr

theorem queue?_of_record {r : QueueId} {rs : QueueState} {x : WaitRecord}
    (hr : (tb.createQueue transfer).2.queue? r = some rs) (hx : x ∈ rs.waiters.records) :
    tb.queue? r = some rs :=
  queue?_of_createQueue hr fun e => by
    rw [e] at hx
    cases hx

theorem queue?_of_owner {r : QueueId} {rs : QueueState} {t : ThreadId}
    (hr : (tb.createQueue transfer).2.queue? r = some rs) (ho : rs.owner = some t) :
    tb.queue? r = some rs :=
  queue?_of_createQueue hr fun e => by
    rw [e] at ho
    cases ho

/-- A queue that was there before is as it was. -/
theorem queue?_createQueue_of_some {r : QueueId} {rs : QueueState} (hr : tb.queue? r = some rs) :
    (tb.createQueue transfer).2.queue? r = some rs := by
  rw [queue?_createQueue, if_neg, hr]
  rintro rfl
  rw [queue?_createQueue_fst] at hr
  cases hr

theorem createQueue_linked (h : Linked tb) : Linked (tb.createQueue transfer).2 := by
  constructor
  · intro r rs hr
    by_cases he : rs = ⟨transfer, none, ∅⟩
    · rw [he]
      exact WaitSet.ranked_empty _
    · exact h.ranked (queue?_of_createQueue hr he)
  · intro r rs hr
    by_cases he : rs = ⟨transfer, none, ∅⟩
    · rw [he]
      exact .nil
    · exact h.threads_nodup (queue?_of_createQueue hr he)
  · intro t r
    rw [state_createQueue, h.waiting_iff]
    constructor
    · rintro ⟨rs, hr, hm⟩
      exact ⟨rs, queue?_createQueue_of_some hr, hm⟩
    · rintro ⟨rs, hr, hm⟩
      obtain ⟨x, hx, -⟩ := WaitSet.mem_threads.1 hm
      exact ⟨rs, queue?_of_record hr hx, hm⟩
  · intro t r hr
    obtain ⟨rs, hrs, ho⟩ := h.owner_of_acquired hr
    exact ⟨rs, queue?_createQueue_of_some hrs, ho⟩
  · exact h.acquired_nodup
  · exact fun hr ho => h.owner_elsewhere (queue?_of_owner hr ho) ho
  · exact fun hr hx => h.arrival_lt (queue?_of_record hr hx) hx
  · exact fun hr hr' hx hx' =>
      h.arrival_inj (queue?_of_record hr hx) (queue?_of_record hr' hx') hx hx'

theorem createQueue_settled (h : Sound tb) : SettledBut none (tb.createQueue transfer).2 where
  weight hr hx := h.settled.weight (queue?_of_record hr hx) hx
  base_le := h.settled.base_le
  effective_le := h.settled.effective_le
  value t ht := by
    have hd : (tb.createQueue transfer).2.donatedValue t = tb.donatedValue t := by
      refine donatedValue_congr rfl rfl rfl fun r hr => ?_
      obtain ⟨rs, hrs, -⟩ := h.linked.owner_of_acquired hr
      rw [gift, gift, queue?_createQueue_of_some hrs, hrs]
      rfl
    rw [hd]
    exact h.settled.value t ht

theorem createQueue_links (transfer : Bool) (tb : Table) :
    (tb.createQueue transfer).2.links =
      { tb.links with
        transfer := Function.update tb.links.transfer (tb.createQueue transfer).1 (some transfer) }
    := by
  have hlook := queue?_createQueue transfer tb
  ext r : 2
  · rfl
  · rfl
  · simp only [links, hlook]
    split
    · rename_i hqr
      simp [← hqr, queue?_createQueue_fst]
    · rfl
  · simp only [links, hlook, Function.update_apply, eq_comm (a := r)]
    split <;> rfl

theorem createQueue_effect (h : Sound tb) (transfer : Bool) :
    Effect tb
      { tb.links with
        transfer := Function.update tb.links.transfer (tb.createQueue transfer).1 (some transfer) }
      (tb.createQueue transfer).2 := by
  have hsound : Sound (tb.createQueue transfer).2 :=
    ⟨createQueue_linked h.linked, fun hr ho => h.owned (queue?_of_owner hr ho) ho,
      createQueue_settled h⟩
  refine ⟨hsound, createQueue_links transfer tb, rfl, Nat.le_refl _, ?_⟩
  rintro r t a ⟨rs, hr, hm⟩
  obtain ⟨x, hx, -, -⟩ := WaitSet.mem_entries.1 hm
  exact .inl ⟨rs, queue?_of_record hr hx, hm⟩

/-- Nobody waits on a new queue. -/
theorem createQueue_unwaited (h : Sound tb) {t : ThreadId} :
    (tb.createQueue transfer).2.waitingQueue t ≠ some (tb.createQueue transfer).1 := by
  intro hw
  obtain ⟨qs, hqs, -⟩ := h.linked.waiting_iff.1 (show (tb.state t).waiting = _ from hw)
  rw [queue?_createQueue_fst] at hqs
  cases hqs

end CreateQueue

end ThreadKernel.Table
