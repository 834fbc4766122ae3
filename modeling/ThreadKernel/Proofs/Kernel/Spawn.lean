import ThreadKernel.Proofs.Kernel.Life
import ThreadKernel.Proofs.Table.Frame
import ThreadKernel.Proofs.Table.Silent

/-!
# ThreadKernel.Proofs.Kernel.Spawn

A spawn from beginning to end. It makes a queue, gives it to the new thread, and lets the thread
wait to be ready; no walk goes beyond its first thread. The table may have a state for the new
thread already, since any thread may be named before it exists. The thread begins with that state.

* `WaitRecord.Follows` — the place of the newest record of a wait set.
* `Table.giveUp`       — what is left to an owner that is about to wait on its own queue.
* `acquire_vacant`, `waitForAccess_silent_eq` — two operations that cannot fail.
* `Kernel.Introduces`  — all that a spawn changes.
* `Kernel.spawn_introduces`, `spawn_waiting` — a spawn succeeds unless the thread waits already.
-/

namespace ThreadKernel

/-- The record stands between `front` and `behind`: under priorities behind all that are at least as
heavy, in a lottery at the end. -/
def WaitRecord.Follows (p : Policy) (front behind : List WaitRecord) (r : WaitRecord) : Prop :=
  match p with
  | .priority => (∀ x ∈ front, r.weight ≤ x.weight) ∧ ∀ x ∈ behind, x.weight < r.weight
  | .lottery => behind = []

/-- The place of a record that arrived after all others. -/
theorem WaitSet.Ranked.insert_newest {p : Policy} {s : WaitSet} {r : WaitRecord}
    (h : Ranked p s) (hr : ∀ x ∈ s.records, x.arrival < r.arrival) :
    ∃ front behind, s.records = front ++ behind ∧ r.Follows p front behind ∧
      (s.insert p r).records = front ++ r :: behind := by
  refine ⟨s.records.takeWhile (staysBefore p r), s.records.dropWhile (staysBefore p r),
    List.takeWhile_append_dropWhile.symm, ?_, rfl⟩
  have hfront : ∀ x ∈ s.records.takeWhile (staysBefore p r), p.compare x r ≠ .gt := stays_takeWhile
  have hbehind := behind_dropWhile (r := r) h.sorted
  cases p with
  | priority =>
    refine ⟨fun x hx => ?_, fun x hx => ?_⟩
    · rcases Policy.compare_priority_ne_gt.1 (hfront x hx) with hlt | ⟨heq, -⟩
      · exact hlt.le
      · exact heq.le
    · have harrival := hr x ((List.dropWhile_sublist _).mem hx)
      by_contra hle
      refine Policy.compare_priority_ne_gt.2 ?_ (hbehind x hx)
      omega
  | lottery =>
    refine List.eq_nil_iff_forall_not_mem.2 fun x hx => ?_
    have harrival := hr x ((List.dropWhile_sublist _).mem hx)
    exact Policy.compare_lottery_ne_gt.2 harrival.le (hbehind x hx)

namespace Table

variable {tb : Table} {q : QueueId} {t : ThreadId} {qs : QueueState}

/-! ## A queue without owner and waiters -/

theorem combineDonations_concat {l : List QueueId} (hq : tb.queue? q = some qs) : ∀ {v w : Nat},
    tb.combineDonations v l = .ok w → tb.combineDonations v (l ++ [q]) =
      .ok (if qs.transfer then tb.policy.combine w (tb.policy.donation qs.waiters) else w) := by
  induction l with
  | nil =>
    intro v w h
    cases h
    simp only [List.nil_append, combineDonations, hq]
  | cons r l ih =>
    intro v w h
    simp only [combineDonations] at h
    simp only [List.cons_append, combineDonations]
    split at h
    · cases h
    · exact ih h

theorem donation_empty (p : Policy) : p.donation ∅ = 0 := by cases p <;> rfl

/-- A queue without waiters is worth nothing, so its new owner keeps its value. -/
theorem acquire_vacant {transfer : Bool} (h : Sound tb)
    (hq : tb.queue? q = some ⟨transfer, none, ∅⟩) (hw : tb.waitingQueue t = none) :
    tb.acquire q t = .ok (seize q t none tb) := by
  have hrelease : tb.releaseOwnership q = .ok tb := by simp only [releaseOwnership, hq]
  have hself : (seize q t none tb).state t =
      { tb.state t with waiting := none, acquired := (tb.state t).acquired ++ [q] } := by
    rw [state_seize, if_pos rfl]
  have hseized := queue?_seize (q := q) (t := t) h.linked hw q
  rw [if_pos rfl, hq] at hseized
  have hfree : q ∉ (tb.state t).acquired := fun hm => nomatch acquired_by_owner h.linked hq hm
  -- the old queues give what they gave, and the new one, without waiters, gives nothing
  have hvalue : (seize q t none tb).donatedValue t =
      .ok ((seize q t none tb).state t).effective := by
    have hrest : (seize q t none tb).combineDonations (tb.state t).base (tb.state t).acquired =
        .ok (tb.state t).effective := by
      rw [← h.settled.value t (by simp), donatedValue_eq]
      refine combineDonations_congr (policy_seize q t none tb) (fun r hr => ?_) _
      have hne : q ≠ r := fun e => hfree (e ▸ hr)
      simp only [gift, policy_seize, queue?_seize h.linked hw, if_neg hne]
    rw [donatedValue_eq, hself, combineDonations_concat hseized hrest]
    have hnone : (∅ : WaitSet).without t = ∅ := WaitSet.without_of_notMem List.not_mem_nil
    simp only [policy_seize, hnone, donation_empty,
      Policy.combine_zero ((h.settled.effective_le t).trans tb.policy.greatest_le), ite_self]
  have hknown : t ∈ (seize q t none tb).known := known_setThread.2 (.inl rfl)
  have hrefresh : (seize q t none tb).refresh t = .ok (seize q t none tb) := by
    rw [refresh_unchanged hvalue, ensure_of_mem hknown]
  simp only [acquire, hw, Option.filter_none, hrelease]
  exact hrefresh

theorem acquire_elsewhere {r : QueueId} (hw : tb.waitingQueue t = some r) (hne : r ≠ q) :
    tb.acquire q t = .error (.waitsElsewhere t r q) := by
  have hfilter : (some r).filter (· ≠ q) = some r := by simp [hne]
  simp only [acquire, hw, hfilter]

/-! ## A queue that does not transfer -/

/-- `t` gives the queue up, if it owns it. -/
def giveUp (q : QueueId) (t : ThreadId) (tb : Table) : Table :=
  if tb.links.owner q = some t then (disown q t tb).ensure t else tb

theorem state_giveUp (h : Linked tb) (u : ThreadId) : (giveUp q t tb).state u =
    if t = u then { tb.state u with acquired := (tb.state u).acquired.filter (· ≠ q) }
    else tb.state u := by
  have hothers : tb.links.owner q ≠ some u → (tb.state u).acquired.filter (· ≠ q) =
      (tb.state u).acquired := by
    intro hu
    refine filter_ne_eq_self fun hm => hu ?_
    obtain ⟨qs, hq, ho⟩ := h.owner_of_acquired hm
    simp [links, hq, ho]
  unfold giveUp
  split
  · rename_i ho
    obtain ⟨qs, hq, hown⟩ := Option.bind_eq_some_iff.1 ho
    rw [state_ensure, state_disown h hq hown]
    split
    · rfl
    · rename_i hne
      rw [hothers fun hu => hne (Option.some.inj (ho.symm.trans hu))]
  · rename_i ho
    split
    · rename_i htu
      subst htu
      rw [hothers ho]
    · rfl

theorem queue?_giveUp (r : QueueId) : (giveUp q t tb).queue? r =
    if q = r then (tb.queue? r).map fun qs =>
      { qs with owner := if qs.owner = some t then none else qs.owner }
    else tb.queue? r := by
  unfold giveUp
  split
  · rename_i ho
    obtain ⟨qs, hq, hown⟩ := Option.bind_eq_some_iff.1 ho
    rw [queue?_ensure, queue?_disown]
    split
    · rename_i hqr
      simp [← hqr, hq, hown]
    · rfl
  · rename_i ho
    split
    · rename_i hqr
      subst hqr
      cases hq : tb.queue? q with
      | none => rfl
      | some qs =>
        have hown : qs.owner ≠ some t := by simpa [links, hq] using ho
        simp [hown]
    · rfl

@[simp] theorem policy_giveUp : (giveUp q t tb).policy = tb.policy := by
  unfold giveUp
  split <;> simp

@[simp] theorem arrivals_giveUp : (giveUp q t tb).arrivals = tb.arrivals := by
  unfold giveUp
  split <;> simp

/-- Nobody's value depends on who owns or awaits such a queue. -/
theorem waitForAccess_silent_eq (h : Sound tb) (hq : Silent tb q) (hw : tb.waitingQueue t = none) :
    tb.waitForAccess q t = .ok (enqueue q t (giveUp q t tb)) := by
  obtain ⟨qs, hqs, hsilent⟩ := hq
  have howner : tb.links.owner q = qs.owner := by simp [links, hqs]
  have hgive : (if qs.owner = some t then tb.releaseOwnership q else .ok tb) =
      .ok (giveUp q t tb) := by
    rw [giveUp, howner]
    split
    · rename_i ho
      rw [← disown_silent h hqs hsilent ho]
      simp only [releaseOwnership, hqs, ho]
      rfl
    · rfl
  have hgiven : (giveUp q t tb).queue? q = _ := (queue?_giveUp q).trans (if_pos rfl)
  rw [hqs, Option.map_some] at hgiven
  have hbeneficiary : QueueState.beneficiary
      { qs with owner := if qs.owner = some t then none else qs.owner } = none := by
    simp [QueueState.beneficiary, hsilent]
  unfold waitForAccess
  simp only [hw, hqs, hgive]
  split
  · rename_i hnone
    have hnone : (giveUp q t tb).queue? q = none := hnone
    rw [hgiven] at hnone
    cases hnone
  · rename_i qs₁ hqs₁
    have hqs₁ : (giveUp q t tb).queue? q = some qs₁ := hqs₁
    rw [hgiven] at hqs₁
    cases hqs₁
    rw [hbeneficiary]
    rfl

end Table

namespace Kernel

open Table (enqueue giveUp seize)

variable {k k' : Kernel Activation} {q : QueueId} {name : String} {a : Activation}

/-- The thread that the next spawn makes. -/
def nextThreadId (k : Kernel Activation) : ThreadId := ⟨k.registry.nextNumber⟩

/-- The queue that the next spawn makes. -/
def nextQueueId (k : Kernel Activation) : QueueId := (k.table.createQueue true).1

/-- The table after a spawn. -/
def introduce (k : Kernel Activation) : Table :=
  let owning := seize k.nextQueueId k.nextThreadId none (k.table.createQueue true).2
  enqueue k.readyQueue k.nextThreadId (giveUp k.readyQueue k.nextThreadId owning)

/-- From `k` to `k'` a thread with the program `a` came to life. What the table had of it before it
keeps, apart from the ready queue. -/
structure Introduces (name : String) (a : Activation) (k k' : Kernel Activation) : Prop where
  slots : ∀ u, k'.registry.get? u = if k.nextThreadId = u then
    some (.created name a k.nextQueueId k.nextThreadId) else k.registry.get? u
  number : k'.registry.nextNumber = k.registry.nextNumber + 1
  level : k'.level = k.level
  state : k'.table.state k.nextThreadId =
    { k.table.state k.nextThreadId with
      acquired := (k.table.state k.nextThreadId).acquired.filter (· ≠ k.readyQueue) ++
        [k.nextQueueId]
      waiting := some k.readyQueue }
  others : ∀ u, u ≠ k.nextThreadId → k'.table.state u = k.table.state u
  joinQueue : k.table.queue? k.nextQueueId = none ∧
    k'.table.queue? k.nextQueueId = some ⟨true, some k.nextThreadId, ∅⟩
  queues : ∀ r, r ≠ k.nextQueueId → r ≠ k.readyQueue → k'.table.queue? r = k.table.queue? r
  ready : ∃ qs qs' front behind, k.table.queue? k.readyQueue = some qs ∧
    k'.table.queue? k.readyQueue = some qs' ∧ k.nextThreadId ∉ qs.waiters.threads ∧
    qs.waiters.records = front ++ behind ∧ qs'.waiters.records =
      front ++ ⟨k.nextThreadId, k.table.effective k.nextThreadId, k.table.arrivals⟩ :: behind ∧
    WaitRecord.Follows k.policy front behind
      ⟨k.nextThreadId, k.table.effective k.nextThreadId, k.table.arrivals⟩

/-- The thread owns its join queue, and the ready queue still does not transfer. -/
theorem seized (hs : k.table.Sound) (hready : k.table.Silent k.readyQueue)
    (hw : k.table.waitingQueue k.nextThreadId = none) :
    let tb := seize k.nextQueueId k.nextThreadId none (k.table.createQueue true).2
    (k.table.createQueue true).2.acquire k.nextQueueId k.nextThreadId = .ok tb ∧ tb.Sound ∧
      tb.Silent k.readyQueue ∧ tb.waitingQueue k.nextThreadId = none := by
  intro tb
  have he := Table.createQueue_effect hs true
  have hj := (Table.queue?_createQueue true k.table k.nextQueueId).trans (if_pos rfl)
  have hacquire : _ = Except.ok tb := Table.acquire_vacant (t := k.nextThreadId) he.sound hj hw
  obtain ⟨-, -, howned⟩ := Table.acquire_effect he.sound hacquire
  obtain ⟨qs, hqs, hsilent⟩ := hready
  have hcreated : (k.table.createQueue true).2.Silent k.readyQueue :=
    ⟨qs, Table.queue?_createQueue_of_some hqs, hsilent⟩
  refine ⟨hacquire, howned.sound, hcreated.effect howned rfl, ?_⟩
  rw [Table.waitingQueue, Table.state_seize, if_pos rfl]

/-- The thread gets the next number, which is free, whatever the table has of it. -/
theorem spawn_of_free (hfree : k.registry.get? k.nextThreadId = none) :
    k.spawn name a = ((k.table.createQueue true).2.acquire k.nextQueueId k.nextThreadId).bind
      fun tb => (tb.waitForAccess k.readyQueue k.nextThreadId).map fun tb =>
        (k.nextThreadId, { k with
          registry := { k.registry with
            slots := k.registry.slots.insert k.nextThreadId
              (.created name a k.nextQueueId k.nextThreadId)
            nextNumber := k.registry.nextNumber + 1 }
          table := tb }) := by
  unfold Kernel.spawn
  simp only [Registry.insert_of_free hfree, nextQueueId, nextThreadId]
  cases Table.acquire _ _ _ with
  | error e => rfl
  | ok tb =>
    cases hwait : tb.waitForAccess k.readyQueue ⟨k.registry.nextNumber⟩ <;>
      simp only [Except.bind, hwait, Except.map]

theorem spawn_eq (hs : k.table.Sound) (hready : k.table.Silent k.readyQueue)
    (hfree : k.registry.get? k.nextThreadId = none)
    (hw : k.table.waitingQueue k.nextThreadId = none) :
    k.spawn name a = .ok (k.nextThreadId, { k with
      registry := { k.registry with
        slots := k.registry.slots.insert k.nextThreadId
          (.created name a k.nextQueueId k.nextThreadId)
        nextNumber := k.registry.nextNumber + 1 }
      table := k.introduce }) := by
  obtain ⟨hacquire, hsound, hsilent, hwaiting⟩ := seized hs hready hw
  rw [spawn_of_free hfree, hacquire, Except.bind,
    Table.waitForAccess_silent_eq hsound hsilent hwaiting]
  rfl

/-- A thread that waits for something before it exists cannot come to own its join queue. -/
theorem spawn_waiting (hs : k.table.Sound) (hfree : k.registry.get? k.nextThreadId = none)
    (hw : k.table.waitingQueue k.nextThreadId = some q) :
    k.spawn name a = .error (.waitsElsewhere k.nextThreadId q k.nextQueueId) := by
  have hfresh : (k.table.createQueue true).2.waitingQueue k.nextThreadId ≠ some k.nextQueueId :=
    Table.createQueue_unwaited hs
  have hwaiting : (k.table.createQueue true).2.waitingQueue k.nextThreadId = some q := hw
  have hne : q ≠ k.nextQueueId := fun e => hfresh (hwaiting.trans (congrArg some e))
  rw [spawn_of_free hfree, Table.acquire_elsewhere hwaiting hne]
  rfl

/-! ## What a spawn changes -/

theorem nextQueueId_ne (hready : k.table.Silent k.readyQueue) : k.nextQueueId ≠ k.readyQueue := by
  intro he
  obtain ⟨qs, hqs, -⟩ := hready
  rw [← he, nextQueueId, Table.queue?_createQueue_fst] at hqs
  cases hqs

theorem state_introduce (hs : k.table.Sound) (hready : k.table.Silent k.readyQueue)
    (hw : k.table.waitingQueue k.nextThreadId = none) (u : ThreadId) :
    k.introduce.state u = if k.nextThreadId = u then
      { k.table.state u with
        acquired := (k.table.state u).acquired.filter (· ≠ k.readyQueue) ++ [k.nextQueueId]
        waiting := some k.readyQueue }
      else k.table.state u := by
  obtain ⟨-, hsound, -, -⟩ := seized hs hready hw
  rw [introduce, Table.state_enqueue, Table.state_giveUp hsound.linked, Table.state_seize,
    Table.state_createQueue]
  split
  · simp [nextQueueId_ne hready]
  · rfl

theorem queue?_introduce (hs : k.table.Sound) (hready : k.table.Silent k.readyQueue)
    (hw : k.table.waitingQueue k.nextThreadId = none) (r : QueueId) :
    k.introduce.queue? r = if k.nextQueueId = r then some ⟨true, some k.nextThreadId, ∅⟩
      else if k.readyQueue = r then (k.table.queue? r).map fun qs =>
        { qs with
          owner := if qs.owner = some k.nextThreadId then none else qs.owner
          waiters := qs.waiters.insert k.policy
            ⟨k.nextThreadId, k.table.effective k.nextThreadId, k.table.arrivals⟩ }
      else k.table.queue? r := by
  have hcreated := (Table.createQueue_effect hs true).sound.linked
  have hseized := Table.queue?_seize (q := k.nextQueueId) (t := k.nextThreadId) hcreated hw
  obtain ⟨-, hsound, -, -⟩ := seized hs hready hw
  by_cases hj : k.nextQueueId = r
  · subst hj
    have hnew := (Table.queue?_createQueue true k.table k.nextQueueId).trans (if_pos rfl)
    have hnone : (∅ : WaitSet).without k.nextThreadId = ∅ :=
      WaitSet.without_of_notMem List.not_mem_nil
    rw [introduce, Table.queue?_enqueue, if_neg (nextQueueId_ne hready).symm, Table.queue?_giveUp,
      if_neg (nextQueueId_ne hready).symm, hseized, if_pos rfl, if_pos rfl, hnew, Option.map_some,
      hnone]
  · have hold : (k.table.createQueue true).2.queue? r = k.table.queue? r :=
      (Table.queue?_createQueue true k.table r).trans (if_neg hj)
    have heffective : ((giveUp k.readyQueue k.nextThreadId (seize k.nextQueueId k.nextThreadId none
        (k.table.createQueue true).2)).state k.nextThreadId).effective =
        k.table.effective k.nextThreadId := by
      rw [Table.state_giveUp hsound.linked, if_pos rfl, Table.state_seize, if_pos rfl]
      rfl
    rw [introduce, Table.queue?_enqueue, Table.queue?_giveUp, hseized, if_neg hj, if_neg hj, hold,
      heffective, Table.arrivals_giveUp, Table.policy_giveUp]
    split
    · rw [Option.map_map]
      rfl
    · rfl

theorem spawn_introduces (name : String) (a : Activation) (hs : k.table.Sound)
    (hready : k.table.Silent k.readyQueue)
    (hfree : k.registry.get? k.nextThreadId = none)
    (hw : k.table.waitingQueue k.nextThreadId = none) :
    ∃ k', k.spawn name a = .ok (k.nextThreadId, k') ∧ Introduces name a k k' := by
  refine ⟨_, spawn_eq hs hready hfree hw, ?_⟩
  obtain ⟨qs, hqs, hsilent⟩ := id hready
  have hqueue := queue?_introduce hs hready hw
  have hne := nextQueueId_ne hready
  obtain ⟨front, behind, hsplit, hfollows, hinsert⟩ := (hs.linked.ranked hqs).insert_newest
    (r := ⟨k.nextThreadId, k.table.effective k.nextThreadId, k.table.arrivals⟩)
    fun x hx => hs.linked.arrival_lt hqs hx
  constructor
  · exact fun u => Directory.get?_insert _ _ _ _
  · rfl
  · rfl
  · exact (state_introduce hs hready hw _).trans (if_pos rfl)
  · exact fun u hu => (state_introduce hs hready hw u).trans (if_neg hu.symm)
  · exact ⟨Table.queue?_createQueue_fst true k.table, (hqueue _).trans (if_pos rfl)⟩
  · intro r hj hr
    exact (hqueue r).trans ((if_neg hj.symm).trans (if_neg hr.symm))
  · have hnew := hqueue k.readyQueue
    rw [if_neg hne, if_pos rfl, hqs] at hnew
    refine ⟨qs, _, front, behind, hqs, hnew, fun hm => ?_, hsplit, hinsert, hfollows⟩
    exact nomatch hw.symm.trans (hs.linked.waiting_iff.2 ⟨qs, hqs, hm⟩)

end Kernel
end ThreadKernel
