import ThreadKernel.Proofs.Kernel.Faults
import ThreadKernel.Proofs.Kernel.Serve

/-!
# ThreadKernel.Proofs.Kernel.Tenure

Who holds a queue. A thread that owns a transferring queue keeps it through every call that is about
other queues and other threads.

* `Op.Reassigns`    — the operations of the table that may take a queue from its owner.
* `Kernel.Holds`    — a thread owns a queue, and those who wait there donate to it.
* `Holds.apply`     — it does so after every other operation; then for each call of the kernel.
* `Holds.donates`   — what its waiters are worth to it.
* `Kernel.Settles`  — who is alive after a call, and what a new thread owns.
-/

namespace ThreadKernel

open Kernel (Passes Sane)

namespace Table

variable {tb tb' : Table} {q : QueueId} {t : ThreadId} {op : Op}

/-- The operation may take `q` from its owner `t`. -/
def Op.Reassigns (q : QueueId) (t : ThreadId) : Op → Prop
  | .destroyQueue r | .acquire r _ | .nextThread r | .releaseOwnership r => r = q
  | .waitForAccess r u => r = q ∧ u = t
  | .removeThread u => u = t
  | .createQueue _ | .setPriority _ _ => False

theorem queue?_of_links_owner (h : tb.links.owner q = some t) :
    ∃ qs, tb.queue? q = some qs ∧ qs.owner = some t :=
  Option.bind_eq_some_iff.1 h

/-- A new queue is none that somebody owns. -/
theorem createQueue_ne_of_owner (transfer : Bool) (h : tb.links.owner q = some t) :
    q ≠ (tb.createQueue transfer).1 := by
  rintro rfl
  obtain ⟨qs, hqs, -⟩ := queue?_of_links_owner h
  rw [queue?_createQueue_fst] at hqs
  cases hqs

theorem apply_owner (h : tb.Sound) (ha : tb.apply op = .ok tb') (hop : ¬ op.Reassigns q t)
    (ho : tb.links.owner q = some t) :
    tb'.links.owner q = some t ∧ tb'.links.transfer q = tb.links.transfer q := by
  cases op with
  | createQueue transfer =>
    cases ha
    have hne := createQueue_ne_of_owner transfer ho
    rw [(createQueue_effect h transfer).links]
    exact ⟨ho, Function.update_of_ne hne _ _⟩
  | destroyQueue r =>
    have hne : q ≠ r := fun e => hop e.symm
    rw [(destroyQueue_effect h ha).links]
    exact ⟨(Function.update_of_ne hne _ _).trans ho, Function.update_of_ne hne _ _⟩
  | waitForAccess r u =>
    obtain ⟨-, -, he⟩ := waitForAccess_effect h ha
    rw [he.links]
    refine ⟨?_, rfl⟩
    show (if tb.links.owner r = some u then Function.update tb.links.owner r none
      else tb.links.owner) q = _
    split
    · rename_i hu
      refine (Function.update_of_ne ?_ _ _).trans ho
      rintro rfl
      rw [ho] at hu
      exact hop ⟨rfl, (Option.some.inj hu).symm⟩
    · exact ho
  | acquire r u =>
    have hne : q ≠ r := fun e => hop e.symm
    obtain ⟨-, -, he⟩ := acquire_effect h ha
    rw [he.links]
    exact ⟨(Function.update_of_ne hne _ _).trans ho, rfl⟩
  | nextThread r =>
    have hne : q ≠ r := fun e => hop e.symm
    obtain ⟨⟨served, tb''⟩, hn, rfl⟩ : ∃ x, tb.nextThread r = .ok x ∧ tb' = x.2 := by
      rw [apply] at ha
      cases hn : tb.nextThread r with
      | error e =>
        rw [hn] at ha
        cases ha
      | ok x =>
        rw [hn] at ha
        exact ⟨x, rfl, (Except.ok.inj ha).symm⟩
    obtain ⟨qs, -, ⟨-, -, he⟩ | ⟨x, -, -, -, he⟩⟩ := nextThread_effect h hn
    all_goals
      rw [he.links]
      exact ⟨(Function.update_of_ne hne _ _).trans ho, rfl⟩
  | releaseOwnership r =>
    have hne : q ≠ r := fun e => hop e.symm
    obtain ⟨-, he⟩ := releaseOwnership_effect h ha
    rw [he.links]
    exact ⟨(Function.update_of_ne hne _ _).trans ho, rfl⟩
  | setPriority u p =>
    obtain ⟨-, he⟩ := setPriority_effect h ha
    rw [he.links]
    exact ⟨ho, rfl⟩
  | removeThread u =>
    have he := removeThread_effect h ha
    rw [he.links]
    refine ⟨?_, rfl⟩
    show (if tb.links.owner q = some u then none else tb.links.owner q) = some t
    rw [ho, if_neg fun e => hop (Option.some.inj e).symm]

end Table

namespace Kernel

variable {k k' : Kernel Activation} {q r : QueueId} {t u : ThreadId}

/-- The thread owns the queue, and those who wait there donate to it. -/
structure Holds (t : ThreadId) (q : QueueId) (k : Kernel Activation) : Prop where
  owner : k.table.links.owner q = some t
  transfer : k.table.links.transfer q = some true

theorem Holds.congr (h : Holds t q k) (ht : k'.table = k.table) : Holds t q k' :=
  ⟨ht ▸ h.owner, ht ▸ h.transfer⟩

theorem Holds.unique (h : Holds t q k) (h' : Holds u q k) : t = u :=
  Option.some.inj (h.owner.symm.trans h'.owner)

theorem Holds.queue (h : Holds t q k) :
    ∃ qs, k.table.queue? q = some qs ∧ qs.transfer = true ∧ qs.owner = some t := by
  obtain ⟨qs, hqs, ho⟩ := Table.queue?_of_links_owner h.owner
  refine ⟨qs, hqs, ?_, ho⟩
  have htransfer := h.transfer
  simpa [Table.links, hqs] using htransfer

/-- Whoever waits on the queue donates to its owner, once. -/
theorem Holds.donates (h : Holds t q k) (hs : k.table.Sound)
    (hw : k.table.waitingQueue u = some q) :
    u ∈ k.table.directDonors t ∧ (k.table.directDonors t).Nodup := by
  obtain ⟨qs, hqs, htransfer, ho⟩ := h.queue
  exact ⟨(Table.mem_directDonors hs.linked).2 ⟨q, qs, hw, hqs, htransfer, ho⟩,
    Table.directDonors_nodup hs.linked t⟩

theorem Holds.apply (h : Holds t q k) (op : Table.Op) (hs : k.table.Sound)
    (hop : ¬ op.Reassigns q t) (ha : k.withTable (k.table.apply op) = .ok k') : Holds t q k' := by
  obtain ⟨tb, htb, rfl⟩ := withTable_ok ha
  obtain ⟨ho, htransfer⟩ := Table.apply_owner hs htb hop h.owner
  exact ⟨ho, htransfer.trans h.transfer⟩

/-! ## Calls of the kernel -/

theorem Holds.createQueue (h : Holds t q k) (hs : k.table.Sound) (transfer : Bool) :
    Holds t q (k.createQueue transfer).2 :=
  h.apply (.createQueue transfer) hs id rfl

theorem Holds.waitForAccess (h : Holds t q k) (hs : k.table.Sound) (hr : r ≠ q)
    (hw : k.waitForAccess r u = .ok k') : Holds t q k' :=
  h.apply (.waitForAccess r u) hs (fun e => hr e.1) (atomically_ok hw)

theorem Holds.nextThread {served : Option ThreadId} (h : Holds t q k) (hs : k.table.Sound)
    (hr : r ≠ q) (hn : k.nextThread r = .ok (served, k')) : Holds t q k' := by
  obtain ⟨tb, htb, rfl⟩ := nextThread_ok hn
  exact h.apply (.nextThread r) hs hr (by rw [Table.apply, htb]; rfl)

theorem Holds.markReady (h : Holds t q k) (hk : k.Sane) (hm : k.markReady u = .ok k') :
    Holds t q k' := h.congr (markReady_registry hk hm).1

theorem Holds.passes {served : Option ThreadId} (h : Holds t q k) (hk : k.Sane) (hr : r ≠ q)
    (hp : Passes r k served k') : Holds t q k' := by
  have henter : Holds t q k.enter := h.congr rfl
  cases hp with
  | nobody next => exact (henter.nextThread hk.sound hr next).congr rfl
  | waiter next ready =>
    have hnext := henter.nextThread hk.sound hr next
    exact (hnext.markReady ((nextThread_steady next).sane hk.entered) ready).congr rfl

theorem Holds.handOverAll (h : Holds t q k) (hk : k.Sane) (hr : r ≠ q)
    (hh : k.handOverAll r = .ok k') : Holds t q k' := by
  replace hh := handOverAll_goesRound hh
  induction hh with
  | stops => exact h
  | nobody next => exact h.nextThread hk.sound hr next
  | turn next ready _ ih =>
    have hk₁ := (nextThread_steady next).sane hk
    have hheld := (h.nextThread hk.sound hr next).markReady hk₁ ready
    exact ih hheld ((markReady_steady ready).sane hk₁)

theorem Holds.wakeEach (l : List Sleeper) {k : Kernel Activation} (h : Holds t q k) (hk : k.Sane)
    (hw : Alarm.wakeEach l k = .ok k') : Holds t q k' := by
  replace hw := Alarm.wakeEach_ok hw
  induction hw with
  | nobody => exact h
  | wakes ready _ ih => exact ih (h.markReady hk ready) ((markReady_steady ready).sane hk)

theorem Holds.admitEach (l : List ThreadId) {k : Kernel Activation} (h : Holds t q k) (hk : k.Sane)
    (hq : k.readyQueue ≠ q) (ha : admitEach l k = .ok k') : Holds t q k' := by
  replace ha := admitEach_ok ha
  induction ha with
  | nobody => exact h
  | gone _ _ ih | waits _ _ ih => exact ih h hk hq
  | @comes u _ k _ _ _ wait _ ih =>
    have hsteady := apply_steady (.waitForAccess k.readyQueue u) wait
    exact ih (h.apply (.waitForAccess k.readyQueue u) hk.sound (fun e => hq e.1) wait)
      (hsteady.sane hk) (hsteady.ready ▸ hq)

theorem Holds.choose {served : Option ThreadId} (h : Holds t q k) (hk : k.Sane)
    (hq : k.readyQueue ≠ q) (hc : k.chooseThread = .ok (served, k')) : Holds t q k' := by
  obtain ⟨k₁, k₂, hadm, hnext, rfl⟩ := chooseThread_cases hc
  have hsteady := admitWoken_steady hadm
  unfold admitWoken Registry.drain at hadm
  have hdrained : Sane { k.enter with registry := { k.enter.registry with channel := [] } } :=
    ⟨hk.sound, hk.waker, hk.signal⟩
  have hheld : Holds t q { k.enter with registry := { k.enter.registry with channel := [] } } :=
    h.congr rfl
  have hk₁ : Holds t q k₁ := hheld.admitEach _ hdrained hq hadm
  exact (hk₁.nextThread (hsteady.sane hk.entered).sound (hsteady.ready ▸ hq) hnext).congr rfl

/-! ## Threads that come and go -/

variable {slot : Slot Activation}

theorem Spawned.holds (h : Spawned t slot k k') (hq : slot.joinQueue ≠ k.readyQueue) :
    Holds t slot.joinQueue k' :=
  ⟨h.owner hq (Function.update_self _ _ _), by rw [h.transfer, Function.update_self]⟩

theorem Holds.spawn (h : Holds t q k) (hs : Spawned u slot k k') (hq : k.readyQueue ≠ q) :
    Holds t q k' := by
  have hne : q ≠ slot.joinQueue := by
    rintro rfl
    exact nomatch hs.queue.symm.trans h.transfer
  refine ⟨hs.owner_of_ne hne hq.symm h.owner, ?_⟩
  rw [hs.transfer, Function.update_of_ne hne]
  exact h.transfer

/-- The departure of another thread. -/
theorem Holds.depart (h : Holds t q k) (hd : Departed u r k k') (hr : r ≠ q)
    (hq : k.readyQueue ≠ q) (hu : u ≠ t) : Holds t q k' :=
  ⟨hd.owner q t hr.symm hq.symm hu.symm h.owner, (hd.transfer q hr.symm).trans h.transfer⟩

/-- A retirement hands the join queue over, after which the thread departs. -/
theorem retire_departed (h : k.retire t = .ok k') (hk : k.Sane) :
    ∃ slot k₁, k.registry.get? t = some slot ∧ k.enter.handOverAll slot.joinQueue = .ok k₁ ∧
      k₁.readyQueue = k.readyQueue ∧ Departed t slot.joinQueue k₁ k' := by
  obtain ⟨slot, k₁, k₂, k₃, k₄, hslot, h₁, h₂, h₃, h₄, rfl⟩ := retire_ok h
  have hsteady := handOverAll_steady h₁
  exact ⟨slot, k₁, hslot, h₁, hsteady.ready,
    departed k.level (hsteady.sane hk.entered).sound h₂ h₃ h₄⟩

theorem Holds.retire (h : Holds t q k) (hk : k.Sane) (hq : k.readyQueue ≠ q) (hu : u ≠ t)
    (hj : ∀ slot, k.registry.get? u = some slot → slot.joinQueue ≠ q)
    (hr : k.retire u = .ok k') : Holds t q k' := by
  obtain ⟨slot, k₁, hslot, h₁, hready, hdeparted⟩ := retire_departed hr hk
  have henter : Holds t q k.enter := h.congr rfl
  have hk₁ : Holds t q k₁ := henter.handOverAll hk.entered (hj slot hslot) h₁
  exact hk₁.depart hdeparted (hj slot hslot) (hready ▸ hq) hu

/-! ## Who is alive -/

/-- Whoever is alive was alive before, with the same join queue. -/
structure Retains (k k' : Kernel Activation) : Prop where
  number : k'.registry.nextNumber = k.registry.nextNumber
  slot : ∀ {t slot'}, k'.registry.get? t = some slot' →
    ∃ slot, k.registry.get? t = some slot ∧ slot.joinQueue = slot'.joinQueue

theorem Retains.of_registry (h : k'.registry = k.registry) : Retains k k' :=
  ⟨congrArg Registry.nextNumber h, fun {_ slot'} hs => ⟨slot', h ▸ hs, rfl⟩⟩

theorem Retains.trans {k'' : Kernel Activation} (h : Retains k k') (h' : Retains k' k'') :
    Retains k k'' := by
  refine ⟨h'.number.trans h.number, fun hs => ?_⟩
  obtain ⟨slot', hs', hj'⟩ := h'.slot hs
  obtain ⟨slot, hs, hj⟩ := h.slot hs'
  exact ⟨slot, hs, hj.trans hj'⟩

/-- Numbers are given to new threads only. -/
theorem Steady.retains (h : Steady k k')
    (hn : k'.registry.nextNumber = k.registry.nextNumber) : Retains k k' := by
  refine ⟨hn, fun {t slot'} hs => ?_⟩
  cases hslot : k.registry.get? t with
  | some slot =>
    obtain ⟨signal, hs'⟩ := h.slot hslot
    cases hs.symm.trans hs'
    exact ⟨slot, rfl, rfl⟩
  | none =>
    obtain ⟨hold, hnew⟩ := h.newer hs hslot
    omega

theorem markReady_retains (h : k.markReady t = .ok k') : Retains k k' := by
  refine (markReady_steady h).retains ?_
  obtain ⟨-, slot, -, rfl⟩ := markReady_ok h
  rfl

theorem apply_retains (op : Table.Op) (h : k.withTable (k.table.apply op) = .ok k') :
    Retains k k' := by
  obtain ⟨tb, -, rfl⟩ := withTable_ok h
  exact .of_registry rfl

theorem nextThread_retains {served : Option ThreadId} (h : k.nextThread q = .ok (served, k')) :
    Retains k k' := by
  obtain ⟨tb, -, rfl⟩ := nextThread_ok h
  exact .of_registry rfl

theorem pollPoint_retains {p p' : YieldPoint} {ready : Bool}
    (h : k.pollPoint t p = (ready, p', k')) : Retains k k' := by
  refine (pollPoint_steady h).retains ?_
  unfold Kernel.pollPoint at h
  split at h <;>
    · cases h
      rfl

theorem wakeEach_retains (l : List Sleeper) {k : Kernel Activation}
    (h : Alarm.wakeEach l k = .ok k') : Retains k k' := by
  replace h := Alarm.wakeEach_ok h
  induction h with
  | nobody => exact .of_registry rfl
  | wakes ready _ ih => exact (markReady_retains ready).trans ih

theorem admitEach_retains (l : List ThreadId) {k : Kernel Activation}
    (h : Kernel.admitEach l k = .ok k') : Retains k k' := by
  replace h := admitEach_ok h
  induction h with
  | nobody => exact .of_registry rfl
  | gone _ _ ih | waits _ _ ih => exact ih
  | @comes u _ k _ _ _ wait _ ih =>
    exact (apply_retains (.waitForAccess k.readyQueue u) wait).trans ih

theorem handOverAll_retains (h : k.handOverAll q = .ok k') : Retains k k' := by
  replace h := handOverAll_goesRound h
  induction h with
  | stops => exact .of_registry rfl
  | nobody next => exact nextThread_retains next
  | turn next ready _ ih =>
    exact ((nextThread_retains next).trans (markReady_retains ready)).trans ih

theorem Passes.retains {served : Option ThreadId} (h : Passes q k served k') : Retains k k' := by
  cases h with
  | nobody next => exact ⟨(nextThread_retains next).number, (nextThread_retains next).slot⟩
  | waiter next ready =>
    have hretains := (nextThread_retains next).trans (markReady_retains ready)
    exact ⟨hretains.number, hretains.slot⟩

theorem releaseReady_retains (h : k.releaseReady t = .ok k') : Retains k k' := by
  rcases releaseReady_cases h with ⟨-, h⟩ | rfl
  · exact apply_retains (.releaseOwnership k.readyQueue) h
  · exact .of_registry rfl

theorem retire_retains (h : k.retire t = .ok k') : Retains k k' := by
  obtain ⟨slot, k₁, k₂, k₃, k₄, -, h₁, h₂, h₃, h₄, rfl⟩ := retire_ok h
  have hqueue := (handOverAll_retains h₁).trans (apply_retains (.destroyQueue slot.joinQueue) h₂)
  have hall := hqueue.trans
    ((releaseReady_retains h₃).trans (apply_retains (.removeThread t) h₄))
  refine ⟨hall.number, fun {u slot'} hs => hall.slot (t := u) ?_⟩
  have hs : (k₄.registry.slots.erase t).get? u = some slot' := hs
  rw [Directory.get?_erase] at hs
  split at hs
  · cases hs
  · exact hs

theorem chooseThread_retains {served : Option ThreadId} (h : k.chooseThread = .ok (served, k')) :
    Retains k k' := by
  obtain ⟨k₁, k₂, hadm, hnext, rfl⟩ := chooseThread_cases h
  unfold admitWoken Registry.drain at hadm
  have hall := (admitEach_retains _ hadm).trans (nextThread_retains hnext)
  exact ⟨hall.number, hall.slot⟩

/-- Whoever is alive was alive before, or has a new number, owns its join queue, and nobody waits
there. -/
structure Settles (k k' : Kernel Activation) : Prop where
  number : k.registry.nextNumber ≤ k'.registry.nextNumber
  slot : ∀ {t slot'}, k'.registry.get? t = some slot' →
    (∃ slot, k.registry.get? t = some slot ∧ slot.joinQueue = slot'.joinQueue) ∨
      k.registry.nextNumber ≤ t.number ∧ t.number < k'.registry.nextNumber ∧
        (slot'.joinQueue ≠ k'.readyQueue →
          Holds t slot'.joinQueue k' ∧ ∀ u, k'.table.waitingQueue u ≠ some slot'.joinQueue)

theorem Retains.settles (h : Retains k k') : Settles k k' :=
  ⟨h.number.ge, fun hs => .inl (h.slot hs)⟩

theorem Settles.restore (h : Settles k k') (level : Level) : Settles k (k'.restore level) := by
  refine ⟨h.number, fun hs => ?_⟩
  rcases h.slot hs with hold | ⟨hold, hnew, hown⟩
  · exact .inl hold
  · exact .inr ⟨hold, hnew, fun hq => ⟨(hown hq).1.congr rfl, (hown hq).2⟩⟩

theorem Spawned.settles (h : Spawned t slot k k') (hk : k.table.Sound) : Settles k k' := by
  refine ⟨h.number ▸ Nat.le_succ _, fun {u slot'} hs => ?_⟩
  rcases h.back hs with ⟨rfl, rfl⟩ | ⟨-, hs⟩
  · refine .inr ⟨h.thread ▸ Nat.le_refl _, ?_, fun hq => ?_⟩
    · rw [h.number, h.thread]
      exact Nat.lt_succ_self _
    · rw [h.later.ready] at hq
      refine ⟨h.holds hq, fun v hv => ?_⟩
      have hv : k'.table.links.waiting v = some slot'.joinQueue := hv
      rw [h.waiting, update_waiting] at hv
      rcases hv with ⟨-, hready⟩ | ⟨hv, -⟩
      · exact hq (Option.some.inj hready).symm
      · -- the queue did not exist, so nobody can have waited there
        obtain ⟨qs, hqs, -⟩ := hk.linked.waiting_iff.1 hv
        have hqueue := h.queue
        simp [Table.links, hqs] at hqueue
  · exact .inl ⟨slot', hs, rfl⟩

end Kernel
end ThreadKernel
