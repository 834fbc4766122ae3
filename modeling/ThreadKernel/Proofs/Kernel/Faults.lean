import ThreadKernel.Proofs.Kernel.Primitives
import ThreadKernel.Proofs.Kernel.Steady
import ThreadKernel.Proofs.Table.Propagation

/-!
# ThreadKernel.Proofs.Kernel.Faults

What a call of the kernel can fail with while every thread is where it should be. What the kernel
does on its own account fails in cycles of owners only, and what takes away does not fail at all.

* `Wakeable`              — whoever waits on the queue can be made ready.
* `Wakeable.exists_handOverAll` — so a queue can be handed over to all that wait.
* `exists_retire`         — so the owner of the queue can retire.
* `Placed.spawn_cyclic`, `Placed.exists_finish`, `Placed.chooseThread_cyclic` — the run loop.
* `Placed.request_error`, `Placed.release_error`, `Placed.wake_error`, … — locks and conditions.
-/

namespace ThreadKernel

namespace Kernel

variable {uses : List Use} {asleep : ThreadId → Nat} {x : Option ThreadId}
  {run : Option (ThreadId × Posture)} {k k' : Kernel Activation} {q : QueueId} {t : ThreadId}
  {f : Fault} {operation : String}

theorem atomically_eq {α : Type} {g : Kernel Activation → Except Fault α}
    (h : k.level = .disabled) : k.atomically operation g = g k := by
  unfold atomically requireAtomic inAtomic
  rw [h]
  rfl

theorem withTable_error {r : Except Fault Table} (h : k.withTable r = .error f) : r = .error f := by
  unfold withTable at h
  split at h
  · cases h
    rfl
  · cases h

theorem exists_queue_of_kind {b : Bool} (h : k.table.links.transfer q = some b) :
    (k.table.queue? q).isSome := by
  cases hq : k.table.queue? q with
  | some qs => rfl
  | none => simp [Table.links, hq] at h

theorem exists_numWaiters (h : (k.table.queue? q).isSome) : ∃ n, k.numWaiters q = .ok n := by
  obtain ⟨qs, hqs⟩ := Option.isSome_iff_exists.1 h
  rw [numWaiters, Table.numWaiters, Table.queue, hqs]
  exact ⟨_, rfl⟩

theorem Layout.exists_use (h : Layout uses k) {u : Use} (hu : u ∈ uses) :
    (k.table.queue? u.queue).isSome := exists_queue_of_kind (h.use_kind u hu)

theorem Layout.exists_ready (h : Layout uses k) : (k.table.queue? k.readyQueue).isSome :=
  exists_queue_of_kind h.ready_kind

theorem Layout.exists_join (h : Layout uses k) {slot : Slot Activation}
    (hs : k.registry.get? t = some slot) : (k.table.queue? slot.joinQueue).isSome :=
  exists_queue_of_kind (h.join_kind hs)

/-! ## Wakes -/

theorem contains_of_get? {slot : Slot Activation} (h : k.registry.get? t = some slot) :
    k.registry.contains t = true := by
  rw [Registry.contains_eq_isSome, h]
  rfl

/-- A wake fails only on a thread that runs, or does not exist. -/
theorem exists_markReady (hl : k.level = .disabled) (ha : (k.registry.get? t).isSome)
    (hc : k.registry.current ≠ some t) : ∃ k', k.markReady t = .ok k' := by
  obtain ⟨slot, hslot⟩ := Option.isSome_iff_exists.1 ha
  unfold markReady
  rw [atomically_eq hl, if_neg hc]
  simp only [hslot]
  exact ⟨_, rfl⟩

/-- The kernel is inside the atomic region, and whoever waits on the queue can be made ready. -/
structure Wakeable (q : QueueId) (k : Kernel Activation) : Prop where
  level : k.level = .disabled
  sound : k.table.Sound
  queue : (k.table.queue? q).isSome
  waiter : ∀ t, k.table.waitingQueue t = some q →
    (k.registry.get? t).isSome ∧ k.registry.current ≠ some t

theorem Situated.wakeable (h : Situated uses asleep x k) (hq : (k.table.queue? q).isSome)
    (hc : ∀ t, k.registry.current = some t → k.table.waitingQueue t ≠ some q) :
    Wakeable q k.enter := by
  refine ⟨rfl, h.sound, hq, fun t hw => ⟨?_, fun ht => hc t ht hw⟩⟩
  cases hs : k.registry.get? t with
  | some slot => exact hs ▸ rfl
  | none =>
    have hnone := (h.absent hs).waiting
    exact nomatch hnone.symm.trans hw

theorem Placed.wakeable (h : Placed uses asleep run k) (hx : Executing run)
    (hq : (k.table.queue? q).isSome) : Wakeable q k.enter := by
  refine h.1.wakeable hq fun t ht hw => ?_
  have hrun := h.current hx ht
  have hnone := (h.nowhere hx t (by rw [hrun]; rfl)).waiting
  exact nomatch hnone.symm.trans hw

theorem exists_nextThread (hl : k.level = .disabled) (hs : k.table.Sound)
    (hq : (k.table.queue? q).isSome) : ∃ served k', k.nextThread q = .ok (served, k') := by
  obtain ⟨⟨served, tb⟩, htb⟩ := Table.exists_nextThread hs hq
  exact ⟨served, { k with table := tb }, by rw [nextThread, atomically_eq hl, htb]⟩

theorem nextThread_transfer {served : Option ThreadId} (hs : k.table.Sound)
    (h : k.nextThread q = .ok (served, k')) :
    k'.table.links.transfer = k.table.links.transfer := by
  obtain ⟨tb, htb, rfl⟩ := nextThread_ok h
  obtain ⟨_, _, ⟨-, -, he⟩ | ⟨_, -, -, -, he⟩⟩ := Table.nextThread_effect hs htb
  all_goals
    show tb.links.transfer = _
    rw [he.links]

/-- A queue that was handed over is the waiter's, who can be made ready. -/
theorem Wakeable.next (h : Wakeable q k) {served : Option ThreadId}
    (hn : k.nextThread q = .ok (served, k')) :
    Wakeable q k' ∧ ∀ t, served = some t →
      (k'.registry.get? t).isSome ∧ k'.registry.current ≠ some t := by
  obtain ⟨tb, htb, rfl⟩ := nextThread_ok hn
  obtain ⟨qs, hqs, ⟨rfl, -, he⟩ | ⟨r, rfl, hmem, -, he⟩⟩ := Table.nextThread_effect h.sound htb
  · refine ⟨⟨h.level, he.sound, he.exists_queue rfl h.queue, fun t hw => h.waiter t ?_⟩, by simp⟩
    exact (congrFun (congrArg Table.Links.waiting he.links) t).symm.trans hw
  · have hr := h.waiter r.thread (h.sound.linked.waiting_of_mem hqs hmem)
    refine ⟨⟨h.level, he.sound, he.exists_queue rfl h.queue, fun t hw => h.waiter t ?_⟩, ?_⟩
    · have hw' := (congrFun (congrArg Table.Links.waiting he.links) t).symm.trans hw
      simp only [Function.update_apply] at hw'
      split at hw'
      · cases hw'
      · exact hw'
    · rintro t ⟨⟩
      exact hr

theorem Wakeable.wake (h : Wakeable q k) (hm : k.markReady t = .ok k') : Wakeable q k' := by
  have hs := markReady_steady hm
  obtain ⟨-, slot, -, rfl⟩ := markReady_ok hm
  refine ⟨h.level, h.sound, h.queue, fun u hw => ?_⟩
  obtain ⟨ha, hc⟩ := h.waiter u hw
  obtain ⟨slot', hslot⟩ := Option.isSome_iff_exists.1 ha
  obtain ⟨signal, hslot'⟩ := hs.slot hslot
  exact ⟨by rw [hslot']; rfl, hc⟩

theorem Wakeable.exists_next (h : Wakeable q k) :
    ∃ served k', k.nextThread q = .ok (served, k') := exists_nextThread h.level h.sound h.queue

/-- One thread after the other is handed the queue and made ready. No queue comes or goes. -/
theorem Wakeable.exists_handOver (n : Nat) {k : Kernel Activation} (h : Wakeable q k) :
    ∃ k', k.handOver q n = .ok k' ∧ k'.table.Sound ∧
      k'.table.links.transfer = k.table.links.transfer := by
  induction n generalizing k with
  | zero => exact ⟨k, rfl, h.sound, rfl⟩
  | succ n ih =>
    obtain ⟨served, k₁, hn⟩ := h.exists_next
    obtain ⟨h₁, hserved⟩ := h.next hn
    have htransfer := nextThread_transfer h.sound hn
    rw [handOver, hn]
    cases served with
    | none => exact ⟨k₁, rfl, h₁.sound, htransfer⟩
    | some u =>
      obtain ⟨ha, hc⟩ := hserved u rfl
      obtain ⟨k₂, hm⟩ := exists_markReady h₁.level ha hc
      obtain ⟨k', hall, hsound, hsame⟩ := ih (h₁.wake hm)
      obtain ⟨-, slot, -, rfl⟩ := markReady_ok hm
      simp only [hm]
      exact ⟨k', hall, hsound, hsame.trans htransfer⟩

theorem Wakeable.exists_handOverAll (h : Wakeable q k) :
    ∃ k', k.handOverAll q = .ok k' ∧ k'.table.Sound ∧
      k'.table.links.transfer = k.table.links.transfer := by
  obtain ⟨n, hn⟩ := exists_numWaiters h.queue
  rw [handOverAll, hn]
  exact h.exists_handOver _

/-! ## Threads that come and go -/

/-- The number of a new thread is free, and no such thread waits anywhere. -/
theorem Placed.spawn_cyclic {name : String} {a : Activation} (h : Placed uses asleep run k)
    (hr : k.spawn name a = .error f) : f.Cyclic := by
  have hfree : k.registry.get? ⟨k.registry.nextNumber⟩ = none := by
    cases hs : k.registry.get? ⟨k.registry.nextNumber⟩ with
    | none => rfl
    | some slot => exact absurd (h.1.number hs) (Nat.lt_irrefl _)
  have he := Table.createQueue_effect h.1.sound true
  have hnew : ((k.table.createQueue true).2.queue? (k.table.createQueue true).1).isSome := by
    rw [Table.queue?_createQueue, if_pos rfl]
    rfl
  unfold Kernel.spawn at hr
  simp only [Registry.insert_of_free hfree] at hr
  split at hr
  · rename_i hacq
    cases hr
    exact Table.acquire_cyclic he.sound (.inl (h.1.absent hfree).waiting) hnew hacq
  · rename_i tb hacq
    obtain ⟨-, -, he₁⟩ := Table.acquire_effect he.sound hacq
    split at hr
    · rename_i hwait
      cases hr
      refine Table.waitForAccess_cyclic he₁.sound ?_ ?_ hwait
      · refine (congrFun (congrArg Table.Links.waiting he₁.links) _).trans ?_
        exact Function.update_self _ _ _
      · obtain ⟨qs, hqs⟩ := Option.isSome_iff_exists.1 h.1.layout.exists_ready
        refine he₁.exists_queue rfl ?_
        rw [Table.queue?_createQueue_of_some hqs]
        rfl
    · cases hr

theorem exists_releaseReady (hs : k.table.Sound) (hq : (k.table.queue? k.readyQueue).isSome) :
    ∃ k', k.releaseReady t = .ok k' := by
  obtain ⟨qs, hqs⟩ := Option.isSome_iff_exists.1 hq
  have howner : k.table.owner k.readyQueue = .ok qs.owner := by
    rw [Table.owner, Table.queue, hqs]
    rfl
  obtain ⟨tb, htb⟩ := Table.exists_releaseOwnership hs hq
  unfold releaseReady
  simp only [howner, htb]
  split
  · exact ⟨_, rfl⟩
  · exact ⟨k, rfl⟩

/-- Those that join a finished thread can be made ready, and nothing else stands in its way. -/
theorem exists_retire {slot : Slot Activation} (hslot : k.registry.get? t = some slot)
    (hw : Wakeable slot.joinQueue k.enter) (hready : (k.table.queue? k.readyQueue).isSome)
    (hne : slot.joinQueue ≠ k.readyQueue) : ∃ k', k.retire t = .ok k' := by
  obtain ⟨k₁, h₁, hsound, htransfer⟩ := hw.exists_handOverAll
  obtain ⟨tb₂, h₂⟩ := Table.exists_destroyQueue hsound slot.joinQueue
  have he₂ := Table.destroyQueue_effect hsound h₂
  have hready₂ : (tb₂.queue? k₁.readyQueue).isSome := by
    have hkind : tb₂.links.transfer k₁.readyQueue = k.table.links.transfer k.readyQueue := by
      rw [he₂.links, show k₁.readyQueue = k.readyQueue from (handOverAll_steady h₁).ready]
      exact (Function.update_of_ne hne.symm _ _).trans (congrFun htransfer _)
    have hsome := congrArg Option.isSome hkind
    rw [Table.links, Table.links, Option.isSome_map, Option.isSome_map] at hsome
    exact hsome.trans hready
  obtain ⟨k₃, h₃⟩ := exists_releaseReady (k := { k₁ with table := tb₂ }) (t := t) he₂.sound hready₂
  obtain ⟨after, tb₃, rfl, he₃, -⟩ :=
    releaseReady_ok (k := { k₁ with table := tb₂ }) he₂.sound h₃
  obtain ⟨tb₄, h₄⟩ := Table.exists_removeThread he₃.sound t
  unfold Kernel.retire
  simp only [hslot, h₁, Kernel.destroyQueue, withTable, h₂, h₃, h₄]
  exact ⟨_, rfl⟩

/-- A thread that is at its end can finish. -/
theorem Placed.exists_finish {p : Posture} {d : Dispatched Activation}
    (h : Placed uses asleep (some (d.thread, p)) k) : ∃ k', k.finish d = .ok k' := by
  obtain ⟨slot, hslot, -⟩ := h.2.slot
  have hsit : Situated uses asleep (some d.thread) (k.backToLoop d) :=
    h.1.congr rfl rfl rfl rfl rfl
  exact exists_retire hslot (hsit.wakeable (h.1.layout.exists_join hslot) fun _ hu => nomatch hu)
    h.1.layout.exists_ready (h.1.layout.join_ne_ready hslot)

/-! ## The processor -/

/-- The slot of the running thread waits for its task. -/
theorem exists_park {p : Posture} {d : Dispatched Activation} {point point' : YieldPoint}
    {ready : Bool} (h : Placed uses asleep (some (d.thread, p)) k)
    (hpoll : k.pollPoint d.thread point = (ready, point', k')) : ∃ k'', k'.park d = .ok k'' := by
  obtain ⟨slot, hslot, htask, -⟩ := h.2.slot
  obtain ⟨signal, hslot'⟩ := (pollPoint_steady hpoll).slot hslot
  have hget : (k'.backToLoop d).registry.get? d.thread = some { slot with signal := signal } :=
    hslot'
  unfold park Slot.putTask
  simp only [hget, htask]
  exact ⟨_, rfl⟩

theorem admitEach_cyclic (l : List ThreadId) {k : Kernel Activation}
    (h : Placed uses asleep none (k.announcing l)) (hr : admitEach l k = .error f) : f.Cyclic := by
  induction l generalizing k with
  | nil => cases hr
  | cons t l ih =>
    obtain ⟨slot, hslot, hnone, -⟩ := h.announced_head
    rw [admitEach, contains_of_get? hslot, hnone] at hr
    simp only [Bool.not_true, Bool.false_eq_true, if_false, reduceCtorEq] at hr
    split at hr
    · rename_i hk
      cases hr
      exact Table.waitForAccess_cyclic h.1.sound hnone h.1.layout.exists_ready (withTable_error hk)
    · rename_i k₁ hk
      obtain ⟨tb, htb, rfl⟩ := withTable_ok hk
      exact ih (h.admits htb).1 hr

theorem Placed.chooseThread_cyclic (h : Placed uses asleep none k)
    (hr : k.chooseThread = .error f) : f.Cyclic := by
  have henter : Placed uses asleep none ((k.enter.announcing []).announcing k.registry.channel) :=
    h.congr rfl rfl rfl
  unfold chooseThread Kernel.admitWoken Registry.drain at hr
  split at hr
  · rename_i hadm
    cases hr
    exact admitEach_cyclic k.registry.channel henter hadm
  · rename_i k₁ hadm
    obtain ⟨hp, -, tb, rfl⟩ := henter.admitEach k.registry.channel hadm
    split at hr
    · rename_i hn
      cases hr
      obtain ⟨served, k₂, hok⟩ := exists_nextThread rfl hp.1.sound hp.1.layout.exists_ready
      exact nomatch hn.symm.trans hok
    · cases hr

/-- Whoever the ready queue hands out can be dispatched. -/
theorem Placed.exists_dispatch {k₁ : Kernel Activation} (level : Level)
    (h : Placed uses asleep none k) (hn : k.nextThread k.readyQueue = .ok (some t, k₁)) :
    ∃ r, (k₁.restore level).dispatch t = .ok r := by
  obtain ⟨tb, htb, rfl⟩ := nextThread_ok hn
  obtain ⟨qs, hqs, ⟨hr, -⟩ | ⟨rec, hr, hmem, -⟩⟩ := Table.nextThread_effect h.1.sound htb
  · cases hr
  · cases hr
    obtain ⟨slot, hslot, ⟨task, htask, -⟩, -⟩ :=
      h.resumable_of_ready (h.1.sound.linked.waiting_of_mem hqs hmem)
    have hget : (restore level { k with table := tb }).registry.get? rec.thread = some slot := hslot
    unfold Kernel.dispatch
    simp only [hget, htask]
    exact ⟨_, rfl⟩

/-- The running thread may block inside the atomic region, and may yield anywhere. -/
theorem Steady.exists_blockingThread {p : Posture} (hs : Steady k.enter k')
    (h : Placed uses asleep (some (t, p)) k) : ∃ u, k'.blockingThread = .ok u := by
  obtain ⟨slot, hslot, -⟩ := h.2.slot
  obtain ⟨signal, hslot'⟩ := hs.slot (show k.enter.registry.get? t = some slot from hslot)
  unfold blockingThread currentThread
  rw [atomically_eq hs.level, hs.current, show k.enter.registry.current = some t from h.2.current]
  exact ⟨t, if_pos (contains_of_get? hslot')⟩

theorem Placed.exists_yieldingThread {p : Posture} (h : Placed uses asleep (some (t, p)) k) :
    ∃ u, k.yieldingThread = .ok u := by
  obtain ⟨slot, hslot, -⟩ := h.2.slot
  unfold yieldingThread currentThread
  rw [h.2.current]
  exact ⟨t, if_pos (contains_of_get? hslot)⟩

/-- Sleepers are alive, and none of them runs. -/
theorem Placed.exists_wakeEach (l : List Sleeper) {k : Kernel Activation}
    (h : Placed uses (fun t => (l.map Sleeper.thread).count t + asleep t) none k)
    (hl : k.level = .disabled) : ∃ k', Alarm.wakeEach l k = .ok k' := by
  have hwake : ∀ l' : List Sleeper, (∀ s ∈ l', s ∈ l) → ∀ {k' : Kernel Activation},
      Steady k k' → ∃ k'', Alarm.wakeEach l' k' = .ok k'' := by
    intro l'
    induction l' with
    | nil => exact fun _ _ _ => ⟨_, rfl⟩
    | cons s l' ih =>
      intro hsub k' hs
      have hmem : s.thread ∈ l.map Sleeper.thread := List.mem_map.2 ⟨s, hsub s (by simp), rfl⟩
      have hpos := List.count_pos_iff.2 hmem
      have halive : (k'.registry.get? s.thread).isSome := by
        cases hget : k.registry.get? s.thread with
        | none =>
          have hzero := (h.1.absent hget).asleep
          omega
        | some slot =>
          obtain ⟨signal, hslot⟩ := hs.slot hget
          rw [hslot]
          rfl
      have hcur : k'.registry.current ≠ some s.thread := by
        rw [hs.current, show k.registry.current = none from h.2]
        simp
      obtain ⟨k₁, hm⟩ := exists_markReady (hs.level.trans hl) halive hcur
      rw [Alarm.wakeEach, hm]
      exact ih (fun s' hs' => hsub s' (List.mem_cons_of_mem _ hs')) (hs.trans (markReady_steady hm))
  exact hwake l (fun _ h => h) (.refl k)

/-! ## Locks -/

section Lock

variable {l l' : Lock} {c : Condition}

/-- A request fails if the caller holds the lock already. -/
theorem Placed.request_error (h : Placed uses asleep (some (t, .free)) k)
    (hl : Use.ofLock l ∈ uses) (hr : l.request t k.enter = .error f) :
    l.holder = some t ∧ f = .lockAlreadyHeld t ∨ f.Cyclic := by
  have hq : (k.table.queue? l.queue).isSome := h.1.layout.exists_use hl
  have hnow : Nowhere asleep k t := h.2.place
  unfold Lock.request at hr
  split at hr
  · split at hr
    · rename_i he
      cases hr
      rw [Kernel.acquire, atomically_eq rfl] at he
      exact .inr (Table.acquire_cyclic h.1.sound (.inl hnow.waiting) hq (withTable_error he))
    · cases hr
  · rename_i g hg
    split at hr
    · rename_i heq
      cases hr
      exact .inl ⟨heq ▸ hg, rfl⟩
    · split at hr
      · rename_i he
        cases hr
        rw [Kernel.waitForAccess, atomically_eq rfl] at he
        exact .inr (Table.waitForAccess_cyclic h.1.sound hnow.waiting hq (withTable_error he))
      · cases hr

/-- Only a thread that does not hold the lock fails to release it. -/
theorem Placed.releaseFrom_error (h : Placed uses asleep run k) (hx : Executing run)
    (hl : Use.ofLock l ∈ uses) (hr : l.releaseFrom t k.enter = .error f) :
    l.holder ≠ some t ∧ f = .lockNotHeld t l.holder ∨ f.Cyclic := by
  have hwake : Wakeable l.queue k.enter := h.wakeable hx (h.1.layout.exists_use hl)
  unfold Lock.releaseFrom at hr
  split at hr
  · right
    split at hr
    · rename_i hn
      cases hr
      obtain ⟨served, k₁, hok⟩ := hwake.exists_next
      exact nomatch hn.symm.trans hok
    · cases hr
    · rename_i next k₁ hn
      obtain ⟨h₁, hserved⟩ := hwake.next hn
      obtain ⟨ha, hc⟩ := hserved next rfl
      obtain ⟨k₂, hm⟩ := exists_markReady h₁.level ha hc
      rw [hm] at hr
      cases hr
  · rename_i hne
    cases hr
    exact .inl ⟨hne, rfl⟩

theorem Placed.release_error (h : Placed uses asleep run k) (hx : Executing run)
    (hl : Use.ofLock l ∈ uses) (hr : l.release k = .error f) :
    k.registry.current = none ∧ f = .noThreadRunning ∨
      (∃ t, k.registry.current = some t ∧ l.holder ≠ some t ∧ f = .lockNotHeld t l.holder) ∨
      f.Cyclic := by
  unfold Lock.release currentThread at hr
  cases hc : k.registry.current with
  | none =>
    simp only [hc] at hr
    cases hr
    exact .inl ⟨rfl, rfl⟩
  | some t =>
    simp only [hc] at hr
    split at hr
    · rename_i hfrom
      cases hr
      rcases h.releaseFrom_error hx hl hfrom with ⟨hne, hf⟩ | hcyc
      · exact .inr (.inl ⟨t, rfl, hne, hf⟩)
      · exact .inr (.inr hcyc)
    · cases hr

/-! ## Conditions -/

theorem holder_error (hr : Condition.holder operation l k = .error f) :
    l.isHeldByCurrent k = false ∧ f = .conditionWithoutLock operation := by
  unfold Condition.holder at hr
  split at hr
  · rename_i hheld
    unfold currentThread at hr
    split at hr
    · cases hr
    · rename_i hnone
      rw [Lock.isHeldByCurrent, hnone, Bool.and_eq_true, beq_iff_eq] at hheld
      rw [hheld.2] at hheld
      cases hheld.1
  · rename_i hheld
    cases hr
    exact ⟨by simpa using hheld, rfl⟩

/-- Who holds the lock can give it up and wait on the condition. -/
theorem Placed.fallAsleep_cyclic {after : Lock → List Use}
    (h : Placed uses asleep (some (t, .free)) k) (hk : k.level = .disabled)
    (hl : Use.ofLock l ∈ uses) (hheld : l.holder = some t)
    (hafter : ∀ l', l'.queue = l.queue → Reassigned l.queue l'.holder uses (after l'))
    (hc : ∀ l', l'.queue = l.queue → Use.ofCondition c ∈ after l')
    (hr : c.fallAsleep t l k = .error f) : f.Cyclic := by
  unfold Condition.fallAsleep at hr
  split at hr
  · rename_i hrel
    cases hr
    rcases h.release_error (executing_free t) hl hrel with ⟨hn, -⟩ | ⟨u, hu, hne, -⟩ | hcyc
    · exact nomatch hn.symm.trans h.2.current
    · cases h.2.current.symm.trans hu
      exact absurd hheld hne
    · exact hcyc
  · rename_i l₁ k₁ hrel
    obtain ⟨hqueue, hp, -⟩ := h.release (executing_free t) hl hafter hrel
    have hnow : Nowhere asleep k₁ t := hp.2.place
    split at hr
    · rename_i he
      cases hr
      rw [Kernel.waitForAccess, atomically_eq ((Lock.release_steady hrel).1.level.trans hk)] at he
      exact Table.waitForAccess_cyclic hp.1.sound hnow.waiting
        (hp.1.layout.exists_use (hc l₁ hqueue)) (withTable_error he)
    · cases hr

theorem Placed.wake_error (h : Placed uses asleep run k) (hx : Executing run)
    (hc : Use.ofCondition c ∈ uses) (hr : c.wake l k = .error f) :
    l.isHeldByCurrent k = false ∧ f = .conditionWithoutLock "wake()" ∨ f.Cyclic := by
  have hwake : Wakeable c.queue k.enter := h.wakeable hx (h.1.layout.exists_use hc)
  unfold Condition.wake at hr
  split at hr
  · rename_i hh
    cases hr
    exact .inl (holder_error hh)
  · right
    split at hr
    · rename_i hn
      cases hr
      obtain ⟨served, k₁, hok⟩ := hwake.exists_next
      exact nomatch hn.symm.trans hok
    · cases hr
    · rename_i next k₁ hn
      obtain ⟨h₁, hserved⟩ := hwake.next hn
      obtain ⟨ha, hcur⟩ := hserved next rfl
      obtain ⟨k₂, hm⟩ := exists_markReady h₁.level ha hcur
      rw [hm] at hr
      cases hr

theorem Placed.wakeAll_error (h : Placed uses asleep run k) (hx : Executing run)
    (hc : Use.ofCondition c ∈ uses) (hr : c.wakeAll l k = .error f) :
    l.isHeldByCurrent k = false ∧ f = .conditionWithoutLock "wake_all()" ∨ f.Cyclic := by
  have hwake : Wakeable c.queue k.enter := h.wakeable hx (h.1.layout.exists_use hc)
  unfold Condition.wakeAll at hr
  split at hr
  · rename_i hh
    cases hr
    exact .inl (holder_error hh)
  · right
    split at hr
    · rename_i hall
      cases hr
      obtain ⟨k₁, hok, -⟩ := hwake.exists_handOverAll
      exact nomatch hall.symm.trans hok
    · cases hr

end Lock

/-! ## Priorities -/

theorem setPriority_error {p : Nat} (h : k.table.Sound)
    (hr : k.withTable (k.table.setPriority t p) = .error f) :
    k.bounds.contains p = false ∧
      f = .priorityOutOfRange p k.bounds.least k.bounds.greatest t ∨ f.Cyclic :=
  Table.setPriority_error h (withTable_error hr)

/-- A priority that is raised by one stays within the bounds. -/
theorem increasePriority_error (h : k.table.Sound) (hr : k.increasePriority = .error f) :
    k.registry.current = none ∧ f = .noThreadRunning ∨ f.Cyclic := by
  unfold increasePriority currentThread at hr
  cases hc : k.registry.current with
  | none =>
    simp only [hc] at hr
    cases hr
    exact .inl ⟨rfl, rfl⟩
  | some t =>
    simp only [hc] at hr
    split at hr
    · rename_i hlt
      split at hr
      · rename_i hset
        cases hr
        refine .inr ((setPriority_error h hset).resolve_left ?_)
        rintro ⟨hout, -⟩
        have hleast : k.bounds.least = 0 := by
          unfold bounds
          cases k.policy <;> rfl
        simp only [Bounds.contains, hleast, Nat.zero_le, decide_true, Bool.true_and,
          decide_eq_false_iff_not] at hout
        omega
      · cases hr
    · cases hr

/-- A priority that is lowered by one stays within the bounds. -/
theorem decreasePriority_error (h : k.table.Sound) (hr : k.decreasePriority = .error f) :
    k.registry.current = none ∧ f = .noThreadRunning ∨ f.Cyclic := by
  unfold decreasePriority currentThread at hr
  cases hc : k.registry.current with
  | none =>
    simp only [hc] at hr
    cases hr
    exact .inl ⟨rfl, rfl⟩
  | some t =>
    simp only [hc] at hr
    split at hr
    · rename_i hlt
      split at hr
      · rename_i hset
        cases hr
        refine .inr ((setPriority_error h hset).resolve_left ?_)
        rintro ⟨hout, -⟩
        have hbase : k.table.priority t ≤ k.bounds.greatest := h.settled.base_le t
        simp only [Bounds.contains, Bool.and_eq_false_iff, decide_eq_false_iff_not] at hout
        omega
      · cases hr
    · cases hr

end Kernel
end ThreadKernel
