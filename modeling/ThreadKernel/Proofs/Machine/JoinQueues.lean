import ThreadKernel.Proofs.Kernel.Tenure
import ThreadKernel.Proofs.Machine.Execution
import ThreadKernel.Proofs.Machine.Requests

/-!
# ThreadKernel.Proofs.Machine.JoinQueues

The join queues of threads that are alive, as long as programs leave them alone and nothing else has
their numbers. A thread owns its join queue, and only those that join it wait there.

* `System.Avoids`     — a program that leaves a queue alone.
* `Requests.leaves`   — its calls change neither the waiters nor the owner.
* `stepCode_join`     — what a join does instead.
* `Machine.Separate`  — join queues are nobody else's, and the next instruction leaves them alone.
* `Machine.Joinable`  — what is so of all join queues and of those that wait there.
* `Execution.joinable` — it is so in every execution of such machines.
-/

namespace ThreadKernel

open Kernel (Alters Apart Holds Retains Sane Settles)

namespace System

/-- The queue belongs neither to a lock, nor to a condition, nor to those ready, and the next
instruction does not handle it. -/
structure Avoids (q : QueueId) (a : Activation) (s : System) : Prop where
  ready : s.kernel.readyQueue ≠ q
  use : ¬ s.OfUse q
  untouched : ¬ a.Touches q s

variable {a a' : Activation} {s s' : System} {actor : Actor} {k : Kernel Activation}
  {q r : QueueId} {t : ThreadId} {target : ThreadRef}

theorem Avoids.ne_of_use (h : s.Avoids q a) (hr : s.OfUse r) : r ≠ q := fun e => h.use (e ▸ hr)

theorem Avoids.ne_of_touches (h : s.Avoids q a) (hr : a.Touches r s) : r ≠ q := fun e =>
  h.untouched (e ▸ hr)

theorem Avoids.ne_of_reaches (h : s.Avoids q a) (hr : s.Reaches a r) : r ≠ q :=
  hr.elim h.ne_of_touches h.ne_of_use

/-! ## Calls that are no joins -/

/-- Nobody comes to the queue or leaves it, and its owner stays. -/
theorem Requests.leaves (h : Requests a s k) (hk : s.kernel.Sane) (hq : s.Avoids q a)
    (hj : ∀ target, ¬ a.Begins (.join target))
    (hal : ∀ u, s.kernel.table.waitingQueue u = some q → (s.kernel.registry.get? u).isSome) :
    Apart q s.kernel k ∧ (Holds t q s.kernel → Holds t q k) := by
  cases h with
  | nothing table registry => exact ⟨.of_eq table registry, fun h => h.congr table⟩
  | @adjusts u p adjusted =>
    exact ⟨Kernel.setPriority_apart q hk.sound adjusted,
      fun h => h.apply (.setPriority u p) hk.sound id adjusted⟩
  | creates transfer created =>
    subst created
    exact ⟨Kernel.createQueue_apart q _ transfer, fun h => h.createQueue hk.sound transfer⟩
  | @destroys r touches destroyed =>
    have hne := hq.ne_of_touches touches
    exact ⟨Kernel.destroyQueue_apart hk.sound hne destroyed,
      fun h => h.apply (.destroyQueue r) hk.sound hne destroyed⟩
  | spawns _ _ spawned =>
    refine ⟨Kernel.spawn_apart hk.sound hq.ready hal spawned, fun h => ?_⟩
    obtain ⟨_, hsp⟩ := Kernel.spawn_ok hk.sound spawned
    exact h.spawn hsp hq.ready
  | @enqueues r u reaches enqueued =>
    have hne := hq.ne_of_reaches reaches
    exact ⟨(Kernel.enqueue_alters q hk.sound enqueued).2.congr (by simp [hne]) (by simp),
      fun h => h.apply (.waitForAccess r u) hk.sound (fun e => hne e.1) enqueued⟩
  | joins begins => exact absurd begins (hj _)
  | @acquires r u reaches acquired =>
    have hne := hq.ne_of_reaches reaches
    exact ⟨(Kernel.grant_alters q hk.sound acquired).congr (by simp) (by simp [hne]),
      fun h => h.apply (.acquire r u) hk.sound hne acquired⟩
  | serves touches next =>
    have hne := hq.ne_of_touches touches
    exact ⟨Kernel.nextThread_apart hk.sound hne next, fun h => h.nextThread hk.sound hne next⟩
  | readies begins => exact absurd ⟨_, begins, trivial⟩ hq.untouched
  | passes use passed =>
    have hne := hq.ne_of_use use
    exact ⟨passed.apart hk hne, fun h => h.passes hk hne passed⟩
  | empties use emptied =>
    have hne := hq.ne_of_use use
    refine ⟨(Kernel.handOverAll_apart hne hk.entered emptied).of_enter, fun h => ?_⟩
    have henter : Holds t q s.kernel.enter := h.congr rfl
    exact henter.handOverAll hk.entered hne emptied
  | @sleeps p r u served k₁ lock condition passed enqueued =>
    have hlock := hq.ne_of_use lock
    have hcondition := hq.ne_of_use condition
    have hk₁ := passed.steady.sane hk.entered
    have hapart : Apart q s.kernel.enter k₁ := passed.apart hk.entered hlock
    refine ⟨(hapart.trans (Kernel.waitForAccess_apart hk₁.sound hcondition enqueued)).of_enter,
      fun h => ?_⟩
    have henter : Holds t q s.kernel.enter := h.congr rfl
    exact (henter.passes hk.entered hlock passed).waitForAccess hk₁.sound hcondition enqueued

/-- Only a spawn gives life to a thread. -/
theorem Requests.retains_or_spawns (h : Requests a s k) :
    Retains s.kernel k ∨ ∃ j x t, a.Begins (.act (.spawn j)) ∧ s.programs[j]? = some x ∧
      s.kernel.spawn x.name (.start x.code) = .ok (t, k) := by
  cases h with
  | nothing _ registry => exact .inl (.of_registry registry)
  | adjusts adjusted => exact .inl (Kernel.apply_retains (.setPriority _ _) adjusted)
  | creates transfer created =>
    subst created
    exact .inl (.of_registry rfl)
  | destroys _ destroyed => exact .inl (Kernel.apply_retains (.destroyQueue _) destroyed)
  | spawns begins named spawned => exact .inr ⟨_, _, _, begins, named, spawned⟩
  | enqueues _ enqueued | joins _ _ _ _ _ enqueued =>
    exact .inl (Kernel.apply_retains (.waitForAccess _ _) enqueued)
  | acquires _ acquired => exact .inl (Kernel.apply_retains (.acquire _ _) acquired)
  | serves _ next => exact .inl (Kernel.nextThread_retains next)
  | readies _ ready => exact .inl (Kernel.markReady_retains ready)
  | passes _ passed => exact .inl passed.retains
  | empties _ emptied =>
    have hretains := Kernel.handOverAll_retains emptied
    exact .inl ⟨hretains.number, hretains.slot⟩
  | sleeps _ _ passed enqueued =>
    obtain ⟨tb, -, rfl⟩ := Kernel.waitForAccess_ok enqueued
    have hretains := passed.retains
    exact .inl ⟨hretains.number, hretains.slot⟩

/-! ## Steps of programs -/

/-- A thread that passes its yield point takes its own signal and no more. -/
theorem poll_leaves {p p' : YieldPoint} (hp : s.kernel.pollPoint t p = (true, p', k))
    (hf : s.kernel.table.waitingQueue t ≠ some q) :
    Apart q s.kernel k ∧ k.table = s.kernel.table := by
  obtain ⟨slot, -, -, -, rfl⟩ := pollPoint_ready hp
  refine ⟨⟨fun u => by simp, fun u hu _ => ?_, fun _ _ _ => .rfl⟩, rfl⟩
  refine (Registry.get?_setSlot s.kernel.registry t u _).trans (if_neg ?_)
  rintro rfl
  exact hf hu

/-- A program that joins nobody, and does not wait on the queue itself. -/
theorem stepCode_leaves (hr : s.stepCode actor a = .ok (.go a' s')) (hk : s.kernel.Sane)
    (hq : s.Avoids q a) (hj : ∀ target, ¬ a.Begins (.join target))
    (hal : ∀ u, s.kernel.table.waitingQueue u = some q → (s.kernel.registry.get? u).isSome)
    (hf : ∀ u, s.kernel.registry.current = some u → s.kernel.table.waitingQueue u ≠ some q) :
    Apart q s.kernel s'.kernel ∧ (Holds t q s.kernel → Holds t q s'.kernel) := by
  rcases stepCode_executes hr with ⟨-, hexec⟩ | ⟨u, p, r, p', k₀, hstage, hcur, hpoll, hexec⟩
  · obtain ⟨k, level, hreq, hs⟩ := hexec.kernel
    obtain ⟨hapart, hholds⟩ := hreq.leaves (t := t) hk hq hj hal
    rw [hs]
    exact ⟨hapart.restore level, fun h => (hholds h).congr rfl⟩
  · obtain ⟨k, level, hreq, hs⟩ := hexec.kernel
    have hsteady := Kernel.pollPoint_steady hpoll
    obtain ⟨hpolled, htable⟩ := poll_leaves hpoll (hf u hcur)
    have hq₀ : (s.withKernel k₀).Avoids q a := by
      refine ⟨fun e => hq.ready (hsteady.ready.symm.trans e), hq.use, ?_⟩
      rintro ⟨b, ⟨hfresh, -⟩, -⟩
      rw [hstage] at hfresh
      cases hfresh
    have hal₀ : ∀ v, k₀.table.waitingQueue v = some q → (k₀.registry.get? v).isSome := by
      intro v hv
      have hw := (hpolled.waiting_iff v).1 hv
      rw [hpolled.slot v hw id]
      exact hal v hw
    obtain ⟨hapart, hholds⟩ := hreq.leaves (t := t) (hsteady.sane hk) hq₀ hj hal₀
    rw [hs]
    refine ⟨(Alters.trans hpolled hapart).restore level, fun h => ?_⟩
    exact (hholds (h.congr htable)).congr rfl

/-- A spawn has no yield point, so nothing happens before it. -/
theorem stepCode_retains_or_spawns (hr : s.stepCode actor a = .ok (.go a' s')) :
    Retains s.kernel s'.kernel ∨ ∃ j x t k level, a.Begins (.act (.spawn j)) ∧
      s.programs[j]? = some x ∧ s.kernel.spawn x.name (.start x.code) = .ok (t, k) ∧
        s'.kernel = k.restore level := by
  rcases stepCode_executes hr with ⟨-, hexec⟩ | ⟨u, p, r, p', k₀, hstage, -, hpoll, hexec⟩
  · obtain ⟨k, level, hreq, hs⟩ := hexec.kernel
    rcases hreq.retains_or_spawns with hretains | ⟨j, x, t, hb, hx, hspawn⟩
    · exact .inl (hs ▸ ⟨hretains.number, hretains.slot⟩)
    · exact .inr ⟨j, x, t, k, level, hb, hx, hspawn, hs⟩
  · obtain ⟨k, level, hreq, hs⟩ := hexec.kernel
    rcases hreq.retains_or_spawns with hretains | ⟨j, x, t, ⟨hfresh, -⟩, -, -⟩
    · have hall := (Kernel.pollPoint_retains hpoll).trans hretains
      exact .inl (hs ▸ ⟨hall.number, hall.slot⟩)
    · cases hfresh.symm.trans hstage

/-- What a join comes to, in the step that begins it. -/
inductive Joins (u t : ThreadId) (a : Activation) (s : System) (a' : Activation) (s' : System) :
    Prop where
  | returns (gone : s.kernel.registry.get? t = none) (fresh : a'.stage = .fresh)
      (table : s'.kernel.table = s.kernel.table) (registry : s'.kernel.registry = s.kernel.registry)
  | waits {slot : Slot Activation} (alive : s.kernel.registry.get? t = some slot)
      (enqueued : s.kernel.withTable (s.kernel.table.waitForAccess slot.joinQueue u) = .ok
        { s'.kernel with level := s.kernel.level })
      (suspended : a' = { a with stage := .suspended .untilWake (.leave s.kernel.level) })
      (joiner : (s.kernel.registry.get? u).isSome)

theorem stepCode_join (hb : a.Begins (.join target))
    (hr : s.stepCode actor a = .ok (.go a' s')) :
    ∃ t u, target.resolve s.kernel = .ok t ∧ s.kernel.registry.current = some u ∧ u ≠ t ∧
      Joins u t a s a' s' := by
  obtain ⟨hfresh, rest, hcode⟩ := hb
  have hjoin : s.beginJoin actor target a = .ok (.go a' s') := by
    rw [stepCode_fresh hfresh hcode] at hr
    exact hr
  obtain ⟨t, u, ht, hu, hne, ⟨hgone, hret⟩ | ⟨slot, k, hslot, hw, hblocks⟩⟩ :=
    beginJoin_cases hjoin
  · obtain ⟨level, hgo⟩ := returns_eq hcode hret
    cases hgo
    exact ⟨t, u, ht, hu, hne, .returns hgone rfl rfl rfl⟩
  · obtain ⟨⟨v, hv, halive⟩, hgo⟩ := blocks_eq hblocks
    obtain ⟨tb, htb, rfl⟩ := Kernel.waitForAccess_ok hw
    have htb : s.kernel.table.waitForAccess slot.joinQueue u = .ok tb := htb
    cases hu.symm.trans hv
    cases hgo
    exact ⟨t, u, ht, hu, hne, .waits hslot (congrArg s.kernel.withTable htb) rfl halive⟩

end System

namespace Machine

/-- The next instruction leaves all join queues alone. -/
def Aloof (m : Machine) : Prop :=
  ∀ a, m.executing? = some a → ∀ t slot, m.system.kernel.registry.get? t = some slot →
    ¬ a.Touches slot.joinQueue m.system

/-- Join queues belong to nothing else, and the next instruction leaves them alone. -/
structure Separate (m : Machine) : Prop where
  aloof : m.Aloof
  ready : ∀ t slot, m.system.kernel.registry.get? t = some slot →
    slot.joinQueue ≠ m.system.kernel.readyQueue
  use : ∀ t slot, m.system.kernel.registry.get? t = some slot → ¬ m.system.OfUse slot.joinQueue

/-- Every thread owns its join queue and those who wait there are guarded. A thread that has begun
to join another one waits there until that one is gone. -/
structure Joinable (m : Machine) : Prop where
  running : ∀ {d below}, m.stack = .thread d :: below →
    (m.system.kernel.registry.get? d.thread).isSome
  holds : ∀ {t slot}, m.system.kernel.registry.get? t = some slot →
    Holds t slot.joinQueue m.system.kernel
  guarded : ∀ {t slot}, m.system.kernel.registry.get? t = some slot → m.Guarded slot.joinQueue
  number : ∀ {t slot}, m.system.kernel.registry.get? t = some slot →
    t.number < m.system.kernel.registry.nextNumber
  joined : ∀ {u a target rest p r}, m.activation? u = some a → a.code = .join target :: rest →
    a.stage = .suspended p r → ∃ t, target = .named t ∧ u ≠ t ∧
      t.number < m.system.kernel.registry.nextNumber ∧
        ∀ slot, m.system.kernel.registry.get? t = some slot →
          m.system.kernel.table.waitingQueue u = some slot.joinQueue

variable {m m' : Machine} {q : QueueId} {t u : ThreadId} {below : List Frame}
  {slot slot' : Slot Activation}

/-- Plain programs handle no queue, and their locks and conditions have queues of their own. -/
theorem Orderly.separate (h : m.Orderly) : m.Separate := by
  obtain ⟨run, hs⟩ := h.system
  have hl := hs.placed.1.layout
  refine ⟨fun _ ha _ _ _ => h.not_touches ha, fun t slot ht => hl.join_ne_ready ht,
    fun t slot ht => ?_⟩
  rintro ⟨use, huse, hqueue⟩
  exact hl.join_apart ht use huse hqueue

/-! ## Who is alive after a step -/

theorem park_retains {d : Kernel.Dispatched Activation} {k k' : Kernel Activation}
    (h : k.park d = .ok k') : Retains k k' := by
  obtain ⟨slot, hslot, -, rfl⟩ := Kernel.park_ok h
  refine ⟨rfl, fun {v x} hx => ?_⟩
  have hx := (Registry.get?_setSlot _ _ v _).symm.trans hx
  split at hx
  · rename_i hv
    cases hx
    exact ⟨slot, hv ▸ hslot, rfl⟩
  · exact ⟨x, hx, rfl⟩

theorem dispatch_retains {d : Kernel.Dispatched Activation} {k k' : Kernel Activation}
    (h : k.dispatch t = .ok (some (d, k'))) : Retains k k' := by
  obtain ⟨slot, task, hslot, -, -, rfl⟩ := Kernel.dispatch_ok h
  refine ⟨rfl, fun {v x} hx => ?_⟩
  have hx := (Registry.get?_setSlot _ _ v _).symm.trans hx
  split at hx
  · rename_i hv
    cases hx
    exact ⟨slot, hv ▸ hslot, rfl⟩
  · exact ⟨x, hx, rfl⟩

/-- Only a spawn gives life to a thread. -/
theorem Turn.retains_or_spawns (h : Turn m m') :
    Retains m.system.kernel m'.system.kernel ∨ ∃ name a t k level,
      m.system.kernel.spawn name a = .ok (t, k) ∧ m'.system.kernel = k.restore level := by
  cases h with
  | program _ code | thread _ code =>
    refine (System.stepCode_retains_or_spawns code).imp_right ?_
    rintro ⟨_, x, t, k, level, -, -, hspawn, hk⟩
    exact ⟨_, _, t, k, level, hspawn, hk⟩
  | parks _ code park system =>
    obtain ⟨_, _, _, _, k₁, -, -, -, hpoll, rfl, rfl⟩ := System.stepCode_park code
    have hretains := (Kernel.pollPoint_retains hpoll).trans (park_retains park)
    rw [system]
    exact .inl ⟨hretains.number, hretains.slot⟩
  | retires _ _ finish system =>
    rw [System.restoreAll_eq] at finish
    have hretains := Kernel.retire_retains finish
    rw [system]
    exact .inl ⟨hretains.number, hretains.slot⟩
  | @alarm _ _ _ k _ _ release same =>
    obtain ⟨hwake, -⟩ := Alarm.release_ok release
    exact .inl ((Kernel.wakeEach_retains _ hwake).trans (.of_registry same.registry))
  | @chooses _ k _ _ choose same =>
    exact .inl ((Kernel.chooseThread_retains choose).trans (.of_registry same.registry))
  | dispatches _ choose dispatch system =>
    rw [system]
    exact .inl ((Kernel.chooseThread_retains choose).trans (dispatch_retains dispatch))
  | quiet _ _ same => exact .inl (.of_registry same.registry)

theorem Turn.settles (h : Turn m m') (hr : m.Regular) :
    Settles m.system.kernel m'.system.kernel := by
  rcases h.retains_or_spawns with hretains | ⟨_, _, _, k, level, hspawn, hk⟩
  · exact hretains.settles
  · obtain ⟨_, hspawned⟩ := Kernel.spawn_ok hr.sane.sound hspawn
    rw [hk]
    exact (hspawned.settles hr.sane.sound).restore level

/-- A thread at the end of its program retires. -/
theorem Turn.finish (h : Turn m m') {d : Kernel.Dispatched Activation}
    (hs : m.stack = .thread d :: below) (hc : d.task.coroutine.code = []) :
    ∃ k, (m.system.kernel.restoreAll d.task.coroutine.guards).finish d = .ok k ∧
      m'.system = m.system.withKernel k.charge ∧ m'.stack = below := by
  have hdone : ∀ r, m.system.stepCode (.thread d.thread) d.task.coroutine = .ok r →
      r = .done d.task.coroutine m.system := by
    intro r hr
    unfold System.stepCode at hr
    rw [hc] at hr
    exact (Except.ok.inj hr).symm
  have hidle : ∀ {P : Prop}, Idle m.stack → P := fun hi =>
    absurd (hs ▸ List.mem_cons_self) (hi d)
  cases h with
  | program stack =>
    rw [hs] at stack
    cases stack
  | thread stack code =>
    rw [hs] at stack
    cases stack
    cases hdone _ code
  | parks stack code =>
    rw [hs] at stack
    cases stack
    cases hdone _ code
  | retires stack _ finish system after =>
    rw [hs] at stack
    cases stack
    exact ⟨_, finish, system, after⟩
  | alarm idle | chooses idle | dispatches idle | quiet idle => exact hidle idle

/-- After that it is gone. -/
theorem Turn.gone (h : Turn m m') {d : Kernel.Dispatched Activation}
    (hs : m.stack = .thread d :: below) (hc : d.task.coroutine.code = []) :
    m'.system.kernel.registry.get? d.thread = none := by
  obtain ⟨k, hk, hsystem, -⟩ := h.finish hs hc
  obtain ⟨k₁, -, rfl⟩ := finish_cases hk
  rw [hsystem]
  exact (Directory.get?_erase _ _ _).trans (if_pos rfl)

/-! ## What a step leaves of a join queue -/

theorem Guarded.alive (h : m.Guarded q)
    (hf : ∀ t, m.thread? = some t → m.system.kernel.table.waitingQueue t ≠ some q)
    (hu : m.system.kernel.table.waitingQueue u = some q) :
    (m.system.kernel.registry.get? u).isSome := by
  cases hrun : m.thread? with
  | none =>
    obtain ⟨slot, hslot, -⟩ := h.stirred hrun u hu
    exact Option.isSome_iff_exists.2 ⟨slot, hslot⟩
  | some t =>
    obtain ⟨-, slot, hslot, -⟩ := h.calm t hrun u hu fun e => hf t hrun (Option.some.inj e ▸ hu)
    exact Option.isSome_iff_exists.2 ⟨slot, hslot⟩

theorem Separate.avoids (h : m.Separate) {a : Activation} (ha : m.executing? = some a)
    (ht : m.system.kernel.registry.get? t = some slot) : m.system.Avoids slot.joinQueue a :=
  ⟨(h.ready t slot ht).symm, h.use t slot ht, h.aloof a ha t slot ht⟩

/-- No two threads have the same join queue. -/
theorem Joinable.unique (h : m.Joinable) (ht : m.system.kernel.registry.get? t = some slot)
    (hu : m.system.kernel.registry.get? u = some slot') (hj : slot.joinQueue = slot'.joinQueue) :
    t = u := (h.holds ht).unique (hj ▸ h.holds hu)

/-- A step of a program leaves the owner and the waiters, except that the running thread may come
to wait and suspends then. -/
theorem Joinable.stepCode (h : m.Joinable) (hr : m.Regular) (hs : m.Separate) {actor : Actor}
    {a a' : Activation} {s' : System} (ha : m.executing? = some a)
    (ht : m.system.kernel.registry.get? t = some slot)
    (hf : ∀ u, m.thread? = some u → m.system.kernel.table.waitingQueue u ≠ some slot.joinQueue)
    (hc : m.system.stepCode actor a = .ok (.go a' s')) :
    Holds t slot.joinQueue s'.kernel ∧
      ∃ joins, Alters slot.joinQueue joins (fun _ => False) m.system.kernel s'.kernel ∧
        ∀ u, joins u → m.thread? = some u ∧ a'.Halts ∧ (s'.kernel.registry.get? u).isSome := by
  by_cases hb : ∃ target, a.Begins (.join target)
  · obtain ⟨target, hb⟩ := hb
    obtain ⟨x, u, -, hu, hne, hjoins⟩ := System.stepCode_join hb hc
    cases hjoins with
    | returns gone fresh table registry =>
      exact ⟨(h.holds ht).congr table, _, Apart.of_eq table registry, fun _ => False.elim⟩
    | @waits xslot alive enqueued suspended joiner =>
      have hreassigns :
          ¬ Table.Op.Reassigns slot.joinQueue t (.waitForAccess xslot.joinQueue u) := by
        rintro ⟨hqueue, rfl⟩
        exact hne (h.unique ht alive hqueue.symm)
      have hholds := (h.holds ht).apply _ hr.sane.sound hreassigns enqueued
      obtain ⟨-, halters⟩ := Kernel.enqueue_alters slot.joinQueue hr.sane.sound enqueued
      refine ⟨hholds.congr rfl, _, halters.restore s'.kernel.level, ?_⟩
      rintro v ⟨rfl, -⟩
      obtain ⟨-, rest, hcode⟩ := hb
      refine ⟨hr.current ▸ hu, ⟨by rw [suspended, hcode]; simp, _, by rw [suspended]⟩, ?_⟩
      obtain ⟨tb, -, hk⟩ := Kernel.withTable_ok enqueued
      have hregistry := congrArg Kernel.registry hk
      exact hregistry ▸ joiner
  · have hcurrent : ∀ u, m.system.kernel.registry.current = some u →
        m.system.kernel.table.waitingQueue u ≠ some slot.joinQueue := fun u hu =>
      hf u (hr.current ▸ hu)
    obtain ⟨hapart, hholds⟩ := System.stepCode_leaves hc hr.sane (hs.avoids ha ht)
      (fun target hb' => hb ⟨target, hb'⟩) (fun u => (h.guarded ht).alive hf) hcurrent
    exact ⟨hholds (h.holds ht), _, hapart, fun _ => False.elim⟩

theorem Joinable.respects (h : m.Joinable) (hr : m.Regular) (hs : m.Separate)
    (ht : m.system.kernel.registry.get? t = some slot)
    (hd : ∀ d below, m.stack = .thread d :: below → d.task.coroutine.code = [] → d.thread ≠ t) :
    Respects slot.joinQueue m m' where
  ready := (hs.ready t slot ht).symm
  program {actor a a' below} stack code := by
    have hi : m.thread? = none := by rw [thread?, stack]
    have hnone : ∀ {u}, m.thread? ≠ some u := by simp [hi]
    obtain ⟨-, joins, halters, hjoins⟩ := h.stepCode hr hs (by rw [executing?, stack]) ht
      (fun _ hu => absurd hu hnone) code
    exact halters.congr (fun u => ⟨False.elim, fun hu => hnone (hjoins u hu).1⟩) fun _ => .rfl
  thread {d a' below} stack code := by
    have hfree := (h.guarded ht).free stack code
    obtain ⟨-, joins, halters, hjoins⟩ := h.stepCode hr hs (by rw [executing?, stack]) ht
      (fun u hu => by
        rw [thread?_eq stack] at hu
        cases hu
        exact hfree) code
    refine ⟨joins, _, halters, fun u hu => ?_⟩
    obtain ⟨hrun, hrest⟩ := hjoins u hu
    exact ⟨Option.some.inj (hrun.symm.trans (thread?_eq stack)), hrest⟩
  retires {d below dslot} stack code hslot hj := hd d below stack code (h.unique hslot ht hj)

/-- The owner keeps its join queue as long as it lives. -/
theorem Joinable.holds_turn (h : m.Joinable) (hr : m.Regular) (hs : m.Separate)
    (ht : m.system.kernel.registry.get? t = some slot) (hturn : Turn m m')
    (hd : ∀ d below, m.stack = .thread d :: below → d.task.coroutine.code = [] → d.thread ≠ t) :
    Holds t slot.joinQueue m'.system.kernel := by
  have hholds := h.holds ht
  have hready : m.system.kernel.readyQueue ≠ slot.joinQueue := (hs.ready t slot ht).symm
  cases hturn with
  | program stack code =>
    refine (h.stepCode hr hs (by rw [executing?, stack]) ht (fun u hu => ?_) code).1
    rw [thread?, stack] at hu
    cases hu
  | thread stack code =>
    refine (h.stepCode hr hs (by rw [executing?, stack]) ht (fun u hu => ?_) code).1
    rw [thread?_eq stack] at hu
    cases hu
    exact (h.guarded ht).free stack code
  | parks _ code park system =>
    obtain ⟨_, _, _, _, k₁, -, -, -, hpoll, rfl, rfl⟩ := System.stepCode_park code
    obtain ⟨htable, -⟩ := park_get? park
    rw [system]
    exact hholds.congr (htable.trans (pollPoint_table hpoll))
  | @retires d k below stack code finish system =>
    rw [System.restoreAll_eq] at finish
    have hsane : (Kernel.backToLoop d (m.system.kernel.restore
        (d.task.coroutine.guards.getLastD m.system.kernel.level))).Sane :=
      ⟨hr.sane.sound, hr.sane.waker, hr.sane.signal⟩
    have hloop : Holds t slot.joinQueue (Kernel.backToLoop d (m.system.kernel.restore
        (d.task.coroutine.guards.getLastD m.system.kernel.level))) := hholds.congr rfl
    have hne := hd d below stack code
    have hretired := hloop.retire hsane hready hne
      (fun dslot hslot hj => hne (h.unique hslot ht hj)) finish
    rw [system]
    exact hretired.congr rfl
  | alarm _ _ release same =>
    obtain ⟨hwake, -⟩ := Alarm.release_ok release
    exact (hholds.wakeEach _ hr.sane hwake).congr same.table
  | chooses _ _ choose same => exact (hholds.choose hr.sane hready choose).congr same.table
  | dispatches _ choose dispatch system =>
    obtain ⟨-, htable, -⟩ := dispatch_get? dispatch
    rw [system]
    exact (hholds.choose hr.sane hready choose).congr htable
  | quiet _ _ same => exact hholds.congr same.table

/-- Nobody leaves the join queue as long as its owner lives. -/
theorem Joinable.stays (h : m.Joinable) (hr : m.Regular) (hs : m.Separate)
    (ht : m.system.kernel.registry.get? t = some slot) (hturn : Turn m m')
    (hd : ∀ d below, m.stack = .thread d :: below → d.task.coroutine.code = [] → d.thread ≠ t)
    (hu : m.system.kernel.table.waitingQueue u = some slot.joinQueue) :
    m'.system.kernel.table.waitingQueue u = some slot.joinQueue := by
  obtain ⟨-, hsame⟩ := (h.guarded ht).turn hr (h.respects hr hs ht hd) hturn
  by_cases hrun : m.thread? = none ∨ m'.thread? = none
  · exact (hsame hrun u).2 hu
  · have hgo : ∀ {P : Prop}, m.thread? = none ∨ m'.thread? = none → P := fun hn => absurd hn hrun
    cases hturn with
    | program stack => exact hgo (.inl (by rw [thread?, stack]))
    | thread stack code =>
      obtain ⟨-, joins, halters, -⟩ := h.stepCode hr hs (by rw [executing?, stack]) ht
        (fun v hv => by
          rw [thread?_eq stack] at hv
          cases hv
          exact (h.guarded ht).free stack code) code
      exact (halters.waiting u).2 (.inr ⟨hu, id⟩)
    | parks stack _ _ _ after | retires stack _ _ _ after =>
      exact hgo (.inr (thread?_of_idle (by simpa [stack, after] using hr.below)))
    | alarm idle | chooses idle | dispatches idle | quiet idle =>
      exact hgo (.inl (thread?_of_idle idle))

/-! ## Every step -/

/-- Whoever is alive after a step and not new has not retired in it. -/
theorem Turn.lives (h : Turn m m') (hs : m'.system.kernel.registry.get? t = some slot) :
    ∀ d below, m.stack = .thread d :: below → d.task.coroutine.code = [] → d.thread ≠ t := by
  rintro d below stack code rfl
  exact nomatch (h.gone stack code).symm.trans hs

/-- An owner that is alive after a step was its owner before, or is new. -/
theorem Joinable.turn_cases (h : m.Joinable) (hr : m.Regular) (hs : m.Separate)
    (hready : slot'.joinQueue ≠ m'.system.kernel.readyQueue) (hturn : Turn m m')
    (ht : m'.system.kernel.registry.get? t = some slot') :
    Holds t slot'.joinQueue m'.system.kernel ∧ m'.Guarded slot'.joinQueue ∧
      t.number < m'.system.kernel.registry.nextNumber := by
  have hsettles := hturn.settles hr
  rcases hsettles.slot ht with ⟨slot, hslot, hj⟩ | ⟨-, hnew, hown⟩
  · have hd := hturn.lives ht
    rw [← hj]
    exact ⟨h.holds_turn hr hs hslot hturn hd,
      ((h.guarded hslot).turn hr (h.respects hr hs hslot hd) hturn).1,
      (h.number hslot).trans_le hsettles.number⟩
  · obtain ⟨hholds, hnobody⟩ := hown hready
    exact ⟨hholds, .of_unwaited hnobody, hnew⟩

/-- Whoever waits for a thread to retire waits on. -/
theorem Joinable.joined_kept (h : m.Joinable) (hr : m.Regular) (hs : m.Separate)
    (hturn : Turn m m') (hnumber : t.number < m.system.kernel.registry.nextNumber)
    (hw : ∀ slot, m.system.kernel.registry.get? t = some slot →
      m.system.kernel.table.waitingQueue u = some slot.joinQueue)
    (ht : m'.system.kernel.registry.get? t = some slot') :
    m'.system.kernel.table.waitingQueue u = some slot'.joinQueue := by
  rcases (hturn.settles hr).slot ht with ⟨slot, hslot, hj⟩ | ⟨hold, -⟩
  · rw [← hj]
    exact h.stays hr hs hslot hturn (hturn.lives ht) (hw slot hslot)
  · omega

/-- Another thread than the one that runs goes by its number. -/
theorem named_of_resolve {k : Kernel Activation} {target : ThreadRef}
    (ht : target.resolve k = .ok t) (hu : k.registry.current = some u) (hne : u ≠ t) :
    target = .named t := by
  cases target with
  | named v =>
    cases ht
    rfl
  | self => exact absurd (Option.some.inj ((Kernel.currentThread_ok ht).symm.trans hu)).symm hne

/-- The step that begins a join which suspends its thread. -/
theorem Regular.begins_join (hr : m.Regular) {d : Kernel.Dispatched Activation}
    {a' : Activation} {target : ThreadRef} (stack : m.stack = .thread d :: below)
    (hb : d.task.coroutine.Begins (.join target)) (hsuspended : a'.stage ≠ .fresh)
    (code : m.system.stepCode (.thread d.thread) d.task.coroutine = .ok (.go a' m'.system)) :
    ∃ t slot, target = .named t ∧ d.thread ≠ t ∧ m.system.kernel.registry.get? t = some slot ∧
      m'.system.kernel.registry = m.system.kernel.registry ∧
      m'.system.kernel.table.waitingQueue d.thread = some slot.joinQueue := by
  obtain ⟨t, u, ht, hu, hne, hjoins⟩ := System.stepCode_join hb code
  have hcurrent := hr.current.trans (thread?_eq stack)
  cases hu.symm.trans hcurrent
  have hnamed := named_of_resolve ht hu hne
  cases hjoins with
  | returns _ fresh => exact absurd fresh hsuspended
  | @waits slot alive enqueued =>
    obtain ⟨tb, htb, hk⟩ := Kernel.withTable_ok enqueued
    obtain ⟨-, -, he⟩ := Table.waitForAccess_effect hr.sane.sound htb
    have hregistry := congrArg Kernel.registry hk
    have htable := congrArg Kernel.table hk
    refine ⟨t, slot, hnamed, hne, alive, hregistry, ?_⟩
    show Table.waitingQueue { m'.system.kernel with level := m.system.kernel.level }.table _ = _
    rw [htable]
    exact (congrFun (congrArg Table.Links.waiting he.links) _).trans (Function.update_self _ _ _)

theorem Joinable.joined_turn (h : m.Joinable) (hr : m.Regular) (hs : m.Separate)
    (hturn : Turn m m') {a' : Activation} {target : ThreadRef} {rest : List Instr}
    {p : YieldPoint} {r : Resume} (ha : m'.activation? u = some a')
    (hcode : a'.code = .join target :: rest) (hstage : a'.stage = .suspended p r) :
    ∃ t, target = .named t ∧ u ≠ t ∧ t.number < m'.system.kernel.registry.nextNumber ∧
      ∀ slot, m'.system.kernel.registry.get? t = some slot →
        m'.system.kernel.table.waitingQueue u = some slot.joinQueue := by
  have hnumbers := (hturn.settles hr).number
  have hkept : ∀ {a p r}, m.activation? u = some a → a.code = .join target :: rest →
      a.stage = .suspended p r → ∃ t, target = .named t ∧ u ≠ t ∧
        t.number < m'.system.kernel.registry.nextNumber ∧
          ∀ slot, m'.system.kernel.registry.get? t = some slot →
            m'.system.kernel.table.waitingQueue u = some slot.joinQueue := by
    intro a p r ha hcode hstage
    obtain ⟨t, htarget, hne, hnumber, hw⟩ := h.joined ha hcode hstage
    exact ⟨t, htarget, hne, hnumber.trans_le hnumbers, fun slot ht =>
      h.joined_kept hr hs hturn hnumber hw ht⟩
  cases hturn.origin hr ha with
  | fresh stage =>
    rw [hstage] at stage
    cases stage
  | kept _ before => exact hkept before hcode hstage
  | @parks a p₀ p' r₀ own before stage now =>
    subst now
    exact hkept before hcode stage
  | @goes d below own stack code =>
    subst own
    have hsuspended : a'.stage ≠ .fresh := by simp [hstage]
    have hsame : a'.code = d.task.coroutine.code := by
      cases System.stepCode_leads hr.sane code with
      | goesOn _ fresh => exact absurd fresh hsuspended
      | completes hcompletes => exact absurd hcompletes.fresh hsuspended
      | suspends hsame => exact hsame
    cases hbefore : d.task.coroutine.stage with
    | suspended p₀ r₀ => exact hkept (activation?_self stack) (hsame ▸ hcode) hbefore
    | fresh =>
      have hb : d.task.coroutine.Begins (.join target) := ⟨hbefore, rest, hsame ▸ hcode⟩
      obtain ⟨t, slot, htarget, hne, hslot, hregistry, hw⟩ :=
        hr.begins_join stack hb hsuspended code
      refine ⟨t, htarget, hne, (h.number hslot).trans_le hnumbers, fun slot' ht => ?_⟩
      rw [hregistry, hslot] at ht
      cases ht
      exact hw

/-- A thread that runs is alive. -/
theorem Turn.running_alive (hturn : Turn m m') (hr : m.Regular)
    (hm : ∀ {d below}, m.stack = .thread d :: below →
      (m.system.kernel.registry.get? d.thread).isSome)
    {d' : Kernel.Dispatched Activation} (hs : m'.stack = .thread d' :: below) :
    (m'.system.kernel.registry.get? d'.thread).isSome := by
  have hidle : ∀ {P : Prop}, Idle m'.stack → P := fun hi => absurd (hs ▸ List.mem_cons_self) (hi d')
  cases hturn with
  | program _ _ after =>
    rw [hs] at after
    cases after
  | @thread d a' below₀ stack code after =>
    rw [hs] at after
    cases after
    obtain ⟨slot, hslot⟩ := Option.isSome_iff_exists.1 (hm stack)
    obtain ⟨signal, hslot'⟩ := (System.stepCode_grows code).kernel.slot hslot
    exact Option.isSome_iff_exists.2 ⟨_, hslot'⟩
  | parks stack _ _ _ after | retires stack _ _ _ after =>
    exact hidle (by simpa [stack, after] using hr.below)
  | dispatches _ _ dispatch system _ after =>
    rw [hs] at after
    cases after
    obtain ⟨rfl, -, -, -, -, slot, -, -, hget⟩ := dispatch_get? dispatch
    rw [system]
    exact Option.isSome_iff_exists.2 ⟨_, (hget _).trans (if_pos rfl)⟩
  | alarm _ idle' | chooses _ idle' | quiet _ idle' => exact hidle idle'

theorem Joinable.next (h : m.Joinable) (hr : m.Regular) (hs : m.Separate) (hturn : Turn m m')
    (hready : ∀ t slot, m'.system.kernel.registry.get? t = some slot →
      slot.joinQueue ≠ m'.system.kernel.readyQueue) : m'.Joinable where
  running := hturn.running_alive hr h.running
  holds ht := (h.turn_cases hr hs (hready _ _ ht) hturn ht).1
  guarded ht := (h.turn_cases hr hs (hready _ _ ht) hturn ht).2.1
  number ht := (h.turn_cases hr hs (hready _ _ ht) hturn ht).2.2
  joined := h.joined_turn hr hs hturn

theorem Joinable.reseed (h : m.Joinable) (g : Random) : (m.reseed g).Joinable :=
  ⟨h.running, fun ht => ⟨(h.holds ht).owner, (h.holds ht).transfer⟩,
    fun ht => (h.guarded ht).reseed g, h.number, h.joined⟩

/-- There are no threads at the start. -/
theorem start_joinable {gen : Generator} {settings : Settings} {k : Kernel Activation}
    {programs : List Program} {main : List Action} (hk : Kernel.start gen settings = .ok k) :
    (Machine.start k programs main).Joinable := by
  have hnone : ∀ t, (Machine.start k programs main).activation? t = none := start_activation? hk
  obtain ⟨clock, rfl⟩ := start_ok hk
  have hempty : ∀ {P : Prop} {t : ThreadId} {slot : Slot Activation},
      (Registry.empty : Registry Activation).get? t = some slot → P := fun {_ t _} hs =>
    nomatch (Directory.get?_empty t).symm.trans hs
  exact ⟨fun hs => (nomatch hs), fun ht => hempty ht, fun ht => hempty ht, fun ht => hempty ht,
    fun ha => nomatch (hnone _).symm.trans ha⟩

end Machine

theorem Execution.joinable {n i : Nat} {ms : Nat → Machine} (h : Execution n ms)
    (hs : ∀ j ≤ n, (ms j).Separate) (hi : i ≤ n) : (ms i).Joinable := by
  induction i with
  | zero =>
    obtain ⟨_, _, k, programs, main, hk, hm⟩ := h.start
    rw [hm]
    exact Machine.start_joinable hk
  | succ i ih =>
    have hcoherent := h.coherent (Nat.le_of_succ_le hi)
    obtain ⟨m, g, -, hturn, hm⟩ := h.next hi hcoherent
    have hseparate := hs (i + 1) hi
    rw [hm] at hseparate ⊢
    exact ((ih (Nat.le_of_succ_le hi)).next hcoherent.toRegular (hs i (Nat.le_of_succ_le hi)) hturn
      hseparate.ready).reseed g

end ThreadKernel
