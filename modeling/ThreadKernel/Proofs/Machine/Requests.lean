import ThreadKernel.Proofs.Machine.Deals

/-!
# ThreadKernel.Proofs.Machine.Requests

What programs ask of the kernel. A step of a program makes one of a dozen calls, whatever its
instruction is, so that a fact about all steps takes one lemma for each call.

* `System.OfUse`       — the queues of locks and conditions.
* `System.Requests`    — the calls, and what in the program they stem from.
* `stepCode_requests`  — a step makes one of them, behind the poll of its yield point.
* `System.Enlists`     — what a step does to alarms.
-/

namespace ThreadKernel

open Kernel (Passes)

namespace System

/-- The queue of a lock or of a condition. -/
def OfUse (q : QueueId) (s : System) : Prop := ∃ u ∈ s.uses, u.queue = q

/-- A queue that the program handles itself, or that of a lock or a condition. -/
def Reaches (a : Activation) (q : QueueId) (s : System) : Prop := a.Touches q s ∨ s.OfUse q

/-- The kernel that a call leaves. -/
inductive Requests (a : Activation) (s : System) (k : Kernel Activation) : Prop where
  | nothing (table : k.table = s.kernel.table) (registry : k.registry = s.kernel.registry)
  | adjusts {t : ThreadId} {p : Nat}
      (adjusted : s.kernel.withTable (s.kernel.table.setPriority t p) = .ok k)
  | creates (transfer : Bool) (created : k = (s.kernel.createQueue transfer).2)
  | destroys {q : QueueId} (touches : a.Touches q s) (destroyed : s.kernel.destroyQueue q = .ok k)
  | spawns {j : Nat} {x : Program} {t : ThreadId} (begins : a.Begins (.act (.spawn j)))
      (named : s.programs[j]? = some x)
      (spawned : s.kernel.spawn x.name (.start x.code) = .ok (t, k))
  | enqueues {q : QueueId} {t : ThreadId} (reaches : s.Reaches a q)
      (enqueued : s.kernel.withTable (s.kernel.table.waitForAccess q t) = .ok k)
  | joins {target : ThreadRef} {t u : ThreadId} {slot : Slot Activation}
      (begins : a.Begins (.join target)) (resolved : target.resolve s.kernel = .ok t)
      (current : s.kernel.registry.current = some u) (other : u ≠ t)
      (alive : s.kernel.registry.get? t = some slot)
      (enqueued : s.kernel.withTable (s.kernel.table.waitForAccess slot.joinQueue u) = .ok k)
  | acquires {q : QueueId} {t : ThreadId} (reaches : s.Reaches a q)
      (acquired : s.kernel.withTable (s.kernel.table.acquire q t) = .ok k)
  | serves {q : QueueId} {served : Option ThreadId} (touches : a.Touches q s)
      (next : s.kernel.nextThread q = .ok (served, k))
  | readies {target : ThreadRef} {t : ThreadId} (begins : a.Begins (.act (.markReady target)))
      (ready : s.kernel.markReady t = .ok k)
  | passes {q : QueueId} {served : Option ThreadId} (use : s.OfUse q)
      (passed : Passes q s.kernel served k)
  | empties {q : QueueId} (use : s.OfUse q) (emptied : s.kernel.enter.handOverAll q = .ok k)
  | sleeps {q r : QueueId} {t : ThreadId} {served : Option ThreadId} {k₁ : Kernel Activation}
      (lock : s.OfUse q) (condition : s.OfUse r) (passed : Passes q s.kernel.enter served k₁)
      (enqueued : k₁.waitForAccess r t = .ok k)

/-- What a step does to the alarms: a thread is put on one of them as it begins to wait. -/
inductive Enlists (a : Activation) (s s' : System) : Prop where
  | same (alarms : s'.alarms = s.alarms)
  | creates (alarms : s'.alarms = s.alarms ++ [.empty])
  | enlists {j ticks : Nat} {t : ThreadId} {alarm : Alarm} (begins : a.Begins (.wait j ticks))
      (current : s.kernel.registry.current = some t) (named : s.alarms[j]? = some alarm)
      (alarms : s'.alarms = s.alarms.set j (alarm.push (Clock.after s.kernel.now ticks) t))

/-- The kernel after a step, but for the interrupt level, is what a call left. -/
structure Executes (a : Activation) (s s' : System) : Prop where
  kernel : ∃ k level, Requests a s k ∧ s'.kernel = k.restore level
  alarms : Enlists a s s'

variable {a a' b : Activation} {s s' s₁ : System} {v : Value} {actor : Actor} {i : Instr}
  {rest : List Instr} {k : Kernel Activation} {q : QueueId} {t : ThreadId}

theorem ofUse_lock {j : Nat} {l : Lock} (hl : s.locks[j]? = some l) : s.OfUse l.queue :=
  ⟨_, mem_uses_lock hl, rfl⟩

theorem ofUse_condition {j : Nat} {c : Condition} (hc : s.conditions[j]? = some c) :
    s.OfUse c.queue := ⟨_, mem_uses_condition hc, rfl⟩

theorem Executes.of_requests (h : Requests a s s'.kernel)
    (ha : s'.alarms = s.alarms := by rfl) : Executes a s s' :=
  ⟨⟨_, s'.kernel.level, h, rfl⟩, .same ha⟩

theorem Executes.nothing (ht : s'.kernel.table = s.kernel.table)
    (hr : s'.kernel.registry = s.kernel.registry) (ha : s'.alarms = s.alarms := by rfl) :
    Executes a s s' := .of_requests (.nothing ht hr) ha

/-- The log and the level do not matter to alarms. -/
theorem Enlists.congr (h : Enlists a s s₁) (hs : s'.alarms = s₁.alarms) : Enlists a s s' := by
  cases h with
  | same alarms => exact .same (hs.trans alarms)
  | creates alarms => exact .creates (hs.trans alarms)
  | enlists begins current named alarms => exact .enlists begins current named (hs.trans alarms)

theorem Executes.returns (hr : s₁.returns actor v b = .ok (.go a' s')) (hc : b.code = i :: rest)
    (h : Executes a s s₁) : Executes a s s' := by
  obtain ⟨level, hgo⟩ := returns_eq hc hr
  obtain ⟨⟨k, _, hreq, hk⟩, halarms⟩ := h
  cases hgo
  exact ⟨⟨k, level, hreq, by rw [hk]; rfl⟩, halarms.congr rfl⟩

theorem Executes.blocks {r : Resume} (hr : s₁.blocks r b = .ok (.go a' s'))
    (h : Executes a s s₁) : Executes a s s' := by
  obtain ⟨-, hgo⟩ := blocks_eq hr
  cases hgo
  exact h

/-! ## Calls of the kernel within the atomic region -/

theorem Executes.enqueues (hq : s.Reaches a q) (hw : s.kernel.enter.waitForAccess q t = .ok k)
    (hs : s'.kernel = k) (ha : s'.alarms = s.alarms := by rfl) : Executes a s s' := by
  obtain ⟨tb, htb, rfl⟩ := Kernel.waitForAccess_ok hw
  have htb : s.kernel.table.waitForAccess q t = .ok tb := htb
  exact ⟨⟨{ s.kernel with table := tb }, .disabled,
    .enqueues hq (congrArg s.kernel.withTable htb), hs⟩, .same ha⟩

theorem Executes.acquires {level : Level} (hq : s.Reaches a q)
    (hw : s.kernel.enter.acquire q t = .ok k) (hs : s'.kernel = k.restore level)
    (ha : s'.alarms = s.alarms := by rfl) : Executes a s s' := by
  obtain ⟨tb, htb, rfl⟩ := Kernel.acquire_ok hw
  have htb : s.kernel.table.acquire q t = .ok tb := htb
  exact ⟨⟨{ s.kernel with table := tb }, level,
    .acquires hq (congrArg s.kernel.withTable htb), hs⟩, .same ha⟩

/-! ## Actions -/

theorem change_executes {f : Except Fault (Kernel Activation)} (hr : s.change f = .ok (v, s'))
    (hf : ∀ {k}, f = .ok k → Requests a s k) : Executes a s s' := by
  obtain ⟨k, hk, rfl⟩ := change_ok hr
  exact .of_requests (hf hk)

theorem serve_executes (hq : a.Touches q s) (hr : s.serve q = .ok (v, s')) :
    Executes a s s' := by
  obtain ⟨_, _, hn, rfl⟩ := serve_ok hr
  exact .of_requests (.serves hq hn)

theorem perform_executes {c : Action} (hb : a.Begins (.act c)) (hr : s.perform c = .ok (v, s')) :
    Executes a s s' := by
  have same : s' = s → Executes a s s' := by
    rintro rfl
    exact .nothing rfl rfl
  have touches : ∀ {q}, c.Touches q s → a.Touches q s := fun hq => ⟨c, hb, hq⟩
  cases c with
  | atomic | enter | exit | guard | unguard | run | inAtomic | note | now | policy | bounds
  | tryCurrent | numThreads | read =>
    cases hr
    exact same rfl
  | assertAtomic | current | ownerOf | waitersOf | held | holder | alarmSleepers =>
    exact same (answer_ok hr)
  | alive t =>
    obtain ⟨u, hu⟩ := onThread_ok hr
    cases hu
    exact same rfl
  | getPriority t | getEffective t =>
    obtain ⟨u, hu⟩ := onThread_ok hr
    exact same (answer_ok hu)
  | waitQueueOwner j | waitQueueSize j =>
    obtain ⟨p, hp⟩ := onWaitQueue_ok hr
    exact same (answer_ok hp)
  | sleepers c =>
    exact same (sleepers_ok hr)
  | spawn j =>
    obtain ⟨_, _, _, hx, hk, rfl⟩ := spawn_ok hr
    exact .of_requests (.spawns hb hx hk)
  | markReady t =>
    obtain ⟨u, hu⟩ := onThread_ok hr
    exact change_executes hu (.readies hb)
  | setPriority t p =>
    obtain ⟨u, hu⟩ := onThread_ok hr
    exact change_executes hu fun hk => .adjusts (Kernel.atomically_ok hk)
  | increasePriority =>
    obtain ⟨_, k, hk, rfl⟩ := shift_ok hr
    rcases Kernel.increasePriority_cases hk with rfl | ⟨t, p, -, hset⟩
    · exact same rfl
    · exact .of_requests (.adjusts hset)
  | decreasePriority =>
    obtain ⟨_, k, hk, rfl⟩ := shift_ok hr
    rcases Kernel.decreasePriority_cases hk with rfl | ⟨t, p, -, hset⟩
    · exact same rfl
    · exact .of_requests (.adjusts hset)
  | createQueue transfer | newWaitQueue transfer =>
    cases hr
    exact .of_requests (.creates transfer rfl)
  | newLock =>
    cases hr
    exact .of_requests (.creates true rfl)
  | newCondition l =>
    obtain ⟨_, -, rfl⟩ := newCondition_ok hr
    exact .of_requests (.creates false rfl)
  | destroyQueue p => exact change_executes hr (.destroys (touches rfl))
  | dropWaitQueue j =>
    obtain ⟨p, k, hp, hk, rfl⟩ := dropWaitQueue_ok hr
    exact .of_requests (.destroys (touches hp) hk)
  | waitOn p t =>
    obtain ⟨u, hu⟩ := onThread_ok hr
    exact change_executes hu fun hk => .enqueues (.inl (touches rfl)) (Kernel.atomically_ok hk)
  | waitQueueWait j t =>
    obtain ⟨u, hu⟩ := onThread_ok hr
    obtain ⟨p, hp, hf⟩ := onWaitQueue_cases hu
    exact change_executes hf fun hk => .enqueues (.inl (touches hp)) (Kernel.atomically_ok hk)
  | acquireQueue p t =>
    obtain ⟨u, hu⟩ := onThread_ok hr
    exact change_executes hu fun hk => .acquires (.inl (touches rfl)) (Kernel.atomically_ok hk)
  | waitQueueAcquire j t =>
    obtain ⟨u, hu⟩ := onThread_ok hr
    obtain ⟨p, hp, hf⟩ := onWaitQueue_cases hu
    exact change_executes hf fun hk => .acquires (.inl (touches hp)) (Kernel.atomically_ok hk)
  | serve p => exact serve_executes (touches rfl) hr
  | waitQueueNext j =>
    obtain ⟨p, hp, hf⟩ := onWaitQueue_cases hr
    exact serve_executes (touches hp) hf
  | release l =>
    obtain ⟨l, l', k, hl, hrel, rfl⟩ := releaseLock_ok hr
    obtain ⟨t, -, -, served, hp, rfl⟩ := Lock.release_cases hrel
    exact .of_requests (.passes (ofUse_lock hl) hp)
  | wake c =>
    obtain ⟨c, l, k, hc, -, hk, rfl⟩ := onCondition_ok hr
    obtain ⟨t, -, -, served, hp⟩ := Condition.wake_cases hk
    exact .of_requests (.passes (ofUse_condition hc) hp)
  | wakeAll c =>
    obtain ⟨c, l, k, hc, -, hk, rfl⟩ := onCondition_ok hr
    obtain ⟨t, -, -, k₁, hall, rfl⟩ := Condition.wakeAll_cases hk
    exact ⟨⟨k₁, s.kernel.level, .empties (ofUse_condition hc) hall, rfl⟩, .same rfl⟩
  | newAlarm =>
    cases hr
    exact ⟨⟨_, s.kernel.level, .nothing rfl rfl, rfl⟩, .creates rfl⟩
  | timer n body | set v x | add v x | copy v w =>
    cases hr
    exact .nothing rfl rfl

/-! ## Instructions -/

theorem stepAction_executes {c : Action} (hb : a.Begins (.act c)) (hc : a.code = .act c :: rest)
    (hr : s.stepAction actor c rest a = .ok (.go a' s')) : Executes a s s' := by
  have hleave : ∀ saved, Executes a s (s.leaveNewest saved) := fun saved => by
    cases saved <;> exact .nothing rfl rfl
  unfold System.stepAction at hr
  simp only at hr
  split at hr
  · cases hr
    exact .nothing rfl rfl
  · exact .returns hr hc (.nothing rfl rfl)
  · exact .returns hr hc (hleave _)
  · exact .returns hr hc (.nothing rfl rfl)
  · exact .returns hr hc (hleave _)
  · split at hr <;> cases hr
  · split at hr
    · cases hr
    · rename_i hperf
      exact .returns hr hc (perform_executes hb hperf)

theorem beginJoin_executes {target : ThreadRef} (hb : a.Begins (.join target))
    (hr : s.beginJoin actor target a = .ok (.go a' s')) : Executes a s s' := by
  obtain ⟨-, rest, hc⟩ := id hb
  obtain ⟨t, u, ht, hu, hne, ⟨-, hr⟩ | ⟨slot, k, hslot, hk, hr⟩⟩ := beginJoin_cases hr
  · exact .returns hr hc (.nothing rfl rfl)
  · obtain ⟨tb, htb, rfl⟩ := Kernel.waitForAccess_ok hk
    have htb : s.kernel.table.waitForAccess slot.joinQueue u = .ok tb := htb
    exact .blocks hr ⟨⟨{ s.kernel with table := tb }, .disabled,
      .joins hb ht hu hne hslot (congrArg s.kernel.withTable htb), rfl⟩, .same rfl⟩

theorem beginAcquire_executes {j : Nat} (hc : a.code = i :: rest)
    (hr : s.beginAcquire actor j a = .ok (.go a' s')) : Executes a s s' := by
  obtain ⟨l, t, hl, -, ⟨k, -, hk, hr⟩ | ⟨u, k, -, -, hk, hr⟩⟩ := beginAcquire_cases hr
  · exact .returns hr hc (.acquires (.inr (ofUse_lock hl)) hk rfl)
  · exact .blocks hr (.enqueues (.inr (ofUse_lock hl)) hk rfl)

theorem stepInstr_executes (hb : a.Begins i) (hc : a.code = i :: rest)
    (hr : s.stepInstr actor i rest a = .ok (.go a' s')) : Executes a s s' := by
  cases i with
  | act c => exact stepAction_executes hb hc hr
  | yield =>
    simp only [System.stepInstr] at hr
    split at hr
    · cases hr
    · cases hr
      exact .nothing rfl rfl
  | block => exact .blocks hr (.nothing rfl rfl)
  | join target => exact beginJoin_executes hb hr
  | acquire l => exact beginAcquire_executes hc hr
  | sleep c =>
    obtain ⟨c, l, t, l', k₁, k, hc, hl, -, -, hrel, hw, hr⟩ := beginSleep_cases hr
    obtain ⟨_, -, -, served, hp, rfl⟩ := Lock.release_cases hrel
    exact .blocks hr (.of_requests (.sleeps (ofUse_lock hl) (ofUse_condition hc) hp hw))
  | wait j ticks =>
    obtain ⟨alarm, t, halarm, hcur, hr⟩ := beginWait_cases hr
    exact .blocks hr ⟨⟨s.kernel, .disabled, .nothing rfl rfl, rfl⟩, .enlists hb hcur halarm rfl⟩
  | loop n body =>
    cases n <;>
      · cases hr
        exact .nothing rfl rfl
  | whileEq v y body | whileNe v y body | whileSame v w body | ifEq v y body =>
    cases hr
    exact .nothing rfl rfl

/-! ## Behind a yield point -/

theorem stepResume_executes {r : Resume} (hc : a.code = i :: rest)
    (hr : s.stepResume actor t r a = .ok (.go a' s')) : Executes a s s' := by
  have hleaves : ∀ level, Executes a s (s.withKernel (s.kernel.restore level)) := fun _ =>
    .nothing rfl rfl
  cases r with
  | proceed => exact .returns hr hc (.nothing rfl rfl)
  | leave level => exact .returns hr hc (hleaves level)
  | takeOver l level =>
    simp only [System.stepResume] at hr
    split at hr
    · cases hr
    · split at hr
      · exact .returns hr hc (hleaves level)
      · cases hr
  | relock l level =>
    obtain ⟨m, t, hl, -, ⟨k, -, hk, hr⟩ | ⟨u, k, -, -, hk, hr⟩⟩ := beginAcquire_cases hr
    · exact .returns hr hc (.acquires (.inr (ofUse_lock hl)) hk rfl)
    · exact .blocks hr (.enqueues (.inr (ofUse_lock hl)) hk rfl)

/-- A step makes a call, and polls its yield point before. -/
theorem stepCode_executes (hr : s.stepCode actor a = .ok (.go a' s')) :
    a.stage = .fresh ∧ Executes a s s' ∨
      ∃ t p r p' k, a.stage = .suspended p r ∧ s.kernel.registry.current = some t ∧
        s.kernel.pollPoint t p = (true, p', k) ∧ Executes a (s.withKernel k) s' := by
  cases stepCode_ok hr with
  | @begins i rest _ code stage instr =>
    exact .inl ⟨stage, stepInstr_executes ⟨stage, rest, code⟩ code instr⟩
  | resumes code stage current poll resume =>
    exact .inr ⟨_, _, _, _, _, stage, current, poll, stepResume_executes code resume⟩

end System
end ThreadKernel
