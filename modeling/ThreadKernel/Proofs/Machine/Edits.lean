import ThreadKernel.Proofs.Kernel.Course
import ThreadKernel.Proofs.Kernel.Tenure
import ThreadKernel.Proofs.Machine.Guards

/-!
# ThreadKernel.Proofs.Machine.Edits

What a step of a program does to the scheduling table, operation by operation, and who the
operations are about. Locks keep a record of their holder beside the table, so a step that hands a
lock over is told together with that record.

* `Action.op?`     — the operation that an action asks for on what it names itself.
* `System.Edit`    — an operation that a step may ask of the table, and what it stems from.
* `System.Edits`   — all that a step does to the table and to the locks.
* `stepCode_edits` — every step of a program is one of these.
* `Machine.Reworks` — the same for all steps of a machine.
-/

namespace ThreadKernel

open Kernel (Passes Retains)
open Table (Course Op)

/-- The queue that an operation is about, if it is about one that exists. -/
def Table.Op.queue? : Op → Option QueueId
  | .destroyQueue q | .waitForAccess q _ | .acquire q _ | .nextThread q | .releaseOwnership q =>
    some q
  | .createQueue _ | .setPriority _ _ | .removeThread _ => none

/-- The action makes a queue. -/
def Action.Makes (transfer : Bool) : Action → Prop
  | .createQueue b | .newWaitQueue b => b = transfer
  | .newLock | .spawn _ => transfer = true
  | .newCondition _ => transfer = false
  | _ => False

/-- The thread that a program refers to. -/
def System.target? (t : ThreadRef) (s : System) : Option ThreadId :=
  (t.resolve s.kernel).toOption

/-- A wait queue of the program that it has not dropped. -/
def System.waitQueue? (i : Nat) (s : System) : Option QueueId := s.waitQueues[i]?.join

/-- The operation that the action asks of the table for a queue or a thread that it names. -/
def Action.op? (s : System) : Action → Option Op
  | .setPriority t p => (s.target? t).map (Op.setPriority · p)
  | .destroyQueue q => some (.destroyQueue q)
  | .waitOn q t => (s.target? t).map (Op.waitForAccess q)
  | .acquireQueue q t => (s.target? t).map (Op.acquire q)
  | .serve q => some (.nextThread q)
  | .dropWaitQueue i => (s.waitQueue? i).map Op.destroyQueue
  | .waitQueueWait i t => (s.waitQueue? i).bind fun q => (s.target? t).map (Op.waitForAccess q)
  | .waitQueueAcquire i t => (s.waitQueue? i).bind fun q => (s.target? t).map (Op.acquire q)
  | .waitQueueNext i => (s.waitQueue? i).map Op.nextThread
  | _ => none

/-- That of the instruction that the program is about to begin. -/
def Activation.op? (s : System) (a : Activation) : Option Op :=
  match a.stage, a.code with
  | .fresh, .act c :: _ => c.op? s
  | _, _ => none

theorem Activation.Begins.op?_eq {a : Activation} {c : Action} (h : a.Begins (.act c))
    (s : System) : a.op? s = c.op? s := by
  obtain ⟨hfresh, rest, hcode⟩ := h
  rw [Activation.op?, hfresh, hcode]

namespace System

/-- An operation that a step of the program may ask of the table, but for those that change the
holder of a lock. -/
inductive Edit (a : Activation) (s : System) : Op → Prop where
  | creates {c : Action} {transfer : Bool} (begins : a.Begins (.act c))
      (makes : c.Makes transfer) : Edit a s (.createQueue transfer)
  | adjusts {t : ThreadId} {p : Nat} (current : s.kernel.registry.current = some t) :
      Edit a s (.setPriority t p)
  | adjustsNamed {target : ThreadRef} {t : ThreadId} {p : Nat}
      (begins : a.Begins (.act (.setPriority target p)))
      (resolved : target.resolve s.kernel = .ok t) : Edit a s (.setPriority t p)
  /-- A new thread gets its join queue -/
  | grants {j : Nat} {q : QueueId} (begins : a.Begins (.act (.spawn j)))
      (absent : s.kernel.table.queue? q = none) :
      Edit a s (.acquire q ⟨s.kernel.registry.nextNumber⟩)
  /-- and becomes ready. -/
  | admits {j : Nat} (begins : a.Begins (.act (.spawn j))) :
      Edit a s (.waitForAccess s.kernel.readyQueue ⟨s.kernel.registry.nextNumber⟩)
  | joins {t u : ThreadId} {slot : Slot Activation}
      (current : s.kernel.registry.current = some t)
      (alive : s.kernel.registry.get? u = some slot) : Edit a s (.waitForAccess slot.joinQueue t)
  | waits {t u : ThreadId} {i : Nat} {l : Lock} (current : s.kernel.registry.current = some t)
      (lock : s.locks[i]? = some l) (held : l.holder = some u) (other : u ≠ t) :
      Edit a s (.waitForAccess l.queue t)
  | sleeps {t : ThreadId} {j : Nat} {c : Condition}
      (current : s.kernel.registry.current = some t) (condition : s.conditions[j]? = some c) :
      Edit a s (.waitForAccess c.queue t)
  | wakes {j : Nat} {c : Condition} (condition : s.conditions[j]? = some c) :
      Edit a s (.nextThread c.queue)
  | handles {q : QueueId} {op : Op} (touches : a.Touches q s) (about : op.queue? = some q)
      (asked : a.op? s = some op) : Edit a s op

/-- What a step of the program does to the table and to the locks. -/
inductive Edits (a : Activation) (s s' : System) : Prop where
  | aside (table : Course (Edit a s) s.kernel.table s'.kernel.table) (locks : s.locks <+: s'.locks)
  | takes {t : ThreadId} {i : Nat} {l : Lock} (current : s.kernel.registry.current = some t)
      (lock : s.locks[i]? = some l) (free : l.holder = none)
      (table : s.kernel.table.acquire l.queue t = .ok s'.kernel.table)
      (locks : s'.locks = s.locks.set i { l with holder := some t })
  | passes {t : ThreadId} {i : Nat} {l : Lock} {served : Option ThreadId} {tb : Table}
      (current : s.kernel.registry.current = some t) (lock : s.locks[i]? = some l)
      (held : l.holder = some t) (next : s.kernel.table.nextThread l.queue = .ok (served, tb))
      (table : Course (Edit a s) tb s'.kernel.table)
      (locks : s'.locks = s.locks.set i { l with holder := served })

variable {a a' b : Activation} {s s' s₁ : System} {v : Value} {actor : Actor} {i : Instr}
  {rest : List Instr} {k : Kernel Activation} {q : QueueId} {t : ThreadId} {op : Op}

theorem target?_of_resolve {target : ThreadRef} (h : target.resolve s.kernel = .ok t) :
    s.target? target = some t := by
  rw [target?, h]
  rfl

theorem Edits.of_eq (ht : s'.kernel.table = s.kernel.table) (hl : s'.locks = s.locks) :
    Edits a s s' := .aside (.of_eq ht) (hl ▸ List.prefix_rfl)

/-- A single operation. -/
theorem Edits.single (op : Op) (hop : Edit a s op)
    (ha : s.kernel.table.apply op = .ok s'.kernel.table)
    (hl : s'.locks = s.locks := by rfl) : Edits a s s' :=
  .aside (.single op hop ha) (hl ▸ List.prefix_rfl)

/-- Levels and the log do not matter. -/
theorem Edits.congr (h : Edits a s s₁) (ht : s'.kernel.table = s₁.kernel.table)
    (hl : s'.locks = s₁.locks) : Edits a s s' := by
  cases h with
  | aside table locks => exact .aside (ht ▸ table) (hl ▸ locks)
  | takes current lock free table locks =>
    exact .takes current lock free (ht ▸ table) (hl.trans locks)
  | passes current lock held next table locks =>
    exact .passes current lock held next (ht ▸ table) (hl.trans locks)

theorem Edits.returns (hr : s₁.returns actor v b = .ok (.go a' s')) (hc : b.code = i :: rest)
    (h : Edits a s s₁) : Edits a s s' := by
  obtain ⟨level, hgo⟩ := returns_eq hc hr
  cases hgo
  exact h.congr rfl rfl

theorem Edits.blocks {r : Resume} (hr : s₁.blocks r b = .ok (.go a' s')) (h : Edits a s s₁) :
    Edits a s s' := by
  obtain ⟨-, hgo⟩ := blocks_eq hr
  cases hgo
  exact h

/-! ## Actions -/

theorem onThread_cases {target : ThreadRef} {f : ThreadId → Effect}
    (h : s.onThread target f = .ok (v, s')) :
    ∃ t, target.resolve s.kernel = .ok t ∧ f t = .ok (v, s') := by
  unfold onThread at h
  split at h
  · cases h
  · rename_i t ht
    exact ⟨t, ht, h⟩

/-- A call of the kernel that is one operation of the table. -/
theorem Edits.change {f : Except Fault (Kernel Activation)} (op : Op) (hop : Edit a s op)
    (hr : s.change f = .ok (v, s'))
    (hf : ∀ {k}, f = .ok k → s.kernel.withTable (s.kernel.table.apply op) = .ok k) :
    Edits a s s' := by
  obtain ⟨k, hk, rfl⟩ := change_ok hr
  obtain ⟨tb, htb, rfl⟩ := Kernel.withTable_ok (hf hk)
  exact .single op hop htb

/-- The running thread changes its own priority. -/
theorem Edits.shift {f : Except Fault (Bool × Kernel Activation)} (hr : s.shift f = .ok (v, s'))
    (hf : ∀ {c k}, f = .ok (c, k) → k = s.kernel ∨ ∃ t p, s.kernel.currentThread = .ok t ∧
      s.kernel.withTable (s.kernel.table.setPriority t p) = .ok k) : Edits a s s' := by
  obtain ⟨c, k, hk, rfl⟩ := shift_ok hr
  rcases hf hk with rfl | ⟨t, p, ht, hset⟩
  · exact .of_eq rfl rfl
  · obtain ⟨tb, htb, rfl⟩ := Kernel.withTable_ok hset
    exact .single (.setPriority t p) (.adjusts (Kernel.currentThread_ok ht)) htb

theorem Edits.serve (hq : a.Touches q s) (ha : a.op? s = some (.nextThread q))
    (hr : s.serve q = .ok (v, s')) : Edits a s s' := by
  obtain ⟨_, _, hn, rfl⟩ := serve_ok hr
  obtain ⟨tb, htb, rfl⟩ := Kernel.nextThread_ok hn
  exact .single _ (.handles hq rfl ha) (Table.apply_nextThread htb)

theorem Edits.releaseLock {j : Nat} (hr : s.releaseLock j = .ok (v, s')) : Edits a s s' := by
  obtain ⟨l, l', k, hl, hrel, rfl⟩ := releaseLock_ok hr
  obtain ⟨t, hcur, hheld, served, hp, rfl⟩ := Lock.release_cases hrel
  exact .passes hcur hl hheld hp.table .refl rfl

theorem Edits.wake {j : Nat} (hr : s.onCondition j Condition.wake = .ok (v, s')) :
    Edits a s s' := by
  obtain ⟨c, l, k, hc, -, hk, rfl⟩ := onCondition_ok hr
  obtain ⟨t, -, -, served, hp⟩ := Condition.wake_cases hk
  exact .single _ (.wakes hc) (Table.apply_nextThread hp.table)

theorem Edits.wakeAll {j : Nat} (hr : s.onCondition j Condition.wakeAll = .ok (v, s')) :
    Edits a s s' := by
  obtain ⟨c, l, k, hc, -, hk, rfl⟩ := onCondition_ok hr
  obtain ⟨t, -, -, k₁, hall, rfl⟩ := Condition.wakeAll_cases hk
  have hcourse : Course (Edit a s) s.kernel.enter.table k₁.table :=
    Kernel.handOverAll_course (.wakes hc) hall
  exact .aside hcourse List.prefix_rfl

theorem Edits.spawn {j : Nat} (hb : a.Begins (.act (.spawn j))) (hr : s.spawn j = .ok (v, s')) :
    Edits a s s' := by
  obtain ⟨_, _, _, -, hk, rfl⟩ := spawn_ok hr
  exact .aside (Kernel.spawn_course (.creates hb rfl) (fun _ => .grants hb) (.admits hb) hk)
    List.prefix_rfl

theorem perform_edits {c : Action} (hb : a.Begins (.act c)) (hr : s.perform c = .ok (v, s')) :
    Edits a s s' := by
  have same : s' = s → Edits a s s' := by
    rintro rfl
    exact .of_eq rfl rfl
  have touches : ∀ {q}, c.Touches q s → a.Touches q s := fun hq => ⟨c, hb, hq⟩
  have asked : ∀ {op}, c.op? s = some op → a.op? s = some op := fun ho => (hb.op?_eq s).trans ho
  cases c with
  | atomic | enter | exit | guard | unguard | run | inAtomic | note | now | policy | bounds
  | tryCurrent | numThreads | read =>
    cases hr
    exact same rfl
  | assertAtomic | current | ownerOf | waitersOf | held | holder | alarmSleepers =>
    exact same (answer_ok hr)
  | alive t =>
    obtain ⟨u, hu⟩ := onThread_ok hr
    cases hu
    exact same rfl
  | getPriority t | getEffective t =>
    obtain ⟨u, hu⟩ := onThread_ok hr
    exact same (answer_ok hu)
  | waitQueueOwner j | waitQueueSize j =>
    obtain ⟨p, hp⟩ := onWaitQueue_ok hr
    exact same (answer_ok hp)
  | sleepers c =>
    exact same (sleepers_ok hr)
  | spawn j => exact .spawn hb hr
  | markReady t =>
    obtain ⟨u, hu⟩ := onThread_ok hr
    obtain ⟨k, hk, rfl⟩ := change_ok hu
    exact .of_eq (Kernel.markReady_table hk) rfl
  | setPriority target p =>
    obtain ⟨u, hu, hf⟩ := onThread_cases hr
    exact .change (.setPriority u p) (.adjustsNamed hb hu) hf Kernel.atomically_ok
  | increasePriority => exact .shift hr Kernel.increasePriority_cases
  | decreasePriority => exact .shift hr Kernel.decreasePriority_cases
  | createQueue transfer | newWaitQueue transfer =>
    cases hr
    exact .single _ (.creates hb rfl) rfl
  | newLock =>
    cases hr
    exact .aside (.single _ (.creates hb rfl) rfl) (List.prefix_append _ _)
  | newCondition l =>
    obtain ⟨_, -, rfl⟩ := newCondition_ok hr
    exact .single _ (.creates hb rfl) rfl
  | destroyQueue p =>
    exact .change (.destroyQueue p) (.handles (touches rfl) rfl (asked rfl)) hr id
  | dropWaitQueue j =>
    obtain ⟨p, k, hp, hk, rfl⟩ := dropWaitQueue_ok hr
    obtain ⟨tb, htb, rfl⟩ := Kernel.withTable_ok hk
    exact .single (.destroyQueue p)
      (.handles (touches hp) rfl (asked (by simp [Action.op?, waitQueue?, hp]))) htb
  | waitOn p t =>
    obtain ⟨u, hu, hf⟩ := onThread_cases hr
    exact .change (.waitForAccess p u)
      (.handles (touches rfl) rfl (asked (by simp [Action.op?, target?_of_resolve hu]))) hf
      Kernel.atomically_ok
  | waitQueueWait j t =>
    obtain ⟨u, hu, hf⟩ := onThread_cases hr
    obtain ⟨p, hp, hf⟩ := onWaitQueue_cases hf
    exact .change (.waitForAccess p u) (.handles (touches hp) rfl
      (asked (by simp [Action.op?, waitQueue?, hp, target?_of_resolve hu]))) hf Kernel.atomically_ok
  | acquireQueue p t =>
    obtain ⟨u, hu, hf⟩ := onThread_cases hr
    exact .change (.acquire p u)
      (.handles (touches rfl) rfl (asked (by simp [Action.op?, target?_of_resolve hu]))) hf
      Kernel.atomically_ok
  | waitQueueAcquire j t =>
    obtain ⟨u, hu, hf⟩ := onThread_cases hr
    obtain ⟨p, hp, hf⟩ := onWaitQueue_cases hf
    exact .change (.acquire p u) (.handles (touches hp) rfl
      (asked (by simp [Action.op?, waitQueue?, hp, target?_of_resolve hu]))) hf Kernel.atomically_ok
  | serve p => exact .serve (touches rfl) (asked rfl) hr
  | waitQueueNext j =>
    obtain ⟨p, hp, hf⟩ := onWaitQueue_cases hr
    exact .serve (touches hp) (asked (by simp [Action.op?, waitQueue?, hp])) hf
  | release l => exact .releaseLock hr
  | wake c => exact .wake hr
  | wakeAll c => exact .wakeAll hr
  | newAlarm =>
    cases hr
    exact .of_eq rfl rfl
  | timer n body | set v x | add v x | copy v w =>
    cases hr
    exact .of_eq rfl rfl

/-! ## Instructions -/

theorem stepAction_edits {c : Action} (hb : a.Begins (.act c)) (hc : a.code = .act c :: rest)
    (hr : s.stepAction actor c rest a = .ok (.go a' s')) : Edits a s s' := by
  have hleave : ∀ saved, Edits a s (s.leaveNewest saved) := fun saved => by
    cases saved <;> exact .of_eq rfl rfl
  unfold System.stepAction at hr
  simp only at hr
  split at hr
  · cases hr
    exact .of_eq rfl rfl
  · exact .returns hr hc (.of_eq rfl rfl)
  · exact .returns hr hc (hleave _)
  · exact .returns hr hc (.of_eq rfl rfl)
  · exact .returns hr hc (hleave _)
  · split at hr <;> cases hr
  · split at hr
    · cases hr
    · rename_i hperf
      exact .returns hr hc (perform_edits hb hperf)

/-- A request of a lock takes it, or makes the caller wait for another thread. -/
theorem beginAcquire_edits {j : Nat} (hc : a.code = i :: rest)
    (hr : s.beginAcquire actor j a = .ok (.go a' s')) : Edits a s s' := by
  obtain ⟨l, t, hl, hcur, ⟨k, hfree, hk, hr⟩ | ⟨u, k, hheld, hne, hk, hr⟩⟩ :=
    beginAcquire_cases hr
  · obtain ⟨tb, htb, rfl⟩ := Kernel.acquire_ok hk
    exact .returns hr hc (.takes hcur hl hfree htb rfl)
  · obtain ⟨tb, htb, rfl⟩ := Kernel.waitForAccess_ok hk
    exact .blocks hr (.single (.waitForAccess l.queue t) (.waits hcur hl hheld hne) htb)

theorem beginJoin_edits {target : ThreadRef} (hc : a.code = i :: rest)
    (hr : s.beginJoin actor target a = .ok (.go a' s')) : Edits a s s' := by
  obtain ⟨t, u, -, hu, -, ⟨-, hr⟩ | ⟨slot, k, hslot, hk, hr⟩⟩ := beginJoin_cases hr
  · exact .returns hr hc (.of_eq rfl rfl)
  · obtain ⟨tb, htb, rfl⟩ := Kernel.waitForAccess_ok hk
    exact .blocks hr (.single (.waitForAccess slot.joinQueue u) (.joins hu hslot) htb)

/-- A sleep hands the lock over before it enqueues the caller. -/
theorem beginSleep_edits {j : Nat} (hr : s.beginSleep j a = .ok (.go a' s')) : Edits a s s' := by
  obtain ⟨c, l, t, l', k₁, k, hc, hl, hcur, hheld, hrel, hw, hr⟩ := beginSleep_cases hr
  obtain ⟨_, -, -, served, hp, rfl⟩ := Lock.release_cases hrel
  obtain ⟨tb, htb, rfl⟩ := Kernel.waitForAccess_ok hw
  exact .blocks hr (.passes hcur hl hheld hp.table
    (.single (.waitForAccess c.queue t) (.sleeps hcur hc) htb) rfl)

theorem stepInstr_edits (hb : a.Begins i) (hc : a.code = i :: rest)
    (hr : s.stepInstr actor i rest a = .ok (.go a' s')) : Edits a s s' := by
  cases i with
  | act c => exact stepAction_edits hb hc hr
  | yield =>
    simp only [System.stepInstr] at hr
    split at hr
    · cases hr
    · cases hr
      exact .of_eq rfl rfl
  | block => exact .blocks hr (.of_eq rfl rfl)
  | join target => exact beginJoin_edits hc hr
  | acquire l => exact beginAcquire_edits hc hr
  | sleep c => exact beginSleep_edits hr
  | wait j ticks =>
    obtain ⟨_, _, -, -, hr⟩ := beginWait_cases hr
    exact .blocks hr (.of_eq rfl rfl)
  | loop n body =>
    cases n <;>
      · cases hr
        exact .of_eq rfl rfl
  | whileEq v y body | whileNe v y body | whileSame v w body | ifEq v y body =>
    cases hr
    exact .of_eq rfl rfl

/-! ## Behind a yield point -/

/-- Only levels and wake signals differ. -/
structure Polled (s s₁ : System) : Prop where
  table : s₁.kernel.table = s.kernel.table
  current : s₁.kernel.registry.current = s.kernel.registry.current
  retains : Retains s.kernel s₁.kernel
  ready : s₁.kernel.readyQueue = s.kernel.readyQueue
  locks : s₁.locks = s.locks
  conditions : s₁.conditions = s.conditions

theorem polled_restore (s : System) (level : Level) :
    Polled s (s.withKernel (s.kernel.restore level)) :=
  ⟨rfl, rfl, .of_registry rfl, rfl, rfl, rfl⟩

theorem polled_pollPoint {p p' : YieldPoint} {ready : Bool}
    (h : s.kernel.pollPoint t p = (ready, p', k)) : Polled s (s.withKernel k) :=
  have hsteady := Kernel.pollPoint_steady h
  ⟨(Kernel.pollPoint_others h).1, hsteady.current, Kernel.pollPoint_retains h, hsteady.ready, rfl,
    rfl⟩

/-- A suspended program asks the same of the table before the poll and after it. -/
theorem Edit.behind (h : Edit a s₁ op) (hf : a.stage ≠ .fresh) (hp : Polled s s₁) :
    Edit a s op := by
  cases h with
  | creates begins | adjustsNamed begins | grants begins | admits begins =>
    exact absurd begins.1 hf
  | adjusts current => exact .adjusts (hp.current ▸ current)
  | joins current alive =>
    obtain ⟨slot, hslot, hjoin⟩ := hp.retains.slot alive
    exact hjoin ▸ .joins (hp.current ▸ current) hslot
  | waits current lock held other =>
    exact .waits (hp.current ▸ current) (hp.locks ▸ lock) held other
  | sleeps current condition => exact .sleeps (hp.current ▸ current) (hp.conditions ▸ condition)
  | wakes condition => exact .wakes (hp.conditions ▸ condition)
  | handles touches => exact absurd touches.choose_spec.1.1 hf

theorem Edits.behind (h : Edits a s₁ s') (hf : a.stage ≠ .fresh) (hp : Polled s s₁) :
    Edits a s s' := by
  have hedit : ∀ op, Edit a s₁ op → Edit a s op := fun _ hop => hop.behind hf hp
  cases h with
  | aside table locks => exact .aside (hp.table ▸ table.mono hedit) (hp.locks ▸ locks)
  | takes current lock free table locks =>
    exact .takes (hp.current ▸ current) (hp.locks ▸ lock) free (hp.table ▸ table)
      (hp.locks ▸ locks)
  | passes current lock held next table locks =>
    exact .passes (hp.current ▸ current) (hp.locks ▸ lock) held (hp.table ▸ next)
      (table.mono hedit) (hp.locks ▸ locks)

theorem stepResume_edits {r : Resume} (hc : a.code = i :: rest) (hf : a.stage ≠ .fresh)
    (hr : s.stepResume actor t r a = .ok (.go a' s')) : Edits a s s' := by
  have hleaves : ∀ level, Edits a s (s.withKernel (s.kernel.restore level)) := fun _ =>
    .of_eq rfl rfl
  cases r with
  | proceed => exact .returns hr hc (.of_eq rfl rfl)
  | leave level => exact .returns hr hc (hleaves level)
  | takeOver l level =>
    simp only [System.stepResume] at hr
    split at hr
    · cases hr
    · split at hr
      · exact .returns hr hc (hleaves level)
      · cases hr
  | relock l level => exact (beginAcquire_edits hc hr).behind hf (polled_restore s level)

theorem stepCode_edits (hr : s.stepCode actor a = .ok (.go a' s')) : Edits a s s' := by
  cases stepCode_ok hr with
  | @begins i rest _ code stage instr => exact stepInstr_edits ⟨stage, rest, code⟩ code instr
  | resumes code stage _ poll resume =>
    have hf : a.stage ≠ .fresh := by simp [stage]
    exact (stepResume_edits code hf resume).behind hf (polled_pollPoint poll)

end System

/-! ## Steps of machines -/

theorem System.code_of_go {a a' : Activation} {s s' : System} {actor : Actor}
    (hr : s.stepCode actor a = .ok (.go a' s')) : a.code ≠ [] := by
  cases stepCode_ok hr with
  | begins code | resumes code => simp [code]

theorem Alarm.release_table {alarm alarm' : Alarm} {k k' : Kernel Activation}
    (h : alarm.release k = .ok (alarm', k')) : k'.table = k.table := by
  have hwake := Alarm.wakeEach_ok (Alarm.release_ok h).1
  clear h
  generalize alarm.due k.now = l at hwake
  induction hwake with
  | nobody => rfl
  | wakes ready _ ih => exact ih.trans (Kernel.markReady_table ready)

namespace Machine

/-- What the run loop asks of the table to choose a thread. -/
inductive Choice (k : Kernel Activation) : Op → Prop where
  | admits {t : ThreadId} (alive : (k.registry.get? t).isSome) :
      Choice k (.waitForAccess k.readyQueue t)
  | serves : Choice k (.nextThread k.readyQueue)

/-- The thread is at the end of its program. -/
def Ends (t : ThreadId) (m : Machine) : Prop :=
  ∃ d below, m.stack = .thread d :: below ∧ d.thread = t ∧ d.task.coroutine.code = []

/-- What a step does to the table and to the locks. -/
inductive Reworks (m m' : Machine) : Prop where
  | program {a a' : Activation} {actor : Actor} (executes : m.executing? = some a)
      (lives : ∀ t, ¬ m.Ends t) (code : m.system.stepCode actor a = .ok (.go a' m'.system))
  | chooses (lives : ∀ t, ¬ m.Ends t)
      (course : Course (Choice m.system.kernel) m.system.kernel.table m'.system.kernel.table)
      (locks : m'.system.locks = m.system.locks)
  | retires {d : Kernel.Dispatched Activation} {below : List Frame} {slot : Slot Activation}
      {tb : Table} (stack : m.stack = .thread d :: below) (code : d.task.coroutine.code = [])
      (alive : m.system.kernel.registry.get? d.thread = some slot)
      (course : Course (Kernel.TearsDown slot.joinQueue m.system.kernel.readyQueue)
        m.system.kernel.table tb)
      (removed : tb.removeThread d.thread = .ok m'.system.kernel.table)
      (locks : m'.system.locks = m.system.locks)
  | quiet (lives : ∀ t, ¬ m.Ends t) (table : m'.system.kernel.table = m.system.kernel.table)
      (locks : m'.system.locks = m.system.locks)

variable {m m' : Machine}

theorem thread?_cases {t : ThreadId} (h : m.thread? = some t) :
    ∃ d below, m.stack = .thread d :: below ∧ d.thread = t := by
  unfold thread? at h
  split at h
  · rename_i d below hs
    exact ⟨d, below, hs, Option.some.inj h⟩
  · cases h

theorem not_ends_of_idle (h : Idle m.stack) (t : ThreadId) : ¬ m.Ends t := by
  rintro ⟨d, below, hs, -⟩
  exact h d (hs ▸ List.mem_cons_self)

theorem not_ends_of_code {d : Kernel.Dispatched Activation} {below : List Frame}
    (hs : m.stack = .thread d :: below) (hc : d.task.coroutine.code ≠ []) (t : ThreadId) :
    ¬ m.Ends t := by
  rintro ⟨d', below', hs', -, hc'⟩
  cases hs.symm.trans hs'
  exact hc hc'

theorem chooseThread_choice {k k' : Kernel Activation} {served : Option ThreadId}
    (h : k.chooseThread = .ok (served, k')) : Course (Choice k) k.table k'.table :=
  Kernel.chooseThread_course (fun _ => .admits) .serves h

theorem Turn.reworks (h : Turn m m') : Reworks m m' := by
  cases h with
  | program stack code =>
    refine .program (by rw [executing?, stack]) ?_ code
    rintro t ⟨d, below, hs, -⟩
    cases stack.symm.trans hs
  | thread stack code =>
    refine .program (by rw [executing?, stack]) (not_ends_of_code stack ?_) code
    exact System.code_of_go code
  | parks stack code park system =>
    obtain ⟨_, _, _, _, k₁, hcode, -, -, hpoll, rfl, rfl⟩ := System.stepCode_park code
    refine .quiet (not_ends_of_code stack hcode) ?_ (by rw [system]; rfl)
    rw [system]
    exact (park_get? park).1.trans (Kernel.pollPoint_others hpoll).1
  | retires stack code finish system =>
    rw [System.restoreAll_eq] at finish
    obtain ⟨slot, tb, hslot, hcourse, hremoved⟩ := Kernel.retire_course finish
    exact .retires stack code hslot hcourse (by rw [system]; exact hremoved) (by rw [system]; rfl)
  | alarm idle _ release same =>
    exact .quiet (not_ends_of_idle idle) (same.table.trans (Alarm.release_table release)) same.locks
  | chooses idle _ choose same =>
    exact .chooses (not_ends_of_idle idle) (same.table ▸ chooseThread_choice choose) same.locks
  | dispatches idle choose dispatch system =>
    obtain ⟨-, htable, -⟩ := dispatch_get? dispatch
    refine .chooses (not_ends_of_idle idle) ?_ (by rw [system]; rfl)
    rw [system]
    exact htable ▸ chooseThread_choice choose
  | quiet idle _ same => exact .quiet (not_ends_of_idle idle) same.table same.locks

/-- The operation that the next step asks of the table for a queue or a thread that a program
names. -/
def op? (m : Machine) : Option Op := m.executing?.bind (Activation.op? m.system)

end Machine
end ThreadKernel
