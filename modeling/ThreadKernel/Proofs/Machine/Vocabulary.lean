import ThreadKernel.Proofs.Machine.Execution

/-!
# ThreadKernel.Proofs.Machine.Vocabulary

A run executes no actions but those of its programs.

* `Kernel.pending?`  — the kernel changes no program: `markReady_pending` and its like.
* `Machine.Speaks p` — all actions of all programs, begun or not, satisfy `p`.
* `Speaks.step`      — one step keeps it so.
-/

namespace ThreadKernel

def Activation.Speaks (p : Action → Bool) (a : Activation) : Prop := Instr.everyList p a.code = true

def Handler.Speaks (p : Action → Bool) : Handler → Prop
  | .alarm _ => True
  | .routine _ body => Action.everyList p body = true

structure System.Speaks (p : Action → Bool) (s : System) : Prop where
  programs : ∀ x ∈ s.programs, Instr.everyList p x.code = true
  handlers : ∀ x ∈ s.handlers, x.Speaks p
  tasks : ∀ t a, s.kernel.pending? t = some a → a.Speaks p

def Frame.Speaks (p : Action → Bool) : Frame → Prop
  | .program _ a => a.Speaks p
  | .thread d => d.task.coroutine.Speaks p
  | .loop _ => True
  | .delivery _ called waiting => ∀ x ∈ called ++ waiting, x.Speaks p

structure Machine.Speaks (p : Action → Bool) (m : Machine) : Prop where
  system : m.system.Speaks p
  frames : ∀ f ∈ m.stack, f.Speaks p

/-! ## The kernel -/

namespace Kernel

variable {k k' : Kernel Activation} {q : QueueId} {t : ThreadId}

theorem pending_of_registry (h : k'.registry = k.registry) : k'.pending? = k.pending? := by
  funext t
  rw [pending?, pending?, h]

/-- A wake signal is not part of the program. -/
theorem pending_signal {slot : Slot Activation} (hs : k.registry.get? t = some slot)
    (signal : WakeSignal ThreadId) (o : Option ThreadId) :
    ({ k with registry := (k.registry.setSlot t { slot with signal := signal }).postOption o } :
      Kernel Activation).pending? = k.pending? := by
  funext u
  have hget : ((k.registry.setSlot t { slot with signal := signal }).postOption o).get? u =
      if t = u then some { slot with signal := signal } else k.registry.get? u :=
    Registry.get?_setSlot k.registry t u _
  rw [pending?, pending?, hget]
  split
  · rename_i htu
    rw [← htu, hs]
    rfl
  · rfl

theorem withTable_pending {r : Except Fault Table} (h : k.withTable r = .ok k') :
    k'.pending? = k.pending? := by
  obtain ⟨tb, -, rfl⟩ := withTable_ok h
  exact pending_of_registry rfl

theorem markReady_pending (h : k.markReady t = .ok k') : k'.pending? = k.pending? := by
  obtain ⟨-, slot, hslot, rfl⟩ := markReady_ok h
  exact pending_signal hslot _ _

theorem pollPoint_pending {p p' : YieldPoint} {ready : Bool}
    (h : k.pollPoint t p = (ready, p', k')) : k'.pending? = k.pending? := by
  unfold pollPoint at h
  split at h
  · cases h
    rfl
  · rename_i slot hslot
    cases h
    exact pending_signal hslot _ _

theorem nextThread_pending {served : Option ThreadId} (h : k.nextThread q = .ok (served, k')) :
    k'.pending? = k.pending? := by
  obtain ⟨tb, -, rfl⟩ := nextThread_ok h
  exact pending_of_registry rfl

theorem handOverAll_pending (h : k.handOverAll q = .ok k') : k'.pending? = k.pending? := by
  replace h := handOverAll_goesRound h
  induction h with
  | stops => rfl
  | nobody next => exact nextThread_pending next
  | turn next ready _ ih =>
    exact ih.trans ((markReady_pending ready).trans (nextThread_pending next))

theorem wakeEach_pending (l : List Sleeper) {k : Kernel Activation}
    (h : Alarm.wakeEach l k = .ok k') : k'.pending? = k.pending? := by
  replace h := Alarm.wakeEach_ok h
  induction h with
  | nobody => rfl
  | wakes ready _ ih => exact ih.trans (markReady_pending ready)

theorem admitEach_pending (l : List ThreadId) {k : Kernel Activation}
    (h : admitEach l k = .ok k') : k'.pending? = k.pending? := by
  replace h := admitEach_ok h
  induction h with
  | nobody => rfl
  | gone _ _ ih | waits _ _ ih => exact ih
  | comes _ wait _ ih => exact ih.trans (withTable_pending wait)

theorem chooseThread_pending {served : Option ThreadId} (h : k.chooseThread = .ok (served, k')) :
    k'.pending? = k.pending? := by
  obtain ⟨k₁, k₂, h₁, h₂, rfl⟩ := chooseThread_cases h
  have hadmitted : k₁.pending? =
      pending? { k.enter with registry := { k.registry with channel := [] } } :=
    admitEach_pending k.registry.channel h₁
  exact (nextThread_pending h₂).trans hadmitted

theorem Passes.pending {served : Option ThreadId} (h : Passes q k served k') :
    k'.pending? = k.pending? := by
  cases h with
  | nobody hn =>
    have hk := nextThread_pending hn
    exact hk
  | waiter hn hm =>
    have hk := (markReady_pending hm).trans (nextThread_pending hn)
    exact hk

/-- A thread that retires takes its own program away. -/
theorem retire_pending (h : k.retire t = .ok k') {u : ThreadId} {a : Activation}
    (ha : k'.pending? u = some a) : k.pending? u = some a := by
  obtain ⟨slot, k₁, k₂, k₃, k₄, -, h₁, h₂, h₃, h₄, rfl⟩ := retire_ok h
  have hready : k₃.pending? = k₂.pending? := by
    rcases releaseReady_cases h₃ with ⟨-, h₃⟩ | rfl
    · exact withTable_pending h₃
    · rfl
  have hk : k₄.pending? = k.pending? :=
    (withTable_pending h₄).trans (hready.trans ((withTable_pending h₂).trans
      (handOverAll_pending (k := k.enter) h₁)))
  rw [← hk]
  change ((k₄.registry.slots.erase t).get? u |>.bind fun slot =>
    slot.task.map ThreadTask.coroutine) = some a at ha
  rw [Directory.get?_erase] at ha
  split at ha
  · cases ha
  · exact ha

theorem spawn_pending {name : String} {code : List Instr} {u : ThreadId} {a : Activation}
    (h : k.spawn name (.start code) = .ok (t, k')) (ha : k'.pending? u = some a) :
    a = .start code ∨ k.pending? u = some a := by
  obtain ⟨_, _, -, -, -, -, rfl⟩ := spawn_cases h
  change ((k.registry.slots.insert t _).get? u |>.bind fun slot =>
    slot.task.map ThreadTask.coroutine) = some a at ha
  rw [Directory.get?_insert] at ha
  split at ha
  · cases ha
    exact .inl rfl
  · exact .inr ha

end Kernel


/-! ## Programs -/

namespace System

variable {p : Action → Bool} {s s' : System} {a a' : Activation} {v : Value} {actor : Actor}
  {b : Action} {i : Instr} {rest : List Instr} {k : Kernel Activation} {r : Progress}
  {t : ThreadId}

theorem Speaks.kernel (h : s.Speaks p) (hk : k.pending? = s.kernel.pending?) :
    System.Speaks p { s with kernel := k } :=
  ⟨h.programs, h.handlers, fun t a ha => h.tasks t a (hk ▸ ha)⟩

/-- Only programs, handlers and tasks speak. -/
theorem Speaks.congr (h : s.Speaks p) (hp : s'.programs = s.programs)
    (hh : s'.handlers = s.handlers) (hk : s'.kernel.pending? = s.kernel.pending?) : s'.Speaks p :=
  ⟨hp ▸ h.programs, hh ▸ h.handlers, fun t a ha => h.tasks t a (hk ▸ ha)⟩

theorem Speaks.spawn {j : Nat} (h : s.Speaks p) (hr : s.spawn j = .ok (v, s')) : s'.Speaks p := by
  obtain ⟨x, t, k, hx, hk, rfl⟩ := spawn_ok hr
  refine ⟨h.programs, h.handlers, fun u a ha => ?_⟩
  rcases Kernel.spawn_pending hk ha with rfl | ha
  · exact h.programs x (List.mem_of_getElem? hx)
  · exact h.tasks u a ha

theorem Speaks.change {f : Except Fault (Kernel Activation)} (h : s.Speaks p)
    (hr : s.change f = .ok (v, s')) (hf : ∀ {k}, f = .ok k → k.pending? = s.kernel.pending?) :
    s'.Speaks p := by
  obtain ⟨k, hk, rfl⟩ := change_ok hr
  exact h.kernel (hf hk)

theorem Speaks.serve {q : QueueId} (h : s.Speaks p) (hr : s.serve q = .ok (v, s')) :
    s'.Speaks p := by
  obtain ⟨_, _, hn, rfl⟩ := serve_ok hr
  exact h.kernel (Kernel.nextThread_pending hn)

theorem Speaks.shift {f : Except Fault (Bool × Kernel Activation)} (h : s.Speaks p)
    (hr : s.shift f = .ok (v, s'))
    (hf : ∀ {c k}, f = .ok (c, k) → k = s.kernel ∨ ∃ t n, s.kernel.currentThread = .ok t ∧
      s.kernel.withTable (s.kernel.table.setPriority t n) = .ok k) : s'.Speaks p := by
  obtain ⟨c, k, hk, rfl⟩ := shift_ok hr
  rcases hf hk with rfl | ⟨t, n, -, hset⟩
  · exact h
  · exact h.kernel (Kernel.withTable_pending hset)

theorem Speaks.perform (h : s.Speaks p) (hb : b.every p = true)
    (hr : s.perform b = .ok (v, s')) : s'.Speaks p := by
  have hcreate : ∀ transfer, (s.kernel.createQueue transfer).2.pending? = s.kernel.pending? :=
    fun _ => Kernel.pending_of_registry rfl
  have htable : ∀ {operation : String} {f : Kernel Activation → Except Fault Table}
      {k : Kernel Activation}, (s.kernel.atomically operation fun k => k.withTable (f k)) = .ok k →
        k.pending? = s.kernel.pending? := fun hk =>
    Kernel.withTable_pending (Kernel.atomically_ok hk)
  have same : s' = s → s'.Speaks p := by
    rintro rfl
    exact h
  cases b with
  | atomic | enter | exit | guard | unguard | run | inAtomic | note | now | policy | bounds
  | tryCurrent | numThreads | read =>
    cases hr
    exact h
  | assertAtomic | current | ownerOf | waitersOf | held | holder | alarmSleepers =>
    exact same (answer_ok hr)
  | alive =>
    obtain ⟨u, hu⟩ := onThread_ok hr
    cases hu
    exact h
  | getPriority | getEffective =>
    obtain ⟨u, hu⟩ := onThread_ok hr
    exact same (answer_ok hu)
  | waitQueueOwner | waitQueueSize =>
    obtain ⟨q, hq⟩ := onWaitQueue_ok hr
    exact same (answer_ok hq)
  | sleepers =>
    exact same (sleepers_ok hr)
  | spawn j => exact h.spawn hr
  | markReady =>
    obtain ⟨u, hu⟩ := onThread_ok hr
    exact h.change hu Kernel.markReady_pending
  | setPriority | waitOn | acquireQueue =>
    obtain ⟨u, hu⟩ := onThread_ok hr
    exact h.change hu htable
  | increasePriority => exact h.shift hr Kernel.increasePriority_cases
  | decreasePriority => exact h.shift hr Kernel.decreasePriority_cases
  | createQueue transfer | newWaitQueue transfer =>
    cases hr
    exact h.congr rfl rfl (hcreate transfer)
  | newLock =>
    cases hr
    exact h.congr rfl rfl (hcreate true)
  | newCondition =>
    obtain ⟨_, -, rfl⟩ := newCondition_ok hr
    exact h.congr rfl rfl (hcreate false)
  | destroyQueue => exact h.change hr Kernel.withTable_pending
  | serve => exact h.serve hr
  | dropWaitQueue =>
    obtain ⟨_, k, -, hk, rfl⟩ := dropWaitQueue_ok hr
    exact h.congr rfl rfl (Kernel.withTable_pending hk)
  | waitQueueWait | waitQueueAcquire =>
    obtain ⟨u, hu⟩ := onThread_ok hr
    obtain ⟨q, hq⟩ := onWaitQueue_ok hu
    exact h.change hq htable
  | waitQueueNext =>
    obtain ⟨q, hq⟩ := onWaitQueue_ok hr
    exact h.serve hq
  | release =>
    obtain ⟨l, l', k, -, hk, rfl⟩ := releaseLock_ok hr
    obtain ⟨_, -, -, _, hp, -⟩ := Lock.release_cases hk
    exact h.congr rfl rfl hp.pending
  | wake =>
    obtain ⟨x, l, k, -, -, hk, rfl⟩ := onCondition_ok hr
    obtain ⟨_, -, -, _, hp⟩ := Condition.wake_cases hk
    exact h.kernel hp.pending
  | wakeAll =>
    obtain ⟨x, l, k, -, -, hk, rfl⟩ := onCondition_ok hr
    obtain ⟨_, -, -, k₁, hall, rfl⟩ := Condition.wakeAll_cases hk
    have hk := Kernel.handOverAll_pending hall
    exact h.kernel hk
  | newAlarm =>
    cases hr
    refine ⟨h.programs, fun x hx => ?_, h.tasks⟩
    rcases List.mem_append.1 hx with hx | hx
    · exact h.handlers x hx
    · rw [List.mem_singleton.1 hx]
      trivial
  | timer n body =>
    cases hr
    rw [Action.every, Bool.and_eq_true] at hb
    refine ⟨h.programs, fun x hx => ?_, h.tasks⟩
    rcases List.mem_append.1 hx with hx | hx
    · exact h.handlers x hx
    · rw [List.mem_singleton.1 hx]
      exact hb.2
  | set | add | copy =>
    cases hr
    exact h.congr rfl rfl rfl

/-- The program and its system speak alike. -/
def Alike (p : Action → Bool) (a : Activation) (s : System) : Prop := a.Speaks p ∧ s.Speaks p

theorem speaks_rest (h : a.Speaks p) (hc : a.code = i :: rest) :
    i.every p = true ∧ Instr.everyList p rest = true := by
  rw [Activation.Speaks, hc, Instr.everyList, Bool.and_eq_true] at h
  exact h

theorem Speaks.restore (h : s.Speaks p) (level : Level) :
    (s.withKernel (s.kernel.restore level)).Speaks p := h.kernel rfl

theorem Speaks.complete (h : s.Speaks p) (ha : a.Speaks p) (actor : Actor) (v : Value) :
    Alike p (s.complete actor v a).1 (s.complete actor v a).2 := by
  unfold System.complete
  split
  · exact ⟨ha, h⟩
  · rename_i hc
    refine ⟨(speaks_rest ha hc).2, ?_⟩
    simp only [System.restoreAll_eq]
    exact h.congr rfl rfl rfl

theorem Speaks.returns (h : s.Speaks p) (hc : a.code = i :: rest)
    (hrest : Instr.everyList p rest = true) (hr : s.returns actor v a = .ok (.go a' s')) :
    Alike p a' s' := by
  obtain ⟨level, hgo⟩ := returns_eq hc hr
  cases hgo
  exact ⟨hrest, h.congr rfl rfl rfl⟩

theorem Speaks.blocks {q : Resume} (h : s.Speaks p) (ha : a.Speaks p)
    (hr : s.blocks q a = .ok (.go a' s')) : Alike p a' s' := by
  obtain ⟨-, hgo⟩ := blocks_eq hr
  cases hgo
  exact ⟨ha, h⟩

theorem Speaks.stepAction (h : s.Speaks p) (ha : a.Speaks p) (hc : a.code = .act b :: rest)
    (hr : s.stepAction actor b rest a = .ok (.go a' s')) : Alike p a' s' := by
  obtain ⟨hb, hrest⟩ := speaks_rest ha hc
  have hleave : ∀ saved, (s.leaveNewest saved).Speaks p := fun saved => by
    cases saved with
    | nil => exact h
    | cons level saved => exact h.restore level
  unfold System.stepAction at hr
  simp only at hr
  split at hr
  · rename_i b
    cases hr
    refine ⟨?_, h.restore .disabled⟩
    rw [Instr.every, Action.every, Bool.and_eq_true] at hb
    rw [Activation.Speaks, Instr.everyList, Instr.every, Bool.and_eq_true]
    exact ⟨hb.2, hrest⟩
  · exact (h.restore .disabled).returns (a := { a with levels := s.kernel.level :: a.levels })
      hc hrest hr
  · exact (hleave a.levels).returns (a := { a with levels := a.levels.tail }) hc hrest hr
  · exact (h.restore .disabled).returns (a := { a with guards := s.kernel.level :: a.guards })
      hc hrest hr
  · exact (hleave a.guards).returns (a := { a with guards := a.guards.tail }) hc hrest hr
  · split at hr <;> cases hr
  · split at hr
    · cases hr
    · rename_i hperf
      exact (h.perform hb hperf).returns hc hrest hr

theorem Speaks.beginJoin {target : ThreadRef} (h : s.Speaks p) (ha : a.Speaks p)
    (hc : a.code = i :: rest) (hr : s.beginJoin actor target a = .ok (.go a' s')) :
    Alike p a' s' := by
  obtain ⟨t, u, -, -, -, ⟨-, hr⟩ | ⟨slot, k, -, hk, hr⟩⟩ := beginJoin_cases hr
  · exact h.returns hc (speaks_rest ha hc).2 hr
  · have hpending := Kernel.withTable_pending (Kernel.atomically_ok hk)
    exact (h.kernel hpending).blocks ha hr

theorem Speaks.beginAcquire {l : Nat} (h : s.Speaks p) (ha : a.Speaks p)
    (hc : a.code = i :: rest) (hr : s.beginAcquire actor l a = .ok (.go a' s')) :
    Alike p a' s' := by
  obtain ⟨m, t, -, -, ⟨k, -, hk, hr⟩ | ⟨u, k, -, -, hk, hr⟩⟩ := beginAcquire_cases hr
  all_goals have hpending := Kernel.withTable_pending (Kernel.atomically_ok hk)
  · have hs : System.Speaks p { s with kernel := k } := h.kernel hpending
    have hgranted : System.Speaks p { s with
        kernel := k.restore s.kernel.level
        locks := s.locks.set l { m with holder := some t } } := hs.congr rfl rfl rfl
    exact hgranted.returns hc (speaks_rest ha hc).2 hr
  · exact (h.kernel hpending).blocks ha hr

theorem Speaks.beginSleep {c : Nat} (h : s.Speaks p) (ha : a.Speaks p)
    (hr : s.beginSleep c a = .ok (.go a' s')) : Alike p a' s' := by
  obtain ⟨x, m, t, m', k₁, k, -, -, -, -, hrel, hw, hr⟩ := beginSleep_cases hr
  obtain ⟨_, -, -, _, hp, -⟩ := Lock.release_cases hrel
  have hpending := (Kernel.withTable_pending (Kernel.atomically_ok hw)).trans hp.pending
  have hs : System.Speaks p { s with kernel := k } := h.kernel hpending
  have hreleased : System.Speaks p { s with kernel := k, locks := s.locks.set x.lock m' } :=
    hs.congr rfl rfl rfl
  exact hreleased.blocks ha hr

theorem Speaks.beginWait {j ticks : Nat} (h : s.Speaks p) (ha : a.Speaks p)
    (hr : s.beginWait j ticks a = .ok (.go a' s')) : Alike p a' s' := by
  obtain ⟨_, _, -, -, hr⟩ := beginWait_cases hr
  obtain ⟨-, hgo⟩ := blocks_eq hr
  cases hgo
  exact ⟨ha, h.congr rfl rfl rfl⟩

theorem Speaks.stepInstr (h : s.Speaks p) (ha : a.Speaks p) (hc : a.code = i :: rest)
    (hr : s.stepInstr actor i rest a = .ok (.go a' s')) : Alike p a' s' := by
  obtain ⟨hi, hrest⟩ := speaks_rest ha hc
  have hgoTo : ∀ {code : List Instr}, Instr.everyList p code = true →
      (.ok (.go { a with code := code } s) : Except Fault Progress) = .ok (.go a' s') →
      Alike p a' s' := by
    rintro code hcode ⟨⟩
    exact ⟨hcode, h⟩
  have hround : ∀ {body : List Instr} {j : Instr}, Instr.everyList p body = true →
      j.every p = true → Instr.everyList p (body ++ j :: rest) = true := by
    intro body j hb hj
    rw [Instr.everyList_append, Instr.everyList, hb, hj, hrest]
    rfl
  cases i with
  | act b => exact h.stepAction ha hc hr
  | yield =>
    simp only [System.stepInstr] at hr
    split at hr
    · cases hr
    · cases hr
      exact ⟨ha, h⟩
  | block => exact h.blocks ha (q := .proceed) hr
  | join t => exact h.beginJoin ha hc hr
  | acquire l => exact h.beginAcquire ha hc hr
  | sleep c => exact h.beginSleep ha hr
  | wait j ticks => exact h.beginWait ha hr
  | loop n body =>
    cases n with
    | zero => exact hgoTo hrest hr
    | succ n => exact hgoTo (hround (j := .loop n body) hi hi) hr
  | whileEq v x body | whileSame v w body =>
    refine hgoTo ?_ hr
    split
    · exact hround hi hi
    · exact hrest
  | whileNe v x body =>
    refine hgoTo ?_ hr
    split
    · exact hrest
    · exact hround hi hi
  | ifEq v x body =>
    refine hgoTo ?_ hr
    split
    · rw [Instr.everyList_append, hrest, Bool.and_true]
      exact hi
    · exact hrest

theorem Speaks.stepResume {q : Resume} (h : s.Speaks p) (ha : a.Speaks p)
    (hc : a.code = i :: rest) (hr : s.stepResume actor t q a = .ok (.go a' s')) :
    Alike p a' s' := by
  have hrest := (speaks_rest ha hc).2
  cases q with
  | proceed => exact h.returns hc hrest hr
  | leave level => exact (h.restore level).returns hc hrest hr
  | takeOver l level =>
    simp only [System.stepResume] at hr
    split at hr
    · cases hr
    · split at hr
      · exact (h.restore level).returns hc hrest hr
      · cases hr
  | relock l level => exact (h.restore level).beginAcquire ha hc hr

theorem Speaks.stepCode (h : s.Speaks p) (ha : a.Speaks p)
    (hr : s.stepCode actor a = .ok (.go a' s')) : Alike p a' s' := by
  cases stepCode_ok hr with
  | begins code _ instr => exact h.stepInstr ha code instr
  | resumes code _ _ poll resume =>
    exact Speaks.stepResume (h.kernel (Kernel.pollPoint_pending poll)) ha code resume

end System

namespace Machine

variable {p : Action → Bool} {m m' : Machine} {s : System} {below : List Frame}

theorem Speaks.intro {f : Frame} (hs : s.Speaks p) (hf : f.Speaks p)
    (hb : ∀ f ∈ below, f.Speaks p) : Speaks p ⟨s, f :: below⟩ :=
  ⟨hs, List.forall_mem_cons.2 ⟨hf, hb⟩⟩

theorem stepProgram_speaks {actor : Actor} {a : Activation}
    (h : Speaks p ⟨s, .program actor a :: below⟩)
    (hr : stepProgram actor a below s = .next m') : m'.Speaks p := by
  obtain ⟨ha, hb⟩ := List.forall_mem_cons.1 h.frames
  cases stepProgram_next hr with
  | goes code =>
    obtain ⟨ha', hs'⟩ := h.system.stepCode ha code
    exact .intro hs' ha' hb
  | parks code =>
    obtain ⟨t, _, _, _, k, -, -, -, hpoll, rfl, rfl⟩ := System.stepCode_park code
    exact .intro (h.system.kernel (Kernel.pollPoint_pending hpoll)) ha hb
  | calls code =>
    obtain ⟨rfl, rfl, -⟩ := System.stepCode_call code
    exact ⟨h.system, List.forall_mem_cons.2 ⟨trivial, h.frames⟩⟩
  | ends code =>
    obtain ⟨rfl, rfl, -⟩ := System.stepCode_done code
    refine ⟨?_, hb⟩
    rw [System.restoreAll_eq]
    exact h.system.restore _

theorem stepThread_speaks {d : Kernel.Dispatched Activation}
    (h : Speaks p ⟨s, .thread d :: below⟩)
    (hr : stepThread d below s = .next m') : m'.Speaks p := by
  obtain ⟨ha, hb⟩ := List.forall_mem_cons.1 h.frames
  have hd : d.task.coroutine.Speaks p := ha
  cases stepThread_next hr with
  | goes code =>
    obtain ⟨ha', hs'⟩ := h.system.stepCode hd code
    exact .intro hs' ha' hb
  | @parks _ _ k' code park =>
    obtain ⟨t, _, _, _, k, -, -, -, hpoll, rfl, rfl⟩ := System.stepCode_park code
    have hs := h.system.kernel (Kernel.pollPoint_pending hpoll)
    refine ⟨⟨hs.programs, hs.handlers, fun u a hu => ?_⟩, hb⟩
    obtain ⟨-, -, -, slot, -, hget⟩ := park_get? park
    change ((k'.registry.get? u).bind fun x => x.task.map ThreadTask.coroutine) = some a at hu
    rw [hget] at hu
    split at hu
    · cases hu
      exact hd
    · exact hs.tasks u a hu
  | calls code =>
    obtain ⟨rfl, rfl, -⟩ := System.stepCode_call code
    exact ⟨h.system, List.forall_mem_cons.2 ⟨trivial, List.forall_mem_cons.2 ⟨hd, hb⟩⟩⟩
  | ends code finish =>
    obtain ⟨rfl, rfl, -⟩ := System.stepCode_done code
    refine ⟨⟨h.system.programs, h.system.handlers, fun u a hu => ?_⟩, hb⟩
    have hu := Kernel.retire_pending finish hu
    rw [System.restoreAll_eq] at hu
    exact h.system.tasks u a hu

theorem stepTick_speaks (h : Speaks p ⟨s, .loop .tick :: below⟩)
    (hr : stepTick below s = .next m') : m'.Speaks p := by
  obtain ⟨-, hb⟩ := List.forall_mem_cons.1 h.frames
  cases stepTick_next hr with
  | passes => exact .intro h.system trivial hb
  | interrupts =>
    refine .intro ⟨h.system.programs, by simp, h.system.tasks⟩ h.system.handlers ?_
    exact List.forall_mem_cons.2 ⟨trivial, hb⟩

theorem stepDelivery_speaks {previous : Level} {called waiting : List Handler}
    (h : Speaks p ⟨s, .delivery previous called waiting :: below⟩)
    (hr : stepDelivery previous called waiting below s = .next m') : m'.Speaks p := by
  obtain ⟨hf, hb⟩ := List.forall_mem_cons.1 h.frames
  have hf : ∀ x ∈ called ++ waiting, x.Speaks p := hf
  cases stepDelivery_next hr with
  | ends =>
    refine ⟨⟨h.system.programs, fun x hx => ?_, h.system.tasks⟩, hb⟩
    rcases List.mem_append.1 hx with hx | hx
    · exact hf x (List.mem_append_left _ hx)
    · exact h.system.handlers x hx
  | skips => exact .intro h.system (forall_called hf (hf _ (by simp))) hb
  | rings _ release =>
    obtain ⟨hwake, -⟩ := Alarm.release_ok release
    exact .intro (h.system.congr rfl rfl (Kernel.wakeEach_pending _ hwake))
      (forall_called hf (hf _ (by simp))) hb
  | @spent body => exact .intro h.system (forall_called hf (hf _ (by simp))) hb
  | @runs n body =>
    have hbody : Handler.Speaks p (.routine (n + 1) body) := hf _ (by simp)
    refine .intro h.system (Instr.everyList_act hbody) ?_
    exact List.forall_mem_cons.2 ⟨forall_called hf hbody, hb⟩

theorem returnFrom_speaks {v : Value} (hs : s.Speaks p) (hb : ∀ f ∈ below, f.Speaks p)
    (hr : returnFrom v below s = .next m') : m'.Speaks p := by
  cases returnFrom_next hr with
  | @completes actor a below =>
    obtain ⟨ha, hb⟩ := List.forall_mem_cons.1 hb
    obtain ⟨ha', hs'⟩ := hs.complete (show a.Speaks p from ha) actor v
    exact .intro hs' ha' hb
  | drops => exact ⟨hs, hb⟩

theorem stepChoose_speaks (h : Speaks p ⟨s, .loop .choose :: below⟩)
    (hr : stepChoose below s = .next m') : m'.Speaks p := by
  obtain ⟨-, hb⟩ := List.forall_mem_cons.1 h.frames
  have hchosen : ∀ {o : Option ThreadId} {k : Kernel Activation},
      s.kernel.chooseThread = .ok (o, k) → (s.withKernel k).Speaks p := fun choose =>
    h.system.kernel (Kernel.chooseThread_pending choose)
  cases stepChoose_next hr with
  | @dispatches t k k' d choose dispatch =>
    have hs := hchosen choose
    obtain ⟨-, -, -, -, -, slot, hslot, htask, hget⟩ := dispatch_get? dispatch
    refine .intro ⟨hs.programs, hs.handlers, fun u a hu => ?_⟩ ?_
      (List.forall_mem_cons.2 ⟨trivial, hb⟩)
    · change ((k'.registry.get? u).bind fun x => x.task.map ThreadTask.coroutine) = some a at hu
      rw [hget] at hu
      split at hu
      · cases hu
      · exact hs.tasks u a hu
    · refine hs.tasks t _ ?_
      show ((k.registry.get? t).bind fun x => x.task.map ThreadTask.coroutine) = _
      rw [hslot]
      simp [htask]
  | misses choose => exact .intro ((hchosen choose).congr rfl rfl rfl) trivial hb
  | waits choose => exact .intro ((hchosen choose).congr rfl rfl rfl) trivial hb
  | returns choose _ back => exact returnFrom_speaks (hchosen choose) hb back

theorem Speaks.step (h : m.Speaks p) (hr : m.step = .next m') : m'.Speaks p := by
  obtain ⟨s, stack⟩ := m
  unfold Machine.step at hr
  simp only at hr
  split at hr
  · cases hr
  · exact stepProgram_speaks h hr
  · exact stepThread_speaks h hr
  · exact stepTick_speaks h hr
  · exact stepChoose_speaks h hr
  · exact stepDelivery_speaks h hr

theorem Speaks.reseed (h : m.Speaks p) (g : Random) : (m.reseed g).Speaks p :=
  ⟨⟨h.system.programs, h.system.handlers, h.system.tasks⟩, h.frames⟩

/-- Before the first step there are only the programs that the run is given. -/
theorem start_speaks {gen : Generator} {settings : Settings} {k : Kernel Activation}
    {programs : List Program} {main : List Action} (hk : Kernel.start gen settings = .ok k)
    (hp : ∀ x ∈ programs, Instr.everyList p x.code = true)
    (hm : Action.everyList p main = true) : (start k programs main).Speaks p := by
  have hpending : ∀ t, k.pending? t = none := by
    obtain ⟨clock, rfl⟩ := start_ok hk
    intro t
    exact congrArg (Option.bind · _) (Directory.get?_empty t)
  refine ⟨⟨hp, fun x hx => (nomatch hx), fun t a ha => ?_⟩, ?_⟩
  · exact nomatch (hpending t).symm.trans ha
  · intro f hf
    rw [List.mem_singleton.1 hf]
    exact Instr.everyList_act hm

/-- Whatever begins was in a program. -/
theorem Speaks.executes {a : Activation} {b : Action} (h : m.Speaks p)
    (ha : m.executing? = some a) (hb : a.Begins (.act b)) : p b = true := by
  obtain ⟨-, rest, hc⟩ := hb
  have hspeaks : a.Speaks p := by
    obtain ⟨s, stack⟩ := m
    cases stack with
    | nil => cases ha
    | cons f below =>
      have hf := h.frames f List.mem_cons_self
      cases f with
      | program | thread =>
        cases ha
        exact hf
      | loop | delivery => cases ha
  exact Action.of_every (System.speaks_rest hspeaks hc).1

end Machine

theorem Execution.speaks {n i : Nat} {ms : Nat → Machine} {p : Action → Bool}
    (h : Execution n ms) (hs : (ms 0).Speaks p) (hi : i ≤ n) : (ms i).Speaks p :=
  h.invariant hs (fun _ _ _ g hstep hs => (hs.step hstep).reseed g) hi

end ThreadKernel
