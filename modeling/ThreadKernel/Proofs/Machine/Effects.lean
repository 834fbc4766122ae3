import ThreadKernel.Proofs.Kernel.Steady
import ThreadKernel.Proofs.Machine.Frames

/-!
# ThreadKernel.Proofs.Machine.Effects

What programs cannot undo. Whatever a program executes, handlers, locks and conditions stay under
their indices, every alarm has its handler, and nobody else's task changes.

* `System.Grows`  — what each step of a program keeps.
* `System.Same`   — what levels, the clock, variables and the log have no part in.
* `System.Creates` — which locks and conditions are new.
* `System.Acts`   — what an action keeps besides: the level and the log.
* `stepCode_grows` — one step of an activation.
-/

namespace ThreadKernel

open Kernel (Steady)

theorem Kernel.Steady.entered {k k' : Kernel Activation} (h : Steady k k') :
    Steady k.enter k'.enter :=
  ⟨h.current, rfl, h.clock, h.ticks, h.ready, h.slot, h.added, h.number, h.newer, fun hk =>
    have hk' := h.sane ⟨hk.sound, hk.waker, hk.signal⟩
    ⟨hk'.sound, hk'.waker, hk'.signal⟩⟩

namespace System

structure Grows (s s' : System) : Prop where
  kernel : Steady s.kernel.enter s'.kernel.enter
  programs : s'.programs = s.programs
  handlers : s.handlers <+: s'.handlers
  /-- A new alarm is called by the timer. -/
  enrolled : ∀ i < s'.alarms.length, i < s.alarms.length ∨ Handler.alarm i ∈ s'.handlers
  locks : ∀ {i : Nat} {l : Lock}, s.locks[i]? = some l →
    ∃ holder, s'.locks[i]? = some { l with holder := holder }
  conditions : s.conditions <+: s'.conditions
  events : s.events <:+ s'.events

/-- New locks and conditions: there is none, or one with a queue of its own. -/
inductive Creates (s s' : System) : Prop where
  | nothing (locks : s'.locks.length = s.locks.length) (conditions : s'.conditions = s.conditions)
  | lock (locks : s'.locks = s.locks ++ [(Lock.create s.kernel).1])
      (table : s'.kernel.table = (Lock.create s.kernel).2.table)
      (conditions : s'.conditions = s.conditions)
  | condition {l : Nat} (locks : s'.locks = s.locks)
      (conditions : s'.conditions = s.conditions ++ [(Condition.create l s.kernel).1])
      (table : s'.kernel.table = (Condition.create l s.kernel).2.table)
      (lock : ∃ m, s.locks[l]? = some m)

structure Acts (s s' : System) : Prop extends Grows s s' where
  level : s'.kernel.level = s.kernel.level
  unlogged : s'.events = s.events
  creates : Creates s s'

variable {s s' s'' : System} {v : Value} {k : Kernel Activation}

theorem Grows.refl (s : System) : Grows s s :=
  ⟨.refl _, rfl, List.prefix_rfl, fun _ => .inl, fun {_ l} hl => ⟨l.holder, hl⟩, List.prefix_rfl,
    List.suffix_rfl⟩

theorem Grows.trans (h : Grows s s') (h' : Grows s' s'') : Grows s s'' where
  kernel := h.kernel.trans h'.kernel
  programs := h'.programs.trans h.programs
  handlers := h.handlers.trans h'.handlers
  enrolled i hi := by
    rcases h'.enrolled i hi with hi | hm
    · exact (h.enrolled i hi).imp id fun hm => h'.handlers.subset hm
    · exact .inr hm
  locks hl := by
    obtain ⟨_, hl'⟩ := h.locks hl
    obtain ⟨holder, hl''⟩ := h'.locks hl'
    exact ⟨holder, hl''⟩
  conditions := h.conditions.trans h'.conditions
  events := h.events.trans h'.events

theorem Grows.of_kernel (h : Steady s.kernel.enter k.enter) : Grows s { s with kernel := k } :=
  { Grows.refl s with kernel := h }

theorem Acts.refl (s : System) : Acts s s := ⟨.refl s, rfl, rfl, .nothing rfl rfl⟩

theorem Acts.of_kernel (h : Steady s.kernel k) : Acts s { s with kernel := k } :=
  ⟨.of_kernel h.entered, h.level, rfl, .nothing rfl rfl⟩

/-- A lock changes its holder. -/
theorem Grows.of_lock {i : Nat} {l l' : Lock} (hl : s.locks[i]? = some l) (hq : l'.queue = l.queue)
    (h : Steady s.kernel.enter k.enter) :
    Grows s { s with kernel := k, locks := s.locks.set i l' } := by
  refine { Grows.refl s with kernel := h, locks := fun {j m} hm => ?_ }
  by_cases hij : i = j
  · subst hij
    rw [hl] at hm
    cases hm
    refine ⟨l'.holder, ?_⟩
    rw [List.getElem?_set_self (List.getElem?_eq_some_iff.1 hl).1, ← hq]
  · exact ⟨m.holder, by rw [List.getElem?_set_ne hij]; exact hm⟩

/-- Nothing has changed but levels, the clock, handlers, variables and the log. -/
structure Same (s s' : System) : Prop where
  table : s'.kernel.table = s.kernel.table
  registry : s'.kernel.registry = s.kernel.registry
  ready : s'.kernel.readyQueue = s.kernel.readyQueue
  locks : s'.locks = s.locks
  conditions : s'.conditions = s.conditions

theorem Same.refl (s : System) : Same s s := ⟨rfl, rfl, rfl, rfl, rfl⟩

/-! ## Actions -/

theorem spawn_acts {i : Nat} (h : s.spawn i = .ok (v, s')) : Acts s s' := by
  obtain ⟨_, _, _, -, hk, rfl⟩ := spawn_ok h
  have hs := Kernel.spawn_steady hk
  exact ⟨{ Grows.refl s with kernel := hs.entered }, hs.level, rfl, .nothing rfl rfl⟩

theorem serve_acts {q : QueueId} (h : s.serve q = .ok (v, s')) : Acts s s' := by
  obtain ⟨_, _, hn, rfl⟩ := serve_ok h
  exact .of_kernel (Kernel.nextThread_steady hn)

theorem change_acts {r : Except Fault (Kernel Activation)} (h : s.change r = .ok (v, s'))
    (hr : ∀ {k}, r = .ok k → Steady s.kernel k) : Acts s s' := by
  obtain ⟨k, hk, rfl⟩ := change_ok h
  exact .of_kernel (hr hk)

theorem dropWaitQueue_acts {i : Nat} (h : s.dropWaitQueue i = .ok (v, s')) : Acts s s' := by
  unfold System.dropWaitQueue at h
  split at h
  · cases h
  · obtain ⟨k, hk, rfl⟩ := change_ok h
    rename_i q _
    have hs := Kernel.apply_steady (.destroyQueue q) hk
    exact ⟨{ Grows.refl s with kernel := hs.entered }, hs.level, rfl, .nothing rfl rfl⟩

theorem releaseLock_acts {i : Nat} (h : s.releaseLock i = .ok (v, s')) : Acts s s' := by
  obtain ⟨l, l', k, hl, hr, rfl⟩ := releaseLock_ok h
  obtain ⟨hs, hq⟩ := Lock.release_steady hr
  exact ⟨.of_lock hl hq hs.entered, hs.level, rfl, .nothing (List.length_set ..) rfl⟩

theorem newCondition_acts {i : Nat} (h : s.newCondition i = .ok (v, s')) : Acts s s' := by
  obtain ⟨l, hl, rfl⟩ := newCondition_ok h
  exact ⟨{ Grows.refl s with
    kernel := (Kernel.createQueue_steady s.kernel false).entered
    conditions := List.prefix_append _ _ }, rfl, rfl, .condition rfl rfl rfl ⟨l, hl⟩⟩

theorem onCondition_acts {c : Nat}
    {f : Condition → Lock → Kernel Activation → Except Fault (Kernel Activation)}
    (h : s.onCondition c f = .ok (v, s'))
    (hf : ∀ {c l k}, f c l s.kernel = .ok k → Steady s.kernel k) : Acts s s' := by
  obtain ⟨_, _, k, -, -, hk, rfl⟩ := onCondition_ok h
  exact .of_kernel (hf hk)

theorem perform_acts {a : Action} (h : s.perform a = .ok (v, s')) : Acts s s' := by
  have same : s' = s → Acts s s' := by
    rintro rfl
    exact .refl _
  cases a with
  | atomic | enter | exit | guard | unguard | run | inAtomic | note | now | policy | bounds
  | tryCurrent | numThreads | read =>
    cases h
    exact same rfl
  | assertAtomic | current | ownerOf | waitersOf | held | holder | alarmSleepers =>
    exact same (answer_ok h)
  | alive t =>
    obtain ⟨u, hu⟩ := onThread_ok h
    cases hu
    exact same rfl
  | getPriority t | getEffective t =>
    obtain ⟨u, hu⟩ := onThread_ok h
    exact same (answer_ok hu)
  | waitQueueOwner i | waitQueueSize i =>
    obtain ⟨q, hq⟩ := onWaitQueue_ok h
    exact same (answer_ok hq)
  | sleepers c =>
    exact same (sleepers_ok h)
  | spawn i => exact spawn_acts h
  | markReady t =>
    obtain ⟨u, hu⟩ := onThread_ok h
    exact change_acts hu Kernel.markReady_steady
  | setPriority t p =>
    obtain ⟨u, hu⟩ := onThread_ok h
    exact change_acts hu fun hk => Kernel.setPriority_steady (Kernel.atomically_ok hk)
  | increasePriority =>
    obtain ⟨b, k, hk, rfl⟩ := shift_ok h
    exact .of_kernel (Kernel.increasePriority_steady hk)
  | decreasePriority =>
    obtain ⟨b, k, hk, rfl⟩ := shift_ok h
    exact .of_kernel (Kernel.decreasePriority_steady hk)
  | createQueue transfer =>
    cases h
    exact .of_kernel (Kernel.createQueue_steady s.kernel transfer)
  | destroyQueue q => exact change_acts h (Kernel.apply_steady (.destroyQueue q))
  | waitOn q t =>
    obtain ⟨u, hu⟩ := onThread_ok h
    exact change_acts hu Kernel.waitForAccess_steady
  | acquireQueue q t =>
    obtain ⟨u, hu⟩ := onThread_ok h
    exact change_acts hu Kernel.acquire_steady
  | serve q => exact serve_acts h
  | newWaitQueue transfer =>
    cases h
    exact ⟨{ Grows.refl s with
      kernel := (Kernel.createQueue_steady s.kernel transfer).entered }, rfl, rfl,
      .nothing rfl rfl⟩
  | dropWaitQueue i => exact dropWaitQueue_acts h
  | waitQueueWait i t =>
    obtain ⟨u, hu⟩ := onThread_ok h
    obtain ⟨q, hq⟩ := onWaitQueue_ok hu
    exact change_acts hq Kernel.waitForAccess_steady
  | waitQueueAcquire i t =>
    obtain ⟨u, hu⟩ := onThread_ok h
    obtain ⟨q, hq⟩ := onWaitQueue_ok hu
    exact change_acts hq Kernel.acquire_steady
  | waitQueueNext i =>
    obtain ⟨q, hq⟩ := onWaitQueue_ok h
    exact serve_acts hq
  | newLock =>
    cases h
    refine ⟨{ Grows.refl s with
      kernel := (Kernel.createQueue_steady s.kernel true).entered
      locks := fun {i l} hl => ⟨l.holder, ?_⟩ }, rfl, rfl, .lock rfl rfl rfl⟩
    rw [List.getElem?_append_left (List.getElem?_eq_some_iff.1 hl).1]
    exact hl
  | release l => exact releaseLock_acts h
  | newCondition l => exact newCondition_acts h
  | wake c => exact onCondition_acts h Condition.wake_steady
  | wakeAll c => exact onCondition_acts h Condition.wakeAll_steady
  | newAlarm =>
    cases h
    refine ⟨{ Grows.refl s with
      handlers := List.prefix_append _ _
      enrolled := fun i hi => ?_ }, rfl, rfl, .nothing rfl rfl⟩
    rw [List.length_append, List.length_singleton] at hi
    rcases Nat.lt_succ_iff_lt_or_eq.1 hi with hi | rfl
    · exact .inl hi
    · exact .inr (by simp)
  | timer n body =>
    cases h
    exact ⟨{ Grows.refl s with
      handlers := List.prefix_append _ _
      enrolled := fun _ => .inl }, rfl, rfl, .nothing rfl rfl⟩
  | set v x | add v x | copy v w =>
    cases h
    exact ⟨{ Grows.refl s with }, rfl, rfl, .nothing rfl rfl⟩

end System

/-! ## Instructions -/

/-- The system that a step of a program leaves. -/
def Progress.system : Progress → System
  | go _ s | park _ s | call _ s | done _ s => s

namespace System

variable {s s' : System} {a : Activation} {r : Progress} {v : Value} {actor : Actor}
  {rest : List Instr} {t : ThreadId}

theorem Grows.restore (s : System) (level : Level) :
    Grows s (s.withKernel (s.kernel.restore level)) := .of_kernel (.refl _)

theorem restoreAll_eq (k : Kernel Activation) (l : List Level) :
    k.restoreAll l = k.restore (l.getLastD k.level) := by
  unfold Kernel.restoreAll
  induction l generalizing k with
  | nil => rfl
  | cons level l ih =>
    rw [List.foldl_cons, ih, List.getLastD_cons]
    rfl

theorem complete_grows (actor : Actor) (v : Value) (a : Activation) (s : System) :
    Grows s (s.complete actor v a).2 := by
  unfold System.complete
  split
  · exact .refl s
  · exact { Grows.refl s with
      kernel := by
        simp only [log, withKernel, restoreAll_eq]
        exact .refl _
      events := List.suffix_cons _ _ }

theorem complete_same (actor : Actor) (v : Value) (a : Activation) (s : System) :
    Same s (s.complete actor v a).2 := by
  unfold System.complete
  split
  · exact .refl s
  · simp only [System.restoreAll_eq]
    exact ⟨rfl, rfl, rfl, rfl, rfl⟩

theorem returns_grows (h : s.returns actor v a = .ok r) : Grows s r.system := by
  cases h
  exact complete_grows actor v a s

theorem blocks_grows {q : Resume} (h : s.blocks q a = .ok r) : Grows s r.system := by
  unfold System.blocks at h
  split at h
  · cases h
  · cases h
    exact .refl s

theorem leaveNewest_grows (saved : List Level) (s : System) : Grows s (s.leaveNewest saved) := by
  cases saved with
  | nil => exact .refl s
  | cons level saved => exact .restore s level

theorem stepAction_grows {b : Action} (h : s.stepAction actor b rest a = .ok r) :
    Grows s r.system := by
  unfold System.stepAction at h
  simp only at h
  split at h
  · cases h
    exact .restore s .disabled
  · exact (Grows.restore s .disabled).trans (returns_grows h)
  · exact (leaveNewest_grows _ s).trans (returns_grows h)
  · exact (Grows.restore s .disabled).trans (returns_grows h)
  · exact (leaveNewest_grows _ s).trans (returns_grows h)
  · split at h
    · cases h
    · cases h
      exact .refl s
  · split at h
    · cases h
    · rename_i hp
      exact (perform_acts hp).toGrows.trans (returns_grows h)

theorem beginJoin_grows {target : ThreadRef} (h : s.beginJoin actor target a = .ok r) :
    Grows s r.system := by
  unfold System.beginJoin at h
  split at h
  · cases h
  · split at h
    · cases h
    · split at h
      · cases h
      · split at h
        · exact returns_grows h
        · split at h
          · cases h
          · rename_i hk
            exact (Grows.of_kernel (Kernel.waitForAccess_steady hk).entered).trans (blocks_grows h)

theorem beginAcquire_grows {l : Nat} (h : s.beginAcquire actor l a = .ok r) :
    Grows s r.system := by
  unfold System.beginAcquire at h
  split at h
  · cases h
  · rename_i lock hl
    split at h
    · cases h
    · simp only at h
      split at h
      · cases h
      · rename_i hk
        obtain ⟨hs, hq⟩ := Lock.request_steady hk
        have hg := Grows.of_lock (fetch_ok hl) hq hs.entered
        split at h
        · exact (hg.trans (.restore _ _)).trans (returns_grows h)
        · exact hg.trans (blocks_grows h)

theorem beginSleep_grows {c : Nat} (h : s.beginSleep c a = .ok r) : Grows s r.system := by
  unfold System.beginSleep at h
  split at h
  · cases h
  · split at h
    · cases h
    · rename_i lock hl
      split at h
      · cases h
      · split at h
        · cases h
        · rename_i hk
          obtain ⟨hs, hq⟩ := Condition.fallAsleep_steady hk
          exact (Grows.of_lock (fetch_ok hl) hq hs.entered).trans (blocks_grows h)

theorem beginWait_grows {i ticks : Nat} (h : s.beginWait i ticks a = .ok r) :
    Grows s r.system := by
  unfold System.beginWait at h
  split at h
  · cases h
  · split at h
    · cases h
    · have hg : ∀ alarm : Alarm, Grows s
          { s with kernel := s.kernel.enter, alarms := s.alarms.set i alarm } := fun alarm =>
        { Grows.refl s with
          kernel := .refl _
          enrolled := fun j hj => .inl (by simpa using hj) }
      exact (hg _).trans (blocks_grows h)

theorem stepInstr_grows {i : Instr} (h : s.stepInstr actor i rest a = .ok r) :
    Grows s r.system := by
  cases i with
  | act b => exact stepAction_grows h
  | yield =>
    simp only [stepInstr] at h
    split at h
    · cases h
    · cases h
      exact .refl s
  | block => exact blocks_grows h
  | join t => exact beginJoin_grows h
  | acquire l => exact beginAcquire_grows h
  | sleep c => exact beginSleep_grows h
  | wait j ticks => exact beginWait_grows h
  | loop n body =>
    cases n <;>
      · cases h
        exact .refl s
  | whileEq v x body | whileNe v x body | whileSame v w body | ifEq v x body =>
    cases h
    exact .refl s

theorem stepResume_grows {q : Resume} (h : s.stepResume actor t q a = .ok r) :
    Grows s r.system := by
  cases q with
  | proceed => exact returns_grows h
  | leave level => exact (Grows.restore s level).trans (returns_grows h)
  | takeOver l level =>
    simp only [stepResume] at h
    split at h
    · cases h
    · split at h
      · exact (Grows.restore s level).trans (returns_grows h)
      · cases h
  | relock l level => exact (Grows.restore s level).trans (beginAcquire_grows h)

theorem stepCode_grows (h : s.stepCode actor a = .ok r) : Grows s r.system := by
  cases stepCode_ok h with
  | begins _ _ instr => exact stepInstr_grows instr
  | @resumes _ _ _ _ _ _ k _ _ _ _ poll resume =>
    have hg : Grows s (s.withKernel k) := .of_kernel (Kernel.pollPoint_steady poll).entered
    exact hg.trans (stepResume_grows resume)
  | waits _ _ _ poll => exact .of_kernel (Kernel.pollPoint_steady poll).entered
  | ends => exact .refl s

/-! ## Programs that go on -/

theorem returns_go (h : s.returns actor v a = .ok r) : ∃ a' s', r = .go a' s' :=
  ⟨_, _, (Except.ok.inj h).symm⟩

theorem blocks_go {q : Resume} (h : s.blocks q a = .ok r) : ∃ a' s', r = .go a' s' := by
  unfold System.blocks at h
  split at h
  · cases h
  · exact ⟨_, _, (Except.ok.inj h).symm⟩

theorem beginJoin_go {target : ThreadRef} (h : s.beginJoin actor target a = .ok r) :
    ∃ a' s', r = .go a' s' := by
  unfold System.beginJoin at h
  split at h
  · cases h
  · split at h
    · cases h
    · split at h
      · cases h
      · split at h
        · exact returns_go h
        · split at h
          · cases h
          · exact blocks_go h

theorem beginAcquire_go {l : Nat} (h : s.beginAcquire actor l a = .ok r) :
    ∃ a' s', r = .go a' s' := by
  unfold System.beginAcquire at h
  split at h
  · cases h
  · split at h
    · cases h
    · simp only at h
      split at h
      · cases h
      · split at h
        · exact returns_go h
        · exact blocks_go h

theorem beginSleep_go {c : Nat} (h : s.beginSleep c a = .ok r) : ∃ a' s', r = .go a' s' := by
  unfold System.beginSleep at h
  split at h
  · cases h
  · split at h
    · cases h
    · split at h
      · cases h
      · split at h
        · cases h
        · exact blocks_go h

theorem beginWait_go {i ticks : Nat} (h : s.beginWait i ticks a = .ok r) :
    ∃ a' s', r = .go a' s' := by
  unfold System.beginWait at h
  split at h
  · cases h
  · split at h
    · cases h
    · exact blocks_go h

theorem stepResume_go {q : Resume} (h : s.stepResume actor t q a = .ok r) :
    ∃ a' s', r = .go a' s' := by
  cases q with
  | proceed | leave level => exact returns_go h
  | takeOver l level =>
    simp only [stepResume] at h
    split at h
    · cases h
    · split at h
      · exact returns_go h
      · cases h
  | relock l level => exact beginAcquire_go h

/-- An instruction that is begun lets the program go on, or runs the kernel where no thread runs. -/
theorem stepInstr_go {i : Instr} (h : s.stepInstr actor i rest a = .ok r) :
    (∃ a' s', r = .go a' s') ∨
      r = .call a s ∧ s.kernel.registry.current = none ∧ i = .act .run := by
  cases i with
  | act b =>
    simp only [stepInstr, stepAction] at h
    split at h
    · exact .inl ⟨_, _, (Except.ok.inj h).symm⟩
    · exact .inl (returns_go h)
    · exact .inl (returns_go h)
    · exact .inl (returns_go h)
    · exact .inl (returns_go h)
    · split at h
      · cases h
      · rename_i hcur
        exact .inr ⟨(Except.ok.inj h).symm, hcur, rfl⟩
    · split at h
      · cases h
      · exact .inl (returns_go h)
  | yield =>
    simp only [stepInstr] at h
    split at h
    · cases h
    · exact .inl ⟨_, _, (Except.ok.inj h).symm⟩
  | block => exact .inl (blocks_go h)
  | join t => exact .inl (beginJoin_go h)
  | acquire l => exact .inl (beginAcquire_go h)
  | sleep c => exact .inl (beginSleep_go h)
  | wait j ticks => exact .inl (beginWait_go h)
  | loop n body => cases n <;> exact .inl ⟨_, _, (Except.ok.inj h).symm⟩
  | whileEq v x body | whileNe v x body | whileSame v w body | ifEq v x body =>
    exact .inl ⟨_, _, (Except.ok.inj h).symm⟩

/-- Only `run` leaves a program waiting for its result, and only where no thread runs. -/
theorem stepCode_call {a' : Activation} (h : s.stepCode actor a = .ok (.call a' s')) :
    a' = a ∧ s' = s ∧ s.kernel.registry.current = none ∧ ∃ rest, a.code = .act .run :: rest := by
  cases stepCode_ok h with
  | @begins i rest _ code _ instr =>
    rcases stepInstr_go instr with ⟨_, _, he⟩ | ⟨he, hcur, rfl⟩
    · cases he
    · cases he
      exact ⟨rfl, rfl, hcur, rest, code⟩
  | resumes _ _ _ _ resume =>
    obtain ⟨_, _, he⟩ := stepResume_go resume
    cases he

/-- A program is parked at the yield point at which it was suspended. -/
theorem stepCode_park {a' : Activation} (h : s.stepCode actor a = .ok (.park a' s')) :
    ∃ t p q p' k, a.code ≠ [] ∧ a.stage = .suspended p q ∧
      s.kernel.registry.current = some t ∧ s.kernel.pollPoint t p = (false, p', k) ∧
      a' = { a with stage := .suspended p' q } ∧ s' = s.withKernel k := by
  cases stepCode_ok h with
  | begins _ _ instr => rcases stepInstr_go instr with ⟨_, _, he⟩ | ⟨he, -⟩ <;> cases he
  | resumes _ _ _ _ resume =>
    obtain ⟨_, _, he⟩ := stepResume_go resume
    cases he
  | waits code stage current poll =>
    exact ⟨_, _, _, _, _, by rw [code]; simp, stage, current, poll, rfl, rfl⟩

/-- Only a program without instructions is at its end. -/
theorem stepCode_done {a' : Activation} (h : s.stepCode actor a = .ok (.done a' s')) :
    a' = a ∧ s' = s ∧ a.code = [] := by
  cases stepCode_ok h with
  | ends code => exact ⟨rfl, rfl, code⟩
  | begins _ _ instr => rcases stepInstr_go instr with ⟨_, _, he⟩ | ⟨he, -⟩ <;> cases he
  | resumes _ _ _ _ resume =>
    obtain ⟨_, _, he⟩ := stepResume_go resume
    cases he

end System
end ThreadKernel
