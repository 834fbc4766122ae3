import ThreadKernel.Proofs.Kernel.Faults
import ThreadKernel.Proofs.Machine.Levels
import ThreadKernel.Proofs.Machine.Released
import ThreadKernel.Proofs.Machine.Situations
import ThreadKernel.Proofs.Machine.Vocabulary

/-!
# ThreadKernel.Proofs.Machine.Faults

What a run can fail with.

* `System.Breach`       — the preconditions that a program can violate, and what comes of it.
* `Orderly.…_error`     — an instruction fails because its precondition is violated, or in a cycle.
* `Machine.Governed`    — the invariants of a run, together.
* `stepThread_faulted`, … — one lemma for each kind of step.
* `run_faults`          — nothing else ever fails: a queue, record, slot or task that a step looks for
                          is there, and a lock that a thread was handed is its own.
-/

namespace ThreadKernel

open Kernel (Posture Placed Executing Steady)

namespace Instr

/-- The condition whose lock the caller must hold, and what the operation is called. -/
def needsLock? : Instr → Option (Nat × String)
  | .sleep c => some (c, "sleep()")
  | .act (.wake c) => some (c, "wake()")
  | .act (.wakeAll c) => some (c, "wake_all()")
  | _ => none

/-- What an operation is called that is legal only inside the atomic region. -/
def needsAtomic? : Instr → Option String
  | .act (.getPriority _) => some "get_priority()"
  | .act (.getEffective _) => some "get_effective_priority()"
  | .act (.setPriority _ _) => some "set_priority()"
  | .act (.assertAtomic operation) => some operation
  | _ => none

end Instr

/-- The action asks about a queue. -/
def Action.asksQueue : Action → Bool
  | .ownerOf _ | .waitersOf _ | .waitQueueOwner _ | .waitQueueSize _ => true
  | _ => false

namespace System

/-- How many objects there are of the kind that an instruction names, and the index it names. -/
def named? (s : System) : Instr → Option (Nat × Nat)
  | .act (.spawn i) => some (s.programs.length, i)
  | .acquire l | .act (.release l) | .act (.held l) | .act (.holder l) | .act (.newCondition l) =>
    some (s.locks.length, l)
  | .sleep c | .act (.wake c) | .act (.wakeAll c) | .act (.sleepers c) =>
    some (s.conditions.length, c)
  | .wait a _ | .act (.alarmSleepers a) => some (s.alarms.length, a)
  | _ => none

/-- A precondition of an instruction is violated, and the fault says which. -/
inductive Breach (s : System) : Instr → Fault → Prop where
  /-- No thread is running. -/
  | nobody {i : Instr} (current : s.kernel.registry.current = none) : Breach s i .noThreadRunning
  /-- A thread runs the kernel. -/
  | run {t : ThreadId} (current : s.kernel.registry.current = some t) :
      Breach s (.act .run) (.runInsideThread t)
  /-- A thread joins itself. -/
  | joinSelf {target : ThreadRef} {t : ThreadId} (resolve : target.resolve s.kernel = .ok t)
      (current : s.kernel.registry.current = some t) : Breach s (.join target) (.joinSelf t)
  /-- A thread acquires a lock that it holds. -/
  | held {l : Nat} {m : Lock} {t : ThreadId} (lock : s.locks[l]? = some m)
      (current : s.kernel.registry.current = some t) (holder : m.holder = some t) :
      Breach s (.acquire l) (.lockAlreadyHeld t)
  /-- A thread releases a lock that it does not hold. -/
  | notHeld {l : Nat} {m : Lock} {t : ThreadId} (lock : s.locks[l]? = some m)
      (current : s.kernel.registry.current = some t) (holder : m.holder ≠ some t) :
      Breach s (.act (.release l)) (.lockNotHeld t m.holder)
  /-- A condition is used by someone who does not hold its lock. -/
  | unlocked {i : Instr} {c : Nat} {x : Condition} {m : Lock} {operation : String}
      (needs : i.needsLock? = some (c, operation)) (condition : s.conditions[c]? = some x)
      (lock : s.locks[x.lock]? = some m) (holder : m.isHeldByCurrent s.kernel = false) :
      Breach s i (.conditionWithoutLock operation)
  /-- Priorities are accessed outside the atomic region. -/
  | outside {i : Instr} {operation : String} (needs : i.needsAtomic? = some operation)
      (level : s.kernel.inAtomic = false) : Breach s i (.outsideAtomicRegion operation)
  /-- A priority is out of range. -/
  | outOfRange {target : ThreadRef} {t : ThreadId} {p : Nat}
      (resolve : target.resolve s.kernel = .ok t) (range : s.kernel.bounds.contains p = false) :
      Breach s (.act (.setPriority target p))
        (.priorityOutOfRange p s.kernel.bounds.least s.kernel.bounds.greatest t)
  /-- The program names an object that it has not created. -/
  | missing {i : Instr} {size index : Nat} (names : s.named? i = some (size, index))
      (absent : size ≤ index) : Breach s i (.noSuchObject size index)

/-- Every condition has its lock. -/
def Equipped (s : System) : Prop := ∀ c ∈ s.conditions, ∃ l, s.locks[c.lock]? = some l

variable {s s₁ : System} {a : Activation} {run : Option (ThreadId × Posture)} {actor : Actor}
  {i : Instr} {rest : List Instr} {t : ThreadId} {p : Posture} {f : Fault} {v : Value} {b : Action}

theorem Equipped.next {s' : System} (h : Equipped s) (hg : Grows s s') (hc : Creates s s') :
    Equipped s' := by
  have hold : ∀ c ∈ s.conditions, ∃ l, s'.locks[c.lock]? = some l := by
    intro c hm
    obtain ⟨l, hl⟩ := h c hm
    obtain ⟨holder, hl'⟩ := hg.locks hl
    exact ⟨_, hl'⟩
  intro c hm
  cases hc with
  | nothing _ conditions | lock _ _ conditions => exact hold c (conditions ▸ hm)
  | condition locks conditions _ lock =>
    rw [conditions] at hm
    rcases List.mem_append.1 hm with hm | hm
    · exact hold c hm
    · rw [List.mem_singleton.1 hm, locks]
      exact lock

/-! ## Parts of instructions -/

theorem fetch_error {α : Type} {l : List α} {j : Nat} (h : fetch l j = .error f) :
    l.length ≤ j ∧ f = .noSuchObject l.length j := by
  unfold fetch at h
  split at h
  · cases h
  · rename_i hn
    cases h
    exact ⟨List.getElem?_eq_none_iff.1 hn, rfl⟩

theorem Breach.of_current (h : s.kernel.currentThread = .error f) : Breach s i f := by
  unfold Kernel.currentThread at h
  split at h
  · cases h
  · rename_i hn
    cases h
    exact .nobody hn

theorem Breach.of_resolve {target : ThreadRef} (h : target.resolve s.kernel = .error f) :
    Breach s i f := by
  cases target with
  | named u => cases h
  | self => exact .of_current h

theorem Breach.of_nobody (h : s.kernel.registry.current = none ∧ f = .noThreadRunning ∨ f.Cyclic) :
    Breach s i f ∨ f.Cyclic := by
  rcases h with ⟨hn, rfl⟩ | hc
  · exact .inl (.nobody hn)
  · exact .inr hc

/-- Questions about a thread, and changes of it, fail if it is the running one and there is none. -/
theorem onThread_error {target : ThreadRef} {g : ThreadId → Effect}
    (h : s.onThread target g = .error f) :
    (∀ i, Breach s i f) ∨ ∃ u, target.resolve s.kernel = .ok u ∧ g u = .error f := by
  unfold onThread at h
  split at h
  · rename_i he
    cases h
    exact .inl fun i => .of_resolve he
  · rename_i u hu
    exact .inr ⟨u, hu, h⟩

theorem answer_error {r : Except Fault Value} (h : s.answer r = .error f) : r = .error f := by
  unfold answer at h
  split at h
  · cases h
    rfl
  · cases h

theorem change_error {r : Except Fault (Kernel Activation)} (h : s.change r = .error f) :
    r = .error f := by
  unfold change at h
  split at h
  · cases h
    rfl
  · cases h

theorem shift_error {r : Except Fault (Bool × Kernel Activation)} (h : s.shift r = .error f) :
    r = .error f := by
  unfold shift at h
  split at h
  · cases h
    rfl
  · cases h

/-- An operation that is legal only inside the atomic region fails outside, or by itself. -/
theorem atomically_error {α : Type} {operation : String}
    {g : Kernel Activation → Except Fault α} (hi : i.needsAtomic? = some operation)
    (h : s.kernel.atomically operation g = .error f) : Breach s i f ∨ g s.kernel = .error f := by
  unfold Kernel.atomically Kernel.requireAtomic at h
  by_cases hk : s.kernel.inAtomic = true
  · rw [if_pos hk] at h
    exact .inr h
  · rw [if_neg hk] at h
    cases h
    exact .inl (.outside hi (by simpa using hk))

theorem map_error {α β : Type} {g : α → β} {r : Except Fault α} (h : r.map g = .error f) :
    r = .error f := by
  cases r with
  | error e =>
    cases h
    rfl
  | ok x => cases h

/-- A question about a priority fails outside the atomic region. -/
theorem priority_error {target : ThreadRef} {operation : String}
    {g : ThreadId → Kernel Activation → Nat} (hi : i.needsAtomic? = some operation)
    (h : (s.onThread target fun t => s.answer
      ((s.kernel.atomically operation fun k => .ok (g t k)).map .ofNat)) = .error f) :
    Breach s i f := by
  rcases onThread_error h with hb | ⟨u, -, hu⟩
  · exact hb i
  · rcases atomically_error hi (map_error (answer_error hu)) with hb | hg
    · exact hb
    · cases hg

theorem Orderly.spawn_error {j : Nat} (h : s.Orderly run) (hr : s.spawn j = .error f) :
    Breach s (.act (.spawn j)) f ∨ f.Cyclic := by
  unfold System.spawn at hr
  split at hr
  · rename_i he
    cases hr
    obtain ⟨hlen, rfl⟩ := fetch_error he
    exact .inl (.missing rfl hlen)
  · split at hr
    · rename_i he
      cases hr
      exact .inr (h.placed.spawn_cyclic he)
    · cases hr

theorem Orderly.releaseLock_error {l : Nat} (h : s.Orderly run) (hx : Executing run)
    (hr : s.releaseLock l = .error f) : Breach s (.act (.release l)) f ∨ f.Cyclic := by
  unfold System.releaseLock at hr
  split at hr
  · rename_i he
    cases hr
    obtain ⟨hlen, rfl⟩ := fetch_error he
    exact .inl (.missing rfl hlen)
  · rename_i m hl
    split at hr
    · rename_i he
      cases hr
      rcases h.placed.release_error hx (mem_uses_lock (fetch_ok hl)) he with
        ⟨hn, rfl⟩ | ⟨t, ht, hne, rfl⟩ | hc
      · exact .inl (.nobody hn)
      · exact .inl (.notHeld (fetch_ok hl) ht hne)
      · exact .inr hc
    · cases hr

/-- A change through a condition fails for want of the lock, or by itself. -/
theorem onCondition_error {c : Nat} {operation : String}
    {g : Condition → Lock → Kernel Activation → Except Fault (Kernel Activation)}
    (hq : s.Equipped) (hi : i.needsLock? = some (c, operation))
    (hn : s.named? i = some (s.conditions.length, c))
    (hg : ∀ x l, s.conditions[c]? = some x → g x l s.kernel = .error f →
      l.isHeldByCurrent s.kernel = false ∧ f = .conditionWithoutLock operation ∨ f.Cyclic)
    (hr : s.onCondition c g = .error f) : Breach s i f ∨ f.Cyclic := by
  unfold onCondition at hr
  split at hr
  · rename_i he
    cases hr
    obtain ⟨hlen, rfl⟩ := fetch_error he
    exact .inl (.missing hn hlen)
  · rename_i x hx
    have hx := fetch_ok hx
    obtain ⟨m, hl⟩ := hq x (List.mem_of_getElem? hx)
    have hfetch : fetch s.locks x.lock = .ok m := by
      unfold fetch
      rw [hl]
    rw [hfetch] at hr
    rcases hg x m hx (change_error hr) with ⟨hheld, rfl⟩ | hc
    · exact .inl (.unlocked hi hx hl hheld)
    · exact .inr hc

theorem Orderly.perform_error (h : s.Orderly run) (hx : Executing run) (hq : s.Equipped)
    (hp : b.plain = true) (ha : b.asksQueue = false) (hr : s.perform b = .error f) :
    Breach s (.act b) f ∨ f.Cyclic := by
  have missing : ∀ {α : Type} {l : List α} {j : Nat}, fetch l j = .error f →
      s.named? (.act b) = some (l.length, j) → Breach s (.act b) f := by
    intro α l j he hn
    obtain ⟨hlen, rfl⟩ := fetch_error he
    exact .missing hn hlen
  cases b with
  | markReady | createQueue | destroyQueue | waitOn | acquireQueue | serve | newWaitQueue
  | dropWaitQueue | waitQueueWait | waitQueueAcquire | waitQueueNext => cases hp
  | ownerOf | waitersOf | waitQueueOwner | waitQueueSize => cases ha
  | atomic | enter | exit | guard | unguard | run | inAtomic | note | now | policy | bounds
  | tryCurrent | numThreads | read | newLock | newAlarm | timer | set | add | copy => cases hr
  | assertAtomic operation =>
    have he := map_error (answer_error hr)
    unfold Kernel.requireAtomic at he
    split at he
    · cases he
    · rename_i hk
      cases he
      exact .inl (.outside rfl (by simpa using hk))
  | current => exact .inl (.of_current (map_error (answer_error hr)))
  | alive target =>
    rcases onThread_error hr with hb | ⟨u, -, hu⟩
    · exact .inl (hb _)
    · cases hu
  | getPriority target => exact .inl (priority_error (g := fun t k => k.table.priority t) rfl hr)
  | getEffective target => exact .inl (priority_error (g := fun t k => k.table.effective t) rfl hr)
  | setPriority target p =>
    rcases onThread_error hr with hb | ⟨u, hu, hset⟩
    · exact .inl (hb _)
    · rcases atomically_error (i := .act (.setPriority target p)) rfl (change_error hset) with
        hb | hg
      · exact .inl hb
      · rcases Kernel.setPriority_error h.placed.1.sound hg with ⟨hrange, rfl⟩ | hc
        · exact .inl (.outOfRange hu hrange)
        · exact .inr hc
  | increasePriority =>
    exact Breach.of_nobody (Kernel.increasePriority_error h.placed.1.sound (shift_error hr))
  | decreasePriority =>
    exact Breach.of_nobody (Kernel.decreasePriority_error h.placed.1.sound (shift_error hr))
  | spawn j => exact h.spawn_error hr
  | held l | holder l => exact .inl (missing (map_error (answer_error hr)) rfl)
  | release l => exact h.releaseLock_error hx hr
  | newCondition l =>
    rw [System.perform, System.newCondition] at hr
    split at hr
    · rename_i he
      cases hr
      exact .inl (missing he rfl)
    · cases hr
  | wake c =>
    exact onCondition_error hq rfl rfl (fun x l hc => h.placed.wake_error hx (mem_uses_condition hc))
      hr
  | wakeAll c =>
    exact onCondition_error hq rfl rfl
      (fun x l hc => h.placed.wakeAll_error hx (mem_uses_condition hc)) hr
  | sleepers c =>
    rw [System.perform, System.sleepers] at hr
    split at hr
    · rename_i he
      cases hr
      exact .inl (missing he rfl)
    · rename_i x hc
      obtain ⟨n, hn⟩ := Kernel.exists_numWaiters
        (h.placed.1.layout.exists_use (mem_uses_condition (fetch_ok hc)))
      have he := map_error (answer_error hr)
      rw [show (Use.ofCondition x).queue = x.queue from rfl] at hn
      rw [hn] at he
      cases he
  | alarmSleepers j => exact .inl (missing (map_error (answer_error hr)) rfl)

/-! ## Instructions -/

/-- Once it is enqueued inside the atomic region, a thread may block. -/
theorem Orderly.not_blocks_error {q : Resume} (h : s.Orderly (some (t, p)))
    (hs : Steady s.kernel.enter s₁.kernel) : s₁.blocks q a ≠ .error f := by
  obtain ⟨u, hu⟩ := hs.exists_blockingThread h.placed
  unfold System.blocks
  rw [hu]
  rintro ⟨⟩

/-- The running thread, as far as an instruction asks for it. -/
theorem Orderly.running (h : s.Orderly run) (hx : Executing run)
    (ht : s.kernel.currentThread = .ok t) : s.Orderly (some (t, .free)) :=
  h.placed.current hx (Kernel.currentThread_ok ht) ▸ h

theorem Orderly.beginJoin_error {target : ThreadRef} (h : s.Orderly run) (hx : Executing run)
    (hr : s.beginJoin actor target a = .error f) : Breach s (.join target) f ∨ f.Cyclic := by
  unfold System.beginJoin at hr
  split at hr
  · rename_i he
    cases hr
    exact .inl (.of_resolve he)
  · rename_i u hu
    split at hr
    · rename_i he
      cases hr
      exact .inl (.of_current he)
    · rename_i t ht
      have hrun := h.running hx ht
      split at hr
      · rename_i heq
        cases hr
        exact .inl (.joinSelf hu (heq ▸ Kernel.currentThread_ok ht))
      · split at hr
        · cases hr
        · rename_i slot hslot
          split at hr
          · rename_i he
            cases hr
            have hnow : Kernel.Nowhere s.asleep s.kernel t := hrun.placed.2.place
            rw [Kernel.waitForAccess, Kernel.atomically_eq rfl] at he
            exact .inr (Table.waitForAccess_cyclic hrun.placed.1.sound hnow.waiting
              (hrun.placed.1.layout.exists_join hslot) (Kernel.withTable_error he))
          · rename_i k hk
            exact absurd hr (hrun.not_blocks_error (Kernel.waitForAccess_steady hk))

theorem Orderly.beginAcquire_error {l : Nat} (h : s.Orderly run) (hx : Executing run)
    (hr : s.beginAcquire actor l a = .error f) : Breach s (.acquire l) f ∨ f.Cyclic := by
  unfold System.beginAcquire at hr
  split at hr
  · rename_i he
    cases hr
    obtain ⟨hlen, rfl⟩ := fetch_error he
    exact .inl (.missing rfl hlen)
  · rename_i m hl
    have hl := fetch_ok hl
    split at hr
    · rename_i he
      cases hr
      exact .inl (.of_current he)
    · rename_i t ht
      have hrun := h.running hx ht
      simp only at hr
      split at hr
      · rename_i he
        cases hr
        rcases hrun.placed.request_error (mem_uses_lock hl) he with ⟨hheld, rfl⟩ | hc
        · exact .inl (.held hl hrun.placed.2.current hheld)
        · exact .inr hc
      · rename_i granted m' k hk
        split at hr
        · cases hr
        · exact absurd hr (hrun.not_blocks_error (Lock.request_steady hk).1)

theorem Orderly.beginSleep_error {c : Nat} (h : s.Orderly run) (hx : Executing run)
    (hq : s.Equipped) (hr : s.beginSleep c a = .error f) : Breach s (.sleep c) f ∨ f.Cyclic := by
  unfold System.beginSleep at hr
  split at hr
  · rename_i he
    cases hr
    obtain ⟨hlen, rfl⟩ := fetch_error he
    exact .inl (.missing rfl hlen)
  · rename_i x hc
    have hc := fetch_ok hc
    obtain ⟨m, hl⟩ := hq x (List.mem_of_getElem? hc)
    have hfetch : fetch s.locks x.lock = .ok m := by
      unfold fetch
      rw [hl]
    simp only [hfetch] at hr
    split at hr
    · rename_i he
      cases hr
      obtain ⟨hheld, rfl⟩ := Kernel.holder_error he
      exact .inl (.unlocked rfl hc hl hheld)
    · rename_i t ht
      obtain ⟨hcur, hheld⟩ := Condition.holder_ok ht
      cases h.placed.current hx hcur
      split at hr
      · rename_i he
        cases hr
        exact .inr (h.enter.placed.fallAsleep_cyclic rfl (mem_uses_lock hl) hheld
          (fun m' hm' => reassigned_setLock hl hm' h.placed.1.layout.use_nodup)
          (fun _ _ => mem_uses_condition hc) he)
      · rename_i m' k hk
        exact absurd hr (h.not_blocks_error (Condition.fallAsleep_steady hk).1)

theorem Orderly.beginWait_error {j ticks : Nat} (h : s.Orderly run) (hx : Executing run)
    (hr : s.beginWait j ticks a = .error f) : Breach s (.wait j ticks) f := by
  unfold System.beginWait at hr
  split at hr
  · rename_i he
    cases hr
    obtain ⟨hlen, rfl⟩ := fetch_error he
    exact .missing rfl hlen
  · split at hr
    · rename_i he
      cases hr
      exact .of_current he
    · rename_i t ht
      exact absurd hr ((h.running hx ht).not_blocks_error (.refl _))

theorem Orderly.stepAction_error (h : s.Orderly run) (hx : Executing run) (hq : s.Equipped)
    (hp : b.plain = true) (ha : b.asksQueue = false)
    (hr : s.stepAction actor b rest a = .error f) : Breach s (.act b) f ∨ f.Cyclic := by
  unfold System.stepAction at hr
  simp only at hr
  split at hr
  · cases hr
  · cases hr
  · cases hr
  · cases hr
  · cases hr
  · split at hr
    · rename_i hcur
      cases hr
      exact .inl (.run hcur)
    · cases hr
  · split at hr
    · rename_i he
      cases hr
      exact h.perform_error hx hq hp ha he
    · cases hr

theorem Orderly.stepInstr_error (h : s.Orderly run) (hx : Executing run) (hq : s.Equipped)
    (hp : i.plain = true) (ha : ∀ b, i = .act b → b.asksQueue = false)
    (hr : s.stepInstr actor i rest a = .error f) : Breach s i f ∨ f.Cyclic := by
  cases i with
  | act b => exact h.stepAction_error hx hq hp (ha b rfl) hr
  | block => cases hp
  | yield =>
    simp only [System.stepInstr] at hr
    split at hr
    · rename_i he
      cases hr
      cases run with
      | none =>
        have hn : s.kernel.registry.current = none := h.placed.2
        unfold Kernel.yieldingThread at he
        rw [currentThread_none hn] at he
        cases he
        exact .inl (.nobody hn)
      | some run =>
        obtain ⟨u, hu⟩ := h.placed.exists_yieldingThread
        cases hu.symm.trans he
    · cases hr
  | join target => exact h.beginJoin_error hx hr
  | acquire l => exact h.beginAcquire_error hx hr
  | sleep c => exact h.beginSleep_error hx hq hr
  | wait j ticks => exact .inl (h.beginWait_error hx hr)
  | loop n body => cases n <;> cases hr
  | whileEq v x body | whileNe v x body | whileSame v w body | ifEq v x body => cases hr

/-! ## Going on behind a yield point -/

/-- What a thread finds when it goes on: the lock that it was handed, or one that it gave up. -/
structure Finds (t : ThreadId) (a : Activation) (s : System) : Prop where
  taken : ∀ p l level, a.stage = .suspended p (.takeOver l level) →
    (s.kernel.pollPoint t p).1 = true → ∃ m, s.locks[l]? = some m ∧ m.holder = some t
  released : ∀ p l level, a.stage = .suspended p (.relock l level) →
    ∃ m, s.locks[l]? = some m ∧ m.holder ≠ some t

theorem Orderly.stepResume_cyclic {q : Resume} (h : s.Orderly (some (t, .free)))
    (ht : ∀ l level, q = .takeOver l level → ∃ m, s.locks[l]? = some m ∧ m.holder = some t)
    (hl : ∀ l level, q = .relock l level → ∃ m, s.locks[l]? = some m ∧ m.holder ≠ some t)
    (hr : s.stepResume actor t q a = .error f) : f.Cyclic := by
  cases q with
  | proceed | leave => cases hr
  | takeOver l level =>
    obtain ⟨m, hm, hheld⟩ := ht l level rfl
    have hfetch : fetch s.locks l = .ok m := by
      unfold fetch
      rw [hm]
    simp only [System.stepResume, hfetch, if_pos hheld] at hr
    cases hr
  | relock l level =>
    obtain ⟨m, hm, hne⟩ := hl l level rfl
    refine ((h.restore level).beginAcquire_error (Kernel.executing_free t) hr).resolve_left ?_
    intro hb
    have hcur : s.kernel.registry.current = some t := h.placed.2.current
    have hlocks : (s.withKernel (s.kernel.restore level)).locks = s.locks := rfl
    cases hb with
    | nobody current => cases hcur.symm.trans current
    | held lock current holder =>
      cases hcur.symm.trans current
      rw [hlocks, hm] at lock
      cases lock
      exact hne holder
    | unlocked needs => cases needs
    | outside needs => cases needs
    | missing names absent =>
      cases names
      have := (List.getElem?_eq_some_iff.1 hm).1
      rw [hlocks] at absent
      omega

theorem Agrees.stepPoint_cyclic {point : YieldPoint} {q : Resume}
    (h : Agrees (some (t, p)) a s) (hf : Finds t a s) (hs : a.stage = .suspended point q)
    (hr : s.stepPoint actor point q a = .error f) : f.Cyclic := by
  have hcur : s.kernel.currentThread = .ok t := by
    rw [Kernel.currentThread, h.orderly.placed.2.current]
  unfold System.stepPoint at hr
  rw [hcur] at hr
  cases hpoll : s.kernel.pollPoint t point with
  | mk ready tail =>
    obtain ⟨point', k⟩ := tail
    simp only [hpoll] at hr
    cases ready with
    | true =>
      obtain ⟨hpl, -⟩ := h.orderly.placed.poll_ready (h.takes t p rfl) hs hpoll
      have ho : Orderly (some (t, .free)) (s.withKernel k) := h.orderly.kernel hpl
      refine ho.stepResume_cyclic (fun l level hq => ?_) (fun l level hq => ?_) hr
      · exact hf.taken point l level (hq ▸ hs) (by rw [hpoll])
      · exact hf.released point l level (hq ▸ hs)
    | false => cases hr

/-- A program fails at the beginning of an instruction, whose precondition is violated, or in a
cycle. -/
theorem Agrees.stepCode_error (h : Agrees run a s) (hq : s.Equipped)
    (ha : ∀ b, a.Begins (.act b) → b.asksQueue = false) (hf : ∀ t p, run = some (t, p) → Finds t a s)
    (hn : run = none → a.stage = .fresh) (hr : s.stepCode actor a = .error f) :
    (∃ i, a.Begins i ∧ Breach s i f) ∨ f.Cyclic := by
  unfold System.stepCode at hr
  split at hr
  · cases hr
  · rename_i i rest hc hs
    refine (h.orderly.stepInstr_error (h.executing hs) hq (plain_rest h.plain hc).1 ?_ hr).imp_left
      fun hb => ⟨i, ⟨hs, rest, hc⟩, hb⟩
    rintro b rfl
    exact ha b ⟨hs, rest, hc⟩
  · rename_i hc hs
    right
    cases run with
    | none =>
      rw [hn rfl] at hs
      cases hs
    | some run =>
      obtain ⟨t, p⟩ := run
      exact h.stepPoint_cyclic (hf t p rfl) hs hr

end System

namespace Machine

/-- The next step begins the instruction, whoever executes it. -/
def Undertakes (i : Instr) (m : Machine) : Prop :=
  ∃ a, m.executing? = some a ∧ a.Begins i

/-- What is so of a machine throughout a run of plain programs. -/
structure Governed (m : Machine) : Prop where
  orderly : m.Orderly
  coherent : m.Coherent
  tended : ∀ l, m.Tended l
  released : ∀ l, m.Released l
  leveled : m.Leveled
  equipped : m.system.Equipped

variable {m m' : Machine} {s : System} {below : List Frame} {f : Fault} {a : Activation}

/-! ## All steps -/

theorem Turn.equipped (h : Turn m m') (hq : m.system.Equipped) : m'.system.Equipped := by
  cases h with
  | program _ code | thread _ code =>
    exact hq.next (System.stepCode_grows code) (System.stepCode_creates code)
  | @parks _ _ s _ _ _ code _ system =>
    have hs : s.Equipped := hq.next (System.stepCode_grows code) (System.stepCode_creates code)
    rw [system]
    exact hs
  | retires _ _ _ system | dispatches _ _ _ system =>
    rw [system]
    exact hq
  | alarm _ _ _ same | chooses _ _ _ same | quiet _ _ same =>
    unfold System.Equipped
    rw [same.conditions, same.locks]
    exact hq

theorem Governed.next (h : m.Governed) (hs : m.step = .next m') : m'.Governed := by
  have hturn := h.coherent.toRegular.turn hs
  have hprivate : ∀ {l : Nat} {L : Lock}, m.system.locks[l]? = some L → m.Private L.queue :=
    fun hl => h.orderly.private ⟨_, System.mem_uses_lock hl, rfl⟩
  exact ⟨(h.orderly.step hs).1, h.coherent.next hturn,
    fun l => (h.tended l).next h.coherent hturn fun _ => hprivate,
    fun l => (h.released l).next (h.tended l) h.coherent hs fun _ => hprivate,
    h.leveled.step h.coherent.toRegular hs, hturn.equipped h.equipped⟩

theorem Governed.reseed (h : m.Governed) (g : Random) : (m.reseed g).Governed where
  orderly := h.orderly.reseed g
  coherent := h.coherent.reseed g
  tended l := (h.tended l).reseed g
  released l := (h.released l).reseed g
  leveled := h.leveled.reseed g
  equipped := h.equipped

theorem start_governed {gen : Generator} {settings : Settings} {k : Kernel Activation}
    {programs : List Program} {main : List Action} (hk : Kernel.start gen settings = .ok k)
    (hp : ∀ p ∈ programs, Instr.plainList p.code = true) (hm : Action.plainList main = true) :
    (start k programs main).Governed := by
  have hnone : ∀ t, (start k programs main).activation? t = none := start_activation? hk
  exact ⟨start_orderly hk hp hm, start_coherent hk, fun l => tended_of_none rfl hnone,
    fun l => released_of_none hnone, start_leveled k programs main, fun c hc => (nomatch hc)⟩

/-! ## Faults -/

/-- The fault is the program's own, or there is a cycle of owners. -/
def Explains (m : Machine) (f : Fault) : Prop :=
  (∃ i, m.Undertakes i ∧ m.system.Breach i f) ∨ f.Cyclic

theorem stepProgram_faulted {actor : Actor} (h : Governed ⟨s, .program actor a :: below⟩)
    (ha : ∀ b, a.Begins (.act b) → b.asksQueue = false)
    (hr : stepProgram actor a below s = .faulted f) : Explains ⟨s, .program actor a :: below⟩ f := by
  cases h.orderly with
  | idle hs hf =>
    have hagrees : System.Agrees none a s := by
      cases (List.forall_mem_cons.1 hf).1 with
      | program code => exact ⟨hs, code, fun _ _ hc => by cases hc⟩
    unfold stepProgram at hr
    split at hr
    · rename_i hcode
      cases hr
      refine (hagrees.stepCode_error h.equipped ha (by simp) (fun _ => ?_) hcode).imp_left ?_
      · exact h.leveled.fresh actor a List.mem_cons_self
      · rintro ⟨i, hb, hbreach⟩
        exact ⟨i, ⟨a, rfl, hb⟩, hbreach⟩
    · cases hr
    · cases hr
    · cases hr
    · split at hr <;> cases hr

/-- Whoever goes on behind a yield point finds its lock as it should be. -/
theorem Governed.finds {d : Kernel.Dispatched Activation} (h : Governed ⟨s, .thread d :: below⟩) :
    System.Finds d.thread d.task.coroutine s := by
  refine ⟨fun p l level hs hpoll => ?_, fun p l level hs => ?_⟩
  · have hheld := (h.tended l).passed rfl hs hpoll
    exact Option.bind_eq_some_iff.1 hheld
  · obtain ⟨L, hl, hne, -⟩ := h.released l d.thread _ p level (activation?_self rfl) hs
    exact ⟨L, hl, hne⟩

theorem stepThread_faulted {d : Kernel.Dispatched Activation}
    (h : Governed ⟨s, .thread d :: below⟩)
    (ha : ∀ b, d.task.coroutine.Begins (.act b) → b.asksQueue = false)
    (hr : stepThread d below s = .faulted f) : Explains ⟨s, .thread d :: below⟩ f := by
  have hfinds := h.finds
  cases h.orderly with
  | idle hs hf => cases (List.forall_mem_cons.1 hf).1
  | @running _ _ p _ hs ht hp hf =>
    have hagrees : System.Agrees (some (d.thread, p)) d.task.coroutine s := by
      refine ⟨hs, hp, ?_⟩
      rintro t q ⟨⟩
      exact ht
    unfold stepThread at hr
    simp only at hr
    split at hr
    · rename_i hcode
      cases hr
      refine (hagrees.stepCode_error h.equipped ha ?_ (by simp) hcode).imp_left ?_
      · rintro t q ⟨⟩
        exact hfinds
      · rintro ⟨i, hb, hbreach⟩
        exact ⟨i, ⟨_, rfl, hb⟩, hbreach⟩
    · cases hr
    · rename_i a' s' hcode
      obtain ⟨t, point, q, point', k, -, -, hcur, hpoll, rfl, rfl⟩ := System.stepCode_park hcode
      cases hcur.symm.trans hs.placed.2.current
      obtain ⟨k', hk⟩ := Kernel.exists_park (d := holding d { d.task.coroutine with
        stage := .suspended point' q }) hs.placed hpoll
      have hend : endDispatch (k.park (holding d { d.task.coroutine with
        stage := .suspended point' q })) below (s.withKernel k) = .faulted f := hr
      rw [hk] at hend
      cases hend
    · cases hr
    · rename_i a' s' hcode
      obtain ⟨rfl, rfl, hnil⟩ := System.stepCode_done hcode
      simp only [endDispatch] at hr
      split at hr
      · rename_i hfinish
        cases hr
        obtain ⟨hpl, -⟩ := hs.placed.restoreAll d.task.coroutine.guards
        obtain ⟨k, hok⟩ := hpl.exists_finish
        cases hfinish.symm.trans hok
      · cases hr

theorem stepDelivery_faulted {previous : Level} {called waiting : List Handler}
    (h : Governed ⟨s, .delivery previous called waiting :: below⟩) :
    stepDelivery previous called waiting below s ≠ .faulted f := by
  cases h.orderly with
  | idle hs hf =>
    intro hr
    cases waiting with
    | nil => cases hr
    | cons x waiting =>
      cases x with
      | alarm i =>
        simp only [stepDelivery] at hr
        split at hr
        · cases hr
        · rename_i alarm halarm
          have hp := hs.placed
          rw [asleep_due s.kernel.now halarm] at hp
          obtain ⟨k, hk⟩ := hp.exists_wakeEach _ (h.leveled.level rfl rfl)
          unfold Alarm.release at hr
          rw [hk] at hr
          cases hr
      | routine left body => cases left <;> cases hr

theorem stepChoose_faulted (h : Governed ⟨s, .loop .choose :: below⟩)
    (hr : stepChoose below s = .faulted f) : f.Cyclic := by
  cases h.orderly with
  | idle hs hf =>
    have hreturn : ∀ {v : Value} {s' : System}, returnFrom v below s' ≠ .faulted f := by
      intro v s' hr
      unfold returnFrom at hr
      split at hr <;> cases hr
    unfold stepChoose at hr
    split at hr
    · rename_i hk
      cases hr
      exact hs.placed.chooseThread_cyclic hk
    · rename_i t k hk
      obtain ⟨k₁, k₂, hadm, hn, rfl⟩ := Kernel.chooseThread_cases hk
      obtain ⟨hp, -⟩ := placed_admitted hs hadm
      obtain ⟨r, hd⟩ := hp.exists_dispatch s.kernel.level hn
      unfold stepDispatch at hr
      rw [show (s.withKernel (k₂.restore s.kernel.level)).kernel.dispatch t = .ok r from hd] at hr
      rcases r with - | ⟨d, k'⟩ <;> cases hr
    · unfold stepIdle at hr
      split at hr
      · exact absurd hr hreturn
      · split at hr
        · cases hr
        · exact absurd hr hreturn

theorem Governed.faulted (h : m.Governed)
    (ha : ∀ b, m.Undertakes (.act b) → b.asksQueue = false) (hr : m.step = .faulted f) :
    m.Explains f := by
  obtain ⟨s, stack⟩ := m
  have ha : ∀ b a, Machine.executing? ⟨s, stack⟩ = some a → a.Begins (.act b) →
      b.asksQueue = false := fun b a hx hb => ha b ⟨a, hx, hb⟩
  unfold Machine.step at hr
  simp only at hr
  split at hr
  · cases hr
  · exact stepProgram_faulted h (fun b => ha b _ rfl) hr
  · exact stepThread_faulted h (fun b => ha b _ rfl) hr
  · unfold stepTick at hr
    split at hr <;> cases hr
  · exact .inr (stepChoose_faulted h hr)
  · exact absurd hr (stepDelivery_faulted h)

end Machine

open Machine

theorem Execution.governed {n i : Nat} {ms : Nat → Machine} (h : Execution n ms)
    (hg : (ms 0).Governed) (hi : i ≤ n) : (ms i).Governed :=
  h.invariant hg (fun _ _ _ g hstep hg => (hg.next hstep).reseed g) hi

namespace Machine

/-- Where programs use threads, locks, conditions, alarms, timers, priorities and atomic regions,
and leave the queues to them, a run fails only if a program violates a precondition, or if the
owners of queues wait for each other in a cycle. -/
theorem run_faults {n i : Nat} {ms : Nat → Machine} {gen : Generator} {settings : Settings}
    {k : Kernel Activation} {programs : List Program} {main : List Action} {f : Fault}
    (h : Execution n ms)
    (hk : Kernel.start gen settings = .ok k) (hstart : ms 0 = start k programs main)
    (hp : ∀ p ∈ programs, Instr.plainList p.code = true) (hm : Action.plainList main = true)
    (hpq : ∀ p ∈ programs, Instr.everyList (fun b => !b.asksQueue) p.code = true)
    (hmq : Action.everyList (fun b => !b.asksQueue) main = true) (hi : i ≤ n)
    (hf : (ms i).step = .faulted f) : (ms i).Explains f := by
  have hspeaks := h.speaks (hstart ▸ start_speaks hk hpq hmq) hi
  refine (h.governed (hstart ▸ start_governed hk hp hm) hi).faulted ?_ hf
  rintro b ⟨a, ha, hb⟩
  simpa using hspeaks.executes ha hb

/-- A thread releases the lock of another one. -/
def intruderPrograms : List Program :=
  [⟨"holder", [.acquire 0, .yield, .act (.release 0)]⟩, ⟨"intruder", [.act (.release 0)]⟩]

def intruderMain : List Action := [.newLock, .spawn 0, .spawn 1, .run]

theorem run_faults_intruder : ∃ (n : Nat) (ms : Nat → Machine) (k : Kernel Activation),
    Execution n ms ∧ Kernel.start .counting lendingSettings = .ok k ∧
    ms 0 = start k intruderPrograms intruderMain ∧
    (∀ p ∈ intruderPrograms, Instr.plainList p.code = true) ∧
    Action.plainList intruderMain = true ∧
    (∀ p ∈ intruderPrograms, Instr.everyList (fun b => !b.asksQueue) p.code = true) ∧
    Action.everyList (fun b => !b.asksQueue) intruderMain = true ∧ 11 ≤ n ∧
    (ms 11).step = .faulted (.lockNotHeld ⟨2⟩ (some ⟨1⟩)) ∧
    (ms 11).Explains (.lockNotHeld ⟨2⟩ (some ⟨1⟩)) := by
  have hrun : (Kernel.start .counting lendingSettings).toOption.any (fun k =>
      (run 11 (start k intruderPrograms intruderMain)).2 = .unfinished ∧
        (match (run 11 (start k intruderPrograms intruderMain)).1.step with
          | .faulted f => some f
          | _ => none) = some (.lockNotHeld ⟨2⟩ (some ⟨1⟩))) = true := by
    decide +kernel
  have hp : ∀ p ∈ intruderPrograms, Instr.plainList p.code = true := by decide
  have hm : Action.plainList intruderMain = true := by decide
  have hpq : ∀ p ∈ intruderPrograms,
    Instr.everyList (fun b => !b.asksQueue) p.code = true := by decide
  have hmq : Action.everyList (fun b => !b.asksQueue) intruderMain = true := by decide
  obtain ⟨k, hk, hrun⟩ := exists_start hrun
  obtain ⟨hn, hfault⟩ := of_decide_eq_true hrun
  have hexec := execution_run hk hn
  have hf : (run 11 (start k intruderPrograms intruderMain)).1.step =
      .faulted (.lockNotHeld ⟨2⟩ (some ⟨1⟩)) := by
    split at hfault
    · rename_i f hstep
      cases hfault
      exact hstep
    · cases hfault
  have hexplains := run_faults hexec hk rfl hp hm hpq hmq (le_refl 11) hf
  exact ⟨11, _, k, hexec, hk, rfl, hp, hm, hpq, hmq, le_refl 11, hf, hexplains⟩

end Machine
end ThreadKernel
