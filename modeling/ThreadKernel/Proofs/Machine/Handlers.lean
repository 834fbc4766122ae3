import ThreadKernel.Proofs.Machine.Headway

/-!
# ThreadKernel.Proofs.Machine.Handlers

The handlers that programs register. A new handler comes to the end of the list, and nothing else that
programs do has a part in it.

* `Activation.registers` — the handlers that a step of a program registers.
* `stepCode_handlers`    — the list after a step of a program.
* `stepCode_calls`       — without timers of its own a program registers alarms.
-/

namespace ThreadKernel

def Action.registers (s : System) : Action → List Handler
  | .newAlarm => [.alarm s.alarms.length]
  | .timer n body => [.routine n body]
  | _ => []

/-- The handlers that the next step of the program registers. -/
def Activation.registers (a : Activation) (s : System) : List Handler :=
  match a.stage, a.code with
  | .fresh, .act b :: _ => b.registers s
  | _, _ => []

namespace System

variable {a a' b : Activation} {s s' s₁ : System} {v : Value} {actor : Actor} {i : Instr}
  {rest : List Instr} {t : ThreadId}

theorem perform_handlers {b : Action} (hr : s.perform b = .ok (v, s')) :
    s'.handlers = s.handlers ++ b.registers s := by
  have same : s' = s → s'.handlers = s.handlers ++ [] := by
    rintro rfl
    exact (List.append_nil _).symm
  have changed : ∀ {f : Except Fault (Kernel Activation)}, s.change f = .ok (v, s') →
      s'.handlers = s.handlers ++ [] := by
    intro f hf
    obtain ⟨k, -, rfl⟩ := change_ok hf
    exact (List.append_nil _).symm
  have served : ∀ {q}, s.serve q = .ok (v, s') → s'.handlers = s.handlers ++ [] := by
    intro q hq
    obtain ⟨_, _, -, rfl⟩ := serve_ok hq
    exact (List.append_nil _).symm
  cases b with
  | atomic | enter | exit | guard | unguard | run | inAtomic | note | now | policy | bounds
  | tryCurrent | numThreads | read | createQueue | newWaitQueue | newLock | set | add | copy =>
    cases hr
    exact (List.append_nil _).symm
  | assertAtomic | current | ownerOf | waitersOf | held | holder | alarmSleepers =>
    exact same (answer_ok hr)
  | alive =>
    obtain ⟨u, hu⟩ := onThread_ok hr
    cases hu
    exact (List.append_nil _).symm
  | getPriority | getEffective =>
    obtain ⟨u, hu⟩ := onThread_ok hr
    exact same (answer_ok hu)
  | waitQueueOwner | waitQueueSize =>
    obtain ⟨q, hq⟩ := onWaitQueue_ok hr
    exact same (answer_ok hq)
  | sleepers =>
    exact same (sleepers_ok hr)
  | spawn =>
    obtain ⟨_, _, _, -, -, rfl⟩ := spawn_ok hr
    exact (List.append_nil _).symm
  | markReady | setPriority | waitOn | acquireQueue =>
    obtain ⟨u, hu⟩ := onThread_ok hr
    exact changed hu
  | increasePriority | decreasePriority =>
    obtain ⟨_, _, -, rfl⟩ := shift_ok hr
    exact (List.append_nil _).symm
  | newCondition =>
    obtain ⟨_, -, rfl⟩ := newCondition_ok hr
    exact (List.append_nil _).symm
  | destroyQueue => exact changed hr
  | serve => exact served hr
  | dropWaitQueue =>
    obtain ⟨_, _, -, -, rfl⟩ := dropWaitQueue_ok hr
    exact (List.append_nil _).symm
  | waitQueueWait | waitQueueAcquire =>
    obtain ⟨u, hu⟩ := onThread_ok hr
    obtain ⟨q, hq⟩ := onWaitQueue_ok hu
    exact changed hq
  | waitQueueNext =>
    obtain ⟨q, hq⟩ := onWaitQueue_ok hr
    exact served hq
  | release =>
    obtain ⟨_, _, _, -, -, rfl⟩ := releaseLock_ok hr
    exact (List.append_nil _).symm
  | wake | wakeAll =>
    obtain ⟨_, _, _, -, -, -, rfl⟩ := onCondition_ok hr
    exact (List.append_nil _).symm
  | newAlarm | timer =>
    cases hr
    rfl

theorem returns_handlers (hr : s₁.returns actor v b = .ok (.go a' s')) (hc : b.code = i :: rest)
    (h : s₁.handlers = s.handlers) : s'.handlers = s.handlers := by
  obtain ⟨level, hgo⟩ := returns_eq hc hr
  cases hgo
  exact h

theorem blocks_handlers {r : Resume} (hr : s₁.blocks r b = .ok (.go a' s'))
    (h : s₁.handlers = s.handlers) : s'.handlers = s.handlers := by
  obtain ⟨-, hgo⟩ := blocks_eq hr
  cases hgo
  exact h

theorem stepAction_handlers {c : Action} (hc : a.code = .act c :: rest)
    (hr : s.stepAction actor c rest a = .ok (.go a' s')) :
    s'.handlers = s.handlers ++ c.registers s := by
  have hreturns : ∀ {v : Value} {b : Activation} (r : System), r.handlers = s.handlers →
      b.code = a.code → r.returns actor v b = .ok (.go a' s') →
      s'.handlers = s.handlers ++ [] := by
    intro v b r hs hb hr
    rw [returns_handlers hr (hb.trans hc) hs, List.append_nil]
  have hleave : ∀ saved, (s.leaveNewest saved).handlers = s.handlers := fun saved => by
    cases saved <;> rfl
  unfold System.stepAction at hr
  simp only at hr
  split at hr
  · cases hr
    exact (List.append_nil _).symm
  · exact hreturns (b := { a with levels := s.kernel.level :: a.levels })
      (s.withKernel s.kernel.enter) rfl rfl hr
  · exact hreturns (b := { a with levels := a.levels.tail }) _ (hleave _) rfl hr
  · exact hreturns (b := { a with guards := s.kernel.level :: a.guards })
      (s.withKernel s.kernel.enter) rfl rfl hr
  · exact hreturns (b := { a with guards := a.guards.tail }) _ (hleave _) rfl hr
  · split at hr <;> cases hr
  · split at hr
    · cases hr
    · rename_i s₁ hperf
      rw [returns_handlers (s := s₁) hr hc rfl, perform_handlers hperf]

theorem beginAcquire_handlers {l : Nat} (hc : a.code = i :: rest)
    (hr : s.beginAcquire actor l a = .ok (.go a' s')) : s'.handlers = s.handlers := by
  obtain ⟨m, t, -, -, ⟨k, -, -, hr⟩ | ⟨u, k, -, -, -, hr⟩⟩ := beginAcquire_cases hr
  · exact returns_handlers hr hc rfl
  · exact blocks_handlers hr rfl

/-- Instructions that are no actions register nothing. -/
theorem stepInstr_handlers (hi : ∀ c, i ≠ .act c) (hc : a.code = i :: rest)
    (hr : s.stepInstr actor i rest a = .ok (.go a' s')) : s'.handlers = s.handlers := by
  cases i with
  | act c => exact absurd rfl (hi c)
  | yield =>
    simp only [System.stepInstr] at hr
    split at hr
    · cases hr
    · cases hr
      rfl
  | block => exact blocks_handlers hr rfl
  | join target =>
    obtain ⟨t, u, -, -, -, ⟨-, hr⟩ | ⟨slot, k, -, -, hr⟩⟩ := beginJoin_cases hr
    · exact returns_handlers hr hc rfl
    · exact blocks_handlers hr rfl
  | acquire l => exact beginAcquire_handlers hc hr
  | sleep c =>
    obtain ⟨x, m, t, m', k₁, k, -, -, -, -, -, -, hr⟩ := beginSleep_cases hr
    exact blocks_handlers hr rfl
  | wait j ticks =>
    obtain ⟨_, _, -, -, hr⟩ := beginWait_cases hr
    exact blocks_handlers hr rfl
  | loop n body =>
    cases n <;>
      · cases hr
        rfl
  | whileEq | whileNe | whileSame | ifEq =>
    cases hr
    rfl

theorem stepResume_handlers {r : Resume} (hc : a.code = i :: rest)
    (hr : s.stepResume actor t r a = .ok (.go a' s')) : s'.handlers = s.handlers := by
  cases r with
  | proceed | leave level => exact returns_handlers hr hc rfl
  | takeOver l level =>
    simp only [System.stepResume] at hr
    split at hr
    · cases hr
    · split at hr
      · exact returns_handlers hr hc rfl
      · cases hr
  | relock l level =>
    have hrelock : s'.handlers = (s.withKernel (s.kernel.restore level)).handlers :=
      beginAcquire_handlers hc hr
    exact hrelock

theorem registers_of_suspended {p : YieldPoint} {r : Resume} (hs : a.stage = .suspended p r) :
    a.registers s = [] := by
  unfold Activation.registers
  rw [hs]

theorem registers_of_act {c : Action} (hs : a.stage = .fresh) (hc : a.code = .act c :: rest) :
    a.registers s = c.registers s := by
  unfold Activation.registers
  rw [hs, hc]

theorem registers_of_not_act (hi : ∀ c, i ≠ .act c) (hc : a.code = i :: rest) :
    a.registers s = [] := by
  unfold Activation.registers
  rw [hc]
  split
  · rename_i heq
    exact absurd (List.cons.inj heq).1 (hi _)
  · rfl

/-- New handlers come last. -/
theorem stepCode_handlers {r : Progress} (hr : s.stepCode actor a = .ok r) :
    r.system.handlers = s.handlers ++ a.registers s := by
  cases stepCode_ok hr with
  | @begins i rest _ code stage instr =>
    rcases stepInstr_go instr with ⟨a', s', rfl⟩ | ⟨rfl, -, rfl⟩
    · by_cases hact : ∃ c, i = .act c
      · obtain ⟨c, rfl⟩ := hact
        rw [registers_of_act stage code]
        exact stepAction_handlers code instr
      · have hi : ∀ c, i ≠ .act c := fun c hc => hact ⟨c, hc⟩
        rw [registers_of_not_act hi code, List.append_nil]
        exact stepInstr_handlers hi code instr
    · rw [registers_of_act stage code]
      exact (List.append_nil _).symm
  | @resumes _ _ _ _ _ _ k _ code stage _ _ resume =>
    obtain ⟨a', s', rfl⟩ := stepResume_go resume
    have hresume : s'.handlers = (s.withKernel k).handlers := stepResume_handlers code resume
    rw [registers_of_suspended stage, List.append_nil]
    exact hresume
  | waits _ stage =>
    rw [registers_of_suspended stage]
    exact (List.append_nil _).symm
  | ends code =>
    have hnone : a.registers s = [] := by
      unfold Activation.registers
      rw [code]
      cases a.stage <;> rfl
    rw [hnone]
    exact (List.append_nil _).symm

/-- Only a timer of the program's own is no alarm. -/
theorem stepCode_calls (hb : ∀ n body, ¬ a.Begins (.act (.timer n body)))
    (hr : s.stepCode actor a = .ok (.go a' s')) :
    ∀ x ∈ s'.handlers, x ∈ s.handlers ∨ ∃ i, x = .alarm i := by
  intro x hx
  have hhandlers : s'.handlers = s.handlers ++ a.registers s := stepCode_handlers hr
  rw [hhandlers] at hx
  refine (List.mem_append.1 hx).imp_right fun hx => ?_
  unfold Activation.registers at hx
  split at hx
  · rename_i c _ hstage hcode
    cases c with
    | newAlarm => exact ⟨_, List.mem_singleton.1 hx⟩
    | timer n body => exact absurd ⟨hstage, _, hcode⟩ (hb n body)
    | _ => cases hx
  · cases hx

end System

end ThreadKernel
