import ThreadKernel.Machine.Step
import ThreadKernel.Proofs.Alarm
import ThreadKernel.Proofs.Machine.Orderly

/-!
# ThreadKernel.Proofs.Machine.Frames

What a step can do, one inductive type for programs and one for each kind of frame that may be on
top of the stack. What every step keeps is shown by cases on these.

* `System.CodeStep`      — a program begins an instruction, goes on behind a yield point, waits
  there, or is at its end.
* `Machine.ProgramStep`  — a program goes on, calls the run loop, or is at its end.
* `Machine.ThreadStep`   — a thread goes on, or its dispatch ends.
* `Machine.TickStep`     — an iteration of the run loop begins, with an interrupt or without.
* `Machine.DeliveryStep` — a timer interrupt calls the next handler.
* `Machine.ChooseStep`   — the run loop dispatches a thread, waits, or returns.
* `stepCode_ok`, `stepProgram_next`, `stepThread_next`, … — there are no other steps.
-/

namespace ThreadKernel

namespace System

inductive CodeStep (actor : Actor) (a : Activation) (s : System) : Progress → Prop where
  | begins {i : Instr} {rest : List Instr} {r : Progress} (code : a.code = i :: rest)
      (stage : a.stage = .fresh) (instr : s.stepInstr actor i rest a = .ok r) :
      CodeStep actor a s r
  /-- A wake is pending at the yield point. -/
  | resumes {i : Instr} {rest : List Instr} {p p' : YieldPoint} {q : Resume} {t : ThreadId}
      {k : Kernel Activation} {r : Progress} (code : a.code = i :: rest)
      (stage : a.stage = .suspended p q) (current : s.kernel.registry.current = some t)
      (poll : s.kernel.pollPoint t p = (true, p', k))
      (resume : (s.withKernel k).stepResume actor t q a = .ok r) : CodeStep actor a s r
  | waits {i : Instr} {rest : List Instr} {p p' : YieldPoint} {q : Resume} {t : ThreadId}
      {k : Kernel Activation} (code : a.code = i :: rest) (stage : a.stage = .suspended p q)
      (current : s.kernel.registry.current = some t)
      (poll : s.kernel.pollPoint t p = (false, p', k)) :
      CodeStep actor a s (.park { a with stage := .suspended p' q } (s.withKernel k))
  | ends (code : a.code = []) : CodeStep actor a s (.done a s)

theorem stepCode_ok {actor : Actor} {a : Activation} {s : System} {r : Progress}
    (h : s.stepCode actor a = .ok r) : CodeStep actor a s r := by
  unfold stepCode at h
  split at h
  · rename_i hcode
    cases h
    exact .ends hcode
  · rename_i hcode hstage
    exact .begins hcode hstage h
  · rename_i p q hcode hstage
    unfold stepPoint at h
    split at h
    · cases h
    · rename_i t hcur
      have hcur := Kernel.currentThread_ok hcur
      cases hpoll : s.kernel.pollPoint t p with
      | mk ready tail =>
        obtain ⟨p', k⟩ := tail
        simp only [hpoll] at h
        cases ready with
        | true => exact .resumes hcode hstage hcur hpoll h
        | false =>
          cases h
          exact .waits hcode hstage hcur hpoll

end System

namespace Machine

/-- The thread that was dispatched, with another activation. -/
def holding (d : Kernel.Dispatched Activation) (a : Activation) : Kernel.Dispatched Activation :=
  { d with task := { d.task with coroutine := a } }

variable {s : System} {m' : Machine} {below : List Frame}

/-! ## Programs and threads -/

inductive ProgramStep (actor : Actor) (a : Activation) (s : System) :
    List Frame → Machine → Prop where
  | goes {a' : Activation} {s' : System} {below : List Frame}
      (code : s.stepCode actor a = .ok (.go a' s')) :
      ProgramStep actor a s below ⟨s', .program actor a' :: below⟩
  | parks {a' : Activation} {s' : System} {below : List Frame}
      (code : s.stepCode actor a = .ok (.park a' s')) :
      ProgramStep actor a s below ⟨s', .program actor a' :: below⟩
  | calls {a' : Activation} {s' : System} {below : List Frame}
      (code : s.stepCode actor a = .ok (.call a' s')) :
      ProgramStep actor a s below ⟨s', .loop .tick :: .program actor a' :: below⟩
  /-- The last program of the stack stays there. -/
  | ends {a' : Activation} {s' : System} {f : Frame} {below : List Frame}
      (code : s.stepCode actor a = .ok (.done a' s')) :
      ProgramStep actor a s (f :: below)
        ⟨s'.withKernel (s'.kernel.restoreAll a'.guards), f :: below⟩

theorem stepProgram_next {actor : Actor} {a : Activation}
    (h : stepProgram actor a below s = .next m') : ProgramStep actor a s below m' := by
  unfold stepProgram at h
  split at h
  · cases h
  · rename_i hcode
    cases h
    exact .goes hcode
  · rename_i hcode
    cases h
    exact .parks hcode
  · rename_i hcode
    cases h
    exact .calls hcode
  · rename_i hcode
    cases below with
    | nil => cases h
    | cons f below =>
      cases h
      exact .ends hcode

theorem endDispatch_ok {r : Except Fault (Kernel Activation)}
    (h : endDispatch r below s = .next m') :
    ∃ k, r = .ok k ∧ m' = ⟨s.withKernel k.charge, below⟩ := by
  unfold endDispatch at h
  split at h
  · cases h
  · rename_i k
    cases h
    exact ⟨k, rfl, rfl⟩

/-- A dispatch that ends is charged. -/
inductive ThreadStep (d : Kernel.Dispatched Activation) (s : System) (below : List Frame) :
    Machine → Prop where
  | goes {a' : Activation} {s' : System}
      (code : s.stepCode (.thread d.thread) d.task.coroutine = .ok (.go a' s')) :
      ThreadStep d s below ⟨s', .thread (holding d a') :: below⟩
  | parks {a' : Activation} {s' : System} {k : Kernel Activation}
      (code : s.stepCode (.thread d.thread) d.task.coroutine = .ok (.park a' s'))
      (park : s'.kernel.park (holding d a') = .ok k) :
      ThreadStep d s below ⟨s'.withKernel k.charge, below⟩
  | calls {a' : Activation} {s' : System}
      (code : s.stepCode (.thread d.thread) d.task.coroutine = .ok (.call a' s')) :
      ThreadStep d s below ⟨s', .loop .tick :: .thread (holding d a') :: below⟩
  | ends {a' : Activation} {s' : System} {k : Kernel Activation}
      (code : s.stepCode (.thread d.thread) d.task.coroutine = .ok (.done a' s'))
      (finish : (s'.kernel.restoreAll a'.guards).finish d = .ok k) :
      ThreadStep d s below ⟨s'.withKernel k.charge, below⟩

theorem stepThread_next {d : Kernel.Dispatched Activation}
    (h : stepThread d below s = .next m') : ThreadStep d s below m' := by
  unfold stepThread at h
  simp only at h
  split at h
  · cases h
  · rename_i hcode
    cases h
    exact .goes hcode
  · rename_i hcode
    obtain ⟨k, hpark, rfl⟩ := endDispatch_ok h
    exact .parks hcode hpark
  · rename_i hcode
    cases h
    exact .calls hcode
  · rename_i hcode
    obtain ⟨k, hfinish, rfl⟩ := endDispatch_ok h
    exact .ends hcode hfinish

/-! ## Timer interrupts -/

inductive TickStep (s : System) (below : List Frame) : Machine → Prop where
  | passes (early : s.kernel.clock.takeTick? = none) :
      TickStep s below ⟨s, .loop .choose :: below⟩
  | interrupts {clock : Clock} (taken : s.kernel.clock.takeTick? = some clock) :
      TickStep s below
        ⟨{ s with kernel := { s.kernel.enter with clock := clock }, handlers := [] },
          .delivery s.kernel.level [] s.handlers :: .loop .choose :: below⟩

theorem stepTick_next (h : stepTick below s = .next m') : TickStep s below m' := by
  unfold stepTick at h
  split at h
  · rename_i hearly
    cases h
    exact .passes hearly
  · rename_i htaken
    cases h
    exact .interrupts htaken

/-- The handlers that are yet to be called decide which step is next. -/
inductive DeliveryStep (previous : Level) (called : List Handler) (s : System)
    (below : List Frame) : List Handler → Machine → Prop where
  | ends : DeliveryStep previous called s below []
      ⟨{ s with kernel := s.kernel.restore previous, handlers := called ++ s.handlers }, below⟩
  | skips {i : Nat} {waiting : List Handler} (missing : s.alarms[i]? = none) :
      DeliveryStep previous called s below (.alarm i :: waiting)
        ⟨s, .delivery previous (called ++ [.alarm i]) waiting :: below⟩
  | rings {i : Nat} {waiting : List Handler} {alarm alarm' : Alarm} {k : Kernel Activation}
      (named : s.alarms[i]? = some alarm) (release : alarm.release s.kernel = .ok (alarm', k)) :
      DeliveryStep previous called s below (.alarm i :: waiting)
        ⟨{ s with kernel := k, alarms := s.alarms.set i alarm' },
          .delivery previous (called ++ [.alarm i]) waiting :: below⟩
  | spent {body : List Action} {waiting : List Handler} :
      DeliveryStep previous called s below (.routine 0 body :: waiting)
        ⟨s, .delivery previous (called ++ [.routine 0 body]) waiting :: below⟩
  | runs {n : Nat} {body : List Action} {waiting : List Handler} :
      DeliveryStep previous called s below (.routine (n + 1) body :: waiting)
        ⟨s, .program .timer (.start (body.map .act)) ::
          .delivery previous (called ++ [.routine n body]) waiting :: below⟩

theorem stepDelivery_next {previous : Level} {called waiting : List Handler}
    (h : stepDelivery previous called waiting below s = .next m') :
    DeliveryStep previous called s below waiting m' := by
  cases waiting with
  | nil =>
    cases h
    exact .ends
  | cons x waiting =>
    cases x with
    | alarm i =>
      simp only [stepDelivery] at h
      split at h
      · rename_i hmissing
        cases h
        exact .skips hmissing
      · rename_i hnamed
        split at h
        · cases h
        · rename_i hrelease
          cases h
          exact .rings hnamed hrelease
    | routine n body =>
      cases n with
      | zero =>
        cases h
        exact .spent
      | succ n =>
        cases h
        exact .runs

/-- The handler that was called is behind those that were called before it. -/
theorem forall_called {P : Handler → Prop} {called waiting : List Handler} {x y : Handler}
    (h : ∀ z ∈ called ++ x :: waiting, P z) (hy : P y) :
    ∀ z ∈ (called ++ [y]) ++ waiting, P z := by
  intro z hz
  rw [List.append_assoc] at hz
  rcases List.mem_append.1 hz with hz | hz
  · exact h z (List.mem_append_left _ hz)
  · rcases List.mem_cons.1 hz with rfl | hz
    · exact hy
    · exact h z (List.mem_append_right _ (List.mem_cons_of_mem _ hz))

/-! ## The run loop -/

/-- Whoever called the run loop goes on behind the call. -/
inductive ReturnStep (v : Value) (s : System) : List Frame → Machine → Prop where
  | completes {actor : Actor} {a : Activation} {below : List Frame} :
      ReturnStep v s (.program actor a :: below)
        ⟨(s.complete actor v a).2, .program actor (s.complete actor v a).1 :: below⟩
  | drops {below : List Frame} : ReturnStep v s below ⟨s, below⟩

theorem returnFrom_next {v : Value} (h : returnFrom v below s = .next m') :
    ReturnStep v s below m' := by
  unfold returnFrom at h
  split at h
  · cases h
    exact .completes
  · cases h
    exact .drops

inductive ChooseStep (s : System) (below : List Frame) : Machine → Prop where
  | dispatches {t : ThreadId} {k k' : Kernel Activation} {d : Kernel.Dispatched Activation}
      (choose : s.kernel.chooseThread = .ok (some t, k))
      (dispatch : k.dispatch t = .ok (some (d, k'))) :
      ChooseStep s below ⟨s.withKernel k', .thread d :: .loop .tick :: below⟩
  /-- The thread is not alive any more. -/
  | misses {t : ThreadId} {k : Kernel Activation}
      (choose : s.kernel.chooseThread = .ok (some t, k)) (dispatch : k.dispatch t = .ok none) :
      ChooseStep s below ⟨s.withKernel k.charge, .loop .tick :: below⟩
  | waits {k : Kernel Activation} (choose : s.kernel.chooseThread = .ok (none, k))
      (alive : k.registry.isEmpty = false) (pending : s.hasPendingTimers = true) :
      ChooseStep s below
        ⟨s.withKernel { k with clock := k.clock.fastForward }, .loop .tick :: below⟩
  | returns {k : Kernel Activation} {v : Value} {m' : Machine}
      (choose : s.kernel.chooseThread = .ok (none, k))
      (verdict : k.registry.isEmpty = true ∧ v = .text "ok" ∨
        k.registry.isEmpty = false ∧ s.hasPendingTimers = false ∧
          v = .failure (Fail.stuck k.numThreads k.now))
      (back : returnFrom v below (s.withKernel k) = .next m') : ChooseStep s below m'

theorem stepChoose_next (h : stepChoose below s = .next m') : ChooseStep s below m' := by
  unfold stepChoose at h
  split at h
  · cases h
  · rename_i t k hchoose
    unfold stepDispatch at h
    split at h
    · cases h
    · rename_i hdispatch
      cases h
      exact .misses hchoose hdispatch
    · rename_i hdispatch
      cases h
      exact .dispatches hchoose hdispatch
  · rename_i k hchoose
    unfold stepIdle at h
    split at h
    · rename_i hempty
      exact .returns hchoose (.inl ⟨hempty, rfl⟩) h
    · rename_i hempty
      have halive : k.registry.isEmpty = false := Bool.eq_false_iff.2 hempty
      split at h
      · rename_i hpending
        cases h
        exact .waits hchoose halive hpending
      · rename_i hpending
        exact .returns hchoose (.inr ⟨halive, Bool.eq_false_iff.2 hpending, rfl⟩) h

end Machine
end ThreadKernel
