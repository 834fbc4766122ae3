import ThreadKernel.Proofs.Clock
import ThreadKernel.Proofs.Machine.Execution

/-!
# ThreadKernel.Proofs.Machine.Timers

Who the timer calls. Handlers stay registered, in the system or with the delivery that calls them. As
long as all of them are alarms no timer runs a program, and the stack of a machine stays small.

* `Machine.handlers` — the handlers of the system and of all deliveries.
* `Machine.Bears`    — whether one of them runs a program.
* `Machine.Flat`     — the stacks there are while none does.
* `Execution.flat`   — from the start only those are reached.
-/

namespace ThreadKernel

/-- The alarm that the handler calls, if it calls one. -/
def Handler.alarm? : Handler → Option Nat
  | .alarm i => some i
  | .routine _ _ => none

def Frame.handlers : Frame → List Handler
  | .delivery _ called waiting => called ++ waiting
  | _ => []

namespace Machine

def handlers (m : Machine) : List Handler := m.system.handlers ++ m.stack.flatMap Frame.handlers

/-- A timer of the machine runs a program. -/
def Bears (m : Machine) : Prop := ∃ n body, Handler.routine n body ∈ m.handlers

variable {m m' : Machine} {s s' : System} {below stack stack' : List Frame}

theorem not_bears (h : ∀ x ∈ m.handlers, ∃ a, x = Handler.alarm a) : ¬ m.Bears := by
  rintro ⟨n, body, hb⟩
  obtain ⟨a, ha⟩ := h _ hb
  cases ha

theorem Bears.mono (h : Bears ⟨s, stack⟩) (hs : s.handlers ⊆ s'.handlers)
    (hf : stack.flatMap Frame.handlers ⊆ stack'.flatMap Frame.handlers) : Bears ⟨s', stack'⟩ := by
  obtain ⟨n, body, hm⟩ := h
  refine ⟨n, body, ?_⟩
  rcases List.mem_append.1 hm with hm | hm
  · exact List.mem_append_left _ (hs hm)
  · exact List.mem_append_right _ (hf hm)

/-! ## Handlers stay -/

theorem stepProgram_bears {actor : Actor} {a : Activation}
    (h : Bears ⟨s, .program actor a :: below⟩) (hr : stepProgram actor a below s = .next m') :
    m'.Bears := by
  cases stepProgram_next hr with
  | goes code | parks code | calls code | ends code =>
    exact h.mono (System.stepCode_grows code).handlers.subset (List.Subset.refl _)

theorem stepThread_bears {d : Kernel.Dispatched Activation}
    (h : Bears ⟨s, .thread d :: below⟩) (hr : stepThread d below s = .next m') : m'.Bears := by
  cases stepThread_next hr with
  | goes code | parks code | calls code | ends code =>
    exact h.mono (System.stepCode_grows code).handlers.subset (List.Subset.refl _)

theorem stepTick_bears (h : Bears ⟨s, .loop .tick :: below⟩)
    (hr : stepTick below s = .next m') : m'.Bears := by
  cases stepTick_next hr with
  | passes | interrupts => exact h

theorem stepDelivery_bears {previous : Level} {called waiting : List Handler}
    (h : Bears ⟨s, .delivery previous called waiting :: below⟩)
    (hr : stepDelivery previous called waiting below s = .next m') : m'.Bears := by
  obtain ⟨n, body, hm⟩ := h
  have hm : Handler.routine n body ∈ s.handlers ∨
      Handler.routine n body ∈ called ++ waiting ∨
        Handler.routine n body ∈ below.flatMap Frame.handlers := by
    rcases List.mem_append.1 hm with hm | hm
    · exact .inl hm
    · exact .inr (List.mem_append.1 hm)
  cases stepDelivery_next hr with
  | ends =>
    refine ⟨n, body, ?_⟩
    simp only [handlers, List.append_nil, List.mem_append] at hm ⊢
    tauto
  | skips | rings =>
    refine ⟨n, body, ?_⟩
    simp only [handlers, List.flatMap_cons, Frame.handlers, List.append_assoc, List.mem_append,
      List.mem_cons] at hm ⊢
    tauto
  | @spent body' => exact ⟨0, body', by simp [handlers, Frame.handlers]⟩
  | @runs left body' => exact ⟨left, body', by simp [handlers, Frame.handlers]⟩

theorem returnFrom_bears {v : Value} (h : Bears ⟨s, below⟩)
    (hr : returnFrom v below s = .next m') : m'.Bears := by
  cases returnFrom_next hr with
  | @completes actor a =>
    exact h.mono (System.complete_grows actor v a s).handlers.subset (List.Subset.refl _)
  | drops => exact h

theorem stepChoose_bears (h : Bears ⟨s, .loop .choose :: below⟩)
    (hr : stepChoose below s = .next m') : m'.Bears := by
  cases stepChoose_next hr with
  | dispatches | misses | waits => exact h
  | @returns k _ _ _ _ back =>
    have hb : Bears ⟨s.withKernel k, below⟩ := h
    exact returnFrom_bears hb back

theorem Bears.step (h : m.Bears) (hr : m.step = .next m') : m'.Bears := by
  obtain ⟨s, stack⟩ := m
  unfold Machine.step at hr
  simp only at hr
  split at hr
  · cases hr
  · exact stepProgram_bears h hr
  · exact stepThread_bears h hr
  · exact stepTick_bears h hr
  · exact stepChoose_bears h hr
  · exact stepDelivery_bears h hr

end Machine

/-! ## Machines whose timers are alarms -/

namespace System

/-- Each alarm is among the handlers. -/
def Enrolled (handlers : List Handler) (s : System) : Prop :=
  ∀ i < s.alarms.length, Handler.alarm i ∈ handlers

/-- The next interrupt is not due. -/
def Early (s : System) : Prop := s.kernel.clock.now < s.kernel.clock.nextTick

theorem Enrolled.grows {s s' : System} (h : s.Enrolled s.handlers) (hg : s.Grows s') :
    s'.Enrolled s'.handlers := fun i hi =>
  (hg.enrolled i hi).elim (fun hi => hg.handlers.subset (h i hi)) id

end System

namespace Machine

variable {m m' : Machine} {s s' : System} {below : List Frame}

/-- The main program, the run loop it called, and a thread or a delivery on top of that. -/
inductive Flat : Machine → Prop where
  | program {s : System} {a : Activation} (enrolled : s.Enrolled s.handlers) :
      Flat ⟨s, [.program .main a]⟩
  | loop {s : System} {a : Activation} {rest : List Instr} {phase : Phase}
      (enrolled : s.Enrolled s.handlers) (code : a.code = .act .run :: rest)
      (early : phase = .choose → s.Early) : Flat ⟨s, [.loop phase, .program .main a]⟩
  | thread {s : System} {d : Kernel.Dispatched Activation} {a : Activation} {rest : List Instr}
      (enrolled : s.Enrolled s.handlers) (code : a.code = .act .run :: rest)
      (running : s.kernel.registry.current = some d.thread) :
      Flat ⟨s, [.thread d, .loop .tick, .program .main a]⟩
  | delivery {s : System} {previous : Level} {called waiting : List Handler} {a : Activation}
      {rest : List Instr} (enrolled : s.Enrolled (called ++ waiting)) (empty : s.handlers = [])
      (code : a.code = .act .run :: rest) (early : s.Early) :
      Flat ⟨s, [.delivery previous called waiting, .loop .choose, .program .main a]⟩

theorem flat_returnFrom {v : Value} {a : Activation} (h : s.Enrolled s.handlers)
    (hr : returnFrom v [.program .main a] s = .next m') : m'.Flat := by
  cases hr
  exact .program (h.grows (System.complete_grows .main v a s))

/-- A dispatched thread runs. -/
theorem dispatch_current {k k' : Kernel Activation} {t : ThreadId}
    {d : Kernel.Dispatched Activation} (h : k.dispatch t = .ok (some (d, k'))) :
    k'.registry.current = some d.thread := by
  obtain ⟨_, _, -, -, rfl, rfl⟩ := Kernel.dispatch_ok h
  rfl

theorem Flat.choose {a : Activation} {rest : List Instr} (h : s.Enrolled s.handlers)
    (hc : a.code = .act .run :: rest) (hr : stepChoose [.program .main a] s = .next m') :
    m'.Flat := by
  cases stepChoose_next hr with
  | dispatches _ dispatch => exact .thread h hc (dispatch_current dispatch)
  | misses | waits => exact .loop h hc (by simp)
  | @returns k _ _ _ _ back =>
    have hk : (s.withKernel k).Enrolled (s.withKernel k).handlers := h
    exact flat_returnFrom hk back

theorem Flat.tick {a : Activation} {rest : List Instr} (h : s.Enrolled s.handlers)
    (hc : a.code = .act .run :: rest) (hr : stepTick [.program .main a] s = .next m') :
    m'.Flat := by
  cases stepTick_next hr with
  | passes early => exact .loop h hc fun _ => Clock.takeTick_none early
  | interrupts taken => exact .delivery h rfl hc (Clock.takeTick_early taken)

/-- A delivery that runs no program calls one handler after the other. -/
theorem Flat.deliver {previous : Level} {called waiting : List Handler} {a : Activation}
    {rest : List Instr} (h : s.Enrolled (called ++ waiting)) (hs : s.handlers = [])
    (hc : a.code = .act .run :: rest) (he : s.Early)
    (hr : stepDelivery previous called waiting [.loop .choose, .program .main a] s = .next m') :
    m'.Bears ∨ m'.Flat := by
  have hmoved : ∀ {x : Handler} {waiting : List Handler}, s.Enrolled (called ++ x :: waiting) →
      s.Enrolled (called ++ [x] ++ waiting) := fun h => by
    rw [List.append_assoc]
    exact h
  cases stepDelivery_next hr with
  | ends =>
    refine .inr (.loop (fun i hi => ?_) hc fun _ => he)
    simpa [hs] using h i hi
  | skips => exact .inr (.delivery (hmoved h) hs hc he)
  | @rings i waiting alarm alarm' k named release =>
    have hclock : k.clock = s.kernel.clock :=
      (Kernel.wakeEach_steady _ (Alarm.release_ok release).1).clock
    refine .inr (.delivery (fun j hj => hmoved h j ?_) hs hc ?_)
    · simpa using hj
    · show k.clock.now < k.clock.nextTick
      rw [hclock]
      exact he
  | @spent body => exact .inl ⟨0, body, by simp [handlers, Frame.handlers]⟩
  | @runs left body => exact .inl ⟨left, body, by simp [handlers, Frame.handlers]⟩

theorem Flat.step (h : m.Flat) (hr : m.step = .next m') : m'.Bears ∨ m'.Flat := by
  cases h with
  | @program s a henr =>
    right
    cases stepProgram_next hr with
    | goes code | parks code => exact .program (henr.grows (System.stepCode_grows code))
    | calls code =>
      obtain ⟨rfl, rfl, -, rest, hc⟩ := System.stepCode_call code
      exact .loop henr hc (by simp)
  | @loop s a rest phase henr hc hearly =>
    right
    cases phase with
    | tick => exact .tick henr hc hr
    | choose => exact .choose henr hc hr
  | @thread s d a rest henr hc hcur =>
    right
    cases stepThread_next hr with
    | goes code =>
      have hg := System.stepCode_grows code
      exact .thread (henr.grows hg) hc (hg.kernel.current.trans hcur)
    | @parks a' s' _ code | @ends a' s' _ code =>
      have henr' : s'.Enrolled s'.handlers := henr.grows (System.stepCode_grows code)
      exact .loop henr' hc (by simp)
    | calls code =>
      obtain ⟨-, -, hnone, -⟩ := System.stepCode_call code
      rw [hcur] at hnone
      cases hnone
  | delivery henr hs hc he => exact Flat.deliver henr hs hc he hr

theorem Flat.reseed (h : m.Flat) (g : Random) : (m.reseed g).Flat := by
  cases h with
  | program enrolled => exact .program enrolled
  | loop enrolled code early => exact .loop enrolled code early
  | thread enrolled code running => exact .thread enrolled code running
  | delivery enrolled empty code early => exact .delivery enrolled empty code early

end Machine

namespace Execution

variable {n i : Nat} {ms : Nat → Machine}

/-- As long as no timer runs a program the stack is small. -/
theorem bears_or_flat (h : Execution n ms) (hi : i ≤ n) : (ms i).Bears ∨ (ms i).Flat := by
  have hfirst : (ms 0).Flat := h.of_start fun _ => .program fun i hi => nomatch hi
  refine h.invariant (P := fun m => m.Bears ∨ m.Flat) (.inr hfirst)
    (fun _ _ m g hstep hm => ?_) hi
  have hnext : m.Bears ∨ m.Flat := hm.elim (fun hb => .inl (hb.step hstep)) (·.step hstep)
  exact hnext.imp id fun hf => hf.reseed g

theorem flat (h : Execution n ms) (hb : ∀ i ≤ n, ¬ (ms i).Bears) (hi : i ≤ n) : (ms i).Flat :=
  (h.bears_or_flat hi).resolve_left (hb i hi)

end Execution
end ThreadKernel
