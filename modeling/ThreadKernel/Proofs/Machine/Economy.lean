import Mathlib.Algebra.BigOperators.Intervals
import ThreadKernel.Proofs.Machine.Clearance
import ThreadKernel.Proofs.Machine.Descent
import ThreadKernel.Proofs.Machine.Naps

/-!
# ThreadKernel.Proofs.Machine.Economy

Runs of programs without unbounded loops, each of which spawns only programs behind it in the list,
and whose timers are alarms. No dispatch is wasted, and every run comes to an end.

* `Frugal`              — such programs.
* `Machine.Thrifty`     — what they make of a machine, at every step.
* `Machine.chosen?`     — the thread that is about to be dispatched.
* `Machine.suspending`  — a thread is about to be suspended at a new yield point.
* `Machine.Concludes`   — whatever the lottery draws, the run ends: with a fault, or a verdict.
* `Thrifty.concludes`   — so it is with each run.
* `execution_economy`   — of each execution.
-/

namespace ThreadKernel

/-- The action registers no program as a timer. -/
def Action.silent : Action → Bool
  | .timer _ _ => false
  | _ => true

/-- Programs that end, and leave timers to alarms. -/
structure Frugal (programs : List Program) (main : List Action) : Prop where
  plain : ∀ x ∈ programs, Instr.plainList x.code = true
  silent : ∀ x ∈ programs, Instr.everyList Action.silent x.code = true
  bounded : ∀ x ∈ programs, Instr.boundedList x.code = true
  spawns : ∀ j x, programs[j]? = some x → Instr.everyList (Action.spawnsBehind j) x.code = true
  plainMain : Action.plainList main = true
  silentMain : Action.everyList Action.silent main = true

namespace Machine

variable {m m' : Machine} {price : Nat → Nat} {t : ThreadId}

/-- All that the descent of a machine relies on. -/
structure Thrifty (price : Nat → Nat) (m : Machine) : Prop where
  orderly : m.Orderly
  regular : m.Regular
  flat : m.Flat
  calm : ¬ m.Bears
  silent : m.Speaks Action.silent
  timetabled : m.system.Timetabled
  bounded : m.Bounded
  affords : Affords price m.system.programs

namespace Thrifty

theorem move (h : m.Thrifty price) (hs : m.step = .next m') : Move m m' :=
  h.flat.move h.regular h.orderly h.calm hs

theorem step (h : m.Thrifty price) (hs : m.step = .next m') : m'.Thrifty price := by
  have hmove := h.move hs
  have hcalm : ¬ m'.Bears := hmove.calm h.calm fun a ha n body hb => by
    cases h.silent.executes ha hb
  exact {
    orderly := (h.orderly.step hs).1
    regular := h.regular.next (h.regular.turn hs)
    flat := (h.flat.step hs).resolve_left hcalm
    calm := hcalm
    silent := h.silent.step hs
    timetabled := (h.regular.rings hs).timetabled h.timetabled
    bounded := h.bounded.step (hmove.shift h.regular.sane.sound) hmove.programs
    affords := by rw [hmove.programs]; exact h.affords }

theorem reseed (h : m.Thrifty price) (g : Random) : (m.reseed g).Thrifty price where
  orderly := h.orderly.reseed g
  regular := h.regular.reseed g
  flat := h.flat.reseed g
  calm := h.calm
  silent := h.silent.reseed g
  timetabled := h.timetabled
  bounded := ⟨h.bounded.programs, h.bounded.tasks, h.bounded.frames⟩
  affords := h.affords

end Thrifty

theorem start_thrifty {gen : Generator} {settings : Settings} {k : Kernel Activation}
    {programs : List Program} {main : List Action} (hk : Kernel.start gen settings = .ok k)
    (hf : Frugal programs main) : ∃ price, (start k programs main).Thrifty price := by
  obtain ⟨price, hprice⟩ := exists_price hf.spawns
  have hnone : ∀ t, (start k programs main).system.kernel.pending? t = none :=
    start_activation? hk
  refine ⟨price, {
    orderly := start_orderly hk hf.plain hf.plainMain
    regular := (start_coherent hk).toRegular
    flat := .program fun i hi => by cases hi
    calm := ?_
    silent := start_speaks hk hf.silent hf.silentMain
    timetabled := fun a ha => by cases ha
    bounded := ⟨hf.bounded, fun t a ha => ?_, fun a ha => ?_⟩
    affords := hprice }⟩
  · rintro ⟨n, body, hx⟩
    cases hx
  · cases (hnone t).symm.trans ha
  · cases List.mem_singleton.1 ha
    exact .of_fresh (Instr.boundedList_act main) rfl

/-! ## The end of a run -/

theorem Flat.iterates (h : m.Flat) (ht : m.phase? = some .tick) : m.Iterates .main := by
  obtain ⟨below, hstack⟩ := phase?_eq_some ht
  cases h with
  | program | thread | delivery => cases hstack
  | loop _ code =>
    cases hstack
    exact ⟨_, _, _, rfl, code⟩

/-- Whatever the lottery draws, the run of the main program ends: with a fault, or with a value that
says how it left the system. -/
inductive Concludes : Machine → Prop where
  | faulted {m : Machine} {e : Fault} (step : m.step = .faulted e) : Concludes m
  | returns {m m' : Machine} {v : Value} (returns : Returns .main v m m')
      (verdict : m'.system.Verdict v) : Concludes m
  | goesOn {m m' : Machine} (step : m.step = .next m')
      (later : ∀ g, Concludes (m'.reseed g)) : Concludes m

/-- The main program has called the run loop, which has not returned yet. -/
def Loops (m : Machine) : Prop := ∀ a, m.stack ≠ [.program .main a]

/-- A run that has not returned goes on, or ends with a fault. -/
theorem Flat.not_halted (h : m.Flat) (hl : m.Loops) : m.step ≠ .halted := by
  intro hs
  cases h with
  | program => exact hl _ rfl
  | @loop s a rest phase =>
    cases phase with
    | tick =>
      simp only [Machine.step, stepTick] at hs
      split at hs <;> cases hs
    | choose =>
      simp only [Machine.step, stepChoose, stepDispatch, stepIdle, returnFrom] at hs
      repeat' split at hs
      all_goals cases hs
  | thread =>
    simp only [Machine.step, stepThread, endDispatch] at hs
    repeat' split at hs
    all_goals cases hs
  | @delivery s previous called waiting =>
    simp only [Machine.step] at hs
    unfold stepDelivery at hs
    repeat' split at hs
    all_goals cases hs

/-- The loop is left only by returning from it. -/
theorem Move.loops (h : Move m m') (hl : m.Loops) :
    m'.Loops ∨ ∃ v, Returns .main v m m' := by
  cases h with
  | works stack => exact absurd stack (hl _)
  | calls stack => exact absurd stack (hl _)
  | returns _ _ _ returns => exact .inr ⟨_, returns⟩
  | executes _ _ after | parks _ _ _ _ _ _ _ after | retires _ _ _ _ after | passes _ _ _ after
  | interrupts _ _ _ after | skipsAlarm _ _ _ after | rings _ _ _ _ after | delivered _ _ after
  | dispatches _ _ _ _ _ after | waits _ _ _ _ after =>
    refine .inl fun a hs => ?_
    cases after.symm.trans hs

theorem Thrifty.verdict (h : m.Thrifty price) {v : Value} (hr : Returns .main v m m') :
    m'.system.Verdict v := by
  obtain ⟨a, below, hstack⟩ := hr.loop
  have hflat := h.flat
  cases hflat with
  | program | thread | delivery => cases hstack
  | loop enrolled code =>
    cases hstack
    exact (verdict_of_returns (h.orderly.boundary rfl) enrolled code hr).verdict

theorem Thrifty.concludes (h : m.Thrifty price) (hl : m.Loops) : m.Concludes := by
  -- every step descends, whatever the random source it leaves
  generalize hheight : m.height price = height
  induction height using WellFoundedLT.induction generalizing m with
  | ind height ih =>
    subst hheight
    cases hs : m.step with
    | halted => exact absurd hs (h.flat.not_halted hl)
    | faulted e => exact .faulted hs
    | next m' =>
      have hmove := h.move hs
      rcases hmove.loops hl with hl' | ⟨v, hr⟩
      · refine .goesOn hs fun g => ih ((m'.reseed g).height price) ?_ ((h.step hs).reseed g) hl' rfl
        exact hmove.descends h.regular h.flat h.calm h.timetabled h.bounded h.affords
      · exact .returns hr (h.verdict hr)

/-! ## Dispatches -/

/-- The thread that the loop is about to dispatch. -/
def chosen? (m : Machine) : Option ThreadId :=
  match m.phase?, m.system.kernel.chooseThread with
  | some .choose, .ok (t, _) => t
  | _, _ => none

/-- The thread that runs is at a yield point that has not suspended it before. -/
def suspending (m : Machine) : Bool :=
  match m.executing? with
  | some a =>
    match a.stage with
    | .suspended p _ => !p.yielded
    | .fresh => false
  | none => false

theorem chosen?_eq_some (h : m.chosen? = some t) :
    ∃ k below, m.stack = .loop .choose :: below ∧
      m.system.kernel.chooseThread = .ok (some t, k) := by
  unfold chosen? at h
  split at h
  · rename_i hphase hchoose
    obtain ⟨below, hstack⟩ := phase?_eq_some hphase
    subst h
    exact ⟨_, below, hstack, hchoose⟩
  · cases h

/-- The thread goes from its slot to the processor, and has nothing to wait for. -/
theorem Move.chosen (h : Move m m') (hc : m.chosen? = some t) :
    ∃ d below, m'.stack = .thread d :: below ∧ d.thread = t ∧
      m.system.kernel.pending? t = some d.task.coroutine ∧
      m'.activations = d.task.coroutine :: m.activations ∧
      (d.task.coroutine.stage = .fresh ∨
        ∃ p r, d.task.coroutine.stage = .suspended p r ∧ p.yielded = true) := by
  obtain ⟨k, below, hstack, hchoose⟩ := chosen?_eq_some hc
  cases h with
  | works stack | calls stack | executes stack | parks stack | retires stack | passes stack
  | interrupts stack | skipsAlarm stack | rings stack | delivered stack =>
    cases hstack.symm.trans stack
  | waits _ choose | returns _ choose => cases hchoose.symm.trans choose
  | @dispatches u k₁ k' d below₁ stack choose dispatch ready system after =>
    cases hchoose.symm.trans choose
    have hthread := (dispatch_get? dispatch).1
    obtain ⟨-, hpending⟩ := Kernel.dispatch_places dispatch
    refine ⟨d, _, after, hthread, ?_, ?_, ready⟩
    · rw [← (Kernel.choose_sameThreads choose).pending, hpending]
    · rw [activations, activations, after, stack]
      rfl

/-- A dispatch is over when its thread retires, or is suspended at a new yield point. -/
theorem Move.turnover (h : Move m m') (hk : m.system.kernel.table.Sound) :
    (if m.chosen?.isSome then 1 else 0) + m.activations.length + m'.system.kernel.numThreads +
        m.system.kernel.registry.nextNumber ≤
      (if m.suspending then 1 else 0) + m'.activations.length + m.system.kernel.numThreads +
        m'.system.kernel.registry.nextNumber := by
  have hchosen : m.chosen?.isSome = true → m'.activations.length = m.activations.length + 1 := by
    intro hc
    obtain ⟨t, ht⟩ := Option.isSome_iff_exists.1 hc
    obtain ⟨d, below, -, -, -, hactivations, -⟩ := h.chosen ht
    rw [hactivations, List.length_cons]
  -- only a dispatch begins one
  have hnone : m'.activations.length ≤ m.activations.length →
      (if m.chosen?.isSome then 1 else 0) = 0 := fun hle => by
    rw [if_neg]
    intro hc
    have := hchosen hc
    omega
  cases h.shift hk with
  | advances before _ staffs after =>
    have hlength : m'.activations.length = m.activations.length := by
      rw [before, after, List.length_cons, List.length_cons]
    have htally := staffs.tally
    rw [hnone (Nat.le_of_eq hlength)]
    omega
  | parks executes before _ stage new _ _ places after =>
    have hlength : m.activations.length = m'.activations.length + 1 := by
      rw [before, after, List.length_cons]
    have hsuspending : m.suspending = true := by
      simp [suspending, executes, stage, new]
    have hnumber := places.number
    have hthreads := places.numThreads
    rw [hnone (by omega), hsuspending]
    simp only [if_true]
    omega
  | retires before loses after =>
    have hlength : m.activations.length = m'.activations.length + 1 := by
      rw [before, after, List.length_cons]
    have hnumber := loses.number
    have hthreads := loses.numThreads
    rw [hnone (by omega)]
    omega
  | dispatches _ before _ places after =>
    have hlength : m'.activations.length = m.activations.length + 1 := by
      rw [before, after, List.length_cons]
    have hnumber := places.number
    have hthreads := places.numThreads
    split <;> omega
  | loops _ threads same =>
    have hnumber := threads.number
    have hthreads := threads.numThreads
    rw [hnone (by rw [same]), same]
    omega

/-- A thread that was chosen finds its yield point open, -/
theorem Thrifty.pollPoint (h : m.Thrifty price) {d : Kernel.Dispatched Activation}
    {below : List Frame} (stack : m.stack = .thread d :: below) {p : YieldPoint} {r : Resume}
    (hd : d.task.coroutine.stage = .suspended p r) (hp : p.yielded = true) :
    (m.system.kernel.pollPoint d.thread p).1 = true := by
  have ho := h.orderly
  obtain ⟨s, l⟩ := m
  cases stack
  exact (ho.pollPoint_ready hd rfl).trans hp

/-- and goes on. -/
theorem Thrifty.resumes (h : m.Thrifty price) {d : Kernel.Dispatched Activation}
    {below : List Frame} (stack : m.stack = .thread d :: below) {p : YieldPoint} {r : Resume}
    (hd : d.task.coroutine.stage = .suspended p r) (hp : p.yielded = true)
    (hs : m.step = .next m') :
    ∃ a', m'.stack = .thread (holding d a') :: below ∧ d.task.coroutine.Passes r a' := by
  have hbounded : d.task.coroutine.Bounded :=
    h.bounded.frames _ (by rw [activations, stack]; exact List.mem_cons_self)
  cases h.move hs with
  | executes stack₁ code after =>
    cases stack.symm.trans stack₁
    exact ⟨_, after, (System.stepCode_advances hbounded code).passes hd⟩
  | parks stack₁ code stage new =>
    cases stack.symm.trans stack₁
    cases hd.symm.trans stage
    cases hp.symm.trans new
  | retires stack₁ code =>
    cases stack.symm.trans stack₁
    cases hd.symm.trans (hbounded.ended code)
  | works stack₁ | calls stack₁ | passes stack₁ | interrupts stack₁ | skipsAlarm stack₁
  | rings stack₁ | delivered stack₁ | dispatches stack₁ | waits stack₁ | returns stack₁ =>
    cases stack.symm.trans stack₁

/-- A thread is executed only if it is alive. -/
theorem Thrifty.activations_le (h : m.Thrifty price) :
    1 ≤ m.activations.length ∧ m.activations.length ≤ m.system.kernel.numThreads + 1 := by
  obtain ⟨ho, hflat⟩ := And.intro h.orderly h.flat
  cases hflat with
  | program | loop | delivery => exact ⟨Nat.le_refl _, Nat.le_add_left _ _⟩
  | @thread s d a rest _ _ running =>
    refine ⟨Nat.le_add_left _ _, Nat.add_le_add_right ?_ 1⟩
    cases ho with
    | idle system =>
      have hcurrent : s.kernel.registry.current = none := system.placed.2
      cases running.symm.trans hcurrent
    | running system =>
      obtain ⟨slot, hslot, -⟩ := system.placed.2.slot
      have hliving : d.thread ∈ s.kernel.living := Kernel.mem_living.2 (by rw [hslot]; rfl)
      rw [← Kernel.card_living]
      exact Finset.card_pos.2 ⟨_, hliving⟩

/-- If nobody is ready, the clock jumps to the next interrupt. -/
theorem Thrifty.waits (h : m.Thrifty price) (hs : m.step = .next m')
    (hc : m.phase? = some .choose) (ht : m'.phase? = some .tick) :
    m.system.kernel.clock.now < m'.system.kernel.clock.now ∧
      m'.system.kernel.clock.now = m.system.kernel.clock.nextTick ∧ m'.Interrupted := by
  obtain ⟨below₀, hstack⟩ := phase?_eq_some hc
  obtain ⟨below', hstack'⟩ := phase?_eq_some ht
  have hearly : m.system.kernel.clock.now < m.system.kernel.clock.nextTick :=
    (h.flat.looping hstack).2 rfl
  cases h.move hs with
  | works stack | calls stack | executes stack | parks stack | retires stack | passes stack
  | interrupts stack | skipsAlarm stack | rings stack | delivered stack =>
    cases hstack.symm.trans stack
  | dispatches _ _ _ _ _ after | returns _ _ _ _ _ after => cases after.symm.trans hstack'
  | @waits k _ _ choose _ system =>
    have hclock : m'.system.kernel.clock = m.system.kernel.clock.fastForward := by
      rw [system]
      exact congrArg Clock.fastForward (choose_steady choose).clock
    obtain ⟨hnow, hnext, -⟩ := Clock.fastForward_now hearly
    refine ⟨?_, ?_, ⟨below', hstack'⟩, ?_⟩
    · rw [hclock, hnow]
      exact hearly
    · rw [hclock, hnow]
    · rw [hclock, hnow, hnext]

/-- A due interrupt is delivered to all handlers. -/
theorem Move.delivers (h : Move m m') (hi : m.Interrupted) :
    ∃ below, m'.stack = .delivery m.system.kernel.level [] m.system.handlers :: below := by
  obtain ⟨⟨below, hstack⟩, hdue⟩ := hi
  cases h with
  | works stack | calls stack | executes stack | parks stack | retires stack | skipsAlarm stack
  | rings stack | delivered stack | dispatches stack | waits stack | returns stack =>
    cases hstack.symm.trans stack
  | passes _ early => exact absurd early (Nat.not_lt.2 hdue)
  | interrupts _ _ _ after => exact ⟨_, after⟩

end Machine

/-! ## Executions -/

/-- How many threads are dispatched from the step `i` to the step `j`. -/
def dispatches (ms : Nat → Machine) (i j : Nat) : Nat :=
  ((Finset.Ico i j).filter fun x => (ms x).chosen?.isSome).card

/-- How often threads are suspended from the step `i` to the step `j`. -/
def suspensions (ms : Nat → Machine) (i j : Nat) : Nat :=
  ((Finset.Ico i j).filter fun x => (ms x).suspending).card

namespace Execution

variable {n i j : Nat} {ms : Nat → Machine} {price : Nat → Nat}

theorem thrifty (h : Execution n ms) (h₀ : (ms 0).Thrifty price) (hi : i ≤ n) :
    (ms i).Thrifty price :=
  h.invariant h₀ (fun _ _ _ g hstep ht => (ht.step hstep).reseed g) hi

theorem turnover (h : Execution n ms) (h₀ : (ms 0).Thrifty price) (hij : i ≤ j) (hj : j ≤ n) :
    dispatches ms i j + (ms i).activations.length + (ms j).system.kernel.numThreads +
        (ms i).system.kernel.registry.nextNumber ≤
      suspensions ms i j + (ms j).activations.length + (ms i).system.kernel.numThreads +
        (ms j).system.kernel.registry.nextNumber := by
  simp only [dispatches, suspensions, Finset.card_filter]
  induction j, hij using Nat.le_induction with
  | base => simp
  | succ j hij ih =>
    obtain ⟨m, g, hstep, hm⟩ := h.step j hj
    have hthrifty := h.thrifty h₀ (Nat.le_of_lt hj)
    have hstep' := (hthrifty.move hstep).turnover hthrifty.regular.sane.sound
    have ih := ih (Nat.le_of_lt hj)
    have hactivations : (ms (j + 1)).activations = m.activations := by rw [hm]; rfl
    have hthreads : (ms (j + 1)).system.kernel.numThreads = m.system.kernel.numThreads := by
      rw [hm]
      rfl
    have hnumber : (ms (j + 1)).system.kernel.registry.nextNumber =
        m.system.kernel.registry.nextNumber := by
      rw [hm]
      rfl
    rw [Finset.sum_Ico_succ_top hij, Finset.sum_Ico_succ_top hij, hactivations, hthreads, hnumber]
    omega

end Execution

/-- What becomes of an execution in which no dispatch and no jump of the clock is wasted. -/
structure Economy (n : Nat) (ms : Nat → Machine) : Prop where
  /-- Whoever is dispatched finds its yield point open, and leaves it behind. -/
  resumes : ∀ i < n, ∀ t, (ms i).chosen? = some t → ∃ a,
    (ms i).system.kernel.pending? t = some a ∧
    (ms (i + 1)).thread? = some t ∧ (ms (i + 1)).activation? t = some a ∧
    ∀ p r, a.stage = .suspended p r → ((ms (i + 1)).system.kernel.pollPoint t p).1 = true ∧
      (i + 1 < n → ∃ a', (ms (i + 2)).thread? = some t ∧ (ms (i + 2)).activation? t = some a' ∧
        a.Passes r a')
  /-- Threads are dispatched no more often than they come to life and are suspended. -/
  dispatches : ∀ i j, i ≤ j → j ≤ n → dispatches ms i j ≤ (ms i).system.kernel.numThreads +
    ((ms j).system.kernel.registry.nextNumber - (ms i).system.kernel.registry.nextNumber) +
    suspensions ms i j
  /-- A jump of the clock takes it to an interrupt, which is delivered to all handlers next. -/
  jumps : ∀ i < n, (ms i).phase? = some .choose → (ms (i + 1)).phase? = some .tick →
    (ms i).system.kernel.clock.now < (ms (i + 1)).system.kernel.clock.now ∧
    (ms (i + 1)).system.kernel.clock.now = (ms i).system.kernel.clock.nextTick ∧
    (i + 1 < n → ∃ below, (ms (i + 2)).stack =
      .delivery (ms (i + 1)).system.kernel.level [] (ms (i + 1)).system.handlers :: below)
  concludes : ∀ i ≤ n, (ms i).Iterates .main → (ms i).Concludes

/-- Programs without unbounded loops that spawn only later ones waste nothing, and all their runs
end. -/
theorem execution_economy {n : Nat} {ms : Nat → Machine} {gen : Generator} {settings : Settings}
    {k : Kernel Activation} {programs : List Program} {main : List Action} (h : Execution n ms)
    (hk : Kernel.start gen settings = .ok k) (hstart : ms 0 = Machine.start k programs main)
    (hf : Frugal programs main) : Economy n ms := by
  obtain ⟨price, h₀⟩ := Machine.start_thrifty hk hf
  rw [← hstart] at h₀
  refine ⟨fun i hi t hc => ?_, fun i j hij hj => ?_, fun i hi hc ht => ?_, fun i hi hloop => ?_⟩
  · obtain ⟨m, g, hstep, hm⟩ := h.step i hi
    obtain ⟨d, below, hstack, rfl, hpending, -, hready⟩ :=
      ((h.thrifty h₀ (Nat.le_of_lt hi)).move hstep).chosen hc
    have hstack₁ : (ms (i + 1)).stack = .thread d :: below := by rw [hm]; exact hstack
    have hthrifty := h.thrifty h₀ hi
    refine ⟨d.task.coroutine, hpending, by rw [Machine.thread?, hstack₁],
      by simp [Machine.activation?, hstack₁], fun p r hsuspended => ?_⟩
    have hyielded : p.yielded = true := by
      rcases hready with hfresh | ⟨p', r', hs', hy⟩
      · cases hfresh.symm.trans hsuspended
      · cases hs'.symm.trans hsuspended
        exact hy
    refine ⟨hthrifty.pollPoint hstack₁ hsuspended hyielded, fun hi' => ?_⟩
    obtain ⟨m₁, g₁, hstep₁, hm₁⟩ := h.step (i + 1) hi'
    obtain ⟨a', hstack₂, hpasses⟩ := hthrifty.resumes hstack₁ hsuspended hyielded hstep₁
    have hstack₂ : (ms (i + 2)).stack = .thread (Machine.holding d a') :: below := by
      rw [hm₁]
      exact hstack₂
    exact ⟨a', by rw [Machine.thread?, hstack₂]; rfl,
      by simp [Machine.activation?, hstack₂, Machine.holding], hpasses⟩
  · have hturnover := h.turnover h₀ hij hj
    obtain ⟨hfirst, -⟩ := (h.thrifty h₀ (Nat.le_trans hij hj)).activations_le
    obtain ⟨-, hlast⟩ := (h.thrifty h₀ hj).activations_le
    omega
  · obtain ⟨m, g, hstep, hm⟩ := h.step i hi
    have hthrifty := h.thrifty h₀ (Nat.le_of_lt hi)
    obtain ⟨hlt, hnow, hinterrupted⟩ := hthrifty.waits hstep hc (by rw [hm] at ht; exact ht)
    rw [hm]
    refine ⟨hlt, hnow, fun hi' => ?_⟩
    obtain ⟨m₁, g₁, hstep₁, hm₁⟩ := h.step (i + 1) hi'
    rw [hm₁]
    rw [hm] at hstep₁
    exact (((hthrifty.step hstep).reseed g).move hstep₁).delivers hinterrupted
  · obtain ⟨a, rest, below, hstack, -⟩ := hloop
    refine (h.thrifty h₀ hi).concludes fun b hb => ?_
    cases hstack.symm.trans hb

namespace Machine

/-- One thread spawns another one, sleeps on a condition until the other one, which waits for an
alarm first, wakes it, has to wait for the lock then, and joins it. -/
def drowsyPrograms : List Program :=
  [⟨"driver", [.act (.spawn 1), .acquire 0, .yield, .sleep 0, .act (.release 0),
      .join (.named ⟨2⟩)]⟩,
    ⟨"waker", [.wait 0 25, .acquire 0, .act (.atomic (.wake 0)), .yield, .act (.release 0)]⟩]

def drowsyMain : List Action := [.newLock, .newCondition 0, .newAlarm, .spawn 0, .run]

theorem execution_economy_drowsy : ∃ (n : Nat) (ms : Nat → Machine) (k : Kernel Activation),
    Execution n ms ∧ Kernel.start .counting burdenedSettings = .ok k ∧
    ms 0 = start k drowsyPrograms drowsyMain ∧ Frugal drowsyPrograms drowsyMain ∧
    57 ≤ n ∧ (ms 41).chosen? = some ⟨1⟩ ∧ (ms 43).suspending = true ∧
    dispatches ms 0 n = 7 ∧ suspensions ms 0 n = 5 ∧
    (ms n).system.kernel.registry.nextNumber = 3 ∧
    ([21, 22, 26].map fun i => ((ms i).phase?, (ms i).system.kernel.clock.now)) =
      [(some .choose, 3), (some .tick, 10), (some .tick, 20)] ∧
    (ms 5).Iterates .main ∧ Economy n ms := by
  have hrun : (Kernel.start .counting burdenedSettings).toOption.any (fun k =>
      let m := fun i => (run i (start k drowsyPrograms drowsyMain)).1
      (run 57 (m 0)).2 = .unfinished ∧ (m 41).chosen? = some ⟨1⟩ ∧ (m 43).suspending = true ∧
        dispatches m 0 57 = 7 ∧ suspensions m 0 57 = 5 ∧
        (m 57).system.kernel.registry.nextNumber = 3 ∧
        ([21, 22, 26].map fun i => ((m i).phase?, (m i).system.kernel.clock.now)) =
          [(some .choose, 3), (some .tick, 10), (some .tick, 20)] ∧
        (m 5).phase? = some .tick) = true := by
    decide +kernel
  have hspawns : ∀ j x, drowsyPrograms[j]? = some x →
      Instr.everyList (Action.spawnsBehind j) x.code = true := by
    rintro (_ | _ | j) x hx <;> cases hx <;> rfl
  have hf : Frugal drowsyPrograms drowsyMain :=
    ⟨by decide, by decide, by decide, hspawns, by decide, by decide⟩
  obtain ⟨k, hk, hrun⟩ := exists_start hrun
  obtain ⟨hn, hchosen, hsuspending, hdispatches, hsuspensions, hnumber, hjumps, htick⟩ :=
    of_decide_eq_true hrun
  have hexec := execution_run hk hn
  obtain ⟨price, h₀⟩ := start_thrifty hk hf
  have hiterates := (hexec.thrifty h₀ (i := 5) (by decide)).flat.iterates htick
  exact ⟨57, _, k, hexec, hk, rfl, hf, Nat.le_refl _, hchosen, hsuspending, hdispatches,
    hsuspensions, hnumber, hjumps, hiterates, execution_economy hexec hk rfl hf⟩

end Machine
end ThreadKernel
