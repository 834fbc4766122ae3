import Mathlib.Data.Nat.Find
import Mathlib.Order.Bounds.Basic
import ThreadKernel.Proofs.Machine.Alarms
import ThreadKernel.Proofs.Machine.Interrupts

/-!
# ThreadKernel.Proofs.Machine.Naps

How long a thread sleeps at an alarm. It is released by the first timer interrupt that finds its
deadline reached, which comes no later than one dispatch after the multiple of the timer interval that
follows the deadline, however late interrupts are and however many of them count as one.

* `Machine.Asleep`  — the state of a sleeper, kept by all steps but its release.
* `Ahead`, `Reached` — whether an interrupt has found the deadline reached.
* `Nap`             — the course of one wait.
* `execution_nap`   — every wait takes this course.
-/

namespace ThreadKernel

namespace Machine

variable {m m' : Machine} {t : ThreadId} {a ticks w : Nat} {q : QueueId}

/-! ## The random source -/

theorem Asleep.reseed (h : m.Asleep t a ticks w) (g : Random) : (m.reseed g).Asleep t a ticks w :=
  ⟨h.dozes, h.deadlines⟩

theorem Releases.reseed (h : Releases t a m m') (g : Random) : Releases t a m (m'.reseed g) :=
  ⟨h.calls, h.off, h.announced.channel, h.announced.signal⟩

theorem Passage.reseed (h : Passage m m') (g : Random) : Passage m (m'.reseed g) := by
  cases h with
  | works before after clock => exact .works before after clock
  | charges before after clock => exact .charges before after clock
  | skips before after clock => exact .skips before after clock
  | passes before early after clock => exact .passes before early after clock
  | interrupts before taken after => exact .interrupts before taken after
  | calls before after clock => exact .calls before after clock
  | delivered before after clock => exact .delivered before after clock

/-- A thread completes no instruction while it dozes. -/
theorem Dozes.not_completes {i k : Instr} (h : m.Dozes t i) (hr : m.Regular) (ht : Turn m m') :
    ¬ Completes t k m m' := by
  intro hc
  obtain ⟨hrun, time, v, hev⟩ := id hc
  obtain ⟨a, _, _, _, _, ha, -, hstage, -⟩ := ht.dozes_running hr hrun h
  have hnew : m'.system.events ≠ m.system.events := by
    rw [hev]
    exact List.cons_ne_self _ _
  have hbusy : ∀ {P : Prop}, Idle m.stack → P := fun hi =>
    nomatch (thread?_of_idle hi).symm.trans hrun
  cases ht with
  | program stack =>
    rw [thread?, stack] at hrun
    cases hrun
  | @thread d a' below stack code after =>
    rw [thread?_eq stack] at hrun
    cases hrun
    rw [show m'.activation? d.thread = some a' from activation?_self (d := holding d a') after]
      at ha
    cases ha
    cases System.stepCode_leads hr.sane code with
    | goesOn _ _ events => exact hnew events
    | suspends _ events => exact hnew events
    | completes hcomp =>
      rw [hcomp.fresh] at hstage
      cases hstage
  | parks _ code _ system =>
    obtain ⟨_, _, _, _, _, -, -, -, -, -, rfl⟩ := System.stepCode_park code
    exact hnew (by rw [system]; rfl)
  | retires _ _ _ system => exact hnew (by rw [system]; rfl)
  | alarm idle | chooses idle | dispatches idle | quiet idle => exact hbusy idle

end Machine

open Machine (Begins Completes Interrupted Asleep Releases Delivers Enlisted)

namespace Execution

variable {n i : Nat} {ms : Nat → Machine} {t : ThreadId}

theorem passage (h : Execution n ms) (hb : ∀ i ≤ n, ¬ (ms i).Bears) (hi : i < n) :
    Machine.Passage (ms i) (ms (i + 1)) ∧ Machine.Steadfast (ms i) (ms (i + 1)) := by
  obtain ⟨m, g, hstep, hm⟩ := h.step i hi
  obtain ⟨hp, hs⟩ := (h.flat hb (by omega)).passage (hb i (by omega)) hstep
  rw [hm]
  exact ⟨hp.reseed g, hs.ticks, hs.interval⟩

theorem punctual (h : Execution n ms) (hb : ∀ i ≤ n, ¬ (ms i).Bears)
    (hs : ∀ i ≤ n, (ms i).system.kernel.clock.nextTick ≤ maxTime) (hi : i ≤ n) :
    (ms i).Punctual := by
  induction i with
  | zero =>
    obtain ⟨_, _, k, programs, main, hk, hm⟩ := h.start
    rw [hm]
    unfold Kernel.start at hk
    split at hk
    · cases hk
    · rename_i clock hclock
      cases hk
      obtain ⟨hpaced, hearly⟩ := Clock.start_paced hclock
      exact ⟨hpaced, fun _ => hearly⟩
  | succ i ih => exact (h.passage hb hi).1.punctual (ih (by omega)) (hs i (by omega))

theorem timetabled (h : Execution n ms) (hi : i ≤ n) : (ms i).system.Timetabled := by
  let P := fun m : Machine => m.system.Timetabled
  have hfirst : P (ms 0) := h.of_start fun _ a ha => nomatch ha
  refine h.invariant hfirst (fun j hj m g hstep ht => ?_) hi
  exact ((h.coherent (Nat.le_of_lt hj)).toRegular.rings hstep).timetabled ht

theorem asleep_next (h : Execution n ms) (hret : ∀ i < n, (ms i).Reticent) (hi : i < n)
    (hl : (ms i).Loose t) {a ticks w : Nat} (hs : (ms i).Asleep t a ticks w) :
    (ms (i + 1)).Asleep t a ticks w ∨
      w ≤ (ms i).system.kernel.now ∧ Releases t a (ms i) (ms (i + 1)) := by
  obtain ⟨m, g, hstep, hm⟩ := h.step i hi
  rw [hm]
  rcases hs.next (h.coherent (by omega)).toRegular (h.timetabled (by omega)) (hret i hi) hl hstep
    with hs | ⟨hw, hrel⟩
  · exact .inl (hs.reseed g)
  · exact .inr ⟨hw, hrel.reseed g⟩

/-- Whoever is on the list of an alarm sleeps there. -/
theorem asleep_of_enlisted (h : Execution n ms) (hret : ∀ i < n, (ms i).Reticent)
    (hl : ∀ i < n, (ms i).Enlisted t → (ms i).Loose t) (hi : i ≤ n)
    (he : (ms i).Enlisted t) : ∃ a ticks w, (ms i).Asleep t a ticks w := by
  induction i with
  | zero =>
    obtain ⟨_, _, k, programs, main, -, hm⟩ := h.start
    obtain ⟨j, hj⟩ := he
    rw [hm] at hj
    exact absurd rfl hj
  | succ i ih =>
    by_cases hbefore : (ms i).Enlisted t
    · obtain ⟨a, ticks, w, hs⟩ := ih (by omega) hbefore
      rcases h.asleep_next hret hi (hl i hi hbefore) hs with hs | ⟨-, hrel⟩
      · exact ⟨a, ticks, w, hs⟩
      · exact absurd he hrel.off
    · obtain ⟨m, g, hstep, hm⟩ := h.step i hi
      have hr := (h.coherent (i := i) (by omega)).toRegular
      by_cases hb : ∃ a ticks, Begins t (.wait a ticks) (ms i)
      · obtain ⟨a, ticks, hb⟩ := hb
        rw [hm]
        exact ⟨a, ticks, _, (hb.asleep hr hstep hbefore).reseed g⟩
      · obtain ⟨j, hj⟩ := he
        rw [hm] at hj
        have hkept := (hr.rings hstep).deadlines_kept (h.timetabled (by omega))
          (fun a ticks hb' => hb ⟨a, ticks, hb'⟩) (fun hn => hbefore (hn.enlisted (h.timetabled
            (by omega)))) j
        exact absurd ⟨j, fun hnil => hj (hkept.trans hnil)⟩ hbefore

end Execution

/-! ## One wait -/

/-- The thread sleeps at all times from `j` to `i`. -/
def SleepsOn (ms : Nat → Machine) (t : ThreadId) (a ticks w j i : Nat) : Prop :=
  ∀ l, j < l → l ≤ i → (ms l).Asleep t a ticks w

/-- No interrupt between `j` and `i` has found the deadline reached. -/
def Unreached (ms : Nat → Machine) (w j i : Nat) : Prop :=
  ∀ l, j < l → l < i → (ms l).Interrupted → (ms l).system.kernel.now < w

/-- The deadline is ahead. The clock stood at `c` when the thread began to wait. -/
structure Ahead (ms : Nat → Machine) (c : Clock) (cost w last j i : Nat) : Prop where
  unreached : Unreached ms w j i
  later : c.nextTick ≤ (ms i).system.kernel.clock.nextTick
  soon : (ms i).system.kernel.clock.nextTick ≤ last
  bound : (ms i).system.kernel.now < last + max 1 cost
  calm : (ms i).Delivers → (ms i).system.kernel.now < w

/-- The interrupt at `b`, which is delivered since, has found the deadline reached first. -/
structure Reached (ms : Nat → Machine) (c : Clock) (cost w last j b i : Nat) : Prop where
  after : j < b
  before : b < i
  interrupted : (ms b).Interrupted
  unreached : Unreached ms w j b
  due : max w c.nextTick ≤ (ms b).system.kernel.now
  bound : (ms b).system.kernel.now < last + max 1 cost
  delivering : ∀ l, b < l → l ≤ i →
    (ms l).Delivers ∧ (ms l).system.kernel.now = (ms b).system.kernel.now

/-- The alarm has yet to be called in the delivery. -/
def Machine.Expects (a : Nat) (m : Machine) : Prop :=
  ∃ previous called waiting below, m.stack = .delivery previous called waiting :: below ∧
    Handler.alarm a ∈ waiting

section Wait

variable {ms : Nat → Machine} {t : ThreadId} {c : Clock} {a ticks w last cost j b i : Nat}

theorem Unreached.next (h : Unreached ms w j i)
    (hi : (ms i).Interrupted → (ms i).system.kernel.now < w) : Unreached ms w j (i + 1) := by
  intro l hj hl hint
  rcases Nat.lt_succ_iff_lt_or_eq.1 hl with hl | rfl
  · exact h l hj hl hint
  · exact hi hint

/-- A step that takes no time and delivers nothing new. -/
theorem Ahead.rest (h : Ahead ms c cost w last j i)
    (hclock : (ms (i + 1)).system.kernel.clock = (ms i).system.kernel.clock)
    (hint : ¬ (ms i).Interrupted) (hd : (ms (i + 1)).Delivers → (ms i).Delivers) :
    Ahead ms c cost w last j (i + 1) := by
  have hnow : (ms (i + 1)).system.kernel.now = (ms i).system.kernel.now :=
    congrArg Clock.now hclock
  refine ⟨h.unreached.next fun hi => absurd hi hint, ?_, ?_, ?_, fun hi => ?_⟩
  · rw [hclock]
    exact h.later
  · rw [hclock]
    exact h.soon
  · rw [hnow]
    exact h.bound
  · rw [hnow]
    exact h.calm (hd hi)

/-- As long as the deadline is ahead time passes no further than to the last possible tick. -/
theorem Ahead.next (h : Ahead ms c cost w last j i) (hp : (ms i).Punctual)
    (hm : Machine.Passage (ms i) (ms (i + 1)))
    (hcost : (ms i).system.kernel.ticksPerDispatch = cost)
    (hlast : (ms i).system.kernel.clock.interval ∣ last) (hw : w ≤ last) (hj : j < i)
    (ha : (ms i).AtTick → Handler.alarm a ∈ (ms i).system.handlers) :
    Ahead ms c cost w last j (i + 1) ∨
      Reached ms c cost w last j i (i + 1) ∧ (ms (i + 1)).Expects a := by
  have hsoon := h.soon
  have hlater := h.later
  cases hm with
  | works before after clock =>
    exact .inl (h.rest clock (fun hi => before.1 hi.1) fun hd => absurd hd after)
  | charges before after clock =>
    have hearly : (ms i).system.kernel.now < (ms i).system.kernel.clock.nextTick :=
      hp.early before.1
    have hnow : (ms (i + 1)).system.kernel.now ≤ (ms i).system.kernel.now + cost := by
      rw [Kernel.now, clock, hcost]
      exact Nat.min_le_left _ _
    refine .inl ⟨h.unreached.next fun hi => absurd hi.1 before.1, ?_, ?_, by omega, fun hd =>
      absurd hd after.not_delivering⟩
    · rw [clock]
      exact hlater
    · rw [clock]
      exact hsoon
  | skips before after clock =>
    obtain ⟨hnow, hnext, -⟩ := Clock.fastForward_now (hp.early before.1)
    refine .inl ⟨h.unreached.next fun hi => absurd hi.1 before.1, ?_, ?_, ?_, fun hd =>
      absurd hd after.not_delivering⟩
    · rw [clock, hnext]
      exact hlater
    · rw [clock, hnext]
      exact hsoon
    · rw [Kernel.now, clock, hnow]
      omega
  | passes before early after clock =>
    exact .inl (h.rest clock (fun hi => absurd early (Nat.not_lt.2 hi.2)) fun hd =>
      absurd hd after.2)
  | interrupts before taken after =>
    obtain ⟨hdue, hnow, hint, hgrows⟩ := Clock.takeTick_cases taken
    have hnow : (ms (i + 1)).system.kernel.now = (ms i).system.kernel.now := hnow
    have hbound := h.bound
    by_cases hlt : (ms i).system.kernel.now < w
    · refine .inl ⟨h.unreached.next fun _ => hlt, hlater.trans hgrows, ?_, ?_, fun _ => ?_⟩
      · refine (hp.paced.takeTick taken).nextTick_le (hint ▸ hlast) ?_
        show (ms (i + 1)).system.kernel.now < last
        omega
      · rw [hnow]
        exact hbound
      · rw [hnow]
        exact hlt
    · have hdue' : (ms i).system.kernel.clock.nextTick ≤ (ms i).system.kernel.now := hdue
      refine .inr ⟨⟨hj, by omega, ⟨before, hdue⟩, h.unreached, by omega, hbound, fun l hl hl' => ?_⟩,
        _, _, _, _, after, ha before⟩
      obtain rfl : l = i + 1 := by omega
      exact ⟨⟨_, _, _, _, after⟩, hnow⟩
  | calls before after clock =>
    have hd : (ms i).Delivers := ⟨_, _, _, _, before⟩
    exact .inl (h.rest clock (fun hi => hd.not_atTick hi.1) fun _ => hd)
  | delivered before after clock =>
    have hd : (ms i).Delivers := ⟨_, _, _, _, before⟩
    exact .inl (h.rest clock (fun hi => hd.not_atTick hi.1) fun _ => hd)

/-- A delivery goes on until all its handlers are called. -/
theorem Reached.next (h : Reached ms c cost w last j b i)
    (hm : Machine.Passage (ms i) (ms (i + 1))) (he : (ms i).Expects a)
    (hcalled : ∀ previous called waiting below,
      (ms i).stack ≠ .delivery previous called (.alarm a :: waiting) :: below) :
    Reached ms c cost w last j b (i + 1) ∧ (ms (i + 1)).Expects a := by
  obtain ⟨previous, called, waiting, below, hstack, hwait⟩ := he
  have hd : (ms i).Delivers := ⟨_, _, _, _, hstack⟩
  have hbefore := h.before
  cases hm with
  | works before | charges before | skips before => exact absurd hd before.2
  | passes before | interrupts before => exact absurd hd before.not_delivering
  | delivered before =>
    rw [hstack] at before
    cases before
    cases hwait
  | calls before after clock =>
    rw [hstack] at before
    cases before
    have hnow : (ms (i + 1)).system.kernel.now = (ms i).system.kernel.now :=
      congrArg Clock.now clock
    refine ⟨{ h with before := by omega, delivering := fun l hl hl' => ?_ }, _, _, _, _, after, ?_⟩
    · rcases Nat.lt_or_eq_of_le hl' with hl' | rfl
      · exact h.delivering l hl (by omega)
      · exact ⟨⟨_, _, _, _, after⟩, hnow.trans (h.delivering i hbefore le_rfl).2⟩
    · rcases List.mem_cons.1 hwait with rfl | hwait
      · exact absurd hstack (hcalled _ _ _ _)
      · exact hwait

end Wait

/-- The course of the wait that the thread begins at the step `j`. -/
structure Nap (n : Nat) (ms : Nat → Machine) (t : ThreadId) (a ticks j last : Nat) : Prop where
  /-- It sleeps until it is made ready in the delivery of the first interrupt after the call that
  finds the deadline reached. -/
  course : ∀ i, j < i → i ≤ n →
    SleepsOn ms t a ticks ((ms j).system.kernel.now + ticks) j i ∨
      ∃ b k, k < i ∧ SleepsOn ms t a ticks ((ms j).system.kernel.now + ticks) j k ∧
        Reached ms (ms j).system.kernel.clock (ms j).system.kernel.ticksPerDispatch
          ((ms j).system.kernel.now + ticks) last j b k ∧
        Releases t a (ms k) (ms (k + 1))
  /-- The loop chooses no thread while it sleeps and that interrupt is overdue. -/
  prompt : ∀ i, j < i → i ≤ n →
    SleepsOn ms t a ticks ((ms j).system.kernel.now + ticks) j i →
      (∃ below, (ms i).stack = .loop .choose :: below) → (ms i).system.kernel.now < last
  /-- It does not return before. -/
  returns : ∀ i, j < i → i < n → Completes t (.wait a ticks) (ms i) (ms (i + 1)) →
    ∃ k, k < i ∧ Releases t a (ms k) (ms (k + 1))

namespace Execution

variable {n i j : Nat} {ms : Nat → Machine} {t : ThreadId} {a ticks w last : Nat}

theorem steadfast (h : Execution n ms) (hb : ∀ i ≤ n, ¬ (ms i).Bears) (hj : j ≤ i) (hi : i ≤ n) :
    Machine.Steadfast (ms j) (ms i) := by
  induction i, hj using Nat.le_induction with
  | base => exact ⟨rfl, rfl⟩
  | succ i hj ih =>
    have hbefore := ih (by omega)
    have hs := (h.passage hb hi).2
    exact ⟨hs.ticks.trans hbefore.ticks, hs.interval.trans hbefore.interval⟩

/-- An alarm on whose list somebody is will be called. -/
theorem called (h : Execution n ms) (hb : ∀ i ≤ n, ¬ (ms i).Bears) (hi : i ≤ n)
    (hs : (ms i).Asleep t a ticks w) (ht : (ms i).AtTick) :
    Handler.alarm a ∈ (ms i).system.handlers := by
  obtain ⟨alarm, hnamed, -⟩ := hs.exists_alarm
  have hlt := (List.getElem?_eq_some_iff.1 hnamed).1
  have hflat := h.flat hb hi
  generalize ms i = m at hflat ht hlt
  obtain ⟨below, hstack⟩ := ht
  cases hflat with
  | program | thread | delivery => cases hstack
  | loop enrolled => exact enrolled a hlt

/-- The step that begins a wait takes no time. -/
theorem ahead_of_begins (h : Execution n ms) (hb : ∀ i ≤ n, ¬ (ms i).Bears)
    (hp : (ms j).Punctual) (hj : j < n) (hbeg : Begins t (.wait a ticks) (ms j))
    (hlast : (ms j).system.kernel.clock.interval ∣ last) (hlt : (ms j).system.kernel.now < last) :
    Ahead ms (ms j).system.kernel.clock (ms j).system.kernel.ticksPerDispatch w last j (j + 1) := by
  obtain ⟨m, g, hstep, hm⟩ := h.step j hj
  obtain ⟨d, below, rest, a', hstack, -, -, -, hgo⟩ := hbeg.step hstep (by simp)
  have hclock : (ms (j + 1)).system.kernel.clock = (ms j).system.kernel.clock := by
    rw [hm]
    exact (System.stepInstr_grows hgo).kernel.clock
  have hnow : (ms (j + 1)).system.kernel.now = (ms j).system.kernel.now :=
    congrArg Clock.now hclock
  have hdelivers : ¬ (ms (j + 1)).Delivers := by
    cases (h.passage hb hj).1 with
    | works _ after => exact after
    | charges _ after | skips _ after => exact after.not_delivering
    | passes before | interrupts before =>
      obtain ⟨below', before⟩ := before
      rw [hstack] at before
      cases before
    | calls before | delivered before =>
      rw [hstack] at before
      cases before
  refine ⟨fun l hl hl' => by omega, ?_, ?_, by omega, fun hd => absurd hd hdelivers⟩
  · rw [hclock]
  · rw [hclock]
    exact hp.paced.nextTick_le hlast hlt

end Execution

/-- How far a wait has come at the step `i`. -/
inductive Course (ms : Nat → Machine) (t : ThreadId) (a ticks j last i : Nat) : Prop where
  | ahead (asleep : SleepsOn ms t a ticks ((ms j).system.kernel.now + ticks) j i)
      (ahead : Ahead ms (ms j).system.kernel.clock (ms j).system.kernel.ticksPerDispatch
        ((ms j).system.kernel.now + ticks) last j i)
  | reached {b : Nat} (asleep : SleepsOn ms t a ticks ((ms j).system.kernel.now + ticks) j i)
      (reached : Reached ms (ms j).system.kernel.clock (ms j).system.kernel.ticksPerDispatch
        ((ms j).system.kernel.now + ticks) last j b i) (expects : (ms i).Expects a)
  | released {b k : Nat} (before : k < i)
      (asleep : SleepsOn ms t a ticks ((ms j).system.kernel.now + ticks) j k)
      (reached : Reached ms (ms j).system.kernel.clock (ms j).system.kernel.ticksPerDispatch
        ((ms j).system.kernel.now + ticks) last j b k)
      (releases : Releases t a (ms k) (ms (k + 1)))

namespace Execution

variable {n i j : Nat} {ms : Nat → Machine} {t : ThreadId} {a ticks last : Nat}

theorem course_next (h : Execution n ms) (hb : ∀ i ≤ n, ¬ (ms i).Bears)
    (hret : ∀ i < n, (ms i).Reticent) (hl : ∀ i < n, (ms i).Enlisted t → (ms i).Loose t)
    (hs : ∀ i ≤ n, (ms i).system.kernel.clock.nextTick ≤ maxTime) (hj : j < i) (hi : i < n)
    (hlast : (ms j).system.kernel.clock.interval ∣ last)
    (hle : (ms j).system.kernel.now + ticks ≤ last) (hc : Course ms t a ticks j last i) :
    Course ms t a ticks j last (i + 1) := by
  have hstill : ∀ {w}, SleepsOn ms t a ticks w j i → (ms (i + 1)).Asleep t a ticks w →
      SleepsOn ms t a ticks w j (i + 1) := by
    intro w hasleep hnext l hl hl'
    rcases Nat.lt_or_eq_of_le hl' with hl' | rfl
    · exact hasleep l hl (by omega)
    · exact hnext
  have hsteadfast := h.steadfast hb (Nat.le_of_lt hj) (Nat.le_of_lt hi)
  have hpassage := (h.passage hb hi).1
  cases hc with
  | ahead asleep ahead =>
    have hnow := asleep i hj le_rfl
    rcases h.asleep_next hret hi (hl i hi hnow.enlisted) hnow with hnext | ⟨hdue, hrel⟩
    · rcases ahead.next (h.punctual hb hs (Nat.le_of_lt hi)) hpassage hsteadfast.ticks
        (hsteadfast.interval ▸ hlast) hle hj (h.called hb (Nat.le_of_lt hi) hnow) with
        hahead | ⟨hreached, hexpects⟩
      · exact .ahead (hstill asleep hnext) hahead
      · exact .reached (hstill asleep hnext) hreached hexpects
    · obtain ⟨_, _, _, _, hcalls⟩ := hrel.calls
      exact absurd (ahead.calm ⟨_, _, _, _, hcalls⟩) (Nat.not_lt.2 hdue)
  | @reached b asleep reached expects =>
    have hnow := asleep i hj le_rfl
    rcases h.asleep_next hret hi (hl i hi hnow.enlisted) hnow with hnext | ⟨-, hrel⟩
    · have hdue : (ms j).system.kernel.now + ticks ≤ (ms i).system.kernel.now := by
        have hdelivery := (reached.delivering i reached.before le_rfl).2
        have hdue := reached.due
        omega
      obtain ⟨m, g, hstep, hm⟩ := h.step i hi
      rw [hm] at hnext
      have hcalled := hnow.not_called (h.timetabled (Nat.le_of_lt hi)) hstep hdue
        ⟨hnext.dozes, hnext.deadlines⟩
      obtain ⟨hreached, hexpects⟩ := reached.next hpassage expects hcalled
      refine .reached (hstill asleep ?_) hreached hexpects
      rw [hm]
      exact hnext
    · exact .released (Nat.lt_succ_self i) asleep reached hrel
  | released before asleep reached releases =>
    exact .released (Nat.lt_succ_of_lt before) asleep reached releases

theorem course (h : Execution n ms) (hb : ∀ i ≤ n, ¬ (ms i).Bears)
    (hret : ∀ i < n, (ms i).Reticent) (hl : ∀ i < n, (ms i).Enlisted t → (ms i).Loose t)
    (hs : ∀ i ≤ n, (ms i).system.kernel.clock.nextTick ≤ maxTime)
    (hbeg : Begins t (.wait a ticks) (ms j))
    (hmax : (ms j).system.kernel.now + ticks ≤ maxTime)
    (hlast : (ms j).system.kernel.clock.interval ∣ last) (hlt : (ms j).system.kernel.now < last)
    (hle : (ms j).system.kernel.now + ticks ≤ last) (hj : j < i) (hi : i ≤ n) :
    Course ms t a ticks j last i := by
  induction i, hj using Nat.le_induction with
  | base =>
    obtain ⟨m, g, hstep, hm⟩ := h.step j hi
    have hfree : ¬ (ms j).Enlisted t := by
      intro he
      obtain ⟨_, _, _, hs⟩ := h.asleep_of_enlisted hret hl (Nat.le_of_lt hi) he
      exact hs.dozes.not_begins hbeg
    have hafter : Clock.after (ms j).system.kernel.now ticks = (ms j).system.kernel.now + ticks :=
      Nat.min_eq_left hmax
    refine .ahead (fun l hl hl' => ?_)
      (h.ahead_of_begins hb (h.punctual hb hs (Nat.le_of_lt hi)) hi hbeg hlast hlt)
    obtain rfl : l = j + 1 := by omega
    rw [hm, ← hafter]
    exact (hbeg.asleep (h.coherent (Nat.le_of_lt hi)).toRegular hstep hfree).reseed g
  | succ i hj ih => exact h.course_next hb hret hl hs hj hi hlast hle (ih (by omega))

end Execution

/-- The next multiple of the timer interval at which a deadline is reached. -/
theorem exists_last (interval now w : Nat) (hpos : 0 < interval) :
    ∃ last, IsLeast {x | interval ∣ x ∧ now < x ∧ w ≤ x} last := by
  classical
  have hex : ∃ x, interval ∣ x ∧ now < x ∧ w ≤ x := by
    refine ⟨interval * (now + w + 1), Nat.dvd_mul_right _ _, ?_, ?_⟩
    · exact Nat.lt_of_lt_of_le (by omega) (Nat.le_mul_of_pos_left (now + w + 1) hpos)
    · exact Nat.le_trans (by omega) (Nat.le_mul_of_pos_left (now + w + 1) hpos)
  exact ⟨Nat.find hex, Nat.find_spec hex, fun x hx => Nat.find_min' hex hx⟩

/-- A thread that waits at an alarm, and that no lock, condition or thread wakes meanwhile, is
released by the first interrupt that finds its deadline reached. -/
theorem execution_nap {n j : Nat} {ms : Nat → Machine} {t : ThreadId} {a ticks : Nat}
    (h : Execution n ms) (hb : ∀ i ≤ n, ¬ (ms i).Bears) (hret : ∀ i < n, (ms i).Reticent)
    (hl : ∀ i < n, (ms i).Enlisted t → (ms i).Loose t)
    (hs : ∀ i ≤ n, (ms i).system.kernel.clock.nextTick ≤ maxTime)
    (hbeg : Begins t (.wait a ticks) (ms j))
    (hmax : (ms j).system.kernel.now + ticks ≤ maxTime) :
    ∃ last, IsLeast {x | (ms j).system.kernel.clock.interval ∣ x ∧
        (ms j).system.kernel.now < x ∧ (ms j).system.kernel.now + ticks ≤ x} last ∧
      Nap n ms t a ticks j last := by
  obtain ⟨last, hlast⟩ := exists_last _ (ms j).system.kernel.now
    ((ms j).system.kernel.now + ticks) (ms j).system.kernel.clock.interval_pos
  obtain ⟨hdvd, hlt, hle⟩ := hlast.1
  have hcourse : ∀ {i}, j < i → i ≤ n → Course ms t a ticks j last i := fun hj hi =>
    h.course hb hret hl hs hbeg hmax hdvd hlt hle hj hi
  refine ⟨last, hlast, fun i hji hi => ?_, fun i hji hi hasleep hchoose => ?_,
    fun i hji hi hret' => ?_⟩
  · cases hcourse hji hi with
    | ahead asleep | reached asleep => exact .inl asleep
    | released before asleep reached releases => exact .inr ⟨_, _, before, asleep, reached, releases⟩
  · obtain ⟨below, hstack⟩ := hchoose
    have hat : ¬ (ms i).AtTick := by
      rintro ⟨_, h'⟩
      rw [hstack] at h'
      cases h'
    cases hcourse hji hi with
    | ahead _ ahead =>
      have hearly : (ms i).system.kernel.now < (ms i).system.kernel.clock.nextTick :=
        (h.punctual hb hs hi).early hat
      exact hearly.trans_le ahead.soon
    | reached _ _ expects =>
      obtain ⟨_, _, _, _, hd, -⟩ := expects
      rw [hstack] at hd
      cases hd
    | @released b k before _ reached releases =>
      have hjk := reached.after.trans reached.before
      exact absurd (hasleep (k + 1) (hjk.trans (Nat.lt_succ_self k)) before).enlisted releases.off
  · have hawake : ¬ (ms i).Asleep t a ticks ((ms j).system.kernel.now + ticks) := by
      intro hasleep
      obtain ⟨m, g, hstep, hm⟩ := h.step i hi
      have hr := (h.coherent (Nat.le_of_lt hi)).toRegular
      rw [hm] at hret'
      exact hasleep.dozes.not_completes hr (hr.turn hstep) hret'
    cases hcourse hji (Nat.le_of_lt hi) with
    | ahead asleep | reached asleep => exact absurd (asleep i hji le_rfl) hawake
    | released before _ _ releases => exact ⟨_, before, releases⟩

/-! ## Two runs -/

def Instr.wait? : Instr → Option (Nat × Nat)
  | .wait a ticks => some (a, ticks)
  | _ => none

def Instr.readies : Instr → Bool
  | .act (.markReady _) => true
  | _ => false

namespace Machine

variable {m : Machine} {t : ThreadId} {i : Instr}

theorem begins_wait {a ticks : Nat} (ht : m.thread? = some t)
    (hw : m.beginning?.bind Instr.wait? = some (a, ticks)) : Begins t (.wait a ticks) m := by
  obtain ⟨i, hi, hw⟩ := Option.bind_eq_some_iff.1 hw
  cases i <;> cases hw
  exact begins_of_beginning ht hi

theorem reticent_of_beginning (h : m.beginning?.all (fun i => !i.readies) = true) :
    m.Reticent := by
  rintro a target ha ⟨hfresh, rest, hcode⟩
  rw [beginning?, ha, Option.bind_some, if_pos hfresh, hcode] at h
  cases h

/-- All timers are alarms, the clock is not at its end, and no thread is made ready by a program. -/
def tame (m : Machine) : Bool :=
  m.handlers.all (fun x => x.alarm?.isSome) && m.beginning?.all (fun i => !i.readies) &&
    m.system.kernel.clock.nextTick ≤ maxTime

theorem tame_run {n : Nat} (h : throughout tame n m = true) :
    (∀ i ≤ n, ¬ (run i m).1.Bears) ∧ (∀ i < n, (run i m).1.Reticent) ∧
      ∀ i ≤ n, (run i m).1.system.kernel.clock.nextTick ≤ maxTime := by
  have htame : ∀ i ≤ n, (run i m).1.tame = true := fun i hi => of_throughout h hi
  simp only [tame, Bool.and_eq_true, decide_eq_true_eq] at htame
  refine ⟨fun i hi => ?_, fun i hi => reticent_of_beginning (htame i (Nat.le_of_lt hi)).1.2,
    fun i hi => (htame i hi).2⟩
  rintro ⟨left, body, hx⟩
  have hsome := List.all_eq_true.1 (htame i hi).1.1 _ hx
  cases hsome

/-- A thread waits at an alarm while another one works. -/
def napPrograms : List Program :=
  [⟨"sleeper", [.wait 0 15]⟩, ⟨"worker", [.yield, .yield, .yield]⟩]

def napMain : List Action := [.newAlarm, .spawn 0, .spawn 1, .run]

def napSettings : Settings := ⟨.priority, none, 10, 7⟩

/-- The first interrupt comes too early, the second one late. -/
theorem execution_nap_late : ∃ (n : Nat) (ms : Nat → Machine), Execution n ms ∧
    (∀ i ≤ n, ¬ (ms i).Bears) ∧ (∀ i < n, (ms i).Reticent) ∧
    (∀ i < n, (ms i).Enlisted ⟨1⟩ → (ms i).Loose ⟨1⟩) ∧
    (∀ i ≤ n, (ms i).system.kernel.clock.nextTick ≤ maxTime) ∧
    Begins ⟨1⟩ (.wait 0 15) (ms 6) ∧
    (((ms 6).system.kernel.now, (ms 13).system.kernel.now, (ms 20).system.kernel.now) =
      (0, 14, 21) ∧
    ((ms 20).system.asleep ⟨1⟩, (ms 21).system.asleep ⟨1⟩) = (1, 0)) ∧ 21 < n ∧
    ∃ last, IsLeast {x | (ms 6).system.kernel.clock.interval ∣ x ∧
        (ms 6).system.kernel.now < x ∧ (ms 6).system.kernel.now + 15 ≤ x} last ∧
      Nap n ms ⟨1⟩ 0 15 6 last := by
  have hrun : (Kernel.start .counting napSettings).toOption.any (fun k =>
      let m := fun i => (run i (start k napPrograms napMain)).1
      (run 30 (m 0)).2 = .unfinished ∧ throughout tame 30 (m 0) ∧
        (m 6).thread? = some ⟨1⟩ ∧ (m 6).beginning?.bind Instr.wait? = some (0, 15) ∧
        ((m 6).system.kernel.now, (m 13).system.kernel.now, (m 20).system.kernel.now) =
          (0, 14, 21) ∧
        ((m 20).system.asleep ⟨1⟩, (m 21).system.asleep ⟨1⟩) = (1, 0)) = true := by
    decide +kernel
  have hp : ∀ p ∈ napPrograms, Instr.plainList p.code = true := by decide
  have hm : Action.plainList napMain = true := by decide
  obtain ⟨k, hk, hrun⟩ := exists_start hrun
  obtain ⟨hn, htame, hthread, hwait, htimes, hasleep⟩ := of_decide_eq_true hrun
  have hexec := execution_run hk hn
  obtain ⟨hbears, hreticent, hticks⟩ := tame_run htame
  have hloose : ∀ i < 30, (run i (start k napPrograms napMain)).1.Enlisted ⟨1⟩ →
      (run i (start k napPrograms napMain)).1.Loose ⟨1⟩ := fun i _ =>
    ((start_orderly hk hp hm).steps (steps_run i _)).1.loose
  have hbegins := begins_wait hthread hwait
  have hmax : (run 6 (start k napPrograms napMain)).1.system.kernel.now + 15 ≤ maxTime := by
    rw [(Prod.mk.inj htimes).1]
    decide
  have hnap := execution_nap hexec hbears hreticent hloose hticks hbegins hmax
  exact ⟨30, _, hexec, hbears, hreticent, hloose, hticks, hbegins, ⟨htimes, hasleep⟩, by decide,
    hnap⟩

/-- A thread sleeps at an alarm, and another one puts it on the queue of those that join it. -/
def strayPrograms : List Program :=
  [⟨"sleeper", [.wait 0 1000]⟩, ⟨"stranger", [.act (.atomic (.waitOn ⟨2⟩ (.named ⟨1⟩)))]⟩]

def straySettings : Settings := ⟨.priority, none, 100, 1⟩

/-- A sleeper on the queue of a thread wakes with its end, long before the deadline. -/
theorem nap_cut_short : ∃ (n : Nat) (ms : Nat → Machine), Execution n ms ∧
    (∀ i ≤ n, ¬ (ms i).Bears) ∧ (∀ i < n, (ms i).Reticent) ∧
    (∀ i ≤ n, (ms i).system.kernel.clock.nextTick ≤ maxTime) ∧
    Begins ⟨1⟩ (.wait 0 1000) (ms 6) ∧ 6 < n ∧
    ((ms 6).system.kernel.now, (ms n).system.kernel.now) = (0, 2) ∧
    (Actor.thread ⟨1⟩, 2, "wait") ∈
      (ms n).system.events.map fun e => (e.actor, e.time, e.instr.word) := by
  have hrun : (Kernel.start .counting straySettings).toOption.any (fun k =>
      let m := fun i => (run i (start k strayPrograms napMain)).1
      (run 16 (m 0)).2 = .unfinished ∧ throughout tame 16 (m 0) ∧
        (m 6).thread? = some ⟨1⟩ ∧ (m 6).beginning?.bind Instr.wait? = some (0, 1000) ∧
        ((m 6).system.kernel.now, (m 16).system.kernel.now) = (0, 2) ∧
        (Actor.thread ⟨1⟩, 2, "wait") ∈
          (m 16).system.events.map fun e => (e.actor, e.time, e.instr.word)) = true := by
    decide +kernel
  obtain ⟨k, hk, hrun⟩ := exists_start hrun
  obtain ⟨hn, htame, hthread, hwait, htimes, hlog⟩ := of_decide_eq_true hrun
  obtain ⟨hbears, hreticent, hticks⟩ := tame_run htame
  exact ⟨16, _, execution_run hk hn, hbears, hreticent, hticks, begins_wait hthread hwait,
    by decide, htimes, hlog⟩

end Machine
end ThreadKernel
