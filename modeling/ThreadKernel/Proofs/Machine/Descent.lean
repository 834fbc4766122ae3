import Mathlib.Algebra.Order.BigOperators.Group.Finset
import Mathlib.Data.Prod.Lex
import ThreadKernel.Proofs.Machine.Alarms
import ThreadKernel.Proofs.Machine.Effort

/-!
# ThreadKernel.Proofs.Machine.Descent

Why the run loop comes to an end. A step of a program leaves less to do. Between such steps the loop
waits for the earliest deadline, which comes closer with each jump of the clock, and the steps from
one jump to the next are counted by the handlers that are left to call.

* `Machine.Shift`   — what a step makes of the programs.
* `Machine.Bounded` — no program of the machine loops as long as a variable says.
* `Machine.effort`  — what all programs have left to do.
* `Machine.delay`   — how far away all deadlines are.
* `Machine.rank`    — the place in an iteration of the run loop.
* `Move.descends`   — every step takes the three of them down, the first one first.
-/

namespace ThreadKernel

open Kernel (SameThreads Places Loses)

/-- The program that the frame executes. -/
def Frame.activation? : Frame → Option Activation
  | .program _ a => some a
  | .thread d => some d.task.coroutine
  | _ => none

/-- A yield point that suspends its thread says so. -/
theorem Kernel.pollPoint_yielded {k k' : Kernel Activation} {t : ThreadId} {p p' : YieldPoint}
    (ht : (k.registry.get? t).isSome) (h : k.pollPoint t p = (false, p', k')) :
    p'.yielded = true := by
  unfold pollPoint YieldPoint.poll at h
  split at h
  · rename_i hnone
    rw [hnone] at ht
    cases ht
  · obtain ⟨hready, hrest⟩ := Prod.mk.inj h
    obtain ⟨rfl, -⟩ := Prod.mk.inj hrest
    split at hready
    · cases hready
    · rename_i hsuspends
      rw [if_neg hsuspends]
      split <;> rfl

namespace Machine

variable {m m' : Machine} {price : Nat → Nat}

/-! ## What becomes of the programs -/

theorem Move.programs (h : Move m m') : m'.system.programs = m.system.programs := by
  cases h with
  | works _ code | executes _ code => exact (System.stepCode_grows code).programs
  | calls _ same | passes _ _ same | skipsAlarm _ _ same => rw [same]
  | parks _ _ _ _ _ _ system | retires _ _ _ system | dispatches _ _ _ _ system
  | waits _ _ _ system =>
    rw [system]
    rfl
  | interrupts _ _ system | rings _ _ _ system | delivered _ system
  | returns _ _ _ _ system => rw [system]

/-- The programs that are being executed, the one that goes on first. -/
def activations (m : Machine) : List Activation := m.stack.filterMap Frame.activation?

/-- A thread goes on, or the main program does. -/
def Labours (m m' : Machine) : Prop :=
  m.thread?.isSome ∨ ∃ a below, m'.stack = .program .main a :: below

inductive Shift (m m' : Machine) : Prop where
  | advances {a a' : Activation} {l : List Activation} (before : m.activations = a :: l)
      (advances : a.Bounded → a.Advances a') (staffs : m.system.Staffs a m'.system)
      (after : m'.activations = a' :: l)
  | parks {a : Activation} {l : List Activation} {t : ThreadId} {p p' : YieldPoint} {r : Resume}
      (executes : m.executing? = some a) (before : m.activations = a :: l) (code : a.code ≠ [])
      (stage : a.stage = .suspended p r) (new : p.yielded = false) (yielded : p'.yielded = true)
      (empty : m.system.kernel.pending? t = none)
      (places : Places t (some { a with stage := .suspended p' r }) m.system.kernel
        m'.system.kernel) (after : m'.activations = l)
  | retires {a : Activation} {l : List Activation} {t : ThreadId}
      (before : m.activations = a :: l) (loses : Loses t m.system.kernel m'.system.kernel)
      (after : m'.activations = l)
  | dispatches {a : Activation} {l : List Activation} {t : ThreadId} (idle : ¬ Labours m m')
      (before : m.activations = l) (had : m.system.kernel.pending? t = some a)
      (places : Places t none m.system.kernel m'.system.kernel) (after : m'.activations = a :: l)
  | loops (idle : ¬ Labours m m') (threads : SameThreads m.system.kernel m'.system.kernel)
      (same : m'.activations = m.activations)

theorem Move.shift (h : Move m m') (hk : m.system.kernel.table.Sound) : Shift m m' := by
  have hloops : SameThreads m.system.kernel m'.system.kernel →
      m'.stack.filterMap Frame.activation? = m.stack.filterMap Frame.activation? →
      ¬ Labours m m' → Shift m m' := fun ht hs hl => .loops hl ht hs
  cases h with
  | works stack code after | executes stack code after =>
    exact .advances (by rw [activations, stack]; rfl) (System.stepCode_advances · code)
      (System.stepCode_staffs hk code) (by rw [activations, after]; rfl)
  | parks stack code stage new poll park system after =>
    have hpoll := Kernel.poll_sameThreads poll
    obtain ⟨hplaces, hempty⟩ := Kernel.park_places park
    have hyielded :=
      Kernel.pollPoint_yielded (Kernel.mem_living.1 (hpoll.living ▸ hplaces.alive)) poll
    refine .parks (by rw [executing?, stack]) (by rw [activations, stack]; rfl) code stage new
      hyielded ((congrFun hpoll.pending _).symm.trans hempty) ?_ (by rw [activations, after])
    rw [system]
    exact hplaces.within hpoll (.of_registry rfl)
  | @retires d _ _ stack _ finish system after =>
    have hloses : Loses d.thread m.system.kernel m'.system.kernel :=
      (Kernel.finish_loses finish).within (.of_registry (by rw [System.restoreAll_eq]; rfl))
        (.of_registry (by rw [system]; rfl))
    exact .retires (by rw [activations, stack]; rfl) hloses (by rw [activations, after])
  | dispatches stack choose dispatch _ system after =>
    have hchoose := Kernel.choose_sameThreads choose
    obtain ⟨hplaces, hhad⟩ := Kernel.dispatch_places dispatch
    refine .dispatches ?_ rfl ((congrFun hchoose.pending _).symm.trans hhad) ?_
      (by rw [activations, activations, after, stack]; rfl)
    · simp [Labours, thread?, stack, after]
    · rw [system]
      exact hplaces.within hchoose (.of_registry rfl)
  | returns stack choose code _ system after =>
    refine .advances (by rw [activations, stack]; rfl) (fun _ => .completes code rfl rfl)
      (.same ?_) (by rw [activations, after]; rfl)
    rw [system]
    exact (Kernel.choose_sameThreads choose).trans (.of_registry rfl)
  | calls stack same after | passes stack _ same after | skipsAlarm stack _ same after =>
    refine hloops (.of_registry (by rw [same])) ?_ ?_
    · rw [stack, after]
      rfl
    · simp [Labours, thread?, stack, after]
  | interrupts stack _ system after | delivered stack system after =>
    refine hloops (.of_registry (by rw [system]; rfl)) ?_ ?_
    · rw [stack, after]
      rfl
    · simp [Labours, thread?, stack, after]
  | rings stack _ release system after =>
    refine hloops (by rw [system]; exact Kernel.release_sameThreads release) ?_ ?_
    · rw [stack, after]
      rfl
    · simp [Labours, thread?, stack, after]
  | waits stack choose _ system after =>
    refine hloops ?_ ?_ ?_
    · rw [system]
      exact (Kernel.choose_sameThreads choose).trans (.of_registry rfl)
    · rw [stack, after]
      rfl
    · simp [Labours, thread?, stack, after]

/-! ## Bounded programs -/

structure Bounded (m : Machine) : Prop where
  programs : ∀ x ∈ m.system.programs, Instr.boundedList x.code = true
  tasks : ∀ t a, m.system.kernel.pending? t = some a → a.Bounded
  frames : ∀ a ∈ m.activations, a.Bounded

/-- Tasks stay bounded if only one is replaced by a bounded one. -/
theorem bounded_update {pending pending' : ThreadId → Option Activation} {t : ThreadId}
    {o : Option Activation} (h : ∀ t a, pending t = some a → a.Bounded)
    (hu : pending' = Function.update pending t o) (ho : ∀ a ∈ o, a.Bounded) :
    ∀ t a, pending' t = some a → a.Bounded := by
  subst hu
  intro u a ha
  by_cases hut : u = t
  · subst hut
    exact ho a ((Function.update_self u o pending).symm.trans ha)
  · exact h u a ((Function.update_of_ne hut o pending).symm.trans ha)

theorem Bounded.step (hb : m.Bounded) (h : Shift m m')
    (hp : m'.system.programs = m.system.programs) : m'.Bounded := by
  obtain ⟨hprograms, htasks, hframes⟩ := hb
  have hframes' : ∀ {a l}, m.activations = a :: l → a.Bounded ∧ ∀ a ∈ l, a.Bounded := fun e =>
    List.forall_mem_cons.1 (e ▸ hframes)
  rw [← hp] at hprograms
  cases h with
  | advances before advances staffs after =>
    obtain ⟨ha, hl⟩ := hframes' before
    have ha' := (advances ha).bounded ha
    refine ⟨hprograms, ?_, by rw [after]; exact List.forall_mem_cons.2 ⟨ha', hl⟩⟩
    cases staffs with
    | same threads =>
      rw [threads.pending]
      exact htasks
    | spawns _ named gains =>
      refine bounded_update htasks gains.pending fun a ha => ?_
      cases ha
      exact .of_fresh (hprograms _ (hp ▸ List.mem_of_getElem? named)) rfl
  | parks _ before code _ _ _ _ places after =>
    obtain ⟨ha, hl⟩ := hframes' before
    refine ⟨hprograms, bounded_update htasks places.pending fun a ha' => ?_, after ▸ hl⟩
    cases ha'
    exact ⟨ha.code, fun he => absurd he code⟩
  | retires before loses after =>
    refine ⟨hprograms, bounded_update htasks loses.pending fun a ha => ?_, ?_⟩
    · cases ha
    · rw [after]
      exact (hframes' before).2
  | @dispatches a l t _ before had places after =>
    refine ⟨hprograms, bounded_update htasks places.pending fun a ha => ?_, ?_⟩
    · cases ha
    · rw [after]
      exact List.forall_mem_cons.2 ⟨htasks t a had, before ▸ hframes⟩
  | loops _ threads same => exact ⟨hprograms, threads.pending ▸ htasks, same ▸ hframes⟩

/-! ## Effort -/

def effort (price : Nat → Nat) (m : Machine) : Nat :=
  m.system.kernel.effort price + (m.activations.map (Activation.effort price)).sum

/-- Suspending takes its time as well. -/
theorem effort_suspends (price : Nat → Nat) {a : Activation} {p p' : YieldPoint} {r : Resume}
    (hc : a.code ≠ []) (hs : a.stage = .suspended p r) (hnew : p.yielded = false)
    (hy : p'.yielded = true) :
    Activation.effort price { a with stage := .suspended p' r } < a.effort price := by
  obtain ⟨i, rest, hcode⟩ := List.exists_cons_of_ne_nil hc
  rw [Activation.effort_suspended hcode hs,
    Activation.effort_suspended (a := { a with stage := .suspended p' r }) hcode rfl, hnew, hy]
  simp only [if_true, Bool.false_eq_true, if_false]
  omega

/-- The loop itself does none of the work, and neither programs nor threads are put back. -/
theorem Shift.effort (h : Shift m m') (hb : m.Bounded) (hp : Affords price m.system.programs) :
    m'.effort price < m.effort price ∨ ¬ Labours m m' ∧ m'.effort price = m.effort price := by
  simp only [Machine.effort]
  cases h with
  | @advances a a' l before advances staffs after =>
    have ha : a.Bounded := hb.frames a (before ▸ List.mem_cons_self)
    have hlt := staffs.effort (advances ha) hp
    simp only [before, after, List.map_cons, List.sum_cons]
    exact .inl (by omega)
  | parks _ before code stage new yielded empty places after =>
    have hlt := effort_suspends price code stage new yielded
    have hplaces := places.effort price
    rw [empty] at hplaces
    simp only [before, after, List.map_cons, List.sum_cons, Option.elim_none,
      Option.elim_some] at hplaces ⊢
    exact .inl (by omega)
  | @retires a l t before loses after =>
    have hle := loses.effort_le price
    have hpos := a.effort_pos price
    simp only [before, after, List.map_cons, List.sum_cons]
    exact .inl (by omega)
  | dispatches idle before had places after =>
    have hplaces := places.effort price
    rw [had] at hplaces
    simp only [before, after, List.map_cons, List.sum_cons, Option.elim_none,
      Option.elim_some] at hplaces ⊢
    exact .inr ⟨idle, by omega⟩
  | loops idle threads same => exact .inr ⟨idle, by rw [threads.effort, same]⟩

end Machine

/-! ## Deadlines -/

/-- How far away the deadline is: from the present, if the alarm is about to be called, and else
from the next interrupt, which is yet to come. -/
def Sleeper.delay (clock : Clock) (due : Bool) (s : Sleeper) : Nat :=
  if due then s.wakeTime - clock.now else s.wakeTime - clock.nextTick + 1

theorem Sleeper.delay_late {clock : Clock} {s : Sleeper} (he : clock.now < clock.nextTick)
    (hs : clock.now < s.wakeTime) (due : Bool) : s.delay clock due ≤ s.delay clock true := by
  cases due
  · simp only [delay, Bool.false_eq_true, if_false, if_true]
    omega
  · exact Nat.le_refl _

namespace Alarm

def delay (clock : Clock) (due : Bool) (a : Alarm) : Nat :=
  (a.sleepers.map (Sleeper.delay clock due)).sum

variable {a : Alarm} {clock : Clock}

/-- What is due now does not depend on the next interrupt. -/
theorem delay_now {clock' : Clock} (h : clock'.now = clock.now) :
    delay clock' true = delay clock true := by
  have hsleeper : Sleeper.delay clock' true = Sleeper.delay clock true := by
    funext s
    simp only [Sleeper.delay, if_true, h]
  funext a
  rw [delay, delay, hsleeper]

/-- Whoever sleeps on is late enough to wait for the next interrupt. -/
theorem delay_rest (h : a.Ordered) (he : clock.now < clock.nextTick) (due : Bool) :
    ({ a with sleepers := a.rest clock.now } : Alarm).delay clock due ≤ a.delay clock true := by
  simp only [delay, rest_eq h]
  induction a.sleepers with
  | nil => exact Nat.le_refl _
  | cons s l ih =>
    rw [List.map_cons, List.sum_cons]
    by_cases hlate : clock.now < s.wakeTime
    · rw [List.filter_cons_of_pos (by simpa using hlate), List.map_cons, List.sum_cons]
      exact Nat.add_le_add (Sleeper.delay_late he hlate due) ih
    · rw [List.filter_cons_of_neg (by simpa using hlate)]
      exact Nat.le_trans ih (Nat.le_add_left _ _)

/-- A jump to the next interrupt brings all deadlines closer. -/
theorem delay_fastForward (he : clock.now < clock.nextTick) :
    a.delay clock.fastForward true + a.sleepers.length = a.delay clock false := by
  simp only [delay]
  induction a.sleepers with
  | nil => rfl
  | cons s l ih =>
    have hs : s.delay clock.fastForward true + 1 = s.delay clock false := by
      simp only [Sleeper.delay, (Clock.fastForward_now he).1, if_true, Bool.false_eq_true, if_false]
    rw [List.map_cons, List.map_cons, List.sum_cons, List.sum_cons, List.length_cons, ← hs, ← ih]
    omega

end Alarm

/-- The handler calls the alarm. -/
def Handler.rings (i : Nat) : Handler → Bool
  | .alarm j => i == j
  | .routine _ _ => false

namespace Machine

variable {m m' : Machine} {price : Nat → Nat} {i : Nat}

/-- Whether the alarm is to be called before the clock jumps again. -/
def isDue (i : Nat) (m : Machine) : Bool :=
  match m.stack with
  | .delivery _ _ waiting :: _ => waiting.any (Handler.rings i)
  | _ => decide (m.system.kernel.clock.nextTick ≤ m.system.kernel.clock.now)

def delayAt (m : Machine) (i : Nat) : Nat :=
  m.system.alarms[i]?.elim 0 (Alarm.delay m.system.kernel.clock (m.isDue i))

def delay (m : Machine) : Nat := ∑ i ∈ Finset.range m.system.alarms.length, m.delayAt i

/-- The place in an iteration of the run loop: how many steps there are at most until a program goes
on or the clock jumps. -/
def rank (m : Machine) : Nat :=
  match m.stack with
  | .program _ _ :: _ => m.system.handlers.length + 5
  | .loop .tick :: _ => m.system.handlers.length + 4
  | .delivery _ _ waiting :: _ => waiting.length + 3
  | .loop .choose :: _ => 2
  | _ => 1

theorem delayAt_congr (ha : m'.system.alarms = m.system.alarms)
    (hc : m'.system.kernel.clock = m.system.kernel.clock) (hd : m'.isDue i = m.isDue i) :
    m'.delayAt i = m.delayAt i := by
  rw [delayAt, delayAt, ha, hc, hd]

theorem delay_le (hl : m'.system.alarms.length = m.system.alarms.length)
    (h : ∀ i < m.system.alarms.length, m'.delayAt i ≤ m.delayAt i) : m'.delay ≤ m.delay := by
  rw [delay, delay, hl]
  exact Finset.sum_le_sum fun i hi => h i (Finset.mem_range.1 hi)

theorem Flat.looping (h : m.Flat) {phase : Phase} {below : List Frame}
    (hs : m.stack = .loop phase :: below) :
    m.system.Enrolled m.system.handlers ∧ (phase = .choose → m.system.Early) := by
  cases h with
  | program | thread | delivery => cases hs
  | loop enrolled _ early =>
    cases hs
    exact ⟨enrolled, early⟩

theorem Flat.delivering (h : m.Flat) {previous : Level} {called waiting : List Handler}
    {below : List Frame} (hs : m.stack = .delivery previous called waiting :: below) :
    m.system.Early := by
  cases h with
  | program | loop | thread => cases hs
  | delivery _ _ _ early => exact early

/-- An interrupt calls all alarms. -/
theorem delay_interrupts {clock : Clock} {below : List Frame} (h : m.Flat)
    (stack : m.stack = .loop .tick :: below)
    (taken : m.system.kernel.clock.takeTick? = some clock)
    (system : m'.system = { m.system with
      kernel := { m.system.kernel.enter with clock := clock }, handlers := [] })
    (after : m'.stack =
      .delivery m.system.kernel.level [] m.system.handlers :: .loop .choose :: below) :
    m'.delay ≤ m.delay := by
  obtain ⟨htick, hnow, -⟩ := Clock.takeTick_cases taken
  refine delay_le (by rw [system]) fun i hi => Nat.le_of_eq ?_
  have hdue : m.isDue i = true := by
    simp only [isDue, stack, decide_eq_true_eq]
    omega
  have hdue' : m'.isDue i = true := by
    simp only [isDue, after]
    exact List.any_eq_true.2 ⟨_, (h.looping stack).1 i hi, beq_self_eq_true i⟩
  simp only [delayAt, hdue, hdue', system, Alarm.delay_now hnow]

/-- Alarms that were called do not keep whoever is due. -/
theorem delay_rings {previous : Level} {called waiting : List Handler} {below : List Frame}
    {alarm alarm' : Alarm} {k : Kernel Activation} (h : m.Flat) (ht : m.system.Timetabled)
    (stack : m.stack = .delivery previous called (.alarm i :: waiting) :: below)
    (named : m.system.alarms[i]? = some alarm)
    (release : alarm.release m.system.kernel = .ok (alarm', k))
    (system : m'.system =
      { m.system with kernel := k, alarms := m.system.alarms.set i alarm' })
    (after : m'.stack = .delivery previous (called ++ [.alarm i]) waiting :: below) :
    m'.delay ≤ m.delay := by
  refine delay_le (by rw [system, List.length_set]) fun j hj => ?_
  have hclock : k.clock = m.system.kernel.clock := (release_steady release).clock
  have halarm : alarm' = { alarm with sleepers := alarm.rest m.system.kernel.clock.now } :=
    (Alarm.release_ok release).2
  by_cases hji : j = i
  · subst hji
    have hdue : m.isDue j = true := by
      simp only [isDue, stack]
      exact List.any_eq_true.2 ⟨_, List.mem_cons_self, beq_self_eq_true j⟩
    simp only [delayAt, system, hclock, List.getElem?_set_self hj, named, Option.elim_some, hdue,
      halarm]
    exact Alarm.delay_rest (ht alarm (List.mem_of_getElem? named)) (h.delivering stack) _
  · have hdue : m'.isDue j = m.isDue j := by
      simp only [isDue, stack, after, List.any_cons, Handler.rings, beq_false_of_ne hji,
        Bool.false_or]
    simp only [delayAt, system, hclock, List.getElem?_set_ne (Ne.symm hji), hdue]
    exact Nat.le_refl _

/-- If nobody is ready, somebody's deadline comes closer. -/
theorem delay_waits {k : Kernel Activation} {below : List Frame} (h : m.Flat) (hb : ¬ m.Bears)
    (stack : m.stack = .loop .choose :: below)
    (choose : m.system.kernel.chooseThread = .ok (none, k))
    (pending : m.system.hasPendingTimers = true)
    (system : m'.system = m.system.withKernel { k with clock := k.clock.fastForward })
    (after : m'.stack = .loop .tick :: below) : m'.delay < m.delay := by
  have hclock : k.clock = m.system.kernel.clock := (choose_steady choose).clock
  have hearly : m.system.Early := (h.looping stack).2 rfl
  have hdue : ∀ i, m.isDue i = false := fun i => by
    simp only [isDue, stack, decide_eq_false_iff_not, Nat.not_le]
    exact hearly
  have hdue' : ∀ i, m'.isDue i = true := fun i => by
    obtain ⟨hnow, hnext, -⟩ := Clock.fastForward_now hearly
    simp only [isDue, after, system, System.withKernel, hclock, hnow, hnext, decide_eq_true_eq]
    exact Nat.le_refl _
  have hat : ∀ i, m'.delayAt i + m.system.alarms[i]?.elim 0 (·.sleepers.length) = m.delayAt i := by
    intro i
    simp only [delayAt, hdue, hdue', system, System.withKernel, hclock]
    cases m.system.alarms[i]? with
    | none => rfl
    | some a => exact Alarm.delay_fastForward hearly
  obtain ⟨a, ha, hsleep⟩ : ∃ a ∈ m.system.alarms, a.sleepers ≠ [] := by
    by_contra hnone
    simp only [not_exists, not_and, not_not] at hnone
    refine absurd (System.not_pending hnone fun x hx => ?_) (by rw [pending]; decide)
    cases x with
    | alarm i => exact ⟨i, rfl⟩
    | routine n body => exact absurd ⟨n, body, List.mem_append_left _ hx⟩ hb
  obtain ⟨i, hi, hai⟩ := List.mem_iff_getElem.1 ha
  have hpos : 0 < m.system.alarms[i]?.elim 0 (·.sleepers.length) := by
    rw [List.getElem?_eq_getElem hi, hai]
    exact List.length_pos_iff.2 hsleep
  have hlength : m'.system.alarms.length = m.system.alarms.length := by rw [system]; rfl
  rw [delay, delay, hlength]
  refine Finset.sum_lt_sum (fun j _ => by have := hat j; omega) ⟨i, Finset.mem_range.2 hi, ?_⟩
  have := hat i
  omega

/-- If no program goes on, the clock jumps, or the loop takes another step of its iteration. -/
theorem Move.delay_rank (h : Move m m') (hf : m.Flat) (hb : ¬ m.Bears)
    (ht : m.system.Timetabled) (hl : ¬ Labours m m') :
    m'.delay < m.delay ∨ m'.delay ≤ m.delay ∧ m'.rank < m.rank := by
  have hsame : m'.system.alarms = m.system.alarms →
      m'.system.kernel.clock = m.system.kernel.clock →
      (∀ i < m.system.alarms.length, m'.isDue i = m.isDue i) → m'.rank < m.rank →
      m'.delay < m.delay ∨ m'.delay ≤ m.delay ∧ m'.rank < m.rank := fun ha hc hd hr =>
    .inr ⟨delay_le (by rw [ha]) fun i hi => Nat.le_of_eq (delayAt_congr ha hc (hd i hi)), hr⟩
  cases h with
  | works _ _ after | returns _ _ _ _ _ after => exact absurd (.inr ⟨_, _, after⟩) hl
  | executes stack | parks stack | retires stack =>
    exact absurd (.inl (by rw [thread?, stack]; rfl)) hl
  | calls stack same after | passes stack _ same after =>
    refine hsame (by rw [same]) (by rw [same]) (fun i _ => ?_) ?_
    · simp only [isDue, stack, after, same]
    · simp only [rank, stack, after, same]
      omega
  | interrupts stack taken system after =>
    refine .inr ⟨delay_interrupts hf stack taken system after, ?_⟩
    simp only [rank, stack, after]
    omega
  | skipsAlarm stack unnamed same after =>
    refine hsame (by rw [same]) (by rw [same]) (fun j hj => ?_) ?_
    · have hne : j ≠ _ := Nat.ne_of_lt (Nat.lt_of_lt_of_le hj (List.getElem?_eq_none_iff.1 unnamed))
      simp only [isDue, stack, after, List.any_cons, Handler.rings, beq_false_of_ne hne,
        Bool.false_or]
    · simp only [rank, stack, after, List.length_cons]
      omega
  | rings stack named release system after =>
    refine .inr ⟨delay_rings hf ht stack named release system after, ?_⟩
    simp only [rank, stack, after, List.length_cons]
    omega
  | delivered stack system after =>
    refine hsame (by rw [system]) (by rw [system]; rfl) (fun i _ => ?_) ?_
    · have hearly : m.system.kernel.clock.now < m.system.kernel.clock.nextTick :=
        hf.delivering stack
      simp only [isDue, stack, after, List.any_nil, system, decide_eq_false_iff_not, Nat.not_le]
      exact hearly
    · simp only [rank, stack, after, List.length_nil]
      omega
  | dispatches stack choose dispatch _ system after =>
    have hclock : m'.system.kernel.clock = m.system.kernel.clock := by
      rw [system]
      exact (dispatch_clock dispatch).1.trans (choose_steady choose).clock
    refine hsame (by rw [system]; rfl) hclock (fun i _ => ?_) ?_
    · simp only [isDue, stack, after, hclock]
    · simp only [rank, stack, after]
      omega
  | waits stack choose pending system after =>
    exact .inl (delay_waits hf hb stack choose pending system after)

/-- What is left to do, then the deadlines, then the rest of the iteration. -/
def height (price : Nat → Nat) (m : Machine) : Nat ×ₗ Nat ×ₗ Nat :=
  toLex (m.effort price, toLex (m.delay, m.rank))

theorem Move.descends (h : Move m m') (hr : m.Regular) (hf : m.Flat) (hb : ¬ m.Bears)
    (ht : m.system.Timetabled) (hbounded : m.Bounded) (hp : Affords price m.system.programs) :
    m'.height price < m.height price := by
  rw [height, height, Prod.Lex.toLex_lt_toLex, Prod.Lex.toLex_lt_toLex]
  rcases (h.shift hr.sane.sound).effort hbounded hp with hlt | ⟨hidle, heq⟩
  · exact .inl hlt
  · refine .inr ⟨heq, ?_⟩
    rcases h.delay_rank hf hb ht hidle with hlt | ⟨hle, hlt⟩
    · exact .inl hlt
    · exact (Nat.lt_or_eq_of_le hle).imp_right fun e => ⟨e, hlt⟩

end Machine
end ThreadKernel
