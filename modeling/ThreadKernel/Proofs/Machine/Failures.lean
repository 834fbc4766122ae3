import ThreadKernel.Proofs.Machine.Alarms
import ThreadKernel.Proofs.Machine.Deadlock
import ThreadKernel.Proofs.Machine.Deliveries

/-!
# ThreadKernel.Proofs.Machine.Failures

What a run of the kernel overlooks when it fails. It looks for pending timers in the list of
handlers, and a delivery takes its handlers out of the list until it is over. So a run that one of
these handlers calls can fail although a thread sleeps, whom a later interrupt will release.

* `step_enrolled`      — an alarm keeps its handler, in the list or with a delivery.
* `Failures`           — what a run that fails tells, and who may sleep then.
* `execution_failures` — every run of every execution, called by the main program or by a handler.
-/

namespace ThreadKernel

namespace Machine

variable {m m' : Machine}

/-- A handler that calls an alarm stays the same. -/
theorem mem_of_later {l l' : List Handler} {i : Nat} (h : List.Forall₂ Handler.Later l l')
    (hi : Handler.alarm i ∈ l) : Handler.alarm i ∈ l' := by
  induction h with
  | nil => exact hi
  | @cons x y _ _ hxy _ ih =>
    rcases List.mem_cons.1 hi with rfl | hi
    · cases y with
      | alarm j =>
        obtain rfl : i = j := hxy
        exact List.mem_cons_self
      | routine => exact hxy.elim
    · exact List.mem_cons_of_mem _ (ih hi)

theorem mem_roll {x : Handler} : x ∈ roll m.stack m.system ↔ x ∈ m.handlers := by
  rw [roll, handlers, List.mem_append, List.mem_append, or_comm, List.mem_flatMap, List.mem_flatMap]
  simp only [List.mem_reverse]

/-- A new alarm has its handler in the list. -/
theorem step_enrolls (hr : m.step = .next m') :
    ∀ i < m'.system.alarms.length, i < m.system.alarms.length ∨ .alarm i ∈ m'.system.handlers := by
  obtain ⟨s, stack⟩ := m
  have hsame : m'.system.alarms.length = s.alarms.length →
      ∀ i < m'.system.alarms.length, i < s.alarms.length ∨ .alarm i ∈ m'.system.handlers :=
    fun h i hi => .inl (h ▸ hi)
  unfold Machine.step at hr
  simp only at hr
  split at hr
  · cases hr
  · cases stepProgram_next hr with
    | goes code | parks code | calls code | ends code => exact (System.stepCode_grows code).enrolled
  · cases stepThread_next hr with
    | goes code | parks code | calls code | ends code => exact (System.stepCode_grows code).enrolled
  · cases stepTick_next hr with
    | passes | interrupts => exact hsame rfl
  · exact hsame (congrArg List.length (rings_choose hr))
  · cases stepDelivery_next hr with
    | ends | skips | spent | runs => exact hsame rfl
    | rings => exact hsame List.length_set

theorem step_enrolled (h : m.system.Enrolled m.handlers) (hr : m.step = .next m') :
    m'.system.Enrolled m'.handlers := by
  intro i hi
  rcases step_enrolls hr i hi with hi | hnew
  · rw [← mem_roll]
    exact mem_of_later (step_roll hr) (List.mem_append_left _ (mem_roll.2 (h i hi)))
  · exact List.mem_append_left _ hnew

end Machine

open Machine (Returns Delivering)

/-- Runs that fail, in a run of `n` steps. -/
structure Failures (n : Nat) (ms : Nat → Machine) : Prop where
  /-- Runs fail only with a deadlock. -/
  deadlock : ∀ i < n, ∀ actor f m, Returns actor (.failure f) (ms i) m →
    f.TellsDeadlock m.system.kernel.numThreads m.system.kernel.now
  /-- An alarm has its handler in the list, or with a delivery that is not over. -/
  enrolled : ∀ i ≤ n, (ms i).system.Enrolled (ms i).handlers
  /-- A run fails although a thread sleeps at an alarm only if its caller is, in the end, called by
  the delivery that has the handler of this alarm. -/
  overlooked : ∀ i < n, ∀ actor f m, Returns actor (.failure f) (ms i) m →
    ∀ a alarm, m.system.alarms[a]? = some alarm → alarm.sleepers ≠ [] →
      .alarm a ∉ (ms i).system.handlers ∧ ∃ previous called waiting,
        .delivery previous called waiting ∈ (ms i).stack ∧ .alarm a ∈ called ++ waiting
  /-- Unless an interrupt is being delivered, nobody sleeps when a run fails. -/
  awake : ∀ i < n, ∀ actor f m, Returns actor (.failure f) (ms i) m → ¬ Delivering (ms i).stack →
    ∀ alarm ∈ m.system.alarms, alarm.sleepers = []

namespace Execution

variable {n i : Nat} {ms : Nat → Machine}

theorem enrolled (h : Execution n ms) (hi : i ≤ n) : (ms i).system.Enrolled (ms i).handlers := by
  let P := fun m : Machine => m.system.Enrolled m.handlers
  have hfirst : P (ms 0) := h.of_start fun _ j hj => absurd hj (Nat.not_lt_zero j)
  refine h.invariant hfirst (fun _ _ m g hstep he => ?_) hi
  have hnext : P m := Machine.step_enrolled he hstep
  exact hnext

end Execution

namespace Machine

variable {m m' : Machine} {actor : Actor} {v : Value} {f : Fail} {a : Nat} {alarm : Alarm}

theorem Returns.alarms (h : Returns actor v m m') : m'.system.alarms = m.system.alarms := by
  obtain ⟨k, b, below, -, -, -, hsystem⟩ := h.choice
  rw [hsystem, complete_alarms]
  rfl

theorem Returns.tells (h : Returns actor (.failure f) m m') :
    f.TellsDeadlock m'.system.kernel.numThreads m'.system.kernel.now := by
  obtain ⟨k, b, below, -, -, ⟨-, hok⟩ | ⟨-, -, hfails⟩, hsystem⟩ := h.choice
  · cases hok
  · obtain rfl := Value.failure.inj hfails
    have hthreads : m'.system.kernel.numThreads = k.numThreads := by
      rw [hsystem]
      exact congrArg Registry.size (System.complete_same actor _ b _).registry
    have hnow : m'.system.kernel.now = k.now := by
      rw [hsystem]
      exact congrArg Clock.now (System.complete_grows actor _ b _).kernel.clock
    rw [hthreads, hnow]
    exact Fail.stuck_tells k.numThreads k.now

/-- A run that fails has seen nobody asleep at an alarm whose handler is in the list. -/
theorem Returns.unlisted (h : Returns actor (.failure f) m m')
    (ha : m.system.alarms[a]? = some alarm) (hs : alarm.sleepers ≠ []) :
    Handler.alarm a ∉ m.system.handlers := by
  obtain ⟨k, b, below, -, -, ⟨-, hok⟩ | ⟨-, hpending, -⟩, -⟩ := h.choice
  · cases hok
  · intro hmem
    have hidle := List.any_eq_false.1 hpending _ hmem
    simp only [System.isPending, ha, Alarm.isPending, Bool.not_eq_true, Bool.not_eq_false',
      List.isEmpty_iff] at hidle
    exact hs hidle

end Machine

/-- In every execution a run that fails overlooks nobody, but for the alarms of the deliveries
during which it was called. -/
theorem execution_failures {n : Nat} {ms : Nat → Machine} (h : Execution n ms) : Failures n ms := by
  have hoverlooked : ∀ i < n, ∀ actor f m, Returns actor (.failure f) (ms i) m →
      ∀ a alarm, m.system.alarms[a]? = some alarm → alarm.sleepers ≠ [] →
        .alarm a ∉ (ms i).system.handlers ∧ ∃ previous called waiting,
          .delivery previous called waiting ∈ (ms i).stack ∧ .alarm a ∈ called ++ waiting := by
    intro i hi actor f m hreturns a alarm ha hs
    rw [hreturns.alarms] at ha
    have hunlisted := hreturns.unlisted ha hs
    refine ⟨hunlisted, ?_⟩
    have hmem := h.enrolled (Nat.le_of_lt hi) a (List.getElem?_eq_some_iff.1 ha).1
    rcases List.mem_append.1 hmem with hmem | hmem
    · exact absurd hmem hunlisted
    · obtain ⟨frame, hframe, hmem⟩ := List.mem_flatMap.1 hmem
      cases frame with
      | delivery previous called waiting => exact ⟨previous, called, waiting, hframe, hmem⟩
      | program | thread | loop => cases hmem
  refine ⟨fun i hi actor f m hreturns => hreturns.tells, fun i hi => h.enrolled hi, hoverlooked,
    fun i hi actor f m hreturns hidle alarm hm => ?_⟩
  by_contra hs
  obtain ⟨a, ha, rfl⟩ := List.mem_iff_getElem.1 hm
  obtain ⟨-, _, _, _, hdelivery, -⟩ :=
    hoverlooked i hi actor f m hreturns a _ (List.getElem?_eq_getElem ha) hs
  exact hidle (List.any_eq_true.2 ⟨_, hdelivery, rfl⟩)

namespace Machine

variable {m m' : Machine} {actor : Actor} {v : Value}

/-- A run that leaves threads behind fails. -/
theorem Returns.fails (h : Returns actor v m m') (hn : m'.system.kernel.numThreads ≠ 0) :
    ∃ f, v = .failure f := by
  obtain ⟨k, a, below, -, -, ⟨hempty, -⟩ | ⟨-, -, hfails⟩, hsystem⟩ := h.choice
  · rw [hsystem] at hn
    have hsame := (System.complete_same actor v a (m.system.withKernel k)).registry
    exact absurd ((congrArg Registry.size hsame).trans (beq_iff_eq.1 hempty)) hn
  · exact ⟨_, hfails⟩

/-- A handler runs the kernel while a thread sleeps. -/
def drowsyHandlerPrograms : List Program := [⟨"sleeper", [.wait 0 4]⟩]

def drowsyHandlerMain : List Action := [.newAlarm, .timer 1 [.run], .spawn 0, .run]

def drowsyHandlerSettings : Settings := ⟨.priority, none, 2, 1⟩

/-- The run of the handler fails in the step 15. The thread is released in the step 20, and goes
on. -/
theorem execution_failures_asleep : ∃ (n : Nat) (ms : Nat → Machine) (f : Fail), Execution n ms ∧
    24 < n ∧ Returns .timer (.failure f) (ms 15) (ms 16) ∧ f.errno = 35 ∧
    (ms 16).system.alarms.map Alarm.sleepers = [[⟨4, 0, ⟨1⟩⟩]] ∧
    (ms 21).system.alarms.map Alarm.sleepers = [[]] ∧ (ms 24).thread? = some ⟨1⟩ ∧
    Failures n ms := by
  have hrun : (Kernel.start .counting drowsyHandlerSettings).toOption.any (fun k =>
      let ms := fun i => (run i (start k drowsyHandlerPrograms drowsyHandlerMain)).1
      (run 25 (ms 0)).2 = .unfinished ∧ (ms 15).caller? = some .timer ∧
        ((ms 16).phase? = none ∧ (ms 16).thread? = none) ∧ (ms 16).system.kernel.numThreads ≠ 0 ∧
        (ms 16).system.alarms.map Alarm.sleepers = [[⟨4, 0, ⟨1⟩⟩]] ∧
        (ms 21).system.alarms.map Alarm.sleepers = [[]] ∧ (ms 24).thread? = some ⟨1⟩) = true := by
    decide +kernel
  obtain ⟨k, hk, hrun⟩ := exists_start hrun
  obtain ⟨hn, hcaller, hback, hthreads, hasleep, hreleased, hresumed⟩ := of_decide_eq_true hrun
  have hexec := execution_run hk hn
  obtain ⟨v, hreturns⟩ := exists_returns hcaller (step_run hn (by decide : 15 < 25)) hback
  obtain ⟨f, rfl⟩ := hreturns.fails hthreads
  have hfailures := execution_failures hexec
  have herrno : f.errno = 35 := (hfailures.deadlock 15 (by decide) _ f _ hreturns).errno
  exact ⟨25, _, f, hexec, by decide, hreturns, herrno, hasleep, hreleased, hresumed, hfailures⟩

end Machine
end ThreadKernel
