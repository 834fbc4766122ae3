import ThreadKernel.Proofs.Machine.Exclusion

/-!
# ThreadKernel.Proofs.Machine.Sleepers

Conditions wake exactly those that sleep on them. All that is asked of programs is that they leave
the queue of the condition to the condition, and give it to nobody else.

* `Machine.SleepTurn`   — what a step does with the sleepers of a condition.
* `Sleeps`, `WokenAt`   — one sleep of a thread, and the wake that ended its wait.
* `Rendezvous`          — no wake is lost, and no sleep ends without one.
* `execution_rendezvous` — every condition is such a meeting point.
* `sleep_ends_unwoken`   — one whose queue is also that of another condition is not.
-/

namespace ThreadKernel

open Kernel (Alters Apart Serves Empties)

namespace Machine

/-- The thread is suspended within its first instruction, `i`. -/
def Suspended (t : ThreadId) (i : Instr) (m : Machine) : Prop :=
  ∃ a rest p r, m.activation? t = some a ∧ a.code = i :: rest ∧ a.stage = .suspended p r

/-- The holder of the lock of a condition is about to wake one of the sleepers, or all of them. -/
def Wakes (c : Nat) (x : Condition) (m : Machine) : Prop :=
  ∃ u, (Begins u (.act (.wake c)) m ∨ Begins u (.act (.wakeAll c)) m) ∧
    m.holder? x.lock = some u

/-- What a step does with the sleepers of the condition `x` under the index `c`. -/
inductive SleepTurn (c : Nat) (x : Condition) (m m' : Machine) : Prop where
  | apart (waiting : ∀ u, m'.system.kernel.table.waitingQueue u = some x.queue ↔
      m.system.kernel.table.waitingQueue u = some x.queue)
  | sleeps {t : ThreadId} (begins : Begins t (.sleep c) m)
      (waiting : ∀ u, m'.system.kernel.table.waitingQueue u = some x.queue ↔
        u = t ∨ m.system.kernel.table.waitingQueue u = some x.queue)
  | wakes (wakes : m.Wakes c x)
      (waiting : ∀ u, m'.system.kernel.table.waitingQueue u = some x.queue →
        m.system.kernel.table.waitingQueue u = some x.queue)

variable {m m' : Machine} {c : Nat} {x : Condition} {t : ThreadId}

theorem Affects.condition (h : Affects x.queue m m') (hr : m.system.Reserves x.queue)
    (hx : m.system.conditions[c]? = some x) : SleepTurn c x m m' := by
  cases h with
  | none waiting => exact .apart waiting
  | deal stack _ _ _ deal =>
    have hone : ∀ {j : Nat} {y : Condition}, m.system.conditions[j]? = some y →
        y.queue = x.queue → j = c ∧ y = x := by
      intro j y hy hq
      cases hr.condition hy hx hq rfl
      rw [hx] at hy
      cases hy
      exact ⟨rfl, rfl⟩
    cases deal with
    | apart queue => exact .apart (Apart.waiting_iff queue)
    | takes _ lock own | waits _ lock own | passes _ _ lock own =>
      exact absurd rfl (hr.apart lock hx own)
    | sleeps thread begins condition own _ queue =>
      cases thread
      obtain ⟨rfl, rfl⟩ := hone condition own
      exact .sleeps ⟨_, _, stack, rfl, begins⟩ fun u => by simpa using queue.waiting u
    | wakes thread begins condition own lock held queue =>
      cases thread
      obtain ⟨rfl, rfl⟩ := hone condition own
      exact .wakes ⟨_, .inl ⟨_, _, stack, rfl, begins⟩, (holder?_eq lock).trans held⟩
        fun u hu => ((queue.waiting u).1 hu).1
    | wakesAll thread begins condition own lock held queue =>
      cases thread
      obtain ⟨rfl, rfl⟩ := hone condition own
      refine .wakes ⟨_, .inr ⟨_, _, stack, rfl, begins⟩, (holder?_eq lock).trans held⟩
        fun u hu => ?_
      rw [queue.waiting] at hu
      split at hu
      · cases hu
      · exact hu

/-- Nobody waits for a condition that is new. -/
theorem Turn.condition_unwaited (h : Turn m m') (hk : m.system.kernel.table.Sound)
    (hn : m.system.conditions[c]? = none) (hx : m'.system.conditions[c]? = some x) :
    ∀ u, m'.system.kernel.table.waitingQueue u ≠ some x.queue := by
  cases h with
  | program _ code | thread _ code =>
    exact (System.stepCode_creates code).condition_unwaited hk hn hx
  | parks _ code _ system =>
    obtain ⟨_, _, _, _, _, -, -, -, -, -, rfl⟩ := System.stepCode_park code
    rw [system] at hx
    exact nomatch hn.symm.trans hx
  | retires _ _ _ system | dispatches _ _ _ system =>
    rw [system] at hx
    exact nomatch hn.symm.trans hx
  | alarm _ _ _ same | chooses _ _ _ same | quiet _ _ same =>
    rw [same.conditions] at hx
    exact nomatch hn.symm.trans hx

/-- A thread begins no instruction while it is suspended within one. -/
theorem Suspended.not_begins {i j : Instr} (h : m.Suspended t i) : ¬ Begins t j m := by
  rintro ⟨d, below, hstack, rfl, hfresh, -⟩
  obtain ⟨a, rest, p, r, ha, -, hs⟩ := h
  rw [activation?_self hstack] at ha
  cases ha
  rw [hfresh] at hs
  cases hs

/-- A thread suspended in a sleep was so before, or has just begun it. -/
theorem Suspended.before (h : m'.Suspended t (.sleep c)) (hc : m.Coherent) (ht : Turn m m') :
    m.Suspended t (.sleep c) ∨ Begins t (.sleep c) m := by
  obtain ⟨a', rest, p, r, ha, hcode, hs⟩ := h
  cases ht.origin hc.toRegular ha with
  | fresh stage =>
    rw [stage] at hs
    cases hs
  | kept _ before => exact .inl ⟨a', rest, p, r, before, hcode, hs⟩
  | @goes d below own stack code =>
    subst own
    cases System.stepCode_leads hc.sane code with
    | goesOn _ fresh =>
      rw [fresh] at hs
      cases hs
    | completes hcomp =>
      rw [hcomp.fresh] at hs
      cases hs
    | suspends same =>
      rw [same] at hcode
      cases hstage : d.task.coroutine.stage with
      | fresh => exact .inr ⟨d, below, stack, rfl, hstage, rest, hcode⟩
      | suspended p' r' =>
        exact .inl ⟨_, rest, p', r', activation?_self stack, hcode, hstage⟩
  | @parks a p₁ p₂ r₁ _ before stage now =>
    subst now
    exact .inl ⟨a, rest, p₁, r₁, before, hcode, stage⟩

end Machine

open Machine (Begins Completes)

/-- The thread is at `i` within the sleep that it began at the step `j`. -/
structure Sleeps (ms : Nat → Machine) (c : Nat) (t : ThreadId) (j i : Nat) : Prop where
  before : j < i
  begins : Begins t (.sleep c) (ms j)
  lasts : ∀ m, j < m → m ≤ i → (ms m).Suspended t (.sleep c)

/-- The thread is enqueued at all times from `j` to `i`. -/
def Waits (ms : Nat → Machine) (x : Condition) (t : ThreadId) (j i : Nat) : Prop :=
  ∀ m, j < m → m ≤ i → (ms m).system.kernel.table.waitingQueue t = some x.queue

/-- The step `k`, a wake by the holder of the lock, is the only one between `j` and `i` that takes
the thread from the queue. -/
structure WokenAt (ms : Nat → Machine) (c : Nat) (x : Condition) (t : ThreadId) (j k i : Nat) :
    Prop where
  after : j < k
  before : k < i
  asleep : Waits ms x t j k
  wakes : (ms k).Wakes c x
  awake : ∀ m, k < m → m ≤ i → (ms m).system.kernel.table.waitingQueue t ≠ some x.queue

/-- How far a sleep has come: the thread waits still, or was woken. -/
def Asleep (ms : Nat → Machine) (c : Nat) (x : Condition) (t : ThreadId) (i : Nat) : Prop :=
  ∃ j, Sleeps ms c t j i ∧ (Waits ms x t j i ∨ ∃ k, WokenAt ms c x t j k i)

variable {ms : Nat → Machine} {c i : Nat} {x : Condition} {t : ThreadId}

theorem Waits.next {j : Nat} (h : Waits ms x t j i)
    (hw : (ms (i + 1)).system.kernel.table.waitingQueue t = some x.queue) :
    Waits ms x t j (i + 1) := by
  intro m hj hm
  rcases Nat.lt_or_eq_of_le hm with hm | rfl
  · exact h m hj (by omega)
  · exact hw

theorem WokenAt.next {j k : Nat} (h : WokenAt ms c x t j k i)
    (hw : (ms (i + 1)).system.kernel.table.waitingQueue t ≠ some x.queue) :
    WokenAt ms c x t j k (i + 1) := by
  have hk := h.before
  refine ⟨h.after, by omega, h.asleep, h.wakes, fun m hj hm => ?_⟩
  rcases Nat.lt_or_eq_of_le hm with hm | rfl
  · exact h.awake m hj (by omega)
  · exact hw

/-- A sleep goes on. -/
theorem Asleep.next (h : Asleep ms c x t i)
    (ht : Machine.SleepTurn c x (ms i) (ms (i + 1)))
    (hs : (ms (i + 1)).Suspended t (.sleep c)) : Asleep ms c x t (i + 1) := by
  obtain ⟨j, hsleeps, hcase⟩ := h
  have hj := hsleeps.before
  have hlasts : Sleeps ms c t j (i + 1) := by
    refine ⟨by omega, hsleeps.begins, fun m hjm hm => ?_⟩
    rcases Nat.lt_or_eq_of_le hm with hm | rfl
    · exact hsleeps.lasts m hjm (by omega)
    · exact hs
  have hbusy : ¬ Begins t (.sleep c) (ms i) := (hsleeps.lasts i hj le_rfl).not_begins
  refine ⟨j, hlasts, ?_⟩
  rcases hcase with hw | ⟨k, hk⟩
  · by_cases hnow : (ms (i + 1)).system.kernel.table.waitingQueue t = some x.queue
    · exact .inl (hw.next hnow)
    · have hwas := hw i hj le_rfl
      cases ht with
      | apart waiting => exact absurd ((waiting t).2 hwas) hnow
      | sleeps _ waiting => exact absurd ((waiting t).2 (.inr hwas)) hnow
      | wakes wakes _ =>
        refine .inr ⟨i, hj, by omega, hw, wakes, fun m hm hm' => ?_⟩
        obtain rfl : m = i + 1 := by omega
        exact hnow
  · refine .inr ⟨k, hk.next fun hnow => ?_⟩
    have hwas := hk.awake i hk.before le_rfl
    cases ht with
    | apart waiting => exact hwas ((waiting t).1 hnow)
    | sleeps begins waiting =>
      rcases (waiting t).1 hnow with rfl | h
      · exact hbusy begins
      · exact hwas h
    | wakes _ waiting => exact hwas (waiting t hnow)

/-- The condition under the index `c` is a meeting point in the run `ms` of `n` steps. -/
structure Rendezvous (c n : Nat) (ms : Nat → Machine) : Prop where
  /-- The step in which the holder of the lock gives it up to sleep also enqueues it. -/
  sleep : ∀ i < n, ∀ t, Begins t (.sleep c) (ms i) → ∃ x L,
    (ms i).system.conditions[c]? = some x ∧ (ms i).system.locks[x.lock]? = some L ∧
      L.holder = some t ∧
      (ms (i + 1)).holder? x.lock = (ms i).system.kernel.table.chosen L.queue ∧
      (ms (i + 1)).system.kernel.table.waitingQueue t = some x.queue
  /-- From then on it stays enqueued until a wake takes it from the queue. -/
  asleep : ∀ i ≤ n, ∀ t, (ms i).Suspended t (.sleep c) →
    ∃ x, (ms i).system.conditions[c]? = some x ∧ Asleep ms c x t i
  /-- A sleep that returns was ended by one wake, and returns with the lock. -/
  returned : ∀ i < n, ∀ t, Completes t (.sleep c) (ms i) (ms (i + 1)) →
    ∃ x, (ms i).system.conditions[c]? = some x ∧ (ms (i + 1)).holder? x.lock = some t ∧
      ∃ j k, Sleeps ms c t j i ∧ WokenAt ms c x t j k i
  /-- A wake announces the sleeper that the policy selects, if there is one. -/
  wake : ∀ i < n, ∀ u, Begins u (.act (.wake c)) (ms i) → ∃ x,
    (ms i).system.conditions[c]? = some x ∧ (ms i).holder? x.lock = some u ∧
      Serves x.queue (ms i).system.kernel (ms (i + 1)).system.kernel
  /-- A wake of all announces each sleeper once, and leaves the queue to nobody. -/
  wakeAll : ∀ i < n, ∀ u, Begins u (.act (.wakeAll c)) (ms i) → ∃ x,
    (ms i).system.conditions[c]? = some x ∧ (ms i).holder? x.lock = some u ∧
      Empties x.queue (ms i).system.kernel (ms (i + 1)).system.kernel

namespace Execution

variable {n : Nat}

theorem guarded (h : Execution n ms)
    (hp : ∀ i < n, ∀ x, (ms i).system.conditions[c]? = some x → (ms i).Private x.queue)
    (hi : i ≤ n) (hx : (ms i).system.conditions[c]? = some x) : (ms i).Guarded x.queue := by
  induction i generalizing x with
  | zero =>
    obtain ⟨_, _, k, programs, main, -, hm⟩ := h.start
    rw [hm] at hx
    cases hx
  | succ i ih =>
    have hc := h.coherent (i := i) (by omega)
    obtain ⟨m, g, -, hturn, hm⟩ := h.next hi hc
    rw [hm] at hx ⊢
    have hx : m.system.conditions[c]? = some x := hx
    refine Machine.Guarded.reseed ?_ g
    cases hbefore : (ms i).system.conditions[c]? with
    | none => exact .of_unwaited (hturn.condition_unwaited hc.sane.sound hbefore hx)
    | some y =>
      rw [getElem?_of_isPrefix hturn.conditions hbefore] at hx
      cases hx
      exact ((ih (by omega) hbefore).next hc.toRegular (hp i hi _ hbefore) hturn).1

theorem sleepTurn (h : Execution n ms)
    (hp : ∀ i < n, ∀ x, (ms i).system.conditions[c]? = some x → (ms i).Private x.queue)
    (hi : i < n) (hx : (ms i).system.conditions[c]? = some x) :
    Machine.SleepTurn c x (ms i) (ms (i + 1)) := by
  have hc := h.coherent (i := i) (by omega)
  obtain ⟨m, g, -, hturn, hm⟩ := h.next hi hc
  have hpriv := hp i hi x hx
  have haffects := ((h.guarded hp (by omega) hx).next hc.toRegular hpriv hturn).2
  rw [hm]
  cases haffects.condition hpriv.reserves hx with
  | apart waiting => exact .apart waiting
  | sleeps begins waiting => exact .sleeps begins waiting
  | wakes wakes waiting => exact .wakes wakes waiting

/-- Whoever sleeps is enqueued or was woken. -/
theorem asleep (h : Execution n ms)
    (hp : ∀ i < n, ∀ x, (ms i).system.conditions[c]? = some x → (ms i).Private x.queue)
    (hi : i ≤ n) (hs : (ms i).Suspended t (.sleep c)) :
    ∃ x, (ms i).system.conditions[c]? = some x ∧ Asleep ms c x t i := by
  induction i with
  | zero =>
    obtain ⟨_, _, k, programs, main, hk, hm⟩ := h.start
    obtain ⟨a, -, -, -, ha, -⟩ := hs
    rw [hm, Machine.start_activation? hk] at ha
    cases ha
  | succ i ih =>
    have hc := h.coherent (i := i) (by omega)
    obtain ⟨m, g, hstep, hturn, hm⟩ := h.next hi hc
    have hs' : m.Suspended t (.sleep c) := by
      rw [hm] at hs
      exact hs
    have hkeep : ∀ {x}, (ms i).system.conditions[c]? = some x →
        (ms (i + 1)).system.conditions[c]? = some x := fun hx => by
      rw [hm]
      exact getElem?_of_isPrefix hturn.conditions hx
    rcases hs'.before hc hturn with hbefore | hb
    · obtain ⟨x, hx, hasleep⟩ := ih (by omega) hbefore
      exact ⟨x, hkeep hx, hasleep.next (h.sleepTurn hp hi hx) hs⟩
    · obtain ⟨x, L, hx, -, -, -, hw⟩ := hb.sleep hstep hc.toRegular
      have hsleeps : Sleeps ms c t i (i + 1) := by
        refine ⟨by omega, hb, fun j hj hj' => ?_⟩
        obtain rfl : j = i + 1 := by omega
        exact hs
      refine ⟨x, hkeep hx, i, hsleeps, .inl fun j hj hj' => ?_⟩
      obtain rfl : j = i + 1 := by omega
      rw [hm]
      exact hw

/-- A sleep does not return while the thread is enqueued. -/
theorem sleep_returns (h : Execution n ms)
    (hp : ∀ i < n, ∀ x, (ms i).system.conditions[c]? = some x → (ms i).Private x.queue)
    (hi : i < n) (hr : Completes t (.sleep c) (ms i) (ms (i + 1))) :
    ∃ x, (ms i).system.conditions[c]? = some x ∧ (ms (i + 1)).holder? x.lock = some t ∧
      ∃ j k, Sleeps ms c t j i ∧ WokenAt ms c x t j k i := by
  have hc := h.coherent (i := i) (by omega)
  obtain ⟨m, g, -, hturn, hm⟩ := h.next hi hc
  have hr' : Completes t (.sleep c) (ms i) m := by
    rw [hm] at hr
    exact hr
  obtain ⟨d, a', below, rest, hstack, rfl, hcode, -, hcomp⟩ := hr'.cases hturn hc.toRegular
  cases hstage : d.task.coroutine.stage with
  | fresh => exact absurd ⟨hstage, rest, hcode⟩ (hcomp.slept c)
  | suspended p r =>
    obtain ⟨x, hx, j, hsleeps, hcase⟩ := h.asleep hp (by omega)
      ⟨_, rest, p, r, Machine.activation?_self hstack, hcode, hstage⟩
    have hheld : (ms (i + 1)).holder? x.lock = some d.thread := by
      rw [hm]
      refine hr'.holder hturn hc fun a rest hfits hcode hslept => ?_
      obtain ⟨y, hy, hasks⟩ := hfits.sleep_asks hcode (hslept c)
      rw [hx] at hy
      cases hy
      exact hasks
    refine ⟨x, hx, hheld, j, ?_⟩
    rcases hcase with hw | ⟨k, hk⟩
    · obtain ⟨-, r', hr'⟩ := ((h.guarded hp (by omega) hx).running d below hstack
        (hw i hsleeps.before le_rfl)).1
      have hy := hcomp.passed p r hstage
      rw [hstage] at hr'
      cases hr'
      cases hy
    · exact ⟨k, hsleeps, hk⟩

end Execution

/-- Every condition is a meeting point, if nobody else has its queue and programs leave it to the
condition. -/
theorem execution_rendezvous {n : Nat} (h : Execution n ms)
    (hp : ∀ i < n, ∀ x, (ms i).system.conditions[c]? = some x → (ms i).Private x.queue) :
    Rendezvous c n ms := by
  refine ⟨fun i hi t hb => ?_, fun i hi t hs => h.asleep hp hi hs, fun i hi t hr =>
    h.sleep_returns hp hi hr, fun i hi u hb => ?_, fun i hi u hb => ?_⟩
  all_goals
    have hc := h.coherent (i := i) (by omega)
    obtain ⟨m, g, hstep, -, hm⟩ := h.next hi hc
  · obtain ⟨x, L, hx, hl, hheld, hl', hw⟩ := hb.sleep hstep hc.toRegular
    rw [hm]
    exact ⟨x, L, hx, hl, hheld, Machine.holder?_eq hl', hw⟩
  · obtain ⟨x, L, hx, hl, hheld, hserves⟩ := hb.wake hstep fun x hx =>
      (h.guarded hp (by omega) hx).poised_of_begins hc.toRegular (hp i hi x hx) hb
    rw [hm]
    exact ⟨x, hx, (Machine.holder?_eq hl).trans hheld, Machine.serves_reseed hserves g⟩
  · obtain ⟨x, L, hx, hl, hheld, hempties⟩ := hb.wakeAll hstep fun x hx =>
      (h.guarded hp (by omega) hx).poised_of_begins hc.toRegular (hp i hi x hx) hb
    rw [hm]
    exact ⟨x, hx, (Machine.holder?_eq hl).trans hheld, Machine.empties_reseed hempties g⟩

namespace Machine

/-- The sleeper is woken while another thread holds the lock, and returns once it is released. -/
theorem execution_rendezvous_woken : ∃ (n : Nat) (ms : Nat → Machine), Execution n ms ∧
    (∀ i < n, ∀ x, (ms i).system.conditions[0]? = some x → (ms i).Private x.queue) ∧
    ((ms 13).system.kernel.table.waitingQueue ⟨1⟩, (ms 14).system.kernel.table.waitingQueue ⟨1⟩,
      (ms 14).holder? 0, (ms 28).holder? 0) = (some ⟨2⟩, none, some ⟨2⟩, some ⟨1⟩) ∧
    28 < n ∧ Rendezvous 0 n ms := by
  have hrun : (Kernel.start .counting rendezvousSettings).toOption.any (fun k =>
      let ms := fun i => (run i (start k rendezvousPrograms rendezvousMain)).1
      (run 29 (ms 0)).2 = .unfinished ∧
        ((ms 13).system.kernel.table.waitingQueue ⟨1⟩, (ms 14).system.kernel.table.waitingQueue ⟨1⟩,
          (ms 14).holder? 0, (ms 28).holder? 0) = (some ⟨2⟩, none, some ⟨2⟩, some ⟨1⟩)) = true := by
    decide +kernel
  have hp : ∀ p ∈ rendezvousPrograms, Instr.plainList p.code = true := by decide
  have hm : Action.plainList rendezvousMain = true := by decide
  obtain ⟨k, hk, hrun⟩ := exists_start hrun
  obtain ⟨hn, hfacts⟩ := of_decide_eq_true hrun
  have hexec := execution_run hk hn
  have hpriv : ∀ i < 29, ∀ x,
      (run i (start k rendezvousPrograms rendezvousMain)).1.system.conditions[0]? = some x →
        (run i (start k rendezvousPrograms rendezvousMain)).1.Private x.queue :=
    fun i _ x hx => private_run hk hp hm i ⟨_, System.mem_uses_condition hx, rfl⟩
  exact ⟨29, _, hexec, hpriv, hfacts, by decide, execution_rendezvous hexec hpriv⟩

end Machine

/-! ## A queue of two conditions -/

/-- The condition that the instruction sleeps on. -/
def Instr.sleep? : Instr → Option Nat
  | .sleep c => some c
  | _ => none

/-- The condition whose sleepers the instruction wakes. -/
def Instr.wakes? : Instr → Option Nat
  | .act (.wake c) | .act (.wakeAll c) => some c
  | _ => none

namespace Machine

variable {m m' : Machine} {c : Nat} {t : ThreadId}

theorem completes_sleep (h : Turn m m') (hr : m.Regular) (hrun : m.thread? = some t)
    (hi : m.underway?.bind Instr.sleep? = some c)
    (hlogs : m'.system.events.length ≠ m.system.events.length) : Completes t (.sleep c) m m' := by
  obtain ⟨i, hi, hc⟩ := Option.bind_eq_some_iff.1 hi
  cases i <;> cases hc
  exact completes_of_underway h hr hrun hi hlogs

/-- The next instruction is plain and wakes nobody from the condition under the index `c`, unless
there is no such condition yet. The lock under the index `l` is free or the thread's. -/
def leavesCondition (c l : Nat) (t : ThreadId) (m : Machine) : Bool :=
  (m.beginning?.all Instr.plain || m.system.conditions[c]?.isNone) &&
    m.beginning?.all (fun i => i.wakes? ≠ some c) && (m.holder? l).all (· = t)

theorem leavesCondition_spec {l : Nat} (h : leavesCondition c l t m = true) :
    (∀ x, m.system.conditions[c]? = some x → m.Leaves x.queue) ∧
      (∀ u, ¬ Begins u (.act (.wake c)) m ∧ ¬ Begins u (.act (.wakeAll c)) m) ∧
      ∀ u, m.holder? l = some u → u = t := by
  simp only [leavesCondition, Bool.and_eq_true] at h
  obtain ⟨⟨hleaves, hwakes⟩, hholder⟩ := h
  refine ⟨fun x hx => leaves_of_beginning_or_isNone hleaves hx x.queue,
    fun u => ⟨fun hb => ?_, fun hb => ?_⟩, fun u hu => ?_⟩
  · simp [hb.beginning.2, Instr.wakes?] at hwakes
  · simp [hb.beginning.2, Instr.wakes?] at hwakes
  · rw [hu] at hholder
    exact of_decide_eq_true hholder

/-- The queue of a condition is destroyed by its number, which goes to a condition of another
lock. -/
def mistakenPrograms : List Program :=
  [⟨"sleeper", [.acquire 1, .sleep 1]⟩, ⟨"waker", [.acquire 0, .act (.wake 0)]⟩]

def mistakenMain : List Action :=
  [.newLock, .newLock, .newCondition 0, .destroyQueue ⟨3⟩, .newCondition 1, .spawn 0, .spawn 1,
    .run]

/-- Nobody wakes the sleepers of the second condition, and nobody but the sleeper ever has its lock,
but the sleep returns. -/
theorem sleep_ends_unwoken : ∃ (n : Nat) (ms : Nat → Machine), Execution n ms ∧
    (∀ i ≤ n, ∀ x, (ms i).system.conditions[1]? = some x → (ms i).Leaves x.queue) ∧ 20 < n ∧
    Completes ⟨1⟩ (.sleep 1) (ms 20) (ms 21) ∧
    (∀ i ≤ n, ∀ u, ¬ Begins u (.act (.wake 1)) (ms i) ∧ ¬ Begins u (.act (.wakeAll 1)) (ms i)) ∧
    (∀ i ≤ n, ∀ u, (ms i).holder? 1 = some u → u = ⟨1⟩) ∧ ¬ Rendezvous 1 n ms := by
  have hrun : (Kernel.start .counting rendezvousSettings).toOption.any (fun k =>
      let ms := fun i => (run i (start k mistakenPrograms mistakenMain)).1
      (run 21 (ms 0)).2 = .unfinished ∧ throughout (leavesCondition 1 1 ⟨1⟩) 21 (ms 0) ∧
        (ms 20).thread? = some ⟨1⟩ ∧ (ms 20).underway?.bind Instr.sleep? = some 1 ∧
        (ms 21).system.events.length ≠ (ms 20).system.events.length) = true := by
    decide +kernel
  obtain ⟨k, hk, hrun⟩ := exists_start hrun
  obtain ⟨hn, hleaves, hthread, hsleep, hlogs⟩ := of_decide_eq_true hrun
  have hexec := execution_run hk hn
  have hall := fun i (hi : i ≤ 21) => leavesCondition_spec (of_throughout hleaves hi)
  have hreturns : Completes ⟨1⟩ (.sleep 1) (run 20 (start k mistakenPrograms mistakenMain)).1
      (run 21 (start k mistakenPrograms mistakenMain)).1 := by
    have hregular := (hexec.coherent (by decide : 20 ≤ 21)).toRegular
    exact completes_sleep (hregular.turn (step_run hn (by decide))) hregular hthread hsleep hlogs
  refine ⟨21, _, hexec, fun i hi => (hall i hi).1, by decide, hreturns,
    fun i hi => (hall i hi).2.1, fun i hi => (hall i hi).2.2, fun hmeets => ?_⟩
  obtain ⟨x, -, -, j, i, -, hwoken⟩ := hmeets.returned 20 (by decide) _ hreturns
  have hi : i ≤ 21 := Nat.le_of_lt (Nat.lt_trans hwoken.before (by decide))
  obtain ⟨u, hb | hb, -⟩ := hwoken.wakes
  · exact ((hall i hi).2.1 u).1 hb
  · exact ((hall i hi).2.1 u).2 hb

end Machine
end ThreadKernel
