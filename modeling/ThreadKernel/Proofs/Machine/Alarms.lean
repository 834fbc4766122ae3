import ThreadKernel.Proofs.Alarm
import ThreadKernel.Proofs.Machine.Dozing
import ThreadKernel.Proofs.Machine.Execution

/-!
# ThreadKernel.Proofs.Machine.Alarms

Who sleeps at which alarm. A thread is put on an alarm in the step that begins its wait, and taken
off by a timer interrupt.

* `System.alarmAt`   — an alarm; one that is not created yet has no sleepers.
* `System.deadlines` — until when a thread sleeps at an alarm.
* `Machine.Rings`    — what a step does to the alarms.
* `Machine.Asleep`   — the thread sleeps at one alarm, and nowhere else.
* `Asleep.next`      — it sleeps on, or the timer interrupt makes it ready.
-/

namespace ThreadKernel

namespace System

/-- An alarm. One that is not created yet is like a new one. -/
def alarmAt (i : Nat) (s : System) : Alarm := (s.alarms[i]?).getD .empty

/-- The deadlines until which a thread sleeps at an alarm. -/
def deadlines (t : ThreadId) (i : Nat) (s : System) : List Nat :=
  (s.alarms[i]?).elim [] (Alarm.deadlines t)

/-- All alarms keep their order. -/
def Timetabled (s : System) : Prop := ∀ a ∈ s.alarms, a.Ordered

variable {s s' : System} {t : ThreadId} {i : Nat}

theorem alarmAt_eq {alarm : Alarm} (h : s.alarms[i]? = some alarm) : s.alarmAt i = alarm := by
  rw [alarmAt, h, Option.getD_some]

theorem alarmAt_congr (h : s'.alarms = s.alarms) : s'.alarmAt i = s.alarmAt i := by
  rw [alarmAt, h, alarmAt]

theorem alarmAt_create (h : s'.alarms = s.alarms ++ [.empty]) : s'.alarmAt i = s.alarmAt i := by
  rw [alarmAt, h, alarmAt]
  rcases lt_trichotomy i s.alarms.length with hi | rfl | hi
  · rw [List.getElem?_append_left hi]
  · simp
  · rw [List.getElem?_eq_none (by simp; omega), List.getElem?_eq_none (by omega)]

theorem alarmAt_set {j : Nat} {alarm alarm' : Alarm} (hj : s.alarms[j]? = some alarm)
    (h : s'.alarms = s.alarms.set j alarm') :
    s'.alarmAt i = if i = j then alarm' else s.alarmAt i := by
  rw [alarmAt, h, alarmAt]
  by_cases hij : i = j
  · subst hij
    rw [List.getElem?_set_self (List.getElem?_eq_some_iff.1 hj).1, if_pos rfl, Option.getD_some]
  · rw [List.getElem?_set_ne (Ne.symm hij), if_neg hij]

theorem deadlines_alarmAt (t : ThreadId) (i : Nat) (s : System) :
    s.deadlines t i = (s.alarmAt i).deadlines t := by
  rw [deadlines, alarmAt]
  cases s.alarms[i]? <;> rfl

theorem deadlines_congr (h : s'.alarms = s.alarms) : s'.deadlines t i = s.deadlines t i := by
  rw [deadlines_alarmAt, alarmAt_congr h, deadlines_alarmAt]

theorem deadlines_eq {alarm : Alarm} (h : s.alarms[i]? = some alarm) :
    s.deadlines t i = alarm.deadlines t := by
  rw [deadlines_alarmAt, alarmAt_eq h]

theorem deadlines_create (h : s'.alarms = s.alarms ++ [.empty]) :
    s'.deadlines t i = s.deadlines t i := by
  rw [deadlines_alarmAt, alarmAt_create h, deadlines_alarmAt]

theorem deadlines_set {j : Nat} {alarm alarm' : Alarm} (hj : s.alarms[j]? = some alarm)
    (h : s'.alarms = s.alarms.set j alarm') :
    s'.deadlines t i = if i = j then alarm'.deadlines t else s.deadlines t i := by
  rw [deadlines_alarmAt, alarmAt_set hj h, deadlines_alarmAt]
  exact apply_ite (Alarm.deadlines t) ..

end System

namespace Kernel

/-- A wake is pending for the thread, and it is announced. -/
structure Announced (t : ThreadId) (k : Kernel Activation) : Prop where
  channel : t ∈ k.registry.channel
  signal : ∃ slot, k.registry.get? t = some slot ∧ slot.signal = ⟨true, none⟩

variable {k k' : Kernel Activation} {t u : ThreadId}

theorem markReady_announces
    (hs : ∃ slot, k.registry.get? t = some slot ∧ slot.signal = ⟨false, some t⟩)
    (h : k.markReady t = .ok k') : Announced t k' := by
  obtain ⟨slot, hslot, hsig⟩ := hs
  obtain ⟨-, slot', hslot', rfl⟩ := markReady_ok h
  rw [hslot] at hslot'
  cases hslot'
  have hwake : slot.signal.wake = (some t, ⟨true, none⟩) := by
    rw [hsig]
    rfl
  constructor
  · show t ∈ k.registry.channel ++ slot.signal.wake.1.toList
    rw [hwake]
    exact List.mem_append_right _ (List.mem_singleton_self t)
  · refine ⟨_, (Registry.get?_setSlot _ _ t _).trans (if_pos rfl), ?_⟩
    rw [hwake]

/-- A second wake adds nothing. -/
theorem Announced.markReady (hk : k.Sane) (ha : Announced t k) (h : k.markReady u = .ok k') :
    Announced t k' := by
  obtain ⟨slot, hslot, hsig⟩ := ha.signal
  by_cases hu : u = t
  · subst hu
    obtain ⟨-, slot', hslot', rfl⟩ := markReady_ok h
    rw [hslot] at hslot'
    cases hslot'
    have hwake : slot.signal.wake = (none, ⟨true, none⟩) := by
      rw [hsig]
      rfl
    refine ⟨List.mem_append_left _ ha.channel, _,
      (Registry.get?_setSlot _ _ u _).trans (if_pos rfl), ?_⟩
    rw [hwake]
  · obtain ⟨-, hget, hchannel⟩ := markReady_registry hk h
    exact ⟨(hchannel t (Ne.symm hu)).2 ha.channel, slot, (hget t (Ne.symm hu)).trans hslot, hsig⟩

theorem Announced.wakes {l : List Sleeper} {k : Kernel Activation} (hk : k.Sane)
    (ha : Announced t k) (h : Alarm.Wakes l k k') : Announced t k' := by
  induction h with
  | nobody => exact ha
  | wakes ready _ ih => exact ih ((markReady_steady ready).sane hk) (ha.markReady hk ready)

/-- A thread that has left its waker is announced once its deadline has come. -/
theorem wakeEach_announces (l : List Sleeper) {k : Kernel Activation} (hk : k.Sane)
    (hl : ∃ s ∈ l, s.thread = t)
    (hs : ∃ slot, k.registry.get? t = some slot ∧ slot.signal = ⟨false, some t⟩)
    (h : Alarm.wakeEach l k = .ok k') : Announced t k' := by
  replace h := Alarm.wakeEach_ok h
  induction h with
  | nobody =>
    obtain ⟨s, hs, -⟩ := hl
    cases hs
  | @wakes s l _ _ _ ready rest ih =>
    have hk' := (markReady_steady ready).sane hk
    by_cases hst : s.thread = t
    · subst hst
      exact (markReady_announces hs ready).wakes hk' rest
    · obtain ⟨r, hr, hrt⟩ := hl
      obtain ⟨slot, hslot, hsig⟩ := hs
      have hr : r ∈ l := (List.mem_cons.1 hr).resolve_left fun e => hst (e ▸ hrt)
      exact ih hk' ⟨r, hr, hrt⟩
        ⟨slot, ((markReady_registry hk ready).2.1 t (Ne.symm hst)).trans hslot, hsig⟩

end Kernel

namespace Machine

variable {m m' : Machine} {s : System} {below : List Frame} {t : ThreadId} {j ticks w : Nat}

/-- What a step does to the alarms. -/
inductive Rings (m m' : Machine) : Prop where
  | same (alarms : m'.system.alarms = m.system.alarms)
  | creates (alarms : m'.system.alarms = m.system.alarms ++ [.empty])
  | enlists {t : ThreadId} {j ticks : Nat} {alarm : Alarm} (begins : Begins t (.wait j ticks) m)
      (named : m.system.alarms[j]? = some alarm)
      (alarms : m'.system.alarms =
        m.system.alarms.set j (alarm.push (Clock.after m.system.kernel.now ticks) t))
  | releases {j : Nat} {alarm : Alarm} {previous : Level} {called waiting : List Handler}
      {below : List Frame}
      (calls : m.stack = .delivery previous called (.alarm j :: waiting) :: below)
      (named : m.system.alarms[j]? = some alarm)
      (alarms : m'.system.alarms =
        m.system.alarms.set j { alarm with sleepers := alarm.rest m.system.kernel.now })

theorem complete_alarms (actor : Actor) (v : Value) (a : Activation) (s : System) :
    (s.complete actor v a).2.alarms = s.alarms := by
  unfold System.complete
  split <;> rfl

theorem returnFrom_alarms {v : Value} (h : returnFrom v below s = .next m') :
    m'.system.alarms = s.alarms := by
  cases returnFrom_next h with
  | completes => exact complete_alarms ..
  | drops => rfl

/-- A program that no thread executes cannot wait at an alarm. -/
theorem rings_program {actor : Actor} {a : Activation}
    (hr : Regular ⟨s, .program actor a :: below⟩)
    (hs : stepProgram actor a below s = .next m') : Rings ⟨s, .program actor a :: below⟩ m' := by
  cases stepProgram_next hs with
  | @goes a' s' _ code =>
    have hexec : System.Enlists a s s' := by
      rcases System.stepCode_executes code with ⟨-, hx⟩ | ⟨_, _, _, _, _, -, hcur, -⟩
      · exact hx.alarms
      · exact nomatch hcur.symm.trans hr.current
    cases hexec with
    | same alarms => exact .same alarms
    | creates alarms => exact .creates alarms
    | enlists _ current => exact nomatch current.symm.trans hr.current
  | parks code =>
    obtain ⟨_, _, _, _, _, -, -, -, -, -, rfl⟩ := System.stepCode_park code
    exact .same rfl
  | calls code =>
    obtain ⟨rfl, rfl, -⟩ := System.stepCode_call code
    exact .same rfl
  | ends code =>
    obtain ⟨rfl, rfl, -⟩ := System.stepCode_done code
    exact .same rfl

theorem rings_thread {d : Kernel.Dispatched Activation} (hr : Regular ⟨s, .thread d :: below⟩)
    (hs : stepThread d below s = .next m') : Rings ⟨s, .thread d :: below⟩ m' := by
  cases stepThread_next hs with
  | goes code =>
    have hcur : s.kernel.registry.current = some d.thread := hr.current
    rcases System.stepCode_executes code with ⟨-, hx⟩ | ⟨_, _, _, _, _, hstage, -, -, hx⟩
    · cases hx.alarms with
      | same alarms => exact .same alarms
      | creates alarms => exact .creates alarms
      | enlists begins current named alarms =>
        rw [hcur] at current
        cases current
        exact .enlists ⟨d, below, rfl, rfl, begins⟩ named alarms
    · cases hx.alarms with
      | same alarms => exact .same alarms
      | creates alarms => exact .creates alarms
      | enlists begins =>
        rw [begins.1] at hstage
        cases hstage
  | parks code =>
    obtain ⟨_, _, _, _, _, -, -, -, -, -, rfl⟩ := System.stepCode_park code
    exact .same rfl
  | calls code =>
    obtain ⟨rfl, rfl, -⟩ := System.stepCode_call code
    exact .same rfl
  | ends code =>
    obtain ⟨rfl, rfl, -⟩ := System.stepCode_done code
    exact .same rfl

/-- An alarm that is called releases those that are due. -/
theorem step_calls {previous : Level} {called waiting : List Handler} {alarm : Alarm}
    (hstack : m.stack = .delivery previous called (.alarm j :: waiting) :: below)
    (hnamed : m.system.alarms[j]? = some alarm) (hs : m.step = .next m') :
    Alarm.wakeEach (alarm.due m.system.kernel.now) m.system.kernel = .ok m'.system.kernel ∧
      m'.system.alarms =
        m.system.alarms.set j { alarm with sleepers := alarm.rest m.system.kernel.now } := by
  unfold Machine.step at hs
  rw [hstack] at hs
  cases stepDelivery_next hs with
  | skips missing => exact nomatch hnamed.symm.trans missing
  | rings named release =>
    cases hnamed.symm.trans named
    obtain ⟨hwake, rfl⟩ := Alarm.release_ok release
    exact ⟨hwake, rfl⟩

theorem rings_delivery {previous : Level} {called waiting : List Handler}
    (hs : stepDelivery previous called waiting below s = .next m') :
    Rings ⟨s, .delivery previous called waiting :: below⟩ m' := by
  cases stepDelivery_next hs with
  | @rings i waiting alarm alarm' k named release =>
    have hcalls := step_calls
      (m := ⟨s, .delivery previous called (.alarm i :: waiting) :: below⟩) rfl named hs
    exact .releases rfl named hcalls.2
  | ends | skips | spent | runs => exact .same rfl

theorem rings_choose (hs : stepChoose below s = .next m') :
    m'.system.alarms = s.alarms := by
  cases stepChoose_next hs with
  | dispatches | misses | waits => rfl
  | returns _ _ back => exact (returnFrom_alarms back).trans rfl

theorem Regular.rings (hr : m.Regular) (hs : m.step = .next m') : Rings m m' := by
  obtain ⟨s, stack⟩ := m
  unfold Machine.step at hs
  simp only at hs
  split at hs
  · cases hs
  · exact rings_program hr hs
  · exact rings_thread hr hs
  · cases stepTick_next hs with
    | passes | interrupts => exact .same rfl
  · exact .same (rings_choose hs)
  · exact rings_delivery hs

/-! ## One thread -/

/-- The thread is on the list of an alarm. -/
def Enlisted (t : ThreadId) (m : Machine) : Prop := ∃ i, m.system.deadlines t i ≠ []

/-- The thread sleeps at the alarm `j` until `w`, and nowhere else. -/
structure Asleep (t : ThreadId) (j ticks w : Nat) (m : Machine) : Prop where
  dozes : m.Dozes t (.wait j ticks)
  deadlines : ∀ i, m.system.deadlines t i = if i = j then [w] else []

theorem Asleep.enlisted (h : m.Asleep t j ticks w) : m.Enlisted t :=
  ⟨j, by rw [h.deadlines, if_pos rfl]; simp⟩

theorem Rings.timetabled (h : Rings m m') (hm : m.system.Timetabled) : m'.system.Timetabled := by
  intro a ha
  cases h with
  | same alarms => exact hm a (alarms ▸ ha)
  | creates alarms =>
    rw [alarms] at ha
    rcases List.mem_append.1 ha with ha | ha
    · exact hm a ha
    · rw [List.mem_singleton.1 ha]
      exact Alarm.empty_ordered
  | enlists _ named alarms =>
    rw [alarms] at ha
    rcases List.mem_or_eq_of_mem_set ha with ha | rfl
    · exact hm a ha
    · exact Alarm.push_ordered (hm _ (List.mem_of_getElem? named))
  | releases _ named alarms =>
    rw [alarms] at ha
    rcases List.mem_or_eq_of_mem_set ha with ha | rfl
    · exact hm a ha
    · exact Alarm.rest_ordered (hm _ (List.mem_of_getElem? named))

/-- Nobody is on the list of an alarm but for a wait, and no longer than until its release. -/
theorem Rings.deadlines_kept (h : Rings m m') (hm : m.system.Timetabled)
    (hb : ∀ j ticks, ¬ Begins t (.wait j ticks) m) (hn : ¬ m.Rouses t) (i : Nat) :
    m'.system.deadlines t i = m.system.deadlines t i := by
  cases h with
  | same alarms => exact System.deadlines_congr alarms
  | creates alarms => exact System.deadlines_create alarms
  | @enlists u j ticks alarm begins named alarms =>
    have hne : t ≠ u := by
      rintro rfl
      exact hb j ticks begins
    rw [System.deadlines_set named alarms]
    split
    · rename_i hij
      rw [hij, System.deadlines_eq named, Alarm.deadlines_push_of_ne hne]
    · rfl
  | @releases j alarm _ _ _ _ calls named alarms =>
    have horder := hm _ (List.mem_of_getElem? named)
    rw [System.deadlines_set named alarms]
    split
    · rename_i hij
      rw [hij, System.deadlines_eq named, Alarm.deadlines_rest horder, List.filter_eq_self]
      intro w hw
      by_contra hlate
      refine hn ⟨j, alarm, _, _, _, _, calls, named, (Alarm.exists_due_iff horder).2 ⟨w, hw, ?_⟩⟩
      simpa using hlate
    · rfl

/-- Only those on the list of an alarm are released from it. -/
theorem Rouses.enlisted (h : m.Rouses t) (hm : m.system.Timetabled) : m.Enlisted t := by
  obtain ⟨i, alarm, _, _, _, _, -, hnamed, hdue⟩ := h
  obtain ⟨w, hw, -⟩ := (Alarm.exists_due_iff (hm _ (List.mem_of_getElem? hnamed))).1 hdue
  refine ⟨i, fun hnil => ?_⟩
  rw [System.deadlines_eq hnamed] at hnil
  rw [hnil] at hw
  cases hw

theorem Dozes.not_begins {i k : Instr} (h : m.Dozes t i) : ¬ Begins t k m := by
  rintro ⟨d, below, hstack, rfl, hfresh, -⟩
  obtain ⟨a, _, _, _, _, ha, -, hs, -⟩ := h
  rw [activation?_self hstack] at ha
  cases ha
  rw [hfresh] at hs
  cases hs

theorem Asleep.exists_alarm (h : m.Asleep t j ticks w) :
    ∃ alarm, m.system.alarms[j]? = some alarm ∧ alarm.deadlines t = [w] := by
  have hlist := (h.deadlines j).trans (if_pos rfl)
  cases hj : m.system.alarms[j]? with
  | none =>
    rw [System.deadlines, hj] at hlist
    cases hlist
  | some alarm => exact ⟨alarm, rfl, (System.deadlines_eq hj).symm.trans hlist⟩

/-- An alarm that is called lets nobody sleep on whose deadline is reached. -/
theorem Asleep.not_called (h : m.Asleep t j ticks w) (hm : m.system.Timetabled)
    (hs : m.step = .next m') (hw : w ≤ m.system.kernel.now) (h' : m'.Asleep t j ticks w)
    (previous : Level) (called waiting : List Handler) (below : List Frame) :
    m.stack ≠ .delivery previous called (.alarm j :: waiting) :: below := by
  intro hstack
  obtain ⟨alarm, hnamed, hlist⟩ := h.exists_alarm
  obtain ⟨-, halarms⟩ := step_calls hstack hnamed hs
  have hlist' := h'.deadlines j
  rw [System.deadlines_set hnamed halarms, if_pos rfl, if_pos rfl,
    Alarm.deadlines_rest (hm _ (List.mem_of_getElem? hnamed)), hlist] at hlist'
  have hlate : ¬ m.system.kernel.now < w := by omega
  simp [hlate] at hlist'

/-- Whoever begins to wait is put on the alarm. -/
theorem Begins.enlists (hb : Begins t (.wait j ticks) m) (hr : m.Regular) (hs : m.step = .next m') :
    ∃ alarm, m.system.alarms[j]? = some alarm ∧ m'.system.alarms =
      m.system.alarms.set j (alarm.push (Clock.after m.system.kernel.now ticks) t) := by
  obtain ⟨d, below, rest, a', hstack, rfl, -, -, hgo⟩ := hb.step hs (by simp)
  obtain ⟨alarm, u, halarm, hu, hblocks⟩ := System.beginWait_cases hgo
  rw [hr.current, thread?_eq hstack] at hu
  cases hu
  obtain ⟨-, hgo⟩ := System.blocks_eq hblocks
  injection hgo with _ hsys
  exact ⟨alarm, halarm, congrArg System.alarms hsys⟩

/-- A thread that begins to wait is asleep after that step. -/
theorem Begins.asleep (hb : Begins t (.wait j ticks) m) (hr : m.Regular) (hs : m.step = .next m')
    (hfree : ¬ m.Enlisted t) :
    m'.Asleep t j ticks (Clock.after m.system.kernel.now ticks) := by
  obtain ⟨d, below, hstack, rfl, hfresh, rest, hcode⟩ := hb
  have hcur := hr.current.trans (thread?_eq hstack)
  have hwaits : ∀ {a'}, m'.stack = .thread (holding d a') :: below →
      m.system.stepCode (.thread d.thread) d.task.coroutine = .ok (.go a' m'.system) →
        m'.Asleep d.thread j ticks (Clock.after m.system.kernel.now ticks) := by
    intro a' hafter hgo
    obtain ⟨alarm, u, halarm, hu, hblocks⟩ :=
      System.beginWait_cases ((System.stepCode_fresh hfresh hcode).symm.trans hgo)
    rw [hcur] at hu
    cases hu
    obtain ⟨⟨u, hu, halive⟩, hgo⟩ := System.blocks_eq hblocks
    injection hgo with ha' hsys
    have hu : m.system.kernel.registry.current = some u := hu
    rw [hcur] at hu
    cases hu
    obtain ⟨slot, hslot⟩ := Option.isSome_iff_exists.1 halive
    have hnone : ∀ i, m.system.deadlines d.thread i = [] := fun i =>
      by_contra fun hne => hfree ⟨i, hne⟩
    constructor
    · refine ⟨a', rest, false, m.system.kernel.level, slot, activation?_self hafter, ?_, ?_, ?_,
        .inr ⟨thread?_eq (d := holding d a') hafter, rfl⟩⟩
      · rw [ha']
        exact hcode
      · rw [ha']
        rfl
      · rw [hsys]
        exact hslot
    · intro i
      rw [System.deadlines_set halarm (congrArg System.alarms hsys), hnone i]
      refine if_congr .rfl (Alarm.deadlines_push_self ?_) rfl
      rw [← System.deadlines_eq halarm, hnone j]
  have hbusy : ∀ {P : Prop}, Idle m.stack → P := fun hi =>
    absurd (hstack ▸ List.mem_cons_self) (hi d)
  cases hr.turn hs with
  | program stack =>
    rw [hstack] at stack
    cases stack
  | thread stack code after =>
    rw [hstack] at stack
    cases stack
    exact hwaits after code
  | parks stack code =>
    rw [hstack] at stack
    cases stack
    obtain ⟨_, _, _, _, _, -, hstage, -⟩ := System.stepCode_park code
    rw [hfresh] at hstage
    cases hstage
  | retires stack code =>
    rw [hstack] at stack
    cases stack
    rw [hcode] at code
    cases code
  | alarm idle | chooses idle | dispatches idle | quiet idle => exact hbusy idle

/-- The step makes the thread, which slept at the alarm `j`, ready. -/
structure Releases (t : ThreadId) (j : Nat) (m m' : Machine) : Prop where
  calls : ∃ previous called waiting below,
    m.stack = .delivery previous called (.alarm j :: waiting) :: below
  off : ¬ m'.Enlisted t
  announced : Kernel.Announced t m'.system.kernel

/-- A thread sleeps on until a timer interrupt at its deadline or later makes it ready. -/
theorem Asleep.next (h : m.Asleep t j ticks w) (hr : m.Regular) (hm : m.system.Timetabled)
    (hret : m.Reticent) (hl : m.Loose t) (hs : m.step = .next m') :
    m'.Asleep t j ticks w ∨ w ≤ m.system.kernel.now ∧ Releases t j m m' := by
  by_cases hn : m.Rouses t
  · obtain ⟨i, alarm, previous, called, waiting, below, hstack, hnamed, hdue⟩ := hn
    have horder := hm _ (List.mem_of_getElem? hnamed)
    obtain ⟨hwake, halarms⟩ := step_calls hstack hnamed hs
    obtain ⟨w', hw', hlate⟩ := (Alarm.exists_due_iff horder).1 hdue
    have hlist := h.deadlines i
    rw [System.deadlines_eq hnamed] at hlist
    rw [hlist] at hw'
    split at hw'
    · rename_i hij
      subst hij
      obtain rfl := List.mem_singleton.1 hw'
      obtain ⟨a, _, _, _, slot, -, -, -, hslot, hleft⟩ := h.dozes
      have hidle : m.thread? ≠ some t := by rw [thread?, hstack]; simp
      have hannounced := Kernel.wakeEach_announces _ hr.sane hdue
        ⟨slot, hslot, hleft.resolve_right fun hx => hidle hx.1⟩ hwake
      refine .inr ⟨hlate, ⟨previous, called, waiting, below, hstack⟩, ?_, hannounced⟩
      rintro ⟨k, hk⟩
      refine hk ?_
      rw [System.deadlines_set hnamed halarms]
      split
      · rw [Alarm.deadlines_rest horder, hlist, if_pos rfl]
        simpa using hlate
      · rename_i hne
        rw [h.deadlines, if_neg hne]
    · cases hw'
  · exact .inl ⟨(hr.turn hs).dozes hr hret hl hn h.dozes, fun i => by
      rw [(hr.rings hs).deadlines_kept hm (fun _ _ => h.dozes.not_begins) hn, h.deadlines]⟩

end Machine

/-! ## Programs that use the primitives only -/

namespace Kernel

variable {uses : List Use} {asleep : ThreadId → Nat} {k : Kernel Activation} {t : ThreadId}

theorem Blocked.waiting_of_asleep (h : Blocked uses asleep k t) (ha : 0 < asleep t) :
    k.table.waitingQueue t = none := by
  rcases h.place with ⟨-, hnone⟩ | ⟨hw, -⟩
  · omega
  · exact hw

/-- A sleeper waits on no queue. -/
theorem Placed.waiting_of_asleep {run : Option (ThreadId × Posture)}
    (h : Placed uses asleep run k) (ha : 0 < asleep t) : k.table.waitingQueue t = none := by
  by_cases hrun : run.map Prod.fst = some t
  · obtain ⟨⟨u, p⟩, rfl, rfl⟩ := Option.map_eq_some_iff.1 hrun
    have hplace := h.2.place
    split at hplace
    · exact hplace.waiting_of_asleep ha
    · exact hplace.waiting
  · cases hslot : k.registry.get? t with
    | none => exact (h.1.absent hslot).waiting
    | some slot =>
      cases h.1.standing hrun hslot with
      | ready _ _ hnone => omega
      | announced hw => exact hw
      | parked _ blocked => exact blocked.waiting_of_asleep ha

end Kernel

namespace Machine

variable {m : Machine} {t : ThreadId}

theorem Enlisted.asleep (h : m.Enlisted t) : 0 < m.system.asleep t := by
  obtain ⟨i, hi⟩ := h
  cases hnamed : m.system.alarms[i]? with
  | none =>
    rw [System.deadlines, hnamed] at hi
    exact absurd rfl hi
  | some alarm =>
    rw [System.deadlines_eq hnamed] at hi
    obtain ⟨w, hw⟩ := List.exists_mem_of_ne_nil _ hi
    obtain ⟨s, hs, -⟩ := List.mem_map.1 hw
    obtain ⟨hs, hst⟩ := List.mem_filter.1 hs
    have hcount : 0 < alarm.count t :=
      List.count_pos_iff.2 (List.mem_map.2 ⟨s, hs, of_decide_eq_true hst⟩)
    have hmem : alarm.count t ∈ m.system.alarms.map (Alarm.count t) :=
      List.mem_map.2 ⟨alarm, List.mem_of_getElem? hnamed, rfl⟩
    refine Nat.pos_of_ne_zero fun hzero => ?_
    have hnone := List.sum_eq_zero_iff_forall_eq_nat.1 hzero _ hmem
    omega

theorem Orderly.loose (h : m.Orderly) (he : m.Enlisted t) : m.Loose t := by
  have hw : m.system.kernel.table.waitingQueue t = none := by
    cases h with
    | idle system | running system => exact system.placed.waiting_of_asleep he.asleep
  intro q _ hq
  rw [hw] at hq
  cases hq

end Machine
end ThreadKernel
