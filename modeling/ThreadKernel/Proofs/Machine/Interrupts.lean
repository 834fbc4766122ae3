import ThreadKernel.Proofs.Machine.Timers
import ThreadKernel.Proofs.Machine.Turns

/-!
# ThreadKernel.Proofs.Machine.Interrupts

How time passes while all timers are alarms. An interrupt is due when the clock has reached its next
tick, and the loop delivers it before it chooses another thread.

* `Machine.Interrupted` — the loop is about to deliver a due interrupt.
* `Machine.Passage`     — what a step does to the clock.
* `Flat.passage`        — every step is of one of these kinds.
* `Machine.Punctual`    — away from the beginning of an iteration no interrupt is due.
-/

namespace ThreadKernel

namespace Machine

variable {m m' : Machine} {s : System} {below : List Frame}

/-- The machine is between two dispatches, at the beginning of an iteration of the run loop. -/
def AtTick (m : Machine) : Prop := ∃ below, m.stack = .loop .tick :: below

/-- The machine is delivering an interrupt. -/
def Delivers (m : Machine) : Prop :=
  ∃ previous called waiting below, m.stack = .delivery previous called waiting :: below

/-- The next step begins to deliver an interrupt. -/
def Interrupted (m : Machine) : Prop :=
  m.AtTick ∧ m.system.kernel.clock.nextTick ≤ m.system.kernel.clock.now

instance (m : Machine) : Decidable m.AtTick :=
  match h : m.stack with
  | .loop .tick :: below => .isTrue ⟨below, h⟩
  | [] | .program _ _ :: _ | .thread _ :: _ | .loop .choose :: _ | .delivery _ _ _ :: _ =>
    .isFalse fun ⟨_, htick⟩ => nomatch h.symm.trans htick

instance (m : Machine) : Decidable m.Interrupted := inferInstanceAs (Decidable (_ ∧ _))

/-- Neither of both: a program is executed, or the run loop chooses a thread. -/
def Working (m : Machine) : Prop := ¬ m.AtTick ∧ ¬ m.Delivers

/-- What a step does to the clock. -/
inductive Passage (m m' : Machine) : Prop where
  | works (before : m.Working) (after : ¬ m'.Delivers)
      (clock : m'.system.kernel.clock = m.system.kernel.clock)
  /-- The dispatch of a thread is over. -/
  | charges (before : m.Working) (after : m'.AtTick)
      (clock : m'.system.kernel.clock =
        m.system.kernel.clock.advance m.system.kernel.ticksPerDispatch)
  /-- Nobody is ready. -/
  | skips (before : m.Working) (after : m'.AtTick)
      (clock : m'.system.kernel.clock = m.system.kernel.clock.fastForward)
  /-- No interrupt is due. -/
  | passes (before : m.AtTick) (early : m.system.Early) (after : m'.Working)
      (clock : m'.system.kernel.clock = m.system.kernel.clock)
  | interrupts {previous : Level} {below : List Frame} (before : m.AtTick)
      (taken : m.system.kernel.clock.takeTick? = some m'.system.kernel.clock)
      (after : m'.stack = .delivery previous [] m.system.handlers :: below)
  | calls {previous : Level} {called waiting : List Handler} {x : Handler} {below : List Frame}
      (before : m.stack = .delivery previous called (x :: waiting) :: below)
      (after : m'.stack = .delivery previous (called ++ [x]) waiting :: below)
      (clock : m'.system.kernel.clock = m.system.kernel.clock)
  | delivered {previous : Level} {called : List Handler} {below : List Frame}
      (before : m.stack = .delivery previous called [] :: below) (after : m'.Working)
      (clock : m'.system.kernel.clock = m.system.kernel.clock)

/-- The clock ticks at the same pace, and a dispatch costs the same. -/
structure Steadfast (m m' : Machine) : Prop where
  ticks : m'.system.kernel.ticksPerDispatch = m.system.kernel.ticksPerDispatch
  interval : m'.system.kernel.clock.interval = m.system.kernel.clock.interval

theorem working_of {f : Frame} (h : m.stack = f :: below) (ht : f ≠ .loop .tick)
    (hd : ∀ previous called waiting, f ≠ .delivery previous called waiting) : m.Working := by
  refine ⟨?_, ?_⟩
  · rintro ⟨below', h'⟩
    rw [h] at h'
    cases h'
    exact ht rfl
  · rintro ⟨previous, called, waiting, below', h'⟩
    rw [h] at h'
    cases h'
    exact hd _ _ _ rfl

theorem AtTick.not_delivering (h : m.AtTick) : ¬ m.Delivers := by
  obtain ⟨below, h⟩ := h
  rintro ⟨_, _, _, _, h'⟩
  rw [h] at h'
  cases h'

theorem Steadfast.of_clock (ht : m'.system.kernel.ticksPerDispatch = m.system.kernel.ticksPerDispatch)
    (hc : m'.system.kernel.clock = m.system.kernel.clock) : Steadfast m m' :=
  ⟨ht, congrArg Clock.interval hc⟩

/-- A dispatch that ends is charged. -/
theorem passage_of_charge {k : Kernel Activation} {stack : List Frame} (hw : Working m)
    (hc : k.clock = m.system.kernel.clock)
    (ht : k.ticksPerDispatch = m.system.kernel.ticksPerDispatch) :
    Passage m ⟨s.withKernel k.charge, .loop .tick :: stack⟩ ∧
      Steadfast m ⟨s.withKernel k.charge, .loop .tick :: stack⟩ := by
  have hinterval : k.clock.interval = m.system.kernel.clock.interval := by rw [hc]
  refine ⟨.charges hw ⟨_, rfl⟩ ?_, ht, hinterval⟩
  show k.clock.advance k.ticksPerDispatch = _
  rw [hc, ht]

theorem park_clock {d : Kernel.Dispatched Activation} {k k' : Kernel Activation}
    (h : k.park d = .ok k') : k'.clock = k.clock ∧ k'.ticksPerDispatch = k.ticksPerDispatch := by
  obtain ⟨_, -, -, rfl⟩ := Kernel.park_ok h
  exact ⟨rfl, rfl⟩

theorem finish_clock {d : Kernel.Dispatched Activation} {k k' : Kernel Activation}
    (h : k.finish d = .ok k') : k'.clock = k.clock ∧ k'.ticksPerDispatch = k.ticksPerDispatch := by
  obtain ⟨k₁, hsteady, rfl⟩ := finish_cases h
  exact ⟨hsteady.clock, hsteady.ticks⟩

theorem dispatch_clock {t : ThreadId} {d : Kernel.Dispatched Activation}
    {k k' : Kernel Activation} (h : k.dispatch t = .ok (some (d, k'))) :
    k'.clock = k.clock ∧ k'.ticksPerDispatch = k.ticksPerDispatch := by
  obtain ⟨_, _, -, -, -, rfl⟩ := Kernel.dispatch_ok h
  exact ⟨rfl, rfl⟩

/-- The run loop goes back to the main program. -/
theorem returnFrom_passage {s₀ : System} {stack : List Frame} {v : Value} {a : Activation}
    (hw : Working ⟨s₀, stack⟩) (hg : s₀.Grows s)
    (h : returnFrom v [.program .main a] s = .next m') :
    Passage ⟨s₀, stack⟩ m' ∧ Steadfast ⟨s₀, stack⟩ m' := by
  cases h
  have hg' := hg.trans (System.complete_grows .main v a s)
  exact ⟨.works hw (working_of rfl (by simp) (by simp)).2 hg'.kernel.clock,
    .of_clock hg'.kernel.ticks hg'.kernel.clock⟩

theorem choose_passage {a : Activation} (h : stepChoose [.program .main a] s = .next m') :
    Passage ⟨s, [.loop .choose, .program .main a]⟩ m' ∧
      Steadfast ⟨s, [.loop .choose, .program .main a]⟩ m' := by
  have hw : Working ⟨s, [.loop .choose, .program .main a]⟩ := working_of rfl (by simp) (by simp)
  cases stepChoose_next h with
  | dispatches choose dispatch =>
    obtain ⟨hclock, hticks⟩ := dispatch_clock dispatch
    have hclock := hclock.trans (choose_steady choose).clock
    exact ⟨.works hw (working_of rfl (by simp) (by simp)).2 hclock,
      .of_clock (hticks.trans (choose_steady choose).ticks) hclock⟩
  | misses choose =>
    exact passage_of_charge hw (choose_steady choose).clock (choose_steady choose).ticks
  | @waits k choose =>
    have hclock : k.clock = s.kernel.clock := (choose_steady choose).clock
    have hinterval : k.clock.fastForward.interval = s.kernel.clock.interval := by
      rw [Clock.interval_fastForward, hclock]
    exact ⟨.skips hw ⟨_, rfl⟩ (congrArg Clock.fastForward hclock), (choose_steady choose).ticks,
      hinterval⟩
  | returns choose _ back => exact returnFrom_passage hw (.of_kernel (choose_steady choose)) back

theorem delivery_passage {previous : Level} {called waiting : List Handler} {a : Activation}
    (hb : ¬ Bears ⟨s, [.delivery previous called waiting, .loop .choose, .program .main a]⟩)
    (h : stepDelivery previous called waiting [.loop .choose, .program .main a] s = .next m') :
    Passage ⟨s, [.delivery previous called waiting, .loop .choose, .program .main a]⟩ m' ∧
      Steadfast ⟨s, [.delivery previous called waiting, .loop .choose, .program .main a]⟩ m' := by
  cases stepDelivery_next h with
  | ends => exact ⟨.delivered rfl (working_of rfl (by simp) (by simp)) rfl, .of_clock rfl rfl⟩
  | skips => exact ⟨.calls rfl rfl rfl, .of_clock rfl rfl⟩
  | rings _ release =>
    have hsteady := release_steady release
    exact ⟨.calls rfl rfl hsteady.clock, .of_clock hsteady.ticks hsteady.clock⟩
  | @spent body => exact absurd ⟨0, body, by simp [handlers, Frame.handlers]⟩ hb
  | @runs n body => exact absurd ⟨n + 1, body, by simp [handlers, Frame.handlers]⟩ hb

/-- While all timers are alarms the clock changes in no other way. -/
theorem Flat.passage (h : m.Flat) (hb : ¬ m.Bears) (hs : m.step = .next m') :
    Passage m m' ∧ Steadfast m m' := by
  cases h with
  | @program s a =>
    have hw : Working ⟨s, [.program .main a]⟩ := working_of rfl (by simp) (by simp)
    cases stepProgram_next hs with
    | goes code | parks code =>
      have hg := System.stepCode_grows code
      exact ⟨.works hw (working_of rfl (by simp) (by simp)).2 hg.kernel.clock,
        .of_clock hg.kernel.ticks hg.kernel.clock⟩
    | calls code =>
      have hg := System.stepCode_grows code
      exact ⟨.works hw (AtTick.not_delivering ⟨_, rfl⟩) hg.kernel.clock,
        .of_clock hg.kernel.ticks hg.kernel.clock⟩
  | @loop s a rest phase enrolled code early =>
    cases phase with
    | tick =>
      cases stepTick_next hs with
      | passes early =>
        exact ⟨.passes ⟨_, rfl⟩ (Clock.takeTick_none early) (working_of rfl (by simp) (by simp))
          rfl, .of_clock rfl rfl⟩
      | interrupts taken =>
        exact ⟨.interrupts ⟨_, rfl⟩ taken rfl, rfl, (Clock.takeTick_cases taken).2.2.1⟩
    | choose => exact choose_passage hs
  | @thread s d a rest enrolled code running =>
    have hw : Working ⟨s, [.thread d, .loop .tick, .program .main a]⟩ :=
      working_of rfl (by simp) (by simp)
    cases stepThread_next hs with
    | goes code =>
      have hg := System.stepCode_grows code
      exact ⟨.works hw (working_of rfl (by simp) (by simp)).2 hg.kernel.clock,
        .of_clock hg.kernel.ticks hg.kernel.clock⟩
    | parks code park =>
      have hg := System.stepCode_grows code
      obtain ⟨hclock, hticks⟩ := park_clock park
      exact passage_of_charge hw (hclock.trans hg.kernel.clock) (hticks.trans hg.kernel.ticks)
    | calls code =>
      obtain ⟨-, -, hnone, -⟩ := System.stepCode_call code
      cases hnone.symm.trans running
    | ends code finish =>
      have hg := System.stepCode_grows code
      rw [System.restoreAll_eq] at finish
      obtain ⟨hclock, hticks⟩ := finish_clock finish
      exact passage_of_charge hw (hclock.trans hg.kernel.clock) (hticks.trans hg.kernel.ticks)
  | delivery => exact delivery_passage hb hs

/-- Away from the beginning of an iteration no interrupt is due. -/
structure Punctual (m : Machine) : Prop where
  paced : m.system.kernel.clock.Paced
  early : ¬ m.AtTick → m.system.Early

theorem Delivers.not_atTick (h : m.Delivers) : ¬ m.AtTick := fun ht => ht.not_delivering h

theorem Passage.punctual (h : Passage m m') (hp : m.Punctual)
    (hs : m.system.kernel.clock.nextTick ≤ maxTime) : m'.Punctual := by
  cases h with
  | works before _ clock =>
    refine ⟨clock ▸ hp.paced, fun _ => ?_⟩
    have he := hp.early before.1
    unfold System.Early at he ⊢
    rwa [clock]
  | charges _ after clock => exact ⟨clock ▸ hp.paced.advance _, fun h => absurd after h⟩
  | skips before after clock =>
    exact ⟨clock ▸ hp.paced.fastForward (hp.early before.1) hs, fun h => absurd after h⟩
  | passes _ early _ clock =>
    refine ⟨clock ▸ hp.paced, fun _ => ?_⟩
    unfold System.Early at early ⊢
    rwa [clock]
  | interrupts _ taken _ => exact ⟨hp.paced.takeTick taken, fun _ => Clock.takeTick_early taken⟩
  | calls before _ clock | delivered before _ clock =>
    refine ⟨clock ▸ hp.paced, fun _ => ?_⟩
    have he := hp.early (Delivers.not_atTick ⟨_, _, _, _, before⟩)
    unfold System.Early at he ⊢
    rwa [clock]

end Machine
end ThreadKernel
