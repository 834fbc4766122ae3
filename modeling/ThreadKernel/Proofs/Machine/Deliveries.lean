import Mathlib.Data.List.Forall2
import Mathlib.Data.List.Intervals
import ThreadKernel.Proofs.Machine.Contexts
import ThreadKernel.Proofs.Machine.Handlers
import ThreadKernel.Proofs.Machine.Interrupts

/-!
# ThreadKernel.Proofs.Machine.Deliveries

Timer handlers stay in the order in which they were registered, although a delivery takes them out
of the list and its handlers may register more, run the kernel and so be interrupted again.

* `Handler.Later`        — the same handler, after some calls.
* `roll`                 — the handlers with the deliveries of some frames, and those in the list.
* `step_roll`            — a step calls a handler of the roll or none, and adds to its end.
* `During`               — the delivery that began in one step is not over before another.
* `registered`, `delivered` — who was registered, and whom a delivery has called.
* `engaged`              — who is with a delivery that is not over, and so not called by another.
* `Underway`             — the invariant of one delivery.
* `execution_deliveries` — every delivery of every execution.
* `delivery_leaves_out`  — a delivery within another one that calls nobody.
-/

namespace ThreadKernel

namespace Handler

/-- The handler after a call. -/
def called : Handler → Handler
  | .routine (n + 1) body => .routine n body
  | x => x

/-- The same handler, which may have been called in between. -/
def Later : Handler → Handler → Prop
  | .alarm i, .alarm j => i = j
  | .routine m body, .routine n body' => n ≤ m ∧ body = body'
  | _, _ => False

theorem Later.refl (x : Handler) : x.Later x := by
  cases x with
  | alarm => rfl
  | routine => exact ⟨Nat.le_refl _, rfl⟩

theorem Later.trans {x y z : Handler} (h : x.Later y) (h' : y.Later z) : x.Later z := by
  cases x <;> cases y <;> cases z <;> first | exact h.elim | exact h'.elim | skip
  · exact Eq.trans h h'
  · exact ⟨h'.1.trans h.1, h.2.trans h'.2⟩

theorem later_called (x : Handler) : x.Later x.called := by
  cases x with
  | alarm => rfl
  | routine n => cases n <;> exact ⟨by omega, rfl⟩

instance : Std.Refl Later := ⟨.refl⟩

end Handler

open Handler (Later)
open List (Forall₂)

theorem forall₂_later_trans {l l' l'' : List Handler} (h : Forall₂ Later l l')
    (h' : Forall₂ Later l' l'') : Forall₂ Later l l'' := by
  induction h generalizing l'' with
  | nil => exact h'
  | cons hxy _ ih =>
    cases h' with
    | cons hyz hrest => exact .cons (hxy.trans hyz) (ih hrest)

theorem forall₂_later_of_eq {l l' : List Handler} (h : l = l') : Forall₂ Later l l' :=
  h ▸ List.forall₂_refl l

namespace Machine

variable {m m' : Machine} {s s' : System} {above below rest : List Frame} {f : Frame}
  {previous : Level} {called waiting : List Handler} {x : Handler}

/-! ## The roll -/

/-- The handlers with the deliveries of some frames, outer ones first, and those in the list. -/
def roll (above : List Frame) (s : System) : List Handler :=
  above.reverse.flatMap Frame.handlers ++ s.handlers

/-- The handlers with the deliveries that are not over, outer ones first. A delivery takes the
handlers that it calls out of the list, so another one within it does not find them there. -/
def engaged (m : Machine) : List Handler := m.stack.reverse.flatMap Frame.handlers

theorem engaged_of_not_delivering (h : ¬ Delivering m.stack) : m.engaged = [] := by
  rw [engaged, List.flatMap_eq_nil_iff]
  intro f hf
  cases f with
  | delivery => exact absurd (List.any_eq_true.2 ⟨_, List.mem_reverse.1 hf, rfl⟩) h
  | program | thread | loop => rfl

theorem roll_cons (f : Frame) (above : List Frame) (s : System) :
    roll (f :: above) s = above.reverse.flatMap Frame.handlers ++ (f.handlers ++ s.handlers) := by
  rw [roll, List.reverse_cons, List.flatMap_append, List.flatMap_singleton, List.append_assoc]

theorem roll_append (top : List Frame) (h : top.flatMap Frame.handlers = []) (above : List Frame)
    (s : System) : roll (top ++ above) s = roll above s := by
  have h : top.reverse.flatMap Frame.handlers = [] := by
    rw [List.flatMap_eq_nil_iff] at h ⊢
    exact fun f hf => h f (List.mem_reverse.1 hf)
  rw [roll, List.reverse_append, List.flatMap_append, h, List.append_nil, roll]

/-- The handlers that the next step registers. -/
def registers (m : Machine) : List Handler :=
  (m.executing?.map fun a => a.registers m.system).getD []

/-- The handler that the delivery on top of the stack calls next. -/
def calling? (m : Machine) : Option Handler :=
  match m.stack with
  | .delivery _ _ (x :: _) :: _ => some x
  | _ => none

/-- A call takes a handler from those who wait to those who were called. -/
theorem stepDelivery_calls (h : stepDelivery previous called (x :: waiting) below s = .next m') :
    m'.system.handlers = s.handlers ∧ ∃ top, top.flatMap Frame.handlers = [] ∧
      m'.stack = top ++ .delivery previous (called ++ [x.called]) waiting :: below := by
  generalize hwaiting : x :: waiting = l at h
  cases stepDelivery_next h with
  | ends => cases hwaiting
  | skips | rings | spent =>
    cases hwaiting
    exact ⟨rfl, [], rfl, rfl⟩
  | runs =>
    cases hwaiting
    exact ⟨rfl, [_], rfl, rfl⟩

/-! ## Steps and the roll -/

/-- The frames `rest` are still at the bottom of the stack, and above them are the handlers of `l`,
some of them after a call. -/
def Continues (l : List Handler) (rest : List Frame) (m : Machine) : Prop :=
  ∃ above, m.stack = above ++ rest ∧ Forall₂ Later l (roll above m.system)

/-- The frame on top is replaced by others without handlers, and the list grows. -/
theorem continues_of_top (top : List Frame) {l : List Handler} (hf : f.handlers = [])
    (htop : top.flatMap Frame.handlers = []) (hs : s'.handlers = s.handlers ++ l) :
    Continues (roll (f :: above) s ++ l) rest ⟨s', top ++ (above ++ rest)⟩ := by
  refine ⟨top ++ above, (List.append_assoc ..).symm, forall₂_later_of_eq ?_⟩
  rw [roll_append top htop, roll_cons, hf, roll, hs]
  simp only [List.nil_append, List.append_assoc]

theorem stepProgram_continues {actor : Actor} {a : Activation}
    (h : stepProgram actor a (above ++ rest) s = .next m') :
    Continues (roll (.program actor a :: above) s ++ a.registers s) rest m' := by
  generalize hbelow : above ++ rest = below at h
  cases stepProgram_next h with
  | goes code | parks code =>
    exact hbelow ▸ continues_of_top [_] rfl rfl (System.stepCode_handlers code)
  | calls code => exact hbelow ▸ continues_of_top [_, _] rfl rfl (System.stepCode_handlers code)
  | ends code => exact hbelow ▸ continues_of_top [] rfl rfl (System.stepCode_handlers code)

theorem stepThread_continues {d : Kernel.Dispatched Activation}
    (h : stepThread d (above ++ rest) s = .next m') :
    Continues (roll (.thread d :: above) s ++ d.task.coroutine.registers s) rest m' := by
  cases stepThread_next h with
  | goes code => exact continues_of_top [_] rfl rfl (System.stepCode_handlers code)
  | calls code => exact continues_of_top [_, _] rfl rfl (System.stepCode_handlers code)
  | parks code | ends code => exact continues_of_top [] rfl rfl (System.stepCode_handlers code)

/-- A delivery that begins takes the list over. -/
theorem stepTick_continues (h : stepTick (above ++ rest) s = .next m') :
    Continues (roll (.loop .tick :: above) s ++ []) rest m' := by
  cases stepTick_next h with
  | passes => exact continues_of_top [_] rfl rfl (List.append_nil _).symm
  | interrupts =>
    refine ⟨.delivery s.kernel.level [] s.handlers :: .loop .choose :: above, rfl,
      forall₂_later_of_eq ?_⟩
    rw [roll_cons, roll_cons, List.reverse_cons, List.flatMap_append]
    simp only [Frame.handlers, List.flatMap_singleton, List.nil_append, List.append_nil]

theorem returnFrom_continues {v : Value} {phase : Phase}
    (hrest : ∀ actor a below, rest ≠ .program actor a :: below)
    (h : returnFrom v (above ++ rest) s = .next m') :
    Continues (roll (.loop phase :: above) s ++ []) rest m' := by
  generalize hbelow : above ++ rest = below at h
  cases returnFrom_next h with
  | @completes actor a below =>
    cases above with
    | nil => exact absurd hbelow (hrest actor a below)
    | cons f above =>
      obtain ⟨rfl, rfl⟩ := List.cons.inj hbelow
      have hsame : (s.complete actor v a).2.handlers = s.handlers ++ [] := by
        rw [List.append_nil]
        unfold System.complete
        split
        · rfl
        · simp only [System.restoreAll_eq]
          rfl
      have hroll :
          roll (.loop phase :: .program actor a :: above) s = roll (.loop phase :: above) s :=
        (roll_append [.loop phase, .program actor a] rfl above s).trans
          (roll_append [.loop phase] rfl above s).symm
      rw [hroll]
      exact continues_of_top [.program actor (s.complete actor v a).1] rfl rfl hsame
  | drops => exact hbelow ▸ continues_of_top [] rfl rfl (List.append_nil _).symm

theorem stepChoose_continues (hrest : ∀ actor a below, rest ≠ .program actor a :: below)
    (h : stepChoose (above ++ rest) s = .next m') :
    Continues (roll (.loop .choose :: above) s ++ []) rest m' := by
  cases stepChoose_next h with
  | dispatches => exact continues_of_top [_, _] rfl rfl (List.append_nil _).symm
  | misses | waits => exact continues_of_top [_] rfl rfl (List.append_nil _).symm
  | @returns k _ _ _ _ back =>
    have hback : Continues (roll (.loop .choose :: above) (s.withKernel k) ++ []) rest m' :=
      returnFrom_continues hrest back
    exact hback

theorem stepDelivery_continues
    (h : stepDelivery previous called waiting (above ++ rest) s = .next m') :
    Continues (roll (.delivery previous called waiting :: above) s ++ []) rest m' := by
  rw [List.append_nil]
  cases waiting with
  | nil =>
    cases h
    refine ⟨above, rfl, forall₂_later_of_eq ?_⟩
    rw [roll_cons, roll]
    simp only [Frame.handlers, List.append_nil]
  | cons x waiting =>
    obtain ⟨hsystem, top, htop, hstack⟩ := stepDelivery_calls h
    refine ⟨top ++ .delivery previous (called ++ [x.called]) waiting :: above,
      by rw [hstack, List.append_assoc]; rfl, ?_⟩
    rw [roll_append top htop, roll_cons, roll_cons, hsystem]
    simp only [Frame.handlers, List.append_assoc, List.singleton_append]
    exact List.rel_append (List.forall₂_refl _)
      (List.rel_append (List.forall₂_refl _) (.cons x.later_called (List.forall₂_refl _)))

/-- A step does not touch the frames under the one on top. Of the handlers above some of them it
calls one or none, and those that it registers come last. -/
theorem step_continues (hs : m.stack = f :: (above ++ rest))
    (hrest : ∀ actor a below, rest ≠ .program actor a :: below) (hr : m.step = .next m') :
    Continues (roll (f :: above) m.system ++ m.registers) rest m' := by
  obtain ⟨s, stack⟩ := m
  obtain rfl : stack = f :: (above ++ rest) := hs
  unfold Machine.step at hr
  cases f with
  | program actor a => exact stepProgram_continues hr
  | thread d => exact stepThread_continues hr
  | loop phase =>
    cases phase with
    | tick => exact stepTick_continues hr
    | choose => exact stepChoose_continues hrest hr
  | delivery previous called waiting => exact stepDelivery_continues hr

/-- A step calls a handler of the roll or none, and those that it registers come last. -/
theorem step_roll (hr : m.step = .next m') :
    Forall₂ Later (roll m.stack m.system ++ m.registers) (roll m'.stack m'.system) := by
  cases hstack : m.stack with
  | nil =>
    rw [Machine.step, hstack] at hr
    cases hr
  | cons f above =>
    have hwhole : m.stack = f :: (above ++ []) := by rw [hstack, List.append_nil]
    obtain ⟨above', hnext, hlater⟩ :=
      step_continues hwhole (fun _ _ _ => (List.cons_ne_nil _ _).symm) hr
    rw [List.append_nil] at hnext
    rwa [hnext]

/-! ## One delivery -/

/-- What begins in the step `i` is not over before the step `l`. -/
def During (ms : Nat → Machine) (i l : Nat) : Prop :=
  i < l ∧ ∀ k ≤ l, i < k → (ms i).stack.length < (ms k).stack.length

instance (ms : Nat → Machine) (i l : Nat) : Decidable (During ms i l) :=
  inferInstanceAs (Decidable (_ ∧ _))

/-- The handlers that are registered from the step `i` on, before the step `l`. -/
def registered (ms : Nat → Machine) (i l : Nat) : List Handler :=
  (List.Ico i l).flatMap fun k => (ms k).registers

/-- The handlers that the delivery which begins in the step `i` calls before the step `l`. Its own
calls are made with one frame more than there was, those of other deliveries with more. -/
def delivered (ms : Nat → Machine) (i l : Nat) : List Handler :=
  (List.Ico i l).flatMap fun k =>
    if (ms k).stack.length = (ms i).stack.length + 1 then (ms k).calling?.toList else []

variable {ms : Nat → Machine} {i j l n : Nat} {g : Random}

theorem registered_succ (h : i ≤ l) :
    registered ms i (l + 1) = registered ms i l ++ (ms l).registers := by
  rw [registered, List.Ico.succ_top h, List.flatMap_append, List.flatMap_singleton, registered]

theorem delivered_succ (h : i ≤ l) : delivered ms i (l + 1) = delivered ms i l ++
    if (ms l).stack.length = (ms i).stack.length + 1 then (ms l).calling?.toList else [] := by
  rw [delivered, List.Ico.succ_top h, List.flatMap_append, List.flatMap_singleton, delivered]

/-- Some of the handlers were called by the delivery, in their order, and the others wait. -/
structure Underway (ms : Nat → Machine) (i l : Nat) (below above : List Frame)
    (waiting : List Handler) : Prop where
  stack : (ms l).stack = above ++
    .delivery (ms i).system.kernel.level ((delivered ms i l).map Handler.called) waiting ::
      .loop .choose :: below
  calls : delivered ms i l ++ waiting = (ms i).system.handlers
  roll : Forall₂ Later (registered ms i l) (roll above (ms l).system)

/-- The delivery has called the handlers that there were, once each and in their order. Those that
were registered meanwhile come behind them. -/
structure Delivered (ms : Nat → Machine) (i j : Nat) : Prop where
  calls : delivered ms i (j + 1) = (ms i).system.handlers
  handlers : ∃ new, Forall₂ Later (registered ms i (j + 1)) new ∧
    (ms (j + 1)).system.handlers = (ms i).system.handlers.map Handler.called ++ new
  level : (ms (j + 1)).system.kernel.level = (ms i).system.kernel.level

/-- A due interrupt is delivered. -/
theorem Interrupted.begins (h : (ms i).Interrupted) (hs : (ms i).step = .next m)
    (hm : ms (i + 1) = m.reseed g) : ∃ below, (ms i).stack = .loop .tick :: below ∧
      Underway ms i (i + 1) below [] (ms i).system.handlers := by
  obtain ⟨⟨below, hstack⟩, hdue⟩ := h
  refine ⟨below, hstack, ?_⟩
  have htick : stepTick below (ms i).system = .next m := by
    rw [Machine.step, hstack] at hs
    exact hs
  have hnone : (ms i).calling? = none ∧ (ms i).registers = [] := by
    rw [calling?, registers, executing?, hstack]
    exact ⟨rfl, rfl⟩
  have hdelivered : delivered ms i (i + 1) = [] := by
    rw [delivered, List.Ico.succ_singleton, List.flatMap_singleton, hnone.1]
    exact ite_self []
  have hregistered : registered ms i (i + 1) = [] := by
    rw [registered, List.Ico.succ_singleton, List.flatMap_singleton, hnone.2]
  cases stepTick_next htick with
  | passes early => exact absurd (Clock.takeTick_none early) (Nat.not_lt.2 hdue)
  | interrupts =>
    refine ⟨?_, by rw [hdelivered]; rfl, ?_⟩
    · rw [hdelivered, hm]
      rfl
    · rw [hregistered, hm]
      exact .nil

theorem Underway.length_lt {above : List Frame} (hi : (ms i).stack = .loop .tick :: below)
    (h : Underway ms i l below above waiting) : (ms i).stack.length < (ms l).stack.length := by
  rw [h.stack, hi]
  simp only [List.length_append, List.length_cons]
  omega

/-- A step of the delivery itself. -/
theorem Underway.delivers (hi : (ms i).stack = .loop .tick :: below) (hl : i ≤ l)
    (h : Underway ms i l below [] waiting) (hs : (ms l).step = .next m)
    (hm : ms (l + 1) = m.reseed g) :
    (∃ above waiting, Underway ms i (l + 1) below above waiting) ∨
      (ms (l + 1)).stack = .loop .choose :: below ∧ Delivered ms i l := by
  have hstack := h.stack
  rw [List.nil_append] at hstack
  have hstep : stepDelivery (ms i).system.kernel.level ((delivered ms i l).map Handler.called)
      waiting (.loop .choose :: below) (ms l).system = .next m := by
    rw [Machine.step, hstack] at hs
    exact hs
  have hown : (ms l).stack.length = (ms i).stack.length + 1 := by
    rw [hstack, hi]
    rfl
  have hregisters : (ms l).registers = [] := by
    rw [registers, executing?, hstack]
    rfl
  have hregistered : registered ms i (l + 1) = registered ms i l := by
    rw [registered_succ hl, hregisters, List.append_nil]
  have hroll : Forall₂ Later (registered ms i l) (ms l).system.handlers := h.roll
  cases waiting with
  | nil =>
    have hdelivered : delivered ms i (l + 1) = delivered ms i l := by
      rw [delivered_succ hl, if_pos hown, calling?, hstack]
      exact List.append_nil _
    have hall := h.calls
    rw [List.append_nil] at hall
    cases hstep
    refine .inr ⟨by rw [hm]; rfl, hdelivered.trans hall, ⟨(ms l).system.handlers, ?_, ?_⟩, ?_⟩
    · rw [hregistered]
      exact hroll
    · rw [hm, ← hall]
      rfl
    · rw [hm]
      rfl
  | cons x waiting =>
    have hdelivered : delivered ms i (l + 1) = delivered ms i l ++ [x] := by
      rw [delivered_succ hl, if_pos hown, calling?, hstack]
      rfl
    obtain ⟨hsystem, top, htop, hnext⟩ := stepDelivery_calls hstep
    refine .inl ⟨top, waiting, ?_, ?_, ?_⟩
    · rw [hm, hdelivered, List.map_append]
      exact hnext
    · rw [hdelivered, List.append_assoc]
      exact h.calls
    · rw [hregistered, hm, ← List.append_nil top, roll_append top htop]
      have hlist : Forall₂ Later (registered ms i l) m.system.handlers := by rwa [hsystem]
      exact hlist

/-- A step of a handler, or of what it runs. -/
theorem Underway.inside (hi : (ms i).stack = .loop .tick :: below) (hl : i ≤ l)
    (h : Underway ms i l below (f :: above) waiting) (hs : (ms l).step = .next m)
    (hm : ms (l + 1) = m.reseed g) :
    ∃ above waiting, Underway ms i (l + 1) below above waiting := by
  have hother : (ms l).stack.length ≠ (ms i).stack.length + 1 := by
    rw [h.stack, hi]
    simp only [List.length_append, List.length_cons]
    omega
  have hdelivered : delivered ms i (l + 1) = delivered ms i l := by
    rw [delivered_succ hl, if_neg hother, List.append_nil]
  obtain ⟨above', hstack, hroll⟩ := step_continues h.stack (fun _ _ _ => nofun) hs
  refine ⟨above', waiting, ?_, ?_, ?_⟩
  · rw [hm, hdelivered]
    exact hstack
  · rw [hdelivered]
    exact h.calls
  · rw [registered_succ hl, hm]
    exact forall₂_later_trans (List.rel_append h.roll (List.forall₂_refl _)) hroll

end Machine

namespace Execution

variable {n i l : Nat} {ms : Nat → Machine}

open Machine

theorem underway (h : Execution n ms) (hi : (ms i).Interrupted) (hd : During ms i l) (hl : l ≤ n) :
    ∃ below above waiting, (ms i).stack = .loop .tick :: below ∧
      Underway ms i l below above waiting := by
  obtain ⟨hil, hinside⟩ := hd
  induction l, hil using Nat.le_induction with
  | base =>
    obtain ⟨m, g, hstep, hm⟩ := h.step i hl
    obtain ⟨below, hstack, hunderway⟩ := hi.begins hstep hm
    exact ⟨below, [], _, hstack, hunderway⟩
  | succ l hil ih =>
    obtain ⟨below, above, waiting, hstack, hunderway⟩ :=
      ih (by omega) fun k hkl hk => hinside k (by omega) hk
    obtain ⟨m, g, hstep, hm⟩ := h.step l (by omega)
    refine ⟨below, ?_⟩
    cases above with
    | nil =>
      rcases hunderway.delivers hstack (by omega) hstep hm with ⟨above, waiting, hnext⟩ | ⟨hback, -⟩
      · exact ⟨above, waiting, hstack, hnext⟩
      · have hlt := hinside (l + 1) (Nat.le_refl _) (by omega)
        rw [hback, hstack] at hlt
        exact absurd hlt (Nat.lt_irrefl _)
    | cons f above =>
      obtain ⟨above, waiting, hnext⟩ := hunderway.inside hstack (by omega) hstep hm
      exact ⟨above, waiting, hstack, hnext⟩

/-- A delivery that is over has called everybody. -/
theorem delivered_of_back {j : Nat} (h : Execution n ms) (hi : (ms i).Interrupted)
    (hd : During ms i j) (hj : j < n)
    (hback : (ms (j + 1)).stack.length ≤ (ms i).stack.length) : Delivered ms i j := by
  obtain ⟨below, above, waiting, hstack, hunderway⟩ := h.underway hi hd (Nat.le_of_lt hj)
  obtain ⟨m, g, hstep, hm⟩ := h.step j hj
  have hil : i ≤ j := Nat.le_of_lt hd.1
  cases above with
  | nil =>
    rcases hunderway.delivers hstack hil hstep hm with ⟨_, _, hnext⟩ | ⟨-, hover⟩
    · exact absurd (hnext.length_lt hstack) (Nat.not_lt.2 hback)
    · exact hover
  | cons f above =>
    obtain ⟨_, _, hnext⟩ := hunderway.inside hstack hil hstep hm
    exact absurd (hnext.length_lt hstack) (Nat.not_lt.2 hback)

/-- Everybody who was registered is with a delivery or in the list, in the order of registration. -/
theorem roll_eq (h : Execution n ms) (hi : i ≤ n) :
    Forall₂ Handler.Later (registered ms 0 i) (roll (ms i).stack (ms i).system) := by
  induction i with
  | zero =>
    obtain ⟨_, _, k, programs, main, -, hm⟩ := h.start
    rw [hm]
    exact .nil
  | succ i ih =>
    obtain ⟨m, g, hstep, hm⟩ := h.step i hi
    have hroll := step_roll hstep
    rw [registered_succ (Nat.zero_le i), hm]
    exact forall₂_later_trans (List.rel_append (ih (Nat.le_of_lt hi)) (List.forall₂_refl _)) hroll

end Execution

open Machine in
/-- The timer interrupts of a run of `n` steps. -/
structure Deliveries (n : Nat) (ms : Nat → Machine) : Prop where
  /-- An interrupt that is not due changes nothing. -/
  early : ∀ i < n, ∀ below, (ms i).stack = .loop .tick :: below → ¬ (ms i).Interrupted →
    ∃ g, ms (i + 1) = (Machine.mk (ms i).system (.loop .choose :: below)).reseed g
  /-- One that is due is delivered. -/
  begins : ∀ i < n, (ms i).Interrupted → During ms i (i + 1)
  /-- The handlers in the list are called, from the first one on and no others. Those of an outer
  delivery are not in the list: one of them is running. -/
  calls : ∀ i l, (ms i).Interrupted → During ms i l → l ≤ n →
    delivered ms i l <+: (ms i).system.handlers
  /-- Until it is over, interrupts are disabled for all but threads. -/
  atomic : ∀ i l, (ms i).Interrupted → During ms i l → l ≤ n → (ms l).thread? = none →
    (ms l).system.kernel.level = .disabled
  /-- When it is over everybody in the list was called. -/
  ends : ∀ i j, (ms i).Interrupted → During ms i j → j < n →
    (ms (j + 1)).stack.length ≤ (ms i).stack.length → Delivered ms i j
  /-- Of all handlers that were registered before, those with outer deliveries come first. They are
  left out, and all others are called once, in the order in which they were registered. -/
  before : ∀ i j, (ms i).Interrupted → During ms i j → j < n →
    (ms (j + 1)).stack.length ≤ (ms i).stack.length →
      Forall₂ Handler.Later (registered ms 0 i) ((ms i).engaged ++ delivered ms i (j + 1))
  /-- A delivery that is in no other one leaves nobody out. -/
  outermost : ∀ i j, (ms i).Interrupted → During ms i j → j < n →
    (ms (j + 1)).stack.length ≤ (ms i).stack.length → ¬ Delivering (ms i).stack →
      Forall₂ Handler.Later (registered ms 0 i) (delivered ms i (j + 1))
  /-- Everybody who was ever registered is in the list, or with a delivery that is not over. -/
  roll : ∀ i ≤ n,
    Forall₂ Handler.Later (registered ms 0 i) (Machine.roll (ms i).stack (ms i).system)
  /-- Unless an interrupt is being delivered, everybody is in the list. -/
  list : ∀ i ≤ n, ¬ Delivering (ms i).stack →
    Forall₂ Handler.Later (registered ms 0 i) (ms i).system.handlers

/-- A delivery calls everybody who was registered before it, but for those who are engaged. -/
theorem Execution.delivered_before {n i j : Nat} {ms : Nat → Machine} (h : Execution n ms)
    (hi : (ms i).Interrupted) (hd : Machine.During ms i j) (hj : j < n)
    (hback : (ms (j + 1)).stack.length ≤ (ms i).stack.length) :
    Forall₂ Later (Machine.registered ms 0 i)
      ((ms i).engaged ++ Machine.delivered ms i (j + 1)) := by
  rw [(h.delivered_of_back hi hd hj hback).calls]
  exact h.roll_eq (Nat.le_of_lt (Nat.lt_trans hd.1 hj))

/-- In every execution the handlers keep their order, whatever they do. -/
theorem execution_deliveries {n : Nat} {ms : Nat → Machine} (h : Execution n ms) :
    Deliveries n ms where
  early i hi below hstack hearly := by
    obtain ⟨m, g, hstep, hm⟩ := h.step i hi
    rw [Machine.step, hstack] at hstep
    cases Machine.stepTick_next hstep with
    | passes => exact ⟨g, hm⟩
    | interrupts taken =>
      exact absurd ⟨⟨below, hstack⟩, (Clock.takeTick_cases taken).1⟩ hearly
  begins i hi hdue := by
    obtain ⟨m, g, hstep, hm⟩ := h.step i hi
    obtain ⟨below, hstack, hunderway⟩ := hdue.begins hstep hm
    refine ⟨Nat.lt_succ_self i, fun k hk hik => ?_⟩
    obtain rfl : k = i + 1 := by omega
    exact hunderway.length_lt hstack
  calls i l hdue hd hl := by
    obtain ⟨_, _, waiting, -, hunderway⟩ := h.underway hdue hd hl
    exact ⟨waiting, hunderway.calls⟩
  atomic i l hdue hd hl hthread := by
    obtain ⟨_, _, _, -, hunderway⟩ := h.underway hdue hd hl
    refine (h.leveled hl).level hthread ?_
    rw [Machine.Delivering, hunderway.stack, List.any_append, List.any_cons]
    simp only [Frame.delivers, Bool.true_or, Bool.or_true]
  ends i j hdue hd hj hback := h.delivered_of_back hdue hd hj hback
  before i j hdue hd hj hback := h.delivered_before hdue hd hj hback
  outermost i j hdue hd hj hback hidle := by
    have hall := h.delivered_before hdue hd hj hback
    rwa [Machine.engaged_of_not_delivering hidle] at hall
  roll i hi := h.roll_eq hi
  list i hi hidle := by
    have hroll : Forall₂ Later _ ((ms i).engaged ++ (ms i).system.handlers) := h.roll_eq hi
    rwa [Machine.engaged_of_not_delivering hidle] at hroll

namespace Machine

/-- A handler registers another one and runs the kernel while a thread is blocked, so the other one
is called before it returns. The handler behind it creates an alarm. -/
def reentrantPrograms : List Program := [⟨"blocked", [.act .enter, .block]⟩]

def reentrantMain : List Action :=
  [.newAlarm, .timer 2 [.timer 1 [.inAtomic], .run], .timer 1 [.newAlarm], .spawn 0, .run]

def reentrantSettings : Settings := ⟨.priority, none, 1, 1⟩

/-- The interrupt of the step 10 is over behind the step 27, and another one is delivered from the
step 17 to the step 21. -/
theorem execution_deliveries_nested : ∃ (n : Nat) (ms : Nat → Machine), Execution n ms ∧ 27 < n ∧
    (ms 10).Interrupted ∧ During ms 10 27 ∧ (ms 28).stack.length ≤ (ms 10).stack.length ∧
    (ms 17).Interrupted ∧ During ms 17 21 ∧ (ms 22).stack.length ≤ (ms 17).stack.length ∧
    (delivered ms 10 28).map Handler.alarm? = [some 0, none, none] ∧
    (delivered ms 17 22).map Handler.alarm? = [none] ∧
    (ms 28).system.handlers.map Handler.alarm? = [some 0, none, none, none, some 1] ∧
    Deliveries n ms := by
  have hrun : (Kernel.start .counting reentrantSettings).toOption.any (fun k =>
      let ms := fun i => (run i (start k reentrantPrograms reentrantMain)).1
      (run 28 (ms 0)).2 = .unfinished ∧
        (ms 10).Interrupted ∧ During ms 10 27 ∧ (ms 28).stack.length ≤ (ms 10).stack.length ∧
        (ms 17).Interrupted ∧ During ms 17 21 ∧ (ms 22).stack.length ≤ (ms 17).stack.length ∧
        (delivered ms 10 28).map Handler.alarm? = [some 0, none, none] ∧
        (delivered ms 17 22).map Handler.alarm? = [none] ∧
        (ms 28).system.handlers.map Handler.alarm? = [some 0, none, none, none, some 1]) = true := by
    decide +kernel
  obtain ⟨k, hk, hrun⟩ := exists_start hrun
  obtain ⟨hn, hdue, hduring, hback, hdue', hduring', hback', hcalls, hcalls', hlist⟩ :=
    of_decide_eq_true hrun
  have hexec := execution_run hk hn
  exact ⟨28, _, hexec, by decide, hdue, hduring, hback, hdue', hduring', hback', hcalls, hcalls',
    hlist, execution_deliveries hexec⟩

/-- A handler runs the kernel until all threads have ended, and the time of an interrupt comes. -/
def engagedPrograms : List Program := [⟨"worker", [.yield]⟩]

def engagedMain : List Action := [.timer 1 [.run], .timer 2 [.note (.number 7)], .spawn 0, .run]

/-- The interrupt of the step 15 finds nobody in the list. Both handlers were registered before, but
they are with the delivery that runs the first one. -/
theorem delivery_leaves_out : ∃ (n : Nat) (ms : Nat → Machine), Execution n ms ∧ 16 < n ∧
    (ms 15).Interrupted ∧ During ms 15 16 ∧ (ms 17).stack.length ≤ (ms 15).stack.length ∧
    (registered ms 0 15).length = 2 ∧ delivered ms 15 17 = [] ∧
    ¬ Forall₂ Later (registered ms 0 15) (delivered ms 15 17) := by
  have hrun : (Kernel.start .counting reentrantSettings).toOption.any (fun k =>
      let ms := fun i => (run i (start k engagedPrograms engagedMain)).1
      (run 17 (ms 0)).2 = .unfinished ∧ (ms 15).Interrupted ∧ During ms 15 16 ∧
        (ms 17).stack.length ≤ (ms 15).stack.length ∧ (registered ms 0 15).length = 2 ∧
        (delivered ms 15 17).length = 0) = true := by
    decide +kernel
  obtain ⟨k, hk, hrun⟩ := exists_start hrun
  obtain ⟨hn, hdue, hduring, hback, htwo, hnone⟩ := of_decide_eq_true hrun
  refine ⟨17, _, execution_run hk hn, by decide, hdue, hduring, hback, htwo,
    List.length_eq_zero_iff.1 hnone, fun hall => ?_⟩
  have hlength := hall.length_eq
  omega

end Machine
end ThreadKernel
