import ThreadKernel.Proofs.Machine.Situations
import ThreadKernel.Proofs.Machine.Timers
import ThreadKernel.Proofs.Machine.Turns
import ThreadKernel.Proofs.Table.Propagation

/-!
# ThreadKernel.Proofs.Machine.Deadlock

What a run of the kernel returns to the main program when all timers are alarms. It returns
successfully only if no thread is left, and it fails only if no thread can ever go on.

* `Kernel.Idle`, `System.Stuck` — nobody is ready or announced, and everybody waits for somebody.
* `Fail.TellsDeadlock`          — what the caller of a run that fails gets to know.
* `Machine.Returns`             — the run loop returns to its caller.
* `Machine.QuietSteps`          — steps that dispatch nobody.
* `run_verdict`                 — what the returned value says, and when a run fails.
-/

namespace ThreadKernel

open Kernel (Posture Placed)

namespace Kernel

/-- Nobody is announced and nobody is ready. -/
structure Idle (k : Kernel Activation) : Prop where
  channel : k.registry.channel = []
  ready : k.numWaiters k.readyQueue = .ok 0

variable {k k' : Kernel Activation}

theorem Idle.records (h : Idle k) :
    ∃ qs, k.table.queue? k.readyQueue = some qs ∧ qs.waiters.records = [] := by
  have hr := h.ready
  unfold numWaiters Table.numWaiters Table.queue at hr
  split at hr
  · rename_i qs hq
    exact ⟨qs, hq, List.eq_nil_of_length_eq_zero (Except.ok.inj hr)⟩
  · cases hr

/-- A choice among nobody takes the ready queue from its owner, and does nothing else. -/
theorem chooseThread_idle (hs : k.table.Sound) (h : Idle k) :
    ∃ tb, k.table.releaseOwnership k.readyQueue = .ok tb ∧
      k.chooseThread = .ok (none, { k with table := tb }) := by
  obtain ⟨qs, hqs, hnil⟩ := h.records
  have hready : (k.table.queue? k.readyQueue).isSome := by rw [hqs]; rfl
  obtain ⟨tb, htb⟩ := Table.exists_releaseOwnership hs hready
  have hsel : k.table.policy.select qs.waiters k.table.random = .ok (none, k.table.random) := by
    unfold Policy.select
    rw [hnil]
  have hadm : k.enter.admitWoken = .ok k.enter := by
    have hdrain : ({ k.registry with channel := [] } : Registry Activation) = k.registry := by
      rw [← h.channel]
    simp only [admitWoken, Registry.drain, enter, h.channel, admitEach, hdrain]
  have hnext : k.enter.nextThread k.readyQueue = .ok (none, { k.enter with table := tb }) := by
    have hserve : k.table.nextThread k.readyQueue = .ok (none, tb) := by
      simp only [Table.nextThread, hqs, hsel, Option.bind_none, htb]
    unfold Kernel.nextThread
    have hentered : k.enter.requireAtomic "next_thread()" = .ok () := rfl
    have hserve : k.enter.table.nextThread k.readyQueue = .ok (none, tb) := hserve
    simp only [atomically, hentered, hserve]
  refine ⟨tb, htb, ?_⟩
  simp only [chooseThread, hadm]
  rw [show k.enter.readyQueue = k.readyQueue from rfl, hnext]
  rfl

/-- After a choice that found nobody, nobody is ready and nobody owns the ready queue. -/
theorem nextThread_idle (hs : k.table.Sound) (hc : k.registry.channel = [])
    (h : k.nextThread k.readyQueue = .ok (none, k')) :
    Idle k' ∧ k'.table.links.owner k'.readyQueue = none := by
  obtain ⟨tb, htb, rfl⟩ := nextThread_ok h
  obtain ⟨qs, hqs, ⟨-, hnil, he⟩ | ⟨r, hr, -⟩⟩ := Table.nextThread_effect hs htb
  · refine ⟨⟨hc, ?_⟩, ?_⟩
    · have htr : tb.links.transfer k.readyQueue = some qs.transfer := by
        rw [he.links]
        simp [Table.links, hqs]
      obtain ⟨qs', hqs', -⟩ := Option.map_eq_some_iff.1 htr
      have hnone : qs'.waiters.records = [] := by
        refine List.eq_nil_iff_forall_not_mem.2 fun r hr => ?_
        have hw := congrFun (congrArg Table.Links.waiting he.links) r.thread
        have hr' : (tb.state r.thread).waiting = some k.readyQueue :=
          he.sound.linked.waiting_of_mem hqs' hr
        have hw : (k.table.state r.thread).waiting = some k.readyQueue := hw.symm.trans hr'
        obtain ⟨qs₀, hqs₀, hm⟩ := hs.linked.waiting_iff.1 hw
        rw [hqs] at hqs₀
        cases hqs₀
        rw [WaitSet.mem_threads, hnil] at hm
        obtain ⟨x, hx, -⟩ := hm
        cases hx
      show tb.numWaiters k.readyQueue = .ok 0
      simp [Table.numWaiters, Table.queue, hqs', Except.map, WaitSet.size, hnone]
    · rw [he.links]
      exact Function.update_self _ _ _
  · cases hr

end Kernel

/-- The failure has the number of a deadlock, and tells how many threads are left and at what
time. -/
structure Fail.TellsDeadlock (f : Fail) (blocked now : Nat) : Prop where
  errno : f.errno = Errno.deadlock
  cause : f.cause = "no runnable threads left (blocked=" ++ toString blocked ++ ", now=" ++
    toString now ++ ")"

theorem Fail.stuck_tells (blocked now : Nat) :
    (Fail.stuck blocked now).TellsDeadlock blocked now := ⟨rfl, rfl⟩

/-- There is only one such failure. -/
theorem Fail.TellsDeadlock.eq_stuck {f : Fail} {blocked now : Nat}
    (h : f.TellsDeadlock blocked now) : f = Fail.stuck blocked now := by
  obtain ⟨errno, cause⟩ := f
  obtain ⟨rfl, rfl⟩ := h
  rfl

namespace System

/-- Threads are left, and no thread and no timer can ever make one of them ready. -/
structure Stuck (s : System) : Prop where
  alive : 0 < s.kernel.numThreads
  parked : ∀ t slot, s.kernel.registry.get? t = some slot →
    slot.signal = ⟨false, some t⟩ ∧ ∃ q, s.OfPrimitive q ∧ s.kernel.table.recordsIn q t = 1
  awake : ∀ a ∈ s.alarms, a.sleepers = []
  idle : s.kernel.Idle

/-- What the value that a run returns says about the system. -/
inductive Verdict (s : System) : Value → Prop where
  | finished (none : s.kernel.numThreads = 0) : Verdict s (.text "ok")
  | deadlock {f : Fail} (tells : f.TellsDeadlock s.kernel.numThreads s.kernel.now)
      (stuck : s.Stuck) : Verdict s (.failure f)

variable {s : System}

theorem not_pending (h : ∀ a ∈ s.alarms, a.sleepers = [])
    (ha : ∀ x ∈ s.handlers, ∃ i, x = Handler.alarm i) : s.hasPendingTimers = false := by
  refine List.any_eq_false.2 fun x hx => ?_
  obtain ⟨i, rfl⟩ := ha x hx
  unfold isPending
  simp only
  split
  · rename_i a hi
    simp [Alarm.isPending, h a (List.mem_of_getElem? hi)]
  · simp

theorem awake_of_not_pending (h : s.hasPendingTimers = false) (he : s.Enrolled s.handlers) :
    ∀ a ∈ s.alarms, a.sleepers = [] := by
  intro a ha
  obtain ⟨i, hi, rfl⟩ := List.mem_iff_getElem.1 ha
  have hx := List.any_eq_false.1 h _ (he i hi)
  simp only [isPending, List.getElem?_eq_getElem hi, Alarm.isPending] at hx
  simpa using hx

/-- Levels and the log do not matter. -/
theorem Stuck.relabel {level : Level} {events : List Event} (h : s.Stuck) :
    Stuck { s with kernel := s.kernel.restore level, events := events } :=
  ⟨h.alive, h.parked, h.awake, h.idle.channel, h.idle.ready⟩

/-- Who is neither ready nor announced nor asleep waits on a queue of a primitive. -/
theorem Orderly.stuck (h : s.Orderly none) (hi : s.kernel.Idle) (hn : 0 < s.kernel.numThreads)
    (ha : ∀ a ∈ s.alarms, a.sleepers = []) : s.Stuck := by
  have hl := h.placed.1.sound.linked
  have hasleep : ∀ t, s.asleep t = 0 := by
    intro t
    refine List.sum_eq_zero_iff_forall_eq_nat.2 fun n hn => ?_
    obtain ⟨a, hm, rfl⟩ := List.mem_map.1 hn
    simp [Alarm.count, ha a hm]
  refine ⟨hn, fun t slot hslot => ?_, ha, hi⟩
  cases h.placed.1.standing (by simp) hslot with
  | ready hw _ _ _ =>
    obtain ⟨qs, hqs, hnil⟩ := hi.records
    obtain ⟨qs', hqs', hm⟩ := hl.waiting_iff.1 hw
    rw [hqs] at hqs'
    cases hqs'
    rw [WaitSet.mem_threads, hnil] at hm
    obtain ⟨x, hx, -⟩ := hm
    cases hx
  | announced _ hc _ _ =>
    rw [hi.channel] at hc
    cases hc
  | parked hp hb =>
    rcases hb.place with ⟨⟨q, hq, hprim⟩, -⟩ | ⟨-, hone⟩
    · refine ⟨hp.1, q, ofPrimitive_of_primitive hprim, ?_⟩
      rw [hl.recordsIn_eq, hq, if_pos rfl]
    · rw [hasleep] at hone
      cases hone

end System

namespace Machine

/-- Steps none of which dispatches a thread. -/
inductive QuietSteps : Machine → Machine → Prop where
  | refl {m : Machine} : QuietSteps m m
  | cons {m m' m'' : Machine} : m.step = .next m' → m'.thread? = none → QuietSteps m' m'' →
      QuietSteps m m''

/-- The run loop returns `v` to the program that called it. -/
structure Returns (actor : Actor) (v : Value) (m m' : Machine) : Prop where
  loop : ∃ a below, m.stack = .loop .choose :: .program actor a :: below
  step : m.step = .next m'
  caller : ∃ a below, m'.stack = .program actor a :: below
  logged : ∃ time, m'.system.events = ⟨actor, time, .act .run, v⟩ :: m.system.events

/-- The program of `actor` has called the run loop, which begins an iteration. -/
def Iterates (actor : Actor) (m : Machine) : Prop :=
  ∃ a rest below, m.stack = .loop .tick :: .program actor a :: below ∧ a.code = .act .run :: rest

/-- Nothing that a run reads has changed, except perhaps the level at which it is called. -/
structure Unchanged (s s' : System) : Prop where
  kernel : s'.kernel.enter = s.kernel.enter
  handlers : s'.handlers = s.handlers
  alarms : s'.alarms = s.alarms

variable {m m' : Machine} {s : System} {actor : Actor} {a : Activation} {rest : List Instr}
  {below : List Frame} {v : Value}

/-! ## The way back -/

/-- The run loop completes the instruction that called it. -/
theorem returnFrom_spec (s : System) (actor : Actor) (v : Value) (below : List Frame)
    (hc : a.code = .act .run :: rest) :
    ∃ level, returnFrom v (.program actor a :: below) s =
      .next ⟨{ s with
        kernel := s.kernel.restore level
        events := ⟨actor, s.kernel.now, .act .run, v⟩ :: s.events },
        .program actor { a with code := rest, stage := .fresh, regions := [] } :: below⟩ := by
  refine ⟨a.regions.getLastD s.kernel.level, ?_⟩
  simp only [returnFrom, System.complete, hc, System.restoreAll_eq]
  rfl

/-- The value that is logged is the verdict of the last choice. -/
theorem Returns.choice (h : Returns actor v m m') : ∃ k a below,
    m.stack = .loop .choose :: .program actor a :: below ∧
    m.system.kernel.chooseThread = .ok (none, k) ∧
    (k.registry.isEmpty = true ∧ v = .text "ok" ∨
      k.registry.isEmpty = false ∧ m.system.hasPendingTimers = false ∧
        v = .failure (Fail.stuck k.numThreads k.now)) ∧
    m'.system = ((m.system.withKernel k).complete actor v a).2 := by
  obtain ⟨s, stack⟩ := m
  obtain ⟨⟨a, below, hstack⟩, hstep, ⟨b, below', hstack'⟩, time, hlog⟩ := h
  obtain rfl : stack = .loop .choose :: .program actor a :: below := hstack
  have hstep : stepChoose (.program actor a :: below) s = .next m' := hstep
  cases stepChoose_next hstep with
  | dispatches => cases hstack'
  | misses => cases hstack'
  | waits => cases hstack'
  | @returns k w _ choose verdict back =>
    cases back
    have hvalue : w = v := by
      cases hc : a.code with
      | nil =>
        simp only [hc] at hlog
        exact absurd hlog.symm (List.cons_ne_self _ _)
      | cons i rest =>
        simp only [hc] at hlog
        cases hlog
        rfl
    subst hvalue
    exact ⟨k, a, below, rfl, choose, verdict, rfl⟩

/-- With threads left, nobody ready and no timer pending, the run loop fails. -/
theorem returns_stuck (s : System) (actor : Actor) (below : List Frame)
    (hs : s.kernel.table.Sound) (hi : s.kernel.Idle) (hn : 0 < s.kernel.numThreads)
    (hp : s.hasPendingTimers = false) (hc : a.code = .act .run :: rest) :
    ∃ m' tb, Returns actor (.failure (Fail.stuck s.kernel.numThreads s.kernel.now))
        ⟨s, .loop .choose :: .program actor a :: below⟩ m' ∧
      s.kernel.table.releaseOwnership s.kernel.readyQueue = .ok tb ∧
      m'.system.kernel.enter = { s.kernel.enter with table := tb } := by
  obtain ⟨tb, htb, hchoose⟩ := Kernel.chooseThread_idle hs hi
  set s₁ : System := s.withKernel { s.kernel with table := tb }
  obtain ⟨level, hret⟩ := returnFrom_spec s₁ actor
    (.failure (Fail.stuck s.kernel.numThreads s.kernel.now)) below hc
  have hempty : s₁.kernel.registry.isEmpty = false := by
    exact beq_eq_false_iff_ne.2 (Nat.pos_iff_ne_zero.1 hn)
  have hp₁ : s₁.hasPendingTimers = false := hp
  have hidle : stepIdle (.program actor a :: below) s₁ =
      returnFrom (.failure (Fail.stuck s.kernel.numThreads s.kernel.now))
        (.program actor a :: below) s₁ := by
    unfold stepIdle
    rw [hempty, hp₁]
    rfl
  have hstep : Machine.step ⟨s, .loop .choose :: .program actor a :: below⟩ =
      stepIdle (.program actor a :: below) s₁ := by
    show stepChoose _ s = _
    unfold stepChoose
    rw [hchoose]
  exact ⟨_, tb, ⟨⟨a, below, rfl⟩, hstep.trans (hidle.trans hret), ⟨_, below, rfl⟩, _, rfl⟩, htb,
    rfl⟩

/-- A delivery to alarms without sleepers changes nothing. -/
theorem quiet_delivery (previous : Level) (waiting : List Handler) (hf : s.handlers = [])
    (ha : ∀ x ∈ s.alarms, x.sleepers = []) (hb : (⟨s, below⟩ : Machine).thread? = none)
    (called : List Handler) (hw : ∀ x ∈ waiting, ∃ i, x = Handler.alarm i) :
    QuietSteps ⟨s, .delivery previous called waiting :: below⟩
      ⟨{ s with kernel := s.kernel.restore previous, handlers := called ++ waiting }, below⟩ := by
  induction waiting generalizing called with
  | nil =>
    have hstep : Machine.step ⟨s, .delivery previous called [] :: below⟩ = .next ⟨{ s with
        kernel := s.kernel.restore previous, handlers := called ++ [] }, below⟩ := by
      simp only [Machine.step, stepDelivery, hf]
    exact .cons hstep hb .refl
  | cons x waiting ih =>
    obtain ⟨i, rfl⟩ := hw x List.mem_cons_self
    have hrest := ih (called ++ [.alarm i]) fun y hy => hw y (List.mem_cons_of_mem _ hy)
    rw [List.append_assoc] at hrest
    refine .cons ?_ rfl hrest
    simp only [Machine.step, stepDelivery]
    split
    · rfl
    · rename_i alarm hi
      have hnil := ha alarm (List.mem_of_getElem? hi)
      have hsame : ({ alarm with sleepers := alarm.rest s.kernel.now } : Alarm) = alarm := by
        rw [Alarm.rest, hnil, List.dropWhile_nil, ← hnil]
      simp only [Alarm.release, Alarm.due, hnil, List.takeWhile_nil, Alarm.wakeEach, hsame,
        System.set_of_getElem? hi]

/-- An iteration that finds everybody stuck comes to the choice with nothing changed but the time of
the next interrupt. -/
theorem quiet_tick (s : System) (below : List Frame) (ha : ∀ x ∈ s.alarms, x.sleepers = [])
    (hw : ∀ x ∈ s.handlers, ∃ i, x = Handler.alarm i) :
    ∃ clock, clock.now = s.kernel.clock.now ∧ (s.Early → clock = s.kernel.clock) ∧
      QuietSteps ⟨s, .loop .tick :: below⟩
        ⟨{ s with kernel := { s.kernel with clock := clock } }, .loop .choose :: below⟩ := by
  cases htick : s.kernel.clock.takeTick? with
  | none =>
    refine ⟨s.kernel.clock, rfl, fun _ => rfl, .cons ?_ rfl .refl⟩
    simp only [Machine.step, stepTick, htick]
  | some clock =>
    obtain ⟨hdue, hnow, -⟩ := Clock.takeTick_cases htick
    have hearly : ¬ s.Early := Nat.not_lt.2 hdue
    refine ⟨clock, hnow, fun he => absurd he hearly, ?_⟩
    set s₁ : System := { s with
      kernel := { s.kernel.enter with clock := clock }, handlers := [] }
    have hstep : Machine.step ⟨s, .loop .tick :: below⟩ =
        .next ⟨s₁, .delivery s.kernel.level [] s.handlers :: .loop .choose :: below⟩ := by
      simp only [Machine.step, stepTick, htick]
      rfl
    exact .cons hstep rfl (quiet_delivery (s := s₁) s.kernel.level s.handlers rfl ha rfl [] hw)

/-! ## The verdict -/

/-- What the system is like when the run loop has returned `v`. -/
structure Returned (s : System) (v : Value) (s' : System) : Prop where
  verdict : s'.Verdict v
  handlers : s'.handlers = s.handlers
  alarms : s'.alarms = s.alarms
  clock : s'.kernel.clock = s.kernel.clock
  sound : s'.kernel.table.Sound
  unowned : s'.kernel.table.links.owner s'.kernel.readyQueue = none

/-- The choice after which a run returns. -/
theorem verdict_of_returns (ho : s.Orderly none) (he : s.Enrolled s.handlers)
    (hc : a.code = .act .run :: rest)
    (h : Returns actor v ⟨s, .loop .choose :: .program actor a :: below⟩ m') :
    Returned s v m'.system := by
  obtain ⟨-, hstep, ⟨b, below', hstack⟩, time, hlog⟩ := h
  have hstep : stepChoose (.program actor a :: below) s = .next m' := hstep
  unfold stepChoose Kernel.chooseThread at hstep
  cases hadm : s.kernel.enter.admitWoken with
  | error e =>
    simp only [hadm] at hstep
    cases hstep
  | ok k =>
    obtain ⟨hp, hl, hch, -⟩ := placed_admitted ho hadm
    simp only [hadm] at hstep
    cases hn : k.nextThread k.readyQueue with
    | error e =>
      simp only [hn] at hstep
      cases hstep
    | ok r =>
      obtain ⟨o, k₁⟩ := r
      simp only [hn] at hstep
      cases o with
      | some t =>
        exfalso
        simp only [stepDispatch] at hstep
        split at hstep
        · cases hstep
        · cases hstep
          cases hstack
        · cases hstep
          cases hstack
      | none =>
        obtain ⟨hp₁, -⟩ := hp.choose_none hn
        obtain ⟨hidle, hown⟩ := Kernel.nextThread_idle hp.1.sound hch hn
        have hclock : k₁.clock = s.kernel.clock :=
          (Kernel.nextThread_steady hn).clock.trans (Kernel.admitWoken_steady hadm).clock
        set s₁ : System := s.withKernel (k₁.restore s.kernel.level)
        have ho₁ : s₁.Orderly none := ho.kernel (hp₁.congr rfl rfl rfl)
        have hback : ∀ w, s₁.Verdict w →
            returnFrom w (.program actor a :: below) s₁ = .next m' → Returned s v m'.system := by
          intro w hw hr
          obtain ⟨level, hret⟩ := returnFrom_spec s₁ actor w below hc
          rw [hret] at hr
          cases hr
          cases (List.cons.inj hlog).1
          refine ⟨?_, rfl, rfl, hclock, hp₁.1.sound, hown⟩
          cases hw with
          | finished hz => exact .finished hz
          | deadlock htells hs => exact .deadlock htells hs.relabel
        have hstep : stepIdle (.program actor a :: below) s₁ = .next m' := hstep
        unfold stepIdle at hstep
        split at hstep
        · rename_i hz
          exact hback _ (.finished (beq_iff_eq.1 hz)) hstep
        · rename_i hz
          split at hstep
          · cases hstep
            cases hstack
          · rename_i hp
            have hn : 0 < s₁.kernel.numThreads :=
              Nat.pos_of_ne_zero fun e => hz (beq_iff_eq.2 e)
            have hawake := System.awake_of_not_pending (Bool.not_eq_true _ ▸ hp) he
            exact hback _ (.deadlock (Fail.stuck_tells _ _)
              (ho₁.stuck ⟨hidle.channel, hidle.ready⟩ hn hawake)) hstep

/-- A run that fails leaves nothing to be done by another one. -/
theorem again_of_deadlock {s' : System} {m₂ : Machine} {f : Fail} {actor' : Actor}
    (h : Returned s (.failure f) s') (hearly : s.Early)
    (ha : ∀ x ∈ s.handlers, ∃ i, x = Handler.alarm i) (hu : Unchanged s' m₂.system)
    (hm : m₂.Iterates actor') :
    ∃ m₃ m₄, QuietSteps m₂ m₃ ∧ Returns actor' (.failure f) m₃ m₄ ∧
      m₄.system.kernel.enter = s'.kernel.enter := by
  obtain ⟨s₂, stack⟩ := m₂
  obtain ⟨b, rest, below, hstack, hc⟩ := hm
  have hstack : stack = .loop .tick :: .program actor' b :: below := hstack
  subst hstack
  obtain ⟨hkernel, hhandlers, halarms⟩ := hu
  obtain ⟨hv, hh, -, hclock, hsound, hown⟩ := h
  generalize hw : Value.failure f = w at hv
  cases hv with
  | finished => cases hw
  | deadlock htells hstuck =>
    cases hw
    obtain rfl := htells.eq_stuck
    have hk : s₂.kernel = s'.kernel.restore s₂.kernel.level := by
      have hk := congrArg (Kernel.restore s₂.kernel.level) hkernel
      exact hk
    have hawake : ∀ x ∈ s₂.alarms, x.sleepers = [] := by
      rw [halarms]
      exact hstuck.awake
    have honly : ∀ x ∈ s₂.handlers, ∃ i, x = Handler.alarm i := by
      rw [hhandlers, hh]
      exact ha
    have hearly₂ : s₂.Early := by
      rw [System.Early, hk]
      show s'.kernel.clock.now < s'.kernel.clock.nextTick
      rw [hclock]
      exact hearly
    obtain ⟨clock, -, hsame, hquiet⟩ := quiet_tick s₂ (.program actor' b :: below) hawake honly
    rw [hsame hearly₂] at hquiet
    obtain ⟨m₄, tb, hret, htb, hm₄⟩ := returns_stuck s₂ actor' below
      (by rw [hk]; exact hsound)
      (by rw [hk]; exact ⟨hstuck.idle.channel, hstuck.idle.ready⟩)
      (by rw [hk]; exact hstuck.alive) (System.not_pending hawake honly) hc
    refine ⟨_, m₄, hquiet, ?_, ?_⟩
    · rw [hk] at hret
      exact hret
    · rw [hk] at htb
      cases Table.releaseOwnership_unowned hown htb
      rw [hm₄, hkernel]
      rfl

/-- A choice after which the program goes on was the last one of its run. -/
theorem returns_of_step (hc : a.code = .act .run :: rest)
    (hr : stepChoose (.program actor a :: below) s = .next m')
    (hm : m'.phase? = none ∧ m'.thread? = none) :
    ∃ v, Returns actor v ⟨s, .loop .choose :: .program actor a :: below⟩ m' := by
  have hstep : Machine.step ⟨s, .loop .choose :: .program actor a :: below⟩ = .next m' := hr
  cases stepChoose_next hr with
  | dispatches => cases hm.2
  | misses => cases hm.1
  | waits => cases hm.1
  | @returns k v m' _ _ back =>
    obtain ⟨level, hspec⟩ := returnFrom_spec (s.withKernel k) actor v below hc
    rw [hspec] at back
    cases back
    exact ⟨v, ⟨a, below, rfl⟩, hstep, ⟨_, below, rfl⟩, _, rfl⟩

/-- The program for which the run loop is about to choose a thread. -/
def caller? (m : Machine) : Option Actor :=
  match m.stack with
  | .loop .choose :: .program actor ⟨.act .run :: _, _, _, _, _⟩ :: _ => some actor
  | _ => none

theorem exists_returns (hc : m.caller? = some actor) (hs : m.step = .next m')
    (hm : m'.phase? = none ∧ m'.thread? = none) : ∃ v, Returns actor v m m' := by
  obtain ⟨s, stack⟩ := m
  unfold caller? at hc
  split at hc
  · rename_i hstack
    obtain rfl : stack = _ := hstack
    cases hc
    exact returns_of_step rfl hs hm
  · cases hc

theorem run_verdict {n i : Nat} {ms : Nat → Machine} {gen : Generator} {settings : Settings}
    {k : Kernel Activation} {programs : List Program} {main : List Action} (h : Execution n ms)
    (hk : Kernel.start gen settings = .ok k) (hstart : ms 0 = start k programs main)
    (hp : ∀ p ∈ programs, Instr.plainList p.code = true) (hm : Action.plainList main = true)
    (hi : i ≤ n) (ha : ∀ x ∈ (ms i).handlers, ∃ a, x = Handler.alarm a) :
    (∀ v m', Returns .main v (ms i) m' → m'.system.Verdict v) ∧
      ((ms i).Iterates .main → (ms i).system.Stuck → ∃ f m₁ m₂,
        f.TellsDeadlock (ms i).system.kernel.numThreads (ms i).system.kernel.now ∧
          QuietSteps (ms i) m₁ ∧ Returns .main (.failure f) m₁ m₂) ∧
      ∀ f m' m₂, Returns .main (.failure f) (ms i) m' → Unchanged m'.system m₂.system →
        m₂.Iterates .main → ∃ m₃ m₄, QuietSteps m₂ m₃ ∧ Returns .main (.failure f) m₃ m₄ ∧
          m₄.system.kernel.enter = m'.system.kernel.enter := by
  have ho := h.orderly (hstart ▸ start_orderly hk hp hm) hi
  have hflat := (h.bears_or_flat hi).resolve_left (not_bears ha)
  generalize ms i = m at ho hflat ha ⊢
  have hreturned : ∀ {v m'}, Returns .main v m m' →
      Returned m.system v m'.system ∧ m.system.Early := by
    intro v m' h
    obtain ⟨a, below, hstack⟩ := h.loop
    cases hflat with
    | program => cases hstack
    | thread => cases hstack
    | delivery => cases hstack
    | loop henr hc hearly =>
      cases hstack
      exact ⟨verdict_of_returns (ho.boundary rfl) henr hc h, hearly rfl⟩
  have hsys : ∀ x ∈ m.system.handlers, ∃ i, x = Handler.alarm i :=
    fun x hx => ha x (List.mem_append_left _ hx)
  refine ⟨fun v m' h => (hreturned h).1.verdict, fun hi hs => ?_, fun f m' m₂ h hu hi => ?_⟩
  · obtain ⟨s, stack⟩ := m
    obtain ⟨a, rest, below, hstack, hc⟩ := hi
    have hstack : stack = .loop .tick :: .program .main a :: below := hstack
    subst hstack
    obtain ⟨clock, hnow, -, hquiet⟩ := quiet_tick s (.program .main a :: below) hs.awake hsys
    have hs₀ : s.Orderly none := ho.boundary rfl
    obtain ⟨m', -, hret, -⟩ := returns_stuck
      { s with kernel := { s.kernel with clock := clock } } .main below hs₀.placed.1.sound
      ⟨hs.idle.channel, hs.idle.ready⟩ hs.alive (System.not_pending hs.awake hsys) hc
    refine ⟨_, _, m', Fail.stuck_tells _ _, hquiet, ?_⟩
    have hnow : ({ s.kernel with clock := clock } : Kernel Activation).now = s.kernel.now := hnow
    rw [hnow] at hret
    exact hret
  · obtain ⟨hret, hearly⟩ := hreturned h
    exact again_of_deadlock hret hearly hsys hu hi

/-- A thread retires with a lock that another one waits for. -/
def abandonedPrograms : List Program := [⟨"holder", [.acquire 0]⟩, ⟨"waiter", [.acquire 0]⟩]

def abandonedMain : List Action := [.newLock, .newAlarm, .spawn 0, .spawn 1, .run, .run]

theorem run_verdict_abandoned : ∃ (n : Nat) (ms : Nat → Machine) (k : Kernel Activation) (f : Fail),
    Execution n ms ∧ Kernel.start .counting lendingSettings = .ok k ∧
    ms 0 = start k abandonedPrograms abandonedMain ∧
    (∀ p ∈ abandonedPrograms, Instr.plainList p.code = true) ∧
    Action.plainList abandonedMain = true ∧ 15 ≤ n ∧
    (∀ x ∈ (ms 14).handlers, ∃ a, x = Handler.alarm a) ∧
    Returns .main (.failure f) (ms 14) (ms 15) ∧
    f = ⟨35, "no runnable threads left (blocked=1, now=2)"⟩ ∧ (ms 15).system.Stuck := by
  have hrun : (Kernel.start .counting lendingSettings).toOption.any (fun k =>
      let ms := fun i => (run i (start k abandonedPrograms abandonedMain)).1
      (run 15 (ms 0)).2 = .unfinished ∧ (ms 14).caller? = some .main ∧
        (ms 14).handlers.map Handler.alarm? = [some 0] ∧
        ((ms 15).phase? = none ∧ (ms 15).thread? = none) ∧
        (ms 15).system.kernel.numThreads = 1 ∧ (ms 15).system.kernel.now = 2) = true := by
    decide +kernel
  have hp : ∀ p ∈ abandonedPrograms, Instr.plainList p.code = true := by decide
  have hm : Action.plainList abandonedMain = true := by decide
  obtain ⟨k, hk, hrun⟩ := exists_start hrun
  obtain ⟨hn, hcaller, halarms, hback, hone, hnow⟩ := of_decide_eq_true hrun
  have hexec := execution_run hk hn
  have ha : ∀ x ∈ (run 14 (start k abandonedPrograms abandonedMain)).1.handlers,
      ∃ a, x = Handler.alarm a := by
    intro x hx
    have hx := List.mem_map_of_mem (f := Handler.alarm?) hx
    rw [halarms, List.mem_singleton] at hx
    cases x with
    | alarm i => exact ⟨i, rfl⟩
    | routine => cases hx
  obtain ⟨v, hret⟩ := exists_returns hcaller (step_run hn (by decide : 14 < 15)) hback
  have hverdict := (run_verdict hexec hk rfl hp hm (by decide : 14 ≤ 15) ha).1 v _ hret
  cases hverdict with
  | finished hz => cases hone.symm.trans hz
  | deadlock htells hs =>
    rw [hone, hnow] at htells
    exact ⟨15, _, k, _, hexec, hk, rfl, hp, hm, le_refl 15, ha, hret, htells.eq_stuck, hs⟩

end Machine
end ThreadKernel
