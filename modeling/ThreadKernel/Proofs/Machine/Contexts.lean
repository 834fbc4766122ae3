import ThreadKernel.Proofs.Machine.Dozing
import ThreadKernel.Proofs.Machine.JoinQueues
import ThreadKernel.Proofs.Machine.Levels

/-!
# ThreadKernel.Proofs.Machine.Contexts

The interrupt level belongs to the context of whoever runs. A thread goes on at the level at which it
suspended, whatever ran meanwhile, and whoever runs the kernel finds its own level again. Nothing is
assumed of how programs nest their atomic regions.

* `Machine.savedLevel?` — the level kept for a thread; `Turn.savedLevel?` — what a step does to it.
* `Context`             — the level at which a thread suspended last.
* `Machine.Awaits`      — a call of the run loop that has not returned, and the level it returns to.
* `execution_levels`    — the levels of all threads, of timer handlers and of callers of the loop.
-/

namespace ThreadKernel

namespace Kernel

variable {k k' : Kernel Activation}

/-- Whoever is alive was alive before, with the same saved level. -/
structure KeepsLevels (k k' : Kernel Activation) : Prop where
  slot : ∀ {t slot'}, k'.registry.get? t = some slot' →
    ∃ slot, k.registry.get? t = some slot ∧ slot.level = slot'.level

theorem KeepsLevels.of_registry (h : k'.registry = k.registry) : KeepsLevels k k' :=
  ⟨fun {t slot'} hs => ⟨slot', by rwa [← h], rfl⟩⟩

theorem Steady.level_kept (h : Steady k k') {t : ThreadId} {slot slot' : Slot Activation}
    (hs : k.registry.get? t = some slot) (hs' : k'.registry.get? t = some slot') :
    slot'.level = slot.level := by
  obtain ⟨signal, hkept⟩ := h.slot hs
  rw [hkept] at hs'
  cases hs'
  rfl

theorem Steady.keepsLevels (h : Steady k k') (hr : Retains k k') : KeepsLevels k k' := by
  refine ⟨fun {t slot'} hs' => ?_⟩
  obtain ⟨slot, hs, -⟩ := hr.slot hs'
  exact ⟨slot, hs, (h.level_kept hs hs').symm⟩

theorem retire_keepsLevels {t : ThreadId} (h : k.retire t = .ok k') : KeepsLevels k k' := by
  refine ⟨fun {u slot'} hs' => ?_⟩
  obtain ⟨slot, hs, -⟩ := (retire_retains h).slot hs'
  obtain ⟨k₁, hsteady, rfl⟩ := retire_cases h
  have herase : (k₁.registry.slots.erase t).get? u = some slot' := hs'
  rw [Directory.get?_erase] at herase
  split at herase
  · cases herase
  · exact ⟨slot, hs, (hsteady.level_kept (k := k.enter) hs herase).symm⟩

end Kernel

/-! ## Levels of threads that do not run -/

namespace System

variable {a a' : Activation} {s s' : System} {actor : Actor}

/-- A thread that a step of a program gave life to starts with interrupts enabled. -/
theorem stepCode_newborn (hr : s.stepCode actor a = .ok (.go a' s')) (hk : s.kernel.Sane)
    {t : ThreadId} {slot : Slot Activation} (hn : s.kernel.registry.get? t = none)
    (hs : s'.kernel.registry.get? t = some slot) : slot.level = .enabled := by
  rcases stepCode_retains_or_spawns hr with hretains | ⟨_, _, u, k, _, -, -, hspawn, hkernel⟩
  · obtain ⟨_, hold, -⟩ := hretains.slot hs
    cases hn.symm.trans hold
  · obtain ⟨_, hspawned⟩ := Kernel.spawn_ok hk.sound hspawn
    rw [hkernel] at hs
    have hs : k.registry.get? t = some slot := hs
    rw [hspawned.get?] at hs
    split at hs
    · cases hs
      rfl
    · cases hn.symm.trans hs

end System

namespace Machine

variable {m m' : Machine} {t : ThreadId} {level : Level}

/-- The level that is kept for the thread while it does not run. -/
def savedLevel? (m : Machine) (t : ThreadId) : Option Level :=
  (m.system.kernel.registry.get? t).map Slot.level

/-- The next step suspends the thread. -/
def Suspends (t : ThreadId) (m : Machine) : Prop :=
  ∃ d below a s, m.stack = .thread d :: below ∧ d.thread = t ∧
    m.system.stepCode (.thread t) d.task.coroutine = .ok (.park a s)

/-- The step puts the thread on the processor. -/
def Dispatches (t : ThreadId) (m m' : Machine) : Prop := m.thread? = none ∧ m'.thread? = some t

/-- Where the level that is kept for a thread comes from. -/
inductive Kept (m : Machine) (t : ThreadId) (level : Level) : Prop where
  | suspends (suspends : m.Suspends t) (level : level = m.system.kernel.level)
  | same (other : ¬ m.Suspends t) (before : m.savedLevel? t = some level)
  | new (other : ¬ m.Suspends t) (number : m.system.kernel.registry.nextNumber ≤ t.number)
      (enabled : level = .enabled)

theorem not_suspends_of_idle (h : m.thread? = none) : ¬ m.Suspends t := by
  rintro ⟨d, below, _, _, hstack, -⟩
  rw [thread?_eq hstack] at h
  cases h

theorem Kept.of_keepsLevels {k : Kernel Activation} (ho : ¬ m.Suspends t)
    (h : Kernel.KeepsLevels m.system.kernel k) {slot : Slot Activation}
    (hs : k.registry.get? t = some slot) : Kept m t slot.level := by
  obtain ⟨slot₀, hs₀, hlevel⟩ := h.slot hs
  exact .same ho (by rw [savedLevel?, hs₀, Option.map_some, hlevel])

/-- A step of a program keeps the levels of all threads. -/
theorem Kept.of_code {actor : Actor} {a a' : Activation} {slot : Slot Activation}
    (ho : ¬ m.Suspends t) (hk : m.system.kernel.Sane)
    (hc : m.system.stepCode actor a = .ok (.go a' m'.system))
    (hs : m'.system.kernel.registry.get? t = some slot) : Kept m t slot.level := by
  cases hold : m.system.kernel.registry.get? t with
  | none =>
    refine .new ho ?_ (System.stepCode_newborn hc hk hold hs)
    exact ((System.stepCode_grows hc).kernel.newer hs hold).1
  | some slot₀ =>
    have hlevel := (System.stepCode_grows hc).kernel.level_kept hold hs
    exact .same ho (by rw [savedLevel?, hold, Option.map_some, hlevel])

/-- A thread that suspends leaves its level, and nobody else's level changes. -/
theorem Kept.of_park {d : Kernel.Dispatched Activation} {a' : Activation} {s : System}
    {k : Kernel Activation} {below : List Frame} {slot : Slot Activation}
    (hstack : m.stack = .thread d :: below)
    (hcode : m.system.stepCode (.thread d.thread) d.task.coroutine = .ok (.park a' s))
    (hpark : s.kernel.park (holding d a') = .ok k) (hs : k.registry.get? t = some slot) :
    Kept m t slot.level := by
  obtain ⟨_, _, _, _, k₁, -, -, -, hpoll, -, rfl⟩ := System.stepCode_park hcode
  obtain ⟨-, -, -, slot₁, hslot₁, hget⟩ := park_get? hpark
  rw [hget] at hs
  split at hs
  · rename_i ht
    cases hs
    exact .suspends ⟨d, below, a', _, hstack, ht, ht ▸ hcode⟩ (Kernel.pollPoint_steady hpoll).level
  · rename_i hne
    have hother : ¬ m.Suspends t := by
      rintro ⟨d', _, _, _, hstack', rfl, -⟩
      rw [hstack] at hstack'
      cases hstack'
      exact hne rfl
    exact .of_keepsLevels hother
      ((Kernel.pollPoint_steady hpoll).keepsLevels (Kernel.pollPoint_retains hpoll)) hs

theorem Turn.kept (h : Turn m m') (hr : m.Regular) (hs : m'.savedLevel? t = some level) :
    Kept m t level := by
  obtain ⟨slot, hslot, rfl⟩ := Option.map_eq_some_iff.1 hs
  have hidle : Idle m.stack → ¬ m.Suspends t := fun hi =>
    not_suspends_of_idle (thread?_of_idle hi)
  have hquiet : ∀ {k : Kernel Activation}, Idle m.stack →
      Kernel.KeepsLevels m.system.kernel k → System.Same (m.system.withKernel k) m'.system →
      Kept m t slot.level := by
    intro k hi hkeeps hsame
    have hk : k.registry.get? t = some slot := by
      rw [hsame.registry] at hslot
      exact hslot
    exact .of_keepsLevels (hidle hi) hkeeps hk
  cases h with
  | program stack code _ =>
    exact .of_code (not_suspends_of_idle (by rw [thread?, stack])) hr.sane code hslot
  | @thread d _ _ stack code _ =>
    refine .of_code ?_ hr.sane code hslot
    rintro ⟨d', _, _, _, hstack', rfl, hpark⟩
    rw [stack] at hstack'
    cases hstack'
    cases code.symm.trans hpark
  | parks stack code park system _ =>
    rw [system] at hslot
    exact .of_park stack code park hslot
  | retires stack code finish system _ =>
    rw [system] at hslot
    rw [System.restoreAll_eq] at finish
    refine .of_keepsLevels ?_ ⟨fun hs => (Kernel.retire_keepsLevels finish).slot hs⟩ hslot
    rintro ⟨d', _, _, _, hstack', -, hpark⟩
    rw [stack] at hstack'
    cases hstack'
    obtain ⟨_, _, _, _, _, hcode, -⟩ := System.stepCode_park hpark
    exact hcode code
  | alarm idle _ release same _ _ _ =>
    obtain ⟨hwake, -⟩ := Alarm.release_ok release
    exact hquiet idle
      ((Kernel.wakeEach_steady _ hwake).keepsLevels (Kernel.wakeEach_retains _ hwake)) same
  | chooses idle _ choose same =>
    refine hquiet idle ⟨fun hs => ?_⟩ same
    rw [Kernel.choose_get? choose] at hs
    exact ⟨_, hs, rfl⟩
  | @dispatches u k k' d below idle choose dispatch system _ _ =>
    rw [system] at hslot
    obtain ⟨-, -, -, -, -, slot₀, hslot₀, -, hget⟩ := dispatch_get? dispatch
    refine .of_keepsLevels (hidle idle) (k := k') ⟨fun {v slot'} hs => ?_⟩ hslot
    rw [hget] at hs
    split at hs
    · rename_i hv
      cases hs
      rw [Kernel.choose_get? choose] at hslot₀
      exact ⟨slot₀, hv ▸ hslot₀, rfl⟩
    · rw [Kernel.choose_get? choose] at hs
      exact ⟨_, hs, rfl⟩
  | quiet idle _ same => exact hquiet (k := m.system.kernel) idle (.of_registry rfl) same

/-- A thread is dispatched at the level that was kept for it. -/
theorem Turn.resumes (h : Turn m m') (hd : Dispatches t m m') :
    m.savedLevel? t = some m'.system.kernel.level := by
  obtain ⟨hnone, ht⟩ := hd
  have hbelow : ∀ {P : Prop} {f : Frame} {below : List Frame}, Idle (f :: below) →
      m'.stack = below → P := by
    intro P f below hi hs
    rw [thread?_of_idle fun d hd => hi d (List.mem_cons_of_mem _ (hs ▸ hd))] at ht
    cases ht
  have hidle : ∀ {P : Prop}, Idle m'.stack → P := fun hi => by
    rw [thread?_of_idle hi] at ht
    cases ht
  cases h with
  | program _ _ after =>
    rw [thread?, after] at ht
    cases ht
  | thread stack _ _ | parks stack _ _ _ _ | retires stack _ _ _ _ =>
    rw [thread?_eq stack] at hnone
    cases hnone
  | alarm _ idle' _ _ _ _ _ | chooses _ idle' _ _ | quiet _ idle' _ => exact hidle idle'
  | @dispatches u k k' d below _ choose dispatch system _ after =>
    rw [thread?_eq after] at ht
    cases ht
    obtain ⟨slot, task, hslot, -, rfl, rfl⟩ := Kernel.dispatch_ok dispatch
    rw [Kernel.choose_get? choose] at hslot
    rw [savedLevel?, hslot, system]
    rfl

/-! ## Levels of those who run the kernel -/

variable {s : System} {actor : Actor} {a : Activation} {below caller : List Frame} {f : Frame}

/-- The run loop that `caller` called at the level has not returned. What is above it gives the level
back. -/
inductive Awaits (level : Level) (caller : List Frame) : Machine → Prop where
  | loop {s : System} {phase : Phase} (here : s.kernel.level = level) :
      Awaits level caller ⟨s, .loop phase :: caller⟩
  | thread {s : System} {d : Kernel.Dispatched Activation} (kept : d.loopLevel = level) :
      Awaits level caller ⟨s, .thread d :: .loop .tick :: caller⟩
  | delivery {s : System} {previous : Level} {called waiting : List Handler}
      (above : List Frame) (kept : previous = level) : Awaits level caller
        ⟨s, above ++ .delivery previous called waiting :: .loop .choose :: caller⟩

theorem Awaits.length_lt (h : Awaits level caller m) : caller.length < m.stack.length := by
  cases h <;> simp only [List.length_append, List.length_cons] <;> omega

theorem Awaits.reseed (h : Awaits level caller m) (g : Random) :
    Awaits level caller (m.reseed g) := by
  cases h with
  | loop here => exact .loop here
  | thread kept => exact .thread kept
  | delivery above kept => exact .delivery above kept

/-- The run loop returns to the program that called it, at the level of the call but for the regions
around the call. -/
structure GivesBack (level : Level) (a : Activation) (below : List Frame) (m m' : Machine) :
    Prop where
  before : m.system.kernel.level = level
  after : m'.system.kernel.level = (m.system.kernel.restoreAll a.regions).level
  caller : ∃ actor a', m'.stack = .program actor a' :: below

theorem stepTick_awaits {caller : List Frame} (hl : s.kernel.level = level)
    (hr : stepTick caller s = .next m') : Awaits level caller m' := by
  cases stepTick_next hr with
  | passes => exact .loop hl
  | interrupts => exact .delivery [] hl

theorem returnFrom_givesBack {v : Value} {rest : List Instr} {phase : Phase} {s₀ : System}
    (hl : s.kernel.level = level) (hl₀ : s₀.kernel.level = level) (hc : a.code = .act .run :: rest)
    (hr : returnFrom v (.program actor a :: below) s = .next m') :
    GivesBack level a below ⟨s₀, .loop phase :: .program actor a :: below⟩ m' := by
  simp only [returnFrom, System.complete, hc] at hr
  cases hr
  refine ⟨hl₀, ?_, _, _, rfl⟩
  show (s.kernel.restoreAll a.regions).level = (s₀.kernel.restoreAll a.regions).level
  rw [System.restoreAll_eq, System.restoreAll_eq, hl, hl₀]
  rfl

theorem stepChoose_awaits {rest : List Instr} (hl : s.kernel.level = level)
    (hc : a.code = .act .run :: rest)
    (hr : stepChoose (.program actor a :: below) s = .next m') :
    Awaits level (.program actor a :: below) m' ∨
      GivesBack level a below ⟨s, .loop .choose :: .program actor a :: below⟩ m' := by
  cases stepChoose_next hr with
  | dispatches choose dispatch =>
    have hk := (choose_level choose).trans hl
    exact .inl (.thread ((dispatch_loopLevel dispatch).trans hk))
  | misses choose =>
    have hk := (choose_level choose).trans hl
    exact .inl (.loop hk)
  | waits choose =>
    have hk := (choose_level choose).trans hl
    exact .inl (.loop hk)
  | returns choose _ back =>
    have hk := (choose_level choose).trans hl
    exact .inr (returnFrom_givesBack hk hl hc back)

theorem stepThread_awaits {d : Kernel.Dispatched Activation} {caller : List Frame}
    (hn : s.kernel.registry.current = some d.thread) (hl : d.loopLevel = level)
    (hr : stepThread d (.loop .tick :: caller) s = .next m') : Awaits level caller m' := by
  cases stepThread_next hr with
  | goes => exact .thread hl
  | parks _ park => exact .loop ((park_level park).trans hl)
  | calls code =>
    obtain ⟨-, -, hcur, -⟩ := System.stepCode_call code
    cases hcur.symm.trans hn
  | ends _ finish => exact .loop ((finish_level finish).trans hl)

/-- A step leaves all frames but the first one alone, except that a call of the run loop is complete
when the loop returns. -/
theorem step_below (hs : m.stack = f :: below) (hr : m.step = .next m') :
    (∃ above, m'.stack = above ++ below) ∨
      ∃ actor a a' rest, below = .program actor a :: rest ∧ m'.stack = .program actor a' :: rest := by
  unfold Machine.step at hr
  rw [hs] at hr
  cases f with
  | program actor a =>
    cases stepProgram_next hr with
    | goes | parks => exact .inl ⟨[_], rfl⟩
    | calls => exact .inl ⟨[_, _], rfl⟩
    | ends => exact .inl ⟨[], rfl⟩
  | thread d =>
    cases stepThread_next hr with
    | goes => exact .inl ⟨[_], rfl⟩
    | calls => exact .inl ⟨[_, _], rfl⟩
    | parks | ends => exact .inl ⟨[], rfl⟩
  | loop phase =>
    cases phase with
    | tick =>
      cases stepTick_next hr with
      | passes => exact .inl ⟨[_], rfl⟩
      | interrupts => exact .inl ⟨[_, _], rfl⟩
    | choose =>
      cases stepChoose_next hr with
      | dispatches => exact .inl ⟨[_, _], rfl⟩
      | misses | waits => exact .inl ⟨[_], rfl⟩
      | returns _ _ back =>
        cases returnFrom_next back with
        | completes => exact .inr ⟨_, _, _, _, rfl, rfl⟩
        | drops => exact .inl ⟨[], rfl⟩
  | delivery previous called waiting =>
    cases stepDelivery_next hr with
    | ends => exact .inl ⟨[], rfl⟩
    | skips | rings | spent => exact .inl ⟨[_], rfl⟩
    | runs => exact .inl ⟨[_, _], rfl⟩

theorem stepDelivery_awaits {previous : Level} {called waiting : List Handler}
    {caller : List Frame} (hl : previous = level)
    (hr : stepDelivery previous called waiting (.loop .choose :: caller) s = .next m') :
    Awaits level caller m' := by
  cases stepDelivery_next hr with
  | ends => exact .loop hl
  | skips | rings | spent => exact .delivery [] hl
  | runs => exact .delivery [_] hl

theorem Awaits.step {rest : List Instr} (h : Awaits level (.program actor a :: below) m)
    (hreg : m.Regular) (hc : a.code = .act .run :: rest) (hr : m.step = .next m') :
    Awaits level (.program actor a :: below) m' ∨ GivesBack level a below m m' := by
  cases h with
  | @loop s phase hl =>
    cases phase with
    | tick => exact .inl (stepTick_awaits hl hr)
    | choose => exact stepChoose_awaits hl hc hr
  | thread hl => exact .inl (stepThread_awaits hreg.current hl hr)
  | @delivery s previous called waiting above hl =>
    cases above with
    | nil => exact .inl (stepDelivery_awaits hl hr)
    | cons f above =>
      rcases step_below (List.cons_append ..) hr with ⟨above', hs⟩ | ⟨actor', a₀, a', rest', hb, hs⟩
      · obtain ⟨s', stack'⟩ := m'
        simp only at hs
        subst hs
        rw [← List.append_assoc]
        exact .inl (.delivery _ hl)
      · cases above with
        | nil => cases hb
        | cons f' above =>
          obtain ⟨s', stack'⟩ := m'
          simp only at hs
          subst hs
          obtain ⟨-, rfl⟩ := List.cons.inj hb
          exact .inl (.delivery (.program actor' a' :: above) hl)

/-- The program of `a` calls the run loop, and no thread does. -/
theorem awaits_of_begins (hreg : m.Regular) (ha : m.executing? = some a)
    (hb : a.Begins (.act .run)) (hr : m.step = .next m') :
    ∃ actor below, m.stack = .program actor a :: below ∧
      Awaits m.system.kernel.level (.program actor a :: below) m' := by
  obtain ⟨s, stack⟩ := m
  obtain ⟨hstage, rest, hcode⟩ := hb
  have hstep : ∀ actor, s.stepCode actor a = s.stepInstr actor (.act .run) rest a := fun actor =>
    System.stepCode_fresh hstage hcode
  cases stack with
  | nil => cases ha
  | cons f below =>
    cases f with
    | program actor b =>
      cases ha
      have hcur : s.kernel.registry.current = none := hreg.current
      simp only [Machine.step, stepProgram, hstep, System.stepInstr, System.stepAction, hcur] at hr
      cases hr
      exact ⟨actor, below, rfl, .loop rfl⟩
    | thread d =>
      cases ha
      have hcur : s.kernel.registry.current = some d.thread := hreg.current
      simp only [Machine.step, stepThread, hstep, System.stepInstr, System.stepAction, hcur] at hr
      cases hr
    | loop phase => cases ha
    | delivery previous called waiting => cases ha

/-! ## Every execution -/

/-- A thread that suspends is alive. -/
theorem Turn.suspends_alive (h : Turn m m') (hs : m.Suspends t) :
    ∃ slot, m.system.kernel.registry.get? t = some slot := by
  obtain ⟨d, below, a', s, hstack, rfl, hcode⟩ := hs
  have hidle : ∀ {P : Prop}, Idle m.stack → P := fun hi =>
    absurd (hstack ▸ List.mem_cons_self) (hi d)
  cases h with
  | program stack _ _ => cases hstack.symm.trans stack
  | thread stack code _ =>
    cases hstack.symm.trans stack
    cases hcode.symm.trans code
  | parks stack code park _ _ =>
    cases hstack.symm.trans stack
    cases hcode.symm.trans code
    obtain ⟨slot, hslot, -⟩ := Kernel.park_ok park
    obtain ⟨_, _, _, _, _, -, -, -, hpoll, -, rfl⟩ := System.stepCode_park code
    obtain ⟨slot', hslot', -⟩ := (Kernel.pollPoint_retains hpoll).slot hslot
    exact ⟨slot', hslot'⟩
  | retires stack code _ _ _ =>
    cases hstack.symm.trans stack
    obtain ⟨_, _, _, _, _, hne, -⟩ := System.stepCode_park hcode
    exact absurd code hne
  | alarm idle _ _ _ _ _ _ | chooses idle _ _ _ | dispatches idle _ _ _ _ _ | quiet idle _ _ =>
    exact hidle idle

end Machine

open Machine (Suspends Dispatches Delivering)

/-- The level at which the thread suspended last before the step `i`, or enabled if it never did. -/
inductive Context (ms : Nat → Machine) (t : ThreadId) (i : Nat) (level : Level) : Prop where
  | suspended {j : Nat} (before : j < i) (suspends : (ms j).Suspends t)
      (then_level : (ms j).system.kernel.level = level)
      (last : ∀ k, j < k → k < i → ¬ (ms k).Suspends t)
  | new (never : ∀ k < i, ¬ (ms k).Suspends t) (enabled : level = .enabled)

namespace Execution

variable {n i j : Nat} {ms : Nat → Machine} {t : ThreadId} {level : Level}

theorem settles (h : Execution n ms) (hi : i < n) :
    Kernel.Settles (ms i).system.kernel (ms (i + 1)).system.kernel := by
  have hc := h.coherent (Nat.le_of_lt hi)
  obtain ⟨m, g, -, hturn, hm⟩ := h.next hi hc
  have hsettles := hturn.settles hc.toRegular
  rw [hm]
  refine ⟨hsettles.number, fun {u slot} hs => ?_⟩
  refine (hsettles.slot hs).imp_right fun ⟨hle, hlt, hnew⟩ => ⟨hle, hlt, fun hq => ?_⟩
  obtain ⟨hholds, hfree⟩ := hnew hq
  exact ⟨⟨hholds.owner, hholds.transfer⟩, hfree⟩

theorem nextNumber_le (h : Execution n ms) (hj : j ≤ i) (hi : i ≤ n) :
    (ms j).system.kernel.registry.nextNumber ≤ (ms i).system.kernel.registry.nextNumber := by
  induction i, hj using Nat.le_induction with
  | base => exact le_rfl
  | succ i hij ih => exact (ih (by omega)).trans (h.settles hi).number

theorem start_registry (h : Execution n ms) :
    (ms 0).system.kernel.registry = (.empty : Registry Activation) := by
  obtain ⟨_, _, k, programs, main, hk, hm⟩ := h.start
  obtain ⟨clock, rfl⟩ := Machine.start_ok hk
  rw [hm]
  rfl

/-- Live threads have numbers that were given. -/
theorem number_lt (h : Execution n ms) (hi : i ≤ n) {slot : Slot Activation}
    (hs : (ms i).system.kernel.registry.get? t = some slot) :
    t.number < (ms i).system.kernel.registry.nextNumber := by
  induction i generalizing slot with
  | zero =>
    rw [h.start_registry] at hs
    cases hs
  | succ i ih =>
    have hsettles := h.settles hi
    rcases hsettles.slot hs with ⟨slot', hs', -⟩ | ⟨-, hlt, -⟩
    · exact (ih (by omega) hs').trans_le hsettles.number
    · exact hlt

theorem suspended_lt (h : Execution n ms) (hj : j < i) (hi : i ≤ n) (hs : (ms j).Suspends t) :
    t.number < (ms i).system.kernel.registry.nextNumber := by
  obtain ⟨m, g, -, hturn, -⟩ := h.next (by omega) (h.coherent (by omega : j ≤ n))
  obtain ⟨slot, hslot⟩ := hturn.suspends_alive hs
  exact (h.number_lt (by omega) hslot).trans_le (h.nextNumber_le hj.le hi)

/-- The level that is kept for a thread is the one at which it suspended last. -/
theorem context (h : Execution n ms) (hi : i ≤ n) (hs : (ms i).savedLevel? t = some level) :
    Context ms t i level := by
  induction i generalizing level with
  | zero =>
    rw [Machine.savedLevel?, h.start_registry] at hs
    cases hs
  | succ i ih =>
    have hc := h.coherent (by omega : i ≤ n)
    obtain ⟨m, g, -, hturn, hm⟩ := h.next (by omega) hc
    rw [hm] at hs
    cases hturn.kept hc.toRegular hs with
    | suspends suspends level =>
      exact .suspended (Nat.lt_succ_self i) suspends level.symm fun k hk hk' => by omega
    | same other before =>
      have hlast : ∀ {k}, k < i + 1 → ¬ k < i → ¬ (ms k).Suspends t := by
        intro k hk hk'
        rwa [Nat.eq_of_lt_succ_of_not_lt hk hk']
      cases ih (by omega) before with
      | @suspended j hj suspends level last =>
        refine .suspended (hj.trans (Nat.lt_succ_self i)) suspends level fun k hjk hk => ?_
        exact if hki : k < i then last k hjk hki else hlast hk hki
      | new never enabled =>
        exact .new (fun k hk => if hki : k < i then never k hki else hlast hk hki) enabled
    | new other number enabled =>
      refine .new (fun k hk hsus => ?_) enabled
      rcases Nat.lt_succ_iff_lt_or_eq.1 hk with hki | rfl
      · exact absurd (h.suspended_lt hki (by omega) hsus) (by omega)
      · exact other hsus

theorem leveled (h : Execution n ms) (hi : i ≤ n) : (ms i).Leveled := by
  refine h.invariant (h.of_start fun _ => Machine.start_leveled _ _ _)
    (fun j hj m g hstep hl => ?_) hi
  exact (hl.step (h.coherent (Nat.le_of_lt hj)).toRegular hstep).reseed g

end Execution

/-- The run loop that the program of `a` calls in the step `i` returns in the step `j`. -/
structure Runs (ms : Nat → Machine) (a : Activation) (i j : Nat) : Prop where
  caller : (ms i).executing? = some a
  calls : a.Begins (.act .run)
  before : i < j
  inside : ∀ l, i < l → l ≤ j → (ms i).stack.length < (ms l).stack.length
  back : (ms (j + 1)).stack.length ≤ (ms i).stack.length

/-- Until the run loop returns, it awaits the end of what it does at the level of its caller. -/
theorem Execution.awaits {n i j l : Nat} {ms : Nat → Machine} {a : Activation}
    (h : Execution n ms) (hr : Runs ms a i j) (hj : j < n) (hl : i < l) (hlj : l ≤ j) :
    ∃ actor below, (ms i).stack = .program actor a :: below ∧
      Machine.Awaits (ms i).system.kernel.level (.program actor a :: below) (ms l) := by
  obtain ⟨rest, hcode⟩ := hr.calls.2
  induction l, hl using Nat.le_induction with
  | base =>
    have hc := h.coherent (by omega : i ≤ n)
    obtain ⟨m, g, hstep, -, hm⟩ := h.next (by omega) hc
    obtain ⟨actor, below, hstack, hawaits⟩ :=
      Machine.awaits_of_begins hc.toRegular hr.caller hr.calls hstep
    rw [hm]
    exact ⟨actor, below, hstack, hawaits.reseed g⟩
  | succ l hil ih =>
    obtain ⟨actor, below, hstack, hawaits⟩ := ih (by omega)
    have hc := h.coherent (by omega : l ≤ n)
    obtain ⟨m, g, hstep, -, hm⟩ := h.next (by omega) hc
    refine ⟨actor, below, hstack, ?_⟩
    rcases hawaits.step hc.toRegular hcode hstep with hnext | hback
    · rw [hm]
      exact hnext.reseed g
    · obtain ⟨actor', a', hback⟩ := hback.caller
      have hlt := hr.inside (l + 1) (by omega) hlj
      rw [hm, hstack, show (m.reseed g).stack = m.stack from rfl, hback] at hlt
      exact absurd hlt (lt_irrefl _)

/-- Interrupt levels in a run of `n` steps. -/
structure LevelsKept (n : Nat) (ms : Nat → Machine) : Prop where
  /-- A thread goes on at the level at which it suspended last, and begins with interrupts
  enabled. -/
  resumes : ∀ i < n, ∀ t, Dispatches t (ms i) (ms (i + 1)) →
    Context ms t i (ms (i + 1)).system.kernel.level
  /-- While an interrupt is delivered, all that is executed but threads has interrupts disabled. -/
  handlers : ∀ i ≤ n, Delivering (ms i).stack → (ms i).thread? = none →
    (ms i).system.kernel.level = .disabled
  /-- The run loop returns at the level at which it was called, and then the regions around the call
  are left. -/
  returns : ∀ i j a, Runs ms a i j → j < n →
    (ms j).system.kernel.level = (ms i).system.kernel.level ∧
      (ms (j + 1)).system.kernel.level = ((ms i).system.kernel.restoreAll a.regions).level

/-- In every execution the interrupt level is part of the context of those who run. -/
theorem execution_levels {n : Nat} {ms : Nat → Machine} (h : Execution n ms) :
    LevelsKept n ms where
  resumes i hi t hd := by
    have hc := h.coherent hi.le
    obtain ⟨m, g, -, hturn, hm⟩ := h.next hi hc
    rw [hm] at hd ⊢
    exact h.context hi.le (hturn.resumes hd)
  handlers i hi hd hn := (h.leveled hi).level hn hd
  returns i j a hr hj := by
    obtain ⟨rest, hcode⟩ := hr.calls.2
    obtain ⟨actor, below, hstack, hawaits⟩ := h.awaits hr hj hr.before le_rfl
    have hc := h.coherent hj.le
    obtain ⟨m, g, hstep, -, hm⟩ := h.next hj hc
    rcases hawaits.step hc.toRegular hcode hstep with hnext | ⟨hbefore, hafter, -⟩
    · have hlt := hnext.length_lt
      have hback := hr.back
      rw [hm, hstack, show (m.reseed g).stack = m.stack from rfl] at hback
      exact absurd hlt (by omega)
    · refine ⟨hbefore, ?_⟩
      rw [hm]
      refine hafter.trans ?_
      rw [System.restoreAll_eq, System.restoreAll_eq, hbefore]
      rfl

namespace Machine

/-- A thread suspends inside the atomic region in which it spawned another one, which ends inside a
region of its own. A timer handler leaves its region open. -/
def nestedPrograms : List Program :=
  [⟨"parent", [.act .enter, .act (.spawn 1), .yield, .act .exit]⟩,
    ⟨"child", [.act .inAtomic, .act .guard, .yield, .act .enter]⟩]

def nestedMain : List Action := [.timer 1 [.enter, .inAtomic], .spawn 0, .run, .inAtomic]

def nestedSettings : Settings := ⟨.priority, none, 1, 1⟩

/-- The thread suspends in the step 8 and goes on behind the step 23, when the loop and the other
thread have run with interrupts enabled. The run returns in the step 37. -/
theorem execution_levels_nested : ∃ (n : Nat) (ms : Nat → Machine), Execution n ms ∧ 37 < n ∧
    ((ms 8).thread?, (ms 16).thread?, (ms 23).thread?, (ms 24).thread?) =
      (some ⟨1⟩, some ⟨2⟩, none, some ⟨1⟩) ∧
    ((ms 8).system.kernel.level, (ms 16).system.kernel.level, (ms 23).system.kernel.level,
      (ms 24).system.kernel.level) = (.disabled, .enabled, .enabled, .disabled) ∧
    ((ms 33).system.kernel.level, (ms 2).system.kernel.level, (ms 38).system.kernel.level) =
      (.disabled, .enabled, .enabled) ∧ LevelsKept n ms := by
  have hrun : (Kernel.start .counting nestedSettings).toOption.any (fun k =>
      let m := fun i => (run i (start k nestedPrograms nestedMain)).1
      (run 39 (m 0)).2 = .unfinished ∧
        ((m 8).thread?, (m 16).thread?, (m 23).thread?, (m 24).thread?) =
          (some ⟨1⟩, some ⟨2⟩, none, some ⟨1⟩) ∧
        ((m 8).system.kernel.level, (m 16).system.kernel.level, (m 23).system.kernel.level,
          (m 24).system.kernel.level) = (.disabled, .enabled, .enabled, .disabled) ∧
        ((m 33).system.kernel.level, (m 2).system.kernel.level, (m 38).system.kernel.level) =
          (.disabled, .enabled, .enabled)) = true := by
    decide +kernel
  obtain ⟨k, hk, hrun⟩ := exists_start hrun
  obtain ⟨hn, hthreads, hlevels, hcaller⟩ := of_decide_eq_true hrun
  have hexec := execution_run hk hn
  exact ⟨39, _, hexec, by decide, hthreads, hlevels, hcaller, execution_levels hexec⟩

end Machine
end ThreadKernel
