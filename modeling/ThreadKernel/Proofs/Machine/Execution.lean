import ThreadKernel.Proofs.Machine.Guards
import ThreadKernel.Proofs.Machine.Run

/-!
# ThreadKernel.Proofs.Machine.Execution

Runs of arbitrary programs, step by step. The random source may change between any two steps, so
that lotteries may come out in any order.

* `Machine.reseed`      — another random source.
* `Execution`           — a machine for each step, from the start on.
* `Execution.invariant` — what holds at the start and is kept by every step, holds throughout.
* `Activation.Fits`     — what follows a yield point belongs to the instruction that waits there.
* `Machine.Coherent`    — a thread runs only on top of the stack, and all programs fit.
* `Execution.coherent`  — so it is in every execution.
* `Execution.orderly`   — and the system stays orderly if the programs are plain.
-/

namespace ThreadKernel

theorem getElem?_of_isPrefix {α : Type} {l l' : List α} {i : Nat} {x : α} (h : l <+: l')
    (hi : l[i]? = some x) : l'[i]? = some x := by
  obtain ⟨rest, rfl⟩ := h
  rw [List.getElem?_append_left (List.getElem?_eq_some_iff.1 hi).1, hi]

/-- What follows the yield point at which the first instruction waits belongs to it. -/
structure Activation.Fits (s : System) (a : Activation) : Prop where
  acquire : ∀ l rest p r, a.code = .acquire l :: rest → a.stage = .suspended p r →
    ∃ level, r = .takeOver l level
  sleep : ∀ c rest p r, a.code = .sleep c :: rest → a.stage = .suspended p r →
    ∃ x level, s.conditions[c]? = some x ∧ (r = .relock x.lock level ∨ r = .takeOver x.lock level)

theorem Activation.Fits.of_fresh {s : System} {a : Activation} (h : a.stage = .fresh) :
    a.Fits s := by
  constructor
  · intro l rest p r _ hs
    rw [h] at hs
    cases hs
  · intro c rest p r _ hs
    rw [h] at hs
    cases hs

namespace Activation

variable {s s' : System} {a a' : Activation}

theorem Fits.mono (h : a.Fits s) (hc : s.conditions <+: s'.conditions) : a.Fits s' := by
  refine ⟨h.acquire, fun c rest p r hcode hs => ?_⟩
  obtain ⟨x, level, hx, hr⟩ := h.sleep c rest p r hcode hs
  exact ⟨x, level, getElem?_of_isPrefix hc hx, hr⟩

/-- A program asks only for the lock that its first instruction is about. -/
theorem Fits.asks_acquire (h : a.Fits s) {l m : Nat} {rest : List Instr}
    (hc : a.code = .acquire l :: rest) (ha : a.Asks m) : m = l := by
  rcases ha with ⟨-, rest', hc'⟩ | ⟨p, level, hs | hs⟩
  · rw [hc] at hc'
    cases hc'
    rfl
  · obtain ⟨level', hr⟩ := h.acquire l rest p _ hc hs
    cases hr
    rfl
  · obtain ⟨level', hr⟩ := h.acquire l rest p _ hc hs
    cases hr

theorem Fits.asks_sleep (h : a.Fits s) {c m : Nat} {rest : List Instr}
    (hc : a.code = .sleep c :: rest) (ha : a.Asks m) :
    ∃ x, s.conditions[c]? = some x ∧ x.lock = m := by
  rcases ha with ⟨-, rest', hc'⟩ | ⟨p, level, hs | hs⟩
  · rw [hc] at hc'
    cases hc'
  · obtain ⟨x, level', hx, hr | hr⟩ := h.sleep c rest p _ hc hs
    · cases hr
    · cases hr
      exact ⟨x, hx, rfl⟩
  · obtain ⟨x, level', hx, hr | hr⟩ := h.sleep c rest p _ hc hs
    · cases hr
      exact ⟨x, hx, rfl⟩
    · cases hr

theorem Fits.acquire_asks (h : a.Fits s) {l : Nat} {rest : List Instr}
    (hc : a.code = .acquire l :: rest) : a.Asks l := by
  cases hs : a.stage with
  | fresh => exact .inl ⟨hs, rest, hc⟩
  | suspended p r =>
    obtain ⟨level, rfl⟩ := h.acquire l rest p r hc hs
    exact .inr ⟨p, level, .inl hs⟩

theorem Fits.sleep_asks (h : a.Fits s) {c : Nat} {rest : List Instr}
    (hc : a.code = .sleep c :: rest) (hb : ¬ a.Begins (.sleep c)) :
    ∃ x, s.conditions[c]? = some x ∧ a.Asks x.lock := by
  cases hs : a.stage with
  | fresh => exact absurd ⟨hs, rest, hc⟩ hb
  | suspended p r =>
    obtain ⟨x, level, hx, rfl | rfl⟩ := h.sleep c rest p r hc hs
    · exact ⟨x, hx, .inr ⟨p, level, .inr hs⟩⟩
    · exact ⟨x, hx, .inr ⟨p, level, .inl hs⟩⟩

/-- A program that goes on fits as before. -/
theorem Fits.leads {actor : Actor} (h : a.Fits s) (hl : s.Leads actor a a' s')
    (hc : s.conditions <+: s'.conditions) : a'.Fits s' := by
  cases hl with
  | goesOn _ fresh => exact .of_fresh fresh
  | completes h => exact .of_fresh h.fresh
  | suspends code _ hs =>
    cases hs with
    | plain other stage =>
      constructor
      · intro l rest p r hcode _
        exact absurd (.inl ⟨stage, rest, code ▸ hcode⟩) (other.1 l)
      · intro c rest p r hcode _
        exact absurd ⟨stage, rest, code ▸ hcode⟩ (other.2 c)
    | lock asks suspended =>
      constructor
      · intro l rest p r hcode hstage
        rw [suspended] at hstage
        cases hstage
        cases h.asks_acquire (code ▸ hcode) asks
        exact ⟨_, rfl⟩
      · intro c rest p r hcode hstage
        rw [suspended] at hstage
        cases hstage
        obtain ⟨x, hx, rfl⟩ := h.asks_sleep (code ▸ hcode) asks
        exact ⟨x, _, getElem?_of_isPrefix hc hx, .inr rfl⟩
    | sleep begins condition suspended =>
      constructor
      · intro l rest p r hcode _
        obtain ⟨-, rest', hcode'⟩ := begins
        rw [code, hcode'] at hcode
        cases hcode
      · intro c rest p r hcode hstage
        rw [suspended] at hstage
        cases hstage
        obtain ⟨-, rest', hcode'⟩ := begins
        rw [code, hcode'] at hcode
        cases hcode
        exact ⟨_, _, getElem?_of_isPrefix hc condition, .inl rfl⟩

end Activation

theorem System.stepCode_fresh {s : System} {actor : Actor} {a : Activation} {i : Instr}
    {rest : List Instr} (hs : a.stage = .fresh) (hc : a.code = i :: rest) :
    s.stepCode actor a = s.stepInstr actor i rest a := by
  unfold System.stepCode
  rw [hc, hs]

/-- Where the threads are does not depend on the random source. -/
theorem System.Orderly.withRandom {s : System} {run : Option (ThreadId × Kernel.Posture)}
    (h : s.Orderly run) (g : Random) :
    (s.withKernel
      { s.kernel with table := { s.kernel.table with random := g } }).Orderly run := by
  have hsituated := h.placed.1
  have hspares : Kernel.Spares none s.uses s.asleep s.kernel s.uses s.asleep
      { s.kernel with table := { s.kernel.table with random := g } } :=
    ⟨fun _ _ => rfl, fun _ _ => rfl, fun _ _ => rfl, fun _ _ => rfl, fun _ _ _ _ hq => hq, rfl,
      le_rfl⟩
  refine ⟨⟨hsituated.of_spares hspares (fun _ _ hx => hx) (hsituated.sound.withRandom g)
    (hsituated.layout.congr rfl rfl rfl fun hs => ⟨_, hs, rfl⟩) hsituated.holder
    (fun hx hs => hsituated.join_owner hx hs) (fun _ he => nomatch he), ?_⟩, h.programs,
    h.handlers⟩
  have hrun := h.placed.2
  cases run with
  | none => exact hrun
  | some x => exact Kernel.Running.of_spares hrun hspares nofun rfl fun _ _ hown => hown

namespace Machine

/-- The machine with another random source. -/
def reseed (g : Random) (m : Machine) : Machine :=
  let table : Table := { m.system.kernel.table with random := g }
  ⟨m.system.withKernel { m.system.kernel with table := table }, m.stack⟩

/-- All programs fit, and a thread runs only on top of the stack. -/
structure Coherent (m : Machine) : Prop extends m.Regular where
  fits : ∀ t a, m.activation? t = some a → a.Fits m.system

/-- The next step begins the instruction `i` of the thread. -/
def Begins (t : ThreadId) (i : Instr) (m : Machine) : Prop :=
  ∃ d below, m.stack = .thread d :: below ∧ d.thread = t ∧ d.task.coroutine.Begins i

/-- The step completes the instruction `i` of the thread. -/
def Completes (t : ThreadId) (i : Instr) (m m' : Machine) : Prop :=
  m.thread? = some t ∧ ∃ time v, m'.system.events = ⟨.thread t, time, i, v⟩ :: m.system.events

variable {m m' : Machine} {q : QueueId}

/-- Conditions are never taken away. -/
theorem Turn.conditions (h : Turn m m') : m.system.conditions <+: m'.system.conditions := by
  cases h with
  | program _ code | thread _ code => exact (System.stepCode_grows code).conditions
  | parks _ code _ system =>
    rw [system]
    exact (System.stepCode_grows code).conditions
  | retires _ _ _ system | dispatches _ _ _ system => exact system ▸ List.prefix_rfl
  | alarm _ _ _ same | chooses _ _ _ same | quiet _ _ same =>
    exact same.conditions ▸ List.prefix_rfl

theorem Coherent.next (h : m.Coherent) (ht : Turn m m') : m'.Coherent := by
  refine ⟨h.toRegular.next ht, fun t a' ha => ?_⟩
  have hc := ht.conditions
  cases ht.origin h.toRegular ha with
  | fresh stage => exact .of_fresh stage
  | kept _ before => exact (h.fits t a' before).mono hc
  | @goes d below own stack code =>
    subst own
    exact (h.fits _ _ (activation?_self stack)).leads
      (System.stepCode_leads h.sane code) hc
  | @parks a p p' r₁ own before stage now =>
    have hfits := h.fits t a before
    subst now
    constructor
    · intro l rest _ _ hcode hs
      cases hs
      exact hfits.acquire l rest p r₁ hcode stage
    · intro c rest _ _ hcode hs
      cases hs
      obtain ⟨x, level, hx, hr⟩ := hfits.sleep c rest p r₁ hcode stage
      exact ⟨x, level, getElem?_of_isPrefix hc hx, hr⟩

/-! ## Instructions of threads -/

/-- A thread that logs something completes its first instruction. -/
theorem Turn.logs {t : ThreadId} (ht : Turn m m') (hr : m.Regular) (hrun : m.thread? = some t)
    (hlogs : m'.system.events ≠ m.system.events) :
    ∃ d a' below, m.stack = .thread d :: below ∧ d.thread = t ∧
      m.system.stepCode (.thread t) d.task.coroutine = .ok (.go a' m'.system) ∧
      System.Completes (.thread t) d.task.coroutine m.system a' m'.system := by
  have hidle : ∀ {P : Prop}, Idle m.stack → P := fun hi =>
    nomatch (thread?_of_idle hi).symm.trans hrun
  cases ht with
  | program stack => rw [thread?, stack] at hrun; cases hrun
  | @thread d a' below stack code after =>
    rw [thread?_eq stack] at hrun
    cases hrun
    cases System.stepCode_leads hr.sane code with
    | goesOn _ _ events => exact absurd events hlogs
    | suspends _ events => exact absurd events hlogs
    | completes hc => exact ⟨d, a', below, stack, rfl, code, hc⟩
  | parks stack code park system after =>
    obtain ⟨_, _, _, _, _, -, -, -, -, -, rfl⟩ := System.stepCode_park code
    exact absurd (by rw [system]; rfl) hlogs
  | retires stack code finish system => exact absurd (by rw [system]; rfl) hlogs
  | alarm idle | chooses idle | dispatches idle | quiet idle => exact hidle idle

/-- Only the thread that runs completes an instruction, its first one. -/
theorem Completes.cases {t : ThreadId} {i : Instr} (h : Completes t i m m') (ht : Turn m m')
    (hr : m.Regular) : ∃ d a' below rest, m.stack = .thread d :: below ∧ d.thread = t ∧
      d.task.coroutine.code = i :: rest ∧
      m.system.stepCode (.thread t) d.task.coroutine = .ok (.go a' m'.system) ∧
      System.Completes (.thread t) d.task.coroutine m.system a' m'.system := by
  obtain ⟨hrun, time, v, hev⟩ := h
  have hlogs : m'.system.events ≠ m.system.events := by
    rw [hev]
    exact List.cons_ne_self _ _
  obtain ⟨d, a', below, hstack, hthread, hcode, hcomp⟩ := ht.logs hr hrun hlogs
  obtain ⟨j, rest, time', v', hfirst, -, hev'⟩ := hcomp.logged
  rw [hev] at hev'
  cases hev'
  exact ⟨d, a', below, rest, hstack, hthread, hfirst, hcode, hcomp⟩

/-- The step that begins an instruction, unless it only enters the atomic region or runs the
kernel. -/
theorem Begins.step {t : ThreadId} {i : Instr} (h : Begins t i m) (hs : m.step = .next m')
    (hi : i ≠ .act .run) :
    ∃ d below rest a', m.stack = .thread d :: below ∧ d.thread = t ∧
      d.task.coroutine.stage = .fresh ∧ d.task.coroutine.code = i :: rest ∧
      m.system.stepInstr (.thread t) i rest d.task.coroutine = .ok (.go a' m'.system) := by
  obtain ⟨d, below, hstack, rfl, hfresh, rest, hcode⟩ := h
  have hstep : stepThread d below m.system = .next m' := by
    unfold Machine.step at hs
    rw [hstack] at hs
    exact hs
  unfold stepThread at hstep
  rw [System.stepCode_fresh hfresh hcode] at hstep
  cases hinstr : m.system.stepInstr (.thread d.thread) i rest d.task.coroutine with
  | error e =>
    simp only [hinstr] at hstep
    cases hstep
  | ok r =>
    rcases System.stepInstr_go hinstr with ⟨a', s', rfl⟩ | ⟨-, -, hrun⟩
    · simp only [hinstr] at hstep
      cases hstep
      exact ⟨d, below, rest, a', hstack, rfl, hfresh, hcode, hinstr⟩
    · exact absurd hrun hi

/-! ## The random source -/

theorem Regular.reseed (h : m.Regular) (g : Random) : (m.reseed g).Regular :=
  ⟨⟨h.sane.sound.withRandom g, h.sane.waker, h.sane.signal⟩, h.current, h.below⟩

theorem Coherent.reseed (h : m.Coherent) (g : Random) : (m.reseed g).Coherent :=
  ⟨h.toRegular.reseed g, fun t a ha =>
    ⟨(h.fits t a ha).acquire, (h.fits t a ha).sleep⟩⟩

theorem Guarded.reseed (h : m.Guarded q) (g : Random) : (m.reseed g).Guarded q :=
  ⟨h.stirred, fun t ht u hu hx =>
    have hc := h.calm t ht u hu hx
    ⟨hc.channel, hc.signal⟩, h.running⟩

theorem Orderly.reseed (h : m.Orderly) (g : Random) : (m.reseed g).Orderly := by
  cases h with
  | idle system frames => exact .idle (system.withRandom g) frames
  | running system takes plain frames => exact .running (system.withRandom g) takes plain frames

/-- There are no threads at the start. -/
theorem start_activation? {gen : Generator} {settings : Settings} {k : Kernel Activation}
    {programs : List Program} {main : List Action} (hk : Kernel.start gen settings = .ok k)
    (t : ThreadId) : (Machine.start k programs main).activation? t = none := by
  obtain ⟨clock, rfl⟩ := start_ok hk
  show ((Registry.empty : Registry Activation).get? t).bind
    (fun slot => slot.task.map ThreadTask.coroutine) = none
  rw [show (Registry.empty : Registry Activation).get? t = none from Directory.get?_empty t]
  rfl

theorem start_coherent {gen : Generator} {settings : Settings} {k : Kernel Activation}
    {programs : List Program} {main : List Action} (hk : Kernel.start gen settings = .ok k) :
    (Machine.start k programs main).Coherent := by
  have hnone : ∀ t, (Machine.start k programs main).activation? t = none := start_activation? hk
  obtain ⟨clock, rfl⟩ := start_ok hk
  have hempty : ∀ t, (Registry.empty : Registry Activation).get? t = none := fun t =>
    Directory.get?_empty t
  have hsound : (firstTable gen settings).2.Sound :=
    (Table.createQueue_effect (Table.empty_sound _ _) false).sound
  refine ⟨⟨⟨hsound, fun {t slot} hs => ?_, fun {t slot w} hs => ?_⟩, rfl, by simp [Idle, start]⟩,
    fun t a ha => (nomatch (hnone t).symm.trans ha)⟩
  · exact nomatch (hempty t).symm.trans hs
  · exact nomatch (hempty t).symm.trans hs

end Machine

/-- The machines of a run of `n` steps, from the start of some kernel with some programs on. -/
structure Execution (n : Nat) (ms : Nat → Machine) : Prop where
  start : ∃ gen settings k programs main, Kernel.start gen settings = .ok k ∧
    ms 0 = Machine.start k programs main
  step : ∀ i < n, ∃ m g, (ms i).step = .next m ∧ ms (i + 1) = m.reseed g

/-! ## Plain programs -/

theorem index_eq_of_nodup {α β : Type} {f : α → β} {l : List α} {i j : Nat} {a b : α}
    (h : (l.map f).Nodup) (hi : l[i]? = some a) (hj : l[j]? = some b) (hf : f a = f b) : i = j := by
  refine (List.getElem?_inj ?_ h).1 ?_
  · rw [List.length_map]
    exact (List.getElem?_eq_some_iff.1 hi).1
  · rw [List.getElem?_map, List.getElem?_map, hi, hj, Option.map_some, Option.map_some, hf]

namespace System

variable {s : System} {run : Option (ThreadId × Kernel.Posture)} {q : QueueId}

/-- The queues of locks and conditions belong to nobody else. -/
theorem Orderly.reserves (h : s.Orderly run) (hq : ∃ u ∈ s.uses, u.queue = q) :
    s.Reserves q := by
  have hl := h.placed.1.layout
  have hlocks : (s.locks.map Lock.queue).Nodup ∧ (s.conditions.map Condition.queue).Nodup ∧
      ∀ p ∈ s.locks.map Lock.queue, p ∉ s.conditions.map Condition.queue := by
    have hnodup := hl.use_nodup
    rw [uses, List.map_append, List.map_map, List.map_map] at hnodup
    obtain ⟨hlocks, hconditions, hdisjoint⟩ := List.nodup_append'.1 hnodup
    exact ⟨hlocks, hconditions, fun p hp hp' => hdisjoint hp hp'⟩
  obtain ⟨hlocks, hconditions, hdisjoint⟩ := hlocks
  obtain ⟨u, hu, rfl⟩ := hq
  refine ⟨(hl.ready_apart u hu).symm, fun {t slot} hs => (hl.join_apart hs u hu).symm,
    fun {i j l m} hi hj hiq hjq => ?_, fun {i j c d} hi hj hiq hjq => ?_,
    fun {i j l c} hi hj hiq hjq => ?_⟩
  · exact index_eq_of_nodup hlocks hi hj (hiq.trans hjq.symm)
  · exact index_eq_of_nodup hconditions hi hj (hiq.trans hjq.symm)
  · exact hdisjoint _ (List.mem_map.2 ⟨l, List.mem_of_getElem? hi, hiq⟩)
      (List.mem_map.2 ⟨c, List.mem_of_getElem? hj, hjq⟩)

end System

namespace Machine

variable {m : Machine} {q : QueueId} {gen : Generator} {settings : Settings} {k : Kernel Activation}
  {programs : List Program} {main : List Action}

/-- Plain actions handle no queue themselves. -/
theorem not_touches_of_plain {b : Action} (hb : b.plain = true) (s : System) :
    ¬ b.Touches q s := by
  intro ht
  cases b <;> first | exact ht | cases hb

theorem Orderly.plain (h : m.Orderly) {a : Activation} (ha : m.executing? = some a) : a.Plain := by
  cases h with
  | idle _ hf =>
    unfold executing? at ha
    split at ha
    · rename_i hstack
      cases ha
      cases hf _ (hstack ▸ List.mem_cons_self) with
      | program code => exact code
    · rename_i hstack
      have hthread := hf _ (hstack ▸ List.mem_cons_self)
      cases hthread
    · cases ha
  | running _ _ hplain =>
    cases ha
    exact hplain

theorem Orderly.not_touches (h : m.Orderly) {a : Activation} (ha : m.executing? = some a) :
    ¬ a.Touches q m.system := by
  rintro ⟨b, ⟨-, rest, hc⟩, ht⟩
  have hplain := h.plain ha
  rw [Activation.Plain, hc, Instr.plainList, Bool.and_eq_true] at hplain
  exact not_touches_of_plain hplain.1 _ ht

/-- Plain programs leave all queues to their locks and conditions. -/
theorem Orderly.private (h : m.Orderly) (hq : ∃ u ∈ m.system.uses, u.queue = q) :
    m.Private q := by
  obtain ⟨run, hs⟩ := h.system
  exact ⟨hs.reserves hq, fun _ ha => h.not_touches ha⟩

theorem private_run (hk : Kernel.start gen settings = .ok k)
    (hp : ∀ p ∈ programs, Instr.plainList p.code = true) (hm : Action.plainList main = true)
    (i : Nat) (hq : ∃ u ∈ (run i (start k programs main)).1.system.uses, u.queue = q) :
    (run i (start k programs main)).1.Private q :=
  ((start_orderly hk hp hm).steps (steps_run i _)).1.private hq

theorem step_run {n i : Nat} (hn : (run n m).2 = .unfinished) (hi : i < n) :
    (run i m).1.step = .next (run (i + 1) m).1 := by
  induction i generalizing n m with
  | zero =>
    obtain ⟨n, rfl⟩ := Nat.exists_eq_succ_of_ne_zero (by omega : n ≠ 0)
    rw [run] at hn ⊢
    split at hn
    · rename_i m' hstep
      rw [run, hstep]
      rfl
    · cases hn
    · cases hn
  | succ i ih =>
    obtain ⟨n, rfl⟩ := Nat.exists_eq_succ_of_ne_zero (by omega : n ≠ 0)
    rw [run] at hn ⊢
    split at hn
    · rename_i m' hstep
      rw [run, hstep]
      exact ih hn (by omega)
    · cases hn
    · cases hn

/-- The instruction that the next step begins. -/
def beginning? (m : Machine) : Option Instr :=
  m.executing?.bind fun a => if a.stage = .fresh then a.code.head? else none

/-- The instruction that the next step begins or goes on with. -/
def underway? (m : Machine) : Option Instr := m.executing?.bind fun a => a.code.head?

/-- An instruction of the running thread is complete when something is logged. -/
theorem completes_of_underway {t : ThreadId} {i : Instr} (h : Turn m m') (hr : m.Regular)
    (hrun : m.thread? = some t) (hi : m.underway? = some i)
    (hlogs : m'.system.events.length ≠ m.system.events.length) : Completes t i m m' := by
  obtain ⟨d, a', below, hstack, hthread, -, hcomp⟩ :=
    h.logs hr hrun fun hsame => hlogs (congrArg List.length hsame)
  obtain ⟨j, rest, time, v, hfirst, -, hev⟩ := hcomp.logged
  rw [underway?, executing?, hstack, Option.bind_some, hfirst] at hi
  cases hi
  exact ⟨hrun, time, v, hev⟩

theorem begins_of_beginning {t : ThreadId} {i : Instr} (ht : m.thread? = some t)
    (hi : m.beginning? = some i) : Begins t i m := by
  unfold thread? at ht
  split at ht
  · rename_i d below hstack
    cases ht
    rw [beginning?, executing?, hstack] at hi
    simp only [Option.bind_some] at hi
    split at hi
    · rename_i hfresh
      obtain ⟨rest, hcode⟩ := List.head?_eq_some_iff.1 hi
      exact ⟨d, below, hstack, rfl, hfresh, rest, hcode⟩
    · cases hi
  · cases ht

theorem Begins.beginning {t : ThreadId} {i : Instr} (h : Begins t i m) :
    m.thread? = some t ∧ m.beginning? = some i := by
  obtain ⟨d, below, hstack, rfl, hfresh, rest, hcode⟩ := h
  refine ⟨thread?_eq hstack, ?_⟩
  rw [beginning?, executing?, hstack]
  show (if d.task.coroutine.stage = .fresh then d.task.coroutine.code.head? else none) = some i
  rw [if_pos hfresh, hcode, List.head?_cons]

/-- Plain instructions leave all queues alone. -/
theorem leaves_of_beginning (h : m.beginning?.all Instr.plain = true) (q : QueueId) :
    m.Leaves q := by
  rintro a ha ⟨b, ⟨hfresh, rest, hcode⟩, htouches⟩
  rw [beginning?, ha, Option.bind_some, if_pos hfresh, hcode] at h
  exact not_touches_of_plain h _ htouches

/-- Until there is an object, they need not be plain to leave its queue alone. -/
theorem leaves_of_beginning_or_isNone {α : Type} {o : Option α} {x : α}
    (h : (m.beginning?.all Instr.plain || o.isNone) = true) (ho : o = some x) (q : QueueId) :
    m.Leaves q := by
  subst ho
  exact leaves_of_beginning ((Bool.or_false _).symm.trans h) q

/-- `p` is so of the machine and of those that its next `n` steps lead to. -/
def throughout (p : Machine → Bool) : Nat → Machine → Bool
  | 0, m => p m
  | n + 1, m =>
    p m && match m.step with
      | .next m' => throughout p n m'
      | .halted | .faulted _ => true

theorem of_throughout {p : Machine → Bool} {n i : Nat} (h : throughout p n m = true) (hi : i ≤ n) :
    p (run i m).1 = true := by
  induction i generalizing n m with
  | zero =>
    cases n with
    | zero => exact h
    | succ n => exact (Bool.and_eq_true_iff.1 h).1
  | succ i ih =>
    obtain ⟨n, rfl⟩ := Nat.exists_eq_succ_of_ne_zero (by omega : n ≠ 0)
    obtain ⟨hnow, hlater⟩ := Bool.and_eq_true_iff.1 h
    rw [run]
    split
    · rename_i hstep
      rw [hstep] at hlater
      exact ih hlater (by omega)
    · exact hnow
    · exact hnow

theorem exists_start {p : Kernel Activation → Bool}
    (h : (Kernel.start gen settings).toOption.any p = true) :
    ∃ k, Kernel.start gen settings = .ok k ∧ p k = true := by
  cases hk : (Kernel.start gen settings : Except Fault (Kernel Activation)) with
  | error e =>
    rw [hk] at h
    cases h
  | ok k =>
    rw [hk] at h
    exact ⟨k, rfl, h⟩

/-- A run is an execution that keeps its random source. -/
theorem execution_run {n : Nat} (hk : Kernel.start gen settings = .ok k)
    (hn : (run n (start k programs main)).2 = .unfinished) :
    Execution n fun i => (run i (start k programs main)).1 :=
  ⟨⟨gen, settings, k, programs, main, hk, rfl⟩, fun _ hi => ⟨_, _, step_run hn hi, rfl⟩⟩

end Machine

namespace Execution

variable {n i : Nat} {ms : Nat → Machine}

theorem next (h : Execution n ms) (hi : i < n) (hc : (ms i).Coherent) :
    ∃ m g, (ms i).step = .next m ∧ Machine.Turn (ms i) m ∧ ms (i + 1) = m.reseed g := by
  obtain ⟨m, g, hstep, hm⟩ := h.step i hi
  exact ⟨m, g, hstep, hc.toRegular.turn hstep, hm⟩

/-- What is so of all machines before their first step is so of the first machine. -/
theorem of_start {P : Machine → Prop} (h : Execution n ms)
    (hs : ∀ {gen : Generator} {settings : Settings} {k : Kernel Activation}
      {programs : List Program} {main : List Action}, Kernel.start gen settings = .ok k →
        P (Machine.start k programs main)) :
    P (ms 0) := by
  obtain ⟨_, _, k, programs, main, hk, hm⟩ := h.start
  rw [hm]
  exact hs hk

/-- What every step keeps, whatever random source follows it, is so throughout. -/
theorem invariant {P : Machine → Prop} (h : Execution n ms) (h₀ : P (ms 0))
    (hs : ∀ j < n, ∀ m g, (ms j).step = .next m → P (ms j) → P (m.reseed g)) (hi : i ≤ n) :
    P (ms i) := by
  induction i with
  | zero => exact h₀
  | succ i ih =>
    obtain ⟨m, g, hstep, hm⟩ := h.step i hi
    rw [hm]
    exact hs i hi m g hstep (ih (Nat.le_of_succ_le hi))

theorem coherent (h : Execution n ms) (hi : i ≤ n) : (ms i).Coherent :=
  h.invariant (h.of_start Machine.start_coherent)
    (fun _ _ _ g hstep hc => (hc.next (hc.toRegular.turn hstep)).reseed g) hi

theorem orderly (h : Execution n ms) (ho : (ms 0).Orderly) (hi : i ≤ n) : (ms i).Orderly :=
  h.invariant ho (fun _ _ _ g hstep ho => (ho.step hstep).1.reseed g) hi

end Execution
end ThreadKernel
