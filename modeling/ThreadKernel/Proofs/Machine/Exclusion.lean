import ThreadKernel.Proofs.Machine.Calls

/-!
# ThreadKernel.Proofs.Machine.Exclusion

Locks exclude. All that is asked of programs is that they leave the queue of the lock to the lock
and its conditions, and give it to nobody else: who destroys a queue by its number gives the number
to the next queue that is created, be it that of another lock.

* `Machine.LockTurn` — what a step does with a lock.
* `Machine.Tended`   — what is so of a lock in every execution.
* `Excludes`         — mutual exclusion, and handover in the order of the policy.
* `execution_excludes` — every lock excludes.
* `lock_taken_past_waiter` — one whose queue is also that of another lock does not.
-/

namespace ThreadKernel

open Kernel (Alters Apart Serves)

namespace Machine

/-- The step returns from an acquire of the lock, or from a sleep on one of its conditions. -/
def Gets (t : ThreadId) (l : Nat) (m m' : Machine) : Prop :=
  Completes t (.acquire l) m m' ∨
    ∃ c x, m.system.conditions[c]? = some x ∧ x.lock = l ∧ Completes t (.sleep c) m m'

/-- What a step does with the lock `L` under the index `l`. -/
inductive LockTurn (l : Nat) (L : Lock) (m m' : Machine) : Prop where
  | apart (lock : m'.system.locks[l]? = some L)
      (waiting : ∀ u, m'.system.kernel.table.waitingQueue u = some L.queue ↔
        m.system.kernel.table.waitingQueue u = some L.queue)
  | takes {t : ThreadId} (runs : m.thread? = some t) (free : L.holder = none)
      (lock : m'.system.locks[l]? = some { L with holder := some t })
      (waiting : ∀ u, m'.system.kernel.table.waitingQueue u = some L.queue ↔
        m.system.kernel.table.waitingQueue u = some L.queue)
  | waits {t u : ThreadId} (runs : m.thread? = some t) (held : L.holder = some u)
      (lock : m'.system.locks[l]? = some L)
      (waiting : ∀ v, m'.system.kernel.table.waitingQueue v = some L.queue ↔
        v = t ∨ m.system.kernel.table.waitingQueue v = some L.queue)
  | passes {t : ThreadId} (gives : m.GivesUp t l) (held : L.holder = some t)
      (lock : m'.system.locks[l]? =
        some { L with holder := m.system.kernel.table.chosen L.queue })
      (serves : Serves L.queue m.system.kernel m'.system.kernel)

/-- The lock under the index `l` is free only while nobody waits for it, and who has waited for it
holds it when it goes on. -/
structure Tended (l : Nat) (m : Machine) : Prop where
  guarded : ∀ L, m.system.locks[l]? = some L → m.Guarded L.queue
  held : ∀ L u, m.system.locks[l]? = some L →
    m.system.kernel.table.waitingQueue u = some L.queue → L.holder ≠ none
  handed : ∀ t a p level, m.activation? t = some a → a.stage = .suspended p (.takeOver l level) →
    ∃ L, m.system.locks[l]? = some L ∧
      (m.system.kernel.table.waitingQueue t = some L.queue ∨ L.holder = some t)

variable {m m' : Machine} {l : Nat} {L : Lock} {t : ThreadId} {below : List Frame}

theorem Affects.lock (h : Affects L.queue m m') (hr : m.system.Reserves L.queue)
    (hl : m.system.locks[l]? = some L) : LockTurn l L m m' := by
  cases h with
  | none waiting locks => exact .apart (locks hl rfl) waiting
  | deal stack _ _ _ deal =>
    have hone : ∀ {j : Nat} {k : Lock}, m.system.locks[j]? = some k → k.queue = L.queue →
        j = l ∧ k = L := by
      intro j k hk hq
      cases hr.lock hk hl hq rfl
      rw [hl] at hk
      cases hk
      exact ⟨rfl, rfl⟩
    cases deal with
    | apart queue locks => exact .apart (locks hl rfl) (Apart.waiting_iff queue)
    | takes thread lock own free queue taken =>
      cases thread
      obtain ⟨rfl, rfl⟩ := hone lock own
      exact .takes (thread?_eq stack) free taken (Apart.waiting_iff queue)
    | waits thread lock own held alive queue kept =>
      cases thread
      obtain ⟨rfl, rfl⟩ := hone lock own
      exact .waits (thread?_eq stack) held kept fun v => by simpa using queue.waiting v
    | passes thread begins lock own held queue passed =>
      cases thread
      obtain ⟨rfl, rfl⟩ := hone lock own
      exact .passes ⟨_, _, stack, rfl, begins⟩ held passed queue
    | sleeps _ _ condition own | wakes _ _ condition own | wakesAll _ _ condition own =>
      exact absurd own (hr.apart hl condition rfl)

theorem LockTurn.exists_lock (h : LockTurn l L m m') :
    ∃ holder, m'.system.locks[l]? = some { L with holder := holder } := by
  cases h with
  | apart lock | waits _ _ lock => exact ⟨L.holder, lock⟩
  | takes _ _ lock | passes _ _ lock => exact ⟨_, lock⟩

/-- A lock that someone waits for stays held. -/
theorem LockTurn.held {L' : Lock} {u : ThreadId} (h : LockTurn l L m m')
    (hheld : ∀ u, m.system.kernel.table.waitingQueue u = some L.queue → L.holder ≠ none)
    (hl : m'.system.locks[l]? = some L')
    (hw : m'.system.kernel.table.waitingQueue u = some L'.queue) : L'.holder ≠ none := by
  cases h with
  | apart lock waiting =>
    rw [lock] at hl
    cases hl
    exact hheld u ((waiting u).1 hw)
  | takes _ _ lock =>
    rw [lock] at hl
    cases hl
    simp
  | waits _ held lock =>
    rw [lock] at hl
    cases hl
    rw [held]
    simp
  | passes _ _ lock serves =>
    rw [lock] at hl
    cases hl
    intro hnone
    exact serves.nobody hnone u ((serves.waiting u).1 hw).1

/-- A thread that has waited for the lock waits still, or holds it. -/
theorem LockTurn.handed {a : Activation} {p : YieldPoint} {r : Resume} (h : LockTurn l L m m')
    (ha : m.activation? t = some a) (hs : a.stage = .suspended p r)
    (hw : m.system.kernel.table.waitingQueue t = some L.queue ∨ L.holder = some t) :
    ∃ L', m'.system.locks[l]? = some L' ∧
      (m'.system.kernel.table.waitingQueue t = some L'.queue ∨ L'.holder = some t) := by
  cases h with
  | apart lock waiting => exact ⟨L, lock, hw.imp (waiting t).2 id⟩
  | takes _ free lock waiting =>
    refine ⟨_, lock, .inl ((waiting t).2 (hw.resolve_right ?_))⟩
    rw [free]
    simp
  | waits _ _ lock waiting => exact ⟨L, lock, hw.imp (fun h => (waiting t).2 (.inr h)) id⟩
  | passes gives held lock serves =>
    refine ⟨_, lock, ?_⟩
    rcases hw with hw | hw
    · by_cases hc : m.system.kernel.table.chosen L.queue = some t
      · exact .inr hc
      · exact .inl ((serves.waiting t).2 ⟨hw, hc⟩)
    · rw [held] at hw
      cases hw
      obtain ⟨d, below, stack, rfl, begins⟩ := gives
      rw [activation?_self stack] at ha
      cases ha
      rcases begins with ⟨hf, -⟩ | ⟨_, _, ⟨hf, -⟩, -⟩
      · rw [hs] at hf
        cases hf
      · rw [hs] at hf
        cases hf

/-- Who holds the lock keeps it until it gives it up. -/
theorem LockTurn.keeps (h : LockTurn l L m m') (hl : L.holder = some t) (hg : ¬ m.GivesUp t l) :
    m'.system.locks[l]? = some L := by
  cases h with
  | apart lock | waits _ _ lock => exact lock
  | takes _ free =>
    rw [free] at hl
    cases hl
  | passes gives held =>
    rw [held] at hl
    cases hl
    exact absurd gives hg

/-! ## New locks -/

/-- Nobody waits for a lock that is new. -/
theorem Turn.lock_unwaited (h : Turn m m') (hk : m.system.kernel.table.Sound)
    (hn : m.system.locks[l]? = none) (hl : m'.system.locks[l]? = some L) :
    L.holder = none ∧ ∀ u, m'.system.kernel.table.waitingQueue u ≠ some L.queue := by
  cases h with
  | program _ code | thread _ code =>
    exact (System.stepCode_creates code).lock_unwaited hk hn hl
  | parks _ code _ system =>
    obtain ⟨_, _, _, _, _, -, -, -, -, -, rfl⟩ := System.stepCode_park code
    rw [system] at hl
    exact nomatch hn.symm.trans hl
  | retires _ _ _ system | dispatches _ _ _ system =>
    rw [system] at hl
    exact nomatch hn.symm.trans hl
  | alarm _ _ _ same | chooses _ _ _ same | quiet _ _ same =>
    rw [same.locks] at hl
    exact nomatch hn.symm.trans hl

/-! ## All steps -/

theorem Tended.turn (h : m.Tended l) (hc : m.Coherent) (ht : Turn m m')
    (hl : m.system.locks[l]? = some L) (hp : m.Private L.queue) :
    m'.Guarded L.queue ∧ LockTurn l L m m' := by
  obtain ⟨hg, ha⟩ := (h.guarded L hl).next hc.toRegular hp ht
  exact ⟨hg, ha.lock hp.reserves hl⟩

/-- What a step leaves of who has waited for the lock. -/
theorem Tended.handed_next (h : m.Tended l) (hc : m.Coherent) (ht : Turn m m')
    (hturn : ∀ L, m.system.locks[l]? = some L → LockTurn l L m m') {a' : Activation}
    {p : YieldPoint} {level : Level} (ha : m'.activation? t = some a')
    (hs : a'.stage = .suspended p (.takeOver l level)) :
    ∃ L, m'.system.locks[l]? = some L ∧
      (m'.system.kernel.table.waitingQueue t = some L.queue ∨ L.holder = some t) := by
  have hold : ∀ {a p level}, m.activation? t = some a →
      a.stage = .suspended p (.takeOver l level) → ∃ L, m'.system.locks[l]? = some L ∧
        (m'.system.kernel.table.waitingQueue t = some L.queue ∨ L.holder = some t) := by
    intro a p level ha hs
    obtain ⟨L, hl, hw⟩ := h.handed t a p level ha hs
    exact (hturn L hl).handed ha hs hw
  cases ht.origin hc.toRegular ha with
  | fresh stage =>
    rw [stage] at hs
    cases hs
  | kept _ before => exact hold before hs
  | @goes d below own stack code =>
    subst own
    cases System.stepCode_leads hc.sane code with
    | goesOn _ fresh =>
      rw [fresh] at hs
      cases hs
    | completes hcomp =>
      rw [hcomp.fresh] at hs
      cases hs
    | suspends _ _ hsusp =>
      cases hsusp with
      | plain _ _ suspended resume =>
        rw [suspended] at hs
        cases hs
        rcases resume with hr | ⟨_, hr⟩ <;> cases hr
      | lock _ suspended current lock waits =>
        rw [suspended] at hs
        cases hs
        rw [hc.current, thread?_eq stack] at current
        cases current
        exact ⟨_, lock, .inl waits⟩
      | sleep _ _ suspended =>
        rw [suspended] at hs
        cases hs
  | parks _ before stage now =>
    subst now
    cases hs
    exact hold before stage

theorem Tended.next (h : m.Tended l) (hc : m.Coherent) (ht : Turn m m')
    (hp : ∀ L, m.system.locks[l]? = some L → m.Private L.queue) : m'.Tended l := by
  have hturn : ∀ L, m.system.locks[l]? = some L → LockTurn l L m m' := fun L hl =>
    (h.turn hc ht hl (hp L hl)).2
  refine ⟨fun L' hl' => ?_, fun L' u hl' hw => ?_, fun t a' p level ha hs =>
    h.handed_next hc ht hturn ha hs⟩
  · cases hl : m.system.locks[l]? with
    | none => exact .of_unwaited (ht.lock_unwaited hc.sane.sound hl hl').2
    | some L =>
      obtain ⟨hg, hlock⟩ := h.turn hc ht hl (hp L hl)
      obtain ⟨holder, hl''⟩ := hlock.exists_lock
      rw [hl'] at hl''
      cases hl''
      exact hg
  · cases hl : m.system.locks[l]? with
    | none => exact absurd hw ((ht.lock_unwaited hc.sane.sound hl hl').2 u)
    | some L => exact (hturn L hl).held (fun v => h.held L v hl) hl' hw

theorem Tended.reseed (h : m.Tended l) (g : Random) : (m.reseed g).Tended l :=
  ⟨fun L hl => (h.guarded L hl).reseed g, h.held, h.handed⟩

theorem tended_of_none (hl : m.system.locks[l]? = none)
    (ha : ∀ t, m.activation? t = none) : m.Tended l :=
  ⟨fun _ hl' => (nomatch hl.symm.trans hl'), fun _ _ hl' => (nomatch hl.symm.trans hl'),
    fun t _ _ _ ha' => (nomatch (ha t).symm.trans ha')⟩

/-! ## Whole runs -/

def holder? (l : Nat) (m : Machine) : Option ThreadId := m.system.locks[l]?.bind Lock.holder

theorem holder?_eq (hl : m.system.locks[l]? = some L) : m.holder? l = L.holder := by
  rw [holder?, hl]
  rfl

/-- An instruction that asked for the lock returns with it. -/
theorem Completes.holder {i : Instr} (h : Completes t i m m') (ht : Turn m m') (hc : m.Coherent)
    (hasks : ∀ (a : Activation) rest, a.Fits m.system → a.code = i :: rest →
      (∀ c, ¬ a.Begins (.sleep c)) → a.Asks l) : m'.holder? l = some t := by
  obtain ⟨d, a', below, rest, hstack, rfl, hcode, -, hcomp⟩ := h.cases ht hc.toRegular
  have hfits := hc.fits _ _ (activation?_self hstack)
  obtain ⟨t, L, hcur, hl, hheld⟩ := hcomp.holds l (hasks _ rest hfits hcode hcomp.slept)
  rw [hc.current, thread?_eq hstack] at hcur
  cases hcur
  rw [holder?_eq hl, hheld]

theorem Gets.holder (h : Gets t l m m') (ht : Turn m m') (hc : m.Coherent) :
    m'.holder? l = some t := by
  rcases h with h | ⟨c, x, hx, rfl, h⟩
  · exact h.holder ht hc fun a rest hfits hcode _ => hfits.acquire_asks hcode
  · refine h.holder ht hc fun a rest hfits hcode hslept => ?_
    obtain ⟨y, hy, hasks⟩ := hfits.sleep_asks hcode (hslept c)
    rw [hx] at hy
    cases hy
    exact hasks

/-- Whoever passes the yield point behind a wait for the lock holds it. -/
theorem Tended.passed {d : Kernel.Dispatched Activation} {p : YieldPoint} {level : Level}
    (h : m.Tended l) (hs : m.stack = .thread d :: below)
    (ha : d.task.coroutine.stage = .suspended p (.takeOver l level))
    (hp : (m.system.kernel.pollPoint d.thread p).1 = true) : m.holder? l = some d.thread := by
  obtain ⟨L, hl, hw | hheld⟩ := h.handed _ _ _ _ (activation?_self hs) ha
  · obtain ⟨-, r, hr⟩ := ((h.guarded L hl).running d below hs hw).1
    rw [ha] at hr
    cases hr
    obtain ⟨_, -, hy, -⟩ := System.pollPoint_ready (Prod.ext hp rfl)
    cases hy
  · rw [holder?_eq hl, hheld]

end Machine

open Machine (Gets Begins)

/-- The thread is between the return of an acquire, or of a sleep, and the next call that gives up
the lock. -/
def Inside (ms : Nat → Machine) (l i : Nat) (t : ThreadId) : Prop :=
  ∃ j < i, Gets t l (ms j) (ms (j + 1)) ∧ ∀ k, j < k → k < i → ¬ (ms k).GivesUp t l

/-- The lock under the index `l` excludes all threads but one in the run `ms` of `n` steps. -/
structure Excludes (l n : Nat) (ms : Nat → Machine) : Prop where
  /-- At most one thread is inside, -/
  exclusive : ∀ i ≤ n, ∀ t u, Inside ms l i t → Inside ms l i u → t = u
  /-- and it is the holder. -/
  inside : ∀ i ≤ n, ∀ t, Inside ms l i t → (ms i).holder? l = some t
  /-- Who returns with the lock is the holder, -/
  returned : ∀ i < n, ∀ t, Gets t l (ms i) (ms (i + 1)) → (ms (i + 1)).holder? l = some t
  /-- and already was when the wait for it ended. -/
  handed : ∀ i ≤ n, ∀ d below p level, (ms i).stack = .thread d :: below →
    d.task.coroutine.stage = .suspended p (.takeOver l level) →
    ((ms i).system.kernel.pollPoint d.thread p).1 = true → (ms i).holder? l = some d.thread
  /-- Someone holds the lock while someone waits for it, -/
  occupied : ∀ i ≤ n, ∀ L u, (ms i).system.locks[l]? = some L →
    (ms i).system.kernel.table.waitingQueue u = some L.queue → (ms i).holder? l ≠ none
  /-- so that others can only join those who wait. -/
  queued : ∀ i < n, ∀ L u t, (ms i).system.locks[l]? = some L →
    (ms i).system.kernel.table.waitingQueue u = some L.queue → Begins t (.acquire l) (ms i) →
    (ms (i + 1)).holder? l = (ms i).holder? l ∧
      (ms (i + 1)).system.kernel.table.waitingQueue t = some L.queue
  /-- Who gives up the lock hands it to the waiter that the policy selects. -/
  passed : ∀ i < n, ∀ t, (ms i).GivesUp t l → ∃ L, (ms i).system.locks[l]? = some L ∧
    System.HandsOver t l L (ms i).system (ms (i + 1)).system

namespace Execution

variable {n i l : Nat} {ms : Nat → Machine} {t : ThreadId}

theorem tended (h : Execution n ms)
    (hp : ∀ i < n, ∀ L, (ms i).system.locks[l]? = some L → (ms i).Private L.queue) (hi : i ≤ n) :
    (ms i).Tended l := by
  refine h.invariant (h.of_start fun hk => ?_) (fun j hj m g hstep ht => ?_) hi
  · exact Machine.tended_of_none rfl (Machine.start_activation? hk)
  · have hc := h.coherent (Nat.le_of_lt hj)
    exact (ht.next hc (hc.toRegular.turn hstep) (hp j hj)).reseed g

/-- Who is inside holds the lock: it did when it got in, and only itself can give it up. -/
theorem inside_holder (h : Execution n ms)
    (hp : ∀ i < n, ∀ L, (ms i).system.locks[l]? = some L → (ms i).Private L.queue) (hi : i ≤ n)
    (ht : Inside ms l i t) : (ms i).holder? l = some t := by
  obtain ⟨j, hj, hgets, hkeeps⟩ := ht
  induction i, hj using Nat.le_induction with
  | base =>
    obtain ⟨m, g, -, hturn, hm⟩ := h.next hi (h.coherent (by omega))
    rw [hm] at hgets ⊢
    have hgets : Gets t l (ms j) m := hgets
    exact hgets.holder hturn (h.coherent (by omega))
  | succ i hji ih =>
    have hheld := ih (by omega) fun k hk hki => hkeeps k hk (by omega)
    obtain ⟨L, hl, hL⟩ := Option.bind_eq_some_iff.1 hheld
    obtain ⟨m, g, -, hturn, hm⟩ := h.next hi (h.coherent (by omega))
    have hlock := ((h.tended hp (by omega)).turn (h.coherent (by omega)) hturn hl
      (hp i hi L hl)).2
    have hl' := hlock.keeps hL (hkeeps i hji (by omega))
    rw [hm]
    exact (Machine.holder?_eq hl').trans hL

end Execution

/-- Every lock excludes, if nobody else has its queue and programs leave it to the lock and its
conditions. -/
theorem execution_excludes {n l : Nat} {ms : Nat → Machine} (h : Execution n ms)
    (hp : ∀ i < n, ∀ L, (ms i).system.locks[l]? = some L → (ms i).Private L.queue) :
    Excludes l n ms := by
  refine ⟨fun i hi t u ht hu => ?_, fun i hi t => h.inside_holder hp hi, fun i hi t hg => ?_,
    fun i hi d below p level hs ha => (h.tended hp hi).passed hs ha, fun i hi L u hl hw => ?_,
    fun i hi L u t hl hw hb => ?_, fun i hi t hg => ?_⟩
  · have ht := h.inside_holder hp hi ht
    rw [h.inside_holder hp hi hu] at ht
    exact (Option.some.inj ht).symm
  · exact h.inside_holder hp hi ⟨i, by omega, hg, fun k hk hki => by omega⟩
  · rw [Machine.holder?_eq hl]
    exact (h.tended hp hi).held L u hl hw
  · have hc := h.coherent (i := i) (by omega)
    obtain ⟨m, g, hstep, -, hm⟩ := h.next hi hc
    obtain ⟨hlocks, hwaits⟩ := hb.acquire_waits hstep hc.toRegular hl
      ((h.tended hp (by omega)).held L u hl hw)
    rw [hm]
    exact ⟨congrArg (fun locks : List Lock => locks[l]?.bind Lock.holder) hlocks, hwaits⟩
  · have hc := h.coherent (i := i) (by omega)
    obtain ⟨m, g, hstep, -, hm⟩ := h.next hi hc
    obtain ⟨L, hl, hover⟩ := hg.handsOver hstep hc.toRegular fun L hl =>
      ⟨(h.tended hp (by omega)).guarded L hl, hp i hi L hl⟩
    rw [hm]
    exact ⟨L, hl, hover.held, Machine.serves_reseed hover.queue g, hover.passed⟩

namespace Machine

/-- A thread sleeps until another one wakes it, which holds the lock for a while then. -/
def rendezvousPrograms : List Program :=
  [⟨"sleeper", [.acquire 0, .sleep 0, .act (.release 0)]⟩,
    ⟨"waker", [.acquire 0, .act (.wake 0), .yield, .act (.release 0)]⟩]

def rendezvousMain : List Action := [.newLock, .newCondition 0, .spawn 0, .spawn 1, .run]

def rendezvousSettings : Settings := ⟨.priority, none, 10, 1⟩

theorem execution_excludes_rendezvous : ∃ (n : Nat) (ms : Nat → Machine), Execution n ms ∧
    (∀ i < n, ∀ L, (ms i).system.locks[0]? = some L → (ms i).Private L.queue) ∧
    ((ms 23).system.kernel.table.waitingQueue ⟨1⟩, (ms 23).holder? 0, (ms 24).holder? 0) =
      (some ⟨1⟩, some ⟨2⟩, some ⟨1⟩) ∧
    24 < n ∧ Excludes 0 n ms := by
  have hrun : (Kernel.start .counting rendezvousSettings).toOption.any (fun k =>
      let ms := fun i => (run i (start k rendezvousPrograms rendezvousMain)).1
      (run 29 (ms 0)).2 = .unfinished ∧ ((ms 23).system.kernel.table.waitingQueue ⟨1⟩,
        (ms 23).holder? 0, (ms 24).holder? 0) = (some ⟨1⟩, some ⟨2⟩, some ⟨1⟩)) = true := by
    decide +kernel
  have hp : ∀ p ∈ rendezvousPrograms, Instr.plainList p.code = true := by decide
  have hm : Action.plainList rendezvousMain = true := by decide
  obtain ⟨k, hk, hrun⟩ := exists_start hrun
  obtain ⟨hn, hfacts⟩ := of_decide_eq_true hrun
  have hexec := execution_run hk hn
  have hpriv : ∀ i < 29, ∀ L,
      (run i (start k rendezvousPrograms rendezvousMain)).1.system.locks[0]? = some L →
        (run i (start k rendezvousPrograms rendezvousMain)).1.Private L.queue :=
    fun i _ L hl => private_run hk hp hm i ⟨_, System.mem_uses_lock hl, rfl⟩
  exact ⟨29, _, hexec, hpriv, hfacts, by decide, execution_excludes hexec hpriv⟩

end Machine

/-! ## A queue of two locks -/

/-- The lock that the instruction acquires. -/
def Instr.acquire? : Instr → Option Nat
  | .acquire l => some l
  | _ => none

namespace Machine

variable {m : Machine} {l : Nat} {t : ThreadId}

theorem begins_acquire (ht : m.thread? = some t) (hi : m.beginning?.bind Instr.acquire? = some l) :
    Begins t (.acquire l) m := by
  obtain ⟨i, hi, hl⟩ := Option.bind_eq_some_iff.1 hi
  cases i <;> cases hl
  exact begins_of_beginning ht hi

/-- The queue of a lock is destroyed by its number, which goes to another lock. -/
def sharingPrograms : List Program :=
  [⟨"owner", [.acquire 0, .yield, .act (.release 0)]⟩,
    ⟨"waiter", [.acquire 0, .act (.release 0)]⟩, ⟨"passer", [.acquire 1, .act (.holder 1)]⟩]

def sharingMain : List Action :=
  [.newLock, .destroyQueue ⟨1⟩, .newLock, .spawn 0, .spawn 1, .spawn 2, .run]

/-- The next instruction is plain, or there is no lock under the index `l` yet. -/
def leavesLock (l : Nat) (m : Machine) : Bool :=
  m.beginning?.all Instr.plain || m.system.locks[l]?.isNone

theorem leaves_of_leavesLock {L : Lock} (h : m.leavesLock l = true)
    (hl : m.system.locks[l]? = some L) : m.Leaves L.queue :=
  leaves_of_beginning_or_isNone h hl L.queue

/-- A thread waits in the queue of the second lock, which is free, and another one takes it. -/
theorem lock_taken_past_waiter : ∃ (n : Nat) (ms : Nat → Machine) (L : Lock), Execution n ms ∧
    (∀ i ≤ n, ∀ K, (ms i).system.locks[1]? = some K → (ms i).Leaves K.queue) ∧ 18 < n ∧
    (ms 18).system.locks[1]? = some L ∧
    (ms 18).system.kernel.table.waitingQueue ⟨2⟩ = some L.queue ∧ (ms 18).holder? 1 = none ∧
    Begins ⟨3⟩ (.acquire 1) (ms 18) ∧ (ms 19).holder? 1 = some ⟨3⟩ ∧ ¬ Excludes 1 n ms := by
  have hrun : (Kernel.start .counting rendezvousSettings).toOption.any (fun k =>
      let ms := fun i => (run i (start k sharingPrograms sharingMain)).1
      (run 19 (ms 0)).2 = .unfinished ∧ throughout (leavesLock 1) 19 (ms 0) ∧
        (ms 18).system.locks[1]? = some ⟨none, ⟨1⟩⟩ ∧
        (ms 18).system.kernel.table.waitingQueue ⟨2⟩ = some ⟨1⟩ ∧
        (ms 18).thread? = some ⟨3⟩ ∧ (ms 18).beginning?.bind Instr.acquire? = some 1 ∧
        (ms 19).holder? 1 = some ⟨3⟩) = true := by
    decide +kernel
  obtain ⟨k, hk, hrun⟩ := exists_start hrun
  obtain ⟨hn, hleaves, hl, hw, hthread, hacquire, htaken⟩ := of_decide_eq_true hrun
  have hfree : (run 18 (start k sharingPrograms sharingMain)).1.holder? 1 = none := holder?_eq hl
  refine ⟨19, _, _, execution_run hk hn,
    fun i hi K hK => leaves_of_leavesLock (of_throughout hleaves hi) hK, by decide, hl, hw, hfree,
    begins_acquire hthread hacquire, htaken, fun hexcludes => ?_⟩
  exact hexcludes.occupied 18 (by decide) _ _ hl hw hfree

end Machine
end ThreadKernel
