import ThreadKernel.Proofs.Kernel.Spawn
import ThreadKernel.Proofs.Machine.Clearance

/-!
# ThreadKernel.Proofs.Machine.Newcomers

How threads begin, whatever programs did before. A spawn relies on the ready queue, which only a
program that names it can destroy, and on what the table has of the new thread, which is nothing
unless a program has named that thread before it existed.

* `Edit.own`           — what a step does to the table without being asked for it by name.
* `Machine.Intact`     — the ready queue is as it was made, and no thread has it for its join queue.
* `Turn.unknown`       — one step gives a state to nobody who is neither alive nor named.
* `Named`, `Arrival`   — what a spawn comes to, whether or not a program has named the thread.
* `execution_arrival`  — it is so in every execution that does not destroy the ready queue.
-/

namespace ThreadKernel

open Kernel (Introduces Retains)
open Table (Course Op)

namespace System

variable {a : Activation} {s s' : System} {op : Op} {q : QueueId} {b : Bool}

/-- An operation that the program does not ask for by name is about the running thread or a new one,
and destroys no queue. -/
theorem Edit.own (h : Edit a s op) (ha : a.op? s ≠ some op) :
    (∀ q, op ≠ .destroyQueue q) ∧ ∀ u, op.Names u → s.kernel.registry.current = some u ∨
      ∃ j, a.Begins (.act (.spawn j)) ∧ u = ⟨s.kernel.registry.nextNumber⟩ := by
  have hkeeps : ∀ q, op ≠ .destroyQueue q := by
    rintro q rfl
    cases h with
    | handles _ _ asked => exact ha asked
  refine ⟨hkeeps, fun u hu => ?_⟩
  cases h with
  | creates | wakes => exact hu.elim
  | adjusts current | joins current | waits current | sleeps current => exact .inl (hu ▸ current)
  | adjustsNamed begins resolved =>
    refine absurd ?_ ha
    rw [begins.op?_eq, Action.op?, target?_of_resolve resolved]
    rfl
  | grants begins | admits begins => exact .inr ⟨_, begins, hu.symm⟩
  | handles _ _ asked => exact absurd asked ha

theorem Edits.transfer (h : Edits a s s') (hs : s.kernel.table.Sound)
    (ha : a.op? s ≠ some (.destroyQueue q))
    (hq : s.kernel.table.links.transfer q = some b) :
    s'.kernel.table.links.transfer q = some b := by
  have hedit : ¬ Edit a s (.destroyQueue q) := fun hop => (hop.own ha).1 q rfl
  cases h with
  | aside table => exact table.transfer hs hedit hq
  | takes _ _ _ table => exact Table.apply_transfer (.acquire _ _) hs hq nofun table
  | passes _ _ _ next table =>
    obtain ⟨hs', -, htransfer, -⟩ := Table.nextThread_owner hs next
    exact table.transfer hs' hedit (htransfer ▸ hq)

end System

namespace Machine

variable {m m' : Machine} {q : QueueId} {t : ThreadId}

/-! ## The ready queue -/

/-- The ready queue is as it was made, and is nobody's join queue. -/
structure Intact (m : Machine) : Prop where
  silent : m.system.kernel.table.Silent m.system.kernel.readyQueue
  apart : ∀ {t slot}, m.system.kernel.registry.get? t = some slot →
    slot.joinQueue ≠ m.system.kernel.readyQueue

theorem Turn.readyQueue_eq (h : Turn m m') :
    m'.system.kernel.readyQueue = m.system.kernel.readyQueue := by
  cases h with
  | program _ code | thread _ code => exact (System.stepCode_grows code).kernel.ready
  | parks _ code park system =>
    obtain ⟨slot, -, -, hk⟩ := Kernel.park_ok park
    rw [system]
    exact (congrArg Kernel.readyQueue hk).trans (System.stepCode_grows code).kernel.ready
  | retires _ _ finish system =>
    obtain ⟨k₁, hsteady, rfl⟩ := finish_cases finish
    rw [System.restoreAll_eq] at hsteady
    rw [system]
    exact hsteady.ready
  | alarm _ _ release same => exact same.ready.trans (release_steady release).ready
  | chooses _ _ choose same => exact same.ready.trans (choose_steady choose).ready
  | dispatches _ choose dispatch system =>
    obtain ⟨-, -, hready, -⟩ := dispatch_get? dispatch
    rw [system]
    exact hready.trans (choose_steady choose).ready
  | quiet _ _ same => exact same.ready

/-- A queue stays unless the program asks for its end or its thread retires. -/
theorem Turn.transfer {b : Bool} (h : Turn m m') (hr : m.Regular)
    (hop : m.op? ≠ some (.destroyQueue q))
    (hjoin : ∀ t slot, m.system.kernel.registry.get? t = some slot → slot.joinQueue ≠ q)
    (hq : m.system.kernel.table.links.transfer q = some b) :
    m'.system.kernel.table.links.transfer q = some b := by
  have hs := hr.sane.sound
  cases h.reworks with
  | program executes lives code =>
    refine (System.stepCode_edits code).transfer hs (fun ha => hop ?_) hq
    rw [op?, executes]
    exact ha
  | chooses lives course => exact course.transfer hs nofun hq
  | @retires d below slot tb stack code alive course removed =>
    refine Table.apply_transfer (.removeThread d.thread) (course.sound hs)
      (course.transfer hs ?_ hq) nofun removed
    intro htears
    cases htears
    exact hjoin d.thread slot alive rfl
  | quiet lives table => rwa [table]

/-- A new thread has a join queue that did not exist before. -/
theorem Turn.joinQueue_cases (h : Turn m m') (hr : m.Regular) {slot' : Slot Activation}
    (ht : m'.system.kernel.registry.get? t = some slot') :
    (∃ slot, m.system.kernel.registry.get? t = some slot ∧ slot.joinQueue = slot'.joinQueue) ∨
      m.system.kernel.table.links.transfer slot'.joinQueue = none := by
  -- a spawn is the one case in which the directory may have a queue that the table did not have
  rcases h.retains_or_spawns with hretains | ⟨_, _, _, k, _, hspawn, hk⟩
  · exact .inl (hretains.slot ht)
  · obtain ⟨_, hspawned⟩ := Kernel.spawn_ok hr.sane.sound hspawn
    rw [hk] at ht
    rcases hspawned.back ht with ⟨-, rfl⟩ | ⟨-, hslot⟩
    · exact .inr hspawned.queue
    · exact .inl ⟨slot', hslot, rfl⟩

theorem Intact.turn (h : m.Intact) (hr : m.Regular) (hturn : Turn m m')
    (hop : m.op? ≠ some (.destroyQueue m.system.kernel.readyQueue)) : m'.Intact where
  silent := by
    rw [hturn.readyQueue_eq]
    exact Table.silent_of_links (hturn.transfer hr hop (fun _ _ => h.apart) h.silent.links)
  apart ht := by
    rw [hturn.readyQueue_eq]
    rcases hturn.joinQueue_cases hr ht with ⟨slot, hslot, hjoin⟩ | hnone
    · exact hjoin ▸ h.apart hslot
    · intro he
      rw [he, h.silent.links] at hnone
      cases hnone

theorem Intact.reseed (h : m.Intact) (g : Random) : (m.reseed g).Intact := ⟨h.silent, h.apart⟩

theorem start_intact {gen : Generator} {settings : Settings} {k : Kernel Activation}
    {programs : List Program} {main : List Action} (hk : Kernel.start gen settings = .ok k) :
    (start k programs main).Intact := by
  obtain ⟨clock, rfl⟩ := start_ok hk
  refine ⟨⟨⟨false, none, ∅⟩, (Table.queue?_createQueue _ _ _).trans (if_pos rfl), rfl⟩,
    fun {t slot} ht => ?_⟩
  exact nomatch ht.symm.trans (Directory.get?_empty t)

/-! ## Threads that nobody has named -/

/-- A step gives a state to nobody who is dead before and after, unless the program names it. -/
theorem Turn.unknown (h : Turn m m') (hr : m.Regular)
    (hrun : ∀ u, m.system.kernel.registry.current = some u →
      (m.system.kernel.registry.get? u).isSome)
    (hgone : m.system.kernel.registry.get? t = none)
    (hgone' : m'.system.kernel.registry.get? t = none)
    (hop : ∀ op, m.op? = some op → ¬ op.Names t) (ht : t ∉ m.system.kernel.table.known) :
    t ∉ m'.system.kernel.table.known := by
  have hs := hr.sane.sound
  have halive : ∀ {u}, (m.system.kernel.registry.get? u).isSome → u ≠ t := by
    rintro u hu rfl
    rw [hgone] at hu
    cases hu
  have hknown : ∀ u ∈ m.system.kernel.table.known, u ≠ t := fun u hu e => ht (e ▸ hu)
  cases h.reworks with
  | @program a a' actor executes lives code =>
    have hedits := System.stepCode_edits code
    refine fun hmem => hedits.known (A := (· ≠ t)) hs (fun op u hedit hu => ?_)
      (fun u hu => halive (hrun u hu)) hknown t hmem rfl
    -- what the program asks for does not name `t`; all else is about the living or a new thread
    by_cases ha : a.op? m.system = some op
    · rintro rfl
      refine hop op ?_ hu
      rw [op?, executes]
      exact ha
    · rcases (hedit.own ha).2 u hu with hcurrent | ⟨j, hb, rfl⟩
      · exact halive (hrun u hcurrent)
      · -- were it `t`, the thread would be alive afterwards
        rintro rfl
        have hsome := System.stepCode_spawn_alive hs hb code
        rw [hgone'] at hsome
        cases hsome
  | chooses lives course =>
    refine fun hmem => course.known (A := (· ≠ t)) hs (fun op u hchoice hu => ?_) hknown t hmem rfl
    cases hchoice with
    | admits alive => exact hu ▸ halive alive
    | serves => exact hu.elim
  | retires stack code alive course removed =>
    intro hmem
    have hmem := (Table.removeThread_known (course.sound hs) removed hmem).1
    exact course.known (A := (· ≠ t)) hs
      (fun op u htears hu => by cases htears <;> exact hu.elim) hknown t hmem rfl
  | quiet lives table => rwa [table]

end Machine

/-- One of the first `i` steps asked for an operation on the thread, which a program named. -/
def Named (ms : Nat → Machine) (i : Nat) (t : ThreadId) : Prop :=
  ∃ j < i, ∃ op, (ms j).op? = some op ∧ op.Names t

namespace Execution

variable {n i j : Nat} {ms : Nat → Machine} {t : ThreadId}

theorem intact (h : Execution n ms) (hi : i ≤ n)
    (hop : ∀ j < i, (ms j).op? ≠ some (.destroyQueue (ms j).system.kernel.readyQueue)) :
    (ms i).Intact := by
  induction i with
  | zero =>
    obtain ⟨_, _, k, programs, main, hk, hm⟩ := h.start
    rw [hm]
    exact Machine.start_intact hk
  | succ i ih =>
    have hc := h.coherent (i := i) (by omega)
    obtain ⟨m, g, -, hturn, hm⟩ := h.next hi hc
    rw [hm]
    exact ((ih (by omega) fun j hj => hop j (by omega)).turn hc.toRegular hturn
      (hop i (by omega))).reseed g

/-- A number that was not given out yet belongs to nobody. -/
theorem unborn (h : Execution n ms) (hi : i ≤ n)
    (ht : (ms i).system.kernel.registry.nextNumber ≤ t.number) :
    (ms i).system.kernel.registry.get? t = none := by
  rw [Option.eq_none_iff_forall_ne_some]
  intro slot hslot
  exact absurd (h.number_lt hi hslot) (by omega)

/-- Up to the step in which a thread gets its number, the table has a state for it only if a program
has named it. -/
theorem unnamed (h : Execution n ms) (hi : i ≤ n)
    (ht : (ms i).system.kernel.registry.nextNumber ≤ t.number) (hnot : ¬ Named ms i t) :
    t ∉ (ms i).system.kernel.table.known := by
  induction i with
  | zero =>
    obtain ⟨_, _, k, programs, main, hk, hm⟩ := h.start
    intro hmem
    rw [hm] at hmem
    have halive := (Machine.start_furnished hk).known t hmem
    rw [← hm, h.unborn hi ht] at halive
    cases halive
  | succ i ih =>
    have hc := h.coherent (i := i) (by omega)
    obtain ⟨m, g, -, hturn, hm⟩ := h.next hi hc
    have hbefore := (h.nextNumber_le (Nat.le_succ i) hi).trans ht
    have hgone' := h.unborn hi ht
    rw [hm] at hgone' ⊢
    refine hturn.unknown hc.toRegular (fun u hu => ?_) (h.unborn (by omega) hbefore) hgone'
      (fun op hop hnames => hnot ⟨i, by omega, op, hop, hnames⟩) (ih (by omega) hbefore ?_)
    · rw [hc.current] at hu
      obtain ⟨d, below, hs, rfl⟩ := Machine.thread?_cases hu
      exact h.running_alive (by omega) hs
    · rintro ⟨j, hj, hnamed⟩
      exact hnot ⟨j, by omega, hnamed⟩

end Execution

/-- What a spawn comes to, if `named` says whether a program has named the new thread before. -/
structure Arrival (name : String) (a : Activation) (k : Kernel Activation) (named : Prop) :
    Prop where
  /-- A thread that waits for something before it exists cannot begin. -/
  refused : ∀ q, k.table.waitingQueue k.nextThreadId = some q →
    k.spawn name a = .error (.waitsElsewhere k.nextThreadId q k.nextQueueId)
  /-- Any other keeps what the table has of it. -/
  admitted : k.table.waitingQueue k.nextThreadId = none →
    ∃ k', k.spawn name a = .ok (k.nextThreadId, k') ∧ Introduces name a k k'
  /-- That is nothing, if no program has named it, so that it begins with the initial values and
  owns its join queue and no other. -/
  unnamed : ¬ named →
    ∃ k', k.spawn name a = .ok (k.nextThreadId, k') ∧ Introduces name a k k' ∧
      k'.table.state k.nextThreadId =
        ⟨k.bounds.initial, k.bounds.initial, [k.nextQueueId], some k.readyQueue⟩

/-- A spawn succeeds, and takes over what the table has of the new thread, unless that thread waits
already. -/
theorem execution_arrival {n i : Nat} {ms : Nat → Machine} (h : Execution n ms) (hi : i ≤ n)
    (hready : ∀ j < i, (ms j).op? ≠ some (.destroyQueue (ms j).system.kernel.readyQueue))
    (name : String) (a : Activation) : Arrival name a (ms i).system.kernel
      (Named ms i (ms i).system.kernel.nextThreadId) := by
  have hs := (h.coherent hi).sane.sound
  have hsilent := (h.intact hi hready).silent
  have hfree := h.unborn (t := (ms i).system.kernel.nextThreadId) hi le_rfl
  have hunknown := h.unnamed (t := (ms i).system.kernel.nextThreadId) hi le_rfl
  generalize (ms i).system.kernel = k at *
  have hadmitted := Kernel.spawn_introduces name a hs hsilent hfree
  refine ⟨fun q hw => Kernel.spawn_waiting hs hfree hw, hadmitted, fun hnot => ?_⟩
  have hstate : k.table.state k.nextThreadId = .initial k.policy := by
    have hnone := hunknown hnot
    rw [Table.mem_known, Option.not_isSome_iff_eq_none] at hnone
    exact Table.state_of_absent hnone
  obtain ⟨k', hspawn, hintroduces⟩ := hadmitted (by rw [Table.waitingQueue, hstate]; rfl)
  refine ⟨k', hspawn, hintroduces, ?_⟩
  rw [hintroduces.state, hstate]
  rfl

namespace Machine

/-- The next step does not destroy the ready queue. -/
def sparesReady (m : Machine) : Bool :=
  decide (m.op? ≠ some (.destroyQueue m.system.kernel.readyQueue))

/-- The next new thread, and what the table has of it. -/
def expected (m : Machine) : ThreadId × ThreadState :=
  (m.system.kernel.nextThreadId, m.system.kernel.table.state m.system.kernel.nextThreadId)

/-- Two threads are named before they exist: one gets a priority, the other one waits. -/
def prematureMain : List Action :=
  [.spawn 0, .atomic (.setPriority (.named ⟨2⟩) 7), .createQueue false, .spawn 0,
    .atomic (.waitOn ⟨2⟩ (.named ⟨3⟩)), .now]

def prematureSettings : Settings := ⟨.priority, none, 100, 1⟩

def prematurePrograms : List Program := [⟨"worker", []⟩]

theorem execution_arrival_premature : ∃ (n : Nat) (ms : Nat → Machine), Execution n ms ∧ 7 ≤ n ∧
    (∀ j < n, (ms j).op? ≠ some (.destroyQueue (ms j).system.kernel.readyQueue)) ∧
    (ms 0).op? = none ∧ (ms 1).expected = (⟨2⟩, ⟨1, 1, [], none⟩) ∧
    (ms 4).expected = (⟨2⟩, ⟨7, 7, [], none⟩) ∧
    (ms 5).system.kernel.table.state ⟨2⟩ = ⟨7, 7, [⟨3⟩], some ⟨0⟩⟩ ∧
    (ms 7).expected = (⟨3⟩, ⟨1, 1, [], some ⟨2⟩⟩) ∧
    ∀ i ∈ [1, 4, 7], ∀ name a, Arrival name a (ms i).system.kernel
      (Named ms i (ms i).system.kernel.nextThreadId) := by
  have hrun : (Kernel.start .counting prematureSettings).toOption.any (fun k =>
      let m := fun i => (run i (start k prematurePrograms prematureMain)).1
      (run 7 (m 0)).2 = .unfinished ∧ throughout sparesReady 7 (m 0) = true ∧
        (m 0).op? = none ∧ (m 1).expected = (⟨2⟩, ⟨1, 1, [], none⟩) ∧
        (m 4).expected = (⟨2⟩, ⟨7, 7, [], none⟩) ∧
        (m 5).system.kernel.table.state ⟨2⟩ = ⟨7, 7, [⟨3⟩], some ⟨0⟩⟩ ∧
        (m 7).expected = (⟨3⟩, ⟨1, 1, [], some ⟨2⟩⟩)) = true := by
    decide +kernel
  obtain ⟨k, hk, hrun⟩ := exists_start hrun
  obtain ⟨hn, hall, hfirst, hclean, hset, hborn, hwaits⟩ := of_decide_eq_true hrun
  have hexec := execution_run hk hn
  have hspares := fun j (hj : j < 7) => of_decide_eq_true (of_throughout hall hj.le)
  refine ⟨7, _, hexec, by decide, hspares, hfirst, hclean, hset, hborn, hwaits,
    fun i hi name a => ?_⟩
  have hle : i ≤ 7 := by
    simp only [List.mem_cons, List.not_mem_nil, or_false] at hi
    omega
  exact execution_arrival hexec hle (fun j hj => hspares j (by omega)) name a

end Machine
end ThreadKernel
