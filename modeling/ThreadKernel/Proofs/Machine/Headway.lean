import ThreadKernel.Proofs.Directory
import ThreadKernel.Proofs.Machine.JoinQueues
import ThreadKernel.Proofs.Machine.Vocabulary

/-!
# ThreadKernel.Proofs.Machine.Headway

How far one step takes a program whose loops are bounded, and whom it leaves alive. A step never
goes back: it completes the first instruction, opens it up, suspends at a new yield point, or passes
the one at which it was suspended.

* `Instr.bounded`           — no loop that goes on as long as a variable says.
* `Activation.Advances`     — what a step makes of the program.
* `Kernel.living`           — the threads that are alive.
* `System.Staffs`           — what a step of a program makes of the threads.
* `stepCode_advances`, `stepCode_staffs` — every step of a program is one of these.
-/

namespace ThreadKernel

open Kernel (Steady)

/-! ## The program itself -/

mutual

def Instr.bounded : Instr → Bool
  | .whileEq _ _ _ | .whileNe _ _ _ | .whileSame _ _ _ => false
  | .loop _ body | .ifEq _ _ body => Instr.boundedList body
  | _ => true

def Instr.boundedList : List Instr → Bool
  | [] => true
  | i :: rest => i.bounded && Instr.boundedList rest

end

/-- The instruction may suspend its thread. -/
def Instr.suspends : Instr → Bool
  | .yield | .block | .join _ | .acquire _ | .sleep _ | .wait _ _ => true
  | _ => false

/-- What bounded control flow is replaced by. -/
inductive Instr.Unfolds : Instr → List Instr → Prop where
  | ended {body : List Instr} : Unfolds (.loop 0 body) []
  | again {n : Nat} {body : List Instr} : Unfolds (.loop (n + 1) body) (body ++ [.loop n body])
  | holds {v : Nat} {x : Int} {body : List Instr} : Unfolds (.ifEq v x body) body
  | fails {v : Nat} {x : Int} {body : List Instr} : Unfolds (.ifEq v x body) []

theorem Instr.boundedList_append (l l' : List Instr) :
    Instr.boundedList (l ++ l') = (Instr.boundedList l && Instr.boundedList l') := by
  induction l with
  | nil => rfl
  | cons i l ih => simp only [List.cons_append, Instr.boundedList, ih, Bool.and_assoc]

theorem Instr.boundedList_act (l : List Action) : Instr.boundedList (l.map .act) = true := by
  induction l with
  | nil => rfl
  | cons a l ih => rw [List.map_cons, Instr.boundedList, ih]; rfl

theorem Instr.Unfolds.bounded {i : Instr} {l : List Instr} (h : i.Unfolds l)
    (hi : i.bounded = true) : Instr.boundedList l = true := by
  cases h with
  | ended | fails => rfl
  | holds => exact hi
  | again =>
    have hbody : Instr.boundedList _ = true := hi
    rw [Instr.boundedList_append, hbody]
    simp only [Instr.boundedList, Instr.bounded, hbody, Bool.and_self]

namespace Activation

structure Bounded (a : Activation) : Prop where
  code : Instr.boundedList a.code = true
  /-- A program that waits at a yield point is not at its end. -/
  ended : a.code = [] → a.stage = .fresh

inductive Advances (a a' : Activation) : Prop where
  | completes {i : Instr} {rest : List Instr} (code : a.code = i :: rest) (after : a'.code = rest)
      (fresh : a'.stage = .fresh)
  | enters {b : Action} {rest : List Instr} (stage : a.stage = .fresh)
      (code : a.code = .act (.atomic b) :: rest) (after : a'.code = .act b :: rest)
      (fresh : a'.stage = .fresh)
  | unfolds {i : Instr} {body rest : List Instr} (stage : a.stage = .fresh)
      (code : a.code = i :: rest) (unfolds : i.Unfolds body) (after : a'.code = body ++ rest)
      (fresh : a'.stage = .fresh)
  | suspends {i : Instr} {rest : List Instr} {p : YieldPoint} {r : Resume}
      (stage : a.stage = .fresh) (code : a.code = i :: rest) (able : i.suspends = true)
      (after : a'.code = i :: rest) (suspended : a'.stage = .suspended p r)
      (new : p.yielded = false)
  /-- A sleeper that was woken finds its lock taken. -/
  | asksAgain {i : Instr} {rest : List Instr} {p : YieldPoint} {l : Nat} {level level' : Level}
      (stage : a.stage = .suspended p (.relock l level)) (code : a.code = i :: rest)
      (after : a'.code = i :: rest)
      (suspended : a'.stage = .suspended .untilWake (.takeOver l level'))

variable {a a' : Activation} {i : Instr} {rest : List Instr}

theorem Bounded.of_fresh (hc : Instr.boundedList a.code = true) (hs : a.stage = .fresh) :
    a.Bounded := ⟨hc, fun _ => hs⟩

theorem Bounded.of_cons (h : a.Bounded) (hc : a.code = i :: rest) :
    i.bounded = true ∧ Instr.boundedList rest = true := by
  have hcode := h.code
  rw [hc, Instr.boundedList, Bool.and_eq_true] at hcode
  exact hcode

theorem Advances.bounded (h : a.Advances a') (ha : a.Bounded) : a'.Bounded := by
  cases h with
  | completes code after fresh =>
    exact .of_fresh (by rw [after]; exact (ha.of_cons code).2) fresh
  | enters _ code after fresh => exact .of_fresh (by rw [after]; exact (ha.of_cons code).2) fresh
  | unfolds _ code hu after fresh =>
    obtain ⟨hi, hrest⟩ := ha.of_cons code
    refine .of_fresh ?_ fresh
    rw [after, Instr.boundedList_append, hu.bounded hi, hrest]
    rfl
  | suspends _ code _ after | asksAgain _ code after =>
    refine ⟨by rw [after, ← code]; exact ha.code, fun he => ?_⟩
    cases after.symm.trans he

/-- The program leaves the yield point behind at which it waited to do `r`: its instruction is
complete, or it is a sleeper that waits for its lock now, at a new yield point. -/
def Passes (r : Resume) (a a' : Activation) : Prop :=
  a'.stage = .fresh ∧ a'.code = a.code.tail ∨
    a'.code = a.code ∧ ∃ l level level', r = .relock l level ∧
      a'.stage = .suspended .untilWake (.takeOver l level')

theorem Advances.passes (h : a.Advances a') {p : YieldPoint} {r : Resume}
    (hs : a.stage = .suspended p r) : a.Passes r a' := by
  cases h with
  | completes code after fresh => exact .inl ⟨fresh, by rw [code, after, List.tail_cons]⟩
  | enters stage | unfolds stage | suspends stage =>
    rw [hs] at stage
    cases stage
  | asksAgain stage code after suspended =>
    rw [hs] at stage
    cases stage
    exact .inr ⟨after.trans code.symm, _, _, _, rfl, suspended⟩

end Activation

namespace System

open Activation (Advances)

variable {a a' b : Activation} {s s' s₁ : System} {v : Value} {actor : Actor} {i : Instr}
  {rest : List Instr} {k : Kernel Activation} {t : ThreadId}

theorem advances_returns (hr : s₁.returns actor v b = .ok (.go a' s')) (hc : b.code = i :: rest)
    (ha : a.code = i :: rest) : a.Advances a' := by
  obtain ⟨level, hgo⟩ := returns_eq hc hr
  cases hgo
  exact .completes ha rfl rfl

theorem advances_blocks {r : Resume} (hr : s₁.blocks r a = .ok (.go a' s'))
    (hs : a.stage = .fresh) (hc : a.code = i :: rest) (hi : i.suspends = true) :
    a.Advances a' := by
  obtain ⟨-, hgo⟩ := blocks_eq hr
  cases hgo
  exact .suspends hs hc hi hc rfl rfl

theorem stepAction_advances {c : Action} (hs : a.stage = .fresh) (hc : a.code = .act c :: rest)
    (hr : s.stepAction actor c rest a = .ok (.go a' s')) : a.Advances a' := by
  unfold System.stepAction at hr
  simp only at hr
  split at hr
  · cases hr
    exact .enters hs hc rfl hs
  · exact advances_returns (b := { a with levels := s.kernel.level :: a.levels }) hr hc hc
  · exact advances_returns (b := { a with levels := a.levels.tail }) hr hc hc
  · exact advances_returns (b := { a with guards := s.kernel.level :: a.guards }) hr hc hc
  · exact advances_returns (b := { a with guards := a.guards.tail }) hr hc hc
  · split at hr <;> cases hr
  · split at hr
    · cases hr
    · exact advances_returns hr hc hc

theorem beginJoin_advances {target : ThreadRef} (hs : a.stage = .fresh)
    (hc : a.code = .join target :: rest) (hr : s.beginJoin actor target a = .ok (.go a' s')) :
    a.Advances a' := by
  obtain ⟨t, u, -, -, -, ⟨-, hr⟩ | ⟨slot, k, -, -, hr⟩⟩ := beginJoin_cases hr
  · exact advances_returns hr hc hc
  · exact advances_blocks hr hs hc rfl

/-- A lock is got or waited for, by an acquire or by a sleeper that was woken. -/
theorem beginAcquire_advances {l : Nat} (hc : a.code = i :: rest)
    (ha : a.stage = .fresh ∧ i.suspends = true ∨
      ∃ p level, a.stage = .suspended p (.relock l level))
    (hr : s.beginAcquire actor l a = .ok (.go a' s')) : a.Advances a' := by
  obtain ⟨m, t, -, -, ⟨k, -, -, hr⟩ | ⟨u, k, -, -, -, hr⟩⟩ := beginAcquire_cases hr
  · exact advances_returns hr hc hc
  · rcases ha with ⟨hs, hi⟩ | ⟨p, level, hs⟩
    · exact advances_blocks hr hs hc hi
    · obtain ⟨-, hgo⟩ := blocks_eq hr
      cases hgo
      exact .asksAgain hs hc hc rfl

theorem stepInstr_advances (ha : a.Bounded) (hs : a.stage = .fresh) (hc : a.code = i :: rest)
    (hr : s.stepInstr actor i rest a = .ok (.go a' s')) : a.Advances a' := by
  cases i with
  | act c => exact stepAction_advances hs hc hr
  | yield =>
    simp only [System.stepInstr] at hr
    split at hr
    · cases hr
    · cases hr
      exact .suspends hs hc rfl hc rfl rfl
  | block => exact advances_blocks hr hs hc rfl
  | join target => exact beginJoin_advances hs hc hr
  | acquire l => exact beginAcquire_advances hc (.inl ⟨hs, rfl⟩) hr
  | sleep c =>
    obtain ⟨x, m, t, m', k₁, k, -, -, -, -, -, -, hr⟩ := beginSleep_cases hr
    exact advances_blocks hr hs hc rfl
  | wait j ticks =>
    obtain ⟨_, _, -, -, hr⟩ := beginWait_cases hr
    exact advances_blocks hr hs hc rfl
  | loop n body =>
    cases n with
    | zero =>
      cases hr
      exact .unfolds hs hc .ended rfl hs
    | succ n =>
      cases hr
      exact .unfolds hs hc .again (List.append_cons body _ rest) hs
  | whileEq | whileNe | whileSame =>
    have hfalse := (ha.of_cons hc).1
    cases hfalse
  | ifEq v x body =>
    cases hr
    split
    · exact .unfolds hs hc .holds rfl hs
    · exact .unfolds hs hc .fails rfl hs

theorem stepResume_advances {p : YieldPoint} {r : Resume} (hs : a.stage = .suspended p r)
    (hc : a.code = i :: rest) (hr : s.stepResume actor t r a = .ok (.go a' s')) :
    a.Advances a' := by
  cases r with
  | proceed | leave level => exact advances_returns hr hc hc
  | takeOver l level =>
    simp only [System.stepResume] at hr
    split at hr
    · cases hr
    · split at hr
      · exact advances_returns hr hc hc
      · cases hr
  | relock l level => exact beginAcquire_advances hc (.inr ⟨p, level, hs⟩) hr

theorem stepCode_advances (ha : a.Bounded) (hr : s.stepCode actor a = .ok (.go a' s')) :
    a.Advances a' := by
  cases stepCode_ok hr with
  | begins code stage instr => exact stepInstr_advances ha stage code instr
  | resumes code stage _ _ resume => exact stepResume_advances stage code resume

end System

/-! ## The threads -/

namespace Kernel

variable {k k' k'' : Kernel Activation} {t : ThreadId} {a : Activation}

/-- The threads that are alive. -/
def living (k : Kernel Activation) : Finset ThreadId := k.registry.slots.keys.toFinset

theorem mem_living : t ∈ k.living ↔ (k.registry.get? t).isSome := by
  rw [living, List.mem_toFinset, Directory.mem_keys_iff]
  rfl

theorem card_living (k : Kernel Activation) : k.living.card = k.numThreads := by
  rw [living, List.toFinset_card_of_nodup k.registry.slots.nodup_keys, ← Directory.size_eq_keys]
  rfl

/-- The same threads are alive, with the same programs. -/
structure SameThreads (k k' : Kernel Activation) : Prop where
  pending : k'.pending? = k.pending?
  living : k'.living = k.living
  number : k'.registry.nextNumber = k.registry.nextNumber

/-- The thread is alive, and its program is `a`, or is being executed. -/
structure Places (t : ThreadId) (a : Option Activation) (k k' : Kernel Activation) : Prop where
  alive : t ∈ k.living
  pending : k'.pending? = Function.update k.pending? t a
  living : k'.living = k.living
  number : k'.registry.nextNumber = k.registry.nextNumber

/-- The next thread came to life. -/
structure Gains (t : ThreadId) (a : Activation) (k k' : Kernel Activation) : Prop where
  absent : t ∉ k.living
  pending : k'.pending? = Function.update k.pending? t (some a)
  living : k'.living = insert t k.living
  number : k'.registry.nextNumber = k.registry.nextNumber + 1

/-- The thread, whose program is over, is not alive any more. -/
structure Loses (t : ThreadId) (k k' : Kernel Activation) : Prop where
  alive : t ∈ k.living
  pending : k'.pending? = Function.update k.pending? t none
  living : k'.living = k.living.erase t
  number : k'.registry.nextNumber = k.registry.nextNumber

theorem SameThreads.numThreads (h : SameThreads k k') : k'.numThreads = k.numThreads := by
  rw [← card_living, h.living, card_living]

theorem Places.numThreads {o : Option Activation} (h : Places t o k k') :
    k'.numThreads = k.numThreads := by
  rw [← card_living, h.living, card_living]

theorem Gains.numThreads (h : Gains t a k k') : k'.numThreads = k.numThreads + 1 := by
  rw [← card_living, h.living, Finset.card_insert_of_notMem h.absent, card_living]

theorem Loses.numThreads (h : Loses t k k') : k'.numThreads + 1 = k.numThreads := by
  rw [← card_living, h.living, Finset.card_erase_add_one h.alive, card_living]

theorem SameThreads.of_registry (h : k'.registry = k.registry) : SameThreads k k' :=
  ⟨pending_of_registry h, congrArg (fun r => r.slots.keys.toFinset) h, by rw [h]⟩

theorem SameThreads.trans (h : SameThreads k k') (h' : SameThreads k' k'') : SameThreads k k'' :=
  ⟨h'.pending.trans h.pending, h'.living.trans h.living, h'.number.trans h.number⟩

/-- Whoever keeps all tasks and gives out no number leaves the threads as they are. -/
theorem Steady.sameThreads (h : Steady k k')
    (hn : k'.registry.nextNumber = k.registry.nextNumber) : SameThreads k k' := by
  have hget : ∀ t, (k.registry.get? t = none ∧ k'.registry.get? t = none) ∨
      ∃ slot signal, k.registry.get? t = some slot ∧
        k'.registry.get? t = some { slot with signal := signal } := by
    intro t
    cases hs : k.registry.get? t with
    | some slot =>
      obtain ⟨signal, hs'⟩ := h.slot hs
      exact .inr ⟨slot, signal, rfl, hs'⟩
    | none =>
      refine .inl ⟨rfl, ?_⟩
      by_contra hne
      obtain ⟨slot, hslot⟩ := Option.ne_none_iff_exists'.1 hne
      obtain ⟨_, hold, -⟩ := (h.retains hn).slot hslot
      cases hs.symm.trans hold
  refine ⟨funext fun t => ?_, Finset.ext fun t => ?_, hn⟩
  · rw [pending?, pending?]
    rcases hget t with ⟨hs, hs'⟩ | ⟨slot, signal, hs, hs'⟩
    · rw [hs, hs']
    · rw [hs, hs']
      rfl
  · rw [mem_living, mem_living]
    rcases hget t with ⟨hs, hs'⟩ | ⟨slot, signal, hs, hs'⟩
    · rw [hs, hs']
    · rw [hs, hs']
      rfl

theorem poll_sameThreads {p p' : YieldPoint} {ready : Bool}
    (h : k.pollPoint t p = (ready, p', k')) : SameThreads k k' :=
  (pollPoint_steady h).sameThreads (pollPoint_retains h).number

/-- Whatever leaves the threads as they are may come before and after. -/
theorem Places.within {k₁ k₂ : Kernel Activation} {o : Option Activation} (h : Places t o k k')
    (h₁ : SameThreads k₁ k) (h₂ : SameThreads k' k₂) : Places t o k₁ k₂ where
  alive := h₁.living ▸ h.alive
  pending := by rw [h₂.pending, h.pending, h₁.pending]
  living := by rw [h₂.living, h.living, h₁.living]
  number := by rw [h₂.number, h.number, h₁.number]

theorem Loses.within {k₁ k₂ : Kernel Activation} (h : Loses t k k') (h₁ : SameThreads k₁ k)
    (h₂ : SameThreads k' k₂) : Loses t k₁ k₂ where
  alive := h₁.living ▸ h.alive
  pending := by rw [h₂.pending, h.pending, h₁.pending]
  living := by rw [h₂.living, h.living, h₁.living]
  number := by rw [h₂.number, h.number, h₁.number]

/-- What lookups say of a slot that is put in place of another one, or added. -/
theorem living_of_get? {slot : Slot Activation}
    (h : ∀ u, k'.registry.get? u = if t = u then some slot else k.registry.get? u) :
    k'.living = insert t k.living ∧
      k'.pending? = Function.update k.pending? t (slot.task.map ThreadTask.coroutine) := by
  refine ⟨Finset.ext fun u => ?_, funext fun u => ?_⟩
  · rw [Finset.mem_insert, mem_living, mem_living, h u]
    split
    · rename_i hu
      simp [hu]
    · rename_i hu
      exact ⟨.inr, fun hu' => hu'.resolve_left fun e => hu e.symm⟩
  · rw [pending?, h u]
    split
    · rename_i hu
      subst hu
      rw [Function.update_self]
      rfl
    · rename_i hu
      rw [Function.update_of_ne (Ne.symm hu), pending?]

theorem spawn_gains {name : String} (hs : k.table.Sound) (h : k.spawn name a = .ok (t, k')) :
    Gains t a k k' := by
  obtain ⟨q, hsp⟩ := spawn_ok hs h
  obtain ⟨hliving, hpending⟩ := living_of_get? hsp.get?
  exact ⟨by rw [mem_living, hsp.absent]; exact Bool.false_ne_true, hpending, hliving, hsp.number⟩

theorem park_places {d : Dispatched Activation} (h : k.park d = .ok k') :
    Places d.thread (some d.task.coroutine) k k' ∧ k.pending? d.thread = none := by
  obtain ⟨slot, hslot, htask, hk'⟩ := park_ok h
  have halive : d.thread ∈ k.living := by
    rw [mem_living, hslot]
    rfl
  have hget : ∀ u, k'.registry.get? u = if d.thread = u then
      some { slot with level := k.level, task := some d.task } else k.registry.get? u := fun u => by
    rw [hk']
    exact Registry.get?_setSlot { k.registry with current := none } d.thread u _
  obtain ⟨hliving, hpending⟩ := living_of_get? hget
  refine ⟨⟨halive, hpending, hliving.trans (Finset.insert_eq_of_mem halive), by rw [hk']; rfl⟩, ?_⟩
  rw [pending?, hslot, Option.bind_some, htask]
  rfl

theorem dispatch_places {d : Dispatched Activation} (h : k.dispatch t = .ok (some (d, k'))) :
    Places t none k k' ∧ k.pending? t = some d.task.coroutine := by
  obtain ⟨-, -, -, -, -, slot, hslot, htask, hget⟩ := Machine.dispatch_get? h
  have hnumber := (Machine.dispatch_retains h).number
  have halive : t ∈ k.living := by
    rw [mem_living, hslot]
    rfl
  obtain ⟨hliving, hpending⟩ := living_of_get? hget
  refine ⟨⟨halive, hpending, hliving.trans (Finset.insert_eq_of_mem halive), hnumber⟩, ?_⟩
  rw [pending?, hslot, Option.bind_some, htask]
  rfl

theorem finish_loses {d : Dispatched Activation} (h : k.finish d = .ok k') :
    Loses d.thread k k' := by
  obtain ⟨slot, -, -, -, -, hslot, -⟩ := retire_ok h
  have hnumber : k'.registry.nextNumber = k.registry.nextNumber := (retire_retains h).number
  obtain ⟨k₁, hsteady, rfl⟩ := Machine.finish_cases h
  have hsame : SameThreads (k.backToLoop d).enter k₁ := hsteady.sameThreads hnumber
  have hliving : k₁.living = k.living := hsame.living
  have hpending : k₁.pending? = k.pending? := hsame.pending
  have hget : ∀ u, (k₁.registry.slots.erase d.thread).get? u =
      if d.thread = u then none else k₁.registry.get? u := Directory.get?_erase _ _
  refine ⟨?_, funext fun u => ?_, Finset.ext fun u => ?_, hnumber⟩
  · rw [mem_living]
    have hslot : k.registry.get? d.thread = some slot := hslot
    rw [hslot]
    rfl
  · show ((k₁.registry.slots.erase d.thread).get? u).bind _ = _
    rw [hget u, ← hpending]
    split
    · rename_i hu
      subst hu
      rw [Function.update_self]
      rfl
    · rename_i hu
      rw [Function.update_of_ne (Ne.symm hu)]
      rfl
  · rw [Finset.mem_erase, ← hliving, mem_living, mem_living]
    show ((k₁.registry.slots.erase d.thread).get? u).isSome ↔ _
    rw [hget u]
    split
    · rename_i hu
      simp [hu]
    · rename_i hu
      exact ⟨fun h => ⟨Ne.symm hu, h⟩, And.right⟩

theorem choose_sameThreads {served : Option ThreadId} (h : k.chooseThread = .ok (served, k')) :
    SameThreads k k' :=
  have hsame : SameThreads k.enter k'.enter :=
    (Machine.choose_steady h).sameThreads (chooseThread_retains h).number
  ⟨hsame.pending, hsame.living, hsame.number⟩

theorem release_sameThreads {alarm alarm' : Alarm} (h : alarm.release k = .ok (alarm', k')) :
    SameThreads k k' := by
  obtain ⟨hwake, -⟩ := Alarm.release_ok h
  exact (Machine.release_steady h).sameThreads (wakeEach_retains _ hwake).number

end Kernel

namespace System

open Kernel (SameThreads Gains)

variable {a a' b : Activation} {s s' s₁ : System} {v : Value} {actor : Actor} {i : Instr}
  {rest : List Instr} {k : Kernel Activation} {t : ThreadId}

/-- What a step of a program makes of the threads. -/
inductive Staffs (a : Activation) (s s' : System) : Prop where
  | same (threads : SameThreads s.kernel s'.kernel)
  | spawns {j : Nat} {x : Program} {t : ThreadId} (begins : a.Begins (.act (.spawn j)))
      (named : s.programs[j]? = some x) (gains : Gains t (.start x.code) s.kernel s'.kernel)

/-- Each number that is given out is that of a thread that came to life. -/
theorem Staffs.tally (h : Staffs a s s') :
    s'.kernel.numThreads + s.kernel.registry.nextNumber =
      s.kernel.numThreads + s'.kernel.registry.nextNumber := by
  cases h with
  | same threads => rw [threads.numThreads, threads.number]
  | spawns _ _ gains =>
    rw [gains.numThreads, gains.number]
    omega

/-- A step that gives out no number leaves the threads as they are. -/
theorem staffs_of_number (hr : s.stepCode actor a = .ok (.go a' s'))
    (hn : s'.kernel.registry.nextNumber = s.kernel.registry.nextNumber) : Staffs a s s' :=
  have hsame : SameThreads s.kernel.enter s'.kernel.enter :=
    (stepCode_grows hr).kernel.sameThreads hn
  .same ⟨hsame.pending, hsame.living, hsame.number⟩

theorem stepCode_staffs (hk : s.kernel.table.Sound)
    (hr : s.stepCode actor a = .ok (.go a' s')) : Staffs a s s' := by
  rcases stepCode_retains_or_spawns hr with hretains | ⟨j, x, t, k, level, hb, hx, hspawn, hkernel⟩
  · exact staffs_of_number hr hretains.number
  · have hgains := Kernel.spawn_gains hk hspawn
    refine .spawns hb hx (t := t) ?_
    rw [hkernel]
    exact ⟨hgains.absent, hgains.pending, hgains.living, hgains.number⟩

end System
end ThreadKernel
