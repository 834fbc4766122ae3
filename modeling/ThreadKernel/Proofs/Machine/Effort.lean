import Mathlib.Algebra.BigOperators.Group.Finset.Basic
import ThreadKernel.Proofs.Machine.Moves

/-!
# ThreadKernel.Proofs.Machine.Effort

How much there is left to do. If each program spawns only later ones, every program has a price that
covers all that a thread with it and the threads it spawns will execute, and every step of a thread
takes something off.

* `Instr.effort`, `Activation.effort` — the steps that are left, with a price for each spawn.
* `exists_price`                      — prices for programs of which each spawns only later ones.
* `Kernel.effort`                     — what the threads have left that are not being executed.
* `Staffs.effort`                     — a step of a program lowers what is left, spawns or not.
-/

namespace ThreadKernel

open Kernel (SameThreads Places Gains Loses)

/-! ## Programs -/

/-- A spawn costs what its thread costs. -/
def Action.effort (price : Nat → Nat) : Action → Nat
  | .atomic a => a.effort price + 1
  | .spawn j => price j + 1
  | _ => 1

mutual

/-- An instruction that suspends its thread takes five steps at most: it begins, is polled twice at
its yield point, and a sleeper that asks for its lock again is polled twice more. -/
def Instr.effort (price : Nat → Nat) : Instr → Nat
  | .act a => a.effort price
  | .loop n body => n * (Instr.effortList price body + 1) + 1
  | .ifEq _ _ body => Instr.effortList price body + 1
  | _ => 5

def Instr.effortList (price : Nat → Nat) : List Instr → Nat
  | [] => 0
  | i :: rest => i.effort price + Instr.effortList price rest

end

/-- The steps from a yield point to the end of the instruction. -/
def Resume.effort : Resume → Nat
  | .relock _ _ => 3
  | _ => 1

/-- The end of a program is a step of its own. -/
def Activation.effort (price : Nat → Nat) (a : Activation) : Nat :=
  match a.code, a.stage with
  | [], _ => 1
  | i :: rest, .fresh => i.effort price + Instr.effortList price rest + 1
  | _ :: rest, .suspended p r =>
    r.effort + (if p.yielded then 0 else 1) + Instr.effortList price rest + 1

/-- Each price pays for a thread with the program. -/
def Affords (price : Nat → Nat) (programs : List Program) : Prop :=
  ∀ j x, programs[j]? = some x → (Activation.start x.code).effort price ≤ price j

/-- The action spawns no program but those behind `i`. -/
def Action.spawnsBehind (i : Nat) : Action → Bool
  | .spawn j => i < j
  | _ => true

theorem Action.effort_pos (price : Nat → Nat) (a : Action) : 0 < a.effort price := by
  cases a <;> exact Nat.succ_pos _

theorem Resume.effort_pos (r : Resume) : 0 < r.effort := by
  cases r <;> exact Nat.succ_pos _

theorem Resume.effort_le (r : Resume) : r.effort ≤ 3 := by
  cases r <;> simp only [Resume.effort] <;> omega

theorem Instr.effort_pos (price : Nat → Nat) (i : Instr) : 0 < i.effort price := by
  cases i with
  | act a => exact a.effort_pos price
  | _ => exact Nat.succ_pos _

theorem Instr.effortList_append (price : Nat → Nat) (l l' : List Instr) :
    Instr.effortList price (l ++ l') = Instr.effortList price l + Instr.effortList price l' := by
  induction l with
  | nil => exact (Nat.zero_add _).symm
  | cons i l ih => simp only [List.cons_append, Instr.effortList, ih, Nat.add_assoc]

theorem Instr.Unfolds.effort_lt {i : Instr} {l : List Instr} (h : i.Unfolds l)
    (price : Nat → Nat) : Instr.effortList price l < i.effort price := by
  cases h with
  | ended | fails => exact Nat.succ_pos _
  | holds => exact Nat.lt_succ_self _
  | again =>
    simp only [Instr.effortList_append, Instr.effortList, Instr.effort, Nat.add_mul]
    omega

theorem Instr.effort_of_suspends {i : Instr} (h : i.suspends = true) (price : Nat → Nat) :
    i.effort price = 5 := by
  cases i <;> first | rfl | cases h

/-! ### Prices -/

section Prices

variable {price price' : Nat → Nat} {i : Nat}

theorem Action.effort_congr (hp : ∀ j, i < j → price j = price' j) (a : Action)
    (ha : a.every (Action.spawnsBehind i) = true) : a.effort price = a.effort price' := by
  cases a with
  | atomic b =>
    rw [Action.every, Bool.and_eq_true] at ha
    rw [Action.effort, Action.effort, Action.effort_congr hp b ha.2]
  | spawn j =>
    have hj : i < j := of_decide_eq_true ha
    rw [Action.effort, Action.effort, hp j hj]
  | _ => rfl

mutual

theorem Instr.effort_congr (hp : ∀ j, i < j → price j = price' j) :
    ∀ x : Instr, x.every (Action.spawnsBehind i) = true → x.effort price = x.effort price'
  | .act a, h => a.effort_congr hp h
  | .loop n body, h => by
    rw [Instr.effort, Instr.effort, Instr.effortList_congr hp body h]
  | .ifEq _ _ body, h => by
    rw [Instr.effort, Instr.effort, Instr.effortList_congr hp body h]
  | .yield, _ | .block, _ | .join _, _ | .acquire _, _ | .sleep _, _ | .wait _ _, _
  | .whileEq _ _ _, _ | .whileNe _ _ _, _ | .whileSame _ _ _, _ => rfl

theorem Instr.effortList_congr (hp : ∀ j, i < j → price j = price' j) :
    ∀ l : List Instr, Instr.everyList (Action.spawnsBehind i) l = true →
      Instr.effortList price l = Instr.effortList price' l
  | [], _ => rfl
  | x :: rest, h => by
    rw [Instr.everyList, Bool.and_eq_true] at h
    rw [Instr.effortList, Instr.effortList, Instr.effort_congr hp x h.1,
      Instr.effortList_congr hp rest h.2]

end

theorem Activation.effort_start (price : Nat → Nat) (code : List Instr) :
    (Activation.start code).effort price = Instr.effortList price code + 1 := by
  cases code <;> rfl

/-- Prices are set from the last program to the first. -/
theorem exists_price {programs : List Program}
    (h : ∀ j x, programs[j]? = some x →
      Instr.everyList (Action.spawnsBehind j) x.code = true) : ∃ price, Affords price programs := by
  have hlast : ∀ n, ∃ price : Nat → Nat, ∀ j x, programs[j]? = some x → programs.length ≤ j + n →
      (Activation.start x.code).effort price ≤ price j := by
    intro n
    induction n with
    | zero =>
      refine ⟨fun _ => 0, fun j x hx hj => ?_⟩
      obtain ⟨hlt, -⟩ := List.getElem?_eq_some_iff.1 hx
      omega
    | succ n ih =>
      obtain ⟨price, hprice⟩ := ih
      -- the one that is to be set is not spawned by those that have a price already
      let first := programs.length - (n + 1)
      let cost := Instr.effortList price ((programs[first]?.map Program.code).getD []) + 1
      refine ⟨Function.update price first cost, fun j x hx hj => ?_⟩
      have hbehind : first ≤ j := by simp only [first]; omega
      rw [Activation.effort_start, Instr.effortList_congr
        (fun i hi => Function.update_of_ne (Nat.ne_of_gt (Nat.lt_of_le_of_lt hbehind hi)) _ _)
        x.code (h j x hx), ← Activation.effort_start]
      by_cases hj' : j = first
      · subst hj'
        rw [Function.update_self, Activation.effort_start]
        simp only [cost, hx, Option.map_some, Option.getD_some]
        exact Nat.le_refl _
      · rw [Function.update_of_ne hj']
        refine hprice j x hx ?_
        simp only [first] at hj' hbehind
        omega
  obtain ⟨price, hprice⟩ := hlast programs.length
  exact ⟨price, fun j x hx => hprice j x hx (Nat.le_add_left _ _)⟩

end Prices

/-! ## One program -/

namespace Activation

variable {a a' : Activation} {i : Instr} {rest : List Instr} {price : Nat → Nat}

theorem effort_fresh (hc : a.code = i :: rest) (hs : a.stage = .fresh) :
    a.effort price = i.effort price + Instr.effortList price rest + 1 := by
  simp only [effort, hc, hs]

theorem effort_suspended {p : YieldPoint} {r : Resume} (hc : a.code = i :: rest)
    (hs : a.stage = .suspended p r) :
    a.effort price =
      r.effort + (if p.yielded then 0 else 1) + Instr.effortList price rest + 1 := by
  simp only [effort, hc, hs]

/-- What is not begun, and the step that ends the program. -/
theorem effort_of_fresh (hs : a.stage = .fresh) :
    a.effort price = Instr.effortList price a.code + 1 := by
  cases hc : a.code with
  | nil => simp only [effort, hc, Instr.effortList]
  | cons i rest => rw [effort_fresh hc hs, Instr.effortList]

theorem effort_pos (a : Activation) (price : Nat → Nat) : 0 < a.effort price := by
  unfold effort
  split <;> exact Nat.succ_pos _

theorem effort_rest_lt (hc : a.code = i :: rest) :
    Instr.effortList price rest + 1 < a.effort price := by
  cases hs : a.stage with
  | fresh =>
    have hi := i.effort_pos price
    rw [effort_fresh hc hs]
    omega
  | suspended p r =>
    have hr := r.effort_pos
    rw [effort_suspended hc hs]
    omega

theorem Advances.effort_lt (h : a.Advances a') (price : Nat → Nat) :
    a'.effort price < a.effort price := by
  cases h with
  | completes code after fresh =>
    rw [effort_of_fresh fresh, after]
    exact effort_rest_lt code
  | enters stage code after fresh =>
    rw [effort_fresh code stage, effort_fresh after fresh]
    simp only [Instr.effort, Action.effort]
    omega
  | unfolds stage code unfolds after fresh =>
    have hlt := unfolds.effort_lt price
    rw [effort_fresh code stage, effort_of_fresh fresh, after, Instr.effortList_append]
    omega
  | @suspends i rest p r stage code able after suspended new =>
    have hr := r.effort_le
    rw [effort_fresh code stage, Instr.effort_of_suspends able, effort_suspended after suspended,
      new]
    simp only [Bool.false_eq_true, if_false]
    omega
  | asksAgain stage code after suspended =>
    rw [effort_suspended code stage, effort_suspended after suspended]
    simp only [Resume.effort, YieldPoint.untilWake, Bool.false_eq_true, if_false]
    omega

/-- A program that spawns another one has paid for it. -/
theorem Advances.effort_spawn {j : Nat} (h : a.Advances a') (hb : a.Begins (.act (.spawn j)))
    (price : Nat → Nat) : a'.effort price + price j < a.effort price := by
  obtain ⟨hs, rest, hc⟩ := hb
  cases h with
  | completes code after fresh =>
    cases hc.symm.trans code
    rw [effort_fresh hc hs, effort_of_fresh fresh, after]
    simp only [Instr.effort, Action.effort]
    omega
  | enters _ code => cases hc.symm.trans code
  | unfolds _ code unfolds =>
    cases hc.symm.trans code
    cases unfolds
  | suspends _ code able =>
    cases hc.symm.trans code
    cases able
  | asksAgain stage => cases hs.symm.trans stage

end Activation

/-! ## All programs -/

namespace Kernel

variable {k k' : Kernel Activation} {t : ThreadId} {a : Activation}

/-- What the threads have left to do that are not being executed. -/
def effort (price : Nat → Nat) (k : Kernel Activation) : Nat :=
  ∑ t ∈ k.living, (k.pending? t).elim 0 (Activation.effort price)

theorem SameThreads.effort (h : SameThreads k k') (price : Nat → Nat) :
    k'.effort price = k.effort price := by
  rw [Kernel.effort, h.living, h.pending, Kernel.effort]

theorem Gains.effort (h : Gains t a k k') (price : Nat → Nat) :
    k'.effort price = a.effort price + k.effort price := by
  rw [Kernel.effort, h.living, h.pending, Finset.sum_insert h.absent, Function.update_self]
  congr 1
  refine Finset.sum_congr rfl fun u hu => ?_
  rw [Function.update_of_ne (ne_of_mem_of_not_mem hu h.absent)]

/-- Only what is in the slot of the thread changes. -/
theorem Places.effort {o : Option Activation} (h : Places t o k k') (price : Nat → Nat) :
    k'.effort price + (k.pending? t).elim 0 (Activation.effort price) =
      k.effort price + o.elim 0 (Activation.effort price) := by
  have hothers : ∑ u ∈ k.living.erase t,
      (Function.update k.pending? t o u).elim 0 (Activation.effort price) =
      ∑ u ∈ k.living.erase t, (k.pending? u).elim 0 (Activation.effort price) :=
    Finset.sum_congr rfl fun u hu => by
      rw [Function.update_of_ne (Finset.ne_of_mem_erase hu)]
  rw [Kernel.effort, Kernel.effort, h.living, h.pending, ← Finset.add_sum_erase _ _ h.alive,
    ← Finset.add_sum_erase _ _ h.alive, hothers, Function.update_self]
  omega

theorem Loses.effort_le (h : Loses t k k') (price : Nat → Nat) :
    k'.effort price ≤ k.effort price := by
  rw [Kernel.effort, Kernel.effort, h.living, h.pending, ← Finset.add_sum_erase _ _ h.alive]
  refine Nat.le_trans (Nat.le_of_eq ?_) (Nat.le_add_left _ _)
  refine Finset.sum_congr rfl fun u hu => ?_
  rw [Function.update_of_ne (Finset.ne_of_mem_erase hu)]

end Kernel

/-- A step pays for the thread that it brings to life. -/
theorem System.Staffs.effort {s s' : System} {a a' : Activation} {price : Nat → Nat}
    (h : Staffs a s s') (ha : a.Advances a') (hp : Affords price s.programs) :
    s'.kernel.effort price + a'.effort price < s.kernel.effort price + a.effort price := by
  cases h with
  | same threads =>
    rw [threads.effort]
    exact Nat.add_lt_add_left (ha.effort_lt price) _
  | @spawns j x _ begins named gains =>
    have hpays := ha.effort_spawn begins price
    have hcost := hp j x named
    rw [gains.effort]
    omega

end ThreadKernel
