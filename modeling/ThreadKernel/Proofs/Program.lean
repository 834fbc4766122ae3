import ThreadKernel.System

/-!
# ThreadKernel.Proofs.Program

Programs that leave queues and wakes to the primitives.

* `Action.plain`, `Instr.plain` — no operation on a wait queue, no bare block, no bare wake.
* `Activation.Plain`, `Handler.Plain` — what is left of a program, and what a timer runs.
* `Action.every`, `Instr.every` — all actions of a program, nested ones included.
-/

namespace ThreadKernel

mutual

def Action.plain : Action → Bool
  | .atomic a => a.plain
  | .timer _ body => Action.plainList body
  | .markReady _ | .createQueue _ | .destroyQueue _ | .waitOn _ _ | .acquireQueue _ _ | .serve _
  | .newWaitQueue _ | .dropWaitQueue _ | .waitQueueWait _ _ | .waitQueueAcquire _ _
  | .waitQueueNext _ => false
  | _ => true

def Action.plainList : List Action → Bool
  | [] => true
  | a :: rest => a.plain && Action.plainList rest

end

mutual

def Instr.plain : Instr → Bool
  | .act a => a.plain
  | .block => false
  | .loop _ body | .whileEq _ _ body | .whileNe _ _ body | .whileSame _ _ body | .ifEq _ _ body =>
    Instr.plainList body
  | _ => true

def Instr.plainList : List Instr → Bool
  | [] => true
  | i :: rest => i.plain && Instr.plainList rest

end

def Activation.Plain (a : Activation) : Prop := Instr.plainList a.code = true

def Handler.Plain : Handler → Prop
  | .alarm _ => True
  | .routine _ body => Action.plainList body = true

theorem Instr.plainList_append (l l' : List Instr) :
    Instr.plainList (l ++ l') = (Instr.plainList l && Instr.plainList l') := by
  induction l with
  | nil => rfl
  | cons i l ih => simp only [List.cons_append, Instr.plainList, ih, Bool.and_assoc]

theorem Instr.plainList_act {l : List Action} (h : Action.plainList l = true) :
    Instr.plainList (l.map .act) = true := by
  induction l with
  | nil => rfl
  | cons a l ih =>
    rw [Action.plainList, Bool.and_eq_true] at h
    rw [List.map_cons, Instr.plainList, Bool.and_eq_true]
    exact ⟨h.1, ih h.2⟩

/-! ## The actions of a program -/

mutual

/-- The action and all those inside it satisfy `p`. -/
def Action.every (p : Action → Bool) : Action → Bool
  | .atomic a => p (.atomic a) && a.every p
  | .timer n body => p (.timer n body) && Action.everyList p body
  | a => p a

def Action.everyList (p : Action → Bool) : List Action → Bool
  | [] => true
  | a :: rest => a.every p && Action.everyList p rest

end

mutual

def Instr.every (p : Action → Bool) : Instr → Bool
  | .act a => a.every p
  | .loop _ body | .whileEq _ _ body | .whileNe _ _ body | .whileSame _ _ body | .ifEq _ _ body =>
    Instr.everyList p body
  | _ => true

def Instr.everyList (p : Action → Bool) : List Instr → Bool
  | [] => true
  | i :: rest => i.every p && Instr.everyList p rest

end

theorem Action.of_every {p : Action → Bool} {a : Action} (h : a.every p = true) : p a = true := by
  cases a with
  | atomic | timer =>
    rw [Action.every, Bool.and_eq_true] at h
    exact h.1
  | _ => exact h

theorem Instr.everyList_append (p : Action → Bool) (l l' : List Instr) :
    Instr.everyList p (l ++ l') = (Instr.everyList p l && Instr.everyList p l') := by
  induction l with
  | nil => rfl
  | cons i l ih => simp only [List.cons_append, Instr.everyList, ih, Bool.and_assoc]

theorem Instr.everyList_act {p : Action → Bool} {l : List Action}
    (h : Action.everyList p l = true) : Instr.everyList p (l.map .act) = true := by
  induction l with
  | nil => rfl
  | cons a l ih =>
    rw [Action.everyList, Bool.and_eq_true] at h
    rw [List.map_cons, Instr.everyList, Bool.and_eq_true]
    exact ⟨h.1, ih h.2⟩

end ThreadKernel
