import ThreadKernel.Directory
import ThreadKernel.Fault
import ThreadKernel.WakeSignal

/-!
# ThreadKernel.Registry.Basic

The threads that are alive, each in a slot of its own, and the channel on which wakers announce
threads that can run again.

* `Level`    — whether the processor takes interrupts.
* `Slot`     — a thread's task, wake signal, join queue and saved interrupt level.
* `Registry` — slots by thread number. Numbers ascend from one and are never reused, though the cells
  that hold the slots are.
* `Registry.post`, `Registry.drain` — the two ends of the channel.
-/

namespace ThreadKernel

/-- With interrupts disabled the code that runs is inside the atomic region. -/
inductive Level where
  | enabled
  | disabled
deriving DecidableEq, Repr, Inhabited

def Level.name : Level → String
  | enabled => "Enabled"
  | disabled => "Disabled"

/-- A thread's coroutine, with the name and number of the thread. -/
structure ThreadTask (κ : Type) where
  name : String
  id : ThreadId
  coroutine : κ
deriving Repr

structure Slot (κ : Type) where
  /-- Absent while the thread is being polled. -/
  task : Option (ThreadTask κ)
  signal : WakeSignal ThreadId
  /-- The thread that the slot's waker announces. -/
  waker : ThreadId
  /-- The queue on which others wait for the thread to retire. -/
  joinQueue : QueueId
  /-- The interrupt level at which the thread last suspended. -/
  level : Level
deriving Repr

structure Registry (κ : Type) where
  slots : Directory ThreadId (Slot κ)
  /-- The number of the next thread. -/
  nextNumber : Nat
  current : Option ThreadId
  /-- Announced threads, oldest first. -/
  channel : List ThreadId

namespace Slot

variable {κ : Type}

/-- The slot of a new thread. -/
def created (name : String) (coroutine : κ) (joinQueue : QueueId) (t : ThreadId) : Slot κ :=
  ⟨some ⟨name, t, coroutine⟩, .idle, t, joinQueue, .enabled⟩

/-- Puts a task back. -/
def putTask (task : ThreadTask κ) (s : Slot κ) : Except Fault (Slot κ) :=
  match s.task with
  | some _ => .error .taskPresent
  | none => .ok { s with task := some task }

end Slot

namespace Registry

variable {κ : Type}

def empty : Registry κ := ⟨∅, 1, none, []⟩

def get? (r : Registry κ) (t : ThreadId) : Option (Slot κ) := r.slots.get? t

def contains (r : Registry κ) (t : ThreadId) : Bool := r.slots.contains t

def size (r : Registry κ) : Nat := r.slots.size

def isEmpty (r : Registry κ) : Bool := r.size == 0

def setSlot (r : Registry κ) (t : ThreadId) (s : Slot κ) : Registry κ :=
  { r with slots := r.slots.insert t s }

/-- Admits a thread under the next number, with interrupts enabled. -/
def insert (name : String) (coroutine : κ) (joinQueue : QueueId) (r : Registry κ) :
    Except Fault (ThreadId × Registry κ) :=
  let t : ThreadId := ⟨r.nextNumber⟩
  let slot : Slot κ := .created name coroutine joinQueue t
  match r.slots.index.get? t with
  | some cell => .error (.threadIdInUse cell)
  | none => .ok (t, { r with slots := r.slots.insert t slot, nextNumber := r.nextNumber + 1 })

/-- The slot of `t` and the registry without it; `none` if `t` is not alive. -/
def remove (t : ThreadId) (r : Registry κ) : Option (Slot κ × Registry κ) :=
  match r.get? t with
  | none => none
  | some s => some (s, { r with slots := r.slots.erase t })

/-- Announces `t`, alive or not. -/
def post (t : ThreadId) (r : Registry κ) : Registry κ := { r with channel := r.channel ++ [t] }

def postOption (t : Option ThreadId) (r : Registry κ) : Registry κ :=
  { r with channel := r.channel ++ t.toList }

/-- The threads announced since the last call. -/
def drain (r : Registry κ) : List ThreadId × Registry κ := (r.channel, { r with channel := [] })

/-- Takes the task out of the slot of `t`: `none` if `t` is not alive, `some none` if its task is
out already. -/
def takeTask (t : ThreadId) (r : Registry κ) : Option (Option (ThreadTask κ)) × Registry κ :=
  match r.get? t with
  | none => (none, r)
  | some s => (some s.task, r.setSlot t { s with task := none })

/-- Puts a task into the slot of `t`; `none` if `t` is not alive. -/
def putTask (t : ThreadId) (task : ThreadTask κ) (r : Registry κ) : Option (Except Fault (Registry κ)) :=
  match r.get? t with
  | none => none
  | some s => some ((s.putTask task).map (r.setSlot t))

/-- Saves an interrupt level for `t`; `none` if `t` is not alive. -/
def setLevel (t : ThreadId) (level : Level) (r : Registry κ) : Option (Registry κ) :=
  match r.get? t with
  | none => none
  | some s => some (r.setSlot t { s with level := level })

/-- Invokes the waker in the slot of `t`; `none` if `t` is not alive. -/
def invokeWaker (t : ThreadId) (r : Registry κ) : Option (Registry κ) :=
  match r.get? t with
  | none => none
  | some s => some (r.post s.waker)

/-! ## Operations through lookups -/

@[simp] theorem get?_setSlot (r : Registry κ) (t u : ThreadId) (s : Slot κ) :
    (r.setSlot t s).get? u = if t = u then some s else r.get? u := Directory.get?_insert _ _ _ _

@[simp] theorem get?_postOption (r : Registry κ) (o : Option ThreadId) (u : ThreadId) :
    (r.postOption o).get? u = r.get? u := rfl

theorem insert_ok {name : String} {coroutine : κ} {q : QueueId} {r r' : Registry κ} {t : ThreadId}
    (h : r.insert name coroutine q = .ok (t, r')) :
    t = ⟨r.nextNumber⟩ ∧ r.get? t = none ∧
      r' = { r with
        slots := r.slots.insert t (.created name coroutine q t)
        nextNumber := r.nextNumber + 1 } := by
  unfold insert at h
  simp only at h
  split at h
  · cases h
  · rename_i hcell
    cases h
    exact ⟨rfl, (Directory.get?_eq_none_iff _ _).2 hcell, rfl⟩

/-- The number of the next thread is free, so the thread is admitted. -/
theorem insert_of_free {name : String} {coroutine : κ} {q : QueueId} {r : Registry κ}
    (h : r.get? ⟨r.nextNumber⟩ = none) :
    r.insert name coroutine q = .ok (⟨r.nextNumber⟩, { r with
      slots := r.slots.insert ⟨r.nextNumber⟩ (.created name coroutine q ⟨r.nextNumber⟩)
      nextNumber := r.nextNumber + 1 }) := by
  have hcell : r.slots.index.get? ⟨r.nextNumber⟩ = none := (Directory.get?_eq_none_iff _ _).1 h
  simp only [insert, hcell]

theorem contains_eq_isSome (r : Registry κ) (t : ThreadId) : r.contains t = (r.get? t).isSome :=
  Directory.contains_eq_isSome _ _

end Registry
end ThreadKernel
