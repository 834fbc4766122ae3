import ThreadKernel.Registry.Basic

/-!
# ThreadKernel.Registry.History

A registry in use: threads are admitted and removed, slots change, wakers are taken from slots and
invoked at any later time, and the channel is drained.

* `RegistryHistory`         — the registry, and the wakers in other hands.
* `RegistryHistory.Op`      — the operations as data; `apply` — what each answers and leaves.
* `RegistryHistory.Reaches` — what a past, the newest entry first, leads to from an empty registry.
-/

namespace ThreadKernel

structure RegistryHistory (κ : Type) where
  registry : Registry κ
  /-- The thread that each waker announces which was taken from a slot, the first one first. -/
  wakers : List ThreadId

namespace RegistryHistory

variable {κ : Type}

def start : RegistryHistory κ := ⟨.empty, []⟩

inductive Op (κ : Type) where
  | insert (name : String) (coroutine : κ) (joinQueue : QueueId)
  | remove (t : ThreadId)
  | takeTask (t : ThreadId)
  | putTask (t : ThreadId) (task : ThreadTask κ)
  | setLevel (t : ThreadId) (level : Level)
  | setSignal (t : ThreadId) (signal : WakeSignal ThreadId)
  | takeWaker (t : ThreadId)
  /-- Invokes a waker that was taken, by its place among all of them. -/
  | wake (index : Nat)
  | drain

inductive Answer (κ : Type) where
  | admitted (t : ThreadId)
  | removed (slot : Option (Slot κ))
  | took (task : Option (Option (ThreadTask κ)))
  /-- Whether what the operation is about exists. -/
  | done (found : Bool)
  | announced (l : List ThreadId)

/-- A change of the registry that only a thread that is alive undergoes. -/
def change (h : RegistryHistory κ) : Option (Registry κ) → Answer κ × RegistryHistory κ
  | none => (.done false, h)
  | some r => (.done true, { h with registry := r })

def apply (h : RegistryHistory κ) : Op κ → Except Fault (Answer κ × RegistryHistory κ)
  | .insert name coroutine q =>
    match h.registry.insert name coroutine q with
    | .error e => .error e
    | .ok (t, r) => .ok (.admitted t, { h with registry := r })
  | .remove t =>
    match h.registry.remove t with
    | none => .ok (.removed none, h)
    | some (slot, r) => .ok (.removed (some slot), { h with registry := r })
  | .takeTask t =>
    let (task, r) := h.registry.takeTask t
    .ok (.took task, { h with registry := r })
  | .putTask t task =>
    match h.registry.putTask t task with
    | none => .ok (h.change none)
    | some (.error e) => .error e
    | some (.ok r) => .ok (h.change (some r))
  | .setLevel t level => .ok (h.change (h.registry.setLevel t level))
  | .setSignal t signal =>
    .ok (h.change ((h.registry.get? t).map fun slot =>
      h.registry.setSlot t { slot with signal := signal }))
  | .takeWaker t =>
    match h.registry.get? t with
    | none => .ok (.done false, h)
    | some slot => .ok (.done true, { h with wakers := h.wakers ++ [slot.waker] })
  | .wake i => .ok (h.change (h.wakers[i]?.map fun t => h.registry.post t))
  | .drain =>
    let (l, r) := h.registry.drain
    .ok (.announced l, { h with registry := r })

/-- An operation, and what it answered. -/
structure Entry (κ : Type) where
  op : Op κ
  answer : Answer κ

inductive Reaches : List (Entry κ) → RegistryHistory κ → Prop where
  | start : Reaches [] start
  | step {past : List (Entry κ)} {h h' : RegistryHistory κ} {a : Answer κ} (op : Op κ) :
      Reaches past h → h.apply op = .ok (a, h') → Reaches (⟨op, a⟩ :: past) h'

end RegistryHistory
end ThreadKernel
