import ThreadKernel.Clock
import ThreadKernel.Registry.Basic
import ThreadKernel.Table.Access

/-!
# ThreadKernel.Kernel.Basic

The kernel: threads, scheduling table, clock and interrupt level. This module has the atomic region,
the running thread, and the operations on wait queues and priorities. Most of them are legal only
inside the atomic region.

* `Kernel`            — the state, for coroutines of any type.
* `enter`, `restore`  — the atomic region.
* `requireAtomic`     — the fault of an operation that was called outside of it.
-/

namespace ThreadKernel

structure Kernel (κ : Type) where
  registry : Registry κ
  table : Table
  /-- The interrupt level of whoever runs: the dispatch loop or the current thread. -/
  level : Level
  clock : Clock
  /-- What every dispatch costs. -/
  ticksPerDispatch : Nat
  /-- The queue of the runnable threads. -/
  readyQueue : QueueId

namespace Kernel

variable {κ : Type}

def policy (k : Kernel κ) : Policy := k.table.policy

def now (k : Kernel κ) : Nat := k.clock.now

/-! ## The atomic region -/

def inAtomic (k : Kernel κ) : Bool := k.level == .disabled

def enter (k : Kernel κ) : Kernel κ := { k with level := .disabled }

def restore (previous : Level) (k : Kernel κ) : Kernel κ := { k with level := previous }

/-- Leaves nested regions, the newest first. -/
def restoreAll (previous : List Level) (k : Kernel κ) : Kernel κ :=
  previous.foldl (fun k l => k.restore l) k

def requireAtomic (operation : String) (k : Kernel κ) : Except Fault Unit :=
  if k.inAtomic then .ok () else .error (.outsideAtomicRegion operation)

/-- Runs `f` if the kernel is inside the atomic region. -/
def atomically {α : Type} (operation : String) (k : Kernel κ) (f : Kernel κ → Except Fault α) :
    Except Fault α :=
  match k.requireAtomic operation with
  | .error e => .error e
  | .ok _ => f k

/-! ## The running thread -/

def currentThread (k : Kernel κ) : Except Fault ThreadId :=
  match k.registry.current with
  | some t => .ok t
  | none => .error .noThreadRunning

def isAlive (t : ThreadId) (k : Kernel κ) : Bool := k.registry.contains t

theorem isAlive_eq_isSome (k : Kernel κ) (t : ThreadId) :
    k.isAlive t = (k.registry.get? t).isSome :=
  k.registry.contains_eq_isSome t

theorem isAlive_eq_false_iff (k : Kernel κ) (t : ThreadId) :
    k.isAlive t = false ↔ k.registry.get? t = none := by
  rw [isAlive_eq_isSome, Option.isSome_eq_false_iff, Option.isNone_iff_eq_none]

def numThreads (k : Kernel κ) : Nat := k.registry.size

/-! ## Wait queues -/

/-- The kernel with the table that an operation leaves. -/
def withTable (k : Kernel κ) (r : Except Fault Table) : Except Fault (Kernel κ) :=
  match r with
  | .error e => .error e
  | .ok tb => .ok { k with table := tb }

def createQueue (transfer : Bool) (k : Kernel κ) : QueueId × Kernel κ :=
  let (q, tb) := k.table.createQueue transfer
  (q, { k with table := tb })

def destroyQueue (q : QueueId) (k : Kernel κ) : Except Fault (Kernel κ) :=
  k.withTable (k.table.destroyQueue q)

def waitForAccess (q : QueueId) (t : ThreadId) (k : Kernel κ) : Except Fault (Kernel κ) :=
  k.atomically "wait_for_access()" fun k => k.withTable (k.table.waitForAccess q t)

def acquire (q : QueueId) (t : ThreadId) (k : Kernel κ) : Except Fault (Kernel κ) :=
  k.atomically "acquire()" fun k => k.withTable (k.table.acquire q t)

def nextThread (q : QueueId) (k : Kernel κ) : Except Fault (Option ThreadId × Kernel κ) :=
  k.atomically "next_thread()" fun k =>
    match k.table.nextThread q with
    | .error e => .error e
    | .ok (t, tb) => .ok (t, { k with table := tb })

def queueOwner (q : QueueId) (k : Kernel κ) : Except Fault (Option ThreadId) := k.table.owner q

def numWaiters (q : QueueId) (k : Kernel κ) : Except Fault Nat := k.table.numWaiters q

/-! ## Priorities -/

def bounds (k : Kernel κ) : Bounds := k.policy.bounds

def getPriority (t : ThreadId) (k : Kernel κ) : Except Fault Nat :=
  k.atomically "get_priority()" fun k => .ok (k.table.priority t)

def getEffective (t : ThreadId) (k : Kernel κ) : Except Fault Nat :=
  k.atomically "get_effective_priority()" fun k => .ok (k.table.effective t)

def setPriority (t : ThreadId) (p : Nat) (k : Kernel κ) : Except Fault (Kernel κ) :=
  k.atomically "set_priority()" fun k => k.withTable (k.table.setPriority t p)

/-- Raises the base value of the running thread by one; `false` if it is at its greatest already. -/
def increasePriority (k : Kernel κ) : Except Fault (Bool × Kernel κ) :=
  match k.currentThread with
  | .error e => .error e
  | .ok t =>
    let p := k.table.priority t
    if p < k.bounds.greatest then
      match k.withTable (k.table.setPriority t (p + 1)) with
      | .error e => .error e
      | .ok k => .ok (true, k)
    else .ok (false, k)

/-- Lowers the base value of the running thread by one; `false` if it is at its least already. -/
def decreasePriority (k : Kernel κ) : Except Fault (Bool × Kernel κ) :=
  match k.currentThread with
  | .error e => .error e
  | .ok t =>
    let p := k.table.priority t
    if k.bounds.least < p then
      match k.withTable (k.table.setPriority t (p - 1)) with
      | .error e => .error e
      | .ok k => .ok (true, k)
    else .ok (false, k)

end Kernel
end ThreadKernel
