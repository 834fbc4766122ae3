import ThreadKernel.Lock

/-!
# ThreadKernel.Condition

Conditions on which threads sleep while they give up a lock. Sleepers donate to nobody. A wake is
not remembered.

* `Condition.fallAsleep` — releases the lock and enqueues the caller in one atomic step.
* `Condition.wake`, `Condition.wakeAll` — make one sleeper or all of them ready.
-/

namespace ThreadKernel

structure Condition where
  /-- The index of the lock that sleepers give up. -/
  lock : Nat
  queue : QueueId
deriving DecidableEq, Repr

namespace Condition

variable {κ : Type}

def create (lock : Nat) (k : Kernel κ) : Condition × Kernel κ :=
  let (q, k) := k.createQueue false
  (⟨lock, q⟩, k)

/-- The running thread, if it holds the lock. -/
def holder (operation : String) (l : Lock) (k : Kernel κ) : Except Fault ThreadId :=
  if l.isHeldByCurrent k then k.currentThread else .error (.conditionWithoutLock operation)

/-- Inside the atomic region: `t` gives up the lock and is enqueued. -/
def fallAsleep (t : ThreadId) (c : Condition) (l : Lock) (k : Kernel κ) :
    Except Fault (Lock × Kernel κ) :=
  match l.release k with
  | .error e => .error e
  | .ok (l, k) =>
    match k.waitForAccess c.queue t with
    | .error e => .error e
    | .ok k => .ok (l, k)

/-- Makes the sleeper that the policy selects ready, if there is one. The interrupt level stays. -/
def wake (c : Condition) (l : Lock) (k : Kernel κ) : Except Fault (Kernel κ) :=
  match holder "wake()" l k with
  | .error e => .error e
  | .ok _ =>
    match k.enter.nextThread c.queue with
    | .error e => .error e
    | .ok (none, k') => .ok (k'.restore k.level)
    | .ok (some t, k') =>
      match k'.markReady t with
      | .error e => .error e
      | .ok k' => .ok (k'.restore k.level)

/-- Makes every sleeper ready. The interrupt level stays. -/
def wakeAll (c : Condition) (l : Lock) (k : Kernel κ) : Except Fault (Kernel κ) :=
  match holder "wake_all()" l k with
  | .error e => .error e
  | .ok _ =>
    match k.enter.handOverAll c.queue with
    | .error e => .error e
    | .ok k' => .ok (k'.restore k.level)

end Condition
end ThreadKernel
