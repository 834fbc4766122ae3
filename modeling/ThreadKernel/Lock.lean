import ThreadKernel.Kernel.Dispatch

/-!
# ThreadKernel.Lock

Locks that exclude all threads but one. Waiters donate to the holder, and a release hands the lock
over to the waiter that the policy selects.

* `Lock.request` — takes a free lock, or enqueues the caller.
* `Lock.release` — hands the lock over and makes the new holder ready.
-/

namespace ThreadKernel

structure Lock where
  holder : Option ThreadId
  queue : QueueId
deriving DecidableEq, Repr

namespace Lock

variable {κ : Type}

def create (k : Kernel κ) : Lock × Kernel κ :=
  let (q, k) := k.createQueue true
  (⟨none, q⟩, k)

def isHeldByCurrent (l : Lock) (k : Kernel κ) : Bool :=
  l.holder.isSome && l.holder == k.registry.current

/-- Inside the atomic region: `true` if `t` has the lock now, `false` if it is enqueued and must
block. -/
def request (t : ThreadId) (l : Lock) (k : Kernel κ) : Except Fault (Bool × Lock × Kernel κ) :=
  match l.holder with
  | none =>
    match k.acquire l.queue t with
    | .error e => .error e
    | .ok k => .ok (true, { l with holder := some t }, k)
  | some holder =>
    if holder = t then .error (.lockAlreadyHeld t)
    else
      match k.waitForAccess l.queue t with
      | .error e => .error e
      | .ok k => .ok (false, l, k)

/-- Inside the atomic region: hands the lock over from `t`. -/
def releaseFrom (t : ThreadId) (l : Lock) (k : Kernel κ) : Except Fault (Lock × Kernel κ) :=
  if l.holder = some t then
    match k.nextThread l.queue with
    | .error e => .error e
    | .ok (none, k) => .ok ({ l with holder := none }, k)
    | .ok (some next, k) =>
      match k.markReady next with
      | .error e => .error e
      | .ok k => .ok ({ l with holder := some next }, k)
  else .error (.lockNotHeld t l.holder)

/-- The running thread releases the lock. The interrupt level stays. -/
def release (l : Lock) (k : Kernel κ) : Except Fault (Lock × Kernel κ) :=
  match k.currentThread with
  | .error e => .error e
  | .ok t =>
    match l.releaseFrom t k.enter with
    | .error e => .error e
    | .ok (l, k') => .ok (l, k'.restore k.level)

end Lock
end ThreadKernel
