import ThreadKernel.Ident

/-!
# ThreadKernel.Fault

Violated preconditions. A fault ends the run: nothing that follows is executed. The constructors
name what was violated; `Fault.message` words it.
-/

namespace ThreadKernel

inductive Fault where
  -- the scheduling table
  | unknownQueue (q : QueueId)
  | alreadyWaits (t : ThreadId) (on q : QueueId)
  | waitsElsewhere (t : ThreadId) (on q : QueueId)
  | priorityOutOfRange (priority least greatest : Nat) (t : ThreadId)
  | recordMissing (t : ThreadId) (q : QueueId)
  | ownershipCycle (t : ThreadId)
  | ticketSumOutOfSync (total : Nat)
  -- the clock and the registry
  | intervalNotPositive
  /-- The cell that the registry has for the thread. -/
  | threadIdInUse (cell : Nat)
  | taskPresent
  -- the kernel
  | outsideAtomicRegion (operation : String)
  | noThreadRunning
  | runInsideThread (t : ThreadId)
  | joinSelf (t : ThreadId)
  | blockUnregistered
  | yieldUnregistered
  | readyWhileRunning (t : ThreadId)
  | readyUnknown (t : ThreadId)
  | dispatchRunning (t : ThreadId)
  | threadVanished (t : ThreadId)
  | retireUnknown (t : ThreadId)
  -- locks and conditions
  | lockAlreadyHeld (t : ThreadId)
  | lockNotHeld (t : ThreadId) (holder : Option ThreadId)
  | lockNotHandedOver (t : ThreadId) (holder : Option ThreadId)
  | conditionWithoutLock (operation : String)
  -- scenarios
  | noSuchObject (size index : Nat)
deriving DecidableEq, Repr

namespace Fault

def message : Fault → String
  | unknownQueue q => s!"unknown queue {q.describe}"
  | alreadyWaits t on q =>
    s!"wait_for_access(): thread {t.describe} already waits on queue {on.describe} (queue={q.describe})"
  | waitsElsewhere t on q =>
    s!"acquire(): thread {t.describe} waits on queue {on.describe} (queue={q.describe})"
  | priorityOutOfRange priority least greatest t =>
    s!"set_priority(): priority {priority} out of range [{least}, {greatest}] (thread={t.describe})"
  | recordMissing t q =>
    s!"refresh_effective_priority(): thread {t.describe} has no record in queue {q.describe}"
  | ownershipCycle t =>
    s!"refresh_effective_priority(): ownership cycle through thread {t.describe}"
  | ticketSumOutOfSync total => s!"select(): ticket sum out of sync (total={total})"
  | intervalNotPositive => "Clock::new(): timer interval must be positive"
  | threadIdInUse cell => s!"insert(): thread id already in use (offset={cell})"
  | taskPresent => "put_task(): slot already holds a task"
  | outsideAtomicRegion operation => s!"{operation}: must be called inside an atomic region"
  | noThreadRunning => "current_thread(): no thread is running"
  | runInsideThread t => s!"run(): called from thread {t.describe}"
  | joinSelf t => s!"join(): thread {t.describe} cannot join itself"
  | blockUnregistered => "block_current_thread(): running thread is not registered"
  | yieldUnregistered => "yield_current_thread(): running thread is not registered"
  | readyWhileRunning t => s!"mark_ready(): thread {t.describe} is running"
  | readyUnknown t => s!"mark_ready(): unknown thread {t.describe}"
  | dispatchRunning t => s!"dispatch(): thread {t.describe} is already running"
  | threadVanished t => s!"dispatch(): thread {t.describe} vanished while running"
  | retireUnknown t => s!"retire(): unknown thread {t.describe}"
  | lockAlreadyHeld t => s!"acquire(): thread {t.describe} already holds the lock"
  | lockNotHeld t holder =>
    s!"release(): thread {t.describe} does not hold the lock (holder={ThreadId.describeOption holder})"
  | lockNotHandedOver t holder =>
    s!"assertion `left == right` failed\n  left: {ThreadId.describeOption holder}\n" ++
      s!" right: Some({t.describe})"
  | conditionWithoutLock operation => s!"{operation}: lock is not held by the current thread"
  | noSuchObject size index => s!"index out of bounds: the len is {size} but the index is {index}"

end Fault
end ThreadKernel
