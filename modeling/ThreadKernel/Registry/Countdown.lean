import ThreadKernel.Registry.Basic

/-!
# ThreadKernel.Registry.Countdown

A coroutine that suspends a given number of times, announcing its thread each time, and then
finishes. It exercises a registry without a kernel.
-/

namespace ThreadKernel

structure Countdown where
  left : Nat
  finished : Bool
deriving DecidableEq, Repr

namespace Countdown

def ofCount (n : Nat) : Countdown := ⟨n, false⟩

/-- Whether the coroutine is done, and what is left of it. A finished one stays done. -/
def poll (c : Countdown) : Bool × Countdown :=
  if c.finished then (true, c)
  else
    match c.left with
    | 0 => (true, ⟨0, true⟩)
    | n + 1 => (false, ⟨n, false⟩)

end Countdown

/-- Polls a task with the waker of `t`, which a suspension invokes. -/
def ThreadTask.pollCountdown (task : ThreadTask Countdown) (t : ThreadId) (r : Registry Countdown) :
    Bool × ThreadTask Countdown × Registry Countdown :=
  let (ready, coroutine) := task.coroutine.poll
  let waker := ((r.get? t).map Slot.waker).filter (fun _ => !ready)
  (ready, { task with coroutine := coroutine }, r.postOption waker)

end ThreadKernel
