import ThreadKernel.Kernel.Dispatch

/-!
# ThreadKernel.Alarm

Threads that sleep until a deadline. The timer interrupt releases them, the earliest deadline first
and in order of arrival among equal ones.

* `Alarm.push`    — a new sleeper, at its place in the order.
* `Alarm.due`     — the sleepers whose deadline has come; `Alarm.rest` — the others.
* `Alarm.release` — one timer interrupt.
-/

namespace ThreadKernel

structure Sleeper where
  wakeTime : Nat
  /-- Counts the arrivals at this alarm. -/
  sequence : Nat
  thread : ThreadId
deriving DecidableEq, Repr

structure Alarm where
  /-- By deadline, then by arrival. -/
  sleepers : List Sleeper
  nextSequence : Nat
deriving DecidableEq, Repr

namespace Alarm

variable {κ : Type}

def empty : Alarm := ⟨[], 0⟩

/-- Puts a sleeper behind all whose deadline is not later. -/
def push (wakeTime : Nat) (t : ThreadId) (a : Alarm) : Alarm :=
  let stays (s : Sleeper) : Bool := s.wakeTime ≤ wakeTime
  { sleepers := a.sleepers.takeWhile stays ++ ⟨wakeTime, a.nextSequence, t⟩ ::
      a.sleepers.dropWhile stays
    nextSequence := a.nextSequence + 1 }

def due (now : Nat) (a : Alarm) : List Sleeper := a.sleepers.takeWhile (fun s => s.wakeTime ≤ now)

def rest (now : Nat) (a : Alarm) : List Sleeper := a.sleepers.dropWhile (fun s => s.wakeTime ≤ now)

def isPending (a : Alarm) : Bool := !a.sleepers.isEmpty

/-- Makes the threads of a list of sleepers ready, in order. -/
def wakeEach : List Sleeper → Kernel κ → Except Fault (Kernel κ)
  | [], k => .ok k
  | s :: rest, k =>
    match k.markReady s.thread with
    | .error e => .error e
    | .ok k => wakeEach rest k

/-- Releases the sleepers that are due now. -/
def release (a : Alarm) (k : Kernel κ) : Except Fault (Alarm × Kernel κ) :=
  match wakeEach (a.due k.now) k with
  | .error e => .error e
  | .ok k' => .ok ({ a with sleepers := a.rest k.now }, k')

end Alarm
end ThreadKernel
