import ThreadKernel.Machine.Step

/-!
# ThreadKernel.Machine.Report

What a scenario shows: its log, and either the state of everything at the end or the fault that
ended it.
-/

namespace ThreadKernel

structure ThreadSummary where
  thread : ThreadId
  alive : Bool
  priority : Nat
  effective : Nat
deriving DecidableEq, Repr

structure QueueSummary where
  queue : QueueId
  owner : Option ThreadId
  waiters : Nat
deriving DecidableEq, Repr

structure Summary where
  now : Nat
  inAtomic : Bool
  numThreads : Nat
  /-- In the order of their spawning. -/
  threads : List ThreadSummary
  /-- The holders of the locks. -/
  locks : List (Option ThreadId)
  /-- How many threads sleep on each condition. -/
  conditions : List Nat
  /-- How many threads sleep until each alarm releases them. -/
  alarms : List Nat
  queues : List (Option QueueSummary)
  /-- The variables ever written, ascending. -/
  values : List (Nat × Int)
deriving DecidableEq, Repr

namespace System

def queueSummary (s : System) : Option QueueId → Except Fault (Option QueueSummary)
  | none => .ok none
  | some q =>
    match s.kernel.queueOwner q, s.kernel.numWaiters q with
    | .error e, _ => .error e
    | _, .error e => .error e
    | .ok o, .ok n => .ok (some ⟨q, o, n⟩)

def threadSummary (s : System) (t : ThreadId) : ThreadSummary :=
  ⟨t, s.kernel.isAlive t, s.kernel.table.priority t, s.kernel.table.effective t⟩

def summary (s : System) : Except Fault Summary :=
  match s.conditions.mapM fun c => s.kernel.numWaiters c.queue with
  | .error e => .error e
  | .ok conditions =>
    match s.waitQueues.mapM s.queueSummary with
    | .error e => .error e
    | .ok queues =>
      .ok {
        now := s.kernel.now
        inAtomic := s.kernel.inAtomic
        numThreads := s.kernel.numThreads
        threads := s.spawned.map s.threadSummary
        locks := s.locks.map Lock.holder
        conditions := conditions
        alarms := s.alarms.map fun a => a.sleepers.length
        queues := queues
        values := s.values.entries }

end System

structure Report where
  /-- The oldest first. -/
  events : List Event
  /-- `none` if the fuel ran out. -/
  result : Option (Except Fault Summary)

/-- Runs a machine to its end and reports. -/
def Machine.report (fuel : Nat) (m : Machine) : Report :=
  let (m, ending) := m.run fuel
  let events := m.system.events.reverse
  match ending with
  | .halted => ⟨events, some m.system.summary⟩
  | .faulted f => ⟨events, some (.error f)⟩
  | .unfinished => ⟨events, none⟩

end ThreadKernel
