import ThreadKernel.Arena
import ThreadKernel.Selection

/-!
# ThreadKernel.Table.Basic

The scheduling table: for every thread its base and effective value, the queues it owns and the
queue it waits on; for every wait queue its owner and its waiters.

* `ThreadState`, `QueueState`, `Table` — the state.
* `Table.state`, `Table.ensure`        — a thread without state counts as one with initial values,
  and gets such a state when an operation touches it.
* `priority`, `effective`, `waitingQueue`, `owner`, … — what callers may ask.
-/

namespace ThreadKernel

structure ThreadState where
  /-- The value set for the thread. -/
  base : Nat
  /-- The base value together with what waiters donate. -/
  effective : Nat
  /-- The queues it owns, in the order it got them. -/
  acquired : List QueueId
  waiting : Option QueueId
deriving DecidableEq, Repr, Inhabited

structure QueueState where
  /-- Whether waiters donate to the owner. -/
  transfer : Bool
  owner : Option ThreadId
  waiters : WaitSet
deriving DecidableEq, Repr, Inhabited

structure Table where
  policy : Policy
  threads : KeyMap ThreadId ThreadState
  queues : Arena QueueState
  /-- The number of the next arrival. -/
  arrivals : Nat
  random : Random

def ThreadState.initial (p : Policy) : ThreadState :=
  ⟨p.bounds.initial, p.bounds.initial, [], none⟩

/-- The thread that waiters donate to, if the queue transfers and has an owner. -/
def QueueState.beneficiary (q : QueueState) : Option ThreadId :=
  if q.transfer then q.owner else none

namespace Table

def empty (p : Policy) (g : Random) : Table := ⟨p, ∅, ∅, 0, g⟩

def queue? (tb : Table) (q : QueueId) : Option QueueState := tb.queues.get? q.number

/-- The state of a thread, initial if the table holds none. -/
def state (tb : Table) (t : ThreadId) : ThreadState :=
  match tb.threads.get? t with
  | some s => s
  | none => .initial tb.policy

def setThread (tb : Table) (t : ThreadId) (s : ThreadState) : Table :=
  { tb with threads := tb.threads.insert t s }

/-- Gives the thread a state if it has none. -/
def ensure (tb : Table) (t : ThreadId) : Table :=
  match tb.threads.get? t with
  | some _ => tb
  | none => tb.setThread t (.initial tb.policy)

/-- Changes the state of a thread that has one. -/
def modifyThread (tb : Table) (t : ThreadId) (f : ThreadState → ThreadState) : Table :=
  match tb.threads.get? t with
  | some s => tb.setThread t (f s)
  | none => tb

/-- Changes an existing queue. -/
def modifyQueue (tb : Table) (q : QueueId) (f : QueueState → QueueState) : Table :=
  { tb with queues := tb.queues.modify q.number f }

/-- The existing queues, ascending. -/
def queueIds (tb : Table) : List QueueId := tb.queues.keys.map QueueId.mk

def waitingQueue (tb : Table) (t : ThreadId) : Option QueueId := (tb.state t).waiting

def priority (tb : Table) (t : ThreadId) : Nat := (tb.state t).base

def effective (tb : Table) (t : ThreadId) : Nat := (tb.state t).effective

def queue (tb : Table) (q : QueueId) : Except Fault QueueState :=
  match tb.queue? q with
  | some s => .ok s
  | none => .error (.unknownQueue q)

def owner (tb : Table) (q : QueueId) : Except Fault (Option ThreadId) :=
  (tb.queue q).map QueueState.owner

def numWaiters (tb : Table) (q : QueueId) : Except Fault Nat :=
  (tb.queue q).map (fun s => s.waiters.size)

def weightSum (tb : Table) (q : QueueId) : Except Fault Nat :=
  (tb.queue q).map (fun s => s.waiters.weightSum)

def isTransfer (tb : Table) (q : QueueId) : Except Fault Bool :=
  (tb.queue q).map QueueState.transfer

/-! ## Changes through lookups -/

theorem queue?_modifyQueue (tb : Table) (q r : QueueId) (f : QueueState → QueueState) :
    (tb.modifyQueue q f).queue? r = if q = r then (tb.queue? r).map f else tb.queue? r := by
  rw [queue?, modifyQueue, Arena.get?_modify]
  by_cases h : q = r
  · subst h
    simp [queue?]
  · have hn : q.number ≠ r.number := fun e => h (Key.rank_inj (κ := QueueId) e)
    rw [if_neg hn, if_neg h, queue?]

@[simp] theorem queue?_setThread (tb : Table) (t : ThreadId) (s : ThreadState) (q : QueueId) :
    (tb.setThread t s).queue? q = tb.queue? q := rfl

theorem get?_setThread (tb : Table) (t u : ThreadId) (s : ThreadState) :
    (tb.setThread t s).threads.get? u = if t = u then some s else tb.threads.get? u :=
  KeyMap.get?_insert _ _ _ _

theorem get?_modifyThread (tb : Table) (t u : ThreadId) (f : ThreadState → ThreadState) :
    (tb.modifyThread t f).threads.get? u =
      if t = u then (tb.threads.get? u).map f else tb.threads.get? u := by
  unfold modifyThread
  split
  · rename_i s h
    rw [get?_setThread]
    split
    · rename_i htu
      subst htu
      rw [h]
      rfl
    · rfl
  · rename_i h
    split
    · rename_i htu
      subst htu
      rw [h]
      rfl
    · rfl

@[simp] theorem threads_modifyQueue (tb : Table) (q : QueueId) (f : QueueState → QueueState) :
    (tb.modifyQueue q f).threads = tb.threads := rfl

end Table
end ThreadKernel
