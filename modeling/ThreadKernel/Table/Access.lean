import ThreadKernel.Table.Donation

/-!
# ThreadKernel.Table.Access

The operations of the scheduling table. Each leaves the effective values of all threads and the
order of all wait sets as the new links demand.

* `createQueue`, `destroyQueue`, `removeThread` — what exists.
* `waitForAccess`, `acquire`, `nextThread`, `releaseOwnership` — who waits for and who owns a queue.
* `setPriority` — base values.
* `Op`, `apply` — the operations as data, for histories of a table.
-/

namespace ThreadKernel.Table

def createQueue (transfer : Bool) (tb : Table) : QueueId × Table :=
  let (k, queues) := tb.queues.insert ⟨transfer, none, ∅⟩
  (⟨k⟩, { tb with queues := queues })

/-- The owner of `q`, if any, gives it up together with what it was donated through it. -/
def releaseOwnership (q : QueueId) (tb : Table) : Except Fault Table :=
  match tb.queue? q with
  | none => .error (.unknownQueue q)
  | some qs =>
    match qs.owner with
    | none => .ok tb
    | some o =>
      let tb := tb.modifyQueue q (fun qs => { qs with owner := none })
      let tb := tb.modifyThread o (fun s => { s with acquired := s.acquired.filter (· ≠ q) })
      tb.refresh o

/-- Detaches the waiters and revokes the owner. A queue that does not exist is ignored. -/
def destroyQueue (q : QueueId) (tb : Table) : Except Fault Table :=
  match tb.queue? q with
  | none => .ok tb
  | some qs =>
    let tb := { tb with queues := tb.queues.erase q.number }
    let tb := qs.waiters.records.foldl
      (fun tb r => tb.modifyThread r.thread (fun s => { s with waiting := none })) tb
    match qs.owner with
    | none => .ok tb
    | some o =>
      let tb := tb.modifyThread o (fun s => { s with acquired := s.acquired.filter (· ≠ q) })
      tb.refresh o

/-- Enqueues `t` behind the earlier arrivals. An owner that waits on its own queue gives it up. -/
def waitForAccess (q : QueueId) (t : ThreadId) (tb : Table) : Except Fault Table :=
  match tb.waitingQueue t with
  | some on => .error (.alreadyWaits t on q)
  | none =>
    match tb.queue? q with
    | none => .error (.unknownQueue q)
    | some qs =>
      match (if qs.owner = some t then tb.releaseOwnership q else .ok tb) with
      | .error e => .error e
      | .ok tb =>
        let s := tb.state t
        let r : WaitRecord := ⟨t, s.effective, tb.arrivals⟩
        let tb := { tb.setThread t { s with waiting := some q } with arrivals := tb.arrivals + 1 }
        match tb.queue? q with
        | none => .error (.unknownQueue q)
        | some qs =>
          let tb := tb.modifyQueue q (fun qs => { qs with waiters := qs.waiters.insert tb.policy r })
          tb.refreshOption qs.beneficiary

/-- Makes `t` the owner in place of any other. It may wait on `q`, but on no other queue. -/
def acquire (q : QueueId) (t : ThreadId) (tb : Table) : Except Fault Table :=
  let waiting := tb.waitingQueue t
  match waiting.filter (· ≠ q) with
  | some on => .error (.waitsElsewhere t on q)
  | none =>
    match tb.releaseOwnership q with
    | .error e => .error e
    | .ok tb =>
      let tb := tb.modifyQueue q (fun qs =>
        { qs with
          owner := some t
          waiters := if waiting = some q then qs.waiters.without t else qs.waiters })
      let s := tb.state t
      let tb := tb.setThread t { s with waiting := none, acquired := s.acquired ++ [q] }
      tb.refresh t

/-- Hands `q` over to the waiter that the policy selects, or to nobody if none waits. -/
def nextThread (q : QueueId) (tb : Table) : Except Fault (Option ThreadId × Table) :=
  match tb.queue? q with
  | none => .error (.unknownQueue q)
  | some qs =>
    match tb.policy.select qs.waiters tb.random with
    | .error e => .error e
    | .ok (index, random) =>
      let tb := { tb with random := random }
      match index.bind (fun i => qs.waiters.records[i]?) with
      | none =>
        match tb.releaseOwnership q with
        | .error e => .error e
        | .ok tb => .ok (none, tb)
      | some r =>
        match tb.acquire q r.thread with
        | .error e => .error e
        | .ok tb => .ok (some r.thread, tb)

def setPriority (t : ThreadId) (p : Nat) (tb : Table) : Except Fault Table :=
  let b := tb.policy.bounds
  if b.contains p then (tb.setThread t { tb.state t with base := p }).refresh t
  else .error (.priorityOutOfRange p b.least b.greatest t)

/-- Takes the record of `t` out of the queue it waited on. -/
def withdrawRecord (t : ThreadId) (waiting : Option QueueId) (tb : Table) : Except Fault Table :=
  match waiting with
  | none => .ok tb
  | some q =>
    let tb' := tb.modifyQueue q (fun qs => { qs with waiters := qs.waiters.without t })
    tb'.refreshOption ((tb.queue? q).bind QueueState.beneficiary)

/-- Forgets `t`: its record, its donations and its ownerships. -/
def removeThread (t : ThreadId) (tb : Table) : Except Fault Table :=
  match tb.threads.get? t with
  | none => .ok tb
  | some s =>
    match { tb with threads := tb.threads.erase t }.withdrawRecord t s.waiting with
    | .error e => .error e
    | .ok tb =>
      .ok (s.acquired.foldl (fun tb q => tb.modifyQueue q (fun qs => { qs with owner := none })) tb)

def waitForAccessOption (q : QueueId) (t : Option ThreadId) (tb : Table) : Except Fault Table :=
  match t with
  | none => .ok tb
  | some t => tb.waitForAccess q t

/-- Serves `q` and lets the thread served wait again, `n` times. Returns whom each turn served. -/
def requeue (q : QueueId) : Nat → Table → Except Fault (List (Option ThreadId) × Table)
  | 0, tb => .ok ([], tb)
  | n + 1, tb =>
    match tb.nextThread q with
    | .error e => .error e
    | .ok (served, tb) =>
      match tb.waitForAccessOption q served with
      | .error e => .error e
      | .ok tb =>
        match requeue q n tb with
        | .error e => .error e
        | .ok (rest, tb) => .ok (served :: rest, tb)

inductive Op where
  | createQueue (transfer : Bool)
  | destroyQueue (q : QueueId)
  | waitForAccess (q : QueueId) (t : ThreadId)
  | acquire (q : QueueId) (t : ThreadId)
  | nextThread (q : QueueId)
  | releaseOwnership (q : QueueId)
  | setPriority (t : ThreadId) (p : Nat)
  | removeThread (t : ThreadId)
deriving DecidableEq, Repr

/-- The table after an operation, whatever the operation returns. -/
def apply (tb : Table) : Op → Except Fault Table
  | .createQueue transfer => .ok (tb.createQueue transfer).2
  | .destroyQueue q => tb.destroyQueue q
  | .waitForAccess q t => tb.waitForAccess q t
  | .acquire q t => tb.acquire q t
  | .nextThread q => (tb.nextThread q).map Prod.snd
  | .releaseOwnership q => tb.releaseOwnership q
  | .setPriority t p => tb.setPriority t p
  | .removeThread t => tb.removeThread t

/-- The tables that a history of operations leads to from an empty one. -/
inductive Reachable (p : Policy) : Table → Prop where
  | empty (g : Random) : Reachable p (Table.empty p g)
  | step {tb tb' : Table} (op : Op) : Reachable p tb → tb.apply op = .ok tb' → Reachable p tb'

end ThreadKernel.Table
