import ThreadKernel.Table.Basic

/-!
# ThreadKernel.Table.Donation

Keeping effective values right after a change. A thread's effective value is its base value
combined with the donation of each transferring queue it owns. A change of one thread's value moves
its wait record and may change the value of the thread it donates to, and so on along the owners.

* `Table.donatedValue` — the value of a thread computed from scratch.
* `Table.refresh`      — recomputes along the owners and stops at the first unchanged value. It makes
  at most as many hops as threads have state; more would mean that the owners form a cycle.
-/

namespace ThreadKernel.Table

/-- `value` combined with the donations of the transferring queues of the list. -/
def combineDonations (tb : Table) (value : Nat) : List QueueId → Except Fault Nat
  | [] => .ok value
  | q :: rest =>
    match tb.queue? q with
    | none => .error (.unknownQueue q)
    | some s =>
      let donated := tb.policy.combine value (tb.policy.donation s.waiters)
      combineDonations tb (if s.transfer then donated else value) rest

def donatedValue (tb : Table) (t : ThreadId) : Except Fault Nat :=
  match tb.threads.get? t with
  | none => .ok tb.policy.bounds.initial
  | some s => tb.combineDonations s.base s.acquired

/-- Gives the record of `t` a new weight and its new place; the arrival stays. -/
def rerank (p : Policy) (t : ThreadId) (weight : Nat) (s : WaitSet) : Option WaitSet :=
  match s.remove t with
  | none => none
  | some (r, rest) => some (rest.insert p { r with weight := weight })

/-- Recomputes the value of `t` and of the threads it donates to, with the given number of hops
left. -/
def refreshWithin (hops : Nat) (t : ThreadId) (tb : Table) : Except Fault Table :=
  match tb.donatedValue t with
  | .error e => .error e
  | .ok value =>
    let s := tb.state t
    if s.effective = value then .ok (tb.ensure t)
    else
      let tb := tb.setThread t { s with effective := value }
      match s.waiting with
      | none => .ok tb
      | some q =>
        match tb.queue? q with
        | none => .error (.unknownQueue q)
        | some qs =>
          match rerank tb.policy t value qs.waiters with
          | none => .error (.recordMissing t q)
          | some waiters =>
            let tb := tb.modifyQueue q (fun qs => { qs with waiters := waiters })
            match qs.beneficiary with
            | none => .ok tb
            | some o =>
              match hops with
              | 0 => .error (.ownershipCycle o)
              | hops + 1 => refreshWithin hops o tb

def refresh (t : ThreadId) (tb : Table) : Except Fault Table :=
  refreshWithin tb.threads.size t tb

/-- Recomputes for the beneficiary of a queue, if there is one. -/
def refreshOption (t : Option ThreadId) (tb : Table) : Except Fault Table :=
  match t with
  | none => .ok tb
  | some t => tb.refresh t

end ThreadKernel.Table
