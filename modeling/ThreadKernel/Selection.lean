import ThreadKernel.Fault
import ThreadKernel.Random
import ThreadKernel.WaitSet

/-!
# ThreadKernel.Selection

What a wait set gives to the owner of its queue, and which of its records is served next.

* `Policy.donation` — the greatest weight under strict priorities, all tickets under the lottery.
* `ticketHolder`    — the record that holds a drawn ticket.
* `Policy.select`   — the first record under strict priorities, a weighted draw under the lottery.
-/

namespace ThreadKernel

/-- The index of the record that holds ticket `draw`, when the records' tickets are numbered from
zero in their order. Each record holds one ticket more than its weight. -/
def ticketHolder : List WaitRecord → Nat → Option Nat
  | [], _ => none
  | r :: rest, draw =>
    if draw < r.weight + 1 then some 0
    else (ticketHolder rest (draw - (r.weight + 1))).map (· + 1)

namespace Policy

def donation : Policy → WaitSet → Nat
  | priority, s =>
    match s.records with
    | [] => 0
    | r :: _ => r.weight
  | lottery, s => min s.weightSum maxPriority

/-- The index of the record served next, `none` for an empty set. Only the lottery uses the random
source, and only if someone waits. -/
def select (p : Policy) (s : WaitSet) (g : Random) : Except Fault (Option Nat × Random) :=
  match s.records with
  | [] => .ok (none, g)
  | _ :: _ =>
    match p with
    | priority => .ok (some 0, g)
    | lottery =>
      let total := s.weightSum + s.size
      let (draw, g') := g.below total
      match ticketHolder s.records draw with
      | some i => .ok (some i, g')
      | none => .error (.ticketSumOutOfSync total)

/-- Selects `n` times without serving anyone. -/
def selectMany (p : Policy) (s : WaitSet) : Nat → Random → Except Fault (List (Option Nat) × Random)
  | 0, g => .ok ([], g)
  | n + 1, g =>
    match p.select s g with
    | .error e => .error e
    | .ok (i, g') =>
      match selectMany p s n g' with
      | .error e => .error e
      | .ok (rest, g'') => .ok (i :: rest, g'')

end Policy
end ThreadKernel
