import ThreadKernel.Fail
import ThreadKernel.Ident
import ThreadKernel.Text.Blank

/-!
# ThreadKernel.Policy

The two dispatch policies. A priority is a number between the bounds of the policy: a rank under
strict priorities, a count of tickets under the lottery.

* `WaitRecord`     — a thread that waits, its weight, and when it came.
* `Policy.compare` — who stands before whom in a wait set.
* `Policy.combine` — a thread's value together with what is donated to it.
* `Policy.named?`  — the policy of a given name.
-/

namespace ThreadKernel

/-- The greatest priority that can be stored, and the greatest count of tickets. -/
def maxPriority : Nat := 4294967295

structure WaitRecord where
  thread : ThreadId
  /-- The effective value of the thread. -/
  weight : Nat
  /-- Earlier arrivals have smaller numbers. -/
  arrival : Nat
deriving DecidableEq, Repr, Inhabited

structure Bounds where
  least : Nat
  initial : Nat
  greatest : Nat
deriving DecidableEq, Repr

def Bounds.contains (b : Bounds) (p : Nat) : Bool := b.least ≤ p && p ≤ b.greatest

inductive Policy where
  | priority
  | lottery
deriving DecidableEq, Repr, Inhabited

namespace Policy

/-- The policy of a kernel that is not told otherwise. -/
def standard : Policy := .priority

def name : Policy → String
  | priority => "priority"
  | lottery => "lottery"

/-- The name inside messages. -/
def describe : Policy → String
  | priority => "Priority"
  | lottery => "Lottery"

def bounds : Policy → Bounds
  | priority => ⟨0, 1, 7⟩
  | lottery => ⟨0, 1, maxPriority⟩

/-- Strict priorities rank by weight, the greatest first, and by arrival among equals. The lottery
keeps the order of arrival. -/
def compare : Policy → WaitRecord → WaitRecord → Ordering
  | priority, a, b => (Ord.compare b.weight a.weight).then (Ord.compare a.arrival b.arrival)
  | lottery, a, b => Ord.compare a.arrival b.arrival

/-- Strict priorities take the greater value, the lottery adds tickets up to the maximum. -/
def combine : Policy → Nat → Nat → Nat
  | priority, value, donated => max value donated
  | lottery, value, donated => min (value + donated) maxPriority

/-- Blanks around the name and the case of its letters do not matter. -/
def named? (s : String) : Option Policy :=
  let word := String.ofList (Text.lower (Text.trim s.toList))
  if word = "priority" then some priority
  else if word = "lottery" then some lottery
  else none

/-- The failure for a name that no policy has. -/
def unknownName (s : String) : Fail :=
  ⟨Errno.invalid, s!"unknown scheduling policy (name={Text.quoted s})"⟩

def ofName (s : String) : Except Fail Policy :=
  match named? s with
  | some p => .ok p
  | none => .error (unknownName s)

end Policy
end ThreadKernel
