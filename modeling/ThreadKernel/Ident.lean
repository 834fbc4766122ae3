import ThreadKernel.KeyMap

/-!
# ThreadKernel.Ident

Identifiers of threads and wait queues, and how messages write them.
-/

namespace ThreadKernel

/-- A thread's number. Numbers are handed out ascending and never reused. -/
structure ThreadId where
  number : Nat
deriving DecidableEq, Repr, Inhabited

/-- A wait queue's number. A destroyed queue's number is handed out again. -/
structure QueueId where
  number : Nat
deriving DecidableEq, Repr, Inhabited

instance : Key ThreadId := ⟨ThreadId.number, fun h => congrArg ThreadId.mk h⟩

instance : Key QueueId := ⟨QueueId.number, fun h => congrArg QueueId.mk h⟩

namespace ThreadId

/-- The form used inside messages, such as `ThreadId(3)`. -/
def describe (t : ThreadId) : String := s!"ThreadId({t.number})"

/-- The display name, such as `thread-3`. -/
def display (t : ThreadId) : String := s!"thread-{t.number}"

/-- An optional thread inside messages. -/
def describeOption : Option ThreadId → String
  | none => "None"
  | some t => s!"Some({t.describe})"

end ThreadId

/-- The form used inside messages, such as `QueueId(2)`. -/
def QueueId.describe (q : QueueId) : String := s!"QueueId({q.number})"

end ThreadKernel
