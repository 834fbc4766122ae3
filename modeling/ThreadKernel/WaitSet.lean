import ThreadKernel.Policy

/-!
# ThreadKernel.WaitSet

The threads that wait on one queue, ranked by the policy, with the running sum of their weights.

* `WaitSet.insert` — puts a record behind all that do not rank after it.
* `WaitSet.remove` — takes the first record of a thread out.
* `WaitSet.Op`, `WaitSet.apply` — the two changes as data, for histories of a set.
-/

namespace ThreadKernel

structure WaitSet where
  records : List WaitRecord
  weightSum : Nat
deriving DecidableEq, Repr

namespace WaitSet

def empty : WaitSet := ⟨[], 0⟩

instance : EmptyCollection WaitSet := ⟨empty⟩

instance : Inhabited WaitSet := ⟨empty⟩

def size (s : WaitSet) : Nat := s.records.length

def isEmpty (s : WaitSet) : Bool := s.records.isEmpty

/-- Whether `other` stays in front of a new record `r`. -/
def staysBefore (p : Policy) (r other : WaitRecord) : Bool := p.compare other r != .gt

def insert (p : Policy) (r : WaitRecord) (s : WaitSet) : WaitSet where
  records := s.records.takeWhile (staysBefore p r) ++ r :: s.records.dropWhile (staysBefore p r)
  weightSum := s.weightSum + r.weight

def find? (t : ThreadId) (s : WaitSet) : Option WaitRecord :=
  s.records.find? (fun r => r.thread = t)

/-- The first record of `t` and the set without it; `none` if `t` has no record. -/
def remove (t : ThreadId) (s : WaitSet) : Option (WaitRecord × WaitSet) :=
  match s.find? t with
  | none => none
  | some r =>
    some (r, { records := s.records.eraseP (fun r => r.thread = t)
               weightSum := s.weightSum - r.weight })

/-- The set without the first record of `t`. -/
def without (t : ThreadId) (s : WaitSet) : WaitSet :=
  match s.remove t with
  | none => s
  | some (_, s') => s'

inductive Op where
  | insert (r : WaitRecord)
  | remove (t : ThreadId)
deriving DecidableEq, Repr

def apply (p : Policy) (s : WaitSet) : Op → WaitSet
  | .insert r => s.insert p r
  | .remove t => s.without t

/-- The set after a history that began with the empty one. -/
def ofOps (p : Policy) (ops : List Op) : WaitSet := ops.foldl (apply p) ∅

@[simp] theorem records_empty : (∅ : WaitSet).records = [] := rfl

@[simp] theorem weightSum_empty : (∅ : WaitSet).weightSum = 0 := rfl

end WaitSet
end ThreadKernel
