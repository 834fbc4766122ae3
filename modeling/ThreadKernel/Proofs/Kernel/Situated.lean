import ThreadKernel.Proofs.Program
import ThreadKernel.Proofs.Table.Forget

/-!
# ThreadKernel.Proofs.Kernel.Situated

Where each thread of a kernel is.

A thread that does not run is ready, announced or blocked, and which of these it is shows in the
table, in the channel, among the sleepers and in its wake signal. The sleepers of all alarms are
given as a count for each thread, the queues of locks and conditions as a list of uses.

* `Use`       — a queue of a lock or a condition, with the thread that should own it.
* `Standing`  — a thread is ready, announced or parked.
* `Situated`  — all threads but one stand, and all queues are kept apart.
* `Running`   — the one that runs is nowhere, or blocked and about to be parked.
* `Spares`    — a step that leaves all threads but one where they are.
-/

namespace ThreadKernel

structure Use where
  queue : QueueId
  transfer : Bool
  /-- The thread that owns the queue while it is alive. -/
  holder : Option ThreadId

def Use.ofLock (l : Lock) : Use := ⟨l.queue, true, l.holder⟩

def Use.ofCondition (c : Condition) : Use := ⟨c.queue, false, none⟩

namespace Slot

/-- A dispatch of the thread makes progress: it begins, or passes the yield point it waits at. -/
def Resumable (s : Slot Activation) : Prop :=
  ∃ task, s.task = some task ∧ task.coroutine.Plain ∧
    (task.coroutine.stage = .fresh ∨
      ∃ p r, task.coroutine.stage = .suspended p r ∧ p.yielded = true ∧ s.signal.woken = true)

/-- The thread waits at a yield point with its waker in place. -/
def Parked (t : ThreadId) (s : Slot Activation) : Prop :=
  s.signal = ⟨false, some t⟩ ∧
    ∃ task p r, s.task = some task ∧ task.coroutine.Plain ∧
      task.coroutine.stage = .suspended p r ∧ p.yielded = true

end Slot

namespace Kernel

/-- The queues of locks, of conditions, and for joining. -/
def Primitive (uses : List Use) (k : Kernel Activation) (q : QueueId) : Prop :=
  (∃ u ∈ uses, u.queue = q) ∨ ∃ t slot, k.registry.get? t = some slot ∧ slot.joinQueue = q

structure Nowhere (asleep : ThreadId → Nat) (k : Kernel Activation) (t : ThreadId) : Prop where
  waiting : k.table.waitingQueue t = none
  channel : k.registry.channel.count t = 0
  asleep : asleep t = 0

/-- The thread waits on one queue of a primitive, or at one alarm. -/
structure Blocked (uses : List Use) (asleep : ThreadId → Nat) (k : Kernel Activation)
    (t : ThreadId) : Prop where
  channel : k.registry.channel.count t = 0
  place : (∃ q, k.table.waitingQueue t = some q ∧ Primitive uses k q) ∧ asleep t = 0 ∨
    k.table.waitingQueue t = none ∧ asleep t = 1

inductive Standing (uses : List Use) (asleep : ThreadId → Nat) (k : Kernel Activation)
    (t : ThreadId) (slot : Slot Activation) : Prop where
  | ready (waiting : k.table.waitingQueue t = some k.readyQueue)
      (channel : k.registry.channel.count t = 0) (asleep : asleep t = 0)
      (resumable : slot.Resumable)
  | announced (waiting : k.table.waitingQueue t = none)
      (channel : k.registry.channel.count t = 1) (asleep : asleep t = 0)
      (resumable : slot.Resumable)
  | parked (parked : slot.Parked t) (blocked : Blocked uses asleep k t)

/-- The queues in use are different ones, of the right kinds. -/
structure Layout (uses : List Use) (k : Kernel Activation) : Prop where
  ready_kind : k.table.links.transfer k.readyQueue = some false
  ready_apart : ∀ u ∈ uses, u.queue ≠ k.readyQueue
  use_kind : ∀ u ∈ uses, k.table.links.transfer u.queue = some u.transfer
  use_nodup : (uses.map Use.queue).Nodup
  join_kind : ∀ {t slot}, k.registry.get? t = some slot →
    k.table.links.transfer slot.joinQueue = some true
  join_apart : ∀ {t slot}, k.registry.get? t = some slot → ∀ u ∈ uses, u.queue ≠ slot.joinQueue
  join_inj : ∀ {t u slot slot'}, k.registry.get? t = some slot → k.registry.get? u = some slot' →
    slot.joinQueue = slot'.joinQueue → t = u

/-- All threads but `x` stand and own their join queues. Holders of locks own the queues. -/
structure Situated (uses : List Use) (asleep : ThreadId → Nat) (x : Option ThreadId)
    (k : Kernel Activation) : Prop where
  sound : k.table.Sound
  layout : Layout uses k
  holder : ∀ u ∈ uses, ∀ g, u.holder = some g → g.number < k.registry.nextNumber ∧
    ((k.registry.get? g).isSome → k.table.links.owner u.queue = some g)
  number : ∀ {t slot}, k.registry.get? t = some slot → t.number < k.registry.nextNumber
  waker : ∀ {t slot}, k.registry.get? t = some slot → slot.waker = t
  absent : ∀ {t}, k.registry.get? t = none → Nowhere asleep k t
  join_owner : ∀ {t slot}, x ≠ some t → k.registry.get? t = some slot →
    k.table.links.owner slot.joinQueue = some t
  standing : ∀ {t slot}, x ≠ some t → k.registry.get? t = some slot →
    Standing uses asleep k t slot

/-- What the running thread is about to do. -/
inductive Posture where
  /-- It executes instructions, or suspends to be dispatched again. -/
  | free
  /-- It passes the yield point at which it was parked. -/
  | passing
  /-- It suspends until it is woken. -/
  | blocking
deriving DecidableEq

structure Running (uses : List Use) (asleep : ThreadId → Nat) (t : ThreadId) (p : Posture)
    (k : Kernel Activation) : Prop where
  current : k.registry.current = some t
  slot : ∃ slot, k.registry.get? t = some slot ∧ slot.task = none ∧
    k.table.links.owner slot.joinQueue = some t ∧ (p = .passing → slot.signal.woken = true)
  place : if p = .blocking then Blocked uses asleep k t else Nowhere asleep k t

/-- All threads are where they should be, the running one included. -/
def Placed (uses : List Use) (asleep : ThreadId → Nat) (run : Option (ThreadId × Posture))
    (k : Kernel Activation) : Prop :=
  Situated uses asleep (run.map Prod.fst) k ∧
    match run with
    | none => k.registry.current = none
    | some (t, p) => Running uses asleep t p k

/-! ## Facts about a situated kernel -/

section Situated

variable {uses : List Use} {asleep : ThreadId → Nat} {x : Option ThreadId}
  {k : Kernel Activation}

theorem Layout.join_ne_ready (h : Layout uses k) {t : ThreadId} {slot : Slot Activation}
    (hs : k.registry.get? t = some slot) : slot.joinQueue ≠ k.readyQueue := by
  intro heq
  have hk := h.join_kind hs
  rw [heq, h.ready_kind] at hk
  cases hk

theorem Layout.ne_ready (h : Layout uses k) {q : QueueId} (hq : Primitive uses k q) :
    q ≠ k.readyQueue := by
  rcases hq with ⟨u, hu, rfl⟩ | ⟨t, slot, hs, rfl⟩
  · exact h.ready_apart u hu
  · exact h.join_ne_ready hs

/-- Queues may go, and slots with them, as long as the others keep their kinds. -/
theorem Layout.restrict {uses' : List Use} {k' : Kernel Activation} (h : Layout uses k)
    (ht : ∀ q, q = k.readyQueue ∨ Primitive uses k' q →
      k'.table.links.transfer q = k.table.links.transfer q)
    (hr : k'.readyQueue = k.readyQueue)
    (hu : uses'.map (fun u => (u.queue, u.transfer)) = uses.map fun u => (u.queue, u.transfer))
    (hs : ∀ {t slot'}, k'.registry.get? t = some slot' →
      ∃ slot, k.registry.get? t = some slot ∧ slot'.joinQueue = slot.joinQueue) :
    Layout uses' k' := by
  have hmem : ∀ u ∈ uses', ∃ v ∈ uses, v.queue = u.queue ∧ v.transfer = u.transfer := by
    intro u hu'
    have hm : (u.queue, u.transfer) ∈ uses.map fun u => (u.queue, u.transfer) := by
      rw [← hu]
      exact List.mem_map.2 ⟨u, hu', rfl⟩
    obtain ⟨v, hv, he⟩ := List.mem_map.1 hm
    exact ⟨v, hv, (Prod.mk.inj he).1, (Prod.mk.inj he).2⟩
  constructor
  · rw [hr, ht _ (.inl rfl)]
    exact h.ready_kind
  · intro u hu'
    obtain ⟨v, hv, hq, -⟩ := hmem u hu'
    rw [← hq, hr]
    exact h.ready_apart v hv
  · intro u hu'
    obtain ⟨v, hv, hq, htr⟩ := hmem u hu'
    rw [← hq, ← htr, ht _ (.inr (.inl ⟨v, hv, rfl⟩))]
    exact h.use_kind v hv
  · have hq : uses'.map Use.queue = uses.map Use.queue := by
      have hfst := congrArg (List.map Prod.fst) hu
      rw [List.map_map, List.map_map] at hfst
      exact hfst
    rw [hq]
    exact h.use_nodup
  · intro t slot' hs'
    obtain ⟨slot, hs₀, hj⟩ := hs hs'
    rw [ht _ (.inr (.inr ⟨t, slot', hs', rfl⟩)), hj]
    exact h.join_kind hs₀
  · intro t slot' hs' u hu'
    obtain ⟨slot, hs, hj⟩ := hs hs'
    obtain ⟨v, hv, hq, -⟩ := hmem u hu'
    rw [hj, ← hq]
    exact h.join_apart hs v hv
  · intro t u slot slot' hs₁ hs₂ heq
    obtain ⟨s₁, h₁, hj₁⟩ := hs hs₁
    obtain ⟨s₂, h₂, hj₂⟩ := hs hs₂
    exact h.join_inj h₁ h₂ (by rw [← hj₁, ← hj₂, heq])

/-- Queues depend on kinds, on the ready queue and on what the slots name. -/
theorem Layout.congr {uses' : List Use} {k' : Kernel Activation} (h : Layout uses k)
    (ht : k'.table.links.transfer = k.table.links.transfer) (hr : k'.readyQueue = k.readyQueue)
    (hu : uses'.map (fun u => (u.queue, u.transfer)) = uses.map fun u => (u.queue, u.transfer))
    (hs : ∀ {t slot'}, k'.registry.get? t = some slot' →
      ∃ slot, k.registry.get? t = some slot ∧ slot'.joinQueue = slot.joinQueue) :
    Layout uses' k' := h.restrict (fun _ _ => by rw [ht]) hr hu hs

end Situated

/-! ## Steps that leave threads where they are -/

/-- From `k` to `k'` every thread but `e` stays where it is. -/
structure Spares (e : Option ThreadId) (uses : List Use) (asleep : ThreadId → Nat)
    (k : Kernel Activation) (uses' : List Use) (asleep' : ThreadId → Nat) (k' : Kernel Activation) :
    Prop where
  waiting : ∀ u, e ≠ some u → k'.table.waitingQueue u = k.table.waitingQueue u
  channel : ∀ u, e ≠ some u → k'.registry.channel.count u = k.registry.channel.count u
  asleep : ∀ u, e ≠ some u → asleep' u = asleep u
  slot : ∀ u, e ≠ some u → k'.registry.get? u = k.registry.get? u
  primitive : ∀ u q, e ≠ some u → k.table.waitingQueue u = some q → Primitive uses k q →
    Primitive uses' k' q
  ready : k'.readyQueue = k.readyQueue
  number : k.registry.nextNumber ≤ k'.registry.nextNumber

section Spares

variable {e x x' : Option ThreadId} {uses uses' : List Use} {asleep asleep' : ThreadId → Nat}
  {k k' : Kernel Activation} {t : ThreadId}

theorem Nowhere.spares (h : Nowhere asleep k t) (hs : Spares e uses asleep k uses' asleep' k')
    (ht : e ≠ some t) : Nowhere asleep' k' t :=
  ⟨(hs.waiting t ht).trans h.waiting, (hs.channel t ht).trans h.channel,
    (hs.asleep t ht).trans h.asleep⟩

theorem Blocked.spares (h : Blocked uses asleep k t)
    (hs : Spares e uses asleep k uses' asleep' k') (ht : e ≠ some t) :
    Blocked uses' asleep' k' t := by
  refine ⟨(hs.channel t ht).trans h.channel, ?_⟩
  rw [hs.waiting t ht, hs.asleep t ht]
  rcases h.place with ⟨⟨q, hw, hq⟩, ha⟩ | ⟨hw, ha⟩
  · exact .inl ⟨⟨q, hw, hs.primitive t q ht hw hq⟩, ha⟩
  · exact .inr ⟨hw, ha⟩

theorem Standing.spares {slot : Slot Activation} (h : Standing uses asleep k t slot)
    (hs : Spares e uses asleep k uses' asleep' k') (ht : e ≠ some t) :
    Standing uses' asleep' k' t slot := by
  cases h with
  | ready hw hc ha hr =>
    refine .ready ?_ ((hs.channel t ht).trans hc) ((hs.asleep t ht).trans ha) hr
    rw [hs.waiting t ht, hs.ready]
    exact hw
  | announced hw hc ha hr =>
    exact .announced ((hs.waiting t ht).trans hw) ((hs.channel t ht).trans hc)
      ((hs.asleep t ht).trans ha) hr
  | parked hp hb => exact .parked hp (hb.spares hs ht)

/-- A step that spares all threads but `e` keeps the kernel situated if `e` stands after it, or is
excepted then. -/
theorem Situated.of_spares (h : Situated uses asleep x k)
    (hs : Spares e uses asleep k uses' asleep' k')
    (hx : ∀ u, e ≠ some u → x' ≠ some u → x ≠ some u) (hsound : k'.table.Sound)
    (hlayout : Layout uses' k')
    (hholder : ∀ u ∈ uses', ∀ g, u.holder = some g → g.number < k'.registry.nextNumber ∧
      ((k'.registry.get? g).isSome → k'.table.links.owner u.queue = some g))
    (howner : ∀ {u slot}, x' ≠ some u → k'.registry.get? u = some slot →
      k'.table.links.owner slot.joinQueue = some u)
    (hnew : ∀ u, e = some u →
      (k'.registry.get? u = none → Nowhere asleep' k' u) ∧
      ∀ slot, k'.registry.get? u = some slot → u.number < k'.registry.nextNumber ∧
        slot.waker = u ∧ (x' ≠ some u → Standing uses' asleep' k' u slot)) :
    Situated uses' asleep' x' k' where
  sound := hsound
  layout := hlayout
  holder := hholder
  number {u slot} hu := by
    by_cases he : e = some u
    · exact ((hnew u he).2 slot hu).1
    · rw [hs.slot u he] at hu
      exact (h.number hu).trans_le hs.number
  waker {u slot} hu := by
    by_cases he : e = some u
    · exact ((hnew u he).2 slot hu).2.1
    · rw [hs.slot u he] at hu
      exact h.waker hu
  absent {u} hu := by
    by_cases he : e = some u
    · exact (hnew u he).1 hu
    · rw [hs.slot u he] at hu
      exact (h.absent hu).spares hs he
  join_owner := howner
  standing {u slot} hxu hu := by
    by_cases he : e = some u
    · exact ((hnew u he).2 slot hu).2.2 hxu
    · rw [hs.slot u he] at hu
      exact (h.standing (hx u he hxu) hu).spares hs he

theorem Running.of_spares {p : Posture} (h : Running uses asleep t p k)
    (hs : Spares e uses asleep k uses' asleep' k') (ht : e ≠ some t)
    (hcur : k'.registry.current = k.registry.current)
    (howner : ∀ slot, k.registry.get? t = some slot → k.table.links.owner slot.joinQueue = some t →
      k'.table.links.owner slot.joinQueue = some t) : Running uses' asleep' t p k' := by
  obtain ⟨slot, hslot, htask, hown, hwoken⟩ := h.slot
  refine ⟨hcur.trans h.current, ⟨slot, ?_, htask, howner slot hslot hown, hwoken⟩, ?_⟩
  · rw [hs.slot t ht]
    exact hslot
  · have hp := h.place
    split at hp
    · rename_i heq
      rw [if_pos heq]
      exact hp.spares hs ht
    · rename_i hne
      rw [if_neg hne]
      exact hp.spares hs ht

end Spares
end Kernel
end ThreadKernel
