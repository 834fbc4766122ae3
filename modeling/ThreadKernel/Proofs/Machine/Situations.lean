import ThreadKernel.Proofs.Machine.Execution
import ThreadKernel.Proofs.Table.Consistency

/-!
# ThreadKernel.Proofs.Machine.Situations

Between two dispatches of a run every live thread is ready, announced or parked, and never in two of
these situations. So no wake is lost and none happens twice.

* `Table.recordsIn`, `Table.records` — the records of a thread in one wait set, and in all of them.
* `System.Situation`, `System.In`    — the three situations.
* `boundary_situations`              — the situations of all threads at a boundary.
-/

namespace ThreadKernel

namespace Table

def recordsIn (tb : Table) (q : QueueId) (t : ThreadId) : Nat :=
  match tb.queue? q with
  | some qs => qs.waiters.threads.count t
  | none => 0

def records (tb : Table) (t : ThreadId) : Nat := (tb.queueIds.map fun q => tb.recordsIn q t).sum

variable {tb : Table} {t : ThreadId} {q : QueueId}

/-- A record shows in the state of its thread. -/
theorem Linked.recordsIn_eq (h : Linked tb) (q : QueueId) (t : ThreadId) :
    tb.recordsIn q t = if tb.waitingQueue t = some q then 1 else 0 := by
  unfold recordsIn
  split
  · rename_i qs hq
    split
    · rename_i hw
      obtain ⟨qs', hq', hm⟩ := h.waiting_iff.1 hw
      rw [hq] at hq'
      cases hq'
      exact List.count_eq_one_of_mem (h.threads_nodup hq) hm
    · rename_i hw
      exact List.count_eq_zero_of_not_mem fun hm => hw (h.waiting_iff.2 ⟨qs, hq, hm⟩)
  · rename_i hq
    rw [if_neg]
    intro hw
    obtain ⟨qs, hq', -⟩ := h.waiting_iff.1 hw
    rw [hq] at hq'
    cases hq'

theorem Linked.records_eq_zero (h : Linked tb) (hw : tb.waitingQueue t = none) :
    tb.records t = 0 := by
  have hzero : ∀ l : List QueueId, (l.map fun q => tb.recordsIn q t).sum = 0 := by
    intro l
    induction l with
    | nil => rfl
    | cons q l ih => rw [List.map_cons, List.sum_cons, ih, h.recordsIn_eq, hw, if_neg (by simp)]
  exact hzero _

theorem Linked.records_eq_one (h : Linked tb) (hw : tb.waitingQueue t = some q) :
    tb.records t = 1 := by
  obtain ⟨qs, hq, -⟩ := h.waiting_iff.1 hw
  have hmem : q ∈ tb.queueIds := mem_queueIds.2 (by rw [hq]; rfl)
  have hcount : ∀ l : List QueueId, (l.map fun r => tb.recordsIn r t).sum = l.count q := by
    intro l
    induction l with
    | nil => rfl
    | cons r l ih =>
      rw [List.map_cons, List.sum_cons, ih, h.recordsIn_eq, hw]
      by_cases hqr : q = r
      · rw [if_pos (congrArg some hqr), hqr, List.count_cons_self, Nat.add_comm]
      · rw [if_neg fun e => hqr (Option.some.inj e), List.count_cons_of_ne (Ne.symm hqr),
          Nat.zero_add]
  rw [records, hcount]
  exact List.count_eq_one_of_mem (queueIds_nodup tb) hmem

end Table

namespace System

/-- The queue of a lock, of a condition, or on which others join a thread. -/
def OfPrimitive (s : System) (q : QueueId) : Prop :=
  (∃ l ∈ s.locks, l.queue = q) ∨ (∃ c ∈ s.conditions, c.queue = q) ∨
    ∃ t slot, s.kernel.registry.get? t = some slot ∧ slot.joinQueue = q

inductive Situation where
  | ready
  | announced
  | parked
deriving DecidableEq, Repr

/-- The thread with this slot is in the situation. -/
def In (s : System) (t : ThreadId) (slot : Slot Activation) : Situation → Prop
  | .ready =>
    s.kernel.table.recordsIn s.kernel.readyQueue t = 1 ∧ s.kernel.registry.channel.count t = 0
  | .announced => s.kernel.registry.channel.count t = 1 ∧ s.kernel.table.records t = 0
  | .parked =>
    slot.signal = ⟨false, some t⟩ ∧
      s.kernel.table.recordsIn s.kernel.readyQueue t = 0 ∧
      s.kernel.registry.channel.count t = 0 ∧
      ((∃ q, s.OfPrimitive q ∧ s.kernel.table.recordsIn q t = 1) ∧ s.kernel.table.records t = 1 ∧
          s.asleep t = 0 ∨
        s.kernel.table.records t = 0 ∧ s.asleep t = 1)

/-- The thread is in no wait set, not announced, and sleeps at no alarm. -/
def Gone (s : System) (t : ThreadId) : Prop :=
  s.kernel.table.records t = 0 ∧ s.kernel.registry.channel.count t = 0 ∧ s.asleep t = 0

variable {s : System} {t : ThreadId} {slot : Slot Activation}

theorem ofPrimitive_of_primitive {q : QueueId} (h : Kernel.Primitive s.uses s.kernel q) :
    s.OfPrimitive q := by
  rcases h with ⟨u, hu, rfl⟩ | h
  · rcases List.mem_append.1 hu with hu | hu
    · obtain ⟨l, hl, rfl⟩ := List.mem_map.1 hu
      exact .inl ⟨l, hl, rfl⟩
    · obtain ⟨c, hc, rfl⟩ := List.mem_map.1 hu
      exact .inr (.inl ⟨c, hc, rfl⟩)
  · exact .inr (.inr h)

theorem Orderly.exists_situation (h : s.Orderly none) (hs : s.kernel.registry.get? t = some slot) :
    ∃ c, s.In t slot c := by
  have hl := h.placed.1.sound.linked
  cases h.placed.1.standing (by simp) hs with
  | ready hw hc _ _ =>
    refine ⟨.ready, ?_, hc⟩
    rw [hl.recordsIn_eq, hw, if_pos rfl]
  | announced hw hc _ _ => exact ⟨.announced, hc, hl.records_eq_zero hw⟩
  | parked hp hb =>
    refine ⟨.parked, hp.1, ?_, hb.channel, ?_⟩
    · rw [hl.recordsIn_eq, if_neg]
      intro hw
      rcases hb.place with ⟨⟨q, hq, hprim⟩, -⟩ | ⟨hn, -⟩
      · rw [hw] at hq
        exact h.placed.1.layout.ne_ready hprim (Option.some.inj hq).symm
      · rw [hw] at hn
        cases hn
    · rcases hb.place with ⟨⟨q, hq, hprim⟩, ha⟩ | ⟨hn, ha⟩
      · refine .inl ⟨⟨q, ofPrimitive_of_primitive hprim, ?_⟩, hl.records_eq_one hq, ha⟩
        rw [hl.recordsIn_eq, hq, if_pos rfl]
      · exact .inr ⟨hl.records_eq_zero hn, ha⟩

/-- Two situations differ in the ready queue or in the channel. -/
theorem In.unique (h : s.kernel.table.Linked) {c c' : Situation} (hc : s.In t slot c)
    (hc' : s.In t slot c') : c = c' := by
  have hnone : s.kernel.table.records t = 0 →
      s.kernel.table.recordsIn s.kernel.readyQueue t = 0 := by
    intro hz
    rw [h.recordsIn_eq, if_neg]
    intro hw
    rw [h.records_eq_one hw] at hz
    cases hz
  cases c <;> cases c' <;> simp only [In] at hc hc' <;> first | rfl | omega

end System

namespace Machine

/-- The phase of the run loop, if it stands between two dispatches. -/
def phase? (m : Machine) : Option Phase :=
  match m.stack with
  | .loop phase :: _ => some phase
  | _ => none

theorem phase?_eq_some {m : Machine} {phase : Phase} (h : m.phase? = some phase) :
    ∃ below, m.stack = .loop phase :: below := by
  unfold phase? at h
  split at h
  · rename_i below hm
    cases h
    exact ⟨below, hm⟩
  · cases h

theorem Orderly.boundary {m : Machine} {phase : Phase} (h : m.Orderly)
    (hb : m.phase? = some phase) : m.system.Orderly none := by
  cases h with
  | idle hs _ => exact hs
  | running _ _ _ _ => cases hb

theorem boundary_situations {n i : Nat} {ms : Nat → Machine} {gen : Generator} {settings : Settings}
    {k : Kernel Activation} {programs : List Program} {main : List Action} {phase : Phase}
    (h : Execution n ms) (hk : Kernel.start gen settings = .ok k)
    (hstart : ms 0 = start k programs main)
    (hp : ∀ p ∈ programs, Instr.plainList p.code = true) (hm : Action.plainList main = true)
    (hi : i ≤ n) (hb : (ms i).phase? = some phase) :
    (∀ t slot, (ms i).system.kernel.registry.get? t = some slot →
      ∃! c, (ms i).system.In t slot c) ∧
      ∀ t, (ms i).system.kernel.registry.get? t = none → (ms i).system.Gone t := by
  have hs := (h.orderly (hstart ▸ start_orderly hk hp hm) hi).boundary hb
  have hl := hs.placed.1.sound.linked
  refine ⟨fun t slot ht => ?_, fun t ht => ?_⟩
  · obtain ⟨c, hc⟩ := hs.exists_situation ht
    exact ⟨c, hc, fun c' hc' => hc'.unique hl hc⟩
  · have hnow := hs.placed.1.absent ht
    exact ⟨hl.records_eq_zero hnow.waiting, hnow.channel, hnow.asleep⟩

/-- A thread takes a lock, spawns one of higher priority that wants the lock, and another one. -/
def lendingPrograms : List Program :=
  [⟨"holder", [.acquire 0, .act (.spawn 1), .act (.atomic (.setPriority (.named ⟨2⟩) 5)),
      .act (.spawn 2), .yield, .act (.release 0)]⟩,
    ⟨"waiter", [.acquire 0, .act (.release 0)]⟩, ⟨"other", []⟩]

def lendingMain : List Action := [.newLock, .spawn 0, .run]

def lendingSettings : Settings := ⟨.priority, none, 10, 1⟩

theorem boundary_situations_lending : ∃ (n : Nat) (ms : Nat → Machine) (k : Kernel Activation),
    Execution n ms ∧ Kernel.start .counting lendingSettings = .ok k ∧
    ms 0 = start k lendingPrograms lendingMain ∧
    (∀ p ∈ lendingPrograms, Instr.plainList p.code = true) ∧ Action.plainList lendingMain = true ∧
    17 ≤ n ∧ (ms 17).phase? = some .choose ∧
    ((ms 17).system.kernel.table.waitingQueue ⟨1⟩, (ms 17).system.kernel.table.waitingQueue ⟨2⟩) =
      (some ⟨0⟩, some ⟨1⟩) ∧
    (∀ t slot, (ms 17).system.kernel.registry.get? t = some slot →
      ∃! c, (ms 17).system.In t slot c) ∧
      ∀ t, (ms 17).system.kernel.registry.get? t = none → (ms 17).system.Gone t := by
  have hrun : (Kernel.start .counting lendingSettings).toOption.any (fun k =>
      let m := (run 17 (start k lendingPrograms lendingMain)).1
      (run 17 (start k lendingPrograms lendingMain)).2 = .unfinished ∧ m.phase? = some .choose ∧
        (m.system.kernel.table.waitingQueue ⟨1⟩, m.system.kernel.table.waitingQueue ⟨2⟩) =
          (some ⟨0⟩, some ⟨1⟩)) = true := by
    decide +kernel
  have hp : ∀ p ∈ lendingPrograms, Instr.plainList p.code = true := by decide
  have hm : Action.plainList lendingMain = true := by decide
  obtain ⟨k, hk, hrun⟩ := exists_start hrun
  obtain ⟨hn, hb, hw⟩ := of_decide_eq_true hrun
  have hexec := execution_run hk hn
  have hplaces := boundary_situations hexec hk rfl hp hm (le_refl 17) hb
  exact ⟨17, _, k, hexec, hk, rfl, hp, hm, le_refl 17, hb, hw, hplaces⟩

end Machine
end ThreadKernel
