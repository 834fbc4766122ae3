import ThreadKernel.Proofs.Kernel.Course
import ThreadKernel.Proofs.Table.Known

/-!
# ThreadKernel.Proofs.Kernel.Clearance

What a thread leaves when it retires: nothing of its own, and the others as they were. Its joiners
own its join queue for a while, but that queue is destroyed before the thread is forgotten.

* `Course.known`, `Course.queue?` — states and queues after a run of operations.
* `Table.HandsOver`               — the join queue passes from one joiner to the next.
* `Kernel.Clears`                 — what a retirement comes to; `retire_clears`.
-/

namespace ThreadKernel

namespace Table

variable {P : Op → Prop} {tb tb' tb₁ : Table} {q j : QueueId} {t u : ThreadId}

/-- Whoever has a state had one, or was named by one of the operations. -/
theorem Course.known {A : ThreadId → Prop} (h : Course P tb tb') (hs : tb.Sound)
    (hp : ∀ op u, P op → op.Names u → A u) (hA : ∀ u ∈ tb.known, A u) : ∀ u ∈ tb'.known, A u :=
  (h.preserves (I := fun tb => ∀ u ∈ tb.known, A u) hs hA fun hs hi hop happly u hu =>
    (apply_known hs happly hu).elim (hi u) (hp _ u hop)).2

theorem Course.queue? (h : Course P tb tb') (hs : tb.Sound)
    (hp : ∀ transfer, ¬ P (.createQueue transfer)) (hq : (tb'.queue? q).isSome) :
    (tb.queue? q).isSome := by
  refine (h.preserves (I := fun tb₁ => (tb₁.queue? q).isSome → (tb.queue? q).isSome) hs id
    fun hs hi hop happly hq => ?_).2 hq
  rcases apply_queue? _ hs happly hq with hq | ⟨transfer, rfl⟩
  · exact hi hq
  · exact absurd hop (hp transfer)

/-- From `tb` to `tb'` the queue `j` was handed over, any number of times. -/
structure HandsOver (j : QueueId) (tb tb' : Table) : Prop where
  base : ∀ u, tb'.priority u = tb.priority u
  acquired : ∀ u, (tb'.state u).acquired.filter (· ≠ j) = (tb.state u).acquired.filter (· ≠ j)
  waiting : ∀ u, tb'.waitingQueue u = tb.waitingQueue u ∨
    tb.waitingQueue u = some j ∧ tb'.waitingQueue u = none

theorem HandsOver.refl (j : QueueId) (tb : Table) : HandsOver j tb tb :=
  ⟨fun _ => rfl, fun _ => rfl, fun _ => .inl rfl⟩

/-- Nobody but the thread served notices. -/
theorem HandsOver.next {served : Option ThreadId} (h : HandsOver j tb tb₁) (hs : tb₁.Sound)
    (hn : tb₁.nextThread j = .ok (served, tb')) : HandsOver j tb tb' := by
  have hacquired : ∀ u, (tb'.state u).acquired.filter (· ≠ j) =
      (tb.state u).acquired.filter (· ≠ j) := fun u =>
    (nextThread_acquired hs hn).trans (h.acquired u)
  obtain ⟨qs, hq, ⟨-, -, he⟩ | ⟨x, -, hx, -, he⟩⟩ := nextThread_effect hs hn
  · have hbase := congrArg Links.base he.links
    have hwaiting := congrArg Links.waiting he.links
    exact ⟨fun u => (congrFun hbase u).trans (h.base u), hacquired, fun u =>
      (h.waiting u).imp (congrFun hwaiting u).trans (And.imp_right (congrFun hwaiting u).trans)⟩
  · have hbase := congrArg Links.base he.links
    have hwaiting : ∀ u, tb'.waitingQueue u =
        if u = x.thread then none else tb₁.waitingQueue u := fun u =>
      (congrFun (congrArg Links.waiting he.links) u).trans (Function.update_apply _ _ _ _)
    refine ⟨fun u => (congrFun hbase u).trans (h.base u), hacquired, fun u => ?_⟩
    rw [hwaiting]
    split
    · rename_i hu
      refine .inr ⟨?_, rfl⟩
      have hwait : tb₁.waitingQueue u = some j := hu ▸ hs.linked.waiting_of_mem hq hx
      rcases h.waiting u with he | ⟨-, hnone⟩
      · exact he.symm.trans hwait
      · exact nomatch hnone.symm.trans hwait
    · exact h.waiting u

theorem Course.handsOver (h : Course (· = .nextThread j) tb tb') (hs : tb.Sound) :
    tb'.Sound ∧ HandsOver j tb tb' :=
  h.preserves (I := HandsOver j tb) hs (.refl j tb) fun {tb₁ op tb₂} hs hi hop happly => by
    subst hop
    obtain ⟨served, hn⟩ := apply_nextThread_ok happly
    exact hi.next hs hn

end Table

namespace Kernel

open Table (Course)

variable {k k' : Kernel Activation} {j : QueueId} {t : ThreadId} {slot : Slot Activation}

/-- What the retirement of `t`, whose join queue is `j`, leaves. -/
structure Clears (t : ThreadId) (j : QueueId) (k k' : Kernel Activation) : Prop where
  forgotten : t ∉ k'.table.known
  unregistered : k'.registry.get? t = none
  destroyed : k'.table.queue? j = none
  base : ∀ u, u ≠ t → k'.table.priority u = k.table.priority u
  acquired : ∀ u, u ≠ t → (k'.table.state u).acquired = (k.table.state u).acquired
  waiting : ∀ u, u ≠ t → k'.table.waitingQueue u =
    if k.table.waitingQueue u = some j then none else k.table.waitingQueue u

/-- Revoking the ready queue from `t` takes no queue from anybody else. -/
theorem releaseReady_others (hs : k.table.Sound) (h : k.releaseReady t = .ok k') :
    k'.table.Sound ∧ (∀ u, k'.table.priority u = k.table.priority u) ∧
      (∀ u, u ≠ t → (k'.table.state u).acquired = (k.table.state u).acquired) ∧
      (∀ u, k'.table.waitingQueue u = k.table.waitingQueue u) ∧
      k'.table.links.transfer = k.table.links.transfer := by
  rcases releaseReady_cases h with ⟨ho, h⟩ | rfl
  · obtain ⟨tb, htb, rfl⟩ := withTable_ok h
    obtain ⟨-, he⟩ := Table.releaseOwnership_effect hs htb
    obtain ⟨qs, hq, hown⟩ := Table.owner_eq_some.1 ho
    have howner : k.table.links.owner k.readyQueue = some t := by simp [Table.links, hq, hown]
    refine ⟨he.sound, congrFun (congrArg Table.Links.base he.links), fun u hu => ?_,
      congrFun (congrArg Table.Links.waiting he.links), by rw [he.links]⟩
    rw [Table.releaseOwnership_acquired hs htb,
      Table.filter_ne_eq_self (hs.not_mem_acquired howner hu)]
  · exact ⟨hs, fun _ => rfl, fun _ _ => rfl, fun _ => rfl, rfl⟩

theorem retire_clears (hs : k.table.Sound) (hslot : k.registry.get? t = some slot)
    (howner : k.table.links.owner slot.joinQueue = some t) (hw : k.table.waitingQueue t = none)
    (h : k.retire t = .ok k') : Clears t slot.joinQueue k k' := by
  obtain ⟨slot', k₁, k₂, k₃, k₄, hslot', h₁, h₂, h₃, h₄, rfl⟩ := retire_ok h
  cases hslot.symm.trans hslot'
  set j := slot.joinQueue
  -- the joiners
  have hcourse : Course (· = .nextThread j) k.enter.table k₁.table := handOverAll_course rfl h₁
  obtain ⟨hs₁, hover⟩ := hcourse.handsOver hs
  have hover : Table.HandsOver j k.table k₁.table := hover
  -- the join queue
  obtain ⟨tb₂, htb₂, rfl⟩ := withTable_ok h₂
  have he₂ := Table.destroyQueue_effect hs₁ htb₂
  -- the ready queue
  obtain ⟨hs₃, hbase₃, hacquired₃, hwaiting₃, htransfer₃⟩ := releaseReady_others he₂.sound h₃
  -- the thread
  obtain ⟨tb₄, htb₄, rfl⟩ := withTable_ok h₄
  have he₄ := Table.removeThread_effect hs₃ htb₄
  have hwaits : ∀ u, k₃.table.waitingQueue u =
      if k.table.waitingQueue u = some j then none else k.table.waitingQueue u := by
    intro u
    have hdetached : tb₂.waitingQueue u =
        if k₁.table.waitingQueue u = some j then none else k₁.table.waitingQueue u :=
      congrFun (congrArg Table.Links.waiting he₂.links) u
    rw [hwaiting₃]
    refine hdetached.trans ?_
    rcases hover.waiting u with hsame | ⟨hjoined, hnone⟩
    · rw [hsame]
    · rw [hnone, if_pos hjoined, ite_self]
  refine ⟨fun hknown => ?_, ?_, ?_, fun u hu => ?_, fun u hu => ?_, fun u hu => ?_⟩
  · refine (Table.removeThread_known hs₃ htb₄ hknown).2 ?_ rfl
    rw [hwaits, hw]
    rfl
  · exact (Directory.get?_erase _ _ _).trans (if_pos rfl)
  · rw [← Option.not_isSome_iff_eq_none, Table.isSome_queue?_iff, not_not]
    have htransfer : tb₄.links.transfer j = tb₂.links.transfer j := by
      rw [he₄.links]
      exact congrFun htransfer₃ j
    refine htransfer.trans ?_
    rw [he₂.links]
    exact Function.update_self _ _ _
  · have hforget : tb₄.priority u = k₃.table.priority u := by
      refine (congrFun (congrArg Table.Links.base he₄.links) u).trans ?_
      exact Function.update_of_ne hu _ _
    exact (hforget.trans (hbase₃ u)).trans
      ((congrFun (congrArg Table.Links.base he₂.links) u).trans (hover.base u))
  · have hjoin : j ∉ (k.table.state u).acquired := hs.not_mem_acquired howner hu
    calc (tb₄.state u).acquired
      _ = (k₃.table.state u).acquired := Table.removeThread_acquired htb₄ hu
      _ = (tb₂.state u).acquired := hacquired₃ u hu
      _ = (k₁.table.state u).acquired.filter (· ≠ j) := Table.destroyQueue_acquired hs₁ htb₂
      _ = (k.table.state u).acquired.filter (· ≠ j) := hover.acquired u
      _ = (k.table.state u).acquired := Table.filter_ne_eq_self hjoin
  · refine Eq.trans ?_ (hwaits u)
    exact (congrFun (congrArg Table.Links.waiting he₄.links) u).trans
      (Function.update_of_ne hu _ _)

end Kernel
end ThreadKernel
