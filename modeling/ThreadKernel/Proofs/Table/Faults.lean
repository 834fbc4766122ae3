import ThreadKernel.Proofs.Table.Forget

/-!
# ThreadKernel.Proofs.Table.Faults

What an operation on a sound table can fail with. A walk along the owners ends, unless they form a
cycle; everything else is a precondition of the operation.

* `Fault.Cyclic`          — the walk was about to go round.
* `refreshWithin_cyclic`  — a walk fails in no other way.
* `exists_select`         — a selection never fails.
* `releaseOwnership_error`, `waitForAccess_error`, … — one lemma for each operation.
-/

namespace ThreadKernel

/-- The owners along a walk wait for each other. -/
def Fault.Cyclic (f : Fault) : Prop := ∃ t, f = .ownershipCycle t

namespace Table

variable {tb tb' : Table} {q : QueueId} {t : ThreadId} {f : Fault}

/-- On a linked table a walk finds all queues and records that it looks for. -/
theorem refreshWithin_cyclic (hops : Nat) : ∀ {t : ThreadId} {tb : Table}, Linked tb →
    refreshWithin hops t tb = .error f → f.Cyclic := by
  induction hops using Nat.strongRecOn with
  | ind hops ih =>
    intro t tb h hr
    unfold refreshWithin at hr
    obtain ⟨value, hv⟩ := h.exists_donatedValue t
    simp only [hv] at hr
    split at hr
    · cases hr
    · split at hr
      · cases hr
      · rename_i q hw
        obtain ⟨qs, hq, hm⟩ := h.waiting_iff.1 hw
        obtain ⟨r, rest, hrem⟩ := WaitSet.exists_remove hm
        have hq' : (tb.setThread t { tb.state t with effective := value }).queue? q = some qs := hq
        have hrank : rerank tb.policy t value qs.waiters =
            some (rest.insert tb.policy { r with weight := value }) := by
          rw [rerank, hrem]
        have hrank' : rerank (tb.setThread t { tb.state t with effective := value }).policy t value
            qs.waiters = some (rest.insert tb.policy { r with weight := value }) := hrank
        simp only [hq', hrank'] at hr
        split at hr
        · cases hr
        · rename_i o _
          split at hr
          · cases hr
            exact ⟨o, rfl⟩
          · rename_i n
            exact ih n (Nat.lt_succ_self n) (reweigh_linked h hq hrank) hr

theorem refresh_cyclic (h : Linked tb) (hr : tb.refresh t = .error f) : f.Cyclic :=
  refreshWithin_cyclic _ h hr

theorem refreshOption_cyclic {x : Option ThreadId} (h : Linked tb)
    (hr : tb.refreshOption x = .error f) : f.Cyclic := by
  cases x with
  | none => cases hr
  | some t => exact refresh_cyclic h hr

/-! ## Selection -/

/-- The sum of the weights that a set keeps is right, so the draw falls on a ticket. -/
theorem exists_select {p : Policy} {s : WaitSet} (h : s.Ranked p) (g : Random) :
    ∃ r, p.select s g = .ok r := by
  by_cases hs : s.records = []
  · exact ⟨_, WaitSet.select_of_empty p hs g⟩
  · cases p with
    | priority =>
      obtain ⟨r, rest, hcons⟩ := List.exists_cons_of_ne_nil hs
      exact ⟨(some 0, g), by rw [Policy.select, hcons]⟩
    | lottery =>
      obtain ⟨_, g', i, -, -, -, hdrawn⟩ := h.fair.drawn hs g
      exact ⟨(some i, g'), hdrawn⟩

/-! ## Operations -/

theorem releaseOwnership_error (h : Sound tb) (hr : tb.releaseOwnership q = .error f) :
    tb.queue? q = none ∧ f = .unknownQueue q ∨ f.Cyclic := by
  unfold releaseOwnership at hr
  split at hr
  · rename_i hq
    cases hr
    exact .inl ⟨hq, rfl⟩
  · rename_i qs hq
    split at hr
    · cases hr
    · rename_i o ho
      exact .inr (refresh_cyclic (disown_linked h.linked hq ho) hr)

theorem releaseOwnership_cyclic (h : Sound tb) (hq : (tb.queue? q).isSome)
    (hr : tb.releaseOwnership q = .error f) : f.Cyclic := by
  rcases releaseOwnership_error h hr with ⟨hn, -⟩ | hc
  · rw [hn] at hq
    cases hq
  · exact hc

theorem destroyQueue_cyclic (h : Sound tb) (hr : tb.destroyQueue q = .error f) : f.Cyclic := by
  cases hq : tb.queue? q with
  | none =>
    unfold destroyQueue at hr
    rw [hq] at hr
    cases hr
  | some qs =>
    rw [destroyQueue_eq hq] at hr
    exact refreshOption_cyclic (dissolve_linked h.linked hq) hr

/-- A thread that waits nowhere can be enqueued in any queue. -/
theorem waitForAccess_cyclic (h : Sound tb) (hw : tb.waitingQueue t = none)
    (hq : (tb.queue? q).isSome) (hr : tb.waitForAccess q t = .error f) : f.Cyclic := by
  obtain ⟨qs, hqs⟩ := Option.isSome_iff_exists.1 hq
  unfold waitForAccess at hr
  simp only [hw, hqs] at hr
  split at hr
  · rename_i hr₁
    split at hr₁
    · cases hr
      exact releaseOwnership_cyclic h hq hr₁
    · cases hr₁
  · rename_i tb₁ hr₁
    have hs₁ := (giveUp_effect h hqs hr₁).sound
    obtain ⟨hw₁, qs₁, hqs₁, ho₁⟩ := giveUp_ready h hw hqs hr₁
    split at hr
    · rename_i hnone
      have hnone : tb₁.queue? q = none := hnone
      rw [hqs₁] at hnone
      cases hnone
    · exact refreshOption_cyclic (enqueue_linked hs₁.linked hw₁ hqs₁ ho₁) hr

/-- A thread that waits nowhere but on the queue can become its owner. -/
theorem acquire_cyclic (h : Sound tb)
    (hw : tb.waitingQueue t = none ∨ tb.waitingQueue t = some q) (hq : (tb.queue? q).isSome)
    (hr : tb.acquire q t = .error f) : f.Cyclic := by
  unfold acquire at hr
  simp only [mayAcquire_iff.2 hw] at hr
  split at hr
  · rename_i hr₁
    cases hr
    exact releaseOwnership_cyclic h hq hr₁
  · rename_i tb₁ hr₁
    obtain ⟨-, he⟩ := releaseOwnership_effect h hr₁
    obtain ⟨qs₁, hqs₁, ho₁⟩ := releaseOwnership_vacant h hr₁
    have hw₁ : (tb₁.state t).waiting = tb.waitingQueue t :=
      congrFun (congrArg Links.waiting he.links) t
    exact refresh_cyclic (seize_linked he.sound.linked hw₁ hw hqs₁ ho₁) hr

/-- Whoever is selected waits on the queue, so it can become the owner. -/
theorem nextThread_cyclic (h : Sound tb) (hq : (tb.queue? q).isSome)
    (hr : tb.nextThread q = .error f) : f.Cyclic := by
  obtain ⟨qs, hqs⟩ := Option.isSome_iff_exists.1 hq
  obtain ⟨⟨i, g⟩, hsel⟩ := exists_select (h.linked.ranked hqs) tb.random
  unfold nextThread at hr
  simp only [hqs, hsel] at hr
  have hg := h.withRandom g
  split at hr
  · split at hr
    · rename_i hr₁
      cases hr
      exact releaseOwnership_cyclic hg hq hr₁
    · cases hr
  · rename_i r hsome
    split at hr
    · rename_i hr₁
      cases hr
      obtain ⟨n, -, hn⟩ := Option.bind_eq_some_iff.1 hsome
      exact acquire_cyclic hg (.inr (h.linked.waiting_of_mem hqs (List.mem_of_getElem? hn))) hq hr₁
    · cases hr

theorem setPriority_error {p : Nat} (h : Sound tb) (hr : tb.setPriority t p = .error f) :
    tb.policy.bounds.contains p = false ∧
      f = .priorityOutOfRange p tb.policy.bounds.least tb.policy.bounds.greatest t ∨ f.Cyclic := by
  simp only [setPriority] at hr
  split at hr
  · exact .inr (refresh_cyclic (setBase_linked h.linked) hr)
  · rename_i hp
    cases hr
    exact .inl ⟨by simpa using hp, rfl⟩

theorem removeThread_cyclic (h : Sound tb) (hr : tb.removeThread t = .error f) : f.Cyclic := by
  cases hs : tb.threads.get? t with
  | none =>
    simp only [removeThread, hs] at hr
    cases hr
  | some s =>
    rw [removeThread_eq hs] at hr
    cases hw : (forget t tb).refreshOption
        ((tb.state t).waiting.bind fun q => (tb.queue? q).bind QueueState.beneficiary) with
    | error e =>
      rw [hw] at hr
      cases hr
      exact refreshOption_cyclic (forget_linked h.linked) hw
    | ok tb₁ =>
      rw [hw] at hr
      cases hr

end Table
end ThreadKernel
