import ThreadKernel.Proofs.Table.Release

/-!
# ThreadKernel.Proofs.Table.Enqueue

A thread that begins to wait.

* `WaitSet.mem_threads_insert`, `nodup_insert` — who waits after an insertion.
* `Table.enqueue`         — the change of links: one record more, behind all earlier arrivals.
* `waitForAccess_cases`   — what a call that succeeds does.
* `waitForAccess_effect`  — an owner that waits on its own queue has given it up before.
-/

namespace ThreadKernel

namespace WaitSet

theorem mem_threads_insert {p : Policy} {r : WaitRecord} {s : WaitSet} {t : ThreadId} :
    t ∈ (s.insert p r).threads ↔ t = r.thread ∨ t ∈ s.threads := by
  have hp : (s.insert p r).threads.Perm (r.thread :: s.threads) := (insert_perm p r s).map _
  rw [hp.mem_iff, List.mem_cons]

theorem nodup_insert {p : Policy} {r : WaitRecord} {s : WaitSet} (hn : s.threads.Nodup)
    (hr : r.thread ∉ s.threads) : (s.insert p r).threads.Nodup := by
  have hp : (s.insert p r).threads.Perm (r.thread :: s.threads) := (insert_perm p r s).map _
  rw [hp.nodup_iff]
  exact List.nodup_cons.2 ⟨hr, hn⟩

end WaitSet

namespace Table

def enqueue (q : QueueId) (t : ThreadId) (tb : Table) : Table :=
  { tb.setThread t { tb.state t with waiting := some q } with
    arrivals := tb.arrivals + 1 }.modifyQueue q fun qs =>
      { qs with waiters := qs.waiters.insert tb.policy ⟨t, (tb.state t).effective, tb.arrivals⟩ }

theorem state_enqueue (q : QueueId) (t u : ThreadId) (tb : Table) :
    (enqueue q t tb).state u =
      if t = u then { tb.state u with waiting := some q } else tb.state u := by
  have hs : (enqueue q t tb).state u =
      (tb.setThread t { tb.state t with waiting := some q }).state u := rfl
  rw [hs, state_setThread]
  split
  · rename_i h; rw [h]
  · rfl

theorem queue?_enqueue (q r : QueueId) (t : ThreadId) (tb : Table) :
    (enqueue q t tb).queue? r =
      if q = r then (tb.queue? r).map fun qs =>
        { qs with waiters := qs.waiters.insert tb.policy ⟨t, (tb.state t).effective, tb.arrivals⟩ }
      else tb.queue? r := by
  rw [enqueue, queue?_modifyQueue]
  rfl

@[simp] theorem policy_enqueue (q : QueueId) (t : ThreadId) (tb : Table) :
    (enqueue q t tb).policy = tb.policy := rfl

section Enqueue

variable {q : QueueId} {t : ThreadId} {tb : Table} {qs : QueueState}

/-- A record after the change is the new one or an old one. -/
theorem record_enqueue (hq : tb.queue? q = some qs) {r : QueueId} {rs : QueueState} {x : WaitRecord}
    (hr : (enqueue q t tb).queue? r = some rs) (hx : x ∈ rs.waiters.records) :
    r = q ∧ x = ⟨t, (tb.state t).effective, tb.arrivals⟩ ∨
      ∃ rs₀, tb.queue? r = some rs₀ ∧ x ∈ rs₀.waiters.records := by
  rw [queue?_enqueue] at hr
  split at hr
  · rename_i hqr
    subst hqr
    rw [hq] at hr
    cases hr
    rcases WaitSet.mem_insert.1 hx with hx | hx
    · exact .inl ⟨rfl, hx⟩
    · exact .inr ⟨qs, hq, hx⟩
  · exact .inr ⟨rs, hr, hx⟩

theorem enqueue_linked (h : Linked tb) (hw : (tb.state t).waiting = none)
    (hq : tb.queue? q = some qs) (ho : qs.owner ≠ some t) : Linked (enqueue q t tb) := by
  have hout : ∀ {r rs}, tb.queue? r = some rs → t ∉ rs.waiters.threads := by
    intro r rs hr ht
    have := h.waiting_iff.2 ⟨rs, hr, ht⟩
    rw [hw] at this
    cases this
  constructor
  · intro r rs hr
    rw [queue?_enqueue] at hr
    rw [policy_enqueue]
    split at hr
    · rename_i hqr
      subst hqr
      rw [hq] at hr
      cases hr
      exact (h.ranked hq).insert _
    · exact h.ranked hr
  · intro r rs hr
    rw [queue?_enqueue] at hr
    split at hr
    · rename_i hqr
      subst hqr
      rw [hq] at hr
      cases hr
      exact WaitSet.nodup_insert (h.threads_nodup hq) (hout hq)
    · exact h.threads_nodup hr
  · intro u r
    rw [state_enqueue, queue?_enqueue]
    have hiff := @h.waiting_iff u r
    have hmem := @WaitSet.mem_threads_insert tb.policy ⟨t, (tb.state t).effective, tb.arrivals⟩
      qs.waiters u
    have := @hout r
    grind
  · intro u r hr
    rw [state_enqueue] at hr
    rw [queue?_enqueue]
    have := @h.owner_of_acquired u r
    grind
  · intro u
    rw [state_enqueue]
    split <;> exact h.acquired_nodup u
  · intro r rs u hr hown
    rw [queue?_enqueue] at hr
    have hold := @h.owner_elsewhere r
    have hmem := @WaitSet.mem_threads_insert tb.policy ⟨t, (tb.state t).effective, tb.arrivals⟩
      qs.waiters u
    grind
  · intro r rs x hr hx
    show x.arrival < tb.arrivals + 1
    rcases record_enqueue hq hr hx with ⟨-, rfl⟩ | ⟨rs₀, hr₀, hx₀⟩
    · exact Nat.lt_succ_self _
    · exact Nat.lt_succ_of_lt (h.arrival_lt hr₀ hx₀)
  · intro r r' rs rs' x x' hr hr' hx hx' heq
    rcases record_enqueue hq hr hx with ⟨-, rfl⟩ | ⟨rs₀, hr₀, hx₀⟩ <;>
      rcases record_enqueue hq hr' hx' with ⟨-, rfl⟩ | ⟨rs₁, hr₁, hx₁⟩
    · rfl
    · exact absurd heq (h.arrival_lt hr₁ hx₁).ne'
    · exact absurd heq (h.arrival_lt hr₀ hx₀).ne
    · exact h.arrival_inj hr₀ hr₁ hx₀ hx₁ heq

theorem enqueue_owned (h : Owned tb) (hq : tb.queue? q = some qs) :
    Owned (enqueue q t tb) := by
  intro r rs u hr hown
  rw [queue?_enqueue] at hr
  rw [state_enqueue]
  have := @h r rs u
  have := @h q qs u hq
  grind

/-- Only the thread that the new waiter donates to may have a wrong value. -/
theorem enqueue_settledBut (h : Sound tb) (hq : tb.queue? q = some qs) :
    SettledBut qs.beneficiary (enqueue q t tb) where
  weight {r rs x} hr hx := by
    have heff : ∀ u, ((enqueue q t tb).state u).effective = (tb.state u).effective := by
      intro u
      rw [state_enqueue]
      split <;> rfl
    rw [heff]
    rcases record_enqueue hq hr hx with ⟨-, rfl⟩ | ⟨rs₀, hr₀, hx₀⟩
    · rfl
    · exact h.settled.weight hr₀ hx₀
  base_le u := by
    rw [state_enqueue]
    split <;> exact h.settled.base_le u
  effective_le u := by
    rw [state_enqueue]
    split <;> exact h.settled.effective_le u
  value u hu := by
    have hst := state_enqueue q t u tb
    have hd : (enqueue q t tb).donatedValue u = tb.donatedValue u := by
      refine donatedValue_congr rfl (by rw [hst]; split <;> rfl) (by rw [hst]; split <;> rfl)
        fun r hr => ?_
      simp only [gift, queue?_enqueue, policy_enqueue]
      split
      · rename_i hqr
        subst hqr
        have hown := acquired_by_owner h.linked hq hr
        have htr : qs.transfer = false := by
          by_contra ht
          exact hu (by simp [QueueState.beneficiary, ht, hown])
        simp [hq, htr]
      · rfl
    rw [hd, h.settled.value u (by simp), hst]
    split <;> rfl

theorem enqueue_links (hq : tb.queue? q = some qs) :
    (enqueue q t tb).links =
      { tb.links with waiting := Function.update tb.links.waiting t (some q) } := by
  ext r : 2
  · simp only [links, state_enqueue]
    split <;> rfl
  · simp only [links, state_enqueue, Function.update_apply, eq_comm (a := r)]
    split <;> rfl
  · simp only [links, queue?_enqueue]
    split
    · rename_i hqr
      simp [← hqr, hq]
    · rfl
  · simp only [links, queue?_enqueue]
    split
    · rename_i hqr
      simp [← hqr, hq]
    · rfl

theorem enqueue_precedes (hq : tb.queue? q = some qs) : Precedes tb (enqueue q t tb) := by
  refine ⟨rfl, Nat.le_succ _, ?_⟩
  rintro r u a ⟨rs, hr, hm⟩
  obtain ⟨x, hx, ht, ha⟩ := WaitSet.mem_entries.1 hm
  rcases record_enqueue hq hr hx with ⟨-, rfl⟩ | ⟨rs₀, hr₀, hx₀⟩
  · exact .inr ha.le
  · exact .inl ⟨rs₀, hr₀, WaitSet.mem_entries.2 ⟨x, hx₀, ht, ha⟩⟩

end Enqueue

section GiveUp

variable {q : QueueId} {t : ThreadId} {tb tb₁ : Table} {qs : QueueState}

/-- The table in which an owner that is about to wait has given the queue up. -/
theorem giveUp_effect (h : Sound tb) (hq : tb.queue? q = some qs)
    (hr : (if qs.owner = some t then tb.releaseOwnership q else .ok tb) = .ok tb₁) :
    Effect tb
      { tb.links with
        owner := if tb.links.owner q = some t then Function.update tb.links.owner q none
          else tb.links.owner } tb₁ := by
  have hown : tb.links.owner q = qs.owner := by simp [links, hq]
  rw [hown]
  split at hr
  · rename_i ho
    rw [if_pos ho]
    exact (releaseOwnership_effect h hr).2
  · rename_i ho
    cases hr
    rw [if_neg ho]
    exact .unchanged h

/-- The thread still waits nowhere, and it does not own the queue. -/
theorem giveUp_ready (h : Sound tb) (hw : tb.waitingQueue t = none) (hq : tb.queue? q = some qs)
    (hr : (if qs.owner = some t then tb.releaseOwnership q else .ok tb) = .ok tb₁) :
    (tb₁.state t).waiting = none ∧ ∃ qs₁, tb₁.queue? q = some qs₁ ∧ qs₁.owner ≠ some t := by
  have he := giveUp_effect h hq hr
  have hw₁ : (tb₁.state t).waiting = tb.waitingQueue t :=
    congrFun (congrArg Links.waiting he.links) t
  have hex : (tb₁.queue? q).isSome := he.exists_queue rfl (by rw [hq]; rfl)
  obtain ⟨qs₁, hq₁⟩ := Option.isSome_iff_exists.1 hex
  refine ⟨hw₁.trans hw, qs₁, hq₁, ?_⟩
  have hl : tb₁.links.owner q = qs₁.owner := by simp [links, hq₁]
  rw [← hl, he.links]
  dsimp only
  split
  · simp
  · assumption

end GiveUp

/-- An owner gives the queue up before it waits. -/
theorem waitForAccess_cases {tb tb' : Table} {q : QueueId} {t : ThreadId}
    (hr : tb.waitForAccess q t = .ok tb') :
    ∃ qs tb₁ qs₁, tb.waitingQueue t = none ∧ tb.queue? q = some qs ∧
      (if qs.owner = some t then tb.releaseOwnership q else .ok tb) = .ok tb₁ ∧
      tb₁.queue? q = some qs₁ ∧ (enqueue q t tb₁).refreshOption qs₁.beneficiary = .ok tb' := by
  unfold waitForAccess at hr
  split at hr
  · cases hr
  · rename_i hw
    split at hr
    · cases hr
    · rename_i qs hq
      split at hr
      · cases hr
      · rename_i tb₁ hr₁
        simp only at hr
        split at hr
        · cases hr
        · rename_i qs₁ hq₁
          exact ⟨qs, tb₁, qs₁, hw, hq, hr₁, hq₁, hr⟩

theorem waitForAccess_effect {tb tb' : Table} {q : QueueId} {t : ThreadId} (h : Sound tb)
    (hr : tb.waitForAccess q t = .ok tb') :
    tb.links.waiting t = none ∧ (tb.queue? q).isSome ∧
      Effect tb
        { tb.links with
          waiting := Function.update tb.links.waiting t (some q)
          owner := if tb.links.owner q = some t then Function.update tb.links.owner q none
            else tb.links.owner } tb' := by
  obtain ⟨qs, tb₁, qs₁, hw, hq, hr₁, hq₁, hr⟩ := waitForAccess_cases hr
  have h₁ := giveUp_effect h hq hr₁
  obtain ⟨hw₁, qs₂, hq₂, ho₁⟩ := giveUp_ready h hw hq hr₁
  rw [hq₁] at hq₂
  cases hq₂
  have he := Effect.of_refresh (enqueue_linked h₁.sound.linked hw₁ hq₁ ho₁)
    (enqueue_owned h₁.sound.owned hq₁) (enqueue_settledBut h₁.sound hq₁)
    (enqueue_precedes hq₁) hr
  refine ⟨hw, by rw [hq]; rfl, he.sound, ?_, h₁.precedes.trans he.precedes⟩
  rw [he.links, enqueue_links hq₁, h₁.links]

end Table
end ThreadKernel
