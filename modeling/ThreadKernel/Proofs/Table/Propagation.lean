import ThreadKernel.Proofs.Table.Changes
import ThreadKernel.Proofs.Table.Faults

/-!
# ThreadKernel.Proofs.Table.Propagation

The walks that the operations of the table start, and how they end.

* `Table.Starts`      — an operation starts a walk at a thread, on a table with its new links.
* `exists_starts`, `Starts.fails` — an operation goes round exactly if one of its walks does.
* `Starts.ends`, `exists_apply` — operations that take away do not go round, whoever waits for whom.
* `Table.Bounded`     — a walk ends after few threads, or it entered a cycle.
* `reachable_bounded` — every walk does, and under strict priorities no walk goes round.
-/

namespace ThreadKernel.Table

open Relation

/-- The operation changes links and then walks from `t` on the given table. A queue that changes
hands is released first, which is a walk of its own. -/
inductive Starts : Table → Op → ThreadId → Table → Prop where
  | release {tb q qs o} (hq : tb.queue? q = some qs) (ho : qs.owner = some o) :
      Starts tb (.releaseOwnership q) o (disown q o tb)
  | destroy {tb q qs o} (hq : tb.queue? q = some qs) (ho : qs.owner = some o) :
      Starts tb (.destroyQueue q) o (dissolve q qs tb)
  | waitReleases {tb q qs t u tb₁} (hw : tb.waitingQueue t = none) (hq : tb.queue? q = some qs)
      (ho : qs.owner = some t) (h : Starts tb (.releaseOwnership q) u tb₁) :
      Starts tb (.waitForAccess q t) u tb₁
  | wait {tb q qs t tb₁ qs₁ o} (hw : tb.waitingQueue t = none) (hq : tb.queue? q = some qs)
      (hr : (if qs.owner = some t then tb.releaseOwnership q else .ok tb) = .ok tb₁)
      (hq₁ : tb₁.queue? q = some qs₁) (hb : qs₁.beneficiary = some o) :
      Starts tb (.waitForAccess q t) o (enqueue q t tb₁)
  | acquireReleases {tb q t u tb₁} (hw : (tb.waitingQueue t).filter (· ≠ q) = none)
      (h : Starts tb (.releaseOwnership q) u tb₁) : Starts tb (.acquire q t) u tb₁
  | acquire {tb q t tb₁} (hw : (tb.waitingQueue t).filter (· ≠ q) = none)
      (hr : tb.releaseOwnership q = .ok tb₁) :
      Starts tb (.acquire q t) t (seize q t (tb.waitingQueue t) tb₁)
  | nextReleases {tb q qs i g u tb₁} (hq : tb.queue? q = some qs)
      (hsel : tb.policy.select qs.waiters tb.random = .ok (i, g))
      (hnone : i.bind (fun i => qs.waiters.records[i]?) = none)
      (h : Starts { tb with random := g } (.releaseOwnership q) u tb₁) :
      Starts tb (.nextThread q) u tb₁
  | nextAcquires {tb q qs i g r u tb₁} (hq : tb.queue? q = some qs)
      (hsel : tb.policy.select qs.waiters tb.random = .ok (i, g))
      (hsome : i.bind (fun i => qs.waiters.records[i]?) = some r)
      (h : Starts { tb with random := g } (.acquire q r.thread) u tb₁) :
      Starts tb (.nextThread q) u tb₁
  | setPriority {tb t p} (hp : tb.policy.bounds.contains p = true) :
      Starts tb (.setPriority t p) t (tb.setThread t { tb.state t with base := p })
  | remove {tb t s o} (hs : tb.threads.get? t = some s)
      (hb : ((tb.state t).waiting.bind fun q => (tb.queue? q).bind QueueState.beneficiary) =
        some o) : Starts tb (.removeThread t) o (forget t tb)

variable {tb tb₁ : Table} {op : Op} {t : ThreadId}

/-! ## Where walks begin -/

theorem forget_knownOwned (h : Sound tb) : KnownOwned (forget t tb) := by
  intro q qs u hq ho hu
  rw [queue?_forget h.linked] at hq
  obtain ⟨qs₀, hq₀, rfl⟩ := Option.map_eq_some_iff.1 hq
  have hne : t ≠ u := by
    rintro rfl
    have habsent : (forget t tb).threads.get? t = none := by
      have he : (forget t tb).threads = tb.threads.erase t := by
        unfold forget
        split <;> rfl
      rw [he, KeyMap.get?_erase, if_pos rfl]
    rw [mem_known, habsent] at hu
    cases hu
  rw [state_forget, if_neg hne]
  exact h.owned hq₀ ho

/-- When a walk begins, all values but that of its first thread are right. -/
theorem Starts.walking (h : Starts tb op t tb₁) (hs : Sound tb) :
    Walking t tb₁ ∧ tb₁.policy = tb.policy := by
  induction h with
  | release hq ho =>
    exact ⟨⟨disown_linked hs.linked hq ho, disown_settledBut hs hq ho,
      Owned.knownOwned (disown_owned hs hq ho)⟩, policy_disown _ _ _⟩
  | destroy hq ho =>
    exact ⟨⟨dissolve_linked hs.linked hq, ho ▸ dissolve_settledBut hs hq,
      Owned.knownOwned (dissolve_owned hs hq)⟩, policy_dissolve _ _ _⟩
  | waitReleases _ _ _ _ ih => exact ih hs
  | wait hw hq hr hq₁ hb =>
    have he := giveUp_effect hs hq hr
    obtain ⟨hw₁, qs₁', hq₁', ho₁⟩ := giveUp_ready hs hw hq hr
    rw [hq₁] at hq₁'
    cases hq₁'
    exact ⟨⟨enqueue_linked he.sound.linked hw₁ hq₁ ho₁, hb ▸ enqueue_settledBut he.sound hq₁,
      Owned.knownOwned (enqueue_owned he.sound.owned hq₁)⟩, he.precedes.policy⟩
  | acquireReleases _ _ ih => exact ih hs
  | @acquire tb q t tb₁ hw hr =>
    obtain ⟨-, he⟩ := releaseOwnership_effect hs hr
    obtain ⟨qs₁, hq₁, ho₁⟩ := releaseOwnership_vacant hs hr
    have hw₁ : (tb₁.state t).waiting = tb.waitingQueue t :=
      congrFun (congrArg Links.waiting he.links) t
    exact ⟨⟨seize_linked he.sound.linked hw₁ (mayAcquire_iff.1 hw) hq₁ ho₁,
      seize_settledBut he.sound hw₁ hq₁ ho₁, Owned.knownOwned (seize_owned he.sound hw₁)⟩,
      he.precedes.policy⟩
  | nextReleases _ _ _ _ ih => exact ih (hs.withRandom _)
  | nextAcquires _ _ _ _ ih => exact ih (hs.withRandom _)
  | setPriority hp =>
    simp only [Bounds.contains, Bool.and_eq_true, decide_eq_true_eq] at hp
    exact ⟨⟨setBase_linked hs.linked, setBase_settledBut hs hp.2,
      Owned.knownOwned (setBase_owned hs.owned)⟩, rfl⟩
  | remove _ hb =>
    exact ⟨⟨forget_linked hs.linked, hb ▸ forget_settledBut hs, forget_knownOwned hs⟩,
      policy_forget _ _⟩

/-! ## Operations fail as their walks do -/

theorem Starts.fails {f : Fault} (h : Starts tb op t tb₁) (hr : tb₁.refresh t = .error f) :
    tb.apply op = .error f := by
  induction h with
  | release hq ho =>
    rw [apply, releaseOwnership, hq]
    dsimp only
    rw [ho]
    exact hr
  | destroy hq ho =>
    rw [apply, destroyQueue_eq hq, ho]
    exact hr
  | waitReleases hw hq ho _ ih =>
    have ih := ih hr
    simp only [apply] at ih
    simp only [apply, waitForAccess, hw, hq, ho, if_true, ih]
  | @wait tb q qs t tb₁ qs₁ o hw hq hr₁ hq₁ hb =>
    have hq₂ : ∀ (s : ThreadState) (n : Nat),
        Table.queue? { tb₁.setThread t s with arrivals := n } q = some qs₁ := fun _ _ => hq₁
    simp only [apply, waitForAccess, hw, hq, hr₁, hq₂, hb]
    exact hr
  | acquireReleases hw _ ih =>
    have ih := ih hr
    simp only [apply] at ih
    simp only [apply, Table.acquire, hw, ih]
  | acquire hw hr₁ =>
    simp only [apply, Table.acquire, hw, hr₁]
    exact hr
  | nextReleases hq hsel hnone _ ih =>
    have ih := ih hr
    simp only [apply] at ih
    simp only [apply, nextThread, hq, hsel, hnone, ih]
    rfl
  | nextAcquires hq hsel hsome _ ih =>
    have ih := ih hr
    simp only [apply] at ih
    simp only [apply, nextThread, hq, hsel, hsome, ih]
    rfl
  | setPriority hp =>
    rw [apply, Table.setPriority, if_pos hp]
    exact hr
  | remove hs hb =>
    rw [apply, removeThread_eq hs, hb]
    show Except.map _ (refresh _ _) = _
    rw [hr]
    rfl

/-- An operation goes round only in a walk. -/
def GoesRound (tb : Table) (op : Op) (x : ThreadId) : Prop :=
  ∃ t tb₁, Starts tb op t tb₁ ∧ tb₁.refresh t = .error (.ownershipCycle x)

section Round

variable {q : QueueId} {x : ThreadId}

theorem releaseOwnership_round (hr : tb.releaseOwnership q = .error (.ownershipCycle x)) :
    GoesRound tb (.releaseOwnership q) x := by
  unfold releaseOwnership at hr
  split at hr
  · cases hr
  · rename_i qs hq
    split at hr
    · cases hr
    · rename_i o ho
      exact ⟨o, _, .release hq ho, hr⟩

theorem destroyQueue_round (hr : tb.destroyQueue q = .error (.ownershipCycle x)) :
    GoesRound tb (.destroyQueue q) x := by
  cases hq : tb.queue? q with
  | none =>
    rw [destroyQueue, hq] at hr
    cases hr
  | some qs =>
    rw [destroyQueue_eq hq] at hr
    cases ho : qs.owner with
    | none =>
      rw [ho] at hr
      cases hr
    | some o =>
      rw [ho] at hr
      exact ⟨o, _, .destroy hq ho, hr⟩

theorem waitForAccess_round (hr : tb.waitForAccess q t = .error (.ownershipCycle x)) :
    GoesRound tb (.waitForAccess q t) x := by
  unfold waitForAccess at hr
  split at hr
  · cases hr
  · rename_i hw
    split at hr
    · cases hr
    · rename_i qs hq
      split at hr
      · rename_i hr₁
        cases hr
        split at hr₁
        · rename_i ho
          obtain ⟨u, tb₁, hst, hu⟩ := releaseOwnership_round hr₁
          exact ⟨u, tb₁, .waitReleases hw hq ho hst, hu⟩
        · cases hr₁
      · rename_i tb₁ hr₁
        simp only at hr
        split at hr
        · cases hr
        · rename_i qs₁ hq₁
          cases hb : qs₁.beneficiary with
          | none =>
            rw [hb] at hr
            cases hr
          | some o =>
            rw [hb] at hr
            exact ⟨o, _, .wait hw hq hr₁ hq₁ hb, hr⟩

theorem acquire_round (hr : tb.acquire q t = .error (.ownershipCycle x)) :
    GoesRound tb (.acquire q t) x := by
  simp only [Table.acquire] at hr
  split at hr
  · cases hr
  · rename_i hw
    split at hr
    · rename_i hr₁
      cases hr
      obtain ⟨u, tb₁, hst, hu⟩ := releaseOwnership_round hr₁
      exact ⟨u, tb₁, .acquireReleases hw hst, hu⟩
    · rename_i tb₁ hr₁
      exact ⟨t, _, .acquire hw hr₁, hr⟩

/-- A selection on a sound table does not fail, so the failure is that of the new owner's walk or of
the old one's. -/
theorem nextThread_round (h : Sound tb) (hr : tb.nextThread q = .error (.ownershipCycle x)) :
    GoesRound tb (.nextThread q) x := by
  unfold nextThread at hr
  split at hr
  · cases hr
  · rename_i qs hq
    obtain ⟨⟨i, g⟩, hsel⟩ := exists_select (h.linked.ranked hq) tb.random
    simp only [hsel] at hr
    split at hr
    · rename_i hnone
      split at hr
      · rename_i hr₁
        cases hr
        obtain ⟨u, tb₁, hst, hu⟩ := releaseOwnership_round hr₁
        exact ⟨u, tb₁, .nextReleases hq hsel hnone hst, hu⟩
      · cases hr
    · rename_i r hsome
      split at hr
      · rename_i hr₁
        cases hr
        obtain ⟨u, tb₁, hst, hu⟩ := acquire_round hr₁
        exact ⟨u, tb₁, .nextAcquires hq hsel hsome hst, hu⟩
      · cases hr

theorem setPriority_round {p : Nat} (hr : tb.setPriority t p = .error (.ownershipCycle x)) :
    GoesRound tb (.setPriority t p) x := by
  simp only [Table.setPriority] at hr
  split at hr
  · rename_i hp
    exact ⟨t, _, .setPriority hp, hr⟩
  · cases hr

theorem removeThread_round (hr : tb.removeThread t = .error (.ownershipCycle x)) :
    GoesRound tb (.removeThread t) x := by
  cases hs : tb.threads.get? t with
  | none =>
    rw [removeThread, hs] at hr
    cases hr
  | some s =>
    rw [removeThread_eq hs] at hr
    cases hb : ((tb.state t).waiting.bind fun q => (tb.queue? q).bind QueueState.beneficiary) with
    | none =>
      rw [hb] at hr
      cases hr
    | some o =>
      rw [hb] at hr
      refine ⟨o, _, .remove hs hb, ?_⟩
      cases hw : (forget t tb).refresh o with
      | error e =>
        simp only [refreshOption, hw] at hr
        cases hr
        rfl
      | ok tb₁ =>
        simp only [refreshOption, hw] at hr
        cases hr

theorem exists_starts (h : Sound tb) (hr : tb.apply op = .error (.ownershipCycle x)) :
    GoesRound tb op x := by
  cases op with
  | createQueue transfer => cases hr
  | destroyQueue q => exact destroyQueue_round hr
  | waitForAccess q t => exact waitForAccess_round hr
  | acquire q t => exact acquire_round hr
  | nextThread q =>
    refine nextThread_round h ?_
    cases hn : tb.nextThread q with
    | error e =>
      rw [apply, hn] at hr
      cases hr
      rfl
    | ok y =>
      rw [apply, hn] at hr
      cases hr
  | releaseOwnership q => exact releaseOwnership_round hr
  | setPriority t p => exact setPriority_round hr
  | removeThread t => exact removeThread_round hr

end Round

/-! ## Operations that take away -/

section Withdrawal

variable {q : QueueId} {qs : QueueState}

theorem disown_falling (h : Sound tb) (hq : tb.queue? q = some qs) (ho : qs.owner = some t) :
    Falling t (disown q t tb) := by
  have hst := state_disown h.linked hq ho t
  have hgives : GivesLess tb (disown q t tb) := by
    intro r rs' hr'
    rw [queue?_disown] at hr'
    split at hr'
    · obtain ⟨rs, hrs, rfl⟩ := Option.map_eq_some_iff.1 hr'
      exact ⟨rs, hrs, rfl, Nat.le_refl _⟩
    · exact ⟨rs', hr', rfl, Nat.le_refl _⟩
  exact hgives.falling h ((Starts.release hq ho).walking h).1 (policy_disown _ _ _)
    (by rw [priority, hst]; rfl) (by rw [effective, hst]; rfl)
    (by rw [hst]; exact List.filter_sublist)

theorem dissolve_falling (h : Sound tb) (hq : tb.queue? q = some qs) (ho : qs.owner = some t) :
    Falling t (dissolve q qs tb) := by
  have hst := state_dissolve h.linked hq t
  have hgives : GivesLess tb (dissolve q qs tb) := by
    intro r rs' hr'
    rw [queue?_dissolve] at hr'
    split at hr'
    · cases hr'
    · exact ⟨rs', hr', rfl, Nat.le_refl _⟩
  exact hgives.falling h ((Starts.destroy hq ho).walking h).1 (policy_dissolve _ _ _)
    (by rw [priority, hst]; rfl) (by rw [effective, hst]; rfl)
    (by rw [hst]; exact List.filter_sublist)

theorem forget_falling {s : ThreadState} {o : ThreadId} (h : Sound tb)
    (hs : tb.threads.get? t = some s)
    (hb : ((tb.state t).waiting.bind fun q => (tb.queue? q).bind QueueState.beneficiary) =
      some o) : Falling o (forget t tb) := by
  have hne : t ≠ o := by
    rintro rfl
    obtain ⟨q, hw, hb⟩ := Option.bind_eq_some_iff.1 hb
    obtain ⟨qs, hq, hb⟩ := Option.bind_eq_some_iff.1 hb
    have ho : qs.owner = some t := by
      unfold QueueState.beneficiary at hb
      split at hb
      · exact hb
      · cases hb
    obtain ⟨qs', hq', hm⟩ := h.linked.waiting_iff.1 hw
    rw [hq] at hq'
    cases hq'
    exact h.linked.owner_elsewhere hq ho hm
  have hst := state_forget t o tb
  rw [if_neg hne] at hst
  have hgives : GivesLess tb (forget t tb) := by
    intro q qs' hq'
    rw [queue?_forget h.linked] at hq'
    obtain ⟨qs, hq, rfl⟩ := Option.map_eq_some_iff.1 hq'
    exact ⟨qs, hq, rfl, Policy.donation_without_le (h.linked.ranked hq) t⟩
  exact hgives.falling h ((Starts.remove hs hb).walking h).1 (policy_forget _ _)
    (congrArg ThreadState.base hst) (congrArg ThreadState.effective hst) (by rw [hst])

/-- A walk from a thread that waits nowhere ends there. -/
theorem refresh_ends_of_root (h : Linked tb) (hw : tb.waitingQueue t = none) :
    ∃ tb', tb.refresh t = .ok tb' := by
  refine refresh_ends_of_no_cycle h ?_
  rintro ⟨u, htu, huu⟩
  rcases ReflTransGen.cases_head htu with rfl | ⟨v, hd, -⟩
  · obtain ⟨v, hd, -⟩ := TransGen.head'_iff.1 huu
    exact not_donates hw hd
  · exact not_donates hw hd

/-- The operation takes a queue or a thread from others, or passes a queue to somebody who waited
on it and waits nowhere then. -/
def Op.Withdraws : Op → Prop
  | .releaseOwnership _ | .destroyQueue _ | .nextThread _ | .removeThread _ => True
  | .createQueue _ | .waitForAccess _ _ | .acquire _ _ | .setPriority _ _ => False

theorem Starts.ends (h : Starts tb op t tb₁) (hs : Sound tb) (hop : op.Withdraws) :
    ∃ tb', tb₁.refresh t = .ok tb' := by
  have hrelease : ∀ {tb : Table} {q : QueueId}, Sound tb → Starts tb (.releaseOwnership q) t tb₁ →
      Falling t tb₁ := by
    intro tb q hs h
    cases h with
    | release hq ho => exact disown_falling hs hq ho
  have hwalking := (h.walking hs).1
  cases h with
  | release hq ho => exact refresh_ends_of_falling (disown_falling hs hq ho)
  | destroy hq ho => exact refresh_ends_of_falling (dissolve_falling hs hq ho)
  | nextReleases _ _ _ h => exact refresh_ends_of_falling (hrelease (hs.withRandom _) h)
  | nextAcquires _ _ _ h =>
    cases h with
    | acquireReleases _ h => exact refresh_ends_of_falling (hrelease (hs.withRandom _) h)
    | acquire =>
      refine refresh_ends_of_root hwalking.linked ?_
      rw [waitingQueue, state_seize, if_pos rfl]
  | remove hst hb => exact refresh_ends_of_falling (forget_falling hs hst hb)
  | waitReleases | wait | acquireReleases | acquire | setPriority => cases hop

theorem exists_apply (h : Sound tb) (hop : op.Withdraws)
    (hc : ∀ f, tb.apply op = .error f → f.Cyclic) : ∃ tb', tb.apply op = .ok tb' := by
  cases ha : tb.apply op with
  | ok tb' => exact ⟨tb', rfl⟩
  | error f =>
    obtain ⟨x, rfl⟩ := hc f ha
    obtain ⟨t, tb₁, hst, hround⟩ := exists_starts h ha
    obtain ⟨tb', hok⟩ := hst.ends h hop
    exact nomatch hround.symm.trans hok

theorem exists_releaseOwnership (h : Sound tb) (hq : (tb.queue? q).isSome) :
    ∃ tb', tb.releaseOwnership q = .ok tb' :=
  exists_apply h (show Op.Withdraws (.releaseOwnership q) from trivial)
    fun _ => releaseOwnership_cyclic h hq

theorem exists_destroyQueue (h : Sound tb) (q : QueueId) : ∃ tb', tb.destroyQueue q = .ok tb' :=
  exists_apply h (show Op.Withdraws (.destroyQueue q) from trivial) fun _ => destroyQueue_cyclic h

theorem exists_removeThread (h : Sound tb) (t : ThreadId) : ∃ tb', tb.removeThread t = .ok tb' :=
  exists_apply h (show Op.Withdraws (.removeThread t) from trivial) fun _ => removeThread_cyclic h

/-- A queue can always be passed on, whoever waits for whom. -/
theorem exists_nextThread (h : Sound tb) (hq : (tb.queue? q).isSome) :
    ∃ x, tb.nextThread q = .ok x := by
  cases hn : tb.nextThread q with
  | ok x => exact ⟨x, rfl⟩
  | error f =>
    have hfail : tb.apply (.nextThread q) = .error f := by
      rw [apply, hn]
      rfl
    obtain ⟨tb', hok⟩ := exists_apply h (show Op.Withdraws (.nextThread q) from trivial)
      fun f' hf' => by
        cases hf'.symm.trans hfail
        exact nextThread_cyclic h hq hn
    cases hfail.symm.trans hok

end Withdrawal

/-! ## Every walk -/

/-- The walk from `t` looks at few threads along the donations. It ends normally, or goes round
because the donations lead from `t` into a cycle; under strict priorities not even then. -/
structure Bounded (t : ThreadId) (tb : Table) : Prop where
  /-- It is given up only after a thread more than there are states. -/
  walk : Walked (tb.threads.size + 1) t tb (examined t tb) (tb.refresh t)
  few : (examined t tb).length ≤ tb.threads.size + 1
  along : (examined t tb).IsChain tb.Donates ∧ (examined t tb).head? = some t
  ends : (∃ tb', tb.refresh t = .ok tb') ∨ ∃ x, tb.refresh t = .error (.ownershipCycle x)
  cycle : ∀ x, tb.refresh t = .error (.ownershipCycle x) → tb.EntersCycle t
  acyclic : tb.Acyclic → ∃ tb', tb.refresh t = .ok tb'
  priority : tb.policy = .priority → ∃ tb', tb.refresh t = .ok tb'

theorem Walking.bounded (h : Walking t tb) : Bounded t tb where
  walk := refreshWithin_walked _ h.linked
  few := examinedWithin_length_le _ _ _
  along := ⟨examinedWithin_chain _, head?_examinedWithin _ _ _⟩
  ends := by
    cases hr : tb.refresh t with
    | ok tb' => exact .inl ⟨tb', rfl⟩
    | error f =>
      obtain ⟨x, rfl⟩ := refresh_cyclic h.linked hr
      exact .inr ⟨x, rfl⟩
  cycle x hr := by
    by_contra hc
    obtain ⟨tb', hok⟩ := refresh_ends_of_no_cycle h.linked hc
    rw [hr] at hok
    cases hok
  acyclic hac := refresh_ends_of_no_cycle h.linked fun ⟨u, _, hu⟩ => hac u hu
  priority := refresh_ends_of_priority h

/-- Whatever waits for whatever, the walks of every operation are bounded, and they alone make it go
round. -/
theorem reachable_bounded {p : Policy} (h : Reachable p tb) (op : Op) :
    (∀ t tb₁, Starts tb op t tb₁ → tb₁.policy = p ∧ Bounded t tb₁) ∧
      (∀ x, tb.apply op = .error (.ownershipCycle x) ↔
        ∃ t tb₁, Starts tb op t tb₁ ∧ tb₁.refresh t = .error (.ownershipCycle x)) ∧
      (p = .priority → ∀ x, tb.apply op ≠ .error (.ownershipCycle x)) := by
  obtain ⟨hp, hs⟩ := h.sound
  have hwalks : ∀ t tb₁, Starts tb op t tb₁ → tb₁.policy = p ∧ Bounded t tb₁ := by
    intro t tb₁ hst
    obtain ⟨hw, hp₁⟩ := hst.walking hs
    exact ⟨hp₁.trans hp, hw.bounded⟩
  refine ⟨hwalks, fun x => ⟨exists_starts hs, fun ⟨t, tb₁, hst, hr⟩ => hst.fails hr⟩,
    fun hpr x hr => ?_⟩
  obtain ⟨t, tb₁, hst, hx⟩ := exists_starts hs hr
  obtain ⟨hp₁, hb⟩ := hwalks t tb₁ hst
  obtain ⟨tb', hok⟩ := hb.priority (hp₁.trans hpr)
  rw [hx] at hok
  cases hok

/-- Under the lottery the second wait closes the cycle, and the sums would grow for ever. There are
states of two threads, so the walk is given up at the third one. -/
theorem reachable_bounded_crossed : ∃ tb,
    Reachable .lottery tb ∧
    tb.apply (.waitForAccess ⟨0⟩ ⟨2⟩) = .error (.ownershipCycle ⟨2⟩) ∧
    Starts tb (.waitForAccess ⟨0⟩ ⟨2⟩) ⟨1⟩ (enqueue ⟨0⟩ ⟨2⟩ tb) ∧
    examined ⟨1⟩ (enqueue ⟨0⟩ ⟨2⟩ tb) = [⟨1⟩, ⟨2⟩, ⟨1⟩] ∧
    (∀ t tb₁, Starts tb (.waitForAccess ⟨0⟩ ⟨2⟩) t tb₁ → tb₁.policy = .lottery ∧ Bounded t tb₁) ∧
    (∀ x, tb.apply (.waitForAccess ⟨0⟩ ⟨2⟩) = .error (.ownershipCycle x) ↔
      ∃ t tb₁, Starts tb (.waitForAccess ⟨0⟩ ⟨2⟩) t tb₁ ∧
        tb₁.refresh t = .error (.ownershipCycle x)) ∧
    (Policy.lottery = .priority →
      ∀ x, tb.apply (.waitForAccess ⟨0⟩ ⟨2⟩) ≠ .error (.ownershipCycle x)) := by
  have hrun : (ofOps .lottery .counting crossedOps.dropLast).toOption.any (fun tb =>
      (tb.apply (.waitForAccess ⟨0⟩ ⟨2⟩)).map (fun _ => ()) = .error (.ownershipCycle ⟨2⟩) ∧
        tb.waitingQueue ⟨2⟩ = none ∧ tb.queue? ⟨0⟩ = some ⟨true, some ⟨1⟩, ∅⟩ ∧
        examined ⟨1⟩ (enqueue ⟨0⟩ ⟨2⟩ tb) = [⟨1⟩, ⟨2⟩, ⟨1⟩]) = true := by
    decide +kernel
  obtain ⟨tb, hr, hrun⟩ := exists_reachable hrun
  obtain ⟨hf, hw, hq, hexamined⟩ := of_decide_eq_true hrun
  have hst : Starts tb (.waitForAccess ⟨0⟩ ⟨2⟩) ⟨1⟩ (enqueue ⟨0⟩ ⟨2⟩ tb) :=
    .wait hw hq rfl hq rfl
  cases ha : tb.apply (.waitForAccess ⟨0⟩ ⟨2⟩) with
  | ok tb' =>
    rw [ha] at hf
    cases hf
  | error f =>
    rw [ha] at hf
    cases hf
    exact ⟨tb, hr, ha, hst, hexamined, reachable_bounded hr (.waitForAccess ⟨0⟩ ⟨2⟩)⟩

end ThreadKernel.Table
