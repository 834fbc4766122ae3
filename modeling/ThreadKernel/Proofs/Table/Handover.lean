import ThreadKernel.Proofs.Lottery
import ThreadKernel.Proofs.Table.Enqueue

/-!
# ThreadKernel.Proofs.Table.Handover

A thread that becomes the owner of a queue.

* `Table.seize`        — the change of links: a queue without owner gets one, who stops waiting.
* `acquire_effect`     — the former owner, if any, loses the queue before.
* `nextThread_effect`  — the new owner is the waiter that the policy selects.
* `acquire_cases`, `nextThread_cases` — what a call that succeeds does, one step after the other.
-/

namespace ThreadKernel

theorem WaitSet.mem_threads_without {s : WaitSet} {t u : ThreadId} (hn : s.threads.Nodup) :
    u ∈ (s.without t).threads ↔ u ∈ s.threads ∧ u ≠ t := by
  simp only [mem_threads, mem_without hn]
  constructor
  · rintro ⟨r, ⟨hr, hne⟩, rfl⟩
    exact ⟨⟨r, hr, rfl⟩, hne⟩
  · rintro ⟨⟨r, hr, rfl⟩, hne⟩
    exact ⟨r, ⟨hr, hne⟩, rfl⟩

namespace Table

/-- The queue `q` passes to `t`, which stops waiting. -/
def seize (q : QueueId) (t : ThreadId) (waiting : Option QueueId) (tb : Table) : Table :=
  (tb.modifyQueue q fun qs =>
    { qs with
      owner := some t
      waiters := if waiting = some q then qs.waiters.without t else qs.waiters }).setThread t
    { tb.state t with waiting := none, acquired := (tb.state t).acquired ++ [q] }

theorem state_seize (q : QueueId) (t u : ThreadId) (waiting : Option QueueId) (tb : Table) :
    (seize q t waiting tb).state u =
      if t = u then { tb.state u with waiting := none, acquired := (tb.state u).acquired ++ [q] }
      else tb.state u := by
  rw [seize, state_setThread, state_modifyQueue]
  split
  · rename_i h; rw [h]
  · rfl

@[simp] theorem policy_seize (q : QueueId) (t : ThreadId) (waiting : Option QueueId) (tb : Table) :
    (seize q t waiting tb).policy = tb.policy := rfl

section Seize

variable {q : QueueId} {t : ThreadId} {waiting : Option QueueId} {tb : Table} {qs : QueueState}

/-- A thread that does not wait on `q` has no record there, so the record goes in any case. -/
theorem queue?_seize (h : Linked tb) (hw : (tb.state t).waiting = waiting) (r : QueueId) :
    (seize q t waiting tb).queue? r =
      if q = r then (tb.queue? r).map fun qs =>
        { qs with owner := some t, waiters := qs.waiters.without t }
      else tb.queue? r := by
  rw [seize, queue?_setThread, queue?_modifyQueue]
  split
  · rename_i hqr
    subst hqr
    cases hq : tb.queue? q with
    | none => rfl
    | some qs =>
      by_cases hwq : waiting = some q
      · simp only [hwq, if_true, Option.map]
      · have hout : t ∉ qs.waiters.threads := fun ht =>
          hwq (hw.symm.trans (h.waiting_iff.2 ⟨qs, hq, ht⟩))
        simp only [hwq, if_false, Option.map, WaitSet.without_of_notMem hout]
  · rfl

/-- Every record after the change was in the same queue before. -/
theorem record_seize (h : Linked tb) (hw : (tb.state t).waiting = waiting) {r : QueueId}
    {rs : QueueState} {x : WaitRecord} (hr : (seize q t waiting tb).queue? r = some rs)
    (hx : x ∈ rs.waiters.records) : ∃ rs₀, tb.queue? r = some rs₀ ∧ x ∈ rs₀.waiters.records := by
  rw [queue?_seize h hw] at hr
  split at hr
  · rename_i hqr
    obtain ⟨rs₀, hr₀, rfl⟩ := Option.map_eq_some_iff.1 hr
    exact ⟨rs₀, hr₀, ((WaitSet.mem_without (h.threads_nodup hr₀)).1 hx).1⟩
  · exact ⟨rs, hr, hx⟩

theorem seize_linked (h : Linked tb) (hw : (tb.state t).waiting = waiting)
    (hwq : waiting = none ∨ waiting = some q) (hq : tb.queue? q = some qs)
    (ho : qs.owner = none) : Linked (seize q t waiting tb) := by
  have hfree : ∀ u, q ∉ (tb.state u).acquired := by
    intro u hu
    have := acquired_by_owner h hq hu
    rw [ho] at this
    cases this
  constructor
  · intro r rs hr
    rw [queue?_seize h hw] at hr
    rw [policy_seize]
    split at hr
    · obtain ⟨rs₀, hr₀, rfl⟩ := Option.map_eq_some_iff.1 hr
      exact (h.ranked hr₀).without t
    · exact h.ranked hr
  · intro r rs hr
    rw [queue?_seize h hw] at hr
    split at hr
    · obtain ⟨rs₀, hr₀, rfl⟩ := Option.map_eq_some_iff.1 hr
      exact WaitSet.nodup_without (h.threads_nodup hr₀)
    · exact h.threads_nodup hr
  · intro u r
    rw [state_seize, queue?_seize h hw]
    have hiff := @h.waiting_iff u r
    have hmem := @WaitSet.mem_threads_without qs.waiters t u (h.threads_nodup hq)
    grind
  · intro u r hr
    rw [state_seize] at hr
    rw [queue?_seize h hw]
    have hacq := @h.owner_of_acquired u r
    have := hfree u
    grind
  · intro u
    rw [state_seize]
    split
    · refine List.nodup_append.2 ⟨h.acquired_nodup u, List.pairwise_singleton _ q, ?_⟩
      rintro r hr r' hr' rfl
      rw [List.mem_singleton.1 hr'] at hr
      exact hfree u hr
    · exact h.acquired_nodup u
  · intro r rs u hr hown
    rw [queue?_seize h hw] at hr
    split at hr
    · obtain ⟨rs₀, hr₀, rfl⟩ := Option.map_eq_some_iff.1 hr
      cases hown
      rw [WaitSet.mem_threads_without (h.threads_nodup hr₀)]
      exact fun hm => hm.2 rfl
    · exact h.owner_elsewhere hr hown
  · intro r rs x hr hx
    obtain ⟨rs₀, hr₀, hx₀⟩ := record_seize h hw hr hx
    exact h.arrival_lt hr₀ hx₀
  · intro r r' rs rs' x x' hr hr' hx hx' heq
    obtain ⟨rs₀, hr₀, hx₀⟩ := record_seize h hw hr hx
    obtain ⟨rs₁, hr₁, hx₁⟩ := record_seize h hw hr' hx'
    exact h.arrival_inj hr₀ hr₁ hx₀ hx₁ heq

theorem seize_owned (h : Sound tb) (hw : (tb.state t).waiting = waiting) :
    Owned (seize q t waiting tb) := by
  intro r rs u hr hown
  rw [queue?_seize h.linked hw] at hr
  rw [state_seize]
  split at hr
  · rename_i hqr
    obtain ⟨rs₀, hr₀, rfl⟩ := Option.map_eq_some_iff.1 hr
    cases hown
    simp [hqr]
  · have hold := h.owned hr hown
    split
    · exact List.mem_append_left _ hold
    · exact hold

/-- Only the new owner may have a wrong value. -/
theorem seize_settledBut (h : Sound tb) (hw : (tb.state t).waiting = waiting)
    (hq : tb.queue? q = some qs) (ho : qs.owner = none) :
    SettledBut (some t) (seize q t waiting tb) where
  weight {r rs x} hr hx := by
    obtain ⟨rs₀, hr₀, hx₀⟩ := record_seize h.linked hw hr hx
    rw [h.settled.weight hr₀ hx₀, state_seize]
    split <;> rfl
  base_le u := by
    rw [state_seize]
    split <;> exact h.settled.base_le u
  effective_le u := by
    rw [state_seize]
    split <;> exact h.settled.effective_le u
  value u hu := by
    have hne : t ≠ u := fun e => hu (congrArg some e)
    have hst : (seize q t waiting tb).state u = tb.state u := by rw [state_seize, if_neg hne]
    have hd : (seize q t waiting tb).donatedValue u = tb.donatedValue u := by
      refine donatedValue_congr rfl (by rw [hst]) (by rw [hst]) fun r hr => ?_
      have hqr : q ≠ r := by
        rintro rfl
        have := acquired_by_owner h.linked hq hr
        rw [ho] at this
        cases this
      simp only [gift, queue?_seize h.linked hw, policy_seize, if_neg hqr]
    rw [hd, h.settled.value u (by simp), hst]

theorem seize_links (h : Linked tb) (hw : (tb.state t).waiting = waiting)
    (hq : tb.queue? q = some qs) :
    (seize q t waiting tb).links =
      { tb.links with
        waiting := Function.update tb.links.waiting t none
        owner := Function.update tb.links.owner q (some t) } := by
  ext r : 2
  · simp only [links, state_seize]
    split <;> rfl
  · simp only [links, state_seize, Function.update_apply, eq_comm (a := r)]
    split <;> rfl
  · simp only [links, queue?_seize h hw, Function.update_apply, eq_comm (a := r)]
    split
    · rename_i hqr
      simp [← hqr, hq]
    · rfl
  · simp only [links, queue?_seize h hw]
    split
    · rename_i hqr
      simp [← hqr, hq]
    · rfl

theorem seize_precedes (h : Linked tb) (hw : (tb.state t).waiting = waiting) :
    Precedes tb (seize q t waiting tb) := by
  refine ⟨rfl, Nat.le_refl _, ?_⟩
  rintro r u a ⟨rs, hr, hm⟩
  obtain ⟨x, hx, ht, ha⟩ := WaitSet.mem_entries.1 hm
  obtain ⟨rs₀, hr₀, hx₀⟩ := record_seize h hw hr hx
  exact .inl ⟨rs₀, hr₀, WaitSet.mem_entries.2 ⟨x, hx₀, ht, ha⟩⟩

end Seize

/-- A thread may become the owner if it waits nowhere or on the queue itself. -/
theorem mayAcquire_iff {q : QueueId} {waiting : Option QueueId} :
    waiting.filter (· ≠ q) = none ↔ waiting = none ∨ waiting = some q := by
  cases waiting with
  | none => simp
  | some r => by_cases hrq : r = q <;> simp [Option.filter, hrq]

/-- The queue loses its owner before it gets the new one. -/
theorem acquire_cases {tb tb' : Table} {q : QueueId} {t : ThreadId}
    (hr : tb.acquire q t = .ok tb') :
    (tb.waitingQueue t = none ∨ tb.waitingQueue t = some q) ∧
      ∃ tb₁, tb.releaseOwnership q = .ok tb₁ ∧
        (seize q t (tb.waitingQueue t) tb₁).refreshOption (some t) = .ok tb' := by
  simp only [acquire] at hr
  split at hr
  · cases hr
  · rename_i hf
    split at hr
    · cases hr
    · rename_i tb₁ hr₁
      exact ⟨mayAcquire_iff.1 hf, tb₁, hr₁, hr⟩

theorem acquire_effect {tb tb' : Table} {q : QueueId} {t : ThreadId} (h : Sound tb)
    (hr : tb.acquire q t = .ok tb') :
    (tb.links.waiting t = none ∨ tb.links.waiting t = some q) ∧ (tb.queue? q).isSome ∧
      Effect tb
        { tb.links with
          waiting := Function.update tb.links.waiting t none
          owner := Function.update tb.links.owner q (some t) } tb' := by
  obtain ⟨hwq, tb₁, hr₁, hr⟩ := acquire_cases hr
  obtain ⟨hex, h₁⟩ := releaseOwnership_effect h hr₁
  have hw₁ : (tb₁.state t).waiting = tb.waitingQueue t :=
    congrFun (congrArg Links.waiting h₁.links) t
  obtain ⟨qs, hq₁, ho₁⟩ := releaseOwnership_vacant h hr₁
  have he := Effect.of_refresh (seize_linked h₁.sound.linked hw₁ hwq hq₁ ho₁)
    (seize_owned h₁.sound hw₁) (seize_settledBut h₁.sound hw₁ hq₁ ho₁)
    (seize_precedes h₁.sound.linked hw₁) hr
  refine ⟨hwq, hex, he.sound, ?_, h₁.precedes.trans he.precedes⟩
  rw [he.links, seize_links h₁.sound.linked hw₁ hq₁, h₁.links, Function.update_idem]

/-! ## The next thread -/

/-- A selection finds nobody only in an empty set. Strict priorities take the first record, and
leave the random source alone. -/
theorem select_cases {p : Policy} {s : WaitSet} {g g' : Random} {i : Option Nat}
    (h : p.select s g = .ok (i, g')) :
    (p = .priority → g' = g) ∧ (i = none ∧ s.records = [] ∨
      ∃ n, i = some n ∧ n < s.records.length ∧ (p = .priority → n = 0)) := by
  unfold Policy.select at h
  split at h
  · rename_i he
    cases h
    exact ⟨fun _ => rfl, .inl ⟨rfl, he⟩⟩
  · rename_i r rest he
    rw [he]
    split at h
    · cases h
      exact ⟨fun _ => rfl, .inr ⟨0, rfl, Nat.succ_pos _, fun _ => rfl⟩⟩
    · simp only at h
      split at h
      · rename_i n hn
        cases h
        rw [he] at hn
        exact ⟨nofun, .inr ⟨n, rfl, (ticketHolder_eq_some_iff.1 hn).1, nofun⟩⟩
      · cases h

theorem Sound.withRandom {tb : Table} (h : Sound tb) (g : Random) :
    Sound { tb with random := g } := by
  have hsame : SameLinks tb { tb with random := g } :=
    ⟨rfl, rfl, fun t => ⟨(tb.state t).effective, rfl⟩, fun h => h, fun h => ⟨_, h, .refl _⟩⟩
  refine ⟨hsame.linked h.linked fun hq => h.linked.ranked hq, hsame.owned h.owned, ?_⟩
  refine ⟨fun hq hr => h.settled.weight hq hr, h.settled.base_le, h.settled.effective_le,
    fun t ht => ?_⟩
  have hd : Table.donatedValue { tb with random := g } t = tb.donatedValue t :=
    donatedValue_congr rfl rfl rfl fun _ _ => rfl
  rw [hd]
  exact h.settled.value t ht

/-- Nobody is served only if nobody waits, and then the owner is revoked all the same. -/
theorem nextThread_cases {tb tb' : Table} {q : QueueId} {served : Option ThreadId}
    (hr : tb.nextThread q = .ok (served, tb')) :
    ∃ qs g, tb.queue? q = some qs ∧ (tb.policy = .priority → g = tb.random) ∧
      (served = none ∧ qs.waiters.records = [] ∧
          { tb with random := g }.releaseOwnership q = .ok tb' ∨
        ∃ x ∈ qs.waiters.records, served = some x.thread ∧
          (tb.policy = .priority → qs.waiters.records.head? = some x) ∧
          { tb with random := g }.acquire q x.thread = .ok tb') := by
  unfold nextThread at hr
  split at hr
  · cases hr
  · rename_i qs hq
    split at hr
    · cases hr
    · rename_i i g hsel
      obtain ⟨hrandom, hselected⟩ := select_cases hsel
      refine ⟨qs, g, hq, hrandom, ?_⟩
      simp only at hr
      split at hr
      · rename_i hnone
        split at hr
        · cases hr
        · rename_i hr₁
          cases hr
          rcases hselected with ⟨-, hnil⟩ | ⟨n, rfl, hn, -⟩
          · exact .inl ⟨rfl, hnil, hr₁⟩
          · rw [Option.bind_some, List.getElem?_eq_getElem hn] at hnone
            cases hnone
      · rename_i x hsome
        obtain ⟨n, rfl, hn⟩ := Option.bind_eq_some_iff.1 hsome
        split at hr
        · cases hr
        · rename_i hr₁
          cases hr
          refine .inr ⟨x, List.mem_of_getElem? hn, rfl, fun hp => ?_, hr₁⟩
          rcases hselected with ⟨hnone, -⟩ | ⟨m, hm, -, h0⟩
          · cases hnone
          · cases hm
            rw [h0 hp] at hn
            rw [List.head?_eq_getElem?, hn]

theorem nextThread_effect {tb tb' : Table} {q : QueueId} {served : Option ThreadId} (h : Sound tb)
    (hr : tb.nextThread q = .ok (served, tb')) :
    ∃ qs, tb.queue? q = some qs ∧
      (served = none ∧ qs.waiters.records = [] ∧
          Effect tb { tb.links with owner := Function.update tb.links.owner q none } tb' ∨
        ∃ r, served = some r.thread ∧ r ∈ qs.waiters.records ∧
          (tb.policy = .priority → qs.waiters.records.head? = some r) ∧
          Effect tb
            { tb.links with
              waiting := Function.update tb.links.waiting r.thread none
              owner := Function.update tb.links.owner q (some r.thread) } tb') := by
  obtain ⟨qs, g, hq, -, hcases⟩ := nextThread_cases hr
  have hg := h.withRandom g
  have hpre : Precedes tb { tb with random := g } := ⟨rfl, Nat.le_refl _, .inl⟩
  refine ⟨qs, hq, ?_⟩
  rcases hcases with ⟨rfl, hnil, hr₁⟩ | ⟨x, hx, rfl, hfirst, hr₁⟩
  · obtain ⟨-, he⟩ := releaseOwnership_effect hg hr₁
    exact .inl ⟨rfl, hnil, he.sound, he.links, hpre.trans he.precedes⟩
  · obtain ⟨-, -, he⟩ := acquire_effect hg hr₁
    exact .inr ⟨x, rfl, hx, hfirst, he.sound, he.links, hpre.trans he.precedes⟩

/-- The operation as data forgets whom it served. -/
theorem apply_nextThread_ok {tb tb' : Table} {q : QueueId}
    (ha : tb.apply (.nextThread q) = .ok tb') : ∃ served, tb.nextThread q = .ok (served, tb') := by
  rw [apply] at ha
  cases hn : tb.nextThread q with
  | error e =>
    rw [hn] at ha
    cases ha
  | ok x =>
    rw [hn] at ha
    cases ha
    exact ⟨x.1, rfl⟩

end Table
end ThreadKernel
