import ThreadKernel.Proofs.Table.Handover

/-!
# ThreadKernel.Proofs.Table.Silent

A queue that does not transfer is silent: its owner gets nothing through it, and the operations on
it change nobody's effective value.

* `Table.Silent`                  — the queue exists and does not transfer.
* `refresh_unchanged`             — a walk stops at once where the value is right.
* `releaseOwnership_silent`, `acquire_silent`, `waitForAccess_silent`, `nextThread_silent`.
-/

namespace ThreadKernel.Table

def Silent (tb : Table) (q : QueueId) : Prop := ∃ qs, tb.queue? q = some qs ∧ qs.transfer = false

variable {tb tb' : Table} {q : QueueId} {t : ThreadId}

theorem silent_of_links (h : tb.links.transfer q = some false) : Silent tb q := by
  obtain ⟨qs, hq, hs⟩ := Option.map_eq_some_iff.1 h
  exact ⟨qs, hq, hs⟩

theorem Silent.links (h : Silent tb q) : tb.links.transfer q = some false := by
  obtain ⟨qs, hq, hs⟩ := h
  simp [Table.links, hq, hs]

theorem Silent.effect {after : Links} (h : Silent tb q) (he : Effect tb after tb')
    (ht : after.transfer = tb.links.transfer) : Silent tb' q := by
  refine silent_of_links ?_
  rw [he.links, ht]
  exact h.links

/-- One queue that does not transfer may be left out. -/
theorem combineDonations_filter (h : Silent tb q) (l : List QueueId) (v : Nat) :
    tb.combineDonations v (l.filter (· ≠ q)) = tb.combineDonations v l := by
  obtain ⟨qs, hq, hs⟩ := h
  induction l generalizing v with
  | nil => rfl
  | cons r l ih =>
    by_cases hr : r = q
    · rw [hr, List.filter_cons_of_neg (by simp), ih]
      simp only [combineDonations, hq, hs]
      rfl
    · rw [List.filter_cons_of_pos (by simpa using hr)]
      simp only [combineDonations, ih]

/-! ## Operations -/

theorem refresh_unchanged (h : tb.donatedValue t = .ok (tb.state t).effective) :
    tb.refresh t = .ok (tb.ensure t) := by
  rw [refresh, refreshWithin.eq_def, h]
  simp only [if_true]

/-- The owner of a silent queue loses nothing with it. -/
theorem disown_silent {qs : QueueState} {o : ThreadId} (h : Sound tb) (hqs : tb.queue? q = some qs)
    (hs : qs.transfer = false) (ho : qs.owner = some o) :
    (disown q o tb).refresh o = .ok ((disown q o tb).ensure o) := by
  have hst := state_disown h.linked hqs ho
  have hgift : ∀ r ∈ (tb.state o).acquired.filter (· ≠ q),
      (disown q o tb).gift r = tb.gift r := by
    intro r hmem
    have hne : r ≠ q := by simpa using (List.mem_filter.1 hmem).2
    simp only [gift, queue?_disown, policy_disown, if_neg (Ne.symm hne)]
  refine refresh_unchanged ?_
  rw [donatedValue_eq, hst]
  show (disown q o tb).combineDonations (tb.state o).base _ = .ok (tb.state o).effective
  rw [combineDonations_congr (policy_disown q o tb) hgift,
    combineDonations_filter ⟨qs, hqs, hs⟩, ← donatedValue_eq]
  exact h.settled.value o (by simp)

theorem releaseOwnership_silent (h : Sound tb) (hq : Silent tb q)
    (hr : tb.releaseOwnership q = .ok tb') (u : ThreadId) : tb'.effective u = tb.effective u := by
  obtain ⟨qs, hqs, hs⟩ := hq
  obtain ⟨qs', hqs', ⟨-, rfl⟩ | ⟨o, ho, hr⟩⟩ := releaseOwnership_cases hr
  · rfl
  · rw [hqs] at hqs'
    cases hqs'
    have hr : (disown q o tb).refresh o = .ok tb' := hr
    rw [disown_silent h hqs hs ho] at hr
    cases hr
    rw [effective, state_ensure, state_disown h.linked hqs ho]
    rfl

theorem acquire_silent (h : Sound tb) (hq : Silent tb q) (hr : tb.acquire q t = .ok tb')
    (u : ThreadId) : tb'.effective u = tb.effective u := by
  obtain ⟨-, tb₁, hr₁, hr⟩ := acquire_cases hr
  obtain ⟨-, h₁⟩ := releaseOwnership_effect h hr₁
  have hold := releaseOwnership_silent h hq hr₁
  obtain ⟨qs, hqs, hs⟩ := hq.effect h₁ rfl
  have hw₁ : (tb₁.state t).waiting = tb.waitingQueue t :=
    congrFun (congrArg Links.waiting h₁.links) t
  have hfree : q ∉ (tb₁.state t).acquired := by
    intro hm
    have hown : tb₁.links.owner q = none := by
      rw [h₁.links]
      exact Function.update_self _ _ _
    have ho := acquired_by_owner h₁.sound.linked hqs hm
    simp [Table.links, hqs, ho] at hown
  set tb₂ := seize q t (tb.waitingQueue t) tb₁
  have hst : ∀ u, (tb₂.state u).effective = (tb₁.state u).effective := by
    intro u
    rw [state_seize]
    split <;> rfl
  have hself : tb₂.state t =
      { tb₁.state t with waiting := none, acquired := (tb₁.state t).acquired ++ [q] } := by
    rw [state_seize, if_pos rfl]
  have hq₂ : Silent tb₂ q := by
    refine silent_of_links ?_
    rw [seize_links h₁.sound.linked hw₁ hqs]
    exact Silent.links ⟨qs, hqs, hs⟩
  have hgift : ∀ r ∈ (tb₁.state t).acquired, tb₂.gift r = tb₁.gift r := by
    intro r hmem
    have hne : q ≠ r := fun e => hfree (e ▸ hmem)
    simp only [gift, tb₂, queue?_seize h₁.sound.linked hw₁, policy_seize, if_neg hne]
  have hv : tb₂.donatedValue t = .ok (tb₂.state t).effective := by
    rw [donatedValue_eq, hst, hself, ← combineDonations_filter hq₂]
    have hfilter : ((tb₁.state t).acquired ++ [q]).filter (· ≠ q) = (tb₁.state t).acquired := by
      rw [List.filter_append, filter_ne_eq_self hfree]
      simp
    show tb₂.combineDonations (tb₁.state t).base
      (((tb₁.state t).acquired ++ [q]).filter (· ≠ q)) = _
    rw [hfilter, combineDonations_congr (policy_seize q t _ tb₁) hgift, ← donatedValue_eq]
    exact h₁.sound.settled.value t (by simp)
  have hr : tb₂.refresh t = .ok tb' := hr
  rw [refresh_unchanged hv] at hr
  cases hr
  rw [effective, state_ensure, hst]
  exact hold u

theorem waitForAccess_silent (h : Sound tb) (hq : Silent tb q)
    (hr : tb.waitForAccess q t = .ok tb') (u : ThreadId) : tb'.effective u = tb.effective u := by
  obtain ⟨qs, tb₁, qs₂, -, hqs, hr₁, hqs₂, hr⟩ := waitForAccess_cases hr
  have h₁ : tb₁.effective u = tb.effective u ∧ Silent tb₁ q := by
    split at hr₁
    · obtain ⟨-, he⟩ := releaseOwnership_effect h hr₁
      exact ⟨releaseOwnership_silent h hq hr₁ u, hq.effect he rfl⟩
    · cases hr₁
      exact ⟨rfl, hq⟩
  obtain ⟨hu, qs₁, hqs₁, hs₁⟩ := h₁
  rw [hqs₁] at hqs₂
  cases hqs₂
  have hnone : qs₂.beneficiary = none := by rw [QueueState.beneficiary, hs₁]; rfl
  rw [hnone] at hr
  have hr : enqueue q t tb₁ = tb' := Except.ok.inj hr
  rw [← hr, effective, state_enqueue]
  split <;> exact hu

theorem nextThread_silent {served : Option ThreadId} (h : Sound tb) (hq : Silent tb q)
    (hr : tb.nextThread q = .ok (served, tb')) (u : ThreadId) :
    tb'.effective u = tb.effective u := by
  obtain ⟨qs, g, -, -, ⟨-, -, hr₁⟩ | ⟨x, -, -, -, hr₁⟩⟩ := nextThread_cases hr
  · exact releaseOwnership_silent (h.withRandom g) hq hr₁ u
  · exact acquire_silent (h.withRandom g) hq hr₁ u

end ThreadKernel.Table
