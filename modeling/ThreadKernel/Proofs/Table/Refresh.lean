import ThreadKernel.Proofs.Table.Links

/-!
# ThreadKernel.Proofs.Table.Refresh

The walk along the owners. It begins with one thread whose effective value may be wrong and ends
with none.

* `Table.SettledBut`     — effective values and weights are right, except perhaps at one thread.
* `reweigh_settledBut`   — one hop of the walk moves the exception to the thread donated to.
* `Table.refresh_spec`   — after the walk all values are right, and all links are as they were.
-/

namespace ThreadKernel.Table

/-! ## Values from scratch -/

/-- What a queue gives to its owner: `none` if there is no such queue, `some none` if it does not
transfer. -/
def gift (tb : Table) (q : QueueId) : Option (Option Nat) :=
  (tb.queue? q).map fun qs => if qs.transfer then some (tb.policy.donation qs.waiters) else none

theorem donatedValue_eq (tb : Table) (t : ThreadId) :
    tb.donatedValue t = tb.combineDonations (tb.state t).base (tb.state t).acquired := by
  unfold donatedValue
  split
  · rename_i h
    rw [state_of_absent h]
    rfl
  · rename_i s h
    rw [state_of_get? h]

/-- The value from scratch depends on what the queues give, and on nothing else of them. -/
theorem combineDonations_congr {tb tb' : Table} (hp : tb'.policy = tb.policy) {l : List QueueId}
    (h : ∀ q ∈ l, tb'.gift q = tb.gift q) :
    ∀ v, tb'.combineDonations v l = tb.combineDonations v l := by
  induction l with
  | nil => intro v; rfl
  | cons q l ih =>
    intro v
    have hq := h q List.mem_cons_self
    have ih := ih (fun r hr => h r (List.mem_cons_of_mem _ hr))
    simp only [gift, hp] at hq
    simp only [combineDonations, hp]
    cases hq₁ : tb.queue? q with
    | none =>
      rw [hq₁] at hq
      rw [Option.map_eq_none_iff.1 hq]
    | some qs =>
      rw [hq₁] at hq
      obtain ⟨qs', hq', he⟩ := Option.map_eq_some_iff.1 hq
      rw [hq']
      simp only [ih]
      congr 1
      cases h₁ : qs.transfer <;> cases h₂ : qs'.transfer <;> simp_all

theorem combineDonations_bounds {tb : Table} {l : List QueueId}
    (hw : ∀ q qs, tb.queue? q = some qs →
      tb.policy.donation qs.waiters ≤ tb.policy.bounds.greatest) :
    ∀ {v w}, v ≤ tb.policy.bounds.greatest → tb.combineDonations v l = .ok w →
      v ≤ w ∧ w ≤ tb.policy.bounds.greatest := by
  induction l with
  | nil =>
    intro v w hv h
    cases h
    exact ⟨Nat.le_refl _, hv⟩
  | cons q l ih =>
    intro v w hv h
    simp only [combineDonations] at h
    split at h
    · cases h
    · rename_i qs hq
      have hc := Policy.combine_le hv (hw q qs hq)
      have hle := Policy.le_combine hv (tb.policy.donation qs.waiters)
      cases ht : qs.transfer with
      | true =>
        rw [ht] at h
        exact ⟨hle.trans (ih hc h).1, (ih hc h).2⟩
      | false =>
        rw [ht] at h
        exact ih hv h

/-- A value is no less than what any queue of the list gives. -/
theorem le_combineDonations {tb : Table} {l : List QueueId} {q : QueueId} {qs : QueueState}
    (hw : ∀ q qs, tb.queue? q = some qs →
      tb.policy.donation qs.waiters ≤ tb.policy.bounds.greatest)
    (hq : q ∈ l) (hqs : tb.queue? q = some qs) (htr : qs.transfer = true) :
    ∀ {v w}, v ≤ tb.policy.bounds.greatest → tb.combineDonations v l = .ok w →
      tb.policy.donation qs.waiters ≤ w := by
  induction l with
  | nil => cases hq
  | cons r l ih =>
    intro v w hv h
    simp only [combineDonations] at h
    split at h
    · cases h
    · rename_i rs hrs
      have hcombined := Policy.combine_le hv (hw r rs hrs)
      have hnext : (if rs.transfer then tb.policy.combine v (tb.policy.donation rs.waiters)
          else v) ≤ tb.policy.bounds.greatest := by
        split
        · exact hcombined
        · exact hv
      rcases List.mem_cons.1 hq with rfl | hq
      · rw [hqs] at hrs
        cases hrs
        rw [htr] at h hnext
        exact (Policy.le_combine_right (hw q qs hqs) v).trans (combineDonations_bounds hw hnext h).1
      · exact ih hq hnext h

/-- If every queue of the list exists, there is a value. -/
theorem exists_combineDonations {tb : Table} {l : List QueueId}
    (h : ∀ q ∈ l, (tb.queue? q).isSome) : ∀ v, ∃ w, tb.combineDonations v l = .ok w := by
  induction l with
  | nil => exact fun v => ⟨v, rfl⟩
  | cons q l ih =>
    intro v
    obtain ⟨qs, hq⟩ := Option.isSome_iff_exists.1 (h q List.mem_cons_self)
    simp only [combineDonations, hq]
    exact ih (fun r hr => h r (List.mem_cons_of_mem _ hr)) _

theorem Linked.exists_donatedValue {tb : Table} (h : Linked tb) (t : ThreadId) :
    ∃ v, tb.donatedValue t = .ok v := by
  rw [donatedValue_eq]
  refine exists_combineDonations (fun q hq => ?_) _
  obtain ⟨qs, hqs, -⟩ := h.owner_of_acquired hq
  rw [hqs]
  rfl

/-! ## Settled tables -/

/-- Weights are effective values, all values lie within the bounds, and every thread but `x` has the
effective value computed from scratch. -/
structure SettledBut (x : Option ThreadId) (tb : Table) : Prop where
  weight : ∀ {q qs r}, tb.queue? q = some qs → r ∈ qs.waiters.records →
    r.weight = (tb.state r.thread).effective
  base_le : ∀ t, (tb.state t).base ≤ tb.policy.bounds.greatest
  effective_le : ∀ t, (tb.state t).effective ≤ tb.policy.bounds.greatest
  value : ∀ t, x ≠ some t → tb.donatedValue t = .ok (tb.state t).effective

theorem SettledBut.donation_le {x : Option ThreadId} {tb : Table} (h : SettledBut x tb)
    {q : QueueId} {qs : QueueState} (hq : tb.queue? q = some qs) :
    tb.policy.donation qs.waiters ≤ tb.policy.bounds.greatest :=
  Policy.donation_le fun r hr => by rw [h.weight hq hr]; exact h.effective_le _

theorem SettledBut.donatedValue_bounds {x : Option ThreadId} {tb : Table} (h : SettledBut x tb)
    {t : ThreadId} {v : Nat} (hv : tb.donatedValue t = .ok v) :
    (tb.state t).base ≤ v ∧ v ≤ tb.policy.bounds.greatest := by
  rw [donatedValue_eq] at hv
  exact combineDonations_bounds (fun _ _ hq => h.donation_le hq) (h.base_le t) hv

/-- No weight of a record is greater than the value of the thread donated to. -/
theorem SettledBut.weight_le {x : Option ThreadId} {tb : Table} (h : SettledBut x tb)
    (hl : Linked tb) {t : ThreadId} {q : QueueId} {qs : QueueState} {r : WaitRecord} {v : Nat}
    (hacq : q ∈ (tb.state t).acquired) (hq : tb.queue? q = some qs) (htr : qs.transfer = true)
    (hr : r ∈ qs.waiters.records) (hv : tb.donatedValue t = .ok v) : r.weight ≤ v := by
  have hb : r.weight ≤ tb.policy.bounds.greatest := by
    rw [h.weight hq hr]
    exact h.effective_le _
  rw [donatedValue_eq] at hv
  exact (Policy.le_donation (hl.ranked hq) hr hb).trans
    (le_combineDonations (fun _ _ hq => h.donation_le hq) hacq hq htr (h.base_le t) hv)

/-! ## One hop -/

/-- The record gets the weight, and nothing else changes in the set. -/
theorem rerank_spec {p : Policy} {t : ThreadId} {w : Nat} {s s' : WaitSet}
    (h : rerank p t w s = some s') :
    s'.entries.Perm s.entries ∧ (s.Ranked p → s'.Ranked p) ∧
      (s.threads.Nodup → ∀ x ∈ s'.records, x.thread = t ∧ x.weight = w ∨
        x.thread ≠ t ∧ x ∈ s.records) := by
  simp only [rerank] at h
  split at h
  · cases h
  · rename_i r rest hr
    cases h
    have hp := WaitSet.remove_perm hr
    refine ⟨?_, fun hs => (hs.remove hr).insert _, fun hn x hx => ?_⟩
    · refine ((WaitSet.insert_perm p _ rest).map _).trans ?_
      exact (hp.map fun r => (r.thread, r.arrival)).symm
    · rcases WaitSet.mem_insert.1 hx with hx | hx
      · have ht := WaitSet.remove_thread hr
        rw [hx]
        exact .inl ⟨ht, rfl⟩
      · have hw : s.without t = rest := by rw [WaitSet.without, hr]
        rw [← hw, WaitSet.mem_without hn] at hx
        exact .inr ⟨hx.2, hx.1⟩

/-- The table after the value of a thread and its record in `q` have changed. -/
def reweigh (t : ThreadId) (value : Nat) (q : QueueId) (waiters : WaitSet) (tb : Table) : Table :=
  (tb.setThread t { tb.state t with effective := value }).modifyQueue q
    fun qs => { qs with waiters := waiters }

theorem state_reweigh (t u : ThreadId) (value : Nat) (q : QueueId) (waiters : WaitSet)
    (tb : Table) : (reweigh t value q waiters tb).state u =
      if t = u then { tb.state u with effective := value } else tb.state u := by
  rw [reweigh, state_modifyQueue, state_setThread]
  split
  · rename_i h; rw [h]
  · rfl

theorem queue?_reweigh (t : ThreadId) (value : Nat) (q r : QueueId) (waiters : WaitSet)
    (tb : Table) : (reweigh t value q waiters tb).queue? r =
      if q = r then (tb.queue? r).map fun qs => { qs with waiters := waiters }
      else tb.queue? r := by
  rw [reweigh, queue?_modifyQueue]
  rfl

/-- What a walk does at its first thread: it stops there, or goes on at the thread donated to. -/
theorem refreshWithin_cases {hops : Nat} {t : ThreadId} {tb tb' : Table}
    (h : refreshWithin hops t tb = .ok tb') :
    ∃ value, tb.donatedValue t = .ok value ∧
      ((tb.state t).effective = value ∧ tb' = tb.ensure t ∨
       (tb.state t).waiting = none ∧
          tb' = tb.setThread t { tb.state t with effective := value } ∨
       ∃ q qs waiters, (tb.state t).waiting = some q ∧ tb.queue? q = some qs ∧
          rerank tb.policy t value qs.waiters = some waiters ∧
          (qs.beneficiary = none ∧ tb' = reweigh t value q waiters tb ∨
           ∃ o n, qs.beneficiary = some o ∧ hops = n + 1 ∧
              refreshWithin n o (reweigh t value q waiters tb) = .ok tb')) := by
  unfold refreshWithin at h
  split at h
  · cases h
  · rename_i value hv
    refine ⟨value, hv, ?_⟩
    simp only at h
    split at h
    · rename_i he
      cases h
      exact .inl ⟨he, rfl⟩
    · right
      split at h
      · rename_i hw
        cases h
        exact .inl ⟨hw, rfl⟩
      · rename_i q hw
        right
        split at h
        · cases h
        · rename_i qs hq
          split at h
          · cases h
          · rename_i waiters hr
            refine ⟨q, qs, waiters, hw, hq, hr, ?_⟩
            split at h
            · rename_i hb
              cases h
              exact .inl ⟨hb, rfl⟩
            · rename_i o hb
              split at h
              · cases h
              · rename_i n
                exact .inr ⟨o, n, hb, rfl, h⟩

section Hop

variable {t : ThreadId} {value : Nat} {tb : Table} {q : QueueId} {qs : QueueState}
  {waiters : WaitSet}

theorem reweigh_sameLinks (t : ThreadId) (value : Nat) (hq : tb.queue? q = some qs)
    (hr : rerank tb.policy t value qs.waiters = some waiters) :
    SameLinks tb (reweigh t value q waiters tb) where
  policy := rfl
  arrivals := rfl
  state u := by
    rw [state_reweigh]
    split
    · exact ⟨value, rfl⟩
    · exact ⟨_, rfl⟩
  absent {r} hr' := by
    rw [queue?_reweigh]
    split <;> simp [hr']
  queue {r rs} hr' := by
    rw [queue?_reweigh]
    split
    · rename_i hqr
      subst hqr
      rw [hq] at hr'
      cases hr'
      exact ⟨{ qs with waiters := waiters }, by rw [hq]; rfl, rfl, rfl, (rerank_spec hr).1⟩
    · exact ⟨rs, hr', .refl _⟩

theorem reweigh_linked (h : Linked tb) (hq : tb.queue? q = some qs)
    (hr : rerank tb.policy t value qs.waiters = some waiters) :
    Linked (reweigh t value q waiters tb) := by
  refine (reweigh_sameLinks t value hq hr).linked h fun {r rs} hr' => ?_
  rw [queue?_reweigh] at hr'
  split at hr'
  · rename_i hqr
    subst hqr
    rw [hq] at hr'
    cases hr'
    exact (rerank_spec hr).2.1 (h.ranked hq)
  · exact h.ranked hr'

/-- What a queue gives changes only at the reweighed queue, and only if it transfers. -/
theorem gift_reweigh (hq : tb.queue? q = some qs) {r : QueueId}
    (hr : q = r → qs.transfer = false) : (reweigh t value q waiters tb).gift r = tb.gift r := by
  simp only [gift, queue?_reweigh]
  split
  · rename_i hqr
    have htr := hr hqr
    subst hqr
    simp [hq, htr]
  · rfl

/-- One hop: the value of `t` is right now, and only the thread donated to may have a wrong one. -/
theorem reweigh_settledBut (h : Linked tb) (hs : SettledBut (some t) tb)
    (hv : tb.donatedValue t = .ok value) (hw : (tb.state t).waiting = some q)
    (hq : tb.queue? q = some qs) (hr : rerank tb.policy t value qs.waiters = some waiters) :
    SettledBut qs.beneficiary (reweigh t value q waiters tb) where
  weight {r rs x} hr' hx := by
    rw [queue?_reweigh] at hr'
    rw [state_reweigh]
    split at hr'
    · rename_i hqr
      subst hqr
      rw [hq] at hr'
      cases hr'
      rcases (rerank_spec hr).2.2 (h.threads_nodup hq) x hx with ⟨ht, hw⟩ | ⟨ht, hx⟩
      · simp [ht, hw]
      · simp [Ne.symm ht, hs.weight hq hx]
    · rename_i hqr
      have hwx : (tb.state x.thread).waiting = some r :=
        h.waiting_iff.2 ⟨rs, hr', WaitSet.mem_threads.2 ⟨x, hx, rfl⟩⟩
      have hne : t ≠ x.thread := by
        rintro rfl
        rw [hw] at hwx
        exact hqr (Option.some.inj hwx)
      rw [if_neg hne]
      exact hs.weight hr' hx
  base_le u := by
    rw [(reweigh_sameLinks t value hq hr).base]
    exact hs.base_le u
  effective_le u := by
    rw [state_reweigh]
    split
    · exact (hs.donatedValue_bounds hv).2
    · exact hs.effective_le u
  value u hu := by
    have hsame := reweigh_sameLinks t value hq hr
    have hd : (reweigh t value q waiters tb).donatedValue u = tb.donatedValue u := by
      rw [donatedValue_eq, donatedValue_eq, hsame.base, hsame.acquired]
      refine combineDonations_congr hsame.policy (fun r hacq => gift_reweigh hq fun hqr => ?_) _
      subst hqr
      obtain ⟨qs', hq', hown⟩ := h.owner_of_acquired hacq
      rw [hq] at hq'
      cases hq'
      cases htr : qs.transfer with
      | false => rfl
      | true => exact absurd (by simp [QueueState.beneficiary, htr, hown]) hu
    rw [hd, state_reweigh]
    split
    · rename_i htu
      rw [← htu]
      exact hv
    · rename_i htu
      exact hs.value u fun e => htu (Option.some.inj e)

end Hop

/-! ## The whole walk -/

theorem ensure_sameLinks (tb : Table) (t : ThreadId) : SameLinks tb (tb.ensure t) :=
  ⟨policy_ensure tb t, arrivals_ensure tb t,
    fun u => ⟨(tb.state u).effective, by rw [state_ensure]⟩,
    fun h => by rw [queue?_ensure]; exact h, fun h => ⟨_, by rw [queue?_ensure]; exact h, .refl _⟩⟩

theorem setEffective_sameLinks (tb : Table) (t : ThreadId) (value : Nat) :
    SameLinks tb (tb.setThread t { tb.state t with effective := value }) where
  policy := rfl
  arrivals := rfl
  state u := by
    rw [state_setThread]
    split
    · rename_i h
      exact ⟨value, by rw [h]⟩
    · exact ⟨_, rfl⟩
  absent h := h
  queue h := ⟨_, h, .refl _⟩

/-- The walk stops at a thread that waits nowhere. -/
theorem setEffective_settled {tb : Table} {t : ThreadId} {value : Nat} (h : Linked tb)
    (hs : SettledBut (some t) tb) (hv : tb.donatedValue t = .ok value)
    (hw : (tb.state t).waiting = none) :
    SettledBut none (tb.setThread t { tb.state t with effective := value }) where
  weight {q qs r} hq hr := by
    have hwr : (tb.state r.thread).waiting = some q :=
      h.waiting_iff.2 ⟨qs, hq, WaitSet.mem_threads.2 ⟨r, hr, rfl⟩⟩
    have hne : t ≠ r.thread := by
      rintro rfl
      rw [hw] at hwr
      cases hwr
    rw [state_setThread, if_neg hne]
    exact hs.weight hq hr
  base_le u := by
    rw [(setEffective_sameLinks tb t value).base]
    exact hs.base_le u
  effective_le u := by
    rw [state_setThread]
    split
    · exact (hs.donatedValue_bounds hv).2
    · exact hs.effective_le u
  value u _ := by
    have hsame := setEffective_sameLinks tb t value
    have hd : (tb.setThread t { tb.state t with effective := value }).donatedValue u =
        tb.donatedValue u := by
      rw [donatedValue_eq, donatedValue_eq, hsame.base, hsame.acquired]
      exact combineDonations_congr hsame.policy (fun _ _ => rfl) _
    rw [hd, state_setThread]
    split
    · rename_i htu
      rw [← htu]
      exact hv
    · rename_i htu
      exact hs.value u fun e => htu (Option.some.inj e)

/-- The walk stops at a thread whose value did not change. -/
theorem ensure_settled {tb : Table} {t : ThreadId} (hs : SettledBut (some t) tb)
    (hv : tb.donatedValue t = .ok (tb.state t).effective) : SettledBut none (tb.ensure t) where
  weight {q qs r} hq hr := by
    rw [queue?_ensure] at hq
    rw [state_ensure]
    exact hs.weight hq hr
  base_le u := by
    rw [state_ensure, policy_ensure]
    exact hs.base_le u
  effective_le u := by
    rw [state_ensure, policy_ensure]
    exact hs.effective_le u
  value u _ := by
    have hd : (tb.ensure t).donatedValue u = tb.donatedValue u := by
      rw [donatedValue_eq, donatedValue_eq, state_ensure]
      exact combineDonations_congr (policy_ensure tb t) (fun q _ => by simp [gift]) _
    rw [hd, state_ensure]
    by_cases htu : t = u
    · rw [← htu]
      exact hv
    · exact hs.value u fun e => htu (Option.some.inj e)

/-- A walk that ends leaves all values right and all links as they were. -/
theorem refreshWithin_spec (hops : Nat) : ∀ {t : ThreadId} {tb tb' : Table}, Linked tb →
    SettledBut (some t) tb → refreshWithin hops t tb = .ok tb' →
      SameLinks tb tb' ∧ Linked tb' ∧ SettledBut none tb' := by
  induction hops using Nat.strongRecOn with
  | ind hops ih =>
    intro t tb tb' h hs hr
    obtain ⟨value, hv, ⟨he, rfl⟩ | ⟨hw, rfl⟩ | ⟨q, qs, waiters, hw, hq, hrr, hc⟩⟩ :=
      refreshWithin_cases hr
    · have hsame := ensure_sameLinks tb t
      refine ⟨hsame, hsame.linked h fun hq => ?_, ensure_settled hs (he ▸ hv)⟩
      rw [queue?_ensure] at hq
      rw [policy_ensure]
      exact h.ranked hq
    · have hsame := setEffective_sameLinks tb t value
      exact ⟨hsame, hsame.linked h fun hq => h.ranked hq, setEffective_settled h hs hv hw⟩
    · have hsame := reweigh_sameLinks t value hq hrr
      have hlink := reweigh_linked h hq hrr
      have hset := reweigh_settledBut h hs hv hw hq hrr
      rcases hc with ⟨hb, rfl⟩ | ⟨o, n, hb, rfl, hrest⟩
      · rw [hb] at hset
        exact ⟨hsame, hlink, hset⟩
      · rw [hb] at hset
        obtain ⟨hsame', hlink', hset'⟩ := ih n (Nat.lt_succ_self n) hlink hset hrest
        exact ⟨hsame.trans hsame', hlink', hset'⟩

theorem refresh_spec {t : ThreadId} {tb tb' : Table} (h : Linked tb)
    (hs : SettledBut (some t) tb) (hr : tb.refresh t = .ok tb') :
    SameLinks tb tb' ∧ Linked tb' ∧ SettledBut none tb' :=
  refreshWithin_spec _ h hs hr

theorem refreshOption_spec {x : Option ThreadId} {tb tb' : Table} (h : Linked tb)
    (hs : SettledBut x tb) (hr : tb.refreshOption x = .ok tb') :
    SameLinks tb tb' ∧ Linked tb' ∧ SettledBut none tb' := by
  cases x with
  | none =>
    cases hr
    exact ⟨.refl _, h, hs⟩
  | some t => exact refresh_spec h hs hr

end ThreadKernel.Table
