import ThreadKernel.Proofs.Table.Handover

/-!
# ThreadKernel.Proofs.Table.Forget

Base values that change and threads that go away.

* `setPriority_effect`   — a new base value.
* `forget`, `revoke`     — a thread loses its state and its record, then its queues their owner.
* `removeThread_effect`  — while the walk runs, the thread still owns queues without a state.
* `setPriority_cases`, `removeThread_cases` — what a call that succeeds does.
-/

namespace ThreadKernel.Table

/-! ## Base values -/

section SetBase

variable {t : ThreadId} {p : Nat} {tb : Table}

theorem state_setBase (t u : ThreadId) (p : Nat) (tb : Table) :
    (tb.setThread t { tb.state t with base := p }).state u =
      if t = u then { tb.state u with base := p } else tb.state u := by
  rw [state_setThread]
  split
  · rename_i h; rw [h]
  · rfl

theorem setBase_linked (h : Linked tb) :
    Linked (tb.setThread t { tb.state t with base := p }) := by
  have hst := fun u => state_setBase t u p tb
  have hw : ∀ u, ((tb.setThread t { tb.state t with base := p }).state u).waiting =
      (tb.state u).waiting := by
    intro u
    rw [hst]
    split <;> rfl
  have ha : ∀ u, ((tb.setThread t { tb.state t with base := p }).state u).acquired =
      (tb.state u).acquired := by
    intro u
    rw [hst]
    split <;> rfl
  refine ⟨h.ranked, h.threads_nodup, fun {u q} => ?_, fun {u q} hq => ?_, fun u => ?_,
    h.owner_elsewhere, h.arrival_lt, h.arrival_inj⟩
  · rw [hw]
    exact h.waiting_iff
  · rw [ha] at hq
    exact h.owner_of_acquired hq
  · rw [ha]
    exact h.acquired_nodup u

theorem setBase_owned (h : Owned tb) : Owned (tb.setThread t { tb.state t with base := p }) := by
  intro q qs u hq ho
  rw [state_setBase]
  split <;> exact h hq ho

theorem setBase_settledBut (h : Sound tb) (hp : p ≤ tb.policy.bounds.greatest) :
    SettledBut (some t) (tb.setThread t { tb.state t with base := p }) where
  weight {q qs r} hq hr := by
    rw [h.settled.weight hq hr, state_setBase]
    split <;> rfl
  base_le u := by
    rw [state_setBase]
    split
    · exact hp
    · exact h.settled.base_le u
  effective_le u := by
    rw [state_setBase]
    split <;> exact h.settled.effective_le u
  value u hu := by
    have hne : t ≠ u := fun e => hu (congrArg some e)
    have hst := state_setBase t u p tb
    rw [if_neg hne] at hst
    rw [hst, ← h.settled.value u (by simp)]
    exact donatedValue_congr rfl (by rw [hst]) (by rw [hst]) fun _ _ => rfl

theorem setBase_links (t : ThreadId) (p : Nat) (tb : Table) :
    (tb.setThread t { tb.state t with base := p }).links =
      { tb.links with base := Function.update tb.links.base t p } := by
  ext r : 2
  · simp only [links, state_setBase, Function.update_apply, eq_comm (a := r)]
    split <;> rfl
  · simp only [links, state_setBase]
    split <;> rfl
  · rfl
  · rfl

end SetBase

theorem setPriority_cases {tb tb' : Table} {t : ThreadId} {p : Nat}
    (hr : tb.setPriority t p = .ok tb') : tb.policy.bounds.contains p = true ∧
      (tb.setThread t { tb.state t with base := p }).refreshOption (some t) = .ok tb' := by
  simp only [setPriority] at hr
  split at hr
  · rename_i hp
    exact ⟨hp, hr⟩
  · cases hr

theorem setPriority_effect {tb tb' : Table} {t : ThreadId} {p : Nat} (h : Sound tb)
    (hr : tb.setPriority t p = .ok tb') :
    tb.policy.bounds.contains p = true ∧
      Effect tb { tb.links with base := Function.update tb.links.base t p } tb' := by
  obtain ⟨hp, hr⟩ := setPriority_cases hr
  have hle : p ≤ tb.policy.bounds.greatest := by
    simp only [Bounds.contains, Bool.and_eq_true, decide_eq_true_eq] at hp
    exact hp.2
  rw [← setBase_links]
  exact ⟨hp, .of_refresh (setBase_linked h.linked) (setBase_owned h.owned)
    (setBase_settledBut h hle) ⟨rfl, Nat.le_refl _, .inl⟩ hr⟩

/-! ## Threads that go away -/

/-- `t` loses its state and its record. -/
def forget (t : ThreadId) (tb : Table) : Table :=
  let rest := { tb with threads := tb.threads.erase t }
  match (tb.state t).waiting with
  | none => rest
  | some q => rest.modifyQueue q fun qs => { qs with waiters := qs.waiters.without t }

@[simp] theorem policy_forget (t : ThreadId) (tb : Table) : (forget t tb).policy = tb.policy := by
  unfold forget
  split <;> rfl

@[simp] theorem arrivals_forget (t : ThreadId) (tb : Table) :
    (forget t tb).arrivals = tb.arrivals := by
  unfold forget
  split <;> rfl

theorem state_forget (t u : ThreadId) (tb : Table) :
    (forget t tb).state u = if t = u then .initial tb.policy else tb.state u := by
  have hs : (forget t tb).state u = state { tb with threads := tb.threads.erase t } u := by
    unfold forget
    split <;> rfl
  rw [hs, state]
  simp only [KeyMap.get?_erase]
  by_cases h : t = u
  · simp only [if_pos h]
  · simp only [if_neg h]
    rfl

/-- The other queues have no record of `t`, so the record goes from every queue. -/
theorem queue?_forget {t : ThreadId} {tb : Table} (h : Linked tb) (q : QueueId) :
    (forget t tb).queue? q =
      (tb.queue? q).map fun qs => { qs with waiters := qs.waiters.without t } := by
  have hout : ∀ qs, tb.queue? q = some qs → (tb.state t).waiting ≠ some q →
      qs.waiters.without t = qs.waiters := fun qs hq hw =>
    WaitSet.without_of_notMem fun ht => hw (h.waiting_iff.2 ⟨qs, hq, ht⟩)
  have hkeep : (tb.state t).waiting ≠ some q →
      tb.queue? q = (tb.queue? q).map fun qs => { qs with waiters := qs.waiters.without t } := by
    intro hw
    cases hq : tb.queue? q with
    | none => rfl
    | some qs => simp [hout qs hq hw]
  simp only [forget]
  split
  · rename_i hw
    exact hkeep (by simp [hw])
  · rename_i r hw
    rw [queue?_modifyQueue]
    split
    · rfl
    · rename_i hrq
      exact hkeep (by simpa [hw] using hrq)

section Forget

variable {t : ThreadId} {tb : Table}

theorem record_forget (h : Linked tb) {q : QueueId} {qs : QueueState} {x : WaitRecord}
    (hq : (forget t tb).queue? q = some qs) (hx : x ∈ qs.waiters.records) :
    x.thread ≠ t ∧ ∃ qs₀, tb.queue? q = some qs₀ ∧ x ∈ qs₀.waiters.records := by
  rw [queue?_forget h] at hq
  obtain ⟨qs₀, hq₀, rfl⟩ := Option.map_eq_some_iff.1 hq
  obtain ⟨hx, hne⟩ := (WaitSet.mem_without (h.threads_nodup hq₀)).1 hx
  exact ⟨hne, qs₀, hq₀, hx⟩

theorem forget_linked (h : Linked tb) : Linked (forget t tb) := by
  constructor
  · intro q qs hq
    rw [queue?_forget h] at hq
    obtain ⟨qs₀, hq₀, rfl⟩ := Option.map_eq_some_iff.1 hq
    rw [policy_forget]
    exact (h.ranked hq₀).without t
  · intro q qs hq
    rw [queue?_forget h] at hq
    obtain ⟨qs₀, hq₀, rfl⟩ := Option.map_eq_some_iff.1 hq
    exact WaitSet.nodup_without (h.threads_nodup hq₀)
  · intro u q
    rw [state_forget, queue?_forget h]
    have hiff := @h.waiting_iff u q
    constructor
    · intro hu
      split at hu
      · cases hu
      · rename_i hne
        obtain ⟨qs, hq, hm⟩ := hiff.1 hu
        refine ⟨_, by rw [hq]; rfl, ?_⟩
        exact (WaitSet.mem_threads_without (h.threads_nodup hq)).2 ⟨hm, Ne.symm hne⟩
    · rintro ⟨qs, hq, hm⟩
      obtain ⟨qs₀, hq₀, rfl⟩ := Option.map_eq_some_iff.1 hq
      obtain ⟨hm, hne⟩ := (WaitSet.mem_threads_without (h.threads_nodup hq₀)).1 hm
      rw [if_neg (Ne.symm hne)]
      exact hiff.2 ⟨qs₀, hq₀, hm⟩
  · intro u q hu
    rw [state_forget] at hu
    rw [queue?_forget h]
    split at hu
    · cases hu
    · obtain ⟨qs, hq, ho⟩ := h.owner_of_acquired hu
      exact ⟨{ qs with waiters := qs.waiters.without t }, by rw [hq]; rfl, ho⟩
  · intro u
    rw [state_forget]
    split
    · exact List.nodup_nil
    · exact h.acquired_nodup u
  · intro q qs u hq ho
    rw [queue?_forget h] at hq
    obtain ⟨qs₀, hq₀, rfl⟩ := Option.map_eq_some_iff.1 hq
    rw [WaitSet.mem_threads_without (h.threads_nodup hq₀)]
    exact fun hm => h.owner_elsewhere hq₀ ho hm.1
  · intro q qs x hq hx
    obtain ⟨-, qs₀, hq₀, hx₀⟩ := record_forget h hq hx
    rw [arrivals_forget]
    exact h.arrival_lt hq₀ hx₀
  · intro q q' qs qs' x x' hq hq' hx hx' heq
    obtain ⟨-, qs₀, hq₀, hx₀⟩ := record_forget h hq hx
    obtain ⟨-, qs₁, hq₁, hx₁⟩ := record_forget h hq' hx'
    exact h.arrival_inj hq₀ hq₁ hx₀ hx₁ heq

/-- Only the thread that `t` donated to may have a wrong value. -/
theorem forget_settledBut (h : Sound tb) :
    SettledBut ((tb.state t).waiting.bind fun q => (tb.queue? q).bind QueueState.beneficiary)
      (forget t tb) where
  weight {q qs x} hq hx := by
    obtain ⟨hne, qs₀, hq₀, hx₀⟩ := record_forget h.linked hq hx
    rw [state_forget, if_neg (Ne.symm hne)]
    exact h.settled.weight hq₀ hx₀
  base_le u := by
    rw [state_forget, policy_forget]
    split
    · exact (empty_sound tb.policy tb.random).settled.base_le u
    · exact h.settled.base_le u
  effective_le u := by
    rw [state_forget, policy_forget]
    split
    · exact (empty_sound tb.policy tb.random).settled.effective_le u
    · exact h.settled.effective_le u
  value u hu := by
    have hst := state_forget t u tb
    split at hst
    · rw [donatedValue_eq, hst]
      rfl
    · have hd : (forget t tb).donatedValue u = tb.donatedValue u := by
        refine donatedValue_congr (policy_forget t tb) (by rw [hst]) (by rw [hst]) fun q hq => ?_
        obtain ⟨qs, hqs, ho⟩ := h.linked.owner_of_acquired hq
        simp only [gift, queue?_forget h.linked, policy_forget, hqs, Option.map_some]
        cases htr : qs.transfer with
        | false => simp
        | true =>
          -- t waits elsewhere, as it donates to another thread
          have hout : t ∉ qs.waiters.threads := by
            intro ht
            have hw := h.linked.waiting_iff.2 ⟨qs, hqs, ht⟩
            exact hu (by simp [hw, hqs, QueueState.beneficiary, htr, ho])
          rw [WaitSet.without_of_notMem hout]
      rw [hd, h.settled.value u (by simp), hst]

end Forget

/-- The queues of the list lose their owners. -/
def revoke (l : List QueueId) (tb : Table) : Table :=
  l.foldl (fun tb q => tb.modifyQueue q fun qs => { qs with owner := none }) tb

theorem queue?_revoke (l : List QueueId) : ∀ (tb : Table) (q : QueueId),
    (revoke l tb).queue? q =
      if q ∈ l then (tb.queue? q).map fun qs => { qs with owner := none } else tb.queue? q := by
  induction l with
  | nil => intro tb q; rfl
  | cons r l ih =>
    intro tb q
    show (revoke l _).queue? q = _
    rw [ih, queue?_modifyQueue]
    by_cases hl : q ∈ l <;> by_cases hr : r = q <;> cases tb.queue? q <;>
      simp [hl, hr, eq_comm (a := q)]

theorem revoke_rest (l : List QueueId) : ∀ tb : Table,
    (revoke l tb).policy = tb.policy ∧ (revoke l tb).arrivals = tb.arrivals ∧
      (revoke l tb).state = tb.state := by
  induction l with
  | nil => exact fun tb => ⟨rfl, rfl, rfl⟩
  | cons q l ih =>
    intro tb
    obtain ⟨hp, ha, hs⟩ := ih (tb.modifyQueue q fun qs => { qs with owner := none })
    exact ⟨hp, ha, hs⟩

theorem removeThread_eq {t : ThreadId} {s : ThreadState} {tb : Table}
    (hs : tb.threads.get? t = some s) :
    tb.removeThread t =
      ((forget t tb).refreshOption
        ((tb.state t).waiting.bind fun q => (tb.queue? q).bind QueueState.beneficiary)).map
        (revoke (tb.state t).acquired) := by
  have hst := state_of_get? hs
  simp only [removeThread, hs, hst, forget, withdrawRecord]
  cases s.waiting with
  | none => rfl
  | some q =>
    simp only [Option.bind_some, queue?]
    split <;> rename_i hr
    · rw [hr]
      rfl
    · rw [hr]
      rfl

section Revoke

variable {t : ThreadId} {tb tb₁ : Table}

/-- After the walk, what `t` owned still names it as the owner, and nothing else does. -/
theorem owner_forgotten (h : Sound tb) (hsame : SameLinks (forget t tb) tb₁) {q : QueueId}
    {qs : QueueState} (hq : tb₁.queue? q = some qs) :
    qs.owner = some t ↔ q ∈ (tb.state t).acquired := by
  obtain ⟨qs₁, hq₁, hs⟩ := hsame.queue_rev hq
  rw [queue?_forget h.linked] at hq₁
  obtain ⟨qs₀, hq₀, rfl⟩ := Option.map_eq_some_iff.1 hq₁
  rw [hs.owner]
  exact ⟨fun ho => h.owned hq₀ ho, fun ha => acquired_by_owner h.linked hq₀ ha⟩

theorem state_forgotten (hsame : SameLinks (forget t tb) tb₁) (u : ThreadId) :
    (tb₁.state u).acquired = if t = u then [] else (tb.state u).acquired := by
  rw [hsame.acquired, state_forget]
  split <;> rfl

/-- A queue afterwards is one before, perhaps without its owner. -/
theorem revoke_back (h : Sound tb) (hsame : SameLinks (forget t tb) tb₁) {q : QueueId}
    {qs : QueueState} (hq : (revoke (tb.state t).acquired tb₁).queue? q = some qs) :
    ∃ qs₁, tb₁.queue? q = some qs₁ ∧ qs.waiters = qs₁.waiters ∧
      ∀ u, qs.owner = some u → qs₁.owner = some u ∧ u ≠ t := by
  rw [queue?_revoke] at hq
  split at hq
  · obtain ⟨qs₁, hq₁, rfl⟩ := Option.map_eq_some_iff.1 hq
    exact ⟨qs₁, hq₁, rfl, fun u hu => by cases hu⟩
  · rename_i hne
    refine ⟨qs, hq, rfl, fun u hu => ⟨hu, ?_⟩⟩
    rintro rfl
    exact hne ((owner_forgotten h hsame hq).1 hu)

theorem revoke_linked (h : Sound tb) (hsame : SameLinks (forget t tb) tb₁) (hl : Linked tb₁) :
    Linked (revoke (tb.state t).acquired tb₁) := by
  obtain ⟨hp, ha, hst⟩ := revoke_rest (tb.state t).acquired tb₁
  have hlook := queue?_revoke (tb.state t).acquired tb₁
  constructor
  · intro q qs hq
    obtain ⟨qs₁, hq₁, hw, -⟩ := revoke_back h hsame hq
    rw [hp, hw]
    exact hl.ranked hq₁
  · intro q qs hq
    obtain ⟨qs₁, hq₁, hw, -⟩ := revoke_back h hsame hq
    rw [hw]
    exact hl.threads_nodup hq₁
  · intro u q
    rw [hst, hl.waiting_iff, hlook]
    split
    · simp only [Option.map_eq_some_iff]
      exact ⟨fun ⟨qs, hq, hm⟩ => ⟨_, ⟨qs, hq, rfl⟩, hm⟩,
        fun ⟨_, ⟨qs, hq, rfl⟩, hm⟩ => ⟨qs, hq, hm⟩⟩
    · rfl
  · intro u q hu
    rw [hst] at hu
    have hne : t ≠ u := by
      rintro rfl
      rw [state_forgotten hsame, if_pos rfl] at hu
      cases hu
    obtain ⟨qs, hq, ho⟩ := hl.owner_of_acquired hu
    rw [hlook, if_neg fun hm => ?_]
    · exact ⟨qs, hq, ho⟩
    · exact hne (Option.some.inj (((owner_forgotten h hsame hq).2 hm).symm.trans ho))
  · intro u
    rw [hst]
    exact hl.acquired_nodup u
  · intro q qs u hq ho
    obtain ⟨qs₁, hq₁, hw, how⟩ := revoke_back h hsame hq
    rw [hw]
    exact hl.owner_elsewhere hq₁ (how u ho).1
  · intro q qs x hq hx
    obtain ⟨qs₁, hq₁, hw, -⟩ := revoke_back h hsame hq
    rw [ha]
    exact hl.arrival_lt hq₁ (hw ▸ hx)
  · intro q q' qs qs' x x' hq hq' hx hx' heq
    obtain ⟨qs₁, hq₁, hw, -⟩ := revoke_back h hsame hq
    obtain ⟨qs₁', hq₁', hw', -⟩ := revoke_back h hsame hq'
    exact hl.arrival_inj hq₁ hq₁' (hw ▸ hx) (hw' ▸ hx') heq

theorem revoke_owned (h : Sound tb) (hsame : SameLinks (forget t tb) tb₁) :
    Owned (revoke (tb.state t).acquired tb₁) := by
  obtain ⟨-, -, hst⟩ := revoke_rest (tb.state t).acquired tb₁
  intro q qs u hq ho
  obtain ⟨qs₁, hq₁, -, how⟩ := revoke_back h hsame hq
  obtain ⟨ho₁, hne⟩ := how u ho
  rw [hst, state_forgotten hsame, if_neg (Ne.symm hne)]
  obtain ⟨qs₂, hq₂, hsq⟩ := hsame.queue_rev hq₁
  rw [queue?_forget h.linked] at hq₂
  obtain ⟨qs₀, hq₀, rfl⟩ := Option.map_eq_some_iff.1 hq₂
  exact h.owned hq₀ (hsq.owner.symm.trans ho₁)

theorem donatedValue_revoke (l : List QueueId) (tb : Table) (u : ThreadId) :
    (revoke l tb).donatedValue u = tb.donatedValue u := by
  obtain ⟨hp, -, hst⟩ := revoke_rest l tb
  refine donatedValue_congr hp (by rw [hst]) (by rw [hst]) fun q _ => ?_
  simp only [gift, queue?_revoke, hp]
  split
  · rw [Option.map_map]
    rfl
  · rfl

theorem revoke_sound (h : Sound tb) (hsame : SameLinks (forget t tb) tb₁) (hl : Linked tb₁)
    (hs : SettledBut none tb₁) : Sound (revoke (tb.state t).acquired tb₁) := by
  obtain ⟨hp, -, hst⟩ := revoke_rest (tb.state t).acquired tb₁
  refine ⟨revoke_linked h hsame hl, revoke_owned h hsame, ⟨?_, ?_, ?_, ?_⟩⟩
  · intro q qs x hq hx
    obtain ⟨qs₁, hq₁, hw, -⟩ := revoke_back h hsame hq
    rw [hst]
    exact hs.weight hq₁ (hw ▸ hx)
  · intro u
    rw [hst, hp]
    exact hs.base_le u
  · intro u
    rw [hst, hp]
    exact hs.effective_le u
  · intro u hu
    rw [donatedValue_revoke, hst]
    exact hs.value u hu

theorem revoke_links (h : Sound tb) (hsame : SameLinks (forget t tb) tb₁) :
    (revoke (tb.state t).acquired tb₁).links =
      { tb.links with
        base := Function.update tb.links.base t tb.policy.bounds.initial
        waiting := Function.update tb.links.waiting t none
        owner := fun q => if tb.links.owner q = some t then none else tb.links.owner q } := by
  obtain ⟨-, -, hst⟩ := revoke_rest (tb.state t).acquired tb₁
  have hlinks := hsame.links_eq
  ext r : 2
  · have hb : (tb₁.state r).base = ((forget t tb).state r).base := hsame.base r
    simp only [links, hst, hb, state_forget, Function.update_apply, eq_comm (a := r)]
    split <;> rfl
  · have hw : (tb₁.state r).waiting = ((forget t tb).state r).waiting := hsame.waiting r
    simp only [links, hst, hw, state_forget, Function.update_apply, eq_comm (a := r)]
    split <;> rfl
  · have ho : tb₁.links.owner r = tb.links.owner r := by
      rw [hlinks]
      simp only [links, queue?_forget h.linked, Option.bind_map]
      rfl
    show (revoke (tb.state t).acquired tb₁).links.owner r =
      if tb.links.owner r = some t then none else tb.links.owner r
    rw [← ho]
    simp only [links, queue?_revoke]
    split
    · rename_i hm
      obtain ⟨qs, hq, hown⟩ := h.linked.owner_of_acquired hm
      have hot : tb₁.links.owner r = some t := ho.trans (by simp [links, hq, hown])
      refine Eq.trans ?_ (if_pos hot).symm
      cases tb₁.queue? r <;> rfl
    · rename_i hm
      refine (if_neg fun hot => hm ?_).symm
      obtain ⟨qs, hq, hown⟩ := Option.bind_eq_some_iff.1 hot
      exact (owner_forgotten h hsame hq).1 hown
  · have ht : tb₁.links.transfer r = tb.links.transfer r := by
      rw [hlinks]
      simp only [links, queue?_forget h.linked, Option.map_map]
      rfl
    rw [← ht]
    simp only [links, queue?_revoke]
    split
    · rw [Option.map_map]
      rfl
    · rfl

theorem revoke_precedes (h : Sound tb) (hsame : SameLinks (forget t tb) tb₁) :
    Precedes tb (revoke (tb.state t).acquired tb₁) := by
  obtain ⟨hp, ha, -⟩ := revoke_rest (tb.state t).acquired tb₁
  refine ⟨hp.trans (hsame.policy.trans (policy_forget t tb)), ?_, ?_⟩
  · rw [ha, hsame.arrivals, arrivals_forget]
  · rintro q u a ⟨qs, hq, hm⟩
    have hm₁ : tb₁.Ticket q u a := by
      rw [queue?_revoke] at hq
      split at hq
      · obtain ⟨qs₁, hq₁, rfl⟩ := Option.map_eq_some_iff.1 hq
        exact ⟨qs₁, hq₁, hm⟩
      · exact ⟨qs, hq, hm⟩
    rcases hsame.precedes.ticket hm₁ with ⟨qs₂, hq₂, hm₂⟩ | hle
    · obtain ⟨x, hx, ht, hxa⟩ := WaitSet.mem_entries.1 hm₂
      obtain ⟨-, qs₀, hq₀, hx₀⟩ := record_forget h.linked hq₂ hx
      exact .inl ⟨qs₀, hq₀, WaitSet.mem_entries.2 ⟨x, hx₀, ht, hxa⟩⟩
    · rw [arrivals_forget] at hle
      exact .inr hle

end Revoke

/-- A thread without state is left alone. -/
theorem removeThread_cases {tb tb' : Table} {t : ThreadId} (hr : tb.removeThread t = .ok tb') :
    tb.threads.get? t = none ∧ tb' = tb ∨
      ∃ s tb₁, tb.threads.get? t = some s ∧ (forget t tb).refreshOption
          ((tb.state t).waiting.bind fun q => (tb.queue? q).bind QueueState.beneficiary) = .ok tb₁ ∧
        tb' = revoke (tb.state t).acquired tb₁ := by
  cases hs : tb.threads.get? t with
  | none =>
    simp only [removeThread, hs] at hr
    cases hr
    exact .inl ⟨rfl, rfl⟩
  | some s =>
    rw [removeThread_eq hs] at hr
    cases hw : (forget t tb).refreshOption
        ((tb.state t).waiting.bind fun q => (tb.queue? q).bind QueueState.beneficiary) with
    | error e =>
      rw [hw] at hr
      cases hr
    | ok tb₁ =>
      rw [hw] at hr
      cases hr
      exact .inr ⟨s, tb₁, rfl, rfl, rfl⟩

/-- A thread without state has no links, so nothing happens to them. -/
theorem removeThread_effect {tb tb' : Table} {t : ThreadId} (h : Sound tb)
    (hr : tb.removeThread t = .ok tb') :
    Effect tb
      { tb.links with
        base := Function.update tb.links.base t tb.policy.bounds.initial
        waiting := Function.update tb.links.waiting t none
        owner := fun q => if tb.links.owner q = some t then none else tb.links.owner q } tb' := by
  obtain ⟨hs, rfl⟩ | ⟨s, tb₁, hs, hw, rfl⟩ := removeThread_cases hr
  · have hst := state_of_absent hs
    have hown : ∀ q, tb'.links.owner q ≠ some t := by
      intro q ho
      obtain ⟨qs, hq, ho⟩ := Option.bind_eq_some_iff.1 ho
      have := h.owned hq ho
      rw [hst] at this
      cases this
    have hl : { tb'.links with
        base := Function.update tb'.links.base t tb'.policy.bounds.initial
        waiting := Function.update tb'.links.waiting t none
        owner := fun q => if tb'.links.owner q = some t then none else tb'.links.owner q } =
          tb'.links := by
      have hb : tb'.links.base t = tb'.policy.bounds.initial := by
        simp only [links, hst]
        rfl
      have hw : tb'.links.waiting t = none := by
        simp only [links, hst]
        rfl
      ext r : 2
      · rw [← hb, Function.update_eq_self]
      · rw [← hw, Function.update_eq_self]
      · simp only [if_neg (hown r)]
      · rfl
    rw [hl]
    exact .unchanged h
  · obtain ⟨hsame, hl, hset⟩ := refreshOption_spec (forget_linked h.linked)
      (forget_settledBut h) hw
    exact ⟨revoke_sound h hsame hl hset, revoke_links h hsame, revoke_precedes h hsame⟩

end ThreadKernel.Table
