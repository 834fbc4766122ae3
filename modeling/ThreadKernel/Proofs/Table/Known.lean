import ThreadKernel.Proofs.Table.References
import ThreadKernel.Proofs.Table.Walk

/-!
# ThreadKernel.Proofs.Table.Known

Who has a state, and who owns what. A state is made for whoever an operation names. A walk makes one
only for owners, who have one already, so nobody else gets a state by the way.

* `Op.Names`            — the threads that an operation is called with.
* `apply_known`         — only these may get a state.
* `removeThread_forgets` — a thread that waits nowhere has none after it was removed.
* `apply_queue?`        — only one operation makes a queue.
* `…_acquired`          — what an operation does to the queues that a thread owns.
-/

namespace ThreadKernel.Table

variable {tb tb₁ tb' : Table} {t u : ThreadId} {q r : QueueId} {op : Op}

/-! ## Changes of one state -/

theorem known_setThread {s : ThreadState} : u ∈ (tb.setThread t s).known ↔ u = t ∨ u ∈ tb.known := by
  rw [mem_known, mem_known, get?_setThread]
  split
  · rename_i htu
    exact iff_of_true rfl (.inl htu.symm)
  · rename_i htu
    exact (or_iff_right (Ne.symm htu)).symm

theorem known_ensure : u ∈ (tb.ensure t).known ↔ u = t ∨ u ∈ tb.known := by
  unfold ensure
  split
  · rename_i s hs
    refine (or_iff_right_of_imp ?_).symm
    rintro rfl
    rw [mem_known, hs]
    rfl
  · exact known_setThread

@[simp] theorem known_modifyThread (f : ThreadState → ThreadState) :
    (tb.modifyThread t f).known = tb.known := by
  ext u
  rw [mem_known, mem_known, get?_modifyThread]
  split
  · rw [Option.isSome_map]
  · rfl

@[simp] theorem known_modifyQueue (f : QueueState → QueueState) :
    (tb.modifyQueue q f).known = tb.known := rfl

@[simp] theorem known_disown : (disown q t tb).known = tb.known := known_modifyThread _

theorem known_detach (records : List WaitRecord) : ∀ tb : Table,
    (detach records tb).known = tb.known := by
  induction records with
  | nil => exact fun _ => rfl
  | cons r records ih => exact fun tb => (ih _).trans (known_modifyThread _)

theorem known_forget : u ∈ (forget t tb).known ↔ u ∈ tb.known ∧ u ≠ t := by
  have herase : (forget t tb).known = ({ tb with threads := tb.threads.erase t } : Table).known := by
    unfold forget
    split <;> rfl
  rw [herase, mem_known, mem_known, KeyMap.get?_erase]
  split
  · rename_i htu
    exact iff_of_false Bool.false_ne_true fun hu => hu.2 htu.symm
  · rename_i htu
    exact (and_iff_left (Ne.symm htu)).symm

theorem known_dissolve (qs : QueueState) : (dissolve q qs tb).known = tb.known := by
  unfold dissolve
  split
  · exact known_detach _ _
  · exact (known_modifyThread _).trans (known_detach _ _)

/-! ## Walks -/

/-- A walk changes no links, and gives a state to its first thread and to owners at most. -/
theorem refreshWithin_known (hops : Nat) : ∀ {t : ThreadId} {tb tb' : Table},
    refreshWithin hops t tb = .ok tb' → SameLinks tb tb' ∧
      ∀ u ∈ tb'.known, u = t ∨ u ∈ tb.known ∨ ∃ q, tb.links.owner q = some u := by
  induction hops with
  | zero =>
    intro t tb tb' h
    obtain ⟨value, -, ⟨-, rfl⟩ | ⟨-, rfl⟩ | ⟨q, qs, waiters, -, hq, hr, ⟨-, rfl⟩ | ⟨o, n, -, hn, -⟩⟩⟩ :=
      refreshWithin_cases h
    · exact ⟨ensure_sameLinks tb t, fun u hu => (known_ensure.1 hu).imp_right .inl⟩
    · exact ⟨setEffective_sameLinks tb t value, fun u hu => (known_setThread.1 hu).imp_right .inl⟩
    · exact ⟨reweigh_sameLinks t value hq hr, fun u hu => (known_setThread.1 hu).imp_right .inl⟩
    · cases hn
  | succ hops ih =>
    intro t tb tb' h
    obtain ⟨value, -, ⟨-, rfl⟩ | ⟨-, rfl⟩ | ⟨q, qs, waiters, -, hq, hr, ⟨-, rfl⟩ | ⟨o, n, ho, hn, hw⟩⟩⟩ :=
      refreshWithin_cases h
    · exact ⟨ensure_sameLinks tb t, fun u hu => (known_ensure.1 hu).imp_right .inl⟩
    · exact ⟨setEffective_sameLinks tb t value, fun u hu => (known_setThread.1 hu).imp_right .inl⟩
    · exact ⟨reweigh_sameLinks t value hq hr, fun u hu => (known_setThread.1 hu).imp_right .inl⟩
    · cases hn
      have hsame := reweigh_sameLinks t value hq hr
      obtain ⟨hsame', hknown⟩ := ih hw
      refine ⟨hsame.trans hsame', fun u hu => ?_⟩
      rcases hknown u hu with rfl | hu | ⟨q', hq'⟩
      · refine .inr (.inr ⟨q, ?_⟩)
        simp only [QueueState.beneficiary, Option.ite_none_right_eq_some] at ho
        simp only [links, hq, Option.bind_some, ho.2]
      · exact (known_setThread.1 hu).imp_right .inl
      · exact .inr (.inr ⟨q', hsame.links_eq ▸ hq'⟩)

theorem refreshOption_sameLinks {x : Option ThreadId} (h : tb.refreshOption x = .ok tb') :
    SameLinks tb tb' := by
  cases x with
  | none =>
    cases h
    exact .refl tb
  | some t => exact (refreshWithin_known _ h).1

/-- What is so of everybody who has a state before the walk, of all owners and of the first thread,
is so of everybody who has one after it. -/
theorem known_of_refreshOption {P : ThreadId → Prop} {x : Option ThreadId}
    (h : tb.refreshOption x = .ok tb') (hx : ∀ o, x = some o → P o) (hk : ∀ u ∈ tb.known, P u)
    (ho : ∀ q u, tb.links.owner q = some u → P u) : ∀ u ∈ tb'.known, P u := by
  cases x with
  | none =>
    cases h
    exact hk
  | some t =>
    intro u hu
    rcases (refreshWithin_known _ h).2 u hu with rfl | hu | ⟨q, hq⟩
    · exact hx u rfl
    · exact hk u hu
    · exact ho q u hq

/-! ## Who has a state already -/

theorem Sound.known_of_acquired (hq : q ∈ (tb.state u).acquired) : u ∈ tb.known := by
  obtain ⟨s, hs, -⟩ := exists_state_of_acquired hq
  rw [mem_known, hs]
  rfl

theorem Sound.known_of_owner (h : Sound tb) (ho : tb.links.owner q = some u) : u ∈ tb.known := by
  obtain ⟨qs, hq, ho⟩ := Option.bind_eq_some_iff.1 ho
  exact known_of_acquired (h.owned hq ho)

theorem Sound.known_of_record (h : Sound tb) {qs : QueueState} {x : WaitRecord}
    (hq : tb.queue? q = some qs) (hx : x ∈ qs.waiters.records) : x.thread ∈ tb.known :=
  mem_known.2 (isSome_of_waits (h.linked.waiting_of_mem hq hx))

/-! ## Who gets a state -/

/-- The threads that an operation is called with. -/
def Op.Names (u : ThreadId) : Op → Prop
  | .waitForAccess _ t | .acquire _ t | .setPriority t _ | .removeThread t => t = u
  | .createQueue _ | .destroyQueue _ | .nextThread _ | .releaseOwnership _ => False

theorem releaseOwnership_known (h : Sound tb) (hr : tb.releaseOwnership q = .ok tb')
    (hu : u ∈ tb'.known) : u ∈ tb.known := by
  obtain ⟨qs, hq, ⟨-, rfl⟩ | ⟨o, ho, hw⟩⟩ := releaseOwnership_cases hr
  · exact hu
  · have howner : tb.links.owner q = some o := by simp [links, hq, ho]
    refine known_of_refreshOption (P := (· ∈ tb.known)) hw ?_ (fun v hv => known_disown ▸ hv) ?_ u hu
    · intro v hv
      cases hv
      exact h.known_of_owner howner
    · intro r v hv
      rw [disown_links h.linked hq ho] at hv
      simp only [Function.update_apply] at hv
      split at hv
      · cases hv
      · exact h.known_of_owner hv

theorem destroyQueue_known (h : Sound tb) (hr : tb.destroyQueue q = .ok tb')
    (hu : u ∈ tb'.known) : u ∈ tb.known := by
  obtain ⟨-, rfl⟩ | ⟨qs, hq, hw⟩ := destroyQueue_cases hr
  · exact hu
  · refine known_of_refreshOption (P := (· ∈ tb.known)) hw (fun o ho => ?_)
      (fun v hv => known_dissolve qs ▸ hv) (fun r v hv => ?_) u hu
    · exact h.known_of_owner (q := q) (by simp [links, hq, ho])
    · rw [dissolve_links h.linked hq] at hv
      simp only [Function.update_apply] at hv
      split at hv
      · cases hv
      · exact h.known_of_owner hv

theorem waitForAccess_known (h : Sound tb) (hr : tb.waitForAccess q t = .ok tb')
    (hu : u ∈ tb'.known) : u ∈ tb.known ∨ t = u := by
  obtain ⟨qs, tb₁, qs₁, -, hq, hr₁, hq₁, hw⟩ := waitForAccess_cases hr
  have h₁ := (giveUp_effect h hq hr₁).sound
  have hknown : ∀ v ∈ tb₁.known, v ∈ tb.known := by
    intro v hv
    split at hr₁
    · exact releaseOwnership_known h hr₁ hv
    · cases hr₁
      exact hv
  have howner : ∀ r v, (enqueue q t tb₁).links.owner r = some v → v ∈ tb.known := by
    intro r v hv
    rw [enqueue_links hq₁] at hv
    exact hknown v (h₁.known_of_owner hv)
  refine known_of_refreshOption (P := fun v => v ∈ tb.known ∨ t = v) hw
    (fun o ho => .inl ?_) (fun v hv => ?_) (fun r v hv => .inl (howner r v hv)) u hu
  · simp only [QueueState.beneficiary, Option.ite_none_right_eq_some] at ho
    exact hknown o (h₁.known_of_owner (q := q) (by simp [links, hq₁, ho.2]))
  · exact (known_setThread.1 hv).symm.imp (hknown v) Eq.symm

theorem acquire_known (h : Sound tb) (hr : tb.acquire q t = .ok tb') (hu : u ∈ tb'.known) :
    u ∈ tb.known ∨ t = u := by
  obtain ⟨-, tb₁, hr₁, hw⟩ := acquire_cases hr
  obtain ⟨-, h₁⟩ := releaseOwnership_effect h hr₁
  have hknown : ∀ v ∈ tb₁.known, v ∈ tb.known := fun v hv => releaseOwnership_known h hr₁ hv
  refine known_of_refreshOption (P := fun v => v ∈ tb.known ∨ t = v) hw
    (fun o ho => .inr (Option.some.inj ho)) (fun v hv => ?_) (fun r v hv => ?_) u hu
  · exact (known_setThread.1 hv).symm.imp (hknown v) Eq.symm
  · have hwaiting : (tb₁.state t).waiting = tb.waitingQueue t :=
      congrFun (congrArg Links.waiting h₁.links) t
    obtain ⟨qs, hq₁, -⟩ := releaseOwnership_vacant h hr₁
    rw [seize_links h₁.sound.linked hwaiting hq₁] at hv
    simp only [Function.update_apply] at hv
    split at hv
    · exact .inr (Option.some.inj hv)
    · exact .inl (hknown v (h₁.sound.known_of_owner hv))

theorem nextThread_known {served : Option ThreadId} (h : Sound tb)
    (hr : tb.nextThread q = .ok (served, tb')) (hu : u ∈ tb'.known) : u ∈ tb.known := by
  obtain ⟨qs, g, hq, -, ⟨-, -, hr⟩ | ⟨x, hx, -, -, hr⟩⟩ := nextThread_cases hr
  · have hu : u ∈ ({ tb with random := g } : Table).known :=
      releaseOwnership_known (h.withRandom g) hr hu
    exact hu
  · have hu : u ∈ ({ tb with random := g } : Table).known ∨ x.thread = u :=
      acquire_known (h.withRandom g) hr hu
    rcases hu with hu | rfl
    · exact hu
    · exact h.known_of_record hq hx

theorem setPriority_known {p : Nat} (h : Sound tb) (hr : tb.setPriority t p = .ok tb')
    (hu : u ∈ tb'.known) : u ∈ tb.known ∨ t = u := by
  refine known_of_refreshOption (P := fun v => v ∈ tb.known ∨ t = v) (setPriority_cases hr).2
    (fun o ho => .inr (Option.some.inj ho)) (fun v hv => ?_) (fun r v hv => .inl ?_) u hu
  · exact (known_setThread.1 hv).symm.imp_right Eq.symm
  · rw [setBase_links] at hv
    exact h.known_of_owner hv

/-- The thread loses its state, unless the walk from where it waited comes back to it. -/
theorem removeThread_known (h : Sound tb) (hr : tb.removeThread t = .ok tb') (hu : u ∈ tb'.known) :
    u ∈ tb.known ∧ (tb.waitingQueue t = none → u ≠ t) := by
  obtain ⟨hs, rfl⟩ | ⟨s, tb₁, hs, hw, rfl⟩ := removeThread_cases hr
  · refine ⟨hu, ?_⟩
    rintro - rfl
    rw [mem_known, hs] at hu
    cases hu
  · have hu : u ∈ tb₁.known := by
      have hrevoke : ∀ (l : List QueueId) (tb : Table), (revoke l tb).known = tb.known := by
        intro l
        induction l with
        | nil => exact fun _ => rfl
        | cons q l ih => exact fun tb => ih _
      rwa [hrevoke] at hu
    refine ⟨known_of_refreshOption hw (fun o ho => ?_) (fun v hv => (known_forget.1 hv).1)
      (fun r v hv => ?_) u hu, fun hnone => ?_⟩
    · obtain ⟨q, -, ho⟩ := Option.bind_eq_some_iff.1 ho
      obtain ⟨qs, hq, ho⟩ := Option.bind_eq_some_iff.1 ho
      simp only [QueueState.beneficiary, Option.ite_none_right_eq_some] at ho
      exact h.known_of_owner (q := q) (by simp [links, hq, ho.2])
    · simp only [links, queue?_forget h.linked, Option.bind_map] at hv
      exact h.known_of_owner (q := r) hv
    · have hnone : (tb.state t).waiting = none := hnone
      rw [hnone] at hw
      cases hw
      exact (known_forget.1 hu).2

/-- Nobody gets a state but those that the operation is called with. -/
theorem apply_known (h : Sound tb) (ha : tb.apply op = .ok tb') (hu : u ∈ tb'.known) :
    u ∈ tb.known ∨ op.Names u := by
  cases op with
  | createQueue transfer =>
    cases ha
    exact .inl hu
  | destroyQueue q => exact .inl (destroyQueue_known h ha hu)
  | waitForAccess q t => exact waitForAccess_known h ha hu
  | acquire q t => exact acquire_known h ha hu
  | nextThread q =>
    obtain ⟨served, hn⟩ := apply_nextThread_ok ha
    exact .inl (nextThread_known h hn hu)
  | releaseOwnership q => exact .inl (releaseOwnership_known h ha hu)
  | setPriority t p => exact setPriority_known h ha hu
  | removeThread t => exact .inl (removeThread_known h ha hu).1

/-! ## Which queues there are -/

theorem isSome_queue?_iff : (tb.queue? q).isSome ↔ tb.links.transfer q ≠ none := by
  simp only [links, Option.isSome_iff_ne_none, ne_eq, Option.map_eq_none_iff]

/-- Only one operation makes a queue. -/
theorem apply_queue? (op : Op) (h : Sound tb) (ha : tb.apply op = .ok tb') (hq : (tb'.queue? q).isSome) :
    (tb.queue? q).isSome ∨ ∃ transfer, op = .createQueue transfer := by
  rw [isSome_queue?_iff] at hq ⊢
  have hsame : ∀ {after : Links}, Effect tb after tb' → after.transfer = tb.links.transfer →
      tb.links.transfer q ≠ none := fun he ht => ht ▸ he.links ▸ hq
  cases op with
  | createQueue transfer => exact .inr ⟨transfer, rfl⟩
  | destroyQueue r =>
    refine .inl fun hnone => hq ?_
    rw [(destroyQueue_effect h ha).links]
    simp only [Function.update_apply, hnone, ite_self]
  | waitForAccess r t => exact .inl (hsame (waitForAccess_effect h ha).2.2 rfl)
  | acquire r t => exact .inl (hsame (acquire_effect h ha).2.2 rfl)
  | nextThread r =>
    obtain ⟨served, hn⟩ := apply_nextThread_ok ha
    obtain ⟨qs, -, ⟨-, -, he⟩ | ⟨x, -, -, -, he⟩⟩ := nextThread_effect h hn <;>
      exact .inl (hsame he rfl)
  | releaseOwnership r => exact .inl (hsame (releaseOwnership_effect h ha).2 rfl)
  | setPriority t p => exact .inl (hsame (setPriority_effect h ha).2 rfl)
  | removeThread t => exact .inl (hsame (removeThread_effect h ha) rfl)

/-! ## What a thread owns -/

theorem Sound.not_mem_acquired {o : ThreadId} (h : Sound tb) (ho : tb.links.owner q = some o)
    (hu : u ≠ o) : q ∉ (tb.state u).acquired := by
  intro hq
  obtain ⟨qs, hqs, ho'⟩ := h.linked.owner_of_acquired hq
  simp only [links, hqs, Option.bind_some, ho', Option.some.injEq] at ho
  exact hu ho

theorem releaseOwnership_acquired (h : Sound tb) (hr : tb.releaseOwnership q = .ok tb') :
    (tb'.state u).acquired = (tb.state u).acquired.filter (· ≠ q) := by
  obtain ⟨qs, hq, ⟨ho, rfl⟩ | ⟨o, ho, hw⟩⟩ := releaseOwnership_cases hr
  · refine (filter_ne_eq_self fun hu => ?_).symm
    exact nomatch ho.symm.trans (acquired_by_owner h.linked hq hu)
  · rw [(refreshOption_sameLinks hw).acquired, state_disown h.linked hq ho]

theorem destroyQueue_acquired (h : Sound tb) (hr : tb.destroyQueue q = .ok tb') :
    (tb'.state u).acquired = (tb.state u).acquired.filter (· ≠ q) := by
  obtain ⟨hq, rfl⟩ | ⟨qs, hq, hw⟩ := destroyQueue_cases hr
  · exact (filter_ne_eq_self (h.linked.unnamed hq u).2).symm
  · rw [(refreshOption_sameLinks hw).acquired, state_dissolve h.linked hq]

/-- A thread that is handed the queue has it besides those that it owned. -/
theorem acquire_acquired (h : Sound tb) (hr : tb.acquire q t = .ok tb') :
    (tb'.state u).acquired.filter (· ≠ q) = (tb.state u).acquired.filter (· ≠ q) := by
  obtain ⟨-, tb₁, hr₁, hw⟩ := acquire_cases hr
  rw [(refreshOption_sameLinks hw).acquired, state_seize]
  split
  · rw [List.filter_append, releaseOwnership_acquired h hr₁, List.filter_filter]
    simp
  · rw [releaseOwnership_acquired h hr₁, List.filter_filter]
    simp

theorem nextThread_acquired {served : Option ThreadId} (h : Sound tb)
    (hr : tb.nextThread q = .ok (served, tb')) :
    (tb'.state u).acquired.filter (· ≠ q) = (tb.state u).acquired.filter (· ≠ q) := by
  obtain ⟨qs, g, -, -, ⟨-, -, hr⟩ | ⟨x, -, -, -, hr⟩⟩ := nextThread_cases hr
  · rw [releaseOwnership_acquired (h.withRandom g) hr, List.filter_filter]
    simp only [Bool.and_self]
    rfl
  · have hkept : (tb'.state u).acquired.filter (· ≠ q) =
        (({ tb with random := g } : Table).state u).acquired.filter (· ≠ q) :=
      acquire_acquired (h.withRandom g) hr
    exact hkept

theorem removeThread_acquired (hr : tb.removeThread t = .ok tb') (hu : u ≠ t) :
    (tb'.state u).acquired = (tb.state u).acquired := by
  obtain ⟨-, rfl⟩ | ⟨s, tb₁, -, hw, rfl⟩ := removeThread_cases hr
  · rfl
  · obtain ⟨-, -, hstate⟩ := revoke_rest (tb.state t).acquired tb₁
    rw [hstate, state_forgotten (refreshOption_sameLinks hw), if_neg hu.symm]

end ThreadKernel.Table
