import ThreadKernel.Proofs.Table.Known

/-!
# ThreadKernel.Proofs.Table.Frame

What fixes a table. A walk changes effective values, weights and the order of records, and these are
fixed by all the rest: the values by the donors, the records by the arrivals, and the order by the
policy, which leaves no two records of one queue in a tie.

* `Table.SameFrame`           — two tables that differ in nothing but what a walk changes.
* `refreshWithin_sameFrame`   — a walk leaves the frame as it was, if it meets threads with a state.
* `SameLinks.waiters_eq`      — the order of a wait set is unique.
* `Sound.eq_of_sameFrame`     — a sound table without cycles is fixed by its frame.
-/

namespace ThreadKernel

/-- Two records of which neither ranks before the other came together. -/
theorem Policy.arrival_eq_of_compare (p : Policy) {a b : WaitRecord} (hab : p.compare a b ≠ .gt)
    (hba : p.compare b a ≠ .gt) : a.arrival = b.arrival := by
  cases p with
  | priority => rw [compare_priority_ne_gt] at *; omega
  | lottery => rw [compare_lottery_ne_gt] at *; omega

/-- Storage is fixed by its lookups and the numbers it hands out. -/
theorem Arena.ext_get? {α : Type} {a b : Arena α} (h : ∀ k, a.get? k = b.get? k)
    (hfree : a.free = b.free) (hfresh : a.fresh = b.fresh) : a = b := by
  have hcells : a.cells = b.cells := KeyMap.ext_get? h
  cases a
  cases b
  simp only at hcells hfree hfresh
  subst hcells hfree hfresh
  rfl

namespace Table

open Relation

variable {tb tb₁ tb₂ tb₃ tb' : Table} {t u : ThreadId} {q : QueueId} {qs : QueueState}

/-! ## The frame -/

/-- Besides the links, the random source, the numbers for new queues and the threads with a state
are the same. -/
structure SameFrame (tb tb' : Table) : Prop extends SameLinks tb tb' where
  random : tb'.random = tb.random
  free : tb'.queues.free = tb.queues.free
  fresh : tb'.queues.fresh = tb.queues.fresh
  known : tb'.known = tb.known

theorem SameQueue.symm {qs qs' : QueueState} (h : SameQueue qs qs') : SameQueue qs' qs :=
  ⟨h.transfer.symm, h.owner.symm, h.entries.symm⟩

theorem SameLinks.symm (h : SameLinks tb tb') : SameLinks tb' tb where
  policy := h.policy.symm
  arrivals := h.arrivals.symm
  state t := by
    obtain ⟨e, he⟩ := h.state t
    exact ⟨(tb.state t).effective, by rw [he]⟩
  absent {q} hq := by
    cases hq₀ : tb.queue? q with
    | none => rfl
    | some qs =>
      obtain ⟨qs', hq', -⟩ := h.queue hq₀
      rw [hq] at hq'
      cases hq'
  queue hq' := by
    obtain ⟨qs, hq, hs⟩ := h.queue_rev hq'
    exact ⟨qs, hq, hs.symm⟩

namespace SameFrame

theorem refl (tb : Table) : SameFrame tb tb := ⟨.refl tb, rfl, rfl, rfl, rfl⟩

theorem symm (h : SameFrame tb tb') : SameFrame tb' tb :=
  ⟨h.toSameLinks.symm, h.random.symm, h.free.symm, h.fresh.symm, h.known.symm⟩

theorem trans (h : SameFrame tb₁ tb₂) (h' : SameFrame tb₂ tb₃) : SameFrame tb₁ tb₃ :=
  ⟨h.toSameLinks.trans h'.toSameLinks, h'.random.trans h.random, h'.free.trans h.free,
    h'.fresh.trans h.fresh, h'.known.trans h.known⟩

end SameFrame

/-! ## Walks -/

theorem known_setThread_of_mem {s : ThreadState} (h : t ∈ tb.known) :
    (tb.setThread t s).known = tb.known := by
  ext u
  rw [known_setThread]
  exact or_iff_right_of_imp fun e => e ▸ h

theorem ensure_of_mem (h : t ∈ tb.known) : tb.ensure t = tb := by
  obtain ⟨s, hs⟩ := Option.isSome_iff_exists.1 (mem_known.1 h)
  rw [ensure, hs]

theorem free_modifyQueue (f : QueueState → QueueState) :
    (tb.modifyQueue q f).queues.free = tb.queues.free := by
  unfold modifyQueue Arena.modify
  dsimp only
  split <;> rfl

theorem fresh_modifyQueue (f : QueueState → QueueState) :
    (tb.modifyQueue q f).queues.fresh = tb.queues.fresh := by
  unfold modifyQueue Arena.modify
  dsimp only
  split <;> rfl

/-- Everybody that a walk from `t` may come to has a state. -/
def AheadKnown (tb : Table) (t : ThreadId) : Prop :=
  ∀ u, ReflTransGen tb.Donates t u → u ∈ tb.known

/-- A walk goes on to owners only. -/
theorem aheadKnown_of_owners (ht : t ∈ tb.known)
    (ho : ∀ q u, tb.links.owner q = some u → u ∈ tb.known) : tb.AheadKnown t := by
  intro u htu
  rcases ReflTransGen.cases_tail htu with rfl | ⟨v, -, hd⟩
  · exact ht
  · obtain ⟨q, -, -, hu⟩ := donates_iff_links.1 hd
    exact ho q u hu

/-- A walk that gives nobody a state leaves the frame as it was. -/
theorem refreshWithin_sameFrame (hops : Nat) : ∀ {t : ThreadId} {tb tb' : Table},
    tb.AheadKnown t → refreshWithin hops t tb = .ok tb' → SameFrame tb tb' := by
  induction hops using Nat.strongRecOn with
  | ind hops ih =>
    intro t tb tb' hk hr
    have ht : t ∈ tb.known := hk t .refl
    obtain ⟨value, -, ⟨-, rfl⟩ | ⟨-, rfl⟩ | ⟨q, qs, waiters, hw, hq, hrr, hc⟩⟩ :=
      refreshWithin_cases hr
    · rw [ensure_of_mem ht]
      exact .refl tb
    · exact ⟨setEffective_sameLinks tb t value, rfl, rfl, rfl, known_setThread_of_mem ht⟩
    · have hframe : SameFrame tb (reweigh t value q waiters tb) :=
        ⟨reweigh_sameLinks t value hq hrr, rfl, free_modifyQueue _, fresh_modifyQueue _,
          known_setThread_of_mem ht⟩
      rcases hc with ⟨-, rfl⟩ | ⟨o, n, hb, rfl, hrest⟩
      · exact hframe
      · have hd : tb.Donates t o := by
          simp only [QueueState.beneficiary, Option.ite_none_right_eq_some] at hb
          exact ⟨q, qs, hw, hq, hb⟩
        have hk' : (reweigh t value q waiters tb).AheadKnown o := by
          intro u hou
          rw [hframe.known]
          exact hk u (.head hd (ReflTransGen.mono (fun _ _ => hframe.donates_iff.1) _ _ hou))
        exact hframe.trans (ih n (Nat.lt_succ_self n) hk' hrest)

/-! ## Uniqueness -/

/-- Without cycles the values follow from the base values and the links. -/
theorem SameLinks.effective_eq (h : SameLinks tb₁ tb₂) (h₁ : Sound tb₁) (h₂ : Sound tb₂)
    (hac : Acyclic tb₁) (t : ThreadId) : tb₂.effective t = tb₁.effective t := by
  have hd : tb₂.Donates = tb₁.Donates := funext₂ fun _ _ => propext h.donates_iff
  have hac₂ : Acyclic tb₂ := hac.mono fun _ _ => h.donates_iff.1
  exact effective_congr_donors h₁ h₂ hac hac₂ h.policy (funext h.base) fun _ => by rw [hd]

/-- The records of a queue, rebuilt from who waits there and since when. -/
theorem Sound.records_eq (h : Sound tb) (hq : tb.queue? q = some qs) :
    qs.waiters.records = qs.waiters.entries.map fun e => ⟨e.1, tb.effective e.1, e.2⟩ := by
  rw [WaitSet.entries, List.map_map]
  refine List.ext_getElem (List.length_map _).symm fun i hi _ => ?_
  have hw := h.settled.weight hq (List.getElem_mem hi)
  rw [List.getElem_map, Function.comp_apply, effective, ← hw]

/-- No two records of a queue are in a tie, so there is one order for them. -/
theorem SameLinks.waiters_eq (h : SameLinks tb₁ tb₂) (h₁ : Sound tb₁) (h₂ : Sound tb₂)
    (heff : ∀ t, tb₂.effective t = tb₁.effective t) {qs₁ qs₂ : QueueState}
    (hq₁ : tb₁.queue? q = some qs₁) (hq₂ : tb₂.queue? q = some qs₂) (hs : SameQueue qs₁ qs₂) :
    qs₂.waiters = qs₁.waiters := by
  have hperm : qs₂.waiters.records.Perm qs₁.waiters.records := by
    rw [h₁.records_eq hq₁, h₂.records_eq hq₂, funext heff]
    exact hs.entries.map _
  have hr₁ := h₁.linked.ranked hq₁
  have hr₂ := h₂.linked.ranked hq₂
  rw [h.policy] at hr₂
  have hrecords : qs₂.waiters.records = qs₁.waiters.records := by
    refine hperm.eq_of_pairwise (fun a b ha hb hab hba => ?_) hr₂.sorted hr₁.sorted
    have ha := hperm.mem_iff.1 ha
    have harr := tb₁.policy.arrival_eq_of_compare hab hba
    have hthread := h₁.linked.arrival_inj hq₁ hq₁ ha hb harr
    have hweight : a.weight = b.weight := by
      rw [h₁.settled.weight hq₁ ha, h₁.settled.weight hq₁ hb, hthread]
    cases a
    cases b
    simp_all
  have hsum : qs₂.waiters.weightSum = qs₁.waiters.weightSum := by
    rw [hr₁.sum, hr₂.sum, WaitSet.weights, WaitSet.weights, hrecords]
  cases hw₁ : qs₁.waiters
  cases hw₂ : qs₂.waiters
  simp_all

theorem Sound.eq_of_sameFrame (h₁ : Sound tb₁) (h₂ : Sound tb₂) (hac : Acyclic tb₁)
    (h : SameFrame tb₁ tb₂) : tb₂ = tb₁ := by
  have heff := h.effective_eq h₁ h₂ hac
  have hstate : ∀ t, tb₂.state t = tb₁.state t := by
    intro t
    obtain ⟨e, he⟩ := h.state t
    have heq : e = (tb₁.state t).effective := by
      have heq := heff t
      rwa [effective, he] at heq
    rw [he, heq]
  have hthreads : tb₂.threads = tb₁.threads := by
    refine KeyMap.ext_get? fun t => ?_
    have hk : t ∈ tb₂.known ↔ t ∈ tb₁.known := by rw [h.known]
    rw [mem_known, mem_known] at hk
    cases hg₂ : tb₂.threads.get? t with
    | none =>
      cases hg₁ : tb₁.threads.get? t with
      | none => rfl
      | some s₁ =>
        rw [hg₁, hg₂] at hk
        cases hk.2 rfl
    | some s₂ =>
      rw [hg₂] at hk
      obtain ⟨s₁, hg₁⟩ := Option.isSome_iff_exists.1 (hk.1 rfl)
      rw [hg₁, ← state_of_get? hg₁, ← state_of_get? hg₂, hstate]
  have hqueue : ∀ q, tb₂.queue? q = tb₁.queue? q := by
    intro q
    cases hq₁ : tb₁.queue? q with
    | none => exact h.absent hq₁
    | some qs₁ =>
      obtain ⟨qs₂, hq₂, hs⟩ := h.queue hq₁
      have hw := h.waiters_eq h₁ h₂ heff hq₁ hq₂ hs
      obtain ⟨htr, ho, -⟩ := hs
      rw [hq₂]
      cases qs₁
      cases qs₂
      simp_all
  have hqueues : tb₂.queues = tb₁.queues :=
    Arena.ext_get? (fun k => hqueue ⟨k⟩) h.free h.fresh
  have hpolicy := h.policy
  have harrivals := h.arrivals
  have hrandom := h.random
  cases tb₁
  cases tb₂
  simp only at hthreads hqueues hpolicy harrivals hrandom
  subst hthreads hqueues hpolicy harrivals hrandom
  rfl

end Table
end ThreadKernel
