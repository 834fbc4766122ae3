import ThreadKernel.Proofs.WaitSet.History
import ThreadKernel.Proofs.Table.Consistency

/-!
# ThreadKernel.Proofs.Table.Portions

Donations in portions. What a thread is given depends on the records that wait for it, and neither
on the order of its queues nor on how the records are spread over them. The lottery cuts a sum off
twice, for each queue and again for the owner, and it does not matter where it does.

* `Policy.combineSets`         — a value with the donations of some wait sets.
* `Policy.combineSets_eq`      — it is the value with the weights of all their records.
* `Policy.combineSets_spread`  — so it is the same for the same records.
* `Policy.Additive`            — the laws of donations, for sets and for threads of a table.
* `donations_additive`         — both policies obey them.
-/

namespace ThreadKernel

/-- The set is what some insertions and removals made of the empty one. -/
def WaitSet.Built (p : Policy) (s : WaitSet) : Prop := ∃ ops, WaitSet.ofOps p ops = s

theorem WaitSet.Built.ranked {p : Policy} {s : WaitSet} (h : WaitSet.Built p s) :
    WaitSet.Ranked p s := by
  obtain ⟨ops, rfl⟩ := h
  exact ranked_ofOps p ops

namespace Policy

variable {p : Policy} {v : Nat} {sets sets' : List WaitSet} {A B C : WaitSet}

/-! ## Wait sets one after the other -/

/-- `v` combined with the donations of the sets, one after the other. -/
def combineSets (p : Policy) (v : Nat) (sets : List WaitSet) : Nat :=
  (sets.map p.donation).foldl p.combine v

/-- A value that something was combined with can be stored. -/
theorem combine_combine_zero (p : Policy) (v w : Nat) :
    p.combine (p.combine v w) 0 = p.combine v w := by
  cases p <;>
    · simp only [combine]
      omega

/-- It is cut off when something is combined with it, if not before. -/
theorem combine_zero_combine (p : Policy) (v w : Nat) :
    p.combine (p.combine v 0) w = p.combine v w := by
  cases p <;>
    · simp only [combine]
      omega

theorem combineSets_eq (h : ∀ s ∈ sets, s.Ranked p) (hv : p.combine v 0 = v) :
    p.combineSets v sets = (sets.flatMap WaitSet.weights).foldl p.combine v := by
  induction sets generalizing v with
  | nil => rfl
  | cons s sets ih =>
    have hs := combine_donation (h s List.mem_cons_self) v
    rw [hv] at hs
    have ih := ih (fun s hs => h s (List.mem_cons_of_mem _ hs))
      (p.combine_combine_zero v (p.donation s))
    calc p.combineSets v (s :: sets) = p.combineSets (p.combine v (p.donation s)) sets := rfl
      _ = (sets.flatMap WaitSet.weights).foldl p.combine (p.combine v (p.donation s)) := ih
      _ = ((s :: sets).flatMap WaitSet.weights).foldl p.combine v := by
        rw [hs, List.flatMap_cons, List.foldl_append]

/-- The order in which the sets are combined does not matter. -/
theorem combineSets_perm (v : Nat) (h : sets.Perm sets') :
    p.combineSets v sets = p.combineSets v sets' := by
  rw [combineSets, combineSets, (h.map p.donation).foldl_eq]

/-- Nor does it matter in which of the sets a record is. -/
theorem combineSets_spread (h : ∀ s ∈ sets, s.Ranked p) (h' : ∀ s ∈ sets', s.Ranked p)
    (hv : p.combine v 0 = v)
    (hp : (sets.flatMap WaitSet.records).Perm (sets'.flatMap WaitSet.records)) :
    p.combineSets v sets = p.combineSets v sets' := by
  have hweights : ∀ l : List WaitSet, l.flatMap WaitSet.weights =
      (l.flatMap WaitSet.records).map WaitRecord.weight := fun l => by
    rw [List.map_flatMap]
    rfl
  rw [combineSets_eq h hv, combineSets_eq h' hv, hweights, hweights,
    (hp.map WaitRecord.weight).foldl_eq]

/-- A set that is split in two gives the same in two portions, whatever it is combined with. -/
theorem combine_split (hA : A.Ranked p) (hB : B.Ranked p) (hC : C.Ranked p)
    (hp : C.records.Perm (A.records ++ B.records)) (v : Nat) :
    p.combine (p.combine v (p.donation A)) (p.donation B) = p.combine v (p.donation C) := by
  have hAB : ∀ s ∈ [A, B], s.Ranked p := by simp [hA, hB]
  have hC : ∀ s ∈ [C], s.Ranked p := by simp [hC]
  calc p.combine (p.combine v (p.donation A)) (p.donation B)
      = p.combineSets (p.combine v 0) [A, B] := by
        rw [← p.combine_zero_combine v (p.donation A)]
        rfl
    _ = p.combineSets (p.combine v 0) [C] :=
        combineSets_spread hAB hC (p.combine_combine_zero v 0) (by simpa using hp.symm)
    _ = p.combine v (p.donation C) := p.combine_zero_combine v (p.donation C)

end Policy

/-! ## Threads of a table -/

namespace Table

variable {tb tb' : Table} {t t' : ThreadId} {q : QueueId}

/-- The waiters of a queue that transfers. -/
def transferred? (tb : Table) (q : QueueId) : Option WaitSet :=
  (tb.queue? q).bind fun qs => if qs.transfer then some qs.waiters else none

/-- The waiters that donate to `t`, for each queue in the order in which `t` acquired them. -/
def givers (tb : Table) (t : ThreadId) : List WaitSet :=
  (tb.state t).acquired.filterMap tb.transferred?

theorem queueDonation_eq (tb : Table) (q : QueueId) :
    tb.queueDonation q = (tb.transferred? q).map tb.policy.donation := by
  rw [queueDonation, transferred?, Option.map_bind]
  refine congrArg (Option.bind _) (funext fun qs => ?_)
  rw [Function.comp_apply]
  split <;> rfl

theorem Sound.effective_eq_combineSets (h : Sound tb) (t : ThreadId) :
    tb.effective t = tb.policy.combineSets (tb.priority t) (tb.givers t) := by
  have hex : ∀ q ∈ (tb.state t).acquired, (tb.queue? q).isSome := by
    intro q hq
    obtain ⟨qs, hqs, -⟩ := h.linked.owner_of_acquired hq
    rw [hqs]
    rfl
  have hdonations : (tb.state t).acquired.filterMap tb.queueDonation =
      (tb.givers t).map tb.policy.donation := by
    rw [givers, List.map_filterMap, funext tb.queueDonation_eq]
  have hv := h.settled.value t (by simp)
  rw [donatedValue_eq, combineDonations_eq_foldl hex, hdonations] at hv
  exact (Except.ok.inj hv).symm

theorem Sound.givers_ranked (h : Sound tb) : ∀ s ∈ tb.givers t, s.Ranked tb.policy := by
  intro s hs
  obtain ⟨q, -, hq⟩ := List.mem_filterMap.1 hs
  obtain ⟨qs, hqs, hs⟩ := Option.bind_eq_some_iff.1 hq
  split at hs
  · cases hs
    exact h.linked.ranked hqs
  · cases hs

/-- Threads with the same base value for whom the same records wait have the same value. -/
theorem Sound.effective_congr (h : Sound tb) (h' : Sound tb') (hpolicy : tb'.policy = tb.policy)
    (hbase : tb'.priority t' = tb.priority t)
    (hp : ((tb.givers t).flatMap WaitSet.records).Perm
      ((tb'.givers t').flatMap WaitSet.records)) : tb.effective t = tb'.effective t' := by
  have hranked := h'.givers_ranked (t := t')
  rw [hpolicy] at hranked
  rw [h.effective_eq_combineSets, h'.effective_eq_combineSets, hpolicy, hbase]
  exact Policy.combineSets_spread h.givers_ranked hranked
    (Policy.combine_zero ((h.settled.base_le t).trans (Policy.greatest_le _))) hp

end Table

/-! ## The laws of donations -/

/-- How a policy combines what it takes from wait sets. -/
structure Policy.Additive (p : Policy) : Prop where
  /-- A value with the donations of some sets is what it is worth with the weights of all their
  records. -/
  total : ∀ v ≤ maxPriority, ∀ sets : List WaitSet, (∀ s ∈ sets, WaitSet.Built p s) →
    p.combineSets v sets = WaitSet.worth p (v :: sets.flatMap WaitSet.weights)
  order : ∀ v (sets sets' : List WaitSet), sets.Perm sets' →
    p.combineSets v sets = p.combineSets v sets'
  split : ∀ v A B C, WaitSet.Built p A → WaitSet.Built p B → WaitSet.Built p C →
    C.records.Perm (A.records ++ B.records) →
      p.combine (p.combine v (p.donation A)) (p.donation B) = p.combine v (p.donation C)
  spread : ∀ v ≤ maxPriority, ∀ sets sets' : List WaitSet, (∀ s ∈ sets, WaitSet.Built p s) →
    (∀ s ∈ sets', WaitSet.Built p s) →
      (sets.flatMap WaitSet.records).Perm (sets'.flatMap WaitSet.records) →
        p.combineSets v sets = p.combineSets v sets'
  /-- Threads with the same base value for whom the same records wait have the same value, however
  they acquired their queues, and in whatever queues the records are. -/
  effective : ∀ tb tb' t t', Table.Reachable p tb → Table.Reachable p tb' →
    tb'.priority t' = tb.priority t →
      ((tb.givers t).flatMap WaitSet.records).Perm ((tb'.givers t').flatMap WaitSet.records) →
        tb.effective t = tb'.effective t'
  monotone : ∀ v v' w w', v ≤ v' → w ≤ w' → p.combine v w ≤ p.combine v' w'
  added : ∀ s r, WaitSet.Built p s → p.donation s ≤ p.donation (s.insert p r)
  raised : ∀ s s' r rest w, WaitSet.Built p s → WaitSet.Built p s' → s.records.Perm (r :: rest) →
    s'.records.Perm ({ r with weight := w } :: rest) → r.weight ≤ w → p.donation s ≤ p.donation s'

theorem donations_additive (p : Policy) : p.Additive where
  total _ hv _ h := (Policy.combineSets_eq (fun s hs => (h s hs).ranked)
    (Policy.combine_zero hv)).trans (WaitSet.foldl_combine_eq_worth hv _)
  order v _ _ h := Policy.combineSets_perm v h
  split v _ _ _ hA hB hC hp := Policy.combine_split hA.ranked hB.ranked hC.ranked hp v
  spread _ hv _ _ h h' hp := Policy.combineSets_spread (fun s hs => (h s hs).ranked)
    (fun s hs => (h' s hs).ranked) (Policy.combine_zero hv) hp
  effective tb tb' t t' h h' hbase hp := by
    obtain ⟨hpolicy, hs⟩ := h.sound
    obtain ⟨hpolicy', hs'⟩ := h'.sound
    exact hs.effective_congr hs' (hpolicy'.trans hpolicy.symm) hbase hp
  monotone _ _ _ _ hv hw := p.combine_mono hv hw
  added s r h := Policy.donation_le_cons h.ranked (h.ranked.insert r) (WaitSet.insert_perm p r s)
  raised _ _ _ _ _ h h' hp hp' hw := Policy.donation_le_of_perm h.ranked h'.ranked hp hp' hw

/-- Two records of all tickets are cut off in their set, or apart from each other. -/
example : Policy.lottery.combineSets 7
    [.ofOps .lottery [.insert ⟨⟨1⟩, maxPriority, 0⟩, .insert ⟨⟨2⟩, maxPriority, 1⟩],
      .ofOps .lottery [.insert ⟨⟨3⟩, 5, 2⟩]] = maxPriority ∧
    Policy.lottery.combineSets 7
    [.ofOps .lottery [.insert ⟨⟨1⟩, maxPriority, 0⟩, .insert ⟨⟨3⟩, 5, 2⟩],
      .ofOps .lottery [.insert ⟨⟨2⟩, maxPriority, 1⟩]] = maxPriority := by
  decide

end ThreadKernel
