import ThreadKernel.Selection
import Mathlib.Algebra.GroupWithZero.Nat
import Mathlib.Data.List.Perm.Basic
import Mathlib.Data.List.TakeWhile

/-!
# ThreadKernel.Proofs.WaitSet

Wait sets stay ranked. Inserting and removing records keeps them in the order of the policy and
keeps the running sum of weights exact.

* `WaitSet.Ranked`        — the order and the sum, kept by `insert` and by taking a record out.
* `WaitSet.insert_perm`   — an insertion adds its record and nothing else.
* `WaitSet.remove_split`  — a removal takes out the first record of the thread.
* `Policy.combine_donation` — a donation combined with a value is the weights combined one by one.
* `Policy.le_donation`    — it is worth no less than one weight, and falls with every weight.
-/

namespace ThreadKernel

namespace Policy

/-! ## The order of a policy -/

theorem compare_priority_ne_gt {a b : WaitRecord} :
    Policy.priority.compare a b ≠ .gt ↔
      b.weight < a.weight ∨ b.weight = a.weight ∧ a.arrival ≤ b.arrival := by
  rw [compare]
  rcases Nat.lt_trichotomy b.weight a.weight with h | h | h
  · simp [Nat.compare_eq_lt.2 h, h]
  · rw [Nat.compare_eq_eq.2 h, Ordering.then, Nat.compare_ne_gt]
    omega
  · simp only [Nat.compare_eq_gt.2 h, Ordering.then, ne_eq, not_true_eq_false, false_iff]
    omega

theorem compare_lottery_ne_gt {a b : WaitRecord} :
    Policy.lottery.compare a b ≠ .gt ↔ a.arrival ≤ b.arrival := by
  rw [compare, Nat.compare_ne_gt]

theorem compare_trans (p : Policy) {a b c : WaitRecord} (hab : p.compare a b ≠ .gt)
    (hbc : p.compare b c ≠ .gt) : p.compare a c ≠ .gt := by
  cases p with
  | priority => rw [compare_priority_ne_gt] at *; omega
  | lottery => rw [compare_lottery_ne_gt] at *; omega

theorem compare_total (p : Policy) {a b : WaitRecord} (h : p.compare a b = .gt) :
    p.compare b a ≠ .gt := by
  have hn : ¬ p.compare a b ≠ .gt := fun hne => hne h
  cases p with
  | priority => rw [compare_priority_ne_gt] at *; omega
  | lottery => rw [compare_lottery_ne_gt] at *; omega

end Policy

namespace WaitSet

/-- The threads that wait, in the order of their records. -/
def threads (s : WaitSet) : List ThreadId := s.records.map WaitRecord.thread

/-- The weights of the records, in their order. -/
def weights (s : WaitSet) : List Nat := s.records.map WaitRecord.weight

/-- The records stand in the order of the policy, and the running sum is exact. -/
structure Ranked (p : Policy) (s : WaitSet) : Prop where
  sorted : s.records.Pairwise (fun a b => p.compare a b ≠ .gt)
  sum : s.weightSum = s.weights.sum

theorem ranked_empty (p : Policy) : Ranked p ∅ := ⟨.nil, rfl⟩

theorem mem_threads {s : WaitSet} {t : ThreadId} :
    t ∈ s.threads ↔ ∃ r ∈ s.records, r.thread = t := List.mem_map

/-- Under priorities no record outranks the first, and none that is as heavy arrived earlier. -/
theorem Ranked.le_head {s : WaitSet} {r x : WaitRecord} (h : Ranked .priority s)
    (hr : s.records.head? = some r) (hx : x ∈ s.records) :
    x.weight < r.weight ∨ x.weight = r.weight ∧ r.arrival ≤ x.arrival := by
  obtain ⟨rest, hrest⟩ := List.head?_eq_some_iff.1 hr
  rw [hrest] at hx
  rcases List.mem_cons.1 hx with rfl | hx
  · exact .inr ⟨rfl, Nat.le_refl _⟩
  · have hs := h.sorted
    rw [hrest] at hs
    exact Policy.compare_priority_ne_gt.1 (List.rel_of_pairwise_cons hs hx)

/-! ## Insertion -/

theorem insert_perm (p : Policy) (r : WaitRecord) (s : WaitSet) :
    (s.insert p r).records.Perm (r :: s.records) := by
  have h : (s.insert p r).records.Perm
      (r :: (s.records.takeWhile (staysBefore p r) ++ s.records.dropWhile (staysBefore p r))) :=
    List.perm_middle
  rwa [List.takeWhile_append_dropWhile] at h

theorem mem_insert {p : Policy} {r x : WaitRecord} {s : WaitSet} :
    x ∈ (s.insert p r).records ↔ x = r ∨ x ∈ s.records := by
  rw [(insert_perm p r s).mem_iff, List.mem_cons]

/-- A record that does not stay before a new one ranks behind it, and so do all after it. -/
theorem behind_dropWhile {p : Policy} {r : WaitRecord} {l : List WaitRecord}
    (h : l.Pairwise (fun a b => p.compare a b ≠ .gt)) :
    ∀ x ∈ l.dropWhile (staysBefore p r), p.compare x r = .gt := by
  induction l with
  | nil => intro x hx; cases hx
  | cons a l ih =>
    obtain ⟨ha, hl⟩ := List.pairwise_cons.1 h
    intro x hx
    by_cases hs : staysBefore p r a = true
    · rw [List.dropWhile_cons_of_pos hs] at hx
      exact ih hl x hx
    · rw [List.dropWhile_cons_of_neg hs] at hx
      have hgt : p.compare a r = .gt := by simpa [staysBefore] using hs
      rcases List.mem_cons.1 hx with rfl | hx
      · exact hgt
      · by_contra hne
        exact p.compare_trans (ha x hx) hne hgt

theorem stays_takeWhile {p : Policy} {r : WaitRecord} {l : List WaitRecord} :
    ∀ x ∈ l.takeWhile (staysBefore p r), p.compare x r ≠ .gt := by
  intro x hx
  simpa [staysBefore] using List.mem_takeWhile_imp hx

theorem Ranked.insert {p : Policy} {s : WaitSet} (h : Ranked p s) (r : WaitRecord) :
    Ranked p (s.insert p r) := by
  constructor
  · have hb := behind_dropWhile (r := r) h.sorted
    have hs := h.sorted
    rw [← List.takeWhile_append_dropWhile (p := staysBefore p r) (l := s.records)] at hs
    obtain ⟨h1, h2, h12⟩ := List.pairwise_append.1 hs
    refine List.pairwise_append.2
      ⟨h1, List.pairwise_cons.2 ⟨fun x hx => p.compare_total (hb x hx), h2⟩, ?_⟩
    intro a ha b hb'
    rcases List.mem_cons.1 hb' with rfl | hb'
    · exact stays_takeWhile a ha
    · exact h12 a ha b hb'
  · have hp := ((insert_perm p r s).map WaitRecord.weight).sum_nat
    show s.weightSum + r.weight = _
    rw [weights, hp, List.map_cons, List.sum_cons, h.sum, weights, Nat.add_comm]

/-! ## Removal -/

theorem find?_eq_none_iff {s : WaitSet} {t : ThreadId} : s.find? t = none ↔ t ∉ s.threads := by
  simp only [find?, List.find?_eq_none, mem_threads, decide_eq_true_eq, not_exists, not_and]

theorem remove_eq_none_iff {s : WaitSet} {t : ThreadId} : s.remove t = none ↔ t ∉ s.threads := by
  rw [← find?_eq_none_iff, remove]
  split <;> simp_all

theorem remove_split {s s' : WaitSet} {t : ThreadId} {r : WaitRecord}
    (h : s.remove t = some (r, s')) :
    ∃ l₁ l₂, s.records = l₁ ++ r :: l₂ ∧ (∀ x ∈ l₁, x.thread ≠ t) ∧ r.thread = t ∧
      s' = ⟨l₁ ++ l₂, s.weightSum - r.weight⟩ := by
  simp only [remove] at h
  split at h
  · cases h
  · rename_i r' hr
    cases h
    obtain ⟨ht, l₁, l₂, heq, hl⟩ := List.find?_eq_some_iff_append.1 hr
    refine ⟨l₁, l₂, heq, by simpa using hl, by simpa using ht, ?_⟩
    rw [heq, List.eraseP_append_right _ (by simpa using hl), List.eraseP_cons, ht, cond_true]

theorem remove_perm {s s' : WaitSet} {t : ThreadId} {r : WaitRecord}
    (h : s.remove t = some (r, s')) : s.records.Perm (r :: s'.records) := by
  obtain ⟨l₁, l₂, heq, -, -, rfl⟩ := remove_split h
  rw [heq]
  exact List.perm_middle

theorem remove_thread {s s' : WaitSet} {t : ThreadId} {r : WaitRecord}
    (h : s.remove t = some (r, s')) : r.thread = t := by
  obtain ⟨-, -, -, -, ht, -⟩ := remove_split h
  exact ht

theorem Ranked.remove {p : Policy} {s s' : WaitSet} {t : ThreadId} {r : WaitRecord}
    (h : Ranked p s) (hr : s.remove t = some (r, s')) : Ranked p s' := by
  have hp := ((remove_perm hr).map WaitRecord.weight).sum_nat
  obtain ⟨l₁, l₂, heq, -, -, rfl⟩ := remove_split hr
  constructor
  · refine h.sorted.sublist ?_
    rw [heq]
    exact List.Sublist.append_left (List.sublist_cons_self _ _) _
  · have hs := h.sum
    simp only [weights, List.map_cons, List.sum_cons] at hs hp ⊢
    omega

theorem exists_remove {s : WaitSet} {t : ThreadId} (h : t ∈ s.threads) :
    ∃ r s', s.remove t = some (r, s') := by
  cases hr : s.remove t with
  | none => exact absurd h (remove_eq_none_iff.1 hr)
  | some x => exact ⟨x.1, x.2, rfl⟩

theorem without_of_notMem {s : WaitSet} {t : ThreadId} (h : t ∉ s.threads) : s.without t = s := by
  rw [without, remove_eq_none_iff.2 h]

theorem Ranked.without {p : Policy} {s : WaitSet} (h : Ranked p s) (t : ThreadId) :
    Ranked p (s.without t) := by
  rw [WaitSet.without]
  split
  · exact h
  · rename_i hr
    exact h.remove hr

/-- When no thread waits twice, removing `t` leaves exactly the records of the others. -/
theorem mem_without {s : WaitSet} {t : ThreadId} {x : WaitRecord} (hn : s.threads.Nodup) :
    x ∈ (s.without t).records ↔ x ∈ s.records ∧ x.thread ≠ t := by
  rw [without]
  split
  · rename_i hr
    refine ⟨fun hx => ⟨hx, fun ht => ?_⟩, And.left⟩
    exact remove_eq_none_iff.1 hr (mem_threads.2 ⟨x, hx, ht⟩)
  · rename_i r s' hr
    have hp := remove_perm hr
    have hn' := ((hp.map WaitRecord.thread).nodup_iff).1 hn
    obtain ⟨hnr, -⟩ := List.nodup_cons.1 hn'
    rw [remove_thread hr] at hnr
    rw [hp.mem_iff, List.mem_cons]
    constructor
    · exact fun hx => ⟨.inr hx, fun ht => hnr (List.mem_map.2 ⟨x, hx, ht⟩)⟩
    · rintro ⟨rfl | hx, ht⟩
      · exact absurd (remove_thread hr) ht
      · exact hx

theorem nodup_without {s : WaitSet} {t : ThreadId} (hn : s.threads.Nodup) :
    (s.without t).threads.Nodup := by
  rw [without]
  split
  · exact hn
  · rename_i hr
    have hn' := (((remove_perm hr).map WaitRecord.thread).nodup_iff).1 hn
    exact (List.nodup_cons.1 hn').2

end WaitSet

/-! ## Donations -/

namespace Policy

theorem foldl_max (v : Nat) (l : List Nat) (w : Nat) (h : ∀ x ∈ l, x ≤ w) :
    l.foldl max (max v w) = max v w := by
  induction l with
  | nil => rfl
  | cons a l ih =>
    have ha : a ≤ w := h a List.mem_cons_self
    rw [List.foldl_cons, show max (max v w) a = max v w by omega]
    exact ih (fun x hx => h x (List.mem_cons_of_mem _ hx))

theorem foldl_add_capped (l : List Nat) : ∀ v : Nat, v ≤ maxPriority →
    l.foldl (fun v w => min (v + w) maxPriority) v = min (v + l.sum) maxPriority := by
  induction l with
  | nil => intro v hv; simp; omega
  | cons a l ih =>
    intro v hv
    rw [List.foldl_cons, ih _ (by omega), List.sum_cons]
    omega

/-- A value that can be stored stays the same if nothing is added. -/
theorem combine_zero {p : Policy} {v : Nat} (hv : v ≤ maxPriority) : p.combine v 0 = v := by
  cases p with
  | priority => exact Nat.max_zero v
  | lottery => exact Nat.min_eq_left hv

theorem greatest_le (p : Policy) : p.bounds.greatest ≤ maxPriority := by
  cases p <;> decide

/-- The donation of a ranked set does what the weights of its records do one after the other. A value
that is too great to be stored is cut off first. -/
theorem combine_donation {p : Policy} {s : WaitSet} (h : s.Ranked p) (v : Nat) :
    p.combine v (p.donation s) = s.weights.foldl p.combine (p.combine v 0) := by
  cases p with
  | priority =>
    have hs := h.sorted
    simp only [donation, WaitSet.weights, combine, Nat.max_zero]
    split
    · rename_i he
      simp [he]
    · rename_i r rest he
      rw [he] at hs ⊢
      rw [List.map_cons, List.foldl_cons]
      refine (foldl_max v _ r.weight fun x hx => ?_).symm
      obtain ⟨y, hy, rfl⟩ := List.mem_map.1 hx
      have := compare_priority_ne_gt.1 ((List.pairwise_cons.1 hs).1 y hy)
      omega
  | lottery =>
    show min (v + min s.weightSum maxPriority) maxPriority =
      s.weights.foldl (fun v w => min (v + w) maxPriority) (min (v + 0) maxPriority)
    rw [foldl_add_capped _ _ (Nat.min_le_right _ _), h.sum]
    omega

theorem foldl_combine {p : Policy} {s : WaitSet} (h : s.Ranked p) {v : Nat}
    (hv : v ≤ p.bounds.greatest) : p.combine v (p.donation s) = s.weights.foldl p.combine v := by
  rw [combine_donation h, combine_zero (hv.trans p.greatest_le)]

/-- What a set donates stays within the bounds if its weights do. -/
theorem donation_le {p : Policy} {s : WaitSet}
    (h : ∀ r ∈ s.records, r.weight ≤ p.bounds.greatest) :
    p.donation s ≤ p.bounds.greatest := by
  cases p with
  | priority =>
    simp only [donation]
    split
    · exact Nat.zero_le _
    · rename_i r rest he
      exact h r (by rw [he]; exact List.mem_cons_self)
  | lottery => exact Nat.min_le_right _ _

theorem combine_le {p : Policy} {v w : Nat} (hv : v ≤ p.bounds.greatest)
    (hw : w ≤ p.bounds.greatest) : p.combine v w ≤ p.bounds.greatest := by
  cases p with
  | priority => exact Nat.max_le.2 ⟨hv, hw⟩
  | lottery => exact Nat.min_le_right _ _

theorem le_combine {p : Policy} {v : Nat} (hv : v ≤ p.bounds.greatest) (w : Nat) :
    v ≤ p.combine v w := by
  cases p with
  | priority => exact Nat.le_max_left _ _
  | lottery => exact Nat.le_min.2 ⟨Nat.le_add_right _ _, hv⟩

theorem le_combine_right {p : Policy} {w : Nat} (hw : w ≤ p.bounds.greatest) (v : Nat) :
    w ≤ p.combine v w := by
  cases p with
  | priority => exact Nat.le_max_right _ _
  | lottery => exact Nat.le_min.2 ⟨Nat.le_add_left _ _, hw⟩

theorem combine_right_comm (p : Policy) (v a b : Nat) :
    p.combine (p.combine v a) b = p.combine (p.combine v b) a := by
  cases p with
  | priority => exact Nat.max_right_comm v a b
  | lottery =>
    simp only [combine]
    omega

/-- Values may be combined in any order. -/
instance (p : Policy) : RightCommutative p.combine := ⟨p.combine_right_comm⟩

theorem combine_mono (p : Policy) {v v' w w' : Nat} (hv : v ≤ v') (hw : w ≤ w') :
    p.combine v w ≤ p.combine v' w' := by
  cases p <;>
    · simp only [combine]
      omega

theorem foldl_combine_mono (p : Policy) (l : List Nat) : ∀ {v v' : Nat}, v ≤ v' →
    l.foldl p.combine v ≤ l.foldl p.combine v' := by
  induction l with
  | nil => exact id
  | cons a l ih => exact fun h => ih (p.combine_mono h (Nat.le_refl a))

theorem donation_eq_foldl {p : Policy} {s : WaitSet} (h : s.Ranked p) :
    p.donation s = s.weights.foldl p.combine 0 := by
  rw [← foldl_combine h (Nat.zero_le _)]
  cases p with
  | priority => exact (Nat.zero_max _).symm
  | lottery =>
    simp only [combine, donation]
    omega

/-- One record's weight can be counted first. -/
theorem donation_of_perm {p : Policy} {s : WaitSet} {r : WaitRecord} {rest : List WaitRecord}
    (h : s.Ranked p) (hp : s.records.Perm (r :: rest)) :
    p.donation s = (rest.map WaitRecord.weight).foldl p.combine (p.combine 0 r.weight) := by
  rw [donation_eq_foldl h, WaitSet.weights, (hp.map WaitRecord.weight).foldl_eq]
  rfl

/-- One record more makes the donation no smaller. -/
theorem donation_le_cons {p : Policy} {s s' : WaitSet} {r : WaitRecord} (h : s.Ranked p)
    (h' : s'.Ranked p) (hp : s'.records.Perm (r :: s.records)) : p.donation s ≤ p.donation s' := by
  rw [donation_of_perm h' hp, donation_eq_foldl h]
  exact p.foldl_combine_mono _ (Nat.zero_le _)

/-- Nor does a heavier record in place of another one. -/
theorem donation_le_of_perm {p : Policy} {s s' : WaitSet} {r r' : WaitRecord}
    {rest : List WaitRecord} (h : s.Ranked p) (h' : s'.Ranked p)
    (hp : s.records.Perm (r :: rest)) (hp' : s'.records.Perm (r' :: rest))
    (hw : r.weight ≤ r'.weight) : p.donation s ≤ p.donation s' := by
  rw [donation_of_perm h hp, donation_of_perm h' hp']
  exact p.foldl_combine_mono _ (p.combine_mono (Nat.le_refl 0) hw)

theorem donation_without_le {p : Policy} {s : WaitSet} (h : s.Ranked p) (t : ThreadId) :
    p.donation (s.without t) ≤ p.donation s := by
  rw [WaitSet.without]
  split
  · exact Nat.le_refl _
  · rename_i hr
    exact donation_le_cons (h.remove hr) h (WaitSet.remove_perm hr)

/-- A lighter record in place of another one makes the donation no greater. -/
theorem donation_insert_le {p : Policy} {s rest : WaitSet} {t : ThreadId} {r : WaitRecord} {w : Nat}
    (h : s.Ranked p) (hr : s.remove t = some (r, rest)) (hw : w ≤ r.weight) :
    p.donation (rest.insert p { r with weight := w }) ≤ p.donation s :=
  donation_le_of_perm ((h.remove hr).insert _) h (WaitSet.insert_perm p _ rest)
    (WaitSet.remove_perm hr) hw

/-- Under priorities a donation is the greatest weight. -/
theorem donation_priority_le_iff {s : WaitSet} (h : s.Ranked .priority) {y : Nat} :
    Policy.priority.donation s ≤ y ↔ ∀ r ∈ s.records, r.weight ≤ y := by
  simp only [donation]
  split
  · rename_i hnil
    simp [hnil]
  · rename_i r rest hs
    have hhead : s.records.head? = some r := by rw [hs]; rfl
    constructor
    · intro hle x hx
      have := h.le_head hhead hx
      omega
    · intro hall
      exact hall r (by rw [hs]; exact List.mem_cons_self)

theorem le_donation {p : Policy} {s : WaitSet} {r : WaitRecord} (h : s.Ranked p)
    (hr : r ∈ s.records) (hb : r.weight ≤ p.bounds.greatest) : r.weight ≤ p.donation s := by
  cases p with
  | priority => exact (donation_priority_le_iff h).1 (Nat.le_refl _) r hr
  | lottery =>
    have hsum := h.sum
    rw [WaitSet.weights, ((List.perm_cons_erase hr).map WaitRecord.weight).sum_nat, List.map_cons,
      List.sum_cons] at hsum
    exact Nat.le_min.2 ⟨by omega, hb⟩

end Policy
end ThreadKernel
