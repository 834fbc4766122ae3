import ThreadKernel.Alarm

/-!
# ThreadKernel.Proofs.Alarm

Alarms keep their sleepers by deadline, so that one interrupt finds all those that are due.

* `Alarm.Ordered`   — the order, which new sleepers and releases keep.
* `Alarm.Wakes`     — the sleepers that are due become ready one after the other.
* `Alarm.deadlines` — until when a thread sleeps.
* `deadlines_push_self`, `deadlines_rest`, `exists_due_iff` — what becomes of them.
* `Sleeper.Before`  — the order of release: by deadline, and by arrival among equal ones.
* `pairwise_push`   — a new sleeper comes after all who were released in time and in front of none
  who arrived earlier with the same deadline.
* `Alarm.Drains`    — the loop of an interrupt on a heap; `Drains.eq` says that it does the same.
-/

namespace ThreadKernel

namespace Alarm

def Ordered (a : Alarm) : Prop := a.sleepers.Pairwise fun r s => r.wakeTime ≤ s.wakeTime

/-- The deadlines until which a thread sleeps. -/
def deadlines (t : ThreadId) (a : Alarm) : List Nat :=
  (a.sleepers.filter (·.thread = t)).map Sleeper.wakeTime

variable {a : Alarm} {t u : ThreadId} {now w : Nat}

theorem empty_ordered : empty.Ordered := List.Pairwise.nil

/-- Of ordered sleepers, those up to a deadline stand in front. -/
theorem split_ordered {l : List Sleeper} (h : l.Pairwise fun r s => r.wakeTime ≤ s.wakeTime)
    (now : Nat) :
    l.takeWhile (fun s => s.wakeTime ≤ now) = l.filter (fun s => s.wakeTime ≤ now) ∧
      l.dropWhile (fun s => s.wakeTime ≤ now) = l.filter (fun s => now < s.wakeTime) := by
  induction l with
  | nil => exact ⟨rfl, rfl⟩
  | cons s l ih =>
    obtain ⟨hs, hl⟩ := List.pairwise_cons.1 h
    by_cases hnow : s.wakeTime ≤ now
    · obtain ⟨htake, hdrop⟩ := ih hl
      have hlate : ¬ now < s.wakeTime := by omega
      simp [hnow, hlate, htake, hdrop]
    · have hlate : ∀ r ∈ l, ¬ r.wakeTime ≤ now := fun r hr => by
        have := hs r hr
        omega
      have hearly : now < s.wakeTime := by omega
      simp only [hnow, hearly, decide_false, decide_true, Bool.false_eq_true, not_false_eq_true,
        List.takeWhile_cons_of_neg, List.dropWhile_cons_of_neg, List.filter_cons_of_neg,
        List.filter_cons_of_pos]
      constructor
      · exact (List.filter_eq_nil_iff.2 fun r hr => by simpa using hlate r hr).symm
      · rw [List.filter_eq_self.2 fun r hr => by simpa using hlate r hr]

theorem due_eq (h : a.Ordered) : a.due now = a.sleepers.filter (fun s => s.wakeTime ≤ now) :=
  (split_ordered h now).1

theorem rest_eq (h : a.Ordered) : a.rest now = a.sleepers.filter (fun s => now < s.wakeTime) :=
  (split_ordered h now).2

theorem push_ordered (h : a.Ordered) : (a.push w t).Ordered := by
  obtain ⟨htake, hdrop⟩ := split_ordered h w
  show (a.sleepers.takeWhile (fun s => s.wakeTime ≤ w) ++ _ ::
    a.sleepers.dropWhile (fun s => s.wakeTime ≤ w)).Pairwise _
  rw [htake, hdrop]
  refine List.pairwise_append.2 ⟨h.filter _, List.pairwise_cons.2 ⟨fun r hr => ?_, h.filter _⟩,
    fun r hr s hs => ?_⟩
  · have hr := (List.mem_filter.1 hr).2
    simp only [decide_eq_true_eq] at hr
    show w ≤ r.wakeTime
    omega
  · have hr := (List.mem_filter.1 hr).2
    simp only [decide_eq_true_eq] at hr
    rcases List.mem_cons.1 hs with rfl | hs
    · exact hr
    · have hs := (List.mem_filter.1 hs).2
      simp only [decide_eq_true_eq] at hs
      omega

theorem rest_ordered (h : a.Ordered) : Ordered { a with sleepers := a.rest now } := by
  show (a.rest now).Pairwise _
  rw [rest_eq h]
  exact h.filter _

/-- The threads of some sleepers are made ready one after the other. -/
inductive Wakes {κ : Type} : List Sleeper → Kernel κ → Kernel κ → Prop where
  | nobody {k : Kernel κ} : Wakes [] k k
  | wakes {s : Sleeper} {l : List Sleeper} {k k₁ k' : Kernel κ}
      (ready : k.markReady s.thread = .ok k₁) (rest : Wakes l k₁ k') : Wakes (s :: l) k k'

theorem wakeEach_ok {κ : Type} {l : List Sleeper} {k k' : Kernel κ} (h : wakeEach l k = .ok k') :
    Wakes l k k' := by
  induction l generalizing k with
  | nil =>
    cases h
    exact .nobody
  | cons s l ih =>
    rw [wakeEach] at h
    split at h
    · cases h
    · rename_i hready
      exact .wakes hready (ih h)

theorem release_ok {κ : Type} {k k' : Kernel κ} {b : Alarm} (h : a.release k = .ok (b, k')) :
    wakeEach (a.due k.now) k = .ok k' ∧ b = { a with sleepers := a.rest k.now } := by
  unfold release at h
  split at h
  · cases h
  · rename_i hwake
    cases h
    exact ⟨hwake, rfl⟩

/-! ## Deadlines -/

theorem deadlines_push_of_ne (h : t ≠ u) : (a.push w u).deadlines t = a.deadlines t := by
  unfold deadlines push
  simp only [List.filter_append, List.filter_cons, Ne.symm h, decide_false, Bool.false_eq_true,
    if_false]
  rw [← List.filter_append, List.takeWhile_append_dropWhile]

theorem deadlines_push_self (h : a.deadlines t = []) : (a.push w t).deadlines t = [w] := by
  have hnil : a.sleepers.filter (·.thread = t) = [] := List.map_eq_nil_iff.1 h
  have hside : ∀ {l : List Sleeper}, l.Sublist a.sleepers → l.filter (·.thread = t) = [] :=
    fun hl => List.sublist_nil.1 (hnil ▸ hl.filter _)
  unfold deadlines push
  simp only [List.filter_append, List.filter_cons, decide_true, if_true]
  rw [hside (List.takeWhile_sublist _), hside (List.dropWhile_sublist _)]
  rfl

/-- A release lets those sleep on whose deadline is not reached. -/
theorem deadlines_rest (h : a.Ordered) :
    deadlines t { a with sleepers := a.rest now } = (a.deadlines t).filter (now < ·) := by
  show ((a.rest now).filter (·.thread = t)).map Sleeper.wakeTime = _
  rw [rest_eq h, deadlines, List.filter_map, List.filter_filter, List.filter_filter]
  congr 1
  refine List.filter_congr fun s _ => ?_
  simp [Bool.and_comm]

theorem exists_due_iff (h : a.Ordered) :
    (∃ s ∈ a.due now, s.thread = t) ↔ ∃ w ∈ a.deadlines t, w ≤ now := by
  rw [due_eq h]
  simp only [deadlines, List.mem_map, List.mem_filter, decide_eq_true_eq]
  constructor
  · rintro ⟨s, ⟨hs, hw⟩, rfl⟩
    exact ⟨_, ⟨s, ⟨hs, rfl⟩, rfl⟩, hw⟩
  · rintro ⟨w, ⟨s, ⟨hs, rfl⟩, rfl⟩, hw⟩
    exact ⟨s, ⟨hs, hw⟩, rfl⟩

end Alarm

/-! ## The order of release -/

def Sleeper.Before (s r : Sleeper) : Prop :=
  s.wakeTime < r.wakeTime ∨ s.wakeTime = r.wakeTime ∧ s.sequence < r.sequence

theorem Sleeper.Before.asymm {s r : Sleeper} (h : s.Before r) : ¬ r.Before s := by
  unfold Before at *
  omega

namespace Alarm

variable {a : Alarm} {t : ThreadId} {now w : Nat} {l out left : List Sleeper}

theorem ordered_of_before (h : a.sleepers.Pairwise Sleeper.Before) : a.Ordered := by
  refine h.imp fun {s r} hsr => ?_
  unfold Sleeper.Before at hsr
  omega

theorem push_perm (w : Nat) (t : ThreadId) (a : Alarm) :
    (a.push w t).sleepers.Perm (⟨w, a.nextSequence, t⟩ :: a.sleepers) := by
  have h : (a.push w t).sleepers.Perm (⟨w, a.nextSequence, t⟩ ::
      (a.sleepers.takeWhile (fun s => s.wakeTime ≤ w) ++
        a.sleepers.dropWhile (fun s => s.wakeTime ≤ w))) := List.perm_middle
  rwa [List.takeWhile_append_dropWhile] at h

/-- A list that goes on with the sleepers of an alarm stays in order when a sleeper is added who
does not come too late for it. -/
theorem pairwise_push (h : (l ++ a.sleepers).Pairwise Sleeper.Before)
    (hnumber : ∀ s ∈ l ++ a.sleepers, s.sequence < a.nextSequence) (hl : ∀ s ∈ l, s.wakeTime ≤ w) :
    (l ++ (a.push w t).sleepers).Pairwise Sleeper.Before := by
  obtain ⟨htake, hdrop⟩ := split_ordered (ordered_of_before (List.pairwise_append.1 h).2.1) w
  have hsplit : l ++ a.sleepers = (l ++ a.sleepers.takeWhile fun s => s.wakeTime ≤ w) ++
      a.sleepers.dropWhile fun s => s.wakeTime ≤ w := by
    rw [List.append_assoc, List.takeWhile_append_dropWhile]
  show (l ++ (a.sleepers.takeWhile (fun s => s.wakeTime ≤ w) ++ ⟨w, a.nextSequence, t⟩ ::
    a.sleepers.dropWhile fun s => s.wakeTime ≤ w)).Pairwise _
  rw [hsplit] at h hnumber
  rw [← List.append_assoc]
  obtain ⟨hfront, hback, hacross⟩ := List.pairwise_append.1 h
  refine List.pairwise_append.2 ⟨hfront, List.pairwise_cons.2 ⟨fun r hr => ?_, hback⟩,
    fun s hs r hr => ?_⟩
  · rw [hdrop] at hr
    exact .inl (of_decide_eq_true (List.mem_filter.1 hr).2)
  · rcases List.mem_cons.1 hr with rfl | hr
    · have hsw : s.wakeTime ≤ w := by
        rcases List.mem_append.1 hs with hs | hs
        · exact hl s hs
        · rw [htake] at hs
          exact of_decide_eq_true (List.mem_filter.1 hs).2
      have hsn : s.sequence < a.nextSequence := hnumber s (List.mem_append_left _ hs)
      show s.wakeTime < w ∨ s.wakeTime = w ∧ s.sequence < a.nextSequence
      omega
    · exact hacross s hs r hr

/-- The loop of an interrupt on a heap that holds `l`, in whatever arrangement. It looks at an
element before which no other one comes, and takes it out if it is due. The second list is what it
took out, in that order, and the third one what it left. -/
inductive Drains (now : Nat) : List Sleeper → List Sleeper → List Sleeper → Prop where
  | empty : Drains now [] [] []
  | early {l : List Sleeper} {s : Sleeper} {others : List Sleeper} (peek : l.Perm (s :: others))
      (least : ∀ r ∈ others, ¬ r.Before s) (early : now < s.wakeTime) : Drains now l [] l
  | pop {l : List Sleeper} {s : Sleeper} {others out left : List Sleeper}
      (peek : l.Perm (s :: others)) (least : ∀ r ∈ others, ¬ r.Before s) (due : s.wakeTime ≤ now)
      (more : Drains now others out left) : Drains now l (s :: out) left

/-- The element that a heap shows is the first one in order. -/
theorem least_eq_head {s r : Sleeper} {others rest : List Sleeper}
    (horder : (r :: rest).Pairwise Sleeper.Before) (hperm : (r :: rest).Perm (s :: others))
    (hleast : ∀ x ∈ others, ¬ x.Before s) : s = r := by
  refine Decidable.byContradiction fun hne => ?_
  have hs : s ∈ rest :=
    (List.mem_cons.1 (hperm.mem_iff.2 List.mem_cons_self)).resolve_left hne
  have hr : r ∈ others :=
    (List.mem_cons.1 (hperm.mem_iff.1 List.mem_cons_self)).resolve_left (Ne.symm hne)
  exact hleast r hr (List.rel_of_pairwise_cons horder hs)

theorem Drains.split (h : Drains now l out left) : ∀ {sorted : List Sleeper},
    sorted.Pairwise Sleeper.Before → l.Perm sorted →
      out = sorted.takeWhile (fun s => s.wakeTime ≤ now) ∧
        left.Perm (sorted.dropWhile fun s => s.wakeTime ≤ now) := by
  induction h with
  | empty =>
    intro sorted _ hl
    obtain rfl := hl.symm.eq_nil
    exact ⟨rfl, .nil⟩
  | @early l s others peek least early =>
    intro sorted horder hl
    cases sorted with
    | nil => exact absurd (hl.symm.trans peek).nil_eq (by simp)
    | cons r rest =>
      obtain rfl := least_eq_head horder (hl.symm.trans peek) least
      have hlate : ¬ s.wakeTime ≤ now := by omega
      rw [List.takeWhile_cons_of_neg (by simpa using hlate),
        List.dropWhile_cons_of_neg (by simpa using hlate)]
      exact ⟨rfl, hl⟩
  | @pop l s others out left peek least due more ih =>
    intro sorted horder hl
    cases sorted with
    | nil => exact absurd (hl.symm.trans peek).nil_eq (by simp)
    | cons r rest =>
      obtain rfl := least_eq_head horder (hl.symm.trans peek) least
      rw [List.takeWhile_cons_of_pos (by simpa using due),
        List.dropWhile_cons_of_pos (by simpa using due)]
      have hrest : others.Perm rest := ((hl.symm.trans peek).cons_inv).symm
      obtain ⟨hout, hleft⟩ := ih (List.pairwise_cons.1 horder).2 hrest
      exact ⟨congrArg (s :: ·) hout, hleft⟩

/-- A heap releases those whom the ordered list releases, in the same order. -/
theorem Drains.eq (h : Drains now l out left) (ho : a.sleepers.Pairwise Sleeper.Before)
    (hl : l.Perm a.sleepers) : out = a.due now ∧ left.Perm (a.rest now) := h.split ho hl

end Alarm
end ThreadKernel
