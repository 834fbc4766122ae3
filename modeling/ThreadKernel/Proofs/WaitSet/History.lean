import ThreadKernel.Proofs.WaitSet

/-!
# ThreadKernel.Proofs.WaitSet.History

Wait sets after any insertions and removals. A new record goes to the place that a search by halves
finds. That place is right only if the records are sorted already, so that they are is proved
together with it, for every history.

* `bisect`                    — the search by halves.
* `WaitSet.place_eq_iff`      — in a ranked set it finds the one place where a record fits in.
* `WaitSet.Ranked.insert_records`, `removed` — what the two changes do to the list.
* `WaitSet.Upkeep`            — what a set has and keeps.
* `ofOps_upkeep`              — every history leads to such a set.
-/

namespace ThreadKernel

/-! ## Search by halves -/

/-- The end of the indices that are in front, searched between `lo` and `hi`. -/
def bisect (inFront : Nat → Bool) (lo hi : Nat) : Nat :=
  if lo < hi then
    if inFront (lo + (hi - lo) / 2) then bisect inFront (lo + (hi - lo) / 2 + 1) hi
    else bisect inFront lo (lo + (hi - lo) / 2)
  else lo
termination_by hi - lo

/-- If the indices in front are those below `k`, the search ends at `k`. -/
theorem bisect_eq {inFront : Nat → Bool} {lo hi k : Nat} (hlo : lo ≤ k) (hhi : k ≤ hi)
    (hfront : ∀ i, lo ≤ i → i < hi → (inFront i = true ↔ i < k)) : bisect inFront lo hi = k := by
  induction lo, hi using bisect.induct inFront with
  | case1 lo hi hlt hmid ih =>
    rw [bisect, if_pos hlt, if_pos hmid]
    have hk : lo + (hi - lo) / 2 < k := (hfront _ (by omega) (by omega)).1 hmid
    exact ih hk hhi fun i hi₁ hi₂ => hfront i (by omega) hi₂
  | case2 lo hi hlt hmid ih =>
    rw [bisect, if_pos hlt, if_neg hmid]
    have hk : ¬ lo + (hi - lo) / 2 < k := fun hk => hmid ((hfront _ (by omega) (by omega)).2 hk)
    exact ih hlo (by omega) fun i hi₁ hi₂ => hfront i hi₁ (by omega)
  | case3 lo hi hge =>
    rw [bisect, if_neg hge]
    omega

namespace WaitSet

variable {p : Policy} {s s' : WaitSet} {r : WaitRecord} {t : ThreadId} {i : Nat}

/-! ## Insertion -/

/-- The place of a new record, found by halves. -/
def place (p : Policy) (r : WaitRecord) (s : WaitSet) : Nat :=
  bisect (fun i => s.records[i]?.any (staysBefore p r)) 0 s.size

/-- A new record fits in at index `i`: the records in front rank before it or as it does, and those
behind rank after it. -/
structure FitsAt (p : Policy) (r : WaitRecord) (i : Nat) (l : List WaitRecord) : Prop where
  within : i ≤ l.length
  front : ∀ x ∈ l.take i, p.compare x r ≠ .gt
  behind : ∀ x ∈ l.drop i, p.compare x r = .gt

/-- There is one place at most where a record fits in, and the search finds it. -/
theorem FitsAt.place_eq (h : FitsAt p r i s.records) : s.place p r = i := by
  refine bisect_eq (Nat.zero_le i) h.within fun j _ hj => ?_
  have hj : j < s.records.length := hj
  rw [List.getElem?_eq_getElem hj, Option.any_some, staysBefore, bne_iff_ne]
  constructor
  · intro hne
    by_contra hle
    refine hne (h.behind _ (List.mem_drop_iff_getElem.2 ⟨j - i, by omega, ?_⟩))
    congr 1
    omega
  · intro hlt
    exact h.front _ (List.mem_take_iff_getElem.2 ⟨j, by omega, rfl⟩)

/-- In a ranked set there is such a place: where the records that stay in front end. -/
theorem Ranked.fitsAt (h : Ranked p s) (r : WaitRecord) :
    FitsAt p r (s.records.takeWhile (staysBefore p r)).length s.records := by
  have hsplit := List.takeWhile_append_dropWhile (p := staysBefore p r) (l := s.records)
  have hfront : ∀ x ∈ s.records.takeWhile (staysBefore p r), p.compare x r ≠ .gt := stays_takeWhile
  have hbehind := behind_dropWhile (r := r) h.sorted
  generalize s.records.takeWhile (staysBefore p r) = front at *
  generalize s.records.dropWhile (staysBefore p r) = behind at *
  rw [← hsplit]
  exact ⟨by simp, by simpa using hfront, by simpa using hbehind⟩

theorem Ranked.place_eq_iff (h : Ranked p s) : s.place p r = i ↔ FitsAt p r i s.records := by
  constructor
  · rintro rfl
    rw [(h.fitsAt r).place_eq]
    exact h.fitsAt r
  · exact FitsAt.place_eq

/-- An insertion puts the record at its place and moves no other one. -/
theorem Ranked.insert_records (h : Ranked p s) (r : WaitRecord) :
    (s.insert p r).records =
      s.records.take (s.place p r) ++ r :: s.records.drop (s.place p r) := by
  have hsplit := List.takeWhile_append_dropWhile (p := staysBefore p r) (l := s.records)
  rw [(h.fitsAt r).place_eq, WaitSet.insert]
  generalize s.records.takeWhile (staysBefore p r) = front at *
  generalize s.records.dropWhile (staysBefore p r) = behind at *
  rw [← hsplit, List.take_left, List.drop_left]

/-- A record goes between those that rank before it or as it does and those that rank after it. -/
theorem Ranked.insert_between {front behind : List WaitRecord} (h : Ranked p s)
    (hs : s.records = front ++ behind) (hfront : ∀ x ∈ front, p.compare x r ≠ .gt)
    (hbehind : ∀ x ∈ behind, p.compare x r = .gt) :
    (s.insert p r).records = front ++ r :: behind := by
  have hfits : FitsAt p r front.length s.records := by
    rw [hs]
    exact ⟨by simp, by simpa using hfront, by simpa using hbehind⟩
  rw [h.insert_records r, hfits.place_eq, hs, List.take_left, List.drop_left]

/-! ## Removal -/

/-- `r`, at index `i`, is the first record of `t`. -/
structure FirstAt (t : ThreadId) (r : WaitRecord) (i : Nat) (l : List WaitRecord) : Prop where
  found : l[i]? = some r
  thread : r.thread = t
  first : ∀ x ∈ l.take i, x.thread ≠ t

/-- A removal takes out the first record of the thread and moves no other one. -/
theorem removed (h : s.remove t = some (r, s')) :
    ∃ i, FirstAt t r i s.records ∧ s'.records = s.records.take i ++ s.records.drop (i + 1) := by
  obtain ⟨l₁, l₂, heq, hfirst, hthread, rfl⟩ := remove_split h
  refine ⟨l₁.length, ⟨?_, hthread, ?_⟩, ?_⟩ <;> rw [heq]
  · simp
  · simpa using hfirst
  · simp [List.drop_append]

/-- The sum that a removal leaves is not cut off at zero. -/
theorem Ranked.remove_exact (h : Ranked p s) (hr : s.remove t = some (r, s')) :
    s'.weightSum + r.weight = s.weightSum := by
  have hp := ((remove_perm hr).map WaitRecord.weight).sum_nat
  have hs := h.sum
  have hs' := (h.remove hr).sum
  simp only [weights, List.map_cons, List.sum_cons] at hs hs' hp
  omega

/-! ## Histories -/

theorem Ranked.apply (h : Ranked p s) (op : Op) : Ranked p (apply p s op) := by
  cases op with
  | insert r => exact h.insert r
  | remove t => exact h.without t

theorem ranked_ofOps (p : Policy) (ops : List Op) : Ranked p (ofOps p ops) := by
  suffices h : ∀ s, Ranked p s → Ranked p (ops.foldl (WaitSet.apply p) s) from h ∅ (ranked_empty p)
  induction ops with
  | nil => exact fun s hs => hs
  | cons op ops ih => exact fun s hs => ih _ (hs.apply op)

/-- What a list of weights is worth to an owner: the greatest of them under strict priorities, their
sum under the lottery, as far as it can be stored. -/
def worth : Policy → List Nat → Nat
  | .priority, l => l.max?.getD 0
  | .lottery, l => min maxPriority l.sum

/-- Weights that are combined one after the other come to what they are worth together. -/
theorem foldl_combine_eq_worth {v : Nat} (hv : v ≤ maxPriority) (l : List Nat) :
    l.foldl p.combine v = worth p (v :: l) := by
  cases p with
  | priority => rfl
  | lottery =>
    show l.foldl (fun v w => min (v + w) maxPriority) v = min maxPriority (v :: l).sum
    rw [Policy.foldl_add_capped _ _ hv, List.sum_cons, Nat.min_comm]

theorem Ranked.donation_eq (h : Ranked p s) : p.donation s = worth p s.weights := by
  cases p with
  | priority =>
    rw [Policy.donation_eq_foldl h]
    cases s.weights with
    | nil => rfl
    | cons w l =>
      show l.foldl max (max 0 w) = _
      rw [Nat.zero_max]
      rfl
  | lottery =>
    show min s.weightSum maxPriority = _
    rw [h.sum, Nat.min_comm]
    rfl

/-- What a wait set has, and what the two changes do to it. -/
structure Upkeep (p : Policy) (s : WaitSet) : Prop where
  sorted : s.records.Pairwise fun a b => p.compare a b ≠ .gt
  sum : s.weightSum = s.weights.sum
  /-- The search by halves finds the one place where a record fits in. -/
  place : ∀ r i, s.place p r = i ↔ FitsAt p r i s.records
  /-- There the record is put, and all others stay in their order. -/
  inserted : ∀ r, (apply p s (.insert r)).records =
    s.records.take (s.place p r) ++ r :: s.records.drop (s.place p r)
  increased : ∀ r, (apply p s (.insert r)).weightSum = s.weightSum + r.weight
  /-- The first record of the thread is taken out, and all others stay in their order. -/
  removed : ∀ t r s', s.remove t = some (r, s') → apply p s (.remove t) = s' ∧
    ∃ i, FirstAt t r i s.records ∧ s'.records = s.records.take i ++ s.records.drop (i + 1)
  /-- What is subtracted from the sum was in it. -/
  decreased : ∀ t r s', s.remove t = some (r, s') → s'.weightSum + r.weight = s.weightSum
  /-- Nothing is taken out exactly if the thread has no record, and then nothing changes. -/
  missing : ∀ t, s.remove t = none ↔ ∀ x ∈ s.records, x.thread ≠ t
  unchanged : ∀ t, s.remove t = none → apply p s (.remove t) = s
  donation : p.donation s = worth p s.weights

theorem Ranked.upkeep (h : Ranked p s) : Upkeep p s where
  sorted := h.sorted
  sum := h.sum
  place _ _ := h.place_eq_iff
  inserted r := h.insert_records r
  increased _ := rfl
  removed t r s' hr := by
    refine ⟨?_, WaitSet.removed hr⟩
    simp only [WaitSet.apply, WaitSet.without, hr]
  decreased _ _ _ hr := h.remove_exact hr
  missing t := by
    rw [remove_eq_none_iff, mem_threads]
    simp
  unchanged t hr := by simp only [WaitSet.apply, WaitSet.without, hr]
  donation := h.donation_eq

/-- Whatever was put in and taken out, threads that wait more than once included, the set is in
order, and so is the next change. -/
theorem ofOps_upkeep (p : Policy) (ops : List Op) : Upkeep p (ofOps p ops) :=
  (ranked_ofOps p ops).upkeep

/-- A tie goes behind the records that came before, and the first of two records of a thread is the
one that leaves. -/
example : (ofOps .priority [.insert ⟨⟨1⟩, 3, 0⟩, .insert ⟨⟨2⟩, 5, 1⟩, .insert ⟨⟨1⟩, 5, 1⟩,
    .insert ⟨⟨3⟩, 4, 2⟩, .remove ⟨1⟩, .remove ⟨4⟩]).records =
      [⟨⟨2⟩, 5, 1⟩, ⟨⟨3⟩, 4, 2⟩, ⟨⟨1⟩, 3, 0⟩] := by
  decide

end WaitSet
end ThreadKernel
