import ThreadKernel.Proofs.WaitSet.History
import Mathlib.Order.Interval.Finset.Nat

/-!
# ThreadKernel.Proofs.Lottery

The lottery is fair. The tickets of a wait set are numbered in the order of its records, each
record holds an interval of them that is one longer than its weight, and the intervals fill the
range of the draw. The range is taken from the running sum, the search walks over the records;
both agree after every history of the set.

* `ticketHolder_eq_some_iff` — the search finds the record whose interval holds the draw.
* `WaitSet.remainders`       — what is left of the draw at each record that the search looks at.
* `WaitSet.Ranked.total`     — the range of the draw is the number of tickets.
* `WaitSet.Fair`             — what a draw returns, and for how many draws.
* `lottery_fair`             — it holds after every history.
-/

namespace ThreadKernel

/-! ## Tickets -/

def WaitRecord.tickets (r : WaitRecord) : Nat := r.weight + 1

/-- The number of tickets of the records before index `i`. -/
def ticketsBefore (l : List WaitRecord) (i : Nat) : Nat := ((l.take i).map WaitRecord.tickets).sum

/-- The number of tickets of all records. -/
def WaitSet.tickets (s : WaitSet) : Nat := (s.records.map WaitRecord.tickets).sum

@[simp] theorem ticketsBefore_zero (l : List WaitRecord) : ticketsBefore l 0 = 0 := rfl

@[simp] theorem ticketsBefore_nil (i : Nat) : ticketsBefore [] i = 0 := by
  rw [ticketsBefore, List.take_nil, List.map_nil, List.sum_nil]

@[simp] theorem ticketsBefore_cons (r : WaitRecord) (l : List WaitRecord) (i : Nat) :
    ticketsBefore (r :: l) (i + 1) = r.tickets + ticketsBefore l i := by
  rw [ticketsBefore, List.take_succ_cons, List.map_cons, List.sum_cons, ticketsBefore]

theorem ticketsBefore_length (s : WaitSet) : ticketsBefore s.records s.size = s.tickets := by
  rw [ticketsBefore, WaitSet.size, List.take_length, WaitSet.tickets]

theorem ticketsBefore_succ {l : List WaitRecord} {i : Nat} (h : i < l.length) :
    ticketsBefore l (i + 1) = ticketsBefore l i + l[i].tickets := by
  rw [ticketsBefore, List.take_succ_eq_append_getElem h, List.map_append, List.sum_append]
  simp [ticketsBefore]

theorem ticketsBefore_mono {l : List WaitRecord} {i j : Nat} (h : i ≤ j) :
    ticketsBefore l i ≤ ticketsBefore l j := by
  obtain ⟨k, rfl⟩ := Nat.exists_eq_add_of_le h
  rw [ticketsBefore, ticketsBefore, List.take_add, List.map_append, List.sum_append]
  exact Nat.le_add_right _ _

/-! ## The search -/

/-- The search finds a record exactly if the draw lies in the interval of the record's tickets. -/
theorem ticketHolder_eq_some_iff {l : List WaitRecord} {draw i : Nat} :
    ticketHolder l draw = some i ↔
      i < l.length ∧ ticketsBefore l i ≤ draw ∧ draw < ticketsBefore l (i + 1) := by
  induction l generalizing draw i with
  | nil => simp [ticketHolder]
  | cons r l ih =>
    rw [ticketHolder]
    split
    · rename_i hlt
      cases i with
      | zero => simpa [WaitRecord.tickets] using hlt
      | succ i =>
        simp only [Option.some.injEq, Nat.right_eq_add, Nat.add_eq_zero_iff, ticketsBefore_cons,
          WaitRecord.tickets]
        omega
    · rename_i hge
      cases i with
      | zero => simpa [WaitRecord.tickets] using hge
      | succ i =>
        simp only [Option.map_eq_some_iff, Nat.add_right_cancel_iff, exists_eq_right, ih,
          List.length_cons, ticketsBefore_cons, WaitRecord.tickets]
        omega

/-- Every ticket belongs to a record. -/
theorem exists_ticketHolder {l : List WaitRecord} : ∀ draw < ticketsBefore l l.length,
    ∃ i, ticketHolder l draw = some i := by
  induction l with
  | nil => simp
  | cons r l ih =>
    intro draw h
    rw [ticketHolder]
    split
    · exact ⟨0, rfl⟩
    · rename_i hge
      rw [List.length_cons, ticketsBefore_cons, WaitRecord.tickets] at h
      obtain ⟨i, hi⟩ := ih (draw - (r.weight + 1)) (by omega)
      exact ⟨i + 1, by rw [hi, Option.map_some]⟩

/-- The draws that find record `i`. -/
theorem filter_ticketHolder {l : List WaitRecord} {i : Nat} (h : i < l.length) :
    (Finset.range (ticketsBefore l l.length)).filter (ticketHolder l · = some i) =
      Finset.Ico (ticketsBefore l i) (ticketsBefore l (i + 1)) := by
  have hle : ticketsBefore l (i + 1) ≤ ticketsBefore l l.length := ticketsBefore_mono h
  ext draw
  rw [Finset.mem_filter, Finset.mem_range, Finset.mem_Ico, ticketHolder_eq_some_iff]
  omega

namespace WaitSet

/-- What is left of the draw at each record that the search looks at. The last one is not reduced
any more. -/
def remainders : List WaitRecord → Nat → List Nat
  | [], _ => []
  | r :: rest, draw =>
    draw :: if draw < r.weight + 1 then [] else remainders rest (draw - (r.weight + 1))

/-- The search looks at the records up to the one it finds. -/
theorem length_remainders {l : List WaitRecord} {draw i : Nat} (h : ticketHolder l draw = some i) :
    (remainders l draw).length = i + 1 := by
  induction l generalizing draw i with
  | nil => cases h
  | cons r l ih =>
    rw [ticketHolder] at h
    rw [remainders, List.length_cons]
    split at h
    · rename_i hlt
      cases h
      rw [if_pos hlt, List.length_nil]
    · rename_i hge
      obtain ⟨j, hj, rfl⟩ := Option.map_eq_some_iff.1 h
      rw [if_neg hge, ih hj]

/-- No subtraction falls below zero: with the tickets that were taken off, what is left is the draw
again. -/
theorem remainders_exact {l : List WaitRecord} {draw j rest : Nat}
    (h : (remainders l draw)[j]? = some rest) : ticketsBefore l j + rest = draw := by
  induction l generalizing draw j with
  | nil => cases h
  | cons r l ih =>
    rw [remainders] at h
    cases j with
    | zero =>
      cases h
      exact Nat.zero_add _
    | succ j =>
      rw [List.getElem?_cons_succ] at h
      split at h
      · cases h
      · rename_i hge
        have := ih h
        rw [ticketsBefore_cons, WaitRecord.tickets]
        omega

/-! ## The running sum -/

/-- The range of the draw is the number of tickets. -/
theorem Ranked.total {p : Policy} {s : WaitSet} (h : Ranked p s) :
    s.weightSum + s.size = s.tickets := by
  have key : ∀ l : List WaitRecord,
      (l.map WaitRecord.tickets).sum = (l.map WaitRecord.weight).sum + l.length := by
    intro l
    induction l with
    | nil => rfl
    | cons r l ih =>
      simp only [List.map_cons, List.sum_cons, List.length_cons, ih, WaitRecord.tickets]
      omega
  rw [h.sum, tickets, key, weights, size]

/-! ## Selection -/

/-- What the lottery returns for a draw that is made elsewhere. -/
def outcome (s : WaitSet) (draw : Nat) : Except Fault (Option Nat) :=
  match ticketHolder s.records draw with
  | some i => .ok (some i)
  | none => .error (.ticketSumOutOfSync (s.weightSum + s.size))

theorem select_of_empty {s : WaitSet} (p : Policy) (h : s.records = []) (g : Random) :
    p.select s g = .ok (none, g) := by
  simp only [Policy.select, h]

/-- The draw is all that the lottery takes from the random source. -/
theorem select_eq_outcome {s : WaitSet} (h : s.records ≠ []) (g : Random) :
    Policy.lottery.select s g =
      (s.outcome (g.below (s.weightSum + s.size)).1).map
        fun i => (i, (g.below (s.weightSum + s.size)).2) := by
  obtain ⟨r, rest, hrec⟩ := List.exists_cons_of_ne_nil h
  simp only [Policy.select, outcome, hrec]
  cases ticketHolder (r :: rest) (g.below (s.weightSum + s.size)).1 <;> rfl

theorem outcome_eq_iff {s : WaitSet} {draw i : Nat} :
    s.outcome draw = .ok (some i) ↔ ticketHolder s.records draw = some i := by
  rw [outcome]
  split <;> simp_all

theorem exists_outcome {s : WaitSet} {draw : Nat} (h : draw < s.tickets) :
    ∃ i, s.outcome draw = .ok (some i) := by
  rw [← ticketsBefore_length] at h
  obtain ⟨i, hi⟩ := exists_ticketHolder draw h
  exact ⟨i, outcome_eq_iff.2 hi⟩

theorem tickets_pos {s : WaitSet} (h : s.records ≠ []) : 0 < s.tickets := by
  rw [tickets]
  cases hs : s.records with
  | nil => exact absurd hs h
  | cons r l =>
    rw [List.map_cons, List.sum_cons, WaitRecord.tickets]
    omega

/-- Record `i` holds the ticket `draw`. -/
def Holds (s : WaitSet) (i draw : Nat) : Prop :=
  ∃ h : i < s.records.length, ticketsBefore s.records i ≤ draw ∧
    draw < ticketsBefore s.records i + (s.records[i].weight + 1)

theorem holds_iff {s : WaitSet} {i draw : Nat} :
    s.Holds i draw ↔ ticketHolder s.records draw = some i := by
  rw [ticketHolder_eq_some_iff]
  constructor
  · rintro ⟨h, hge, hlt⟩
    exact ⟨h, hge, by rwa [ticketsBefore_succ h]⟩
  · rintro ⟨h, hge, hlt⟩
    exact ⟨h, hge, by rwa [ticketsBefore_succ h] at hlt⟩

/-- What the lottery does on a wait set, for every random source and for every draw. -/
structure Fair (s : WaitSet) : Prop where
  /-- The range of the draw is the number of tickets, counted over the records. -/
  total : s.weightSum + s.size = (s.records.map fun r => r.weight + 1).sum
  /-- Nobody is selected exactly if nobody waits. -/
  nobody : ∀ g, (∃ g', Policy.lottery.select s g = .ok (none, g')) ↔ s.records = []
  /-- Otherwise a draw below the number of tickets is made, and the record it finds is selected. -/
  drawn : s.records ≠ [] → ∀ g, ∃ draw g' i, g.below (s.weightSum + s.size) = (draw, g') ∧
    draw < s.tickets ∧ s.outcome draw = .ok (some i) ∧
    Policy.lottery.select s g = .ok (some i, g')
  /-- Every draw of the range returns the one record that holds the drawn ticket. There is no draw
  at which the search ends without a record. -/
  holder : ∀ draw < s.tickets, ∃ i, s.outcome draw = .ok (some i) ∧ ∀ j, s.Holds j draw ↔ j = i
  /-- As many draws as a record has tickets return it, at least one. -/
  share : ∀ i (h : i < s.records.length),
    ((Finset.range s.tickets).filter fun draw => s.outcome draw = .ok (some i)).card =
      s.records[i].weight + 1
  /-- The search looks at the records up to the one it returns. -/
  looked : ∀ draw i, s.outcome draw = .ok (some i) → (remainders s.records draw).length = i + 1
  /-- At each of them the tickets before it and what is left of the draw make up the draw: no
  subtraction falls below zero. -/
  exact : ∀ draw j rest, (remainders s.records draw)[j]? = some rest →
    ticketsBefore s.records j + rest = draw
  /-- Nor does a removal take more from the running sum than there is. -/
  removed : ∀ t r s', s.remove t = some (r, s') → s'.weightSum + r.weight = s.weightSum

theorem Ranked.fair {p : Policy} {s : WaitSet} (h : Ranked p s) : s.Fair where
  total := h.total
  nobody g := by
    constructor
    · rintro ⟨g', hg⟩
      by_contra hne
      rw [select_eq_outcome hne, outcome] at hg
      split at hg <;> simp [Except.map] at hg
    · exact fun hs => ⟨g, select_of_empty _ hs g⟩
  drawn hne g := by
    have hlt : (g.below (s.weightSum + s.size)).1 < s.tickets := by
      rw [h.total]
      exact Random.below_lt (tickets_pos hne) g
    obtain ⟨i, hi⟩ := exists_outcome hlt
    exact ⟨_, _, i, rfl, hlt, hi, by rw [select_eq_outcome hne, hi]; rfl⟩
  holder draw hlt := by
    obtain ⟨i, hi⟩ := exists_outcome hlt
    refine ⟨i, hi, fun j => ?_⟩
    rw [holds_iff, outcome_eq_iff.1 hi, Option.some.injEq, eq_comm]
  share i hi := by
    simp only [outcome_eq_iff]
    rw [← ticketsBefore_length, size, filter_ticketHolder hi, Nat.card_Ico, ticketsBefore_succ hi,
      WaitRecord.tickets, Nat.add_sub_cancel_left]
  looked _ _ hi := length_remainders (outcome_eq_iff.1 hi)
  exact _ _ _ hr := remainders_exact hr
  removed _ _ _ hr := h.remove_exact hr

end WaitSet

/-- Whatever was put in and taken out, the lottery on the set that is left is fair. -/
theorem lottery_fair (ops : List WaitSet.Op) : (WaitSet.ofOps .lottery ops).Fair :=
  (WaitSet.ranked_ofOps .lottery ops).fair

/-- Weights 1, 0 and 2 make six tickets. -/
example : (List.range 6).map (WaitSet.ofOps .lottery
    [.insert ⟨⟨7⟩, 1, 0⟩, .insert ⟨⟨4⟩, 9, 1⟩, .insert ⟨⟨5⟩, 0, 2⟩, .remove ⟨4⟩,
      .insert ⟨⟨6⟩, 2, 3⟩]).outcome =
      [.ok (some 0), .ok (some 0), .ok (some 1), .ok (some 2), .ok (some 2), .ok (some 2)] := by
  decide

end ThreadKernel
