import Mathlib.Data.List.Range
import ThreadKernel.WakeSignal

/-!
# ThreadKernel.Proofs.WakeSignal

What a shared wake signal says about the past. Operations are numbered, and a moment is the number of
operations before it.

* `Since`                       — something happened, and another thing did not happen after it.
* `YieldHistory.Polls`, `Suspends` — the polls of a history, and those that suspended their thread.
* `YieldHistory.Pending`        — a signal was given after the last poll, or by it.
* `YieldHistory.Waiting`        — the last poll left its waker, which nobody invoked since.
* `YieldHistory.Leads`          — a suspension and the operation that invokes its waker.
* `YieldHistory.Agrees`         — the invariant: flag, waker and points against the past.
* `yield_signalling`            — what holds at every moment of every history.
-/

namespace ThreadKernel

/-! ## Since -/

/-- Before `k` there was a `P`, and no `Q` between it and `k`. -/
def Since (P Q : Nat → Prop) (k : Nat) : Prop := ∃ j < k, P j ∧ ∀ l, j < l → l < k → ¬ Q l

section Since

variable {P Q : Nat → Prop} {j k : Nat}

theorem not_since_zero : ¬ Since P Q 0 := fun ⟨_, hj, _⟩ => Nat.not_lt_zero _ hj

theorem since_succ : Since P Q (k + 1) ↔ P k ∨ Since P Q k ∧ ¬ Q k := by
  constructor
  · rintro ⟨j, hj, hP, hQ⟩
    rcases Nat.lt_or_eq_of_le (Nat.le_of_lt_succ hj) with hj | rfl
    · exact .inr ⟨⟨j, hj, hP, fun l hl hlk => hQ l hl (Nat.lt_succ_of_lt hlk)⟩,
        hQ k hj (Nat.lt_succ_self k)⟩
    · exact .inl hP
  · rintro (hP | ⟨⟨j, hj, hP, hQ⟩, hk⟩)
    · exact ⟨k, Nat.lt_succ_self k, hP,
        fun l hl hlk => absurd (Nat.le_of_lt_succ hlk) (Nat.not_le.2 hl)⟩
    · refine ⟨j, Nat.lt_succ_of_lt hj, hP, fun l hl hlk => ?_⟩
      rcases Nat.lt_or_eq_of_le (Nat.le_of_lt_succ hlk) with hlk | rfl
      · exact hQ l hl hlk
      · exact hk

end Since

/-! ## One poll -/

namespace YieldPoint

variable {ω : Type}

/-- A point that was polled has suspended its thread, now or before. -/
theorem poll_point (p : YieldPoint) (w : ω) (s : WakeSignal ω) :
    (p.poll w s).point = ⟨p.once, true⟩ := by
  obtain ⟨once, yielded⟩ := p
  unfold poll
  split
  · rename_i h
    exact congrArg _ (Bool.and_eq_true_iff.1 h).1
  · cases once <;> rfl

theorem poll_ready (p : YieldPoint) (w : ω) (s : WakeSignal ω) :
    (p.poll w s).ready = (p.yielded && s.woken) := by
  unfold poll
  split
  · rename_i h
    exact h.symm
  · rename_i h
    rw [eq_comm, Bool.eq_false_iff.2 h]
    split <;> rfl

/-- A poll that suspends. -/
theorem poll_suspends {p : YieldPoint} {s : WakeSignal ω} (h : (p.yielded && s.woken) = false)
    (w : ω) : (p.poll w s).signal = ⟨p.once, if p.once then none else some w⟩ ∧
      (p.poll w s).invoked = if p.once then some w else none := by
  unfold poll
  rw [h]
  cases p.once <;> exact ⟨rfl, rfl⟩

end YieldPoint

namespace YieldHistory

variable {ω : Type} {ops : Nat → Op ω} {i j k l : Nat} {w : ω} {once : Bool}

/-! ## What the past says -/

/-- The history before the operation `k`. -/
def before (ops : Nat → Op ω) : Nat → YieldHistory ω
  | 0 => start
  | k + 1 => ((before ops k).apply (ops k)).2

/-- Whether the operation `k` is a poll that lets the thread pass. -/
def ready (ops : Nat → Op ω) (k : Nat) : Bool := ((before ops k).apply (ops k)).1

def Op.kind? : Op ω → Option Bool
  | .create once => some once
  | _ => none

/-- Of each point created before `k`, whether it yields once. -/
def kinds (ops : Nat → Op ω) (k : Nat) : List Bool :=
  (List.range k).filterMap fun j => (ops j).kind?

/-- The operation `k` polls the point `i`, which was created before. -/
def Polls (ops : Nat → Op ω) (i k : Nat) : Prop :=
  i < (kinds ops k).length ∧ ∃ w, ops k = .poll i w

/-- The operation `k` polls some point. -/
def PollsAny (ops : Nat → Op ω) (k : Nat) : Prop := ∃ i, Polls ops i k

def Wakes (ops : Nat → Op ω) (k : Nat) : Prop := ops k = .wake

/-- The operation `k` polls a point that yields once (or one that yields until it is woken), with the
waker `w`, and the thread suspends. -/
def Suspends (ops : Nat → Op ω) (once : Bool) (w : ω) (k : Nat) : Prop :=
  ∃ i, (kinds ops k)[i]? = some once ∧ ops k = .poll i w ∧ ready ops k = false

/-- There was a wake since the last poll, or that poll suspended at a point that yields once. -/
def Pending (ops : Nat → Op ω) (k : Nat) : Prop :=
  Since (Wakes ops) (PollsAny ops) k ∨
    Since (fun j => ∃ w, Suspends ops true w j) (PollsAny ops) k

/-- The last poll suspended at a point that yields until it is woken, and there was no wake since. -/
def Waiting (ops : Nat → Op ω) (w : ω) (k : Nat) : Prop :=
  Since (Suspends ops false w) (fun l => PollsAny ops l ∨ Wakes ops l) k

/-- The suspension `j` makes the operation `k` invoke its waker `w`: at once if the point yields once,
otherwise with the first wake, unless another poll comes before. -/
def Leads (ops : Nat → Op ω) (j k : Nat) (w : ω) : Prop :=
  k = j ∧ Suspends ops true w j ∨
    j < k ∧ Suspends ops false w j ∧ Wakes ops k ∧
      ∀ l, j < l → l < k → ¬ (PollsAny ops l ∨ Wakes ops l)

theorem kinds_succ : kinds ops (k + 1) = kinds ops k ++ (ops k).kind?.toList := by
  rw [kinds, List.range_succ, List.filterMap_append, List.filterMap_cons]
  cases (ops k).kind? <;> rfl

theorem kinds_length_mono (ops : Nat → Op ω) (h : j ≤ k) :
    (kinds ops j).length ≤ (kinds ops k).length := by
  induction h with
  | refl => exact Nat.le_refl _
  | step _ ih =>
    rw [kinds_succ, List.length_append]
    exact ih.trans (Nat.le_add_right _ _)

theorem Suspends.polls (h : Suspends ops once w k) : PollsAny ops k := by
  obtain ⟨i, hkind, hop, -⟩ := h
  exact ⟨i, (List.getElem?_eq_some_iff.1 hkind).1, w, hop⟩

theorem PollsAny.not_wakes (h : PollsAny ops k) : ¬ Wakes ops k := by
  obtain ⟨_, _, _, hop⟩ := h
  intro hwake
  cases hop.symm.trans hwake

theorem Suspends.unique {once' : Bool} {w' : ω} (h : Suspends ops once w k)
    (h' : Suspends ops once' w' k) : once = once' ∧ w = w' := by
  obtain ⟨i, hkind, hop, -⟩ := h
  obtain ⟨i', hkind', hop', -⟩ := h'
  cases hop.symm.trans hop'
  exact ⟨Option.some.inj (hkind.symm.trans hkind'), rfl⟩

/-- A waker is invoked by a poll that suspends, or by a wake it waited for. -/
theorem exists_leads_iff :
    (∃ j, Leads ops j k w) ↔ Suspends ops true w k ∨ Waiting ops w k ∧ Wakes ops k := by
  constructor
  · rintro ⟨j, ⟨rfl, hs⟩ | ⟨hj, hs, hwake, hquiet⟩⟩
    · exact .inl hs
    · exact .inr ⟨⟨j, hj, hs, hquiet⟩, hwake⟩
  · rintro (hs | ⟨⟨j, hj, hs, hquiet⟩, hwake⟩)
    · exact ⟨k, .inl ⟨rfl, hs⟩⟩
    · exact ⟨j, .inr ⟨hj, hs, hwake, hquiet⟩⟩

/-! ## What an operation does to it -/

theorem pending_succ : Pending ops (k + 1) ↔
    Wakes ops k ∨ (∃ w, Suspends ops true w k) ∨ Pending ops k ∧ ¬ PollsAny ops k := by
  rw [Pending, since_succ, since_succ, Pending]
  tauto

theorem waiting_succ : Waiting ops w (k + 1) ↔
    Suspends ops false w k ∨ Waiting ops w k ∧ ¬ PollsAny ops k ∧ ¬ Wakes ops k := by
  rw [Waiting, since_succ, not_or]
  rfl

/-- An operation that neither polls nor wakes leaves the signal as it was. -/
theorem quiet_succ (hpoll : ¬ PollsAny ops k) (hwake : ¬ Wakes ops k) :
    (Pending ops (k + 1) ↔ Pending ops k) ∧ ∀ w, Waiting ops w (k + 1) ↔ Waiting ops w k := by
  have hs : ∀ once w, ¬ Suspends ops once w k := fun once w h => hpoll h.polls
  refine ⟨?_, fun w => ?_⟩
  · rw [pending_succ]
    simp only [hs, hwake, hpoll, exists_false, false_or, not_false_eq_true, and_true]
  · rw [waiting_succ]
    simp only [hs, hwake, hpoll, false_or, not_false_eq_true, and_true]

/-! ## Flag, waker and points -/

structure Agrees (ops : Nat → Op ω) (k : Nat) : Prop where
  points : (before ops k).points.map YieldPoint.once = kinds ops k
  yielded : ∀ i p, (before ops k).points[i]? = some p → (p.yielded = true ↔ ∃ j < k, Polls ops i j)
  woken : (before ops k).signal.woken = true ↔ Pending ops k
  waker : ∀ w, (before ops k).signal.waker = some w ↔ Waiting ops w k
  /-- A pending wake has invoked the waker. -/
  apart : (before ops k).signal.woken = true → (before ops k).signal.waker = none

/-- The signal after the operation `k`, and the waker it invokes. -/
inductive Effect (ops : Nat → Op ω) (k : Nat) : WakeSignal ω → Option ω → Prop where
  | quiet (no_poll : ¬ PollsAny ops k) (no_wake : ¬ Wakes ops k) :
      Effect ops k (before ops k).signal none
  | passes (polls : PollsAny ops k) (through : ready ops k = true)
      (pending : (before ops k).signal.woken = true) :
      Effect ops k ⟨false, (before ops k).signal.waker⟩ none
  | yields {w : ω} (suspends : Suspends ops true w k) : Effect ops k ⟨true, none⟩ (some w)
  | waits {w : ω} (suspends : Suspends ops false w k) : Effect ops k ⟨false, some w⟩ none
  | repeats (wake : Wakes ops k) (pending : (before ops k).signal.woken = true) :
      Effect ops k (before ops k).signal none
  | wakes (wake : Wakes ops k) (idle : (before ops k).signal.woken = false) :
      Effect ops k ⟨true, none⟩ (before ops k).signal.waker

theorem ready_not_suspends (h : ready ops k = true) : ¬ Suspends ops once w k := by
  rintro ⟨_, _, _, hs⟩
  cases h.symm.trans hs

theorem Effect.woken {s : WakeSignal ω} {o : Option ω} (he : Effect ops k s o)
    (h : Agrees ops k) : s.woken = true ↔ Pending ops (k + 1) := by
  cases he with
  | quiet no_poll no_wake => rw [h.woken, (quiet_succ no_poll no_wake).1]
  | passes polls through pending =>
    rw [pending_succ]
    refine ⟨nofun, ?_⟩
    rintro (hwake | ⟨w, hs⟩ | ⟨-, hno⟩)
    · exact absurd hwake polls.not_wakes
    · exact absurd hs (ready_not_suspends through)
    · exact absurd polls hno
  | yields suspends =>
    rw [pending_succ]
    exact ⟨fun _ => .inr (.inl ⟨_, suspends⟩), fun _ => rfl⟩
  | waits suspends =>
    rw [pending_succ]
    refine ⟨nofun, ?_⟩
    rintro (hwake | ⟨w, hs⟩ | ⟨-, hno⟩)
    · exact absurd hwake suspends.polls.not_wakes
    · cases (suspends.unique hs).1
    · exact absurd suspends.polls hno
  | repeats wake pending =>
    rw [pending_succ]
    exact ⟨fun _ => .inl wake, fun _ => pending⟩
  | wakes wake =>
    rw [pending_succ]
    exact ⟨fun _ => .inl wake, fun _ => rfl⟩

theorem Effect.waker {s : WakeSignal ω} {o : Option ω} (he : Effect ops k s o)
    (h : Agrees ops k) (w : ω) : s.waker = some w ↔ Waiting ops w (k + 1) := by
  -- after a wake nothing waits
  have hwoken : Wakes ops k → ¬ Waiting ops w (k + 1) := fun wake hw => by
    rcases waiting_succ.1 hw with hs | ⟨-, -, hno⟩
    · exact hs.polls.not_wakes wake
    · exact hno wake
  cases he with
  | quiet no_poll no_wake => rw [h.waker, (quiet_succ no_poll no_wake).2]
  | passes polls through pending =>
    rw [h.apart pending, waiting_succ]
    refine ⟨nofun, ?_⟩
    rintro (hs | ⟨-, hno, -⟩)
    · exact absurd hs (ready_not_suspends through)
    · exact absurd polls hno
  | yields suspends =>
    rw [waiting_succ]
    refine ⟨nofun, ?_⟩
    rintro (hs | ⟨-, hno, -⟩)
    · cases (suspends.unique hs).1
    · exact absurd suspends.polls hno
  | waits suspends =>
    rw [waiting_succ]
    constructor
    · intro hw
      cases hw
      exact .inl suspends
    · rintro (hs | ⟨-, hno, -⟩)
      · exact congrArg some (suspends.unique hs).2
      · exact absurd suspends.polls hno
  | repeats wake pending =>
    rw [h.apart pending]
    exact ⟨nofun, fun hw => absurd hw (hwoken wake)⟩
  | wakes wake => exact ⟨nofun, fun hw => absurd hw (hwoken wake)⟩

theorem Effect.apart {s : WakeSignal ω} {o : Option ω} (he : Effect ops k s o)
    (h : Agrees ops k) : s.woken = true → s.waker = none := by
  cases he with
  | quiet | repeats => exact h.apart
  | passes | waits => nofun
  | yields | wakes => exact fun _ => rfl

theorem Effect.invoked {s : WakeSignal ω} {o : Option ω} (he : Effect ops k s o)
    (h : Agrees ops k) (w : ω) : o = some w ↔ ∃ j, Leads ops j k w := by
  rw [exists_leads_iff]
  cases he with
  | quiet no_poll no_wake =>
    refine ⟨nofun, ?_⟩
    rintro (hs | ⟨-, hwake⟩)
    · exact absurd hs.polls no_poll
    · exact absurd hwake no_wake
  | passes polls through pending =>
    refine ⟨nofun, ?_⟩
    rintro (hs | ⟨-, hwake⟩)
    · exact absurd hs (ready_not_suspends through)
    · exact absurd hwake polls.not_wakes
  | yields suspends =>
    constructor
    · intro hw
      cases hw
      exact .inl suspends
    · rintro (hs | ⟨-, hwake⟩)
      · exact congrArg some (suspends.unique hs).2
      · exact absurd hwake suspends.polls.not_wakes
  | waits suspends =>
    refine ⟨nofun, ?_⟩
    rintro (hs | ⟨-, hwake⟩)
    · cases (suspends.unique hs).1
    · exact absurd hwake suspends.polls.not_wakes
  | repeats wake pending =>
    refine ⟨nofun, ?_⟩
    rintro (hs | ⟨hw, -⟩)
    · exact absurd wake hs.polls.not_wakes
    · cases (h.apart pending).symm.trans ((h.waker w).2 hw)
  | wakes wake =>
    rw [h.waker]
    refine ⟨fun hw => .inr ⟨hw, wake⟩, ?_⟩
    rintro (hs | ⟨hw, -⟩)
    · exact absurd wake hs.polls.not_wakes
    · exact hw

theorem Agrees.point (h : Agrees ops k) {p : YieldPoint} (hp : (before ops k).points[i]? = some p) :
    (kinds ops k)[i]? = some p.once := by
  rw [← h.points, List.getElem?_map, hp]
  rfl

theorem Agrees.polls_iff (h : Agrees ops k) (hop : ops k = .poll i w) :
    Polls ops l k ↔ l = i ∧ ∃ p, (before ops k).points[i]? = some p := by
  rw [Polls, ← h.points, List.length_map, hop]
  constructor
  · rintro ⟨hl, _, he⟩
    cases he
    exact ⟨rfl, _, List.getElem?_eq_getElem hl⟩
  · rintro ⟨rfl, p, hp⟩
    exact ⟨(List.getElem?_eq_some_iff.1 hp).1, w, rfl⟩

theorem before_poll {p : YieldPoint} (hop : ops k = .poll i w)
    (hp : (before ops k).points[i]? = some p) :
    before ops (k + 1) = ⟨(before ops k).points.set i (p.poll w (before ops k).signal).point,
      (p.poll w (before ops k).signal).signal,
      (before ops k).invoked ++ (p.poll w (before ops k).signal).invoked.toList⟩ := by
  rw [before, hop]
  simp only [apply, hp]

theorem ready_poll {p : YieldPoint} (hop : ops k = .poll i w)
    (hp : (before ops k).points[i]? = some p) :
    ready ops k = (p.yielded && (before ops k).signal.woken) := by
  rw [ready, hop]
  simp only [apply, hp]
  exact p.poll_ready w _

/-- A poll of a point that does not exist does nothing. -/
theorem poll_absent (hop : ops k = .poll i w) (hp : (before ops k).points[i]? = none) :
    before ops (k + 1) = before ops k ∧ ready ops k = false := by
  rw [before, ready, hop]
  simp only [apply, hp, and_self]

theorem Agrees.not_polls (h : Agrees ops k) (hop : ops k = .poll i w)
    (hp : (before ops k).points[i]? = none) : ¬ Polls ops l k := by
  rw [h.polls_iff hop, hp]
  rintro ⟨-, p, hp'⟩
  cases hp'

/-- What the poll of a point that exists does. -/
theorem Agrees.effect_poll (h : Agrees ops k) {p : YieldPoint} (hop : ops k = .poll i w)
    (hp : (before ops k).points[i]? = some p) :
    Effect ops k (p.poll w (before ops k).signal).signal
      (p.poll w (before ops k).signal).invoked := by
  have hready := ready_poll hop hp
  cases hthrough : p.yielded && (before ops k).signal.woken with
  | true =>
    rw [YieldPoint.poll, if_pos hthrough]
    exact .passes ⟨i, (h.polls_iff hop).2 ⟨rfl, p, hp⟩⟩ (hready.trans hthrough)
      (Bool.and_eq_true_iff.1 hthrough).2
  | false =>
    have hs : Suspends ops p.once w k := ⟨i, h.point hp, hop, hready.trans hthrough⟩
    obtain ⟨hsignal, hinvoked⟩ := YieldPoint.poll_suspends hthrough w
    rw [hsignal, hinvoked]
    cases honce : p.once with
    | true => exact .yields (honce ▸ hs)
    | false => exact .waits (honce ▸ hs)

theorem Agrees.effect (h : Agrees ops k) : ∃ o, Effect ops k (before ops (k + 1)).signal o ∧
    (before ops (k + 1)).invoked = (before ops k).invoked ++ o.toList := by
  cases hop : ops k with
  | create once =>
    have hpoll : ¬ PollsAny ops k := fun ⟨_, _, _, he⟩ => nomatch hop.symm.trans he
    have hwake : ¬ Wakes ops k := fun he => nomatch hop.symm.trans he
    rw [before, hop]
    exact ⟨none, .quiet hpoll hwake, (List.append_nil _).symm⟩
  | wake =>
    rw [before, hop]
    simp only [apply, WakeSignal.wake]
    cases hwoken : (before ops k).signal.woken with
    | true => exact ⟨none, .repeats hop hwoken, rfl⟩
    | false => exact ⟨_, .wakes hop hwoken, rfl⟩
  | poll i w =>
    cases hp : (before ops k).points[i]? with
    | none =>
      have hpoll : ¬ PollsAny ops k := fun ⟨_, hl⟩ => h.not_polls hop hp hl
      have hwake : ¬ Wakes ops k := fun he => nomatch hop.symm.trans he
      rw [(poll_absent hop hp).1]
      exact ⟨none, .quiet hpoll hwake, (List.append_nil _).symm⟩
    | some p =>
      rw [before_poll hop hp]
      exact ⟨_, h.effect_poll hop hp, rfl⟩

/-- A point counts as suspended before from its first poll on. -/
theorem Agrees.points_succ (h : Agrees ops k) :
    (before ops (k + 1)).points.map YieldPoint.once = kinds ops (k + 1) ∧
    ∀ i p, (before ops (k + 1)).points[i]? = some p →
      (p.yielded = true ↔ ∃ j < k + 1, Polls ops i j) := by
  have hpolls : ∀ i, (∃ j < k + 1, Polls ops i j) ↔ (∃ j < k, Polls ops i j) ∨ Polls ops i k := by
    intro i
    simp only [Nat.lt_succ_iff_lt_or_eq, or_and_right, exists_or, exists_eq_left]
  rw [kinds_succ, ← h.points]
  simp only [hpolls]
  cases hop : ops k with
  | create once =>
    have hnone : ∀ i, ¬ Polls ops i k := fun i ⟨_, _, he⟩ => nomatch hop.symm.trans he
    rw [before, hop]
    refine ⟨List.map_append, fun i p hp => ?_⟩
    rw [or_iff_left (hnone i)]
    rcases Nat.lt_trichotomy i (before ops k).points.length with hi | rfl | hi
    · exact h.yielded i p (by rwa [apply, List.getElem?_append_left hi] at hp)
    · rw [apply, List.getElem?_concat_length] at hp
      cases hp
      -- nobody polls a point before it exists
      refine ⟨nofun, fun ⟨j, hj, hlt, _⟩ => ?_⟩
      have hle := kinds_length_mono ops (Nat.le_of_lt hj)
      rw [← h.points, List.length_map] at hle
      exact absurd hlt (Nat.not_lt.2 hle)
    · rw [apply, List.getElem?_eq_none (by rw [List.length_append]; exact hi)] at hp
      cases hp
  | wake =>
    have hnone : ∀ i, ¬ Polls ops i k := fun i ⟨_, _, he⟩ => nomatch hop.symm.trans he
    rw [before, hop]
    refine ⟨(List.append_nil _).symm, fun i p hp => ?_⟩
    rw [or_iff_left (hnone i)]
    exact h.yielded i p hp
  | poll l w =>
    cases hl : (before ops k).points[l]? with
    | none =>
      rw [(poll_absent hop hl).1]
      refine ⟨(List.append_nil _).symm, fun i p hp => ?_⟩
      rw [or_iff_left (h.not_polls hop hl)]
      exact h.yielded i p hp
    | some q =>
      rw [before_poll hop hl]
      simp only [YieldPoint.poll_point]
      obtain ⟨hlt, hq⟩ := List.getElem?_eq_some_iff.1 hl
      refine ⟨?_, fun i p hp => ?_⟩
      · have hlt : l < ((before ops k).points.map YieldPoint.once).length := by simpa using hlt
        have hsame : q.once = ((before ops k).points.map YieldPoint.once)[l] := by
          rw [List.getElem_map, hq]
        rw [List.map_set, hsame, List.set_getElem_self]
        exact (List.append_nil _).symm
      · rw [h.polls_iff hop]
        rw [List.getElem?_set] at hp
        split at hp
        · rename_i hli
          cases hp
          exact ⟨fun _ => .inr ⟨hli.symm, q, hl⟩, fun _ => rfl⟩
        · rename_i hli
          rw [or_iff_left (fun he => hli he.1.symm)]
          exact h.yielded i p hp

theorem agrees (ops : Nat → Op ω) (k : Nat) : Agrees ops k := by
  induction k with
  | zero =>
    refine ⟨rfl, fun i p hp => (nomatch hp), ⟨nofun, ?_⟩, fun w => ⟨nofun, ?_⟩, nofun⟩
    · rintro (hs | hs) <;> exact absurd hs not_since_zero
    · exact fun hs => absurd hs not_since_zero
  | succ k ih =>
    obtain ⟨hpoints, hyielded⟩ := ih.points_succ
    obtain ⟨o, heffect, -⟩ := ih.effect
    exact ⟨hpoints, hyielded, heffect.woken ih, heffect.waker ih, heffect.apart ih⟩

/-! ## Every moment -/

structure Signalling (ops : Nat → Op ω) (k : Nat) : Prop where
  /-- A poll lets the thread pass if the point was polled before and a signal is pending. -/
  ready : ready ops k = true ↔ ∃ i, Polls ops i k ∧ (∃ j < k, Polls ops i j) ∧ Pending ops k
  woken : (before ops k).signal.woken = true ↔ Pending ops k
  waker : ∀ w, (before ops k).signal.waker = some w ↔ Waiting ops w k
  /-- The operation invokes one waker if a suspension leads to it, and none otherwise. -/
  invoked : ∃ o : Option ω, (before ops (k + 1)).invoked = (before ops k).invoked ++ o.toList ∧
    ∀ w, o = some w ↔ ∃ j, Leads ops j k w
  /-- A suspension leads to one invocation at most. -/
  target : ∀ l l' w w', Leads ops k l w → Leads ops k l' w' → l = l' ∧ w = w'
  /-- An invocation answers one suspension only. -/
  source : ∀ j j' w w', Leads ops j k w → Leads ops j' k w' → j = j'
  /-- Whoever passes suspended at that point before, and a signal was given no earlier than at the
  first suspension. -/
  stale : ∀ i, Polls ops i k → YieldHistory.ready ops k = true →
    ∃ j < k, Polls ops i j ∧ (∀ m < j, ¬ Polls ops i m) ∧ YieldHistory.ready ops j = false ∧
      ∃ l, j ≤ l ∧ l < k ∧ (Wakes ops l ∨ ∃ w, Suspends ops true w l)
  /-- A wake after a suspension lets the thread pass if its point is the next that is polled. -/
  kept : ∀ i j l, Polls ops i j → j < l → l < k → Wakes ops l →
    (∀ m, l < m → m < k → ¬ PollsAny ops m) → Polls ops i k → YieldHistory.ready ops k = true

theorem Agrees.ready_iff (h : Agrees ops k) :
    ready ops k = true ↔ ∃ i, Polls ops i k ∧ (∃ j < k, Polls ops i j) ∧ Pending ops k := by
  cases hop : ops k with
  | create | wake =>
    rw [ready, hop]
    exact ⟨nofun, fun ⟨i, ⟨_, _, he⟩, _⟩ => nomatch hop.symm.trans he⟩
  | poll l w =>
    cases hl : (before ops k).points[l]? with
    | none =>
      rw [(poll_absent hop hl).2]
      exact ⟨nofun, fun ⟨_, hi, _⟩ => absurd hi (h.not_polls hop hl)⟩
    | some p =>
      rw [ready_poll hop hl, Bool.and_eq_true, h.yielded l p hl, h.woken]
      simp only [h.polls_iff hop]
      constructor
      · rintro ⟨hbefore, hpending⟩
        exact ⟨l, ⟨rfl, p, hl⟩, hbefore, hpending⟩
      · rintro ⟨_, ⟨rfl, -⟩, hbefore, hpending⟩
        exact ⟨hbefore, hpending⟩

/-- A pending signal was given after every earlier poll, or by it. -/
theorem Pending.given (h : Pending ops k) (hj : j < k) (hp : PollsAny ops j) :
    ∃ l, j ≤ l ∧ l < k ∧ (Wakes ops l ∨ ∃ w, Suspends ops true w l) := by
  rcases h with ⟨l, hl, hsignal, hquiet⟩ | ⟨l, hl, hsignal, hquiet⟩
  · exact ⟨l, Nat.le_of_not_lt fun hlj => hquiet j hlj hj hp, hl, .inl hsignal⟩
  · exact ⟨l, Nat.le_of_not_lt fun hlj => hquiet j hlj hj hp, hl, .inr hsignal⟩

/-- The first poll of a point. -/
theorem exists_first_poll (h : Polls ops i j) :
    ∃ m ≤ j, Polls ops i m ∧ ∀ l < m, ¬ Polls ops i l := by
  induction j using Nat.strongRecOn with
  | ind j ih =>
    by_cases hearlier : ∃ l < j, Polls ops i l
    · obtain ⟨l, hl, hp⟩ := hearlier
      obtain ⟨m, hm, hfirst⟩ := ih l hl hp
      exact ⟨m, hm.trans (Nat.le_of_lt hl), hfirst⟩
    · exact ⟨j, Nat.le_refl j, h, fun l hl hp => hearlier ⟨l, hl, hp⟩⟩

theorem Polls.unique (h : Polls ops i k) (h' : Polls ops j k) : i = j := by
  obtain ⟨-, _, hop⟩ := h
  obtain ⟨-, _, hop'⟩ := h'
  cases hop.symm.trans hop'
  rfl

theorem Leads.target {l' : Nat} {w' : ω} (h : Leads ops k l w) (h' : Leads ops k l' w') :
    l = l' ∧ w = w' := by
  rcases h with ⟨rfl, hs⟩ | ⟨hl, hs, hwake, hquiet⟩ <;>
    rcases h' with ⟨rfl, hs'⟩ | ⟨hl', hs', hwake', hquiet'⟩
  · exact ⟨rfl, (hs.unique hs').2⟩
  · cases (hs.unique hs').1
  · cases (hs.unique hs').1
  · refine ⟨?_, (hs.unique hs').2⟩
    -- the earlier of two wakes is the one that counts
    rcases Nat.lt_trichotomy l l' with hlt | heq | hlt
    · exact absurd (.inr hwake) (hquiet' l hl hlt)
    · exact heq
    · exact absurd (.inr hwake') (hquiet l' hl' hlt)

theorem Leads.source {j' : Nat} {w' : ω} (h : Leads ops j k w) (h' : Leads ops j' k w') :
    j = j' := by
  rcases h with ⟨rfl, hs⟩ | ⟨hj, hs, hwake, hquiet⟩ <;>
    rcases h' with ⟨rfl, hs'⟩ | ⟨hj', hs', hwake', hquiet'⟩
  · rfl
  · exact absurd hwake' hs.polls.not_wakes
  · exact absurd hwake hs'.polls.not_wakes
  · rcases Nat.lt_trichotomy j j' with hlt | heq | hlt
    · exact absurd (.inl hs'.polls) (hquiet j' hlt hj')
    · exact heq
    · exact absurd (.inl hs.polls) (hquiet' j hlt hj)

/-- Polls, wakes and suspensions of the past decide about every moment of every history. -/
theorem yield_signalling (ops : Nat → Op ω) (k : Nat) : Signalling ops k := by
  have h := agrees ops k
  refine ⟨h.ready_iff, h.woken, h.waker, ?_, fun _ _ _ _ => Leads.target,
    fun _ _ _ _ => Leads.source, fun i hi hready => ?_, fun i j l hj hjl hlk hwake hquiet hi => ?_⟩
  · obtain ⟨o, heffect, hinvoked⟩ := h.effect
    exact ⟨o, hinvoked, heffect.invoked h⟩
  · obtain ⟨i', hi', ⟨j, hj, hpoll⟩, hpending⟩ := h.ready_iff.1 hready
    obtain rfl := hi.unique hi'
    obtain ⟨m, hmj, hm, hfirst⟩ := exists_first_poll hpoll
    have hmk := Nat.lt_of_le_of_lt hmj hj
    refine ⟨m, hmk, hm, hfirst, ?_, hpending.given hmk ⟨i, hm⟩⟩
    rw [Bool.eq_false_iff]
    intro hpass
    obtain ⟨i', hi', ⟨l, hl, hpoll⟩, -⟩ := (agrees ops m).ready_iff.1 hpass
    obtain rfl := hm.unique hi'
    exact hfirst l hl hpoll
  · exact h.ready_iff.2 ⟨i, hi, ⟨j, hjl.trans hlk, hj⟩, .inl ⟨l, hlk, hwake, hquiet⟩⟩

end YieldHistory
end ThreadKernel
