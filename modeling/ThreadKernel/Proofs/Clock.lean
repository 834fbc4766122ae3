import Mathlib.Algebra.Order.Ring.Nat
import ThreadKernel.Clock

/-!
# ThreadKernel.Proofs.Clock

The timer keeps time. Whatever happens to a clock, its next interrupt is set to the first multiple of
the interval after the moment at which the last one was acknowledged, so an interrupt is due exactly
if a multiple of the interval has passed since.

* `Clock.Paced`        — the next tick is a multiple of the interval, at most one interval ahead.
* `Clock.compute?`     — the operations with numbers that can be stored, and no others.
* `Clock.run`          — a history, with the moment of the last acknowledgement.
* `Clock.Follows`      — what every operation keeps.
* `Clock.Timekeeping`  — what follows for the clock and its next operation.
* `start_timekeeping`  — it holds after every history with room for one interval more.
-/

namespace ThreadKernel.Clock

variable {c c' : Clock} {interval a : Nat} {op : Op}

/-! ## The pace of the timer -/

structure Paced (c : Clock) : Prop where
  multiple : c.interval ∣ c.nextTick
  near : c.nextTick ≤ c.now + c.interval
  stored : c.now ≤ maxTime

/-- No multiple of the interval lies between now and the next tick. -/
theorem Paced.nextTick_le (h : c.Paced) {x : Nat} (hx : c.interval ∣ x) (hlt : c.now < x) :
    c.nextTick ≤ x := by
  obtain ⟨n, hn⟩ := h.multiple
  obtain ⟨l, rfl⟩ := hx
  have hnear := h.near
  have hlt' : c.interval * n < c.interval * (l + 1) := by
    rw [Nat.mul_succ]
    omega
  have hle : n ≤ l := Nat.lt_succ_iff.1 (Nat.lt_of_mul_lt_mul_left hlt')
  rw [hn]
  exact Nat.mul_le_mul_left _ hle

theorem start_paced (h : start interval = .ok c) : c.Paced ∧ c.now < c.nextTick := by
  unfold start at h
  split at h
  · rename_i hpos
    cases h
    exact ⟨⟨Nat.dvd_refl _, by simp, Nat.zero_le _⟩, hpos⟩
  · cases h

theorem le_advance (h : c.now ≤ maxTime) (ticks : Nat) : c.now ≤ (c.advance ticks).now :=
  Nat.le_min.2 ⟨Nat.le_add_right _ _, h⟩

theorem Paced.advance (h : c.Paced) (ticks : Nat) : (c.advance ticks).Paced := by
  have hnow := le_advance h.stored ticks
  have hnear := h.near
  refine ⟨h.multiple, ?_, Nat.min_le_right _ _⟩
  show c.nextTick ≤ (c.advance ticks).now + c.interval
  omega

@[simp] theorem interval_fastForward (c : Clock) : c.fastForward.interval = c.interval := by
  unfold fastForward
  split <;> rfl

theorem fastForward_now (h : c.now < c.nextTick) :
    c.fastForward.now = c.nextTick ∧ c.fastForward.nextTick = c.nextTick ∧
      c.fastForward.interval = c.interval := by
  unfold fastForward
  rw [if_pos h]
  exact ⟨rfl, rfl, rfl⟩

theorem Paced.fastForward (h : c.Paced) (hn : c.now < c.nextTick) (hs : c.nextTick ≤ maxTime) :
    c.fastForward.Paced := by
  obtain ⟨hnow, hnext, hint⟩ := fastForward_now hn
  refine ⟨?_, ?_, ?_⟩
  · rw [hnext, hint]
    exact h.multiple
  · rw [hnext, hnow]
    exact Nat.le_add_right _ _
  · rw [hnow]
    exact hs

/-- An interrupt takes no time. -/
theorem takeTick_cases (h : c.takeTick? = some c') :
    c.nextTick ≤ c.now ∧ c'.now = c.now ∧ c'.interval = c.interval ∧ c.nextTick ≤ c'.nextTick := by
  unfold takeTick? at h
  split at h
  · cases h
  · cases h
    exact ⟨by omega, rfl, rfl, Nat.le_add_right _ _⟩

/-- An acknowledged interrupt is not due again at the same time. -/
theorem takeTick_early (h : c.takeTick? = some c') : c'.now < c'.nextTick := by
  unfold takeTick? at h
  split at h
  · cases h
  · cases h
    have hdiv := Nat.div_add_mod (c.now - c.nextTick) c.interval
    have hmod := Nat.mod_lt (c.now - c.nextTick) c.interval_pos
    rw [Nat.mul_comm] at hdiv
    show c.now < c.nextTick + ((c.now - c.nextTick) / c.interval + 1) * c.interval
    rw [Nat.add_mul]
    omega

theorem takeTick_none (h : c.takeTick? = none) : c.now < c.nextTick := by
  unfold takeTick? at h
  split at h
  · assumption
  · cases h

theorem Paced.takeTick (h : c.Paced) (ht : c.takeTick? = some c') : c'.Paced := by
  unfold takeTick? at ht
  split at ht
  · cases ht
  · cases ht
    refine ⟨Nat.dvd_add h.multiple (Nat.dvd_mul_left _ _), ?_, h.stored⟩
    have hdiv := Nat.div_mul_le_self (c.now - c.nextTick) c.interval
    show c.nextTick + ((c.now - c.nextTick) / c.interval + 1) * c.interval ≤ c.now + c.interval
    rw [Nat.add_mul, Nat.one_mul]
    omega

/-! ## Numbers that can be stored -/

/-- The sum, unless it is too great. -/
def sum? (m n : Nat) : Option Nat := if m + n ≤ maxTime then some (m + n) else none

/-- The product, unless it is too great. -/
def product? (m n : Nat) : Option Nat := if m * n ≤ maxTime then some (m * n) else none

/-- The difference, unless it is below zero. -/
def difference? (m n : Nat) : Option Nat := if n ≤ m then some (m - n) else none

/-- An operation computed step by step, `none` if a result on the way cannot be stored. Time that
passes stops at the greatest time, and a jump needs no arithmetic. -/
def compute? (c : Clock) : Op → Option (Bool × Clock)
  | .advance ticks => some (false, c.advance ticks)
  | .fastForward => some (false, c.fastForward)
  | .takeTick =>
    if c.now < c.nextTick then some (false, c)
    else
      (difference? c.now c.nextTick).bind fun late =>
      (sum? (late / c.interval) 1).bind fun count =>
      (product? count c.interval).bind fun step =>
      (sum? c.nextTick step).map fun next => (true, { c with nextTick := next })

/-! ## Histories -/

/-- The moment of the last acknowledgement, and the clock, after an operation. -/
def step (x : Nat × Clock) (op : Op) : Nat × Clock :=
  (if (x.2.apply op).1 then x.2.now else x.1, (x.2.apply op).2)

/-- The same after a history. At its beginning counts as a moment of acknowledgement. -/
def run (c : Clock) (ops : List Op) : Nat × Clock := ops.foldl step (0, c)

/-- If an interrupt is asked for, there is room for one interval more. -/
def Admits (c : Clock) (op : Op) : Prop := op = .takeTick → c.now + c.interval ≤ maxTime

instance (c : Clock) (op : Op) : Decidable (c.Admits op) :=
  inferInstanceAs (Decidable (op = .takeTick → c.now + c.interval ≤ maxTime))

/-- There is room whenever the history asks for one. -/
def Timely : Clock → List Op → Prop
  | _, [] => True
  | c, op :: ops => c.Admits op ∧ Timely (c.apply op).2 ops

/-! ## What every operation keeps -/

theorem interval_apply (c : Clock) (op : Op) : (c.apply op).2.interval = c.interval := by
  cases op with
  | advance ticks => rfl
  | fastForward => exact c.interval_fastForward
  | takeTick =>
    rw [apply]
    split
    · rename_i ht
      exact (takeTick_cases ht).2.2.1
    · rfl

/-- The first multiple of the interval after a moment. -/
def following (c : Clock) (x : Nat) : Nat := (x / c.interval + 1) * c.interval

theorem lt_following (c : Clock) (x : Nat) : x < c.following x := by
  rw [following, Nat.add_mul, Nat.one_mul]
  exact Nat.lt_div_mul_add c.interval_pos

theorem following_le_add (c : Clock) (x : Nat) : c.following x ≤ x + c.interval := by
  rw [following, Nat.add_mul, Nat.one_mul]
  exact Nat.add_le_add_right (Nat.div_mul_le_self x c.interval) _

theorem following_le {x y : Nat} (hy : c.interval ∣ y) (hlt : x < y) : c.following x ≤ y := by
  obtain ⟨n, rfl⟩ := hy
  rw [following, Nat.mul_comm c.interval n]
  exact Nat.mul_le_mul_right _ (Nat.div_lt_of_lt_mul hlt)

/-- The next interrupt is set to the first multiple of the interval after `a`, the moment of the
last acknowledgement. -/
structure Follows (a : Nat) (c : Clock) : Prop where
  next : c.nextTick = c.following a
  past : a ≤ c.now
  now_stored : c.now ≤ maxTime
  next_stored : c.nextTick ≤ maxTime

theorem start_follows (hs : interval ≤ maxTime) (h : start interval = .ok c) :
    Follows 0 c ∧ c.interval = interval := by
  unfold start at h
  split at h
  · cases h
    exact ⟨⟨by simp [following], Nat.le_refl 0, Nat.zero_le _, hs⟩, rfl⟩
  · cases h

namespace Follows

theorem paced (h : Follows a c) : c.Paced := by
  have hnear := c.following_le_add a
  have hpast := h.past
  refine ⟨?_, ?_, h.now_stored⟩ <;> rw [h.next]
  · exact Nat.dvd_mul_left _ _
  · omega

/-- An interrupt is due if a multiple of the interval has passed since the acknowledgement. -/
theorem due_iff (h : Follows a c) :
    c.nextTick ≤ c.now ↔ ∃ x, 0 < x ∧ c.interval ∣ x ∧ a < x ∧ x ≤ c.now := by
  constructor
  · intro hdue
    have hlt : a < c.nextTick := h.next ▸ c.lt_following a
    exact ⟨c.nextTick, Nat.zero_lt_of_lt hlt, h.paced.multiple, hlt, hdue⟩
  · rintro ⟨x, -, hx, hlt, hle⟩
    rw [h.next]
    exact (following_le hx hlt).trans hle

/-- Intervals that were missed are skipped. -/
theorem skipped (h : Follows a c) (hdue : c.nextTick ≤ c.now) :
    c.nextTick + ((c.now - c.nextTick) / c.interval + 1) * c.interval = c.following c.now := by
  obtain ⟨n, hn⟩ := h.paced.multiple
  have hle : n ≤ c.now / c.interval :=
    (Nat.le_div_iff_mul_le c.interval_pos).2 (by rw [Nat.mul_comm, ← hn]; exact hdue)
  rw [following, hn, Nat.sub_mul_div, Nat.mul_comm c.interval n, ← Nat.add_mul]
  congr 1
  omega

end Follows

theorem apply_early (h : c.now < c.nextTick) : c.apply .takeTick = (false, c) := by
  simp only [apply, takeTick?, if_pos h]

theorem Follows.apply_due (h : Follows a c) (hdue : c.nextTick ≤ c.now) :
    c.apply .takeTick = (true, { c with nextTick := c.following c.now }) := by
  simp only [Clock.apply, takeTick?, if_neg (Nat.not_lt.2 hdue), h.skipped hdue]

/-- Every operation keeps the next interrupt in its place. -/
theorem Follows.step (h : Follows a c) (hop : c.Admits op) :
    Follows (step (a, c) op).1 (step (a, c) op).2 := by
  cases op with
  | advance ticks =>
    have hnow := le_advance h.now_stored ticks
    exact ⟨h.next, h.past.trans hnow, Nat.min_le_right _ _, h.next_stored⟩
  | fastForward =>
    show Follows a c.fastForward
    unfold fastForward
    split
    · rename_i hearly
      exact ⟨h.next, h.past.trans (Nat.le_of_lt hearly), h.next_stored, h.next_stored⟩
    · exact h
  | takeTick =>
    by_cases hearly : c.now < c.nextTick
    · rw [Clock.step, apply_early hearly]
      exact h
    · have hroom := hop rfl
      have hnext := c.following_le_add c.now
      rw [Clock.step, h.apply_due (Nat.not_lt.1 hearly)]
      exact ⟨rfl, Nat.le_refl _, h.now_stored, hnext.trans hroom⟩

theorem Follows.run {ops : List Op} : ∀ {a : Nat} {c : Clock}, Follows a c → Timely c ops →
    Follows (ops.foldl Clock.step (a, c)).1 (ops.foldl Clock.step (a, c)).2 ∧
      (ops.foldl Clock.step (a, c)).2.interval = c.interval := by
  induction ops with
  | nil => exact fun h _ => ⟨h, rfl⟩
  | cons op ops ih =>
    intro a c h ht
    obtain ⟨hfollows, hinterval⟩ := ih (h.step ht.1) ht.2
    exact ⟨hfollows, hinterval.trans (c.interval_apply op)⟩

/-! ## The clock after a history -/

/-- Nothing on the way to the next tick is too great or below zero. -/
theorem Follows.compute?_eq (h : Follows a c) (hop : c.Admits op) :
    c.compute? op = some (c.apply op) := by
  cases op with
  | advance ticks => rfl
  | fastForward => rfl
  | takeTick =>
    by_cases hearly : c.now < c.nextTick
    · rw [apply_early hearly, compute?, if_pos hearly]
    · have hdue := Nat.not_lt.1 hearly
      have hroom := hop rfl
      have hskipped := h.skipped hdue
      have hnext := c.following_le_add c.now
      have hpos : 0 < c.nextTick := h.next ▸ Nat.zero_lt_of_lt (c.lt_following a)
      have hstored := h.now_stored
      have hlate : (c.now - c.nextTick) / c.interval ≤ c.now - c.nextTick := Nat.div_le_self _ _
      have hcount : sum? ((c.now - c.nextTick) / c.interval) 1 =
          some ((c.now - c.nextTick) / c.interval + 1) := if_pos (by omega)
      have hstep : product? ((c.now - c.nextTick) / c.interval + 1) c.interval =
          some (((c.now - c.nextTick) / c.interval + 1) * c.interval) := if_pos (by omega)
      have hsum : sum? c.nextTick (((c.now - c.nextTick) / c.interval + 1) * c.interval) =
          some (c.following c.now) := by
        rw [sum?, hskipped]
        exact if_pos (hnext.trans hroom)
      rw [h.apply_due hdue, compute?, if_neg hearly, difference?, if_pos hdue, Option.bind_some,
        hcount, Option.bind_some, hstep, Option.bind_some, hsum, Option.map_some]

/-- What is true of a clock that last acknowledged an interrupt at `a`, and of its next operation. -/
structure Timekeeping (a : Nat) (c : Clock) : Prop where
  stored : c.now ≤ maxTime ∧ c.nextTick ≤ maxTime
  /-- All results of the next operation can be stored, those on the way included. -/
  computed : ∀ op, c.Admits op → c.compute? op = some (c.apply op)
  forward : ∀ op, c.now ≤ (c.apply op).2.now
  /-- Time that passes is added, as far as it can be stored. -/
  advances : ∀ ticks,
    c.apply (.advance ticks) = (false, { c with now := min (c.now + ticks) maxTime })
  multiple : 0 < c.nextTick ∧ c.interval ∣ c.nextTick
  /-- The next tick is not beyond the first multiple of the interval after now. -/
  near : ∀ x, c.interval ∣ x → c.now < x → c.nextTick ≤ x
  /-- An interrupt is acknowledged exactly if a multiple has passed since the last time. -/
  due : (c.apply .takeTick).1 = true ↔ ∃ x, 0 < x ∧ c.interval ∣ x ∧ a < x ∧ x ≤ c.now
  /-- Then the next tick is set ahead of now, and none is due any more. -/
  taken : (c.apply .takeTick).1 = true → ∃ c', c.apply .takeTick = (true, c') ∧
    c' = { c with nextTick := (c.now / c.interval + 1) * c.interval } ∧
    c'.now < c'.nextTick ∧ c'.nextTick ≤ c'.now + c.interval ∧ c'.apply .takeTick = (false, c')
  notTaken : (c.apply .takeTick).1 = false → c.apply .takeTick = (false, c)
  jumps : c.now < c.nextTick → c.apply .fastForward = (false, { c with now := c.nextTick })
  stays : c.nextTick ≤ c.now → c.apply .fastForward = (false, c)
  /-- After a jump an interrupt is due. -/
  rings : ((c.apply .fastForward).2.apply .takeTick).1 = true

theorem apply_true_iff (h : Follows a c) :
    (c.apply .takeTick).1 = true ↔ c.nextTick ≤ c.now := by
  by_cases hearly : c.now < c.nextTick
  · simp [apply_early hearly, hearly]
  · have hdue := Nat.not_lt.1 hearly
    simp [h.apply_due hdue, hdue]

theorem le_apply (h : Follows a c) (op : Op) : c.now ≤ (c.apply op).2.now := by
  cases op with
  | advance ticks => exact le_advance h.now_stored ticks
  | fastForward =>
    show c.now ≤ c.fastForward.now
    unfold fastForward
    split
    · rename_i hearly
      exact Nat.le_of_lt hearly
    · exact Nat.le_refl _
  | takeTick =>
    rw [apply]
    split
    · rename_i ht
      rw [(takeTick_cases ht).2.1]
    · exact Nat.le_refl _

theorem Follows.timekeeping (h : Follows a c) : Timekeeping a c where
  stored := ⟨h.now_stored, h.next_stored⟩
  computed _ hop := h.compute?_eq hop
  forward := le_apply h
  advances _ := rfl
  multiple := ⟨h.next ▸ Nat.zero_lt_of_lt (c.lt_following a), h.paced.multiple⟩
  near _ hx hlt := h.paced.nextTick_le hx hlt
  due := (apply_true_iff h).trans h.due_iff
  taken htrue :=
    ⟨_, h.apply_due ((apply_true_iff h).1 htrue), rfl, c.lt_following c.now,
      c.following_le_add c.now, apply_early (c.lt_following c.now)⟩
  notTaken hfalse := by
    refine apply_early (Nat.not_le.1 fun hdue => ?_)
    rw [(apply_true_iff h).2 hdue] at hfalse
    cases hfalse
  jumps hearly := by rw [apply, fastForward, if_pos hearly]
  stays hdue := by rw [apply, fastForward, if_neg (Nat.not_lt.2 hdue)]
  rings := by
    by_cases hearly : c.now < c.nextTick
    · obtain ⟨hnow, hnext, -⟩ := fastForward_now hearly
      simp [apply, takeTick?, hnow, hnext]
    · have hdue := Nat.not_lt.1 hearly
      have hstays : c.apply .fastForward = (false, c) := by rw [apply, fastForward, if_neg hearly]
      rw [hstays]
      exact (apply_true_iff h).2 hdue

/-- A clock keeps time after every history that asks for an interrupt only while there is room for
one interval more. -/
theorem start_timekeeping (hpos : 0 < interval) (hs : interval ≤ maxTime) :
    ∃ c, start interval = .ok c ∧ ∀ ops, Timely c ops →
      (c.run ops).2.interval = interval ∧ Timekeeping (c.run ops).1 (c.run ops).2 := by
  have hstart : start interval = .ok ⟨0, interval, interval, hpos⟩ := dif_pos hpos
  obtain ⟨hfollows, hinterval⟩ := start_follows hs hstart
  refine ⟨_, hstart, fun ops ht => ?_⟩
  obtain ⟨hrun, hkept⟩ := hfollows.run ht
  exact ⟨hkept.trans hinterval, hrun.timekeeping⟩

/-- The interval is nearly half of the time that can be stored. The interrupt is acknowledged at the
last moment with room for another one. -/
def lateOps : List Op :=
  [.takeTick, .advance 9223372036854775808, .takeTick, .takeTick, .fastForward, .advance 99]

theorem start_timekeeping_late : ∃ c, start 9223372036854775807 = .ok c ∧ Timely c lateOps ∧
    (c.run lateOps).1 = 9223372036854775808 ∧ (c.run lateOps).2.now = maxTime ∧
    (c.run lateOps).2.interval = 9223372036854775807 ∧
    Timekeeping (c.run lateOps).1 (c.run lateOps).2 := by
  obtain ⟨c, hstart, hkeeps⟩ :=
    @start_timekeeping 9223372036854775807 (by decide) (by decide)
  have hc : c = ⟨0, 9223372036854775807, 9223372036854775807, by decide⟩ := by
    have h := hstart.symm.trans (dif_pos (by decide))
    exact Except.ok.inj h
  have ht : Timely c lateOps := by
    subst hc
    simp only [lateOps, Timely]
    decide
  refine ⟨c, hstart, ht, ?_, ?_, hkeeps lateOps ht⟩
  · subst hc
    decide
  · subst hc
    decide

end ThreadKernel.Clock
