import ThreadKernel.Proofs.Alarm
import ThreadKernel.Proofs.Kernel.Life
import ThreadKernel.Proofs.Table.Consistency

/-!
# ThreadKernel.Proofs.Kernel.Steady

What no call of the kernel touches while a program executes: who runs, the level, the clock and what
a dispatch costs, and the tasks of all threads. Wake signals change, and threads are added under new
numbers.

* `Kernel.Sane`   — the table is sound, and wakers announce the threads that left them.
* `Kernel.Steady` — the relation, for each call from `waitForAccess_steady` to `wakeAll_steady`.
-/

namespace ThreadKernel

namespace Kernel

structure Sane (k : Kernel Activation) : Prop where
  sound : k.table.Sound
  waker : ∀ {t slot}, k.registry.get? t = some slot → slot.waker = t
  signal : ∀ {t slot w}, k.registry.get? t = some slot → slot.signal.waker = some w → w = t

structure Steady (k k' : Kernel Activation) : Prop where
  current : k'.registry.current = k.registry.current
  level : k'.level = k.level
  clock : k'.clock = k.clock
  ticks : k'.ticksPerDispatch = k.ticksPerDispatch
  ready : k'.readyQueue = k.readyQueue
  slot : ∀ {t slot}, k.registry.get? t = some slot →
    ∃ signal, k'.registry.get? t = some { slot with signal := signal }
  added : ∀ {t slot}, k'.registry.get? t = some slot → k.registry.get? t = none →
    ∃ name code, slot.task = some ⟨name, t, .start code⟩
  number : k.registry.nextNumber ≤ k'.registry.nextNumber
  newer : ∀ {t slot}, k'.registry.get? t = some slot → k.registry.get? t = none →
    k.registry.nextNumber ≤ t.number ∧ t.number < k'.registry.nextNumber
  sane : k.Sane → k'.Sane

variable {k k' k'' : Kernel Activation} {q : QueueId} {t : ThreadId}

theorem Steady.refl (k : Kernel Activation) : Steady k k :=
  ⟨rfl, rfl, rfl, rfl, rfl, fun {_ slot} hs => ⟨slot.signal, hs⟩,
    fun hs hn => (nomatch hs.symm.trans hn), Nat.le_refl _,
    fun hs hn => (nomatch hs.symm.trans hn), id⟩

theorem Steady.trans (h : Steady k k') (h' : Steady k' k'') : Steady k k'' where
  current := h'.current.trans h.current
  level := h'.level.trans h.level
  clock := h'.clock.trans h.clock
  ticks := h'.ticks.trans h.ticks
  ready := h'.ready.trans h.ready
  slot hs := by
    obtain ⟨_, hs'⟩ := h.slot hs
    obtain ⟨signal, hs''⟩ := h'.slot hs'
    exact ⟨signal, hs''⟩
  added {t slot} hs hn := by
    cases hs' : k'.registry.get? t with
    | none => exact h'.added hs hs'
    | some slot' =>
      obtain ⟨signal, hs''⟩ := h'.slot hs'
      rw [hs] at hs''
      cases hs''
      obtain ⟨name, code, htask⟩ := h.added hs' hn
      exact ⟨name, code, htask⟩
  number := h.number.trans h'.number
  newer {t slot} hs hn := by
    cases hs' : k'.registry.get? t with
    | none =>
      obtain ⟨hold, hnew⟩ := h'.newer hs hs'
      exact ⟨h.number.trans hold, hnew⟩
    | some slot' =>
      obtain ⟨hold, hnew⟩ := h.newer hs' hn
      exact ⟨hold, hnew.trans_le h'.number⟩
  sane hk := h'.sane (h.sane hk)

/-- A call that changes the table alone. -/
theorem Steady.of_table {tb : Table} (h : k.table.Sound → tb.Sound) :
    Steady k { k with table := tb } :=
  { Steady.refl k with sane := fun hk => ⟨h hk.sound, hk.waker, hk.signal⟩ }

/-- A step from one level to the other and back. -/
theorem Steady.within (h : Steady k.enter k') : Steady k (k'.restore k.level) :=
  ⟨h.current, rfl, h.clock, h.ticks, h.ready, h.slot, h.added, h.number, h.newer, fun hk =>
    have hk' := h.sane ⟨hk.sound, hk.waker, hk.signal⟩
    ⟨hk'.sound, hk'.waker, hk'.signal⟩⟩

theorem apply_steady (op : Table.Op) (h : k.withTable (k.table.apply op) = .ok k') :
    Steady k k' := by
  obtain ⟨tb, htb, rfl⟩ := withTable_ok h
  refine .of_table fun hs => ?_
  obtain ⟨_, he⟩ := Table.apply_effect hs htb
  exact he.sound

theorem createQueue_steady (k : Kernel Activation) (transfer : Bool) :
    Steady k (k.createQueue transfer).2 :=
  .of_table fun hs => (Table.createQueue_effect hs transfer).sound

theorem waitForAccess_steady (h : k.waitForAccess q t = .ok k') : Steady k k' :=
  apply_steady (.waitForAccess q t) (atomically_ok h)

theorem acquire_steady (h : k.acquire q t = .ok k') : Steady k k' :=
  apply_steady (.acquire q t) (atomically_ok h)

theorem nextThread_steady {served : Option ThreadId} (h : k.nextThread q = .ok (served, k')) :
    Steady k k' := by
  obtain ⟨tb, htb, rfl⟩ := nextThread_ok h
  refine .of_table fun hs => ?_
  obtain ⟨qs, -, ⟨-, -, he⟩ | ⟨r, -, -, -, he⟩⟩ := Table.nextThread_effect hs htb
  · exact he.sound
  · exact he.sound

/-- A thread's wake signal changes, and announces nobody else. -/
theorem signal_steady {slot : Slot Activation} {signal : WakeSignal ThreadId}
    {invoked : Option ThreadId} (hslot : k.registry.get? t = some slot)
    (hw : k.Sane → ∀ w, signal.waker = some w → w = t) :
    Steady k { k with
      registry := (k.registry.setSlot t { slot with signal := signal }).postOption invoked } := by
  have hget : ∀ u, ((k.registry.setSlot t { slot with signal := signal }).postOption
      invoked).get? u = if t = u then some { slot with signal := signal } else k.registry.get? u :=
    fun u => Registry.get?_setSlot k.registry t u _
  have hback : ∀ {u x}, ((k.registry.setSlot t { slot with signal := signal }).postOption
      invoked).get? u = some x → t = u ∧ x = { slot with signal := signal } ∨
        t ≠ u ∧ k.registry.get? u = some x := by
    intro u x hx
    rw [hget] at hx
    split at hx
    · rename_i htu
      exact .inl ⟨htu, (Option.some.inj hx).symm⟩
    · rename_i htu
      exact .inr ⟨htu, hx⟩
  have hnone : ∀ {u x} {P : Prop}, ((k.registry.setSlot t { slot with signal := signal }).postOption
      invoked).get? u = some x → k.registry.get? u = none → P := by
    intro u x P hx hn
    rcases hback hx with ⟨rfl, -⟩ | ⟨-, hx⟩
    · exact nomatch hslot.symm.trans hn
    · exact nomatch hx.symm.trans hn
  refine ⟨rfl, rfl, rfl, rfl, rfl, fun {u x} hx => ?_, hnone, Nat.le_refl _, hnone, fun hk =>
    ⟨hk.sound, fun {u x} hx => ?_, fun {u x w} hx hxw => ?_⟩⟩
  · by_cases htu : t = u
    · subst htu
      rw [hslot] at hx
      cases hx
      exact ⟨signal, (hget t).trans (if_pos rfl)⟩
    · exact ⟨x.signal, (hget u).trans ((if_neg htu).trans hx)⟩
  · rcases hback hx with ⟨rfl, rfl⟩ | ⟨-, hx⟩
    · have hwaker : slot.waker = t := hk.waker hslot
      exact hwaker
    · exact hk.waker hx
  · rcases hback hx with ⟨rfl, rfl⟩ | ⟨-, hx⟩
    · exact hw hk w hxw
    · exact hk.signal hx hxw

theorem markReady_steady (h : k.markReady t = .ok k') : Steady k k' := by
  obtain ⟨-, slot, hslot, rfl⟩ := markReady_ok h
  refine signal_steady hslot fun hk w hw => ?_
  unfold WakeSignal.wake at hw
  split at hw
  · exact hk.signal hslot hw
  · cases hw

/-- A poll changes nothing but a wake signal. -/
theorem pollPoint_steady {p p' : YieldPoint} {ready : Bool}
    (h : k.pollPoint t p = (ready, p', k')) : Steady k k' := by
  unfold Kernel.pollPoint at h
  split at h
  · cases h
    exact .refl k
  · rename_i slot hslot
    cases h
    refine signal_steady hslot fun hk w hw => ?_
    have hwaker := hk.waker hslot
    unfold YieldPoint.poll at hw
    split at hw
    · exact hk.signal hslot hw
    · split at hw
      · cases hw
      · exact (Option.some.inj hw).symm.trans hwaker

theorem spawn_steady {name : String} {code : List Instr}
    (h : k.spawn name (.start code) = .ok (t, k')) : Steady k k' := by
  have hsane : k.Sane → k'.Sane := by
    intro hk
    obtain ⟨q, hsp⟩ := spawn_ok hk.sound h
    refine ⟨hsp.sound, fun {u x} hx => ?_, fun {u x w} hx hw => ?_⟩
    · rcases hsp.back hx with ⟨rfl, rfl⟩ | ⟨-, hx⟩
      · rfl
      · exact hk.waker hx
    · rcases hsp.back hx with ⟨rfl, rfl⟩ | ⟨-, hx⟩
      · cases hw
      · exact hk.signal hx hw
  obtain ⟨tb₁, tb, hnumber, hnone, -, -, rfl⟩ := spawn_cases h
  set x : Slot Activation :=
    ⟨some ⟨name, t, .start code⟩, .idle, t, (k.table.createQueue true).1, .enabled⟩
  have hget : ∀ u, (k.registry.slots.insert t x).get? u =
      if t = u then some x else k.registry.get? u :=
    fun u => Directory.get?_insert k.registry.slots t u x
  have hback : ∀ {u s}, (k.registry.slots.insert t x).get? u = some s →
      k.registry.get? u = none → t = u ∧ s = x := by
    intro u s hs hn
    rw [hget] at hs
    split at hs
    · rename_i htu
      exact ⟨htu, (Option.some.inj hs).symm⟩
    · exact nomatch hs.symm.trans hn
  refine ⟨rfl, rfl, rfl, rfl, rfl, fun {u s} hs => ⟨s.signal, ?_⟩, fun {u s} hs hn => ?_,
    Nat.le_succ _, fun {u s} hs hn => ?_, hsane⟩
  · have htu : t ≠ u := by
      rintro rfl
      rw [hnone] at hs
      cases hs
    exact (hget u).trans ((if_neg htu).trans hs)
  · obtain ⟨rfl, rfl⟩ := hback hs hn
    exact ⟨name, code, rfl⟩
  · obtain ⟨rfl, -⟩ := hback hs hn
    rw [hnumber]
    exact ⟨Nat.le_refl _, Nat.lt_succ_self _⟩

theorem handOverAll_steady (h : k.handOverAll q = .ok k') : Steady k k' := by
  replace h := handOverAll_goesRound h
  induction h with
  | stops => exact .refl _
  | nobody next => exact nextThread_steady next
  | turn next ready _ ih => exact ((nextThread_steady next).trans (markReady_steady ready)).trans ih

theorem wakeEach_steady (l : List Sleeper) {k : Kernel Activation}
    (h : Alarm.wakeEach l k = .ok k') : Steady k k' := by
  replace h := Alarm.wakeEach_ok h
  induction h with
  | nobody => exact .refl _
  | wakes ready _ ih => exact (markReady_steady ready).trans ih

theorem admitEach_steady (l : List ThreadId) {k : Kernel Activation}
    (h : admitEach l k = .ok k') : Steady k k' := by
  replace h := admitEach_ok h
  induction h with
  | nobody => exact .refl _
  | gone _ _ ih | waits _ _ ih => exact ih
  | @comes t _ k _ _ _ wait _ ih =>
    exact (apply_steady (.waitForAccess k.readyQueue t) wait).trans ih

theorem admitWoken_steady (h : k.admitWoken = .ok k') : Steady k k' := by
  unfold Kernel.admitWoken Registry.drain at h
  have hdrain : Steady k { k with registry := { k.registry with channel := [] } } :=
    { Steady.refl k with sane := fun hk => ⟨hk.sound, hk.waker, hk.signal⟩ }
  exact hdrain.trans (admitEach_steady _ h)

theorem setPriority_steady {p : Nat} (h : k.withTable (k.table.setPriority t p) = .ok k') :
    Steady k k' := apply_steady (.setPriority t p) h

theorem releaseReady_steady (h : k.releaseReady t = .ok k') : Steady k k' := by
  rcases releaseReady_cases h with ⟨-, h⟩ | rfl
  · exact apply_steady (.releaseOwnership k.readyQueue) h
  · exact .refl _

/-- A retirement takes one slot away, and changes no other task. -/
theorem retire_cases (h : k.retire t = .ok k') :
    ∃ k₁, Steady k.enter k₁ ∧
      k' = restore k.level
        { k₁ with registry := { k₁.registry with slots := k₁.registry.slots.erase t } } := by
  obtain ⟨slot, k₁, k₂, k₃, k₄, -, h₁, h₂, h₃, h₄, rfl⟩ := retire_ok h
  exact ⟨_, (((handOverAll_steady h₁).trans
    (apply_steady (.destroyQueue slot.joinQueue) h₂)).trans
    (releaseReady_steady h₃)).trans (apply_steady (.removeThread t) h₄), rfl⟩

theorem chooseThread_cases {served : Option ThreadId} (h : k.chooseThread = .ok (served, k')) :
    ∃ k₁ k₂, k.enter.admitWoken = .ok k₁ ∧ k₁.nextThread k₁.readyQueue = .ok (served, k₂) ∧
      k' = k₂.restore k.level := by
  unfold Kernel.chooseThread at h
  split at h
  · cases h
  · rename_i k₁ h₁
    split at h
    · cases h
    · rename_i h₂
      cases h
      exact ⟨k₁, _, h₁, h₂, rfl⟩

/-- The priority of the running thread, raised or lowered by one, is set, or stays. -/
theorem increasePriority_cases {b : Bool} (h : k.increasePriority = .ok (b, k')) :
    k' = k ∨ ∃ t p, k.currentThread = .ok t ∧
      k.withTable (k.table.setPriority t p) = .ok k' := by
  unfold Kernel.increasePriority at h
  split at h
  · cases h
  · rename_i t ht
    simp only at h
    split at h
    · split at h
      · cases h
      · rename_i hk
        cases h
        exact .inr ⟨t, _, ht, hk⟩
    · cases h
      exact .inl rfl

theorem decreasePriority_cases {b : Bool} (h : k.decreasePriority = .ok (b, k')) :
    k' = k ∨ ∃ t p, k.currentThread = .ok t ∧
      k.withTable (k.table.setPriority t p) = .ok k' := by
  unfold Kernel.decreasePriority at h
  split at h
  · cases h
  · rename_i t ht
    simp only at h
    split at h
    · split at h
      · cases h
      · rename_i hk
        cases h
        exact .inr ⟨t, _, ht, hk⟩
    · cases h
      exact .inl rfl

theorem increasePriority_steady {b : Bool} (h : k.increasePriority = .ok (b, k')) :
    Steady k k' := by
  rcases increasePriority_cases h with rfl | ⟨t, p, -, hset⟩
  · exact .refl _
  · exact setPriority_steady hset

theorem decreasePriority_steady {b : Bool} (h : k.decreasePriority = .ok (b, k')) :
    Steady k k' := by
  rcases decreasePriority_cases h with rfl | ⟨t, p, -, hset⟩
  · exact .refl _
  · exact setPriority_steady hset

end Kernel

/-! ## Locks and conditions -/

open Kernel (Steady)

variable {k k' : Kernel Activation} {l l' : Lock} {t : ThreadId}

theorem Lock.request_steady {granted : Bool} (h : l.request t k = .ok (granted, l', k')) :
    Steady k k' ∧ l'.queue = l.queue := by
  unfold Lock.request at h
  split at h
  · split at h
    · cases h
    · rename_i hk
      cases h
      exact ⟨Kernel.acquire_steady hk, rfl⟩
  · split at h
    · cases h
    · split at h
      · cases h
      · rename_i hk
        cases h
        exact ⟨Kernel.waitForAccess_steady hk, rfl⟩

theorem Lock.releaseFrom_steady (h : l.releaseFrom t k = .ok (l', k')) :
    Steady k k' ∧ l'.queue = l.queue := by
  unfold Lock.releaseFrom at h
  split at h
  · split at h
    · cases h
    · rename_i hn
      cases h
      exact ⟨Kernel.nextThread_steady hn, rfl⟩
    · rename_i hn
      split at h
      · cases h
      · rename_i hm
        cases h
        exact ⟨(Kernel.nextThread_steady hn).trans (Kernel.markReady_steady hm), rfl⟩
  · cases h

theorem Lock.release_steady (h : l.release k = .ok (l', k')) :
    Steady k k' ∧ l'.queue = l.queue := by
  unfold Lock.release at h
  split at h
  · cases h
  · split at h
    · cases h
    · rename_i hr
      cases h
      obtain ⟨hs, hq⟩ := Lock.releaseFrom_steady hr
      exact ⟨hs.within, hq⟩

theorem Condition.fallAsleep_steady {c : Condition} (h : c.fallAsleep t l k = .ok (l', k')) :
    Steady k k' ∧ l'.queue = l.queue := by
  unfold Condition.fallAsleep at h
  split at h
  · cases h
  · rename_i hr
    split at h
    · cases h
    · rename_i hk
      cases h
      obtain ⟨hs, hq⟩ := Lock.release_steady hr
      exact ⟨hs.trans (Kernel.waitForAccess_steady hk), hq⟩

theorem Condition.wake_steady {c : Condition} (h : c.wake l k = .ok k') : Steady k k' := by
  unfold Condition.wake at h
  split at h
  · cases h
  · split at h
    · cases h
    · rename_i hn
      cases h
      exact (Kernel.nextThread_steady hn).within
    · rename_i hn
      split at h
      · cases h
      · rename_i hm
        cases h
        exact ((Kernel.nextThread_steady hn).trans (Kernel.markReady_steady hm)).within

theorem Condition.wakeAll_steady {c : Condition} (h : c.wakeAll l k = .ok k') : Steady k k' := by
  unfold Condition.wakeAll at h
  split at h
  · cases h
  · split at h
    · cases h
    · rename_i hr
      cases h
      exact (Kernel.handOverAll_steady hr).within

end ThreadKernel
