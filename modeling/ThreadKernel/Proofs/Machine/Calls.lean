import ThreadKernel.Proofs.Machine.Execution

/-!
# ThreadKernel.Proofs.Machine.Calls

What must happen when a thread begins an instruction on a lock or on a condition. Steps that fault
aside, every such call does its work in the step that begins it.

* `Machine.GivesUp`         — the next step gives a lock up.
* `GivesUp.handsOver`       — the lock passes to the waiter that the policy selects.
* `Begins.acquire_waits`    — a lock that is held makes the caller wait.
* `Begins.sleep`            — a sleeper is enqueued in the step that gives up its lock.
* `Begins.wake`, `Begins.wakeAll` — who is woken.
-/

namespace ThreadKernel

open Kernel (Alters Apart Serves Empties)

namespace System

variable {s s' : System} {a a' : Activation} {actor : Actor} {b : Action}

/-- A call returns with no more than another interrupt level. -/
theorem stepCode_perform (hb : a.Begins (.act b))
    (hs : ∀ rest, s.stepAction actor b rest a =
      match s.perform b with
      | .error e => .error e
      | .ok (v, s) => s.returns actor v a)
    (hr : s.stepCode actor a = .ok (.go a' s')) :
    ∃ v s₁ level, s.perform b = .ok (v, s₁) ∧ s'.kernel = s₁.kernel.restore level ∧
      s'.locks = s₁.locks ∧ s'.conditions = s₁.conditions := by
  obtain ⟨hfresh, rest, hcode⟩ := hb
  rw [stepCode_fresh hfresh hcode] at hr
  have hr : s.stepAction actor b rest a = .ok (.go a' s') := hr
  rw [hs] at hr
  split at hr
  · cases hr
  · rename_i v s₁ hperf
    obtain ⟨level, hgo⟩ := returns_eq hcode hr
    cases hgo
    exact ⟨v, s₁, level, hperf, rfl, rfl, rfl⟩

end System

namespace Machine

/-- The next step gives the lock up: a release by the thread, or a sleep on one of its
conditions. -/
def GivesUp (t : ThreadId) (l : Nat) (m : Machine) : Prop :=
  ∃ d below, m.stack = .thread d :: below ∧ d.thread = t ∧
    d.task.coroutine.GivesUp l m.system

variable {m m' : Machine} {q : QueueId} {t : ThreadId} {i : Instr} {l c : Nat} {L : Lock}
  {x : Condition}

/-- Who waits and who is announced does not depend on the random source. -/
theorem serves_reseed {k : Kernel Activation} (h : Serves q k m.system.kernel) (g : Random) :
    Serves q k (m.reseed g).system.kernel :=
  ⟨h.waiting, h.served, h.nobody, h.slot, h.channel⟩

theorem empties_reseed {k : Kernel Activation} (h : Empties q k m.system.kernel) (g : Random) :
    Empties q k (m.reseed g).system.kernel := ⟨h.waiting, h.slot, h.channel, h.owner⟩

theorem givesUp_iff : m.GivesUp t l ↔ Begins t (.act (.release l)) m ∨
    ∃ c x, Begins t (.sleep c) m ∧ m.system.conditions[c]? = some x ∧ x.lock = l := by
  constructor
  · rintro ⟨d, below, hstack, hd, hb | ⟨c, x, hb, hx, hl⟩⟩
    · exact .inl ⟨d, below, hstack, hd, hb⟩
    · exact .inr ⟨c, x, ⟨d, below, hstack, hd, hb⟩, hx, hl⟩
  · rintro (⟨d, below, hstack, hd, hb⟩ | ⟨c, x, ⟨d, below, hstack, hd, hb⟩, hx, hl⟩)
    · exact ⟨d, below, hstack, hd, .inl hb⟩
    · exact ⟨d, below, hstack, hd, .inr ⟨c, x, hb, hx, hl⟩⟩

/-- A thread that begins an instruction waits for nothing. -/
theorem Guarded.poised_of_begins (h : m.Guarded q) (hr : m.Regular) (hp : m.Private q)
    (hb : Begins t i m) : m.system.Poised q (some t) := by
  obtain ⟨d, below, hstack, rfl, hfresh, -⟩ := hb
  refine h.poised hr hp hstack fun hw => ?_
  obtain ⟨-, r, hs⟩ := (h.running d below hstack hw).1
  rw [hfresh] at hs
  cases hs

/-- The step of an action that the kernel performs. -/
theorem Begins.perform {b : Action} (hb : Begins t (.act b) m) (hs : m.step = .next m')
    (hrun : b ≠ .run)
    (hstep : ∀ {a rest}, m.system.stepAction (.thread t) b rest a =
      match m.system.perform b with
      | .error e => .error e
      | .ok (v, s) => s.returns (.thread t) v a) :
    ∃ v s₁ level, m.system.perform b = .ok (v, s₁) ∧
      m'.system.kernel = s₁.kernel.restore level ∧ m'.system.locks = s₁.locks := by
  obtain ⟨d, below, rest, a', hstack, rfl, hfresh, hcode, hgo⟩ := hb.step hs (by simp [hrun])
  have hsc := (System.stepCode_fresh hfresh hcode).trans hgo
  obtain ⟨v, s₁, level, hperf, hk, hlocks, -⟩ :=
    System.stepCode_perform ⟨hfresh, rest, hcode⟩ (fun _ => hstep) hsc
  exact ⟨v, s₁, level, hperf, hk, hlocks⟩

/-- The lock passes to the waiter that the policy selects. -/
theorem Begins.release (hb : Begins t (.act (.release l)) m) (hs : m.step = .next m')
    (hp : ∀ L, m.system.locks[l]? = some L → m.system.Poised L.queue (some t)) :
    ∃ L, m.system.locks[l]? = some L ∧ System.HandsOver t l L m.system m'.system := by
  obtain ⟨v, s₁, level, hperf, hk, hlocks⟩ := hb.perform hs (by simp) rfl
  obtain ⟨L, L', k, hl, hrel, rfl⟩ := System.releaseLock_ok hperf
  obtain ⟨_, hx, hover⟩ := (hp L hl).handsOver hl hrel
  cases hx
  exact ⟨L, hl, hover.held, hk ▸ hover.queue.restore level, hlocks ▸ hover.passed⟩

/-- A sleep gives up the lock and enqueues the caller. -/
theorem Begins.sleep_ok (hb : Begins t (.sleep c) m) (hs : m.step = .next m')
    (hr : m.Regular) : ∃ x L L' k₁ k, m.system.conditions[c]? = some x ∧
      m.system.locks[x.lock]? = some L ∧ L.holder = some t ∧
      L.release m.system.kernel.enter = .ok (L', k₁) ∧ k₁.waitForAccess x.queue t = .ok k ∧
      m'.system = { m.system with kernel := k, locks := m.system.locks.set x.lock L' } := by
  obtain ⟨d, below, rest, a', hstack, rfl, -, -, hgo⟩ := hb.step hs (by simp)
  obtain ⟨x, L, t', L', k₁, k, hx, hl, hcur, hheld, hrel, hw, hblocks⟩ :=
    System.beginSleep_cases hgo
  rw [hr.current, thread?_eq hstack] at hcur
  cases hcur
  obtain ⟨-, hgo⟩ := System.blocks_eq hblocks
  injection hgo with _ hsys
  exact ⟨x, L, L', k₁, k, hx, hl, hheld, hrel, hw, hsys⟩

/-- After that the caller waits on the condition, and the lock is handed over. -/
theorem Begins.sleep (hb : Begins t (.sleep c) m) (hs : m.step = .next m') (hr : m.Regular) :
    ∃ x L, m.system.conditions[c]? = some x ∧ m.system.locks[x.lock]? = some L ∧
      L.holder = some t ∧
      m'.system.locks[x.lock]? =
        some { L with holder := m.system.kernel.table.chosen L.queue } ∧
      m'.system.kernel.table.waitingQueue t = some x.queue := by
  obtain ⟨x, L, L', k₁, k, hx, hl, hheld, hrel, hw, hsys⟩ := hb.sleep_ok hs hr
  have hk₁ := (Lock.release_steady hrel).1.sane hr.sane.entered
  obtain ⟨_, -, -, served, hp, rfl⟩ := Lock.release_cases hrel
  have hchosen : m.system.kernel.table.chosen L.queue = served := hp.chosen
  refine ⟨x, L, hx, hl, hheld, ?_, ?_⟩
  · rw [hsys, hchosen]
    exact List.getElem?_set_self (List.getElem?_eq_some_iff.1 hl).1
  · rw [hsys]
    exact Kernel.waitForAccess_self hk₁.sound hw

theorem Begins.sleep_handsOver (hb : Begins t (.sleep c) m) (hs : m.step = .next m')
    (hr : m.Regular) (hx : m.system.conditions[c]? = some x)
    (hp : ∀ L, m.system.locks[x.lock]? = some L → m.system.Poised L.queue (some t)) :
    ∃ L, m.system.locks[x.lock]? = some L ∧
      System.HandsOver t x.lock L m.system m'.system := by
  obtain ⟨x', L, L', k₁, k, hx', hl, -, hrel, hw, hsys⟩ := hb.sleep_ok hs hr
  rw [hx] at hx'
  cases hx'
  have hpoised := hp L hl
  rw [hsys]
  exact ⟨L, hl, hpoised.handsOver_asleep rfl (hpoised.reserves.apart hl hx rfl) hl hrel hw⟩

/-- Whoever gives a lock up holds it, and passes it on. -/
theorem GivesUp.handsOver (hg : m.GivesUp t l) (hs : m.step = .next m') (hr : m.Regular)
    (hq : ∀ L, m.system.locks[l]? = some L → m.Guarded L.queue ∧ m.Private L.queue) :
    ∃ L, m.system.locks[l]? = some L ∧ System.HandsOver t l L m.system m'.system := by
  rcases givesUp_iff.1 hg with hb | ⟨c, x, hb, hx, rfl⟩
  · exact hb.release hs fun L hl => (hq L hl).1.poised_of_begins hr (hq L hl).2 hb
  · exact hb.sleep_handsOver hs hr hx fun L hl =>
      (hq L hl).1.poised_of_begins hr (hq L hl).2 hb

/-- A lock that is held makes the caller wait. -/
theorem Begins.acquire_waits (hb : Begins t (.acquire l) m) (hs : m.step = .next m')
    (hr : m.Regular) (hl : m.system.locks[l]? = some L) (hheld : L.holder ≠ none) :
    m'.system.locks = m.system.locks ∧
      m'.system.kernel.table.waitingQueue t = some L.queue := by
  obtain ⟨d, below, rest, a', hstack, rfl, -, -, hgo⟩ := hb.step hs (by simp)
  obtain ⟨L', t', hl', hcur, ⟨k, hfree, -⟩ | ⟨u, k, -, -, hw, hblocks⟩⟩ :=
    System.beginAcquire_cases hgo
  · rw [hl] at hl'
    cases hl'
    exact absurd hfree hheld
  · rw [hl] at hl'
    cases hl'
    rw [hr.current, thread?_eq hstack] at hcur
    cases hcur
    obtain ⟨-, hgo⟩ := System.blocks_eq hblocks
    injection hgo with _ hsys
    rw [hsys]
    exact ⟨rfl, Kernel.waitForAccess_self (k := m.system.kernel.enter) hr.sane.sound hw⟩

/-- A wake serves the sleeper that the policy selects. -/
theorem Begins.wake (hb : Begins t (.act (.wake c)) m) (hs : m.step = .next m')
    (hp : ∀ x, m.system.conditions[c]? = some x → m.system.Poised x.queue (some t)) :
    ∃ x L, m.system.conditions[c]? = some x ∧ m.system.locks[x.lock]? = some L ∧
      L.holder = some t ∧ Serves x.queue m.system.kernel m'.system.kernel := by
  obtain ⟨v, s₁, level, hperf, hk, -⟩ := hb.perform hs (by simp) rfl
  obtain ⟨x, L, k, hx, hl, hwake, rfl⟩ := System.onCondition_ok hperf
  obtain ⟨_, ht, hheld, hserves⟩ := (hp x hx).serves hwake
  cases ht
  exact ⟨x, L, hx, hl, hheld, hk ▸ hserves.restore level⟩

/-- A wake of all sleepers leaves nobody asleep. -/
theorem Begins.wakeAll (hb : Begins t (.act (.wakeAll c)) m) (hs : m.step = .next m')
    (hp : ∀ x, m.system.conditions[c]? = some x → m.system.Poised x.queue (some t)) :
    ∃ x L, m.system.conditions[c]? = some x ∧ m.system.locks[x.lock]? = some L ∧
      L.holder = some t ∧ Empties x.queue m.system.kernel m'.system.kernel := by
  obtain ⟨v, s₁, level, hperf, hk, -⟩ := hb.perform hs (by simp) rfl
  obtain ⟨x, L, k, hx, hl, hwake, rfl⟩ := System.onCondition_ok hperf
  obtain ⟨_, ht, hheld, hempties⟩ := (hp x hx).empties hwake
  cases ht
  exact ⟨x, L, hx, hl, hheld, hk ▸ hempties.restore level⟩

end Machine
end ThreadKernel
