import ThreadKernel.Proofs.Machine.Deals

/-!
# ThreadKernel.Proofs.Machine.Progress

What a step of a program comes to: it goes on within its first instruction, completes it, or
suspends its thread.

* `Activation.Asks` — the first instruction is about to get a lock, or has waited for it.
* `System.Leads`    — the three outcomes, with what they say about locks and conditions.
* `Activation.Fits` — the first instruction and what follows its yield point belong together.
-/

namespace ThreadKernel

namespace Activation

/-- The lock with the index `l` is taken before the first instruction is complete. -/
def Asks (l : Nat) (a : Activation) : Prop :=
  a.Begins (.acquire l) ∨
    ∃ p level, a.stage = .suspended p (.takeOver l level) ∨ a.stage = .suspended p (.relock l level)

theorem not_asks {a : Activation} {i : Instr} {rest : List Instr} (hs : a.stage = .fresh)
    (hc : a.code = i :: rest) (hi : ∀ l, i ≠ .acquire l) (l : Nat) : ¬ a.Asks l := by
  rintro (⟨-, rest', hc'⟩ | ⟨p, level, hs' | hs'⟩)
  · rw [hc] at hc'
    cases hc'
    exact hi l rfl
  · rw [hs] at hs'
    cases hs'
  · rw [hs] at hs'
    cases hs'

theorem not_begins {a : Activation} {i j : Instr} {rest : List Instr} (hc : a.code = i :: rest)
    (hi : i ≠ j) : ¬ a.Begins j := by
  rintro ⟨-, rest', hc'⟩
  rw [hc] at hc'
  cases hc'
  exact hi rfl

end Activation

namespace System

/-- The first instruction is complete. A lock it asked for is held, and it did not complete without
the wake it waited for. -/
structure Completes (actor : Actor) (a : Activation) (s : System) (a' : Activation) (s' : System) :
    Prop where
  fresh : a'.stage = .fresh
  logged : ∃ i rest time v, a.code = i :: rest ∧ a'.code = rest ∧
    s'.events = ⟨actor, time, i, v⟩ :: s.events
  holds : ∀ l, a.Asks l → ∃ t lock, s.kernel.registry.current = some t ∧
    s'.locks[l]? = some lock ∧ lock.holder = some t
  passed : ∀ p r, a.stage = .suspended p r → p.yielded = true
  slept : ∀ c, ¬ a.Begins (.sleep c)

/-- The first instruction is about to suspend its thread. -/
inductive Suspends (a : Activation) (s : System) (a' : Activation) (s' : System) : Prop where
  | plain {p : YieldPoint} {r : Resume} (other : (∀ l, ¬ a.Asks l) ∧ ∀ c, ¬ a.Begins (.sleep c))
      (stage : a.stage = .fresh) (suspended : a'.stage = .suspended p r)
      (resume : r = .proceed ∨ ∃ level, r = .leave level)
  | lock {t : ThreadId} {l : Nat} {m : Lock} {level : Level} (asks : a.Asks l)
      (suspended : a'.stage = .suspended .untilWake (.takeOver l level))
      (current : s.kernel.registry.current = some t) (lock : s'.locks[l]? = some m)
      (waits : s'.kernel.table.waitingQueue t = some m.queue)
  | sleep {t : ThreadId} {c : Nat} {x : Condition} {level : Level} (begins : a.Begins (.sleep c))
      (condition : s.conditions[c]? = some x)
      (suspended : a'.stage = .suspended .untilWake (.relock x.lock level))
      (current : s.kernel.registry.current = some t)
      (waits : s'.kernel.table.waitingQueue t = some x.queue)

/-- What a step that lets the program go on comes to. -/
inductive Leads (actor : Actor) (a : Activation) (s : System) (a' : Activation) (s' : System) :
    Prop where
  | goesOn (stage : a.stage = .fresh) (fresh : a'.stage = .fresh) (events : s'.events = s.events)
  | completes (completes : Completes actor a s a' s')
  | suspends (code : a'.code = a.code) (events : s'.events = s.events)
      (suspends : Suspends a s a' s')

variable {a a' b : Activation} {s s' s₁ : System} {v : Value} {actor : Actor}
  {k : Kernel Activation} {t : ThreadId} {i : Instr} {rest : List Instr} {r : Progress}

/-- What happened before does not matter if it changed neither the log, nor who runs, nor the
conditions. -/
theorem Leads.after (h : Leads actor a s₁ a' s') (he : s₁.events = s.events)
    (hc : s₁.kernel.registry.current = s.kernel.registry.current)
    (hx : s₁.conditions = s.conditions) : Leads actor a s a' s' := by
  cases h with
  | goesOn stage fresh events => exact .goesOn stage fresh (events.trans he)
  | completes h =>
    exact .completes ⟨h.fresh, he ▸ h.logged, hc ▸ h.holds, h.passed, h.slept⟩
  | suspends code events h =>
    refine .suspends code (events.trans he) ?_
    cases h with
    | plain other stage suspended resume => exact .plain other stage suspended resume
    | lock asks suspended current lock waits =>
      exact .lock asks suspended (hc ▸ current) lock waits
    | sleep begins condition suspended current waits =>
      exact .sleep begins (hx ▸ condition) suspended (hc ▸ current) waits

/-- An instruction that waits for nothing is complete. -/
theorem Leads.returns (hr : s₁.returns actor v b = .ok (.go a' s')) (hs : a.stage = .fresh)
    (hc : a.code = i :: rest) (hb : b.code = a.code) (he : s₁.events = s.events)
    (hi : (∀ l, i ≠ .acquire l) ∧ ∀ c, i ≠ .sleep c) : Leads actor a s a' s' := by
  obtain ⟨level, hgo⟩ := returns_eq (hb.trans hc) hr
  cases hgo
  refine .completes ⟨rfl, ⟨i, rest, _, v, hc, rfl, by rw [← he]⟩, fun l hl => ?_, fun p r h => ?_,
    fun c => Activation.not_begins hc (hi.2 c)⟩
  · exact absurd hl (Activation.not_asks hs hc hi.1 l)
  · rw [hs] at h
    cases h

theorem Leads.blocks {q : Resume} (hr : s₁.blocks q a = .ok (.go a' s')) (hs : a.stage = .fresh)
    (hc : a.code = i :: rest) (he : s₁.events = s.events)
    (hi : (∀ l, i ≠ .acquire l) ∧ ∀ c, i ≠ .sleep c)
    (hq : q = .proceed ∨ ∃ level, q = .leave level) : Leads actor a s a' s' := by
  obtain ⟨-, hgo⟩ := blocks_eq hr
  cases hgo
  exact .suspends rfl he (.plain ⟨Activation.not_asks hs hc hi.1, fun c =>
    Activation.not_begins hc (hi.2 c)⟩ hs rfl hq)

theorem stepAction_leads {b : Action} (hs : a.stage = .fresh) (hc : a.code = .act b :: rest)
    (hr : s.stepAction actor b rest a = .ok (.go a' s')) : Leads actor a s a' s' := by
  have hi : (∀ l, Instr.act b ≠ .acquire l) ∧ ∀ c, Instr.act b ≠ .sleep c := by simp
  have hleave : ∀ saved, (s.leaveNewest saved).events = s.events := fun saved => by
    cases saved <;> rfl
  unfold System.stepAction at hr
  simp only at hr
  split at hr
  · cases hr
    exact .goesOn hs hs rfl
  · exact .returns hr hs hc rfl rfl hi
  · exact .returns hr hs hc rfl (hleave _) hi
  · exact .returns hr hs hc rfl rfl hi
  · exact .returns hr hs hc rfl (hleave _) hi
  · split at hr <;> cases hr
  · split at hr
    · cases hr
    · rename_i hperf
      exact .returns hr hs hc rfl (perform_acts hperf).unlogged hi

theorem beginJoin_leads {target : ThreadRef} (hs : a.stage = .fresh)
    (hc : a.code = .join target :: rest) (hr : s.beginJoin actor target a = .ok (.go a' s')) :
    Leads actor a s a' s' := by
  have hi : (∀ l, Instr.join target ≠ .acquire l) ∧ ∀ c, Instr.join target ≠ .sleep c := by simp
  obtain ⟨t, u, -, -, -, ⟨-, hr⟩ | ⟨slot, k, -, -, hr⟩⟩ := beginJoin_cases hr
  · exact .returns hr hs hc rfl rfl hi
  · exact .blocks hr hs hc rfl hi (.inr ⟨_, rfl⟩)

/-- The lock is held as soon as a request of it is complete. -/
theorem beginAcquire_leads {l : Nat} (hk : s.kernel.table.Sound) (ha : a.Asks l)
    (honly : ∀ m, a.Asks m → m = l) (hc : a.code = i :: rest) (hslept : ∀ c, ¬ a.Begins (.sleep c))
    (hpassed : ∀ p r, a.stage = .suspended p r → p.yielded = true)
    (hr : s.beginAcquire actor l a = .ok (.go a' s')) : Leads actor a s a' s' := by
  obtain ⟨lock, t, hl, hcur, ⟨k, -, -, hr⟩ | ⟨u, k, -, -, hw, hr⟩⟩ := beginAcquire_cases hr
  · obtain ⟨level, hgo⟩ := returns_eq hc hr
    cases hgo
    refine .completes ⟨rfl, ⟨i, rest, _, _, hc, rfl, rfl⟩, fun m hm => ?_, hpassed, hslept⟩
    cases honly m hm
    exact ⟨t, _, hcur, List.getElem?_set_self (List.getElem?_eq_some_iff.1 hl).1, rfl⟩
  · obtain ⟨-, hgo⟩ := blocks_eq hr
    cases hgo
    exact .suspends rfl rfl (.lock ha rfl hcur hl
      (Kernel.waitForAccess_self (k := s.kernel.enter) hk hw))

theorem beginSleep_leads {c : Nat} (hk : s.kernel.Sane) (hb : a.Begins (.sleep c))
    (hr : s.beginSleep c a = .ok (.go a' s')) : Leads actor a s a' s' := by
  obtain ⟨x, l, t, l', k₁, k, hx, hl, hcur, -, hrel, hw, hr⟩ := beginSleep_cases hr
  obtain ⟨-, hgo⟩ := blocks_eq hr
  cases hgo
  have hk₁ := (Lock.release_steady hrel).1.sane hk.entered
  exact .suspends rfl rfl (.sleep hb hx rfl hcur (Kernel.waitForAccess_self hk₁.sound hw))

theorem stepInstr_leads (hk : s.kernel.Sane) (hs : a.stage = .fresh) (hc : a.code = i :: rest)
    (hr : s.stepInstr actor i rest a = .ok (.go a' s')) : Leads actor a s a' s' := by
  cases i with
  | act b => exact stepAction_leads hs hc hr
  | yield =>
    simp only [System.stepInstr] at hr
    split at hr
    · cases hr
    · cases hr
      exact .suspends rfl rfl (.plain ⟨Activation.not_asks hs hc (by simp), fun c =>
        Activation.not_begins hc (by simp)⟩ hs rfl (.inl rfl))
  | block => exact .blocks hr hs hc rfl (by simp) (.inl rfl)
  | join t => exact beginJoin_leads hs hc hr
  | acquire l =>
    refine beginAcquire_leads hk.sound (.inl ⟨hs, rest, hc⟩) ?_ hc
      (fun c => Activation.not_begins hc (by simp)) (fun p r h => ?_) hr
    · rintro m (⟨-, rest', hc'⟩ | ⟨p, level, hs' | hs'⟩)
      · rw [hc] at hc'
        cases hc'
        rfl
      · rw [hs] at hs'
        cases hs'
      · rw [hs] at hs'
        cases hs'
    · rw [hs] at h
      cases h
  | sleep c => exact beginSleep_leads hk ⟨hs, rest, hc⟩ hr
  | wait j ticks =>
    obtain ⟨_, _, -, -, hr⟩ := beginWait_cases hr
    exact .blocks hr hs hc rfl (by simp) (.inr ⟨_, rfl⟩)
  | loop n body =>
    cases n <;>
      · cases hr
        exact .goesOn hs hs rfl
  | whileEq v y body | whileNe v y body | whileSame v w body | ifEq v y body =>
    cases hr
    exact .goesOn hs hs rfl

/-! ## Behind a yield point -/

/-- A program that passed its yield point completes the instruction, or asks for the lock again. -/
theorem stepResume_leads {p : YieldPoint} {q : Resume} (hk : s.kernel.table.Sound)
    (hs : a.stage = .suspended p q) (hp : p.yielded = true) (hc : a.code = i :: rest)
    (hcur : s.kernel.registry.current = some t)
    (hr : s.stepResume actor t q a = .ok (.go a' s')) : Leads actor a s a' s' := by
  have hslept : ∀ c, ¬ a.Begins (.sleep c) := by
    rintro c ⟨hf, -⟩
    rw [hs] at hf
    cases hf
  have hpassed : ∀ p r, a.stage = .suspended p r → p.yielded = true := by
    intro p' r' h
    rw [hs] at h
    cases h
    exact hp
  have hasks : ∀ l, a.Asks l → ∃ level, q = .takeOver l level ∨ q = .relock l level := by
    rintro l (⟨hf, -⟩ | ⟨p', level, h | h⟩)
    · rw [hs] at hf
      cases hf
    · rw [hs] at h
      cases h
      exact ⟨level, .inl rfl⟩
    · rw [hs] at h
      cases h
      exact ⟨level, .inr rfl⟩
  cases q with
  | proceed =>
    obtain ⟨level', hgo⟩ := returns_eq hc hr
    cases hgo
    refine .completes ⟨rfl, ⟨i, rest, _, _, hc, rfl, rfl⟩, fun l hl => ?_, hpassed, hslept⟩
    obtain ⟨_, h | h⟩ := hasks l hl <;> cases h
  | leave level =>
    simp only [System.stepResume] at hr
    obtain ⟨level', hgo⟩ := returns_eq hc hr
    cases hgo
    refine .completes ⟨rfl, ⟨i, rest, _, _, hc, rfl, rfl⟩, fun l hl => ?_, hpassed, hslept⟩
    obtain ⟨_, h | h⟩ := hasks l hl <;> cases h
  | takeOver l level =>
    simp only [System.stepResume] at hr
    split at hr
    · cases hr
    · rename_i lock hl
      split at hr
      · rename_i hheld
        obtain ⟨level', hgo⟩ := returns_eq hc hr
        cases hgo
        refine .completes ⟨rfl, ⟨i, rest, _, _, hc, rfl, rfl⟩, fun m hm => ?_, hpassed, hslept⟩
        obtain ⟨_, h | h⟩ := hasks m hm
        · cases h
          exact ⟨t, lock, hcur, fetch_ok hl, hheld⟩
        · cases h
      · cases hr
  | relock l level =>
    refine (beginAcquire_leads (s := s.withKernel (s.kernel.restore level)) hk
      (.inr ⟨p, level, .inr hs⟩) (fun m hm => ?_) hc hslept hpassed hr).after rfl rfl rfl
    obtain ⟨_, h | h⟩ := hasks m hm
    · cases h
    · cases h
      rfl

theorem stepCode_leads (hk : s.kernel.Sane) (hr : s.stepCode actor a = .ok (.go a' s')) :
    Leads actor a s a' s' := by
  cases stepCode_ok hr with
  | begins code stage instr => exact stepInstr_leads hk stage code instr
  | @resumes _ _ _ _ _ _ k _ code stage current poll resume =>
    have hsteady := Kernel.pollPoint_steady poll
    obtain ⟨slot, -, hy, -, -⟩ := pollPoint_ready poll
    exact (stepResume_leads (s := s.withKernel k) (hsteady.sane hk).sound stage hy code
      (hsteady.current.trans current) resume).after rfl hsteady.current rfl

/-! ## New locks and conditions -/

theorem Creates.relabel (h : Creates s s₁) (hs : Same s₁ s') : Creates s s' := by
  cases h with
  | nothing locks conditions =>
    exact .nothing (hs.locks ▸ locks) (hs.conditions.trans conditions)
  | lock locks table conditions =>
    exact .lock (hs.locks.trans locks) (hs.table.trans table) (hs.conditions.trans conditions)
  | condition locks conditions table lock =>
    exact .condition (hs.locks.trans locks) (hs.conditions.trans conditions)
      (hs.table.trans table) lock

theorem Creates.returns (hr : s₁.returns actor v b = .ok r) (h : Creates s s₁) :
    Creates s r.system := by
  cases hr
  exact h.relabel (complete_same actor v b s₁)

theorem Creates.blocks {q : Resume} (hr : s₁.blocks q b = .ok r) (h : Creates s s₁) :
    Creates s r.system := by
  obtain ⟨-, rfl⟩ := blocks_eq hr
  exact h

theorem stepAction_creates {c : Action} (hr : s.stepAction actor c rest a = .ok r) :
    Creates s r.system := by
  have hleave : ∀ saved, Creates s (s.leaveNewest saved) := fun saved => by
    cases saved <;> exact .nothing rfl rfl
  unfold System.stepAction at hr
  simp only at hr
  split at hr
  · cases hr
    exact .nothing rfl rfl
  · exact .returns hr (.nothing rfl rfl)
  · exact .returns hr (hleave _)
  · exact .returns hr (.nothing rfl rfl)
  · exact .returns hr (hleave _)
  · split at hr
    · cases hr
    · cases hr
      exact .nothing rfl rfl
  · split at hr
    · cases hr
    · rename_i hperf
      exact .returns hr (perform_acts hperf).creates

theorem beginAcquire_creates {l : Nat} (hr : s.beginAcquire actor l a = .ok r) :
    r.system.locks.length = s.locks.length ∧ r.system.conditions = s.conditions := by
  obtain ⟨_, _, -, -, ⟨k, -, -, hr⟩ | ⟨_, k, -, -, -, hr⟩⟩ := beginAcquire_cases hr
  · cases hr
    exact ⟨(congrArg List.length (complete_same ..).locks).trans (List.length_set ..),
      (complete_same ..).conditions⟩
  · obtain ⟨-, rfl⟩ := blocks_eq hr
    exact ⟨rfl, rfl⟩

theorem stepInstr_creates (hr : s.stepInstr actor i rest a = .ok r) : Creates s r.system := by
  cases i with
  | act b => exact stepAction_creates hr
  | yield =>
    simp only [System.stepInstr] at hr
    split at hr
    · cases hr
    · cases hr
      exact .nothing rfl rfl
  | block => exact .blocks hr (.nothing rfl rfl)
  | join t =>
    obtain ⟨_, _, -, -, -, ⟨-, hr⟩ | ⟨_, _, -, -, hr⟩⟩ := beginJoin_cases hr
    · exact .returns hr (.nothing rfl rfl)
    · exact .blocks hr (.nothing rfl rfl)
  | acquire l =>
    obtain ⟨hl, hc⟩ := beginAcquire_creates hr
    exact .nothing hl hc
  | sleep c =>
    obtain ⟨_, _, _, _, _, _, -, -, -, -, -, -, hr⟩ := beginSleep_cases hr
    exact .blocks hr (.nothing (List.length_set ..) rfl)
  | wait j ticks =>
    obtain ⟨_, _, -, -, hr⟩ := beginWait_cases hr
    exact .blocks hr (.nothing rfl rfl)
  | loop n body =>
    cases n <;>
      · cases hr
        exact .nothing rfl rfl
  | whileEq v y body | whileNe v y body | whileSame v w body | ifEq v y body =>
    cases hr
    exact .nothing rfl rfl

theorem stepResume_creates {q : Resume} (hr : s.stepResume actor t q a = .ok r) :
    r.system.locks.length = s.locks.length ∧ r.system.conditions = s.conditions := by
  have hreturns : ∀ {s₁ : System}, s₁.returns actor .nothing a = .ok r →
      r.system.locks = s₁.locks ∧ r.system.conditions = s₁.conditions := by
    intro s₁ hr
    cases hr
    exact ⟨(complete_same ..).locks, (complete_same ..).conditions⟩
  cases q with
  | proceed =>
    obtain ⟨hl, hc⟩ := hreturns hr
    exact ⟨by rw [hl], hc⟩
  | leave level =>
    simp only [System.stepResume] at hr
    obtain ⟨hl, hc⟩ := hreturns hr
    exact ⟨by rw [hl]; rfl, hc⟩
  | takeOver l level =>
    simp only [System.stepResume] at hr
    split at hr
    · cases hr
    · split at hr
      · obtain ⟨hl, hc⟩ := hreturns hr
        exact ⟨by rw [hl]; rfl, hc⟩
      · cases hr
  | relock l level => exact beginAcquire_creates (s := s.withKernel (s.kernel.restore level)) hr

theorem stepCode_creates (hr : s.stepCode actor a = .ok r) : Creates s r.system := by
  cases stepCode_ok hr with
  | begins _ _ instr => exact stepInstr_creates instr
  | resumes _ _ _ _ resume =>
    obtain ⟨hl, hc⟩ := stepResume_creates resume
    exact .nothing hl hc
  | waits | ends => exact .nothing rfl rfl

/-- Nobody waits on the queue of a new lock, which nobody holds. -/
theorem Creates.lock_unwaited (h : Creates s s') (hs : s.kernel.table.Sound) {j : Nat} {l : Lock}
    (hn : s.locks[j]? = none) (hl : s'.locks[j]? = some l) :
    l.holder = none ∧ ∀ u, s'.kernel.table.waitingQueue u ≠ some l.queue := by
  have hlen := List.getElem?_eq_none_iff.1 hn
  cases h with
  | nothing locks =>
    have hj := (List.getElem?_eq_some_iff.1 hl).1
    omega
  | lock locks table =>
    rw [locks, List.getElem?_append_right hlen] at hl
    have hl := List.mem_singleton.1 (List.mem_of_getElem? hl)
    subst hl
    exact ⟨rfl, fun u hu => Table.createQueue_unwaited hs (table ▸ hu)⟩
  | condition locks =>
    rw [locks, hn] at hl
    cases hl

/-- Nobody waits on the queue of a new condition. -/
theorem Creates.condition_unwaited (h : Creates s s') (hs : s.kernel.table.Sound) {j : Nat}
    {c : Condition} (hn : s.conditions[j]? = none) (hc : s'.conditions[j]? = some c) :
    ∀ u, s'.kernel.table.waitingQueue u ≠ some c.queue := by
  have hlen := List.getElem?_eq_none_iff.1 hn
  cases h with
  | nothing _ conditions =>
    rw [conditions, hn] at hc
    cases hc
  | lock _ _ conditions =>
    rw [conditions, hn] at hc
    cases hc
  | condition _ conditions table =>
    rw [conditions, List.getElem?_append_right hlen] at hc
    have hc := List.mem_singleton.1 (List.mem_of_getElem? hc)
    subst hc
    exact fun u hu => Table.createQueue_unwaited hs (table ▸ hu)

end System
end ThreadKernel
