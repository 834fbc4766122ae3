import ThreadKernel.Proofs.Machine.Frames

/-!
# ThreadKernel.Proofs.Machine.Code

A step of a plain program keeps its system orderly.

* `System.Agrees`     — the program is at the place that the thread which executes it is at.
* `System.Advances`   — what a step of such a program comes to.
* `Orderly.stepInstr`, `Orderly.stepResume` — an instruction is begun, or resumed.
* `Agrees.stepCode`   — one step of an activation.
-/

namespace ThreadKernel

open Kernel (Posture Placed Later Executing)

namespace System

structure Agrees (run : Option (ThreadId × Posture)) (a : Activation) (s : System) : Prop where
  orderly : s.Orderly run
  plain : a.Plain
  takes : ∀ t p, run = some (t, p) → a.Takes p

/-- The program goes on, executed by the same thread or by none. -/
def GoesOn (x : Option ThreadId) (s : System) (r : Progress) : Prop :=
  ∃ run a' s', r = .go a' s' ∧ run.map Prod.fst = x ∧ Agrees run a' s' ∧
    Later s.kernel s'.kernel

inductive Advances (x : Option ThreadId) (a : Activation) (s : System) : Progress → Prop where
  | go {r : Progress} (h : GoesOn x s r) : Advances x a s r
  | park {t : ThreadId} {point point' : YieldPoint} {r : Resume} {k : Kernel Activation}
      (thread : x = some t) (stage : a.stage = .suspended point r)
      (poll : s.kernel.pollPoint t point = (false, point', k)) :
      Advances x a s (.park { a with stage := .suspended point' r } (s.withKernel k))
  | call (thread : x = none) : Advances x a s (.call a s)
  | done (code : a.code = []) : Advances x a s (.done a s)

variable {s s' : System} {a : Activation} {run : Option (ThreadId × Posture)} {actor : Actor}
  {i : Instr} {rest : List Instr} {r : Progress} {v : Value} {t : ThreadId} {x : Option ThreadId}

theorem GoesOn.after (h : GoesOn x s' r) (hl : Later s.kernel s'.kernel) : GoesOn x s r := by
  obtain ⟨run, a', s'', rfl, hrun, ha, hl'⟩ := h
  exact ⟨run, a', s'', rfl, hrun, ha, hl.trans hl'⟩

theorem Orderly.restore (h : Orderly run s) (level : Level) :
    Orderly run (s.withKernel (s.kernel.restore level)) := h.kernel (h.placed.congr rfl rfl rfl)

theorem Orderly.enter (h : Orderly run s) : Orderly run (s.withKernel s.kernel.enter) :=
  h.restore .disabled

theorem Orderly.leaveNewest (h : Orderly run s) (saved : List Level) :
    Orderly run (s.leaveNewest saved) ∧ Later s.kernel (s.leaveNewest saved).kernel := by
  cases saved with
  | nil => exact ⟨h, .refl _⟩
  | cons level saved => exact ⟨h.restore level, .refl _, rfl⟩

theorem plain_rest (h : a.Plain) (hc : a.code = i :: rest) :
    i.plain = true ∧ Instr.plainList rest = true := by
  rw [Activation.Plain, hc, Instr.plainList, Bool.and_eq_true] at h
  exact h

/-! ## Completing and blocking -/

theorem Orderly.returns (h : Orderly run s) (hx : Executing run)
    (hr : s.returns actor v a = .ok r) (hp : a.Plain) (hc : a.code = i :: rest) :
    GoesOn (run.map Prod.fst) s r := by
  simp only [System.returns, complete, hc] at hr
  cases hr
  obtain ⟨hpl, hl⟩ := h.placed.restoreAll a.regions
  refine ⟨run, _, _, rfl, rfl, ⟨⟨hpl, h.programs, h.handlers⟩, (plain_rest hp hc).2, ?_⟩, hl⟩
  intro t p hrun
  rw [hx t p hrun]
  exact .fresh rfl

theorem Orderly.blocks {q : Resume} (h : Orderly (some (t, .blocking)) s) (hp : a.Plain)
    (hc : a.code = i :: rest) (hr : s.blocks q a = .ok r) : GoesOn (some t) s r := by
  unfold System.blocks at hr
  split at hr
  · cases hr
  · cases hr
    refine ⟨_, _, _, rfl, rfl, ⟨h, hp, ?_⟩, .refl _⟩
    rintro u p ⟨⟩
    exact .blocking rfl (by simp [hc])

/-! ## Beginning an instruction -/

theorem Orderly.stepAction {b : Action} (h : Orderly run s) (hx : Executing run) (hp : a.Plain)
    (hs : a.stage = .fresh) (hc : a.code = .act b :: rest)
    (hr : s.stepAction actor b rest a = .ok r) : Advances (run.map Prod.fst) a s r := by
  obtain ⟨hb, hrest⟩ := plain_rest hp hc
  unfold System.stepAction at hr
  simp only at hr
  split at hr
  · rename_i b
    cases hr
    have hplain : Instr.plainList (.act b :: rest) = true := by
      rw [Instr.plain, Action.plain] at hb
      rw [Instr.plainList, Bool.and_eq_true]
      exact ⟨by rw [Instr.plain]; exact hb, hrest⟩
    refine .go ⟨run, _, _, rfl, rfl, ⟨h.enter, hplain, fun t p hrun => ?_⟩, .refl _, rfl⟩
    rw [hx t p hrun]
    exact .fresh hs
  · exact .go ((h.enter.returns hx hr hp hc).after ⟨.refl _, rfl⟩)
  · obtain ⟨ho, hl⟩ := h.leaveNewest a.levels
    exact .go ((ho.returns hx hr hp hc).after hl)
  · exact .go ((h.enter.returns hx hr hp hc).after ⟨.refl _, rfl⟩)
  · obtain ⟨ho, hl⟩ := h.leaveNewest a.guards
    exact .go ((ho.returns hx hr hp hc).after hl)
  · split at hr
    · cases hr
    · rename_i hcur
      cases hr
      refine .call ?_
      cases run with
      | none => rfl
      | some run =>
        have hrun := h.placed.2.current
        rw [hcur] at hrun
        cases hrun
  · split at hr
    · cases hr
    · rename_i hperf
      obtain ⟨ho, hl⟩ := h.perform hx hb hperf
      exact .go ((ho.returns hx hr hp hc).after hl)

theorem Orderly.beginJoin {target : ThreadRef} (h : Orderly run s) (hx : Executing run)
    (hp : a.Plain) (hc : a.code = i :: rest) (hr : s.beginJoin actor target a = .ok r) :
    GoesOn (run.map Prod.fst) s r := by
  unfold System.beginJoin at hr
  split at hr
  · cases hr
  · rename_i u _
    split at hr
    · cases hr
    · rename_i t ht
      split at hr
      · cases hr
      · rename_i hne
        split at hr
        · exact h.returns hx hr hp hc
        · rename_i slot hslot
          split at hr
          · cases hr
          · rename_i k hk
            cases h.placed.current hx (Kernel.currentThread_ok ht)
            obtain ⟨hpl, hl⟩ := h.enter.placed.enqueue (.inr ⟨u, slot, hslot, rfl⟩)
              (fun v hv hq => absurd hq (h.placed.1.layout.join_apart hslot v hv))
              (fun slot' hs hj => hne (h.placed.1.layout.join_inj hs hslot hj)) hk
            exact (Orderly.blocks (h.kernel hpl) hp hc hr).after ⟨hl.table, hl.ready⟩

theorem Orderly.beginAcquire {l : Nat} (h : Orderly run s) (hx : Executing run) (hp : a.Plain)
    (hc : a.code = i :: rest) (hr : s.beginAcquire actor l a = .ok r) :
    GoesOn (run.map Prod.fst) s r := by
  unfold System.beginAcquire at hr
  split at hr
  · cases hr
  · rename_i lock hl
    split at hr
    · cases hr
    · rename_i t ht
      simp only at hr
      split at hr
      · cases hr
      · rename_i granted lock' k hk
        have hl := fetch_ok hl
        cases h.placed.current hx (Kernel.currentThread_ok ht)
        obtain ⟨hpl, hlater⟩ := h.placed.request (mem_uses_lock hl) (uses_setLock_self hl)
          (fun l' hq => reassigned_setLock hl hq h.placed.1.layout.use_nodup) hk
        split at hr
        · rename_i hg
          rw [if_pos hg] at hpl
          have ho : Orderly (some (t, .free)) ((s.setLock l lock').withKernel k) :=
            ⟨hpl, h.programs, h.handlers⟩
          exact ((ho.restore _).returns hx hr hp hc).after ⟨hlater.table, hlater.ready⟩
        · rename_i hg
          rw [if_neg hg] at hpl
          have ho : Orderly (some (t, .blocking)) ((s.setLock l lock').withKernel k) :=
            ⟨hpl, h.programs, h.handlers⟩
          exact (ho.blocks hp hc hr).after hlater

theorem Orderly.beginSleep {c : Nat} (h : Orderly run s) (hx : Executing run) (hp : a.Plain)
    (hc : a.code = i :: rest) (hr : s.beginSleep c a = .ok r) :
    GoesOn (run.map Prod.fst) s r := by
  unfold System.beginSleep at hr
  split at hr
  · cases hr
  · rename_i c hcond
    split at hr
    · cases hr
    · rename_i lock hl
      split at hr
      · cases hr
      · rename_i t ht
        split at hr
        · cases hr
        · rename_i lock' k hk
          have hl := fetch_ok hl
          have hcond := fetch_ok hcond
          have ht : s.kernel.currentThread = .ok t := by
            unfold Condition.holder at ht
            split at ht
            · exact ht
            · cases ht
          cases h.placed.current hx (Kernel.currentThread_ok ht)
          obtain ⟨hpl, hlater⟩ := h.enter.placed.sleep (mem_uses_lock hl)
            (fun l' hq => reassigned_setLock hl hq h.placed.1.layout.use_nodup)
            (fun l' _ => mem_uses_condition hcond) hk
          have ho : Orderly (some (t, .blocking)) ((s.setLock c.lock lock').withKernel k) :=
            ⟨hpl, h.programs, h.handlers⟩
          exact (ho.blocks hp hc hr).after ⟨hlater.table, hlater.ready⟩

theorem Orderly.beginWait {j ticks : Nat} (h : Orderly run s) (hx : Executing run) (hp : a.Plain)
    (hc : a.code = i :: rest) (hr : s.beginWait j ticks a = .ok r) :
    GoesOn (run.map Prod.fst) s r := by
  unfold System.beginWait at hr
  split at hr
  · cases hr
  · rename_i alarm halarm
    split at hr
    · cases hr
    · rename_i t ht
      have halarm := fetch_ok halarm
      cases h.placed.current hx (Kernel.currentThread_ok ht)
      set pushed := alarm.push (Clock.after s.kernel.now ticks) t
      have hcount : ∀ u, (s.setAlarm j pushed).asleep u = s.asleep u + if t = u then 1 else 0 := by
        intro u
        have hsum := asleep_setAlarm (b := pushed) halarm u
        rw [Alarm.count_push] at hsum
        omega
      have hpl : Placed s.uses (s.setAlarm j pushed).asleep (some (t, .blocking))
          s.kernel.enter := by
        refine h.enter.placed.fallAsleep ?_ fun u hu => ?_
        · rw [hcount, if_pos rfl]
          rfl
        · rw [hcount, if_neg (Ne.symm hu)]
          rfl
      have ho : Orderly (some (t, .blocking)) ((s.setAlarm j pushed).withKernel s.kernel.enter) :=
        ⟨hpl, h.programs, h.handlers⟩
      exact (ho.blocks hp hc hr).after ⟨.refl _, rfl⟩

/-- The program goes on at other code, which is plain as well. -/
theorem Orderly.goTo {code : List Instr} (h : Orderly run s) (hx : Executing run)
    (hs : a.stage = .fresh) (hcode : Instr.plainList code = true)
    (hr : (.ok (.go { a with code := code } s) : Except Fault Progress) = .ok r) :
    GoesOn (run.map Prod.fst) s r := by
  cases hr
  refine ⟨run, _, _, rfl, rfl, ⟨h, hcode, fun t p hrun => ?_⟩, .refl _⟩
  rw [hx t p hrun]
  exact .fresh hs

/-- One round of a loop, whose body stands before the loop itself. -/
theorem plain_unrolled {body : List Instr} {j : Instr} (hb : Instr.plainList body = true)
    (hj : j.plain = true) (hrest : Instr.plainList rest = true) :
    Instr.plainList (body ++ j :: rest) = true := by
  rw [Instr.plainList_append, Instr.plainList, hb, hj, hrest]
  rfl

theorem Orderly.stepInstr (h : Orderly run s) (hx : Executing run) (hp : a.Plain)
    (hs : a.stage = .fresh) (hc : a.code = i :: rest) (hr : s.stepInstr actor i rest a = .ok r) :
    Advances (run.map Prod.fst) a s r := by
  obtain ⟨hi, hrest⟩ := plain_rest hp hc
  cases i with
  | act b => exact h.stepAction hx hp hs hc hr
  | block => cases hi
  | yield =>
    simp only [System.stepInstr] at hr
    split at hr
    · cases hr
    · cases hr
      refine .go ⟨run, _, _, rfl, rfl, ⟨h, hp, fun t p hrun => ?_⟩, .refl _⟩
      rw [hx t p hrun]
      exact .yielding rfl
  | join t => exact .go (h.beginJoin hx hp hc hr)
  | acquire l => exact .go (h.beginAcquire hx hp hc hr)
  | sleep c => exact .go (h.beginSleep hx hp hc hr)
  | wait j ticks => exact .go (h.beginWait hx hp hc hr)
  | loop n body =>
    cases n with
    | zero => exact .go (h.goTo hx hs hrest hr)
    | succ n => exact .go (h.goTo hx hs (plain_unrolled (j := .loop n body) hi hi hrest) hr)
  | whileEq v x body =>
    simp only [System.stepInstr] at hr
    split at hr
    · exact .go (h.goTo hx hs (plain_unrolled hi hi hrest) hr)
    · exact .go (h.goTo hx hs hrest hr)
  | whileNe v x body =>
    simp only [System.stepInstr] at hr
    split at hr
    · exact .go (h.goTo hx hs hrest hr)
    · exact .go (h.goTo hx hs (plain_unrolled hi hi hrest) hr)
  | whileSame v w body =>
    simp only [System.stepInstr] at hr
    split at hr
    · exact .go (h.goTo hx hs (plain_unrolled hi hi hrest) hr)
    · exact .go (h.goTo hx hs hrest hr)
  | ifEq v x body =>
    simp only [System.stepInstr] at hr
    split at hr
    · refine .go (h.goTo hx hs ?_ hr)
      rw [Instr.plainList_append, hrest, Bool.and_true]
      exact hi
    · exact .go (h.goTo hx hs hrest hr)

/-! ## Going on behind a yield point -/

theorem Orderly.stepResume {q : Resume} (h : Orderly run s) (hx : Executing run) (hp : a.Plain)
    (hc : a.code = i :: rest) (hr : s.stepResume actor t q a = .ok r) :
    GoesOn (run.map Prod.fst) s r := by
  cases q with
  | proceed => exact h.returns hx hr hp hc
  | leave level => exact ((h.restore level).returns hx hr hp hc).after ⟨.refl _, rfl⟩
  | takeOver l level =>
    simp only [System.stepResume] at hr
    split at hr
    · cases hr
    · split at hr
      · exact ((h.restore level).returns hx hr hp hc).after ⟨.refl _, rfl⟩
      · cases hr
  | relock l level => exact ((h.restore level).beginAcquire hx hp hc hr).after ⟨.refl _, rfl⟩

/-- Only a thread is at a yield point. -/
theorem Agrees.running (h : Agrees run a s) {t : ThreadId}
    (hcur : s.kernel.registry.current = some t) : ∃ p, run = some (t, p) := by
  cases run with
  | none =>
    have hn : s.kernel.registry.current = none := h.orderly.placed.2
    rw [hn] at hcur
    cases hcur
  | some run =>
    obtain ⟨u, p⟩ := run
    cases hcur.symm.trans h.orderly.placed.2.current
    exact ⟨p, rfl⟩

/-- A thread that begins an instruction is not about to block. -/
theorem Agrees.executing (h : Agrees run a s) (hs : a.stage = .fresh) : Executing run := by
  rintro t p rfl
  cases h.takes t p rfl with
  | fresh => rfl
  | yielding => rfl
  | passing hp =>
    rw [hs] at hp
    cases hp
  | blocking hb =>
    rw [hs] at hb
    cases hb

theorem Agrees.stepCode (h : Agrees run a s) (hr : s.stepCode actor a = .ok r) :
    Advances (run.map Prod.fst) a s r := by
  cases stepCode_ok hr with
  | begins code stage instr =>
    exact h.orderly.stepInstr (h.executing stage) h.plain stage code instr
  | @resumes _ _ _ _ _ t k _ code stage current poll resume =>
    obtain ⟨p, rfl⟩ := h.running current
    obtain ⟨hpl, hl⟩ := h.orderly.placed.poll_ready (h.takes t p rfl) stage poll
    have ho : Orderly (some (t, .free)) (s.withKernel k) := h.orderly.kernel hpl
    exact .go ((ho.stepResume (Kernel.executing_free t) h.plain code resume).after hl)
  | waits _ stage current poll =>
    obtain ⟨p, rfl⟩ := h.running current
    exact .park rfl stage poll
  | ends code => exact .done code

end System
end ThreadKernel
