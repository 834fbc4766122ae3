import ThreadKernel.Kernel.Initial
import ThreadKernel.Proofs.Machine.Code
import ThreadKernel.Proofs.Machine.Frames

/-!
# ThreadKernel.Proofs.Machine.Run

Runs of plain programs. Only the first frame of the stack can be a thread, and every frame below
belongs to the dispatch loop and its callers.

* `Machine.Orderly`       — the system is orderly, and the stack is plain.
* `Orderly.step`          — one step keeps it so.
* `Orderly.steps`         — any number of steps does.
* `start_orderly`         — so it is at the start.
-/

namespace ThreadKernel

open Kernel (Posture Placed Later Executing)

inductive Frame.Plain : Frame → Prop where
  | program {actor : Actor} {a : Activation} (code : a.Plain) : Plain (.program actor a)
  | loop {phase : Phase} : Plain (.loop phase)
  | delivery {previous : Level} {called waiting : List Handler}
      (handlers : ∀ h ∈ called ++ waiting, h.Plain) : Plain (.delivery previous called waiting)

namespace Machine

inductive Orderly : Machine → Prop where
  | idle {s : System} {stack : List Frame} (system : s.Orderly none)
      (frames : ∀ f ∈ stack, f.Plain) : Orderly ⟨s, stack⟩
  | running {s : System} {d : Kernel.Dispatched Activation} {p : Posture} {below : List Frame}
      (system : s.Orderly (some (d.thread, p))) (takes : d.task.coroutine.Takes p)
      (plain : d.task.coroutine.Plain) (frames : ∀ f ∈ below, f.Plain) :
      Orderly ⟨s, .thread d :: below⟩

variable {s : System} {m m' : Machine} {below : List Frame}

theorem Orderly.system (h : m.Orderly) : ∃ run, m.system.Orderly run := by
  cases h with
  | idle hs => exact ⟨_, hs⟩
  | running hs => exact ⟨_, hs⟩

/-- What a step keeps. -/
def Keeps (s : System) (m' : Machine) : Prop := m'.Orderly ∧ Later s.kernel m'.system.kernel

theorem Keeps.after {s' : System} (h : Keeps s' m') (hl : Later s.kernel s'.kernel) : Keeps s m' :=
  ⟨h.1, hl.trans h.2⟩

/-! ## Programs and threads -/

theorem stepProgram_keeps {actor : Actor} {a : Activation} (h : s.Orderly none) (ha : a.Plain)
    (hb : ∀ f ∈ below, f.Plain) (hr : stepProgram actor a below s = .next m') : Keeps s m' := by
  unfold stepProgram at hr
  cases hcode : s.stepCode actor a with
  | error e =>
    rw [hcode] at hr
    cases hr
  | ok r =>
    have hagrees : System.Agrees none a s := ⟨h, ha, fun _ _ hc => by cases hc⟩
    cases hagrees.stepCode hcode with
    | go hgo =>
      obtain ⟨run, a', s', rfl, hrun, hag, hl⟩ := hgo
      rw [hcode] at hr
      cases hr
      have hnone : run = none := Option.map_eq_none_iff.1 hrun
      subst hnone
      exact ⟨.idle hag.orderly (List.forall_mem_cons.2 ⟨.program hag.plain, hb⟩), hl⟩
    | park thread => cases thread
    | call =>
      rw [hcode] at hr
      cases hr
      refine ⟨.idle h ?_, .refl _⟩
      exact List.forall_mem_cons.2 ⟨.loop, List.forall_mem_cons.2 ⟨.program ha, hb⟩⟩
    | done =>
      rw [hcode] at hr
      cases below with
      | nil => cases hr
      | cons f below =>
        cases hr
        obtain ⟨hp, hl⟩ := h.placed.restoreAll a.guards
        exact ⟨.idle (h.kernel hp) hb, hl⟩

/-- The dispatch is over once the kernel has charged it. -/
theorem endDispatch_keeps {run : Option (ThreadId × Posture)} {k : Kernel Activation}
    (h : s.Orderly run) (hb : ∀ f ∈ below, f.Plain)
    (hk : Placed s.uses s.asleep none k) (hl : Later s.kernel k) :
    Keeps s ⟨s.withKernel k.charge, below⟩ :=
  ⟨.idle ⟨hk.congr rfl rfl rfl, h.programs, h.handlers⟩ hb, hl.table, hl.ready⟩

theorem stepThread_keeps {d : Kernel.Dispatched Activation} {p : Posture}
    (h : s.Orderly (some (d.thread, p))) (ht : d.task.coroutine.Takes p)
    (ha : d.task.coroutine.Plain) (hb : ∀ f ∈ below, f.Plain)
    (hr : stepThread d below s = .next m') : Keeps s m' := by
  unfold stepThread at hr
  have hagrees : System.Agrees (some (d.thread, p)) d.task.coroutine s := by
    refine ⟨h, ha, ?_⟩
    rintro t q ⟨⟩
    exact ht
  cases hcode : s.stepCode (.thread d.thread) d.task.coroutine with
  | error e =>
    simp only [hcode] at hr
    cases hr
  | ok r =>
    cases hagrees.stepCode hcode with
    | go hgo =>
      obtain ⟨run, a', s', rfl, hrun, hag, hl⟩ := hgo
      simp only [hcode] at hr
      cases hr
      obtain ⟨⟨t, q⟩, rfl, htd⟩ := Option.map_eq_some_iff.1 hrun
      have htd : t = d.thread := htd
      subst htd
      exact ⟨.running hag.orderly (hag.takes _ q rfl) hag.plain hb, hl⟩
    | park thread stage poll =>
      cases thread
      simp only [hcode, endDispatch] at hr
      split at hr
      · cases hr
      · rename_i k hk
        cases hr
        obtain ⟨hp, hl⟩ := h.placed.poll_park hk ht ha stage poll rfl
        exact endDispatch_keeps h hb hp hl
    | call thread => cases thread
    | done code =>
      simp only [hcode, endDispatch] at hr
      split at hr
      · cases hr
      · rename_i k hk
        cases hr
        obtain ⟨hp₁, hl₁⟩ := h.placed.restoreAll d.task.coroutine.guards
        obtain ⟨hp, hl⟩ := hp₁.finish ht code hk
        exact endDispatch_keeps h hb hp (hl₁.trans hl)

/-! ## Timer interrupts -/

theorem stepTick_keeps (h : s.Orderly none) (hb : ∀ f ∈ below, f.Plain)
    (hr : stepTick below s = .next m') : Keeps s m' := by
  cases stepTick_next hr with
  | passes => exact ⟨.idle h (List.forall_mem_cons.2 ⟨.loop, hb⟩), .refl _⟩
  | interrupts =>
    refine ⟨.idle ⟨h.placed.congr rfl rfl rfl, h.programs, by simp⟩ ?_, .refl _, rfl⟩
    exact List.forall_mem_cons.2 ⟨.delivery h.handlers, List.forall_mem_cons.2 ⟨.loop, hb⟩⟩

/-- Those that are due at an alarm, and all others that sleep. -/
theorem asleep_due {i : Nat} {a : Alarm} (now : Nat) (ha : s.alarms[i]? = some a) :
    s.asleep = fun t => ((a.due now).map Sleeper.thread).count t +
      (s.setAlarm i { a with sleepers := a.rest now }).asleep t := by
  funext t
  set left : Alarm := { a with sleepers := a.rest now }
  have hsum := System.asleep_setAlarm (b := left) ha t
  have hsplit : _ + left.count t = _ := Alarm.count_release now t a
  omega

/-- The sleepers of an alarm that are due are announced. -/
theorem release_keeps {i : Nat} {a b : Alarm} {k : Kernel Activation} (h : s.Orderly none)
    (ha : s.alarms[i]? = some a) (hr : a.release s.kernel = .ok (b, k)) :
    ((s.setAlarm i b).withKernel k).Orderly none ∧ Later s.kernel k := by
  obtain ⟨hwake, rfl⟩ := Alarm.release_ok hr
  have hp := h.placed
  rw [asleep_due s.kernel.now ha] at hp
  obtain ⟨hp, hl⟩ := hp.wakeEach _ hwake
  exact ⟨⟨hp, h.programs, h.handlers⟩, hl⟩

theorem stepDelivery_keeps {previous : Level} {called waiting : List Handler} (h : s.Orderly none)
    (hf : ∀ x ∈ called ++ waiting, x.Plain) (hb : ∀ f ∈ below, f.Plain)
    (hr : stepDelivery previous called waiting below s = .next m') : Keeps s m' := by
  have hbelow : ∀ {called waiting : List Handler}, (∀ x ∈ called ++ waiting, x.Plain) →
      ∀ f ∈ Frame.delivery previous called waiting :: below, f.Plain := fun hf =>
    List.forall_mem_cons.2 ⟨.delivery hf, hb⟩
  cases stepDelivery_next hr with
  | ends =>
    refine ⟨.idle ⟨h.placed.congr rfl rfl rfl, h.programs, fun x hx => ?_⟩ hb, .refl _, rfl⟩
    rcases List.mem_append.1 hx with hx | hx
    · exact hf x (List.mem_append_left _ hx)
    · exact h.handlers x hx
  | skips => exact ⟨.idle h (hbelow (forall_called hf (hf _ (by simp)))), .refl _⟩
  | rings named release =>
    obtain ⟨ho, hl⟩ := release_keeps h named release
    exact ⟨.idle ho (hbelow (forall_called hf (hf _ (by simp)))), hl⟩
  | @spent body => exact ⟨.idle h (hbelow (forall_called hf (hf _ (by simp)))), .refl _⟩
  | @runs n body =>
    have hbody : Handler.Plain (.routine (n + 1) body) := hf _ (by simp)
    refine ⟨.idle h (List.forall_mem_cons.2 ⟨.program (Instr.plainList_act hbody), ?_⟩), .refl _⟩
    exact hbelow (forall_called hf hbody)

/-! ## The run loop -/

/-- What a step keeps that dispatches nobody. -/
structure Idles (s : System) (m' : Machine) : Prop where
  system : m'.system.Orderly none
  frames : ∀ f ∈ m'.stack, f.Plain
  later : Later s.kernel m'.system.kernel

theorem Idles.keeps (h : Idles s m') : Keeps s m' := ⟨.idle h.system h.frames, h.later⟩

theorem Idles.after {s' : System} (h : Idles s' m') (hl : Later s.kernel s'.kernel) : Idles s m' :=
  ⟨h.system, h.frames, hl.trans h.later⟩

theorem returnFrom_idles {v : Value} (h : s.Orderly none) (hb : ∀ f ∈ below, f.Plain)
    (hr : returnFrom v below s = .next m') : Idles s m' := by
  cases returnFrom_next hr with
  | @completes actor a below =>
    obtain ⟨hf, hb⟩ := List.forall_mem_cons.1 hb
    cases hf with
    | program ha =>
      cases hc : a.code with
      | nil =>
        simp only [System.complete, hc]
        exact ⟨h, List.forall_mem_cons.2 ⟨.program ha, hb⟩, .refl _⟩
      | cons i rest =>
        simp only [System.complete, hc]
        obtain ⟨hp, hl⟩ := h.placed.restoreAll a.regions
        have hrest := (System.plain_rest ha hc).2
        refine ⟨⟨hp, h.programs, h.handlers⟩, ?_, hl⟩
        exact List.forall_mem_cons.2 ⟨.program hrest, hb⟩
  | drops => exact ⟨h, hb, .refl _⟩

theorem stepIdle_idles (h : s.Orderly none) (hb : ∀ f ∈ below, f.Plain)
    (hr : stepIdle below s = .next m') : Idles s m' := by
  unfold stepIdle at hr
  split at hr
  · exact returnFrom_idles h hb hr
  · split at hr
    · cases hr
      refine ⟨h.kernel (h.placed.congr rfl rfl rfl), ?_, .refl _, rfl⟩
      exact List.forall_mem_cons.2 ⟨.loop, hb⟩
    · exact returnFrom_idles h hb hr

/-- The kernel that the next thread is chosen from. -/
theorem placed_admitted {k : Kernel Activation} (h : s.Orderly none)
    (hk : s.kernel.enter.admitWoken = .ok k) :
    Placed s.uses s.asleep none k ∧ Later s.kernel k ∧ k.registry.channel = [] ∧
      k.registry.slots = s.kernel.registry.slots := by
  have henter : Placed s.uses s.asleep none s.kernel.enter := h.placed.congr rfl rfl rfl
  obtain ⟨hp, hl, hc, hs⟩ := henter.admitWoken hk
  exact ⟨hp, ⟨hl.table, hl.ready⟩, hc, hs⟩

/-- From `k` the thread was chosen that `m'` executes. -/
structure Chosen (s : System) (k : Kernel Activation) (t : ThreadId) (m' : Machine) : Prop where
  admitted : s.kernel.enter.admitWoken = .ok k
  served : ∃ k', k.nextThread k.readyQueue = .ok (some t, k') ∧
    m'.system.kernel.table = k'.table
  thread : ∃ d rest, m'.stack = .thread d :: rest ∧ d.thread = t

/-- The run loop goes on without a thread, or dispatches the one it chose. -/
theorem stepChoose_cases (h : s.Orderly none) (hb : ∀ f ∈ below, f.Plain)
    (hr : stepChoose below s = .next m') :
    Idles s m' ∨ Keeps s m' ∧ ∃ k t, Chosen s k t m' := by
  unfold stepChoose Kernel.chooseThread at hr
  cases hadm : s.kernel.enter.admitWoken with
  | error e =>
    simp only [hadm] at hr
    cases hr
  | ok k =>
    obtain ⟨hp, hl, -, -⟩ := placed_admitted h hadm
    simp only [hadm] at hr
    cases hn : k.nextThread k.readyQueue with
    | error e =>
      simp only [hn] at hr
      cases hr
    | ok r =>
      obtain ⟨o, k₁⟩ := r
      simp only [hn] at hr
      cases o with
      | none =>
        left
        obtain ⟨hp₁, hl₁⟩ := hp.choose_none hn
        have ho : System.Orderly none (s.withKernel (k₁.restore s.kernel.level)) :=
          h.kernel (hp₁.congr rfl rfl rfl)
        have hl₂ := hl.trans hl₁
        exact (stepIdle_idles ho hb hr).after ⟨hl₂.table, hl₂.ready⟩
      | some t =>
        right
        simp only [stepDispatch] at hr
        split at hr
        · cases hr
        · rename_i hd
          obtain ⟨_, _, _, hr', -⟩ := hp.choose _ hn hd
          cases hr'
        · rename_i d k₂ hd
          cases hr
          obtain ⟨d', k', p, hr', rfl, hplain, htakes, hp₂, hl₂, htable⟩ := hp.choose _ hn hd
          cases hr'
          refine ⟨⟨.running (h.kernel hp₂) htakes hplain ?_, hl.trans hl₂⟩, k, d.thread, hadm, ?_,
            ?_⟩
          · exact List.forall_mem_cons.2 ⟨.loop, hb⟩
          · exact ⟨k₁, hn, htable⟩
          · exact ⟨d, _, rfl, rfl⟩

theorem stepChoose_keeps (h : s.Orderly none) (hb : ∀ f ∈ below, f.Plain)
    (hr : stepChoose below s = .next m') : Keeps s m' := by
  rcases stepChoose_cases h hb hr with hi | ⟨hk, -⟩
  · exact hi.keeps
  · exact hk

/-! ## Runs -/

theorem Orderly.step (h : m.Orderly) (hr : m.step = .next m') : Keeps m.system m' := by
  cases h with
  | idle hs hf =>
    rename_i s stack
    cases stack with
    | nil => cases hr
    | cons f below =>
      obtain ⟨hf, hb⟩ := List.forall_mem_cons.1 hf
      cases hf with
      | program ha => exact stepProgram_keeps hs ha hb hr
      | delivery hh => exact stepDelivery_keeps hs hh hb hr
      | loop =>
        rename_i phase
        cases phase with
        | tick => exact stepTick_keeps hs hb hr
        | choose => exact stepChoose_keeps hs hb hr
  | running hs ht ha hb => exact stepThread_keeps hs ht ha hb hr

theorem Orderly.steps (h : m.Orderly) (hr : Steps m m') : Keeps m.system m' := by
  induction hr with
  | refl => exact ⟨h, .refl _⟩
  | cons hstep _ ih =>
    obtain ⟨ho, hl⟩ := h.step hstep
    exact (ih ho).after hl

theorem steps_run (n : Nat) (m : Machine) : Steps m (run n m).1 := by
  induction n generalizing m with
  | zero => exact .refl
  | succ n ih =>
    rw [run]
    split
    · rename_i hstep
      exact .cons hstep (ih _)
    · exact .refl
    · exact .refl

/-! ## The start -/

/-- The table of a new kernel, with its ready queue. -/
def firstTable (gen : Generator) (settings : Settings) : QueueId × Table :=
  (Table.empty settings.policy (gen.start settings.seed)).createQueue false

theorem start_ok {gen : Generator} {settings : Settings} {k : Kernel Activation}
    (hk : Kernel.start gen settings = .ok k) :
    ∃ clock, k = ⟨.empty, (firstTable gen settings).2, .enabled, clock, settings.ticksPerDispatch,
      (firstTable gen settings).1⟩ := by
  unfold Kernel.start at hk
  split at hk
  · cases hk
  · rename_i clock _
    exact ⟨clock, (Except.ok.inj hk).symm⟩

theorem placed_start {gen : Generator} {settings : Settings} {k : Kernel Activation}
    (hk : Kernel.start gen settings = .ok k) : Placed [] (fun _ => 0) none k := by
  obtain ⟨clock, rfl⟩ := start_ok hk
  have he := Table.createQueue_effect
    (Table.empty_sound settings.policy (gen.start settings.seed)) false
  have habsurd : ∀ {t slot} {P : Prop},
      (Registry.empty : Registry Activation).get? t = some slot → P := fun hs => by cases hs
  refine ⟨⟨he.sound, ⟨?_, by simp, by simp, List.nodup_nil, habsurd, habsurd, habsurd⟩, by simp,
    habsurd, habsurd, fun {t} _ => ⟨?_, rfl, rfl⟩, fun _ => habsurd, fun _ => habsurd⟩, rfl⟩
  · show (firstTable gen settings).2.links.transfer (firstTable gen settings).1 = some false
    unfold firstTable
    rw [he.links]
    simp only [Function.update_self]
  · have hw := congrArg Table.Links.waiting he.links
    exact congrFun hw t

theorem start_orderly {gen : Generator} {settings : Settings} {k : Kernel Activation}
    {programs : List Program} {main : List Action} (hk : Kernel.start gen settings = .ok k)
    (hp : ∀ p ∈ programs, Instr.plainList p.code = true) (hm : Action.plainList main = true) :
    (start k programs main).Orderly := by
  refine .idle ⟨placed_start hk, hp, fun h hh => by cases hh⟩ ?_
  exact List.forall_mem_singleton.2 (.program (Instr.plainList_act hm))

end Machine
end ThreadKernel
