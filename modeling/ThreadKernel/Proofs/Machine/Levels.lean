import ThreadKernel.Proofs.Machine.Execution

/-!
# ThreadKernel.Proofs.Machine.Levels

While a timer interrupt is delivered, interrupts are disabled. The handlers may enter and leave
atomic regions and run the kernel, but all that they can restore are levels from during the
delivery.

* `Frame.saved`          — the levels that a frame may restore.
* `System.Masked`        — a program that nobody's thread executes, with interrupts disabled.
* `Machine.Leveled`      — the invariant.
* `Leveled.step`         — one step keeps it.
-/

namespace ThreadKernel

open Kernel (Dispatched)

/-- The levels that an activation may restore. -/
def Activation.saved (a : Activation) : List Level := a.regions ++ a.levels ++ a.guards

/-- The levels that a frame may restore. -/
def Frame.saved : Frame → List Level
  | .program _ a => a.saved
  | .thread d => [d.loopLevel]
  | .loop _ => []
  | .delivery previous _ _ => [previous]

def Frame.delivers : Frame → Bool
  | .delivery _ _ _ => true
  | _ => false

namespace System

/-- Interrupts are disabled, and the program can only restore that. -/
structure Masked (a : Activation) (s : System) : Prop where
  level : s.kernel.level = .disabled
  saved : ∀ l ∈ a.saved, l = .disabled

variable {s s' : System} {a a' : Activation} {actor : Actor} {v : Value} {i : Instr}
  {rest : List Instr} {r : Progress}

theorem level_restoreAll {k : Kernel Activation} {l : List Level} (hk : k.level = .disabled)
    (hl : ∀ x ∈ l, x = .disabled) : (k.restoreAll l).level = .disabled := by
  rw [restoreAll_eq]
  show l.getLastD k.level = .disabled
  cases hlast : l.getLast? with
  | none => rw [List.getLastD_eq_getLast?, hlast]; exact hk
  | some x =>
    rw [List.getLastD_eq_getLast?, hlast]
    exact hl x (List.mem_of_getLast? hlast)

theorem Masked.complete (h : Masked a s) (actor : Actor) (v : Value) :
    Masked (s.complete actor v a).1 (s.complete actor v a).2 := by
  obtain ⟨hlevel, hsaved⟩ := h
  simp only [Activation.saved, List.mem_append] at hsaved
  unfold System.complete
  split
  · exact ⟨hlevel, by simpa only [Activation.saved, List.mem_append] using hsaved⟩
  · refine ⟨level_restoreAll hlevel fun l hl => hsaved l (.inl (.inl hl)), fun l hl => ?_⟩
    simp only [Activation.saved, List.nil_append, List.mem_append] at hl
    exact hsaved l (hl.elim (fun h => .inl (.inr h)) .inr)

theorem Masked.returns (h : Masked a s) (hr : s.returns actor v a = .ok (.go a' s')) :
    Masked a' s' := by
  cases hr
  exact h.complete actor v

theorem Masked.leaveNewest {saved : List Level} (h : Masked a s) (hsub : ∀ l ∈ saved, l ∈ a.saved) :
    (s.leaveNewest saved).kernel.level = .disabled := by
  cases saved with
  | nil => exact h.level
  | cons l saved => exact h.saved l (hsub l List.mem_cons_self)

theorem Masked.stepAction {b : Action} (h : Masked a s)
    (hr : s.stepAction actor b rest a = .ok (.go a' s')) : Masked a' s' := by
  obtain ⟨hlevel, hsaved⟩ := h
  have hsaved : ∀ l, (l ∈ a.regions ∨ l ∈ a.levels) ∨ l ∈ a.guards → l = .disabled := by
    simpa only [Activation.saved, List.mem_append] using hsaved
  have hmasked : ∀ {b : Activation} {s₁ : System}, s₁.kernel.level = .disabled →
      (∀ l, (l ∈ b.regions ∨ l ∈ b.levels) ∨ l ∈ b.guards → l = .disabled) → Masked b s₁ :=
    fun hk hb => ⟨hk, by simpa only [Activation.saved, List.mem_append] using hb⟩
  unfold System.stepAction at hr
  simp only at hr
  split at hr
  · cases hr
    refine hmasked rfl fun l hl => ?_
    rcases hl with (hl | hl) | hl
    · rcases List.mem_cons.1 hl with rfl | hl
      · exact hlevel
      · exact hsaved l (.inl (.inl hl))
    · exact hsaved l (.inl (.inr hl))
    · exact hsaved l (.inr hl)
  · refine Masked.returns (hmasked rfl fun l hl => ?_) hr
    rcases hl with (hl | hl) | hl
    · exact hsaved l (.inl (.inl hl))
    · rcases List.mem_cons.1 hl with rfl | hl
      · exact hlevel
      · exact hsaved l (.inl (.inr hl))
    · exact hsaved l (.inr hl)
  · refine Masked.returns (hmasked (Masked.leaveNewest ⟨hlevel, ‹_›⟩ ?_) fun l hl => ?_) hr
    · exact fun l hl => List.mem_append_left _ (List.mem_append_right _ hl)
    · exact hsaved l (hl.imp_left fun hl => hl.imp_right List.mem_of_mem_tail)
  · refine Masked.returns (hmasked rfl fun l hl => ?_) hr
    rcases hl with hl | hl
    · exact hsaved l (.inl hl)
    · rcases List.mem_cons.1 hl with rfl | hl
      · exact hlevel
      · exact hsaved l (.inr hl)
  · refine Masked.returns (hmasked (Masked.leaveNewest ⟨hlevel, ‹_›⟩ ?_) fun l hl => ?_) hr
    · exact fun l hl => List.mem_append_right _ hl
    · exact hsaved l (hl.imp_right List.mem_of_mem_tail)
  · split at hr <;> cases hr
  · split at hr
    · cases hr
    · rename_i hperf
      exact Masked.returns (hmasked ((perform_acts hperf).level.trans hlevel) hsaved) hr

theorem currentThread_none {k : Kernel Activation} (h : k.registry.current = none) :
    k.currentThread = .error .noThreadRunning := by
  rw [Kernel.currentThread, h]

/-- An action never suspends. -/
theorem stepAction_fresh {b : Action} (hs : a.stage = .fresh) (hc : a.code = .act b :: rest)
    (hr : s.stepAction actor b rest a = .ok (.go a' s')) : a'.stage = .fresh := by
  have hreturns : ∀ {v : Value} {b : Activation} {s₁ : System}, b.code = a.code →
      s₁.returns actor v b = .ok (.go a' s') → a'.stage = .fresh := by
    intro v b s₁ hb hr
    obtain ⟨_, hgo⟩ := returns_eq (hb.trans hc) hr
    cases hgo
    rfl
  unfold System.stepAction at hr
  simp only at hr
  split at hr
  · cases hr
    exact hs
  · exact hreturns (b := { a with levels := s.kernel.level :: a.levels }) rfl hr
  · exact hreturns (b := { a with levels := a.levels.tail }) rfl hr
  · exact hreturns (b := { a with guards := s.kernel.level :: a.guards }) rfl hr
  · exact hreturns (b := { a with guards := a.guards.tail }) rfl hr
  · split at hr <;> cases hr
  · split at hr
    · cases hr
    · exact hreturns (b := a) rfl hr

/-- Where no thread runs, a program that goes on is not suspended. -/
theorem stepInstr_idle (hn : s.kernel.registry.current = none) (hs : a.stage = .fresh)
    (hc : a.code = i :: rest) (hr : s.stepInstr actor i rest a = .ok (.go a' s')) :
    a'.stage = .fresh ∧ (Masked a s → Masked a' s') := by
  have hcur := currentThread_none hn
  have hgoTo : ∀ {code : List Instr},
      (.ok (.go { a with code := code } s) : Except Fault Progress) = .ok (.go a' s') →
      a'.stage = .fresh ∧ (Masked a s → Masked a' s') := by
    rintro code ⟨⟩
    exact ⟨hs, fun h => ⟨h.level, h.saved⟩⟩
  cases i with
  | act b => exact ⟨stepAction_fresh hs hc hr, fun h => h.stepAction hr⟩
  | yield =>
    simp only [System.stepInstr, Kernel.yieldingThread, hcur] at hr
    cases hr
  | block =>
    obtain ⟨⟨t, ht, -⟩, -⟩ := blocks_eq (p := .proceed) hr
    cases hn.symm.trans ht
  | join target =>
    obtain ⟨_, t, -, ht, -⟩ := beginJoin_cases hr
    cases hn.symm.trans ht
  | acquire l =>
    obtain ⟨_, t, -, ht, -⟩ := beginAcquire_cases hr
    cases hn.symm.trans ht
  | sleep c =>
    obtain ⟨_, _, t, _, _, _, -, -, ht, -⟩ := beginSleep_cases hr
    cases hn.symm.trans ht
  | wait j ticks =>
    simp only [System.stepInstr, System.beginWait, hcur] at hr
    split at hr <;> cases hr
  | loop n body => cases n <;> exact hgoTo hr
  | whileEq v x body | whileNe v x body | whileSame v w body | ifEq v x body => exact hgoTo hr

theorem stepCode_idle (hn : s.kernel.registry.current = none)
    (hr : s.stepCode actor a = .ok (.go a' s')) :
    a'.stage = .fresh ∧ (Masked a s → Masked a' s') := by
  cases stepCode_ok hr with
  | begins code stage instr => exact stepInstr_idle hn stage code instr
  | resumes _ _ current => exact nomatch hn.symm.trans current

end System

namespace Machine

def Delivering (stack : List Frame) : Prop := stack.any Frame.delivers = true

/-- Frames above a delivery restore nothing but disabled interrupts. -/
def Shielded : List Frame → Prop
  | [] => True
  | f :: below => (Delivering below → ∀ l ∈ f.saved, l = .disabled) ∧ Shielded below

/-- Programs stand before an instruction, and interrupts are disabled during a delivery, except for
threads. -/
structure Leveled (m : Machine) : Prop where
  fresh : ∀ actor a, Frame.program actor a ∈ m.stack → a.stage = .fresh
  shielded : Shielded m.stack
  level : m.thread? = none → Delivering m.stack → m.system.kernel.level = .disabled

variable {s s' : System} {m m' : Machine} {below : List Frame} {f : Frame} {actor : Actor}
  {a : Activation} {k k' : Kernel Activation}

theorem delivering_cons (hf : f.delivers = false) :
    Delivering (f :: below) ↔ Delivering below := by
  rw [Delivering, List.any_cons, hf, Bool.false_or, Delivering]

/-- A frame is put on top of a stack, or replaces another one there. -/
theorem Leveled.push (hfresh : ∀ actor a, Frame.program actor a ∈ below → a.stage = .fresh)
    (hshielded : Shielded below) (hf : ∀ actor a, f = .program actor a → a.stage = .fresh)
    (hsaved : Delivering below → ∀ l ∈ f.saved, l = .disabled)
    (hlevel : Machine.thread? ⟨s, f :: below⟩ = none → Delivering (f :: below) →
      s.kernel.level = .disabled) : Leveled ⟨s, f :: below⟩ where
  fresh actor a hm := by
    rcases List.mem_cons.1 hm with h | hm
    · exact hf actor a h.symm
    · exact hfresh actor a hm
  shielded := ⟨hsaved, hshielded⟩
  level := hlevel

theorem Leveled.below_fresh (h : Leveled ⟨s, f :: below⟩) :
    ∀ actor a, Frame.program actor a ∈ below → a.stage = .fresh :=
  fun actor a hm => h.fresh actor a (List.mem_cons_of_mem _ hm)

/-- The frame on top is gone, and what it restored is in force. -/
theorem Leveled.pop (h : Leveled ⟨s, f :: below⟩)
    (hlevel : Delivering below → s'.kernel.level = .disabled) : Leveled ⟨s', below⟩ :=
  ⟨h.below_fresh, h.shielded.2, fun _ => hlevel⟩

/-! ## Programs and threads -/

theorem Leveled.masked (h : Leveled ⟨s, .program actor a :: below⟩) (hd : Delivering below) :
    System.Masked a s :=
  ⟨h.level rfl ((delivering_cons rfl).2 hd), h.shielded.1 hd⟩

theorem Leveled.stepProgram (h : Leveled ⟨s, .program actor a :: below⟩)
    (hn : s.kernel.registry.current = none) (hr : stepProgram actor a below s = .next m') :
    Leveled m' := by
  cases stepProgram_next hr with
  | goes code =>
    obtain ⟨hfresh, hmasked⟩ := System.stepCode_idle hn code
    refine .push h.below_fresh h.shielded.2 ?_ (fun hd => (hmasked (h.masked hd)).saved)
      fun _ hd => (hmasked (h.masked ((delivering_cons rfl).1 hd))).level
    rintro _ _ ⟨⟩
    exact hfresh
  | parks code =>
    obtain ⟨t, _, _, _, _, -, -, hcur, -⟩ := System.stepCode_park code
    exact nomatch hn.symm.trans hcur
  | calls code =>
    obtain ⟨rfl, rfl, -⟩ := System.stepCode_call code
    exact .push h.fresh h.shielded (by simp) (by simp [Frame.saved]) fun _ hd =>
      h.level rfl ((delivering_cons rfl).1 hd)
  | ends code =>
    obtain ⟨rfl, rfl, -⟩ := System.stepCode_done code
    refine h.pop fun hd => ?_
    obtain ⟨hlevel, hsaved⟩ := h.masked hd
    exact System.level_restoreAll hlevel fun l hl => hsaved l (List.mem_append_right _ hl)

theorem park_level {d : Kernel.Dispatched Activation} (h : k.park d = .ok k') :
    k'.level = d.loopLevel := by
  obtain ⟨_, -, -, rfl⟩ := Kernel.park_ok h
  rfl

theorem finish_level {d : Kernel.Dispatched Activation} (h : k.finish d = .ok k') :
    k'.level = d.loopLevel := by
  obtain ⟨_, -, rfl⟩ := finish_cases h
  rfl

theorem Leveled.stepThread {d : Kernel.Dispatched Activation}
    (h : Leveled ⟨s, .thread d :: below⟩) (hn : s.kernel.registry.current = some d.thread)
    (hr : stepThread d below s = .next m') : Leveled m' := by
  have hloop : Delivering below → d.loopLevel = .disabled := fun hd =>
    h.shielded.1 hd _ (List.mem_singleton.2 rfl)
  cases stepThread_next hr with
  | goes => exact .push h.below_fresh h.shielded.2 (by simp) h.shielded.1 (by simp [thread?])
  | parks _ park => exact h.pop fun hd => (park_level park).trans (hloop hd)
  | calls code =>
    obtain ⟨-, -, hcur, -⟩ := System.stepCode_call code
    cases hcur.symm.trans hn
  | ends _ finish => exact h.pop fun hd => (finish_level finish).trans (hloop hd)

/-! ## Interrupts and the run loop -/

theorem Leveled.stepTick (h : Leveled ⟨s, .loop .tick :: below⟩)
    (hr : stepTick below s = .next m') : Leveled m' := by
  have hchoose : ∀ {s'}, (Delivering below → s'.kernel.level = .disabled) →
      Leveled ⟨s', .loop .choose :: below⟩ := fun hl =>
    .push h.below_fresh h.shielded.2 (by simp) (by simp [Frame.saved])
      fun _ hd => hl ((delivering_cons rfl).1 hd)
  cases stepTick_next hr with
  | passes => exact hchoose fun hd => h.level rfl ((delivering_cons rfl).2 hd)
  | interrupts =>
    have hbelow : Leveled ⟨s, .loop .choose :: below⟩ :=
      hchoose fun hd => h.level rfl ((delivering_cons rfl).2 hd)
    refine .push hbelow.fresh hbelow.shielded (by simp) (fun hd l hl => ?_) fun _ _ => rfl
    rw [List.mem_singleton.1 hl]
    exact hbelow.level rfl hd

theorem Leveled.stepDelivery {previous : Level} {called waiting : List Handler}
    (h : Leveled ⟨s, .delivery previous called waiting :: below⟩)
    (hr : stepDelivery previous called waiting below s = .next m') : Leveled m' := by
  have hlevel : s.kernel.level = .disabled := h.level rfl rfl
  have hnext : ∀ {s' : System} {called' waiting' : List Handler}, s'.kernel.level = .disabled →
      Leveled ⟨s', .delivery previous called' waiting' :: below⟩ := fun hk =>
    .push h.below_fresh h.shielded.2 (by simp) h.shielded.1 fun _ _ => hk
  cases stepDelivery_next hr with
  | ends => exact h.pop fun hd => h.shielded.1 hd _ (List.mem_singleton.2 rfl)
  | skips | spent => exact hnext hlevel
  | rings _ release => exact hnext ((release_steady release).level.trans hlevel)
  | @runs left body waiting =>
    have hbelow : Leveled
        ⟨s, .delivery previous (called ++ [.routine left body]) waiting :: below⟩ :=
      hnext hlevel
    refine .push hbelow.fresh hbelow.shielded ?_ (by simp [Frame.saved, Activation.saved,
      Activation.start]) fun _ _ => hlevel
    rintro _ _ ⟨⟩
    rfl

theorem Leveled.returnFrom {v : Value} {phase : Phase} (h : Leveled ⟨s, .loop phase :: below⟩)
    (hr : returnFrom v below s = .next m') : Leveled m' := by
  cases returnFrom_next hr with
  | @completes actor a below =>
    have hprogram : Leveled ⟨s, .program actor a :: below⟩ :=
      h.pop fun hd => h.level rfl ((delivering_cons rfl).2 hd)
    have hmasked := fun hd => (hprogram.masked hd).complete actor v
    refine .push hprogram.below_fresh hprogram.shielded.2 ?_ (fun hd => (hmasked hd).saved)
      fun _ hd => (hmasked ((delivering_cons rfl).1 hd)).level
    rintro _ _ ⟨⟩
    unfold System.complete
    split
    · exact hprogram.fresh _ _ List.mem_cons_self
    · rfl
  | drops => exact h.pop fun hd => h.level rfl ((delivering_cons rfl).2 hd)

/-- The level of the loop is kept for the end of the dispatch. -/
theorem dispatch_loopLevel {t : ThreadId} {d : Kernel.Dispatched Activation}
    (h : k.dispatch t = .ok (some (d, k'))) : d.loopLevel = k.level := by
  obtain ⟨_, _, -, -, rfl, -⟩ := Kernel.dispatch_ok h
  rfl

theorem choose_level {o : Option ThreadId} (h : s.kernel.chooseThread = .ok (o, k)) :
    k.level = s.kernel.level := by
  obtain ⟨_, _, -, -, rfl⟩ := Kernel.chooseThread_cases h
  rfl

theorem Leveled.stepChoose (h : Leveled ⟨s, .loop .choose :: below⟩)
    (hr : stepChoose below s = .next m') : Leveled m' := by
  have hloop : ∀ {s' : System} {phase : Phase}, s'.kernel.level = s.kernel.level →
      Leveled ⟨s', .loop phase :: below⟩ := fun hk =>
    .push h.below_fresh h.shielded.2 (by simp) (by simp [Frame.saved]) fun _ hd =>
      hk.trans (h.level rfl ((delivering_cons rfl).2 ((delivering_cons rfl).1 hd)))
  cases stepChoose_next hr with
  | dispatches choose dispatch =>
    have htick : Leveled ⟨s, .loop .tick :: below⟩ := hloop rfl
    refine .push htick.fresh htick.shielded (by simp) (fun hdel l hl => ?_) (by simp [thread?])
    rw [List.mem_singleton.1 hl, dispatch_loopLevel dispatch, choose_level choose]
    exact htick.level rfl hdel
  | misses choose =>
    have hk := choose_level choose
    exact hloop hk
  | waits choose =>
    have hk := choose_level choose
    exact hloop hk
  | @returns k _ _ choose _ back =>
    have h' : Leveled ⟨s.withKernel k, .loop .choose :: below⟩ := hloop (choose_level choose)
    exact h'.returnFrom back

theorem Leveled.step (h : m.Leveled) (hreg : m.Regular) (hr : m.step = .next m') :
    m'.Leveled := by
  obtain ⟨s, stack⟩ := m
  have hcur := hreg.current
  unfold Machine.step at hr
  simp only at hr
  split at hr
  · cases hr
  · exact h.stepProgram hcur hr
  · exact h.stepThread hcur hr
  · exact h.stepTick hr
  · exact h.stepChoose hr
  · exact h.stepDelivery hr

theorem Leveled.reseed (h : m.Leveled) (g : Random) : (m.reseed g).Leveled :=
  ⟨h.fresh, h.shielded, h.level⟩

theorem start_leveled (k : Kernel Activation) (programs : List Program) (main : List Action) :
    (start k programs main).Leveled := by
  refine ⟨fun actor a hm => ?_, ⟨fun hd => (nomatch hd), trivial⟩, fun _ hd => (nomatch hd)⟩
  cases List.mem_singleton.1 hm
  rfl

end Machine
end ThreadKernel
