import ThreadKernel.Proofs.Machine.Deadlock
import ThreadKernel.Proofs.Machine.Handlers
import ThreadKernel.Proofs.Machine.Interrupts

/-!
# ThreadKernel.Proofs.Machine.Moves

The steps of a machine whose programs are plain and whose timers are alarms, one by one. Threads are
dispatched only to leave the yield point behind at which they were suspended.

* `Orderly.pollPoint_ready`  — a yield point that has suspended its thread lets it pass now.
* `Orderly.chosen_resumable` — so it is with each thread that is chosen.
* `Machine.Move`             — all that a step can be.
* `Flat.move`                — nothing else happens.
* `Move.calm`                — no handler comes to run a program unless a program registers it.
-/

namespace ThreadKernel

open Kernel (Placed)

/-- The thread that the loop chooses begins its program, or leaves its yield point behind. -/
theorem System.Orderly.chosen_resumable {s : System} {k : Kernel Activation} {t : ThreadId}
    (h : s.Orderly none)
    (hc : s.kernel.chooseThread = .ok (some t, k)) :
    ∃ slot, k.registry.get? t = some slot ∧ slot.Resumable := by
  unfold Kernel.chooseThread at hc
  split at hc
  · cases hc
  · rename_i k₁ hadm
    obtain ⟨hplaced, -⟩ := Machine.placed_admitted h hadm
    split at hc
    · cases hc
    · rename_i k₂ hnext
      cases hc
      obtain ⟨tb, htb, rfl⟩ := Kernel.nextThread_ok hnext
      obtain ⟨qs, hqs, ⟨hnone, -⟩ | ⟨r, hr, hmem, -⟩⟩ :=
        Table.nextThread_effect hplaced.1.sound htb
      · cases hnone
      · cases hr
        obtain ⟨slot, hslot, hres, -⟩ :=
          hplaced.resumable_of_ready (hplaced.1.sound.linked.waiting_of_mem hqs hmem)
        exact ⟨slot, hslot, hres⟩

namespace Machine

variable {m m' : Machine} {s : System} {k : Kernel Activation} {below : List Frame}

/-- The thread that runs passes the yield point that has suspended it, and no other one. -/
theorem Orderly.pollPoint_ready {d : Kernel.Dispatched Activation} {p p' : YieldPoint} {r : Resume}
    {ready : Bool} (h : Orderly ⟨s, .thread d :: below⟩)
    (hs : d.task.coroutine.stage = .suspended p r)
    (hp : s.kernel.pollPoint d.thread p = (ready, p', k)) : ready = p.yielded := by
  generalize hm : (⟨s, .thread d :: below⟩ : Machine) = m at h
  cases h with
  | idle _ frames =>
    cases hm
    have hthread := frames _ List.mem_cons_self
    cases hthread
  | running system takes =>
    cases hm
    obtain ⟨slot, hslot, -, -, hwoken⟩ := system.placed.2.slot
    simp only [Kernel.pollPoint, hslot] at hp
    obtain ⟨rfl, -⟩ := Prod.mk.inj hp
    cases takes with
    | fresh stage =>
      rw [hs] at stage
      cases stage
    | yielding stage | blocking stage =>
      rw [hs] at stage
      cases stage
      rfl
    | passing stage yielded =>
      rw [hs] at stage
      cases stage
      rw [YieldPoint.poll, yielded, hwoken rfl]
      rfl

/-- One step. -/
inductive Move (m m' : Machine) : Prop where
  /-- The main program goes on, -/
  | works {a a' : Activation} (stack : m.stack = [.program .main a])
      (code : m.system.stepCode .main a = .ok (.go a' m'.system))
      (after : m'.stack = [.program .main a'])
  /-- or runs the kernel. -/
  | calls {a : Activation} (stack : m.stack = [.program .main a]) (same : m'.system = m.system)
      (after : m'.stack = [.loop .tick, .program .main a])
  | executes {d : Kernel.Dispatched Activation} {a' : Activation} {below : List Frame}
      (stack : m.stack = .thread d :: below)
      (code : m.system.stepCode (.thread d.thread) d.task.coroutine = .ok (.go a' m'.system))
      (after : m'.stack = .thread (holding d a') :: below)
  /-- The thread suspends at a yield point that has not suspended it before. -/
  | parks {d : Kernel.Dispatched Activation} {p p' : YieldPoint} {r : Resume}
      {k k' : Kernel Activation} {below : List Frame}
      (stack : m.stack = .thread d :: .loop .tick :: below)
      (code : d.task.coroutine.code ≠ []) (stage : d.task.coroutine.stage = .suspended p r)
      (new : p.yielded = false)
      (poll : m.system.kernel.pollPoint d.thread p = (false, p', k))
      (park : k.park (holding d { d.task.coroutine with stage := .suspended p' r }) = .ok k')
      (system : m'.system = m.system.withKernel k'.charge)
      (after : m'.stack = .loop .tick :: below)
  | retires {d : Kernel.Dispatched Activation} {k : Kernel Activation} {below : List Frame}
      (stack : m.stack = .thread d :: .loop .tick :: below) (code : d.task.coroutine.code = [])
      (finish : (m.system.kernel.restoreAll d.task.coroutine.guards).finish d = .ok k)
      (system : m'.system = m.system.withKernel k.charge)
      (after : m'.stack = .loop .tick :: below)
  /-- No interrupt is due. -/
  | passes {below : List Frame} (stack : m.stack = .loop .tick :: below) (early : m.system.Early)
      (same : m'.system = m.system) (after : m'.stack = .loop .choose :: below)
  | interrupts {clock : Clock} {below : List Frame} (stack : m.stack = .loop .tick :: below)
      (taken : m.system.kernel.clock.takeTick? = some clock)
      (system : m'.system = { m.system with
        kernel := { m.system.kernel.enter with clock := clock }, handlers := [] })
      (after : m'.stack =
        .delivery m.system.kernel.level [] m.system.handlers :: .loop .choose :: below)
  | skipsAlarm {previous : Level} {called waiting : List Handler} {i : Nat} {below : List Frame}
      (stack : m.stack = .delivery previous called (.alarm i :: waiting) :: below)
      (unnamed : m.system.alarms[i]? = none) (same : m'.system = m.system)
      (after : m'.stack = .delivery previous (called ++ [.alarm i]) waiting :: below)
  | rings {previous : Level} {called waiting : List Handler} {i : Nat} {alarm alarm' : Alarm}
      {k : Kernel Activation} {below : List Frame}
      (stack : m.stack = .delivery previous called (.alarm i :: waiting) :: below)
      (named : m.system.alarms[i]? = some alarm)
      (release : alarm.release m.system.kernel = .ok (alarm', k))
      (system : m'.system =
        { m.system with kernel := k, alarms := m.system.alarms.set i alarm' })
      (after : m'.stack = .delivery previous (called ++ [.alarm i]) waiting :: below)
  | delivered {previous : Level} {called : List Handler} {below : List Frame}
      (stack : m.stack = .delivery previous called [] :: .loop .choose :: below)
      (system : m'.system = { m.system with
        kernel := m.system.kernel.restore previous, handlers := called ++ m.system.handlers })
      (after : m'.stack = .loop .choose :: below)
  /-- The thread that was chosen begins, or has a wake pending at the yield point that suspended
  it. -/
  | dispatches {t : ThreadId} {k k' : Kernel Activation} {d : Kernel.Dispatched Activation}
      {below : List Frame} (stack : m.stack = .loop .choose :: below)
      (choose : m.system.kernel.chooseThread = .ok (some t, k))
      (dispatch : k.dispatch t = .ok (some (d, k')))
      (ready : d.task.coroutine.stage = .fresh ∨
        ∃ p r, d.task.coroutine.stage = .suspended p r ∧ p.yielded = true)
      (system : m'.system = m.system.withKernel k')
      (after : m'.stack = .thread d :: .loop .tick :: below)
  /-- Nobody is ready, and the loop waits for the next interrupt. -/
  | waits {k : Kernel Activation} {below : List Frame} (stack : m.stack = .loop .choose :: below)
      (choose : m.system.kernel.chooseThread = .ok (none, k))
      (pending : m.system.hasPendingTimers = true)
      (system : m'.system = m.system.withKernel { k with clock := k.clock.fastForward })
      (after : m'.stack = .loop .tick :: below)
  | returns {k : Kernel Activation} {v : Value} {a : Activation} {rest : List Instr} {level : Level}
      {events : List Event}
      (stack : m.stack = [.loop .choose, .program .main a])
      (choose : m.system.kernel.chooseThread = .ok (none, k)) (code : a.code = .act .run :: rest)
      (returns : Returns .main v m m')
      (system : m'.system = { m.system with kernel := k.restore level, events := events })
      (after : m'.stack =
        [.program .main { a with code := rest, stage := .fresh, regions := [] }])

/-! ## Every step -/

theorem move_program {a : Activation} (hn : s.kernel.registry.current = none)
    (hs : Machine.step ⟨s, [.program .main a]⟩ = .next m') : Move ⟨s, [.program .main a]⟩ m' := by
  cases stepProgram_next hs with
  | goes code => exact .works rfl code rfl
  | parks code =>
    obtain ⟨t, _, _, _, _, -, -, hcurrent, -⟩ := System.stepCode_park code
    rw [hn] at hcurrent
    cases hcurrent
  | calls code =>
    obtain ⟨rfl, rfl, -, -⟩ := System.stepCode_call code
    exact .calls rfl rfl rfl

theorem move_thread {d : Kernel.Dispatched Activation}
    (h : Orderly ⟨s, .thread d :: .loop .tick :: below⟩)
    (hturn : Turn ⟨s, .thread d :: .loop .tick :: below⟩ m') :
    Move ⟨s, .thread d :: .loop .tick :: below⟩ m' := by
  have hbusy : ∀ {P : Prop}, Idle (.thread d :: .loop .tick :: below) → P := fun hi =>
    absurd List.mem_cons_self (hi d)
  cases hturn with
  | program stack => cases stack
  | thread stack code after =>
    cases stack
    exact .executes rfl code after
  | parks stack code park system after =>
    cases stack
    obtain ⟨t, p, r, p', k, hne, hstage, hcurrent, hpoll, rfl, rfl⟩ := System.stepCode_park code
    have hthread : t = d.thread := by
      cases h with
      | idle _ frames =>
        have hplain := frames _ List.mem_cons_self
        cases hplain
      | running hs => exact Option.some.inj (hcurrent.symm.trans hs.placed.2.current)
    subst hthread
    exact .parks rfl hne hstage (h.pollPoint_ready hstage hpoll).symm hpoll park system after
  | retires stack code finish system after =>
    cases stack
    exact .retires rfl code finish system after
  | alarm idle | chooses idle | dispatches idle | quiet idle => exact hbusy idle

theorem move_tick (hs : Machine.step ⟨s, .loop .tick :: below⟩ = .next m') :
    Move ⟨s, .loop .tick :: below⟩ m' := by
  cases stepTick_next hs with
  | passes early => exact .passes rfl (Clock.takeTick_none early) rfl rfl
  | interrupts taken => exact .interrupts rfl taken rfl rfl

theorem move_delivery {previous : Level} {called waiting : List Handler}
    (hb : ¬ Bears ⟨s, .delivery previous called waiting :: .loop .choose :: below⟩)
    (hs : Machine.step ⟨s, .delivery previous called waiting :: .loop .choose :: below⟩ =
      .next m') :
    Move ⟨s, .delivery previous called waiting :: .loop .choose :: below⟩ m' := by
  have hroutine : ∀ {n body rest}, waiting = .routine n body :: rest → False := by
    rintro n body rest rfl
    refine hb ⟨n, body, List.mem_append_right _ ?_⟩
    exact List.mem_flatMap.2 ⟨_, List.mem_cons_self, List.mem_append_right _ List.mem_cons_self⟩
  cases stepDelivery_next hs with
  | ends => exact .delivered rfl rfl rfl
  | skips missing => exact .skipsAlarm rfl missing rfl rfl
  | rings named release => exact .rings rfl named release rfl rfl
  | spent | runs => exact (hroutine rfl).elim

theorem move_choose {a : Activation} {rest : List Instr} (h : s.Orderly none)
    (hc : a.code = .act .run :: rest)
    (hs : Machine.step ⟨s, [.loop .choose, .program .main a]⟩ = .next m') :
    Move ⟨s, [.loop .choose, .program .main a]⟩ m' := by
  cases stepChoose_next hs with
  | @dispatches t k k' d choose dispatch =>
    refine .dispatches rfl choose dispatch ?_ rfl rfl
    obtain ⟨slot, hslot, task, htask, -, hready⟩ := h.chosen_resumable choose
    obtain ⟨-, -, -, -, -, slot', hslot', htask', -⟩ := dispatch_get? dispatch
    cases hslot.symm.trans hslot'
    cases htask.symm.trans htask'
    rcases hready with hfresh | ⟨p, r, hstage, hyielded, -⟩
    · exact .inl hfresh
    · exact .inr ⟨p, r, hstage, hyielded⟩
  | @misses t k choose dispatch =>
    obtain ⟨slot, hslot, task, htask, -⟩ := h.chosen_resumable choose
    simp only [Kernel.dispatch, hslot, htask] at dispatch
    cases dispatch
  | waits choose _ pending => exact .waits rfl choose pending rfl rfl
  | @returns k v m' choose _ back =>
    obtain ⟨level, hspec⟩ := returnFrom_spec (s.withKernel k) .main v [] hc
    rw [hspec] at back
    cases back
    exact .returns rfl choose hc ⟨⟨a, [], rfl⟩, hs, ⟨_, _, rfl⟩, _, rfl⟩ rfl rfl

/-- A machine whose programs are plain and whose timers are alarms makes no other step. -/
theorem Flat.move (h : m.Flat) (hr : m.Regular) (ho : m.Orderly) (hb : ¬ m.Bears)
    (hs : m.step = .next m') : Move m m' := by
  cases h with
  | program => exact move_program hr.current hs
  | @loop s a rest phase _ code =>
    cases phase with
    | tick => exact move_tick hs
    | choose => exact move_choose (ho.boundary rfl) code hs
  | thread => exact move_thread ho (hr.turn hs)
  | delivery => exact move_delivery hb hs

/-! ## Handlers -/

/-- All handlers that a machine comes to have call alarms. -/
theorem not_bears_of_calls (h : ¬ m.Bears)
    (hs : ∀ x ∈ m'.handlers, x ∈ m.handlers ∨ ∃ i, x = Handler.alarm i) : ¬ m'.Bears := by
  rintro ⟨n, body, hx⟩
  rcases hs _ hx with hx | ⟨i, hi⟩
  · exact h ⟨n, body, hx⟩
  · cases hi

/-- A timer runs a program only if a program registers it. -/
theorem Move.calm (h : Move m m') (hb : ¬ m.Bears)
    (ht : ∀ a, m.executing? = some a → ∀ n body, ¬ a.Begins (.act (.timer n body))) :
    ¬ m'.Bears := by
  have hcode : ∀ {actor a a' f f'}, m.executing? = some a →
      m.system.stepCode actor a = .ok (.go a' m'.system) → m.stack = f → m'.stack = f' →
      f'.flatMap Frame.handlers = f.flatMap Frame.handlers → ¬ m'.Bears := by
    intro actor a a' f f' ha hcode hf hf' heq
    refine not_bears_of_calls hb fun x hx => ?_
    rw [handlers, hf', heq] at hx
    rw [handlers, hf]
    rcases List.mem_append.1 hx with hx | hx
    · exact (System.stepCode_calls (ht a ha) hcode x hx).imp_left (List.mem_append_left _)
    · exact .inl (List.mem_append_right _ hx)
  have hsame : m'.handlers ⊆ m.handlers → ¬ m'.Bears := fun hsub =>
    not_bears_of_calls hb fun x hx => .inl (hsub hx)
  cases h with
  | works stack code after => exact hcode (by rw [executing?, stack]) code stack after rfl
  | executes stack code after => exact hcode (by rw [executing?, stack]) code stack after rfl
  | calls stack same after =>
    refine hsame ?_
    rw [handlers, handlers, same, stack, after]
    exact List.Subset.refl _
  | parks stack _ _ _ _ _ system after | retires stack _ _ system after =>
    refine hsame ?_
    rw [handlers, handlers, system, stack, after]
    exact List.Subset.refl _
  | passes stack _ same after =>
    refine hsame ?_
    rw [handlers, handlers, same, stack, after]
    exact List.Subset.refl _
  | interrupts stack _ system after =>
    refine hsame fun x hx => ?_
    rw [handlers, system, after] at hx
    rw [handlers, stack]
    exact hx
  | skipsAlarm stack _ same after =>
    refine hsame fun x hx => ?_
    rw [handlers, same, after] at hx
    rw [handlers, stack]
    simpa [Frame.handlers] using hx
  | rings stack _ _ system after =>
    refine hsame fun x hx => ?_
    rw [handlers, system, after] at hx
    rw [handlers, stack]
    simpa [Frame.handlers] using hx
  | delivered stack system after =>
    refine hsame fun x hx => ?_
    rw [handlers, system, after] at hx
    rw [handlers, stack]
    simp only [List.append_assoc, List.mem_append, List.flatMap_cons, Frame.handlers,
      List.append_nil] at hx ⊢
    tauto
  | dispatches stack _ _ _ system after | waits stack _ _ system after
  | returns stack _ _ _ system after =>
    refine hsame ?_
    rw [handlers, handlers, system, stack, after]
    exact List.Subset.refl _

end Machine
end ThreadKernel
