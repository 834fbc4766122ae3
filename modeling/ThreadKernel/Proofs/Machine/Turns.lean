import ThreadKernel.Proofs.Machine.Progress

/-!
# ThreadKernel.Proofs.Machine.Turns

The steps of a machine, told apart by what they may change. Nothing is assumed of the programs.

* `Machine.thread?`     — the thread that the machine executes.
* `Machine.activation?` — the program that a thread is executing, whether it runs or not.
* `Machine.Regular`     — a thread runs only on top of the stack.
* `Machine.Turn`        — one step of a regular machine.
* `Turn.activation?`    — where a thread's program comes from.
-/

namespace ThreadKernel

open Kernel (Steady)
open ThreadKernel.System (Same)

namespace Kernel

/-- The program of a thread that does not run. -/
def pending? (k : Kernel Activation) (t : ThreadId) : Option Activation :=
  (k.registry.get? t).bind fun slot => slot.task.map ThreadTask.coroutine

/-- No task has changed, and new ones have not begun. -/
def Tasks (k k' : Kernel Activation) : Prop :=
  ∀ t a, k'.pending? t = some a → a.stage = .fresh ∨ k.pending? t = some a

variable {k k' k'' : Kernel Activation}

theorem Tasks.of_eq (h : k'.registry = k.registry) : Tasks k k' := fun t a ha => by
  rw [pending?, h] at ha
  exact .inr ha

theorem Tasks.trans (h : Tasks k k') (h' : Tasks k' k'') : Tasks k k'' := fun t a ha =>
  (h' t a ha).elim .inl (h t a)

theorem Steady.tasks (h : Steady k k') : Tasks k k' := by
  intro t a ha
  obtain ⟨slot', hslot', ha⟩ := Option.bind_eq_some_iff.1 ha
  obtain ⟨task, htask, rfl⟩ := Option.map_eq_some_iff.1 ha
  cases hslot : k.registry.get? t with
  | some slot =>
    obtain ⟨signal, hs⟩ := h.slot hslot
    rw [hslot'] at hs
    cases hs
    refine .inr ?_
    rw [pending?, hslot]
    exact Option.map_eq_some_iff.2 ⟨task, htask, rfl⟩
  | none =>
    obtain ⟨name, code, hs⟩ := h.added hslot' hslot
    rw [hs] at htask
    cases htask
    exact .inl rfl

/-- A slot is replaced by one with the same waker and wake signal. -/
theorem Sane.replace {t : ThreadId} {slot slot' : Slot Activation} (h : k.Sane)
    (ht : k'.table = k.table) (hs : k.registry.get? t = some slot)
    (hget : ∀ u, k'.registry.get? u = if t = u then some slot' else k.registry.get? u)
    (hw : slot'.waker = slot.waker) (hsig : slot'.signal = slot.signal) : k'.Sane := by
  have hback : ∀ {u x}, k'.registry.get? u = some x →
      ∃ y, k.registry.get? u = some y ∧ x.waker = y.waker ∧ x.signal = y.signal := by
    intro u x hx
    rw [hget] at hx
    split at hx
    · rename_i htu
      cases hx
      exact ⟨slot, htu ▸ hs, hw, hsig⟩
    · exact ⟨x, hx, rfl, rfl⟩
  refine ⟨ht ▸ h.sound, fun {u x} hx => ?_, fun {u x w} hx hxw => ?_⟩
  · obtain ⟨y, hy, hwy, -⟩ := hback hx
    exact hwy.trans (h.waker hy)
  · obtain ⟨y, hy, -, hsy⟩ := hback hx
    exact h.signal hy (hsy ▸ hxw)

end Kernel

namespace Machine

/-- The thread that the machine executes. -/
def thread? (m : Machine) : Option ThreadId :=
  match m.stack with
  | .thread d :: _ => some d.thread
  | _ => none

/-- The program that a thread executes, if it is alive. -/
def activation? (m : Machine) (t : ThreadId) : Option Activation :=
  match m.stack with
  | .thread d :: _ => if d.thread = t then some d.task.coroutine else m.system.kernel.pending? t
  | _ => m.system.kernel.pending? t

/-- None of the frames executes a thread. -/
def Idle (stack : List Frame) : Prop := ∀ d, Frame.thread d ∉ stack

structure Regular (m : Machine) : Prop where
  sane : m.system.kernel.Sane
  current : m.system.kernel.registry.current = m.thread?
  below : Idle m.stack.tail

variable {m m' : Machine} {s s' : System} {below : List Frame}

theorem thread?_of_idle (h : Idle m.stack) : m.thread? = none := by
  unfold thread?
  split
  · rename_i d _ hm
    exact absurd (hm ▸ List.mem_cons_self) (h d)
  · rfl

theorem idle_cons {f : Frame} (h : Idle below) (hf : ∀ d, f ≠ .thread d) : Idle (f :: below) :=
  fun d hm => (List.mem_cons.1 hm).elim (fun e => hf d e.symm) (h d)

theorem activation?_of_none (h : m.thread? = none) :
    m.activation? = m.system.kernel.pending? := by
  funext t
  unfold activation?
  split
  · rename_i d below hm
    rw [thread?, hm] at h
    cases h
  · rfl

theorem activation?_self {d : Kernel.Dispatched Activation} (h : m.stack = .thread d :: below) :
    m.activation? d.thread = some d.task.coroutine := by
  rw [activation?, h]
  exact if_pos rfl

/-- One step. Only programs change locks and conditions. -/
inductive Turn (m m' : Machine) : Prop where
  /-- The main program or a timer handler goes on. -/
  | program {actor : Actor} {a a' : Activation} {below : List Frame}
      (stack : m.stack = .program actor a :: below)
      (code : m.system.stepCode actor a = .ok (.go a' m'.system))
      (after : m'.stack = .program actor a' :: below)
  | thread {d : Kernel.Dispatched Activation} {a' : Activation} {below : List Frame}
      (stack : m.stack = .thread d :: below)
      (code : m.system.stepCode (.thread d.thread) d.task.coroutine = .ok (.go a' m'.system))
      (after : m'.stack = .thread (holding d a') :: below)
  | parks {d : Kernel.Dispatched Activation} {a' : Activation} {s : System}
      {k : Kernel Activation} {below : List Frame} (stack : m.stack = .thread d :: below)
      (code : m.system.stepCode (.thread d.thread) d.task.coroutine = .ok (.park a' s))
      (park : s.kernel.park (holding d a') = .ok k) (system : m'.system = s.withKernel k.charge)
      (after : m'.stack = below)
  | retires {d : Kernel.Dispatched Activation} {k : Kernel Activation} {below : List Frame}
      (stack : m.stack = .thread d :: below) (code : d.task.coroutine.code = [])
      (finish : (m.system.kernel.restoreAll d.task.coroutine.guards).finish d = .ok k)
      (system : m'.system = m.system.withKernel k.charge) (after : m'.stack = below)
  | alarm {i : Nat} {alarm alarm' : Alarm} {k : Kernel Activation} (idle : Idle m.stack)
      (idle' : Idle m'.stack) (release : alarm.release m.system.kernel = .ok (alarm', k))
      (same : Same (m.system.withKernel k) m'.system)
      (events : m'.system.events = m.system.events)
      (calls : ∃ previous called waiting below,
        m.stack = .delivery previous called (.alarm i :: waiting) :: below)
      (named : m.system.alarms[i]? = some alarm)
  /-- The run loop chooses a thread, which is not alive, or nobody. -/
  | chooses {served : Option ThreadId} {k : Kernel Activation} (idle : Idle m.stack)
      (idle' : Idle m'.stack) (choose : m.system.kernel.chooseThread = .ok (served, k))
      (same : Same (m.system.withKernel k) m'.system)
  | dispatches {t : ThreadId} {k k' : Kernel Activation} {d : Kernel.Dispatched Activation}
      {below : List Frame} (idle : Idle m.stack)
      (choose : m.system.kernel.chooseThread = .ok (some t, k))
      (dispatch : k.dispatch t = .ok (some (d, k'))) (system : m'.system = m.system.withKernel k')
      (idle' : Idle below) (after : m'.stack = .thread d :: below)
  | quiet (idle : Idle m.stack) (idle' : Idle m'.stack) (same : Same m.system m'.system)

theorem returnFrom_same {v : Value} (hb : Idle below) (h : returnFrom v below s = .next m') :
    Same s m'.system ∧ Idle m'.stack := by
  cases returnFrom_next h with
  | @completes actor a below =>
    exact ⟨System.complete_same actor v a s,
      idle_cons (fun d hd => hb d (List.mem_cons_of_mem _ hd)) (by simp)⟩
  | drops => exact ⟨.refl s, hb⟩

theorem turn_program {actor : Actor} {a : Activation} (h : Regular ⟨s, .program actor a :: below⟩)
    (hs : stepProgram actor a below s = .next m') : Turn ⟨s, .program actor a :: below⟩ m' := by
  have hidle : Idle (.program actor a :: below) := idle_cons h.below (by simp)
  cases stepProgram_next hs with
  | goes code => exact .program rfl code rfl
  | parks code =>
    obtain ⟨t, _, _, _, _, -, -, hcur, -⟩ := System.stepCode_park code
    have hnone := h.current
    rw [hcur] at hnone
    cases hnone
  | calls code =>
    obtain ⟨rfl, rfl, -⟩ := System.stepCode_call code
    exact .quiet hidle (idle_cons hidle (by simp)) (.refl _)
  | ends code =>
    obtain ⟨rfl, rfl, -⟩ := System.stepCode_done code
    refine .quiet hidle h.below ?_
    simp only [System.restoreAll_eq]
    exact ⟨rfl, rfl, rfl, rfl, rfl⟩

theorem turn_thread {d : Kernel.Dispatched Activation} (h : Regular ⟨s, .thread d :: below⟩)
    (hs : stepThread d below s = .next m') : Turn ⟨s, .thread d :: below⟩ m' := by
  cases stepThread_next hs with
  | goes code => exact .thread rfl code rfl
  | parks code park => exact .parks rfl code park rfl rfl
  | calls code =>
    obtain ⟨-, -, hcur, -⟩ := System.stepCode_call code
    have hsome := h.current
    rw [hcur] at hsome
    cases hsome
  | ends code finish =>
    obtain ⟨rfl, rfl, hnil⟩ := System.stepCode_done code
    exact .retires rfl hnil finish rfl rfl

theorem turn_tick (h : Regular ⟨s, .loop .tick :: below⟩) (hs : stepTick below s = .next m') :
    Turn ⟨s, .loop .tick :: below⟩ m' := by
  have hidle : Idle (.loop .tick :: below) := idle_cons h.below (by simp)
  have hchoose : Idle (.loop .choose :: below) := idle_cons h.below (by simp)
  cases stepTick_next hs with
  | passes => exact .quiet hidle hchoose (.refl _)
  | interrupts => exact .quiet hidle (idle_cons hchoose (by simp)) ⟨rfl, rfl, rfl, rfl, rfl⟩

theorem turn_delivery {previous : Level} {called waiting : List Handler}
    (h : Regular ⟨s, .delivery previous called waiting :: below⟩)
    (hs : stepDelivery previous called waiting below s = .next m') :
    Turn ⟨s, .delivery previous called waiting :: below⟩ m' := by
  have hidle : ∀ {called waiting}, Idle (.delivery previous called waiting :: below) :=
    idle_cons h.below (by simp)
  cases stepDelivery_next hs with
  | ends => exact .quiet hidle h.below ⟨rfl, rfl, rfl, rfl, rfl⟩
  | skips => exact .quiet hidle hidle (.refl _)
  | rings named release =>
    exact .alarm hidle hidle release ⟨rfl, rfl, rfl, rfl, rfl⟩ rfl ⟨_, _, _, _, rfl⟩ named
  | spent => exact .quiet hidle hidle (.refl _)
  | runs => exact .quiet hidle (idle_cons hidle (by simp)) (.refl _)

theorem turn_choose (h : Regular ⟨s, .loop .choose :: below⟩)
    (hs : stepChoose below s = .next m') : Turn ⟨s, .loop .choose :: below⟩ m' := by
  have hidle : ∀ {phase}, Idle (.loop phase :: below) := idle_cons h.below (by simp)
  cases stepChoose_next hs with
  | dispatches choose dispatch => exact .dispatches hidle choose dispatch rfl hidle rfl
  | misses choose => exact .chooses hidle hidle choose ⟨rfl, rfl, rfl, rfl, rfl⟩
  | waits choose => exact .chooses hidle hidle choose ⟨rfl, rfl, rfl, rfl, rfl⟩
  | returns choose verdict back =>
    obtain ⟨hsame, hi⟩ := returnFrom_same h.below back
    exact .chooses hidle hi choose hsame

theorem Regular.turn (h : m.Regular) (hs : m.step = .next m') : Turn m m' := by
  obtain ⟨s, stack⟩ := m
  unfold Machine.step at hs
  simp only at hs
  split at hs
  · cases hs
  · exact turn_program h hs
  · exact turn_thread h hs
  · exact turn_tick h hs
  · exact turn_choose h hs
  · exact turn_delivery h hs

/-! ## What every step keeps -/

/-- The kernel in which a thread leaves the processor. -/
theorem park_get? {d : Kernel.Dispatched Activation} {k k' : Kernel Activation}
    (h : k.park d = .ok k') :
    k'.table = k.table ∧ k'.registry.current = none ∧ k'.registry.channel = k.registry.channel ∧
      ∃ slot, k.registry.get? d.thread = some slot ∧ ∀ t, k'.registry.get? t =
        if d.thread = t then some { slot with level := k.level, task := some d.task }
        else k.registry.get? t := by
  obtain ⟨slot, hslot, -, rfl⟩ := Kernel.park_ok h
  exact ⟨rfl, rfl, rfl, slot, hslot, fun t => Registry.get?_setSlot _ _ t _⟩

theorem park_sane {d : Kernel.Dispatched Activation} {k k' : Kernel Activation} (hk : k.Sane)
    (h : k.park d = .ok k') : k'.Sane := by
  obtain ⟨htable, -, -, slot, hslot, hget⟩ := park_get? h
  exact hk.replace htable hslot hget rfl rfl

theorem dispatch_get? {t : ThreadId} {d : Kernel.Dispatched Activation} {k k' : Kernel Activation}
    (h : k.dispatch t = .ok (some (d, k'))) :
    d.thread = t ∧ k'.table = k.table ∧ k'.readyQueue = k.readyQueue ∧
      k'.registry.current = some t ∧ k'.registry.channel = k.registry.channel ∧
      ∃ slot, k.registry.get? t = some slot ∧ slot.task = some d.task ∧
        ∀ u, k'.registry.get? u = if t = u then some { slot with task := none }
          else k.registry.get? u := by
  obtain ⟨slot, task, hslot, htask, rfl, rfl⟩ := Kernel.dispatch_ok h
  exact ⟨rfl, rfl, rfl, rfl, rfl, slot, hslot, htask, fun u => Registry.get?_setSlot _ _ u _⟩

theorem dispatch_sane {t : ThreadId} {d : Kernel.Dispatched Activation} {k k' : Kernel Activation}
    (hk : k.Sane) (h : k.dispatch t = .ok (some (d, k'))) : k'.Sane := by
  obtain ⟨-, htable, -, -, -, slot, hslot, -, hget⟩ := dispatch_get? h
  exact hk.replace htable hslot hget rfl rfl

theorem finish_cases {d : Kernel.Dispatched Activation} {k k' : Kernel Activation}
    (h : k.finish d = .ok k') :
    ∃ k₁, Steady (k.backToLoop d).enter k₁ ∧ k' = Kernel.restore d.loopLevel
      { k₁ with registry := { k₁.registry with slots := k₁.registry.slots.erase d.thread } } :=
  Kernel.retire_cases h

theorem erase_sane (t : ThreadId) (level : Level) {k : Kernel Activation} (hk : k.Sane) :
    (Kernel.restore level { k with
      registry := { k.registry with slots := k.registry.slots.erase t } }).Sane := by
  have hget : ∀ {u slot}, (k.registry.slots.erase t).get? u = some slot →
      k.registry.get? u = some slot := by
    intro u slot hu
    rw [Directory.get?_erase] at hu
    split at hu
    · cases hu
    · exact hu
  exact ⟨hk.sound, fun hx => hk.waker (hget hx), fun hx hw => hk.signal (hget hx) hw⟩

theorem Regular.of_same {k : Kernel Activation} (hk : k.Sane) (hc : k.registry.current = none)
    (hs : Same (s.withKernel k) m'.system) (hi : Idle m'.stack) : m'.Regular := by
  have hreg : m'.system.kernel.registry = k.registry := hs.registry
  have htable : m'.system.kernel.table = k.table := hs.table
  refine ⟨⟨htable ▸ hk.sound, hreg ▸ hk.waker, hreg ▸ hk.signal⟩, ?_, fun d hd =>
    hi d (List.mem_of_mem_tail hd)⟩
  rw [hreg, hc, thread?_of_idle hi]

theorem choose_steady {served : Option ThreadId} {k k' : Kernel Activation}
    (h : k.chooseThread = .ok (served, k')) : Steady k.enter k'.enter := by
  obtain ⟨k₁, k₂, h₁, h₂, rfl⟩ := Kernel.chooseThread_cases h
  exact ((Kernel.admitWoken_steady h₁).trans (Kernel.nextThread_steady h₂)).entered

theorem release_steady {alarm alarm' : Alarm} {k k' : Kernel Activation}
    (h : alarm.release k = .ok (alarm', k')) : Steady k k' :=
  Kernel.wakeEach_steady _ (Alarm.release_ok h).1

theorem sane_of_enter {k : Kernel Activation} (h : k.enter.Sane) : k.Sane :=
  ⟨h.sound, h.waker, h.signal⟩

theorem stepCode_sane {actor : Actor} {a : Activation} {r : Progress} (hk : s.kernel.Sane)
    (h : s.stepCode actor a = .ok r) : r.system.kernel.Sane :=
  sane_of_enter ((System.stepCode_grows h).kernel.sane hk.entered)

theorem Regular.next (h : m.Regular) (ht : Turn m m') : m'.Regular := by
  have hcur : Idle m.stack → m.system.kernel.registry.current = none := fun hi => by
    rw [h.current, thread?_of_idle hi]
  cases ht with
  | program stack code after =>
    have hg := System.stepCode_grows code
    refine ⟨stepCode_sane h.sane code, ?_, ?_⟩
    · rw [show m'.system.kernel.registry.current = _ from hg.kernel.current,
        show m.system.kernel.enter.registry.current = _ from h.current, thread?, thread?, stack,
        after]
    · rw [after]
      simpa [stack] using h.below
  | thread stack code after =>
    have hg := System.stepCode_grows code
    refine ⟨stepCode_sane h.sane code, ?_, ?_⟩
    · rw [show m'.system.kernel.registry.current = _ from hg.kernel.current,
        show m.system.kernel.enter.registry.current = _ from h.current, thread?, thread?, stack,
        after]
      rfl
    · rw [after]
      simpa [stack] using h.below
  | parks stack code park system after =>
    obtain ⟨-, hnone, -⟩ := park_get? park
    have hbelow : Idle m'.stack := by simpa [stack, after] using h.below
    have hk := park_sane (stepCode_sane h.sane code) park
    refine ⟨?_, ?_, fun d hd => hbelow d (List.mem_of_mem_tail hd)⟩
    · rw [system]
      exact ⟨hk.sound, hk.waker, hk.signal⟩
    · rw [thread?_of_idle hbelow, system]
      exact hnone
  | @retires d k below stack code finish system after =>
    obtain ⟨k₁, hsteady, rfl⟩ := finish_cases finish
    have hbelow : Idle m'.stack := by simpa [stack, after] using h.below
    rw [System.restoreAll_eq] at hsteady
    have hk₁ := hsteady.sane ⟨h.sane.sound, h.sane.waker, h.sane.signal⟩
    have hk := erase_sane d.thread d.loopLevel hk₁
    refine ⟨?_, ?_, fun d hd => hbelow d (List.mem_of_mem_tail hd)⟩
    · rw [system]
      exact ⟨hk.sound, hk.waker, hk.signal⟩
    · rw [thread?_of_idle hbelow, system]
      exact hsteady.current
  | alarm idle idle' release same events =>
    have hsteady := release_steady release
    exact .of_same (hsteady.sane h.sane) (hsteady.current.trans (hcur idle)) same idle'
  | chooses idle idle' choose same =>
    have hsteady := choose_steady choose
    exact .of_same (sane_of_enter (hsteady.sane h.sane.entered))
      (hsteady.current.trans (hcur idle)) same idle'
  | dispatches idle choose dispatch system idle' after =>
    have hsteady := choose_steady choose
    obtain ⟨hd, -, -, hcurrent, -⟩ := dispatch_get? dispatch
    refine ⟨?_, ?_, ?_⟩
    · rw [system]
      exact dispatch_sane (sane_of_enter (hsteady.sane h.sane.entered)) dispatch
    · rw [system, thread?, after]
      exact hcurrent.trans (congrArg some hd.symm)
    · rw [after]
      exact idle'
  | quiet idle idle' same =>
    exact .of_same (s := m.system) h.sane (hcur idle) same idle'

theorem pollPoint_table {t : ThreadId} {p p' : YieldPoint} {ready : Bool}
    {k k' : Kernel Activation} (h : k.pollPoint t p = (ready, p', k')) : k'.table = k.table := by
  unfold Kernel.pollPoint at h
  split at h <;>
    · cases h
      rfl

/-! ## Where programs come from -/

/-- The program of a thread after a step, which began in it or is what it was before, unless the
thread itself made the step. -/
inductive Origin (m m' : Machine) (t : ThreadId) (a' : Activation) : Prop where
  | fresh (stage : a'.stage = .fresh)
  | kept (other : m.thread? ≠ some t) (before : m.activation? t = some a')
  | goes {d : Kernel.Dispatched Activation} {below : List Frame} (own : d.thread = t)
      (stack : m.stack = .thread d :: below)
      (code : m.system.stepCode (.thread t) d.task.coroutine = .ok (.go a' m'.system))
      (after : m'.stack = .thread (holding d a') :: below)
  | parks {a : Activation} {p p' : YieldPoint} {r : Resume} (own : m.thread? = some t)
      (before : m.activation? t = some a) (stage : a.stage = .suspended p r)
      (now : a' = { a with stage := .suspended p' r })
      (table : m'.system.kernel.table = m.system.kernel.table)
      (locks : m'.system.locks = m.system.locks)

theorem Origin.of_tasks {t : ThreadId} {a' : Activation} (hi : m.thread? = none)
    (ht : Kernel.Tasks m.system.kernel m'.system.kernel)
    (ha : m'.system.kernel.pending? t = some a') : Origin m m' t a' := by
  rcases ht t a' ha with hf | ha
  · exact .fresh hf
  · exact .kept (by rw [hi]; simp) ((congrFun (activation?_of_none hi) t).trans ha)

theorem activation?_of_ne {d : Kernel.Dispatched Activation} {t : ThreadId}
    (h : m.stack = .thread d :: below) (ht : d.thread ≠ t) :
    m.activation? t = m.system.kernel.pending? t := by
  rw [activation?, h]
  exact if_neg ht

theorem thread?_eq {d : Kernel.Dispatched Activation} (h : m.stack = .thread d :: below) :
    m.thread? = some d.thread := by rw [thread?, h]

/-- A task that the step of another thread has left alone. -/
theorem Origin.of_other {d : Kernel.Dispatched Activation} {t : ThreadId} {a' : Activation}
    (h : m.stack = .thread d :: below) (ht : d.thread ≠ t) {k : Kernel Activation}
    (hk : Kernel.Tasks m.system.kernel k) (ha : k.pending? t = some a') : Origin m m' t a' := by
  rcases hk t a' ha with hf | hb
  · exact .fresh hf
  · exact .kept (by rw [thread?_eq h]; simpa using ht) ((activation?_of_ne h ht).trans hb)

theorem Turn.origin (h : m.Regular) (ht : Turn m m') {t : ThreadId} {a' : Activation}
    (ha : m'.activation? t = some a') : Origin m m' t a' := by
  cases ht with
  | program stack code after =>
    have hi : m.thread? = none := by rw [thread?, stack]
    have hi' : m'.thread? = none := by rw [thread?, after]
    rw [activation?_of_none hi'] at ha
    exact .of_tasks hi (System.stepCode_grows code).kernel.tasks ha
  | @thread d b below stack code after =>
    by_cases hd : d.thread = t
    · subst hd
      have hself : m'.activation? d.thread = some b := activation?_self (d := holding d b) after
      rw [hself] at ha
      cases ha
      exact .goes rfl stack code after
    · rw [activation?_of_ne (d := holding d b) after hd] at ha
      exact .of_other stack hd (System.stepCode_grows code).kernel.tasks ha
  | @parks d b s k below stack code park system after =>
    have hi' : m'.thread? = none := thread?_of_idle (by simpa [stack, after] using h.below)
    rw [activation?_of_none hi', system] at ha
    obtain ⟨htable, -, -, slot, -, hget⟩ := park_get? park
    change ((k.registry.get? t).bind fun x => x.task.map ThreadTask.coroutine) = some a' at ha
    rw [hget] at ha
    split at ha
    · rename_i hd
      have hd : d.thread = t := hd
      subst hd
      cases ha
      obtain ⟨_, p, r, p', k₁, -, hstage, -, hpoll, rfl, rfl⟩ := System.stepCode_park code
      refine .parks (thread?_eq stack) (activation?_self stack) hstage rfl ?_ ?_
      · rw [system]
        exact htable.trans (pollPoint_table hpoll)
      · rw [system]
        rfl
    · rename_i hd
      exact .of_other stack hd (System.stepCode_grows code).kernel.tasks ha
  | @retires d k below stack code finish system after =>
    have hi' : m'.thread? = none := thread?_of_idle (by simpa [stack, after] using h.below)
    obtain ⟨k₁, hsteady, rfl⟩ := finish_cases finish
    rw [activation?_of_none hi', system] at ha
    change ((k₁.registry.slots.erase d.thread).get? t |>.bind fun x =>
      x.task.map ThreadTask.coroutine) = some a' at ha
    rw [Directory.get?_erase] at ha
    split at ha
    · cases ha
    · rename_i hd
      rw [System.restoreAll_eq] at hsteady
      exact .of_other stack hd hsteady.tasks ha
  | alarm idle idle' release same events =>
    rw [activation?_of_none (thread?_of_idle idle')] at ha
    have hreg := same.registry
    exact .of_tasks (thread?_of_idle idle)
      ((release_steady release).tasks.trans (.of_eq hreg)) ha
  | chooses idle idle' choose same =>
    rw [activation?_of_none (thread?_of_idle idle')] at ha
    have hreg := same.registry
    exact .of_tasks (thread?_of_idle idle)
      (Kernel.Tasks.trans (choose_steady choose).tasks (.of_eq hreg)) ha
  | @dispatches u k k' d below idle choose dispatch system idle' after =>
    obtain ⟨hd, -, -, -, -, slot, hslot, htask, hget⟩ := dispatch_get? dispatch
    have htasks : Kernel.Tasks m.system.kernel k := (choose_steady choose).tasks
    have hpending : k.pending? t = some a' := by
      by_cases hdt : d.thread = t
      · subst hdt
        rw [activation?_self after] at ha
        cases ha
        rw [Kernel.pending?, hd, hslot]
        simp [htask]
      · rw [activation?_of_ne after hdt, system] at ha
        change ((k'.registry.get? t).bind fun x => x.task.map ThreadTask.coroutine) = some a' at ha
        rw [hget, if_neg fun e => hdt (hd.trans e)] at ha
        exact ha
    rcases htasks t a' hpending with hf | hb
    · exact .fresh hf
    · have hi := thread?_of_idle idle
      exact .kept (by rw [hi]; simp) ((congrFun (activation?_of_none hi) t).trans hb)
  | quiet idle idle' same =>
    rw [activation?_of_none (thread?_of_idle idle')] at ha
    exact .of_tasks (thread?_of_idle idle) (.of_eq same.registry) ha

end Machine
end ThreadKernel
