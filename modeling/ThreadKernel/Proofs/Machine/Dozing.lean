import ThreadKernel.Proofs.Machine.Guards
import ThreadKernel.Proofs.Machine.Requests
import ThreadKernel.Proofs.Machine.Situations

/-!
# ThreadKernel.Proofs.Machine.Dozing

Who can wake a thread that is suspended until it is woken: a program that makes it ready itself, a
lock, a condition or a thread on whose queue it waits, and an alarm. Every other step leaves it where
it is.

* `Kernel.…_get?`    — the calls that leave the slot of a thread alone.
* `Requests.get?`    — so does every step of a program.
* `Machine.Dozes`    — the thread is suspended, and no wake is pending that would let it pass.
* `Turn.dozes`       — a step that does not wake it lets it doze on.
-/

namespace ThreadKernel

open Kernel (Passes Sane Steady)

namespace Kernel

variable {k k' k'' : Kernel Activation} {q : QueueId} {t u : ThreadId}

theorem Steady.pending?_kept {a : Activation} (h : Steady k k') (ha : k.pending? t = some a) :
    k'.pending? t = some a := by
  obtain ⟨slot, hslot, htask⟩ := Option.bind_eq_some_iff.1 ha
  obtain ⟨signal, hslot'⟩ := h.slot hslot
  exact Option.bind_eq_some_iff.2 ⟨_, hslot', htask⟩

/-! ## Calls that wake someone else -/

/-- Whoever is handed a queue waited for it. -/
theorem served_ne (hs : k.table.Sound) (hw : k.table.waitingQueue u ≠ some q)
    (hn : k.nextThread q = .ok (some t, k')) : u ≠ t := fun e =>
  hw (e ▸ (nextThread_served hs hn).1)

theorem nextThread_registry {served : Option ThreadId} (h : k.nextThread q = .ok (served, k')) :
    k'.registry = k.registry := by
  obtain ⟨tb, -, rfl⟩ := nextThread_ok h
  rfl

theorem served_get? (hk : k.Sane) (hw : k.table.waitingQueue u ≠ some q)
    (hn : k.nextThread q = .ok (some t, k')) (hm : k'.markReady t = .ok k'') :
    k''.registry.get? u = k.registry.get? u := by
  obtain ⟨-, hget, -⟩ := markReady_registry ((nextThread_steady hn).sane hk) hm
  rw [hget u (served_ne hk.sound hw hn), nextThread_registry hn]

theorem Passes.get? {served : Option ThreadId} (hk : k.Sane)
    (hw : k.table.waitingQueue u ≠ some q) (h : Passes q k served k') :
    k'.registry.get? u = k.registry.get? u := by
  cases h with
  | nobody hn => exact congrArg (·.get? u) (nextThread_registry hn)
  | waiter hn hm =>
    have hget := served_get? (k := k.enter) hk.entered hw hn hm
    exact hget

theorem handOverAll_get? (hk : k.Sane) (hw : k.table.waitingQueue u ≠ some q)
    (h : k.handOverAll q = .ok k') : k'.registry.get? u = k.registry.get? u := by
  replace h := handOverAll_goesRound h
  induction h with
  | stops => rfl
  | nobody next => exact congrArg (·.get? u) (nextThread_registry next)
  | @turn k k₁ k₂ _ _ next ready _ ih =>
    have hk₁ := (nextThread_steady next).sane hk
    have hw₂ : k₂.table.waitingQueue u ≠ some q := by
      rw [(markReady_registry hk₁ ready).1]
      intro hu
      rcases ((nextThread_alters q hk.sound next).waiting u).1 hu with hf | ⟨hu, -⟩
      · exact hf
      · exact hw hu
    rw [ih ((markReady_steady ready).sane hk₁) hw₂, served_get? hk hw next ready]

theorem withTable_registry {r : Except Fault Table} (h : k.withTable r = .ok k') :
    k'.registry = k.registry := by
  obtain ⟨tb, -, rfl⟩ := withTable_ok h
  rfl

theorem releaseReady_registry (h : k.releaseReady t = .ok k') : k'.registry = k.registry := by
  rcases releaseReady_cases h with ⟨-, h⟩ | rfl
  · exact withTable_registry h
  · rfl

/-- A retirement wakes only those that joined the thread. -/
theorem retire_get? (hk : k.Sane) (hu : t ≠ u)
    (hw : ∀ slot, k.registry.get? t = some slot → k.table.waitingQueue u ≠ some slot.joinQueue)
    (h : k.retire t = .ok k') : k'.registry.get? u = k.registry.get? u := by
  obtain ⟨slot, k₁, k₂, k₃, k₄, hslot, h₁, h₂, h₃, h₄, rfl⟩ := retire_ok h
  have hreg : k₄.registry = k₁.registry := by
    rw [withTable_registry h₄, releaseReady_registry h₃]
    exact withTable_registry h₂
  refine (Directory.get?_erase _ _ _).trans ((if_neg hu).trans ?_)
  show k₄.registry.get? u = _
  rw [hreg]
  exact handOverAll_get? (k := k.enter) hk.entered (hw slot hslot) h₁

/-- An alarm wakes only those that it releases. -/
theorem wakeEach_get? (l : List Sleeper) {k : Kernel Activation} (hk : k.Sane)
    (hu : ∀ s ∈ l, s.thread ≠ u) (h : Alarm.wakeEach l k = .ok k') :
    k'.registry.get? u = k.registry.get? u := by
  replace h := Alarm.wakeEach_ok h
  induction h with
  | nobody => rfl
  | @wakes s l _ _ _ ready _ ih =>
    rw [ih ((markReady_steady ready).sane hk) fun s hs => hu s (List.mem_cons_of_mem _ hs)]
    exact (markReady_registry hk ready).2.1 u (hu s List.mem_cons_self).symm

theorem admitEach_registry (l : List ThreadId) {k : Kernel Activation}
    (h : admitEach l k = .ok k') : k'.registry = k.registry := by
  replace h := admitEach_ok h
  induction h with
  | nobody => rfl
  | gone _ _ ih | waits _ _ ih => exact ih
  | comes _ wait _ ih => exact ih.trans (withTable_registry wait)

/-- A choice wakes nobody. -/
theorem choose_get? {served : Option ThreadId} (h : k.chooseThread = .ok (served, k')) :
    k'.registry.get? u = k.registry.get? u := by
  obtain ⟨k₁, k₂, h₁, h₂, rfl⟩ := chooseThread_cases h
  unfold admitWoken Registry.drain at h₁
  show k₂.registry.get? u = _
  rw [nextThread_registry h₂, admitEach_registry _ h₁]
  rfl

/-- A poll that suspends the thread takes a stale wake away. -/
theorem pollPoint_suspends {yielded : Bool} {p : YieldPoint} {slot : Slot Activation}
    (hs : k.registry.get? t = some slot) (hy : (yielded && slot.signal.woken) = false)
    (h : k.pollPoint t ⟨false, yielded⟩ = (false, p, k')) :
    p = ⟨false, true⟩ ∧
      k'.registry.get? t = some { slot with signal := ⟨false, some slot.waker⟩ } := by
  unfold Kernel.pollPoint YieldPoint.poll at h
  simp only [hs, hy, Bool.false_eq_true, if_false] at h
  cases h
  exact ⟨rfl, (Registry.get?_setSlot _ _ t _).trans (if_pos rfl)⟩

end Kernel

/-! ## Programs -/

namespace System

variable {a a' : Activation} {s s' : System} {k : Kernel Activation} {u : ThreadId} {actor : Actor}

/-- The thread waits neither for a lock nor on a condition. -/
def Untied (u : ThreadId) (s : System) : Prop :=
  ∀ q, s.OfUse q → s.kernel.table.waitingQueue u ≠ some q

theorem Requests.get? (h : Requests a s k) (hk : s.kernel.Sane)
    (hr : ∀ target, ¬ a.Begins (.act (.markReady target))) (hw : s.Untied u)
    (hu : (s.kernel.registry.get? u).isSome) :
    k.registry.get? u = s.kernel.registry.get? u := by
  cases h with
  | nothing _ registry => rw [registry]
  | adjusts adjusted => rw [Kernel.withTable_registry adjusted]
  | creates _ created =>
    rw [created]
    rfl
  | destroys _ destroyed => exact congrArg (·.get? u) (Kernel.withTable_registry destroyed)
  | spawns _ _ spawned =>
    obtain ⟨q, hsp⟩ := Kernel.spawn_ok hk.sound spawned
    refine (hsp.get? u).trans (if_neg ?_)
    rintro rfl
    rw [hsp.absent] at hu
    cases hu
  | enqueues _ enqueued | joins _ _ _ _ _ enqueued | acquires _ enqueued =>
    rw [Kernel.withTable_registry enqueued]
  | serves _ next => rw [Kernel.nextThread_registry next]
  | readies begins => exact absurd begins (hr _)
  | passes use passed => exact passed.get? hk (hw _ use)
  | empties use emptied =>
    exact Kernel.handOverAll_get? (k := s.kernel.enter) hk.entered (hw _ use) emptied
  | sleeps lock _ passed enqueued =>
    have hget := passed.get? (k := s.kernel.enter) hk.entered (hw _ lock)
    obtain ⟨tb, -, rfl⟩ := Kernel.waitForAccess_ok enqueued
    exact hget

theorem Executes.get? (h : Executes a s s') (hk : s.kernel.Sane)
    (hr : ∀ target, ¬ a.Begins (.act (.markReady target))) (hw : s.Untied u)
    (hu : (s.kernel.registry.get? u).isSome) :
    s'.kernel.registry.get? u = s.kernel.registry.get? u := by
  obtain ⟨k, level, hreq, hs⟩ := h.kernel
  rw [hs]
  exact hreq.get? hk hr hw hu

/-- A step of another thread, or of a program that no thread executes. -/
theorem stepCode_get? (h : s.stepCode actor a = .ok (.go a' s')) (hk : s.kernel.Sane)
    (hr : ∀ target, ¬ a.Begins (.act (.markReady target))) (hw : s.Untied u)
    (hu : (s.kernel.registry.get? u).isSome) (hne : s.kernel.registry.current ≠ some u) :
    s'.kernel.registry.get? u = s.kernel.registry.get? u := by
  rcases stepCode_executes h with ⟨-, hx⟩ | ⟨t, p, r, p', k, -, hcur, hpoll, hx⟩
  · exact hx.get? hk hr hw hu
  · obtain ⟨htable, hothers⟩ := Kernel.pollPoint_others hpoll
    have hget := hothers u fun e => hne (e ▸ hcur)
    rw [hx.get? (s := s.withKernel k) ((Kernel.pollPoint_steady hpoll).sane hk) hr ?_ ?_]
    · exact hget
    · intro q hq
      show k.table.waitingQueue u ≠ some q
      rw [htable]
      exact hw q hq
    · show (k.registry.get? u).isSome
      rw [hget]
      exact hu

end System

/-! ## Machines -/

namespace Machine

variable {m m' : Machine} {t u : ThreadId} {i : Instr}

/-- The thread is suspended within `i` and has left its waker, or is about to. -/
def Dozes (t : ThreadId) (i : Instr) (m : Machine) : Prop :=
  ∃ a rest yielded level slot, m.activation? t = some a ∧ a.code = i :: rest ∧
    a.stage = .suspended ⟨false, yielded⟩ (.leave level) ∧
    m.system.kernel.registry.get? t = some slot ∧
    (slot.signal = ⟨false, some t⟩ ∨ m.thread? = some t ∧ yielded = false)

/-- No step of a program is about to make a thread ready by itself. -/
def Reticent (m : Machine) : Prop :=
  ∀ a target, m.executing? = some a → ¬ a.Begins (.act (.markReady target))

/-- The thread waits on no queue of a lock, a condition or a thread. -/
def Loose (u : ThreadId) (m : Machine) : Prop :=
  ∀ q, m.system.OfPrimitive q → m.system.kernel.table.waitingQueue u ≠ some q

theorem Loose.untied (h : m.Loose u) : m.system.Untied u := by
  rintro q ⟨x, hx, rfl⟩
  exact h _ (System.ofPrimitive_of_primitive (.inl ⟨x, hx, rfl⟩))

theorem activation?_of_not_running (h : m.thread? ≠ some t) :
    m.activation? t = m.system.kernel.pending? t := by
  cases hs : m.thread? with
  | none => rw [activation?_of_none hs]
  | some v =>
    unfold thread? at hs
    split at hs
    · rename_i d below hstack
      exact activation?_of_ne hstack fun e => h (by rw [thread?_eq hstack, e])
    · cases hs

/-- A thread that does not run keeps its program. -/
theorem Turn.activation?_kept (h : Turn m m') {a : Activation} (hr : m.Regular)
    (ht : m.thread? ≠ some t) (ha : m.activation? t = some a) : m'.activation? t = some a := by
  rw [activation?_of_not_running ht] at ha
  have hkept : ∀ {s : System}, m.system.Grows s → s.kernel.pending? t = some a := fun hg =>
    hg.kernel.pending?_kept ha
  have hrest : m'.thread? ≠ some t → m'.system.kernel.pending? t = some a →
      m'.activation? t = some a := fun hn hp => (activation?_of_not_running hn).trans hp
  cases h with
  | program stack code after =>
    exact hrest (by rw [thread?, after]; simp) (hkept (System.stepCode_grows code))
  | thread stack code after =>
    refine hrest ?_ (hkept (System.stepCode_grows code))
    rw [thread?_eq stack] at ht
    rw [thread?, after]
    exact ht
  | parks stack code park system after =>
    have hidle : Idle m'.stack := by simpa [stack, after] using hr.below
    refine hrest (by rw [thread?_of_idle hidle]; simp) ?_
    rw [thread?_eq stack] at ht
    obtain ⟨-, -, -, slot, -, hget⟩ := park_get? park
    have hp := hkept (System.stepCode_grows code)
    have hsame := (hget t).trans (if_neg fun e => ht (congrArg some e))
    rw [system]
    exact (congrArg (fun x => x.bind fun y => y.task.map ThreadTask.coroutine) hsame).trans hp
  | retires stack code finish system after =>
    have hidle : Idle m'.stack := by simpa [stack, after] using hr.below
    refine hrest (by rw [thread?_of_idle hidle]; simp) ?_
    rw [thread?_eq stack] at ht
    obtain ⟨k₁, hsteady, rfl⟩ := finish_cases finish
    rw [System.restoreAll_eq] at hsteady
    have hp : k₁.pending? t = some a := hsteady.pending?_kept ha
    have hsame := (Directory.get?_erase k₁.registry.slots _ t).trans
      (if_neg fun e => ht (congrArg some e))
    rw [system]
    exact (congrArg (fun x => x.bind fun y => y.task.map ThreadTask.coroutine) hsame).trans hp
  | alarm idle idle' release same events =>
    refine hrest (by rw [thread?_of_idle idle']; simp) ?_
    rw [Kernel.pending?, same.registry]
    exact (release_steady release).pending?_kept ha
  | chooses idle idle' choose same =>
    refine hrest (by rw [thread?_of_idle idle']; simp) ?_
    rw [Kernel.pending?, same.registry]
    exact (choose_steady choose).pending?_kept ha
  | @dispatches v k k' d below idle choose dispatch system idle' after =>
    obtain ⟨hd, -, -, -, -, slot, hslot, htask, hget⟩ := dispatch_get? dispatch
    have hp : k.pending? t = some a := (choose_steady choose).pending?_kept ha
    by_cases hdt : d.thread = t
    · subst hdt
      rw [Kernel.pending?, hd, hslot, Option.bind_some, htask] at hp
      rw [activation?_self after]
      exact hp
    · rw [activation?_of_ne after hdt, system]
      have hsame := (hget t).trans (if_neg fun e => hdt (hd.trans e))
      exact (congrArg (fun x => x.bind fun y => y.task.map ThreadTask.coroutine) hsame).trans hp
  | quiet idle idle' same =>
    refine hrest (by rw [thread?_of_idle idle']; simp) ?_
    rw [Kernel.pending?, same.registry]
    exact ha

/-- The next step releases the thread from an alarm. -/
def Rouses (u : ThreadId) (m : Machine) : Prop :=
  ∃ i alarm previous called waiting below,
    m.stack = .delivery previous called (.alarm i :: waiting) :: below ∧
      m.system.alarms[i]? = some alarm ∧
        ∃ s ∈ alarm.due m.system.kernel.now, s.thread = u

/-- A thread that does not run keeps its wake signal unless it is woken. -/
theorem Turn.signal_kept (h : Turn m m') {slot : Slot Activation} (hr : m.Regular)
    (ht : m.thread? ≠ some t) (hret : m.Reticent) (hl : m.Loose t) (hn : ¬ m.Rouses t)
    (hs : m.system.kernel.registry.get? t = some slot) :
    ∃ slot', m'.system.kernel.registry.get? t = some slot' ∧ slot'.signal = slot.signal := by
  have hkept : ∀ {k : Kernel Activation}, k.registry.get? t = m.system.kernel.registry.get? t →
      k.registry.get? t = some slot := fun h => h.trans hs
  have halive : (m.system.kernel.registry.get? t).isSome := by rw [hs]; rfl
  have hcode : ∀ {actor a a' s}, m.executing? = some a →
      m.system.stepCode actor a = .ok (.go a' s) → s.kernel.registry.get? t = some slot :=
    fun hx hc => hkept (System.stepCode_get? hc hr.sane (hret _ · hx) hl.untied halive
      (hr.current ▸ ht))
  cases h with
  | program stack code after => exact ⟨slot, hcode (by rw [executing?, stack]) code, rfl⟩
  | thread stack code after => exact ⟨slot, hcode (by rw [executing?, stack]) code, rfl⟩
  | @parks d a' s k below stack code park system after =>
    obtain ⟨u, p, r, p', k₁, -, hstage, hcur, hpoll, rfl, rfl⟩ := System.stepCode_park code
    rw [thread?_eq stack] at ht
    rw [hr.current, thread?_eq stack] at hcur
    cases hcur
    obtain ⟨-, -, -, _, -, hget⟩ := park_get? park
    refine ⟨slot, ?_, rfl⟩
    rw [system]
    refine (hget t).trans ((if_neg fun e => ht (congrArg some e)).trans ?_)
    exact hkept ((Kernel.pollPoint_others hpoll).2 t fun e => ht (congrArg some e.symm))
  | @retires d k below stack code finish system after =>
    rw [thread?_eq stack] at ht
    rw [System.restoreAll_eq] at finish
    have hget := Kernel.retire_get? (u := t) (k := Kernel.backToLoop d
        (m.system.kernel.restore (d.task.coroutine.guards.getLastD m.system.kernel.level)))
      ⟨hr.sane.sound, hr.sane.waker, hr.sane.signal⟩ (fun e => ht (congrArg some e))
      (fun x hx => hl _ (.inr (.inr ⟨_, x, hx, rfl⟩))) finish
    rw [system]
    exact ⟨slot, hkept hget, rfl⟩
  | @alarm i alarm alarm' k idle idle' release same events calls named =>
    obtain ⟨previous, called, waiting, below, hstack⟩ := calls
    obtain ⟨hwake, -⟩ := Alarm.release_ok release
    refine ⟨slot, ?_, rfl⟩
    rw [same.registry]
    exact hkept (Kernel.wakeEach_get? _ hr.sane (fun x hx e =>
      hn ⟨i, alarm, previous, called, waiting, below, hstack, named, x, hx, e⟩) hwake)
  | chooses idle idle' choose same =>
    rw [same.registry]
    exact ⟨slot, hkept (Kernel.choose_get? choose), rfl⟩
  | @dispatches v k k' d below idle choose dispatch system idle' after =>
    obtain ⟨-, -, -, -, -, x, hx, -, hget⟩ := dispatch_get? dispatch
    have hk := hkept (Kernel.choose_get? choose)
    rw [system]
    by_cases hv : v = t
    · subst hv
      rw [hk] at hx
      cases hx
      exact ⟨_, (hget v).trans (if_pos rfl), rfl⟩
    · exact ⟨slot, (hget t).trans ((if_neg hv).trans hk), rfl⟩
  | quiet idle idle' same =>
    rw [same.registry]
    exact ⟨slot, hs, rfl⟩

/-- A dozing thread that is dispatched is suspended again. -/
theorem Turn.dozes_running (h : Turn m m') (hr : m.Regular) (ht : m.thread? = some t)
    (hd : m.Dozes t i) : m'.Dozes t i := by
  obtain ⟨a, rest, yielded, level, slot, ha, hcode, hstage, hslot, hleft⟩ := hd
  have hsig : (yielded && slot.signal.woken) = false := by
    rcases hleft with hleft | ⟨-, hy⟩
    · rw [hleft, Bool.and_false]
    · rw [hy, Bool.false_and]
  have hbusy : ∀ {P : Prop}, Idle m.stack → P := fun hi =>
    nomatch (thread?_of_idle hi).symm.trans ht
  have hrun : ∀ {d : Kernel.Dispatched Activation} {below : List Frame},
      m.stack = .thread d :: below → d.thread = t ∧ d.task.coroutine = a := by
    intro d below hstack
    rw [thread?_eq hstack] at ht
    cases ht
    rw [activation?_self hstack] at ha
    exact ⟨rfl, Option.some.inj ha⟩
  cases h with
  | program stack =>
    rw [thread?, stack] at ht
    cases ht
  | @thread d a' below stack code after =>
    obtain ⟨rfl, rfl⟩ := hrun stack
    rcases System.stepCode_executes code with ⟨hfresh, -⟩ | ⟨u, p, r, p', k, hs, hcur, hpoll, -⟩
    · rw [hfresh] at hstage
      cases hstage
    · rw [hr.current, ht] at hcur
      cases hcur
      rw [hstage] at hs
      cases hs
      obtain ⟨slot', hslot', hy, hw, -⟩ := System.pollPoint_ready hpoll
      rw [hslot] at hslot'
      cases hslot'
      rw [hw, Bool.and_true] at hsig
      exact absurd (hy.symm.trans hsig) (by simp)
  | @parks d a' s k below stack code park system after =>
    obtain ⟨rfl, rfl⟩ := hrun stack
    obtain ⟨u, p, r, p', k₁, -, hs, hcur, hpoll, rfl, rfl⟩ := System.stepCode_park code
    rw [hr.current, ht] at hcur
    cases hcur
    rw [hstage] at hs
    cases hs
    obtain ⟨rfl, hslot'⟩ := Kernel.pollPoint_suspends hslot hsig hpoll
    obtain ⟨-, -, -, x, hx, hget⟩ := park_get? park
    obtain rfl := Option.some.inj (hslot'.symm.trans hx)
    have hidle : Idle m'.stack := by simpa [stack, after] using hr.below
    have hself := (hget d.thread).trans (if_pos rfl)
    have hwaker : (⟨false, some slot.waker⟩ : WakeSignal ThreadId) = ⟨false, some d.thread⟩ := by
      rw [hr.sane.waker hslot]
    refine ⟨{ d.task.coroutine with stage := .suspended ⟨false, true⟩ (.leave level) }, rest, true,
      level, _, ?_, hcode, rfl, by rw [system]; exact hself, .inl hwaker⟩
    rw [activation?_of_none (thread?_of_idle hidle), system]
    exact congrArg (fun x => x.bind fun y => y.task.map ThreadTask.coroutine) hself
  | retires stack code =>
    obtain ⟨rfl, rfl⟩ := hrun stack
    rw [code] at hcode
    cases hcode
  | alarm idle | chooses idle | dispatches idle | quiet idle => exact hbusy idle

theorem Turn.dozes (h : Turn m m') (hr : m.Regular) (hret : m.Reticent) (hl : m.Loose t)
    (hn : ¬ m.Rouses t) (hd : m.Dozes t i) : m'.Dozes t i := by
  by_cases ht : m.thread? = some t
  · exact h.dozes_running hr ht hd
  · obtain ⟨a, rest, yielded, level, slot, ha, hcode, hstage, hslot, hsig⟩ := hd
    obtain ⟨slot', hslot', hsame⟩ := h.signal_kept hr ht hret hl hn hslot
    exact ⟨a, rest, yielded, level, slot', h.activation?_kept hr ht ha, hcode, hstage, hslot',
      .inl (hsame.trans (hsig.resolve_right fun hx => ht hx.1))⟩

end Machine
end ThreadKernel
