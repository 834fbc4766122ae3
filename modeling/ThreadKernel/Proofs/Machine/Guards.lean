import ThreadKernel.Proofs.Machine.Turns

/-!
# ThreadKernel.Proofs.Machine.Guards

A queue that programs leave to its lock or condition. Whoever waits there suspends until it is
woken, and nothing but the lock or the condition wakes it: a timer that did so would announce it,
and then the next choice faults.

* `Machine.Private` — the next instruction leaves the queue to its lock or condition.
* `Machine.Guarded` — what is so of all waiters meanwhile.
* `Machine.Affects` — what a step does to the waiters.
* `Guarded.turn`    — a step keeps the waiters guarded if nobody comes without suspending.
* `Guarded.next`    — so do programs that leave the queue alone.
-/

namespace ThreadKernel

open Kernel (Alters Apart Serves Empties CalmBut AllCalm Sane Calm)

namespace Kernel

/-- Every waiter is alive, and calm unless it is announced. -/
def Stirred (q : QueueId) (k : Kernel Activation) : Prop :=
  ∀ u, k.table.waitingQueue u = some q → ∃ slot, k.registry.get? u = some slot ∧
    (slot.signal = ⟨false, some u⟩ ∨ u ∈ k.registry.channel)

variable {q : QueueId} {x : Option ThreadId} {k k' : Kernel Activation} {t : ThreadId}
  {joins leaves : ThreadId → Prop}

theorem Stirred.congr (h : Stirred q k) (ht : k'.table = k.table)
    (hr : k'.registry = k.registry) : Stirred q k' := by
  intro u hu
  rw [ht] at hu
  rw [hr]
  exact h u hu

theorem CalmBut.congr (h : CalmBut x q k) (ht : k'.table = k.table)
    (hr : k'.registry = k.registry) : CalmBut x q k' := by
  intro u hu hx
  rw [ht] at hu
  obtain ⟨hc, hs⟩ := h u hu hx
  exact ⟨by rwa [hr], by rwa [hr]⟩

theorem Calm.alters (h : Calm k t) (ha : Alters q joins leaves k k')
    (hw : k.table.waitingQueue t = some q) (hl : ¬ leaves t) : Calm k' t := by
  obtain ⟨hc, slot, hslot, hsig⟩ := h
  exact ⟨fun hm => hc ((ha.channel t hw hl).1 hm), slot, (ha.slot t hw hl).trans hslot, hsig⟩

/-- Only the excepted thread may come to wait. -/
theorem CalmBut.alters (h : CalmBut x q k) (ha : Alters q joins leaves k k')
    (hj : ∀ u, joins u → x = some u) : CalmBut x q k' := by
  intro u hu hx
  rcases (ha.waiting u).1 hu with hju | ⟨hw, hl⟩
  · exact absurd (hj u hju) hx
  · exact (h u hw hx).alters ha hw hl

theorem Stirred.apart (h : Stirred q k) (ha : Apart q k k') : Stirred q k' := by
  intro u hu
  have hw := (ha.waiting_iff u).1 hu
  obtain ⟨slot, hslot, hc⟩ := h u hw
  exact ⟨slot, (ha.slot u hw id).trans hslot, hc.imp id (ha.channel u hw id).2⟩

/-- The excepted thread does not wait, or is alive and calm. -/
theorem CalmBut.stirred (h : CalmBut x q k)
    (hx : ∀ u, x = some u → k.table.waitingQueue u = some q →
      ∃ slot, k.registry.get? u = some slot ∧ slot.signal = ⟨false, some u⟩) : Stirred q k := by
  intro u hu
  by_cases hxu : x = some u
  · obtain ⟨slot, hslot, hsig⟩ := hx u hxu hu
    exact ⟨slot, hslot, .inl hsig⟩
  · obtain ⟨-, slot, hslot, hsig⟩ := h u hu hxu
    exact ⟨slot, hslot, .inl hsig⟩

/-- A wake of a waiter announces it. -/
theorem Stirred.markReady (h : Stirred q k) (hk : k.Sane) (hm : k.markReady t = .ok k') :
    Stirred q k' := by
  by_cases hw : k.table.waitingQueue t = some q
  · obtain ⟨-, slot, hslot, rfl⟩ := markReady_ok hm
    obtain ⟨slot', hslot', hc⟩ := h t hw
    rw [hslot] at hslot'
    cases hslot'
    have hget : ∀ u, ((k.registry.setSlot t { slot with
        signal := slot.signal.wake.2 }).postOption slot.signal.wake.1).get? u =
          if t = u then some { slot with signal := slot.signal.wake.2 } else k.registry.get? u :=
      fun u => Registry.get?_setSlot _ _ u _
    intro u hu
    by_cases hut : t = u
    · subst hut
      refine ⟨_, (hget t).trans (if_pos rfl), .inr ?_⟩
      rcases hc with hsig | hc
      · refine List.mem_append_right _ ?_
        rw [hsig]
        exact List.mem_singleton_self t
      · exact List.mem_append_left _ hc
    · obtain ⟨slot', hslot', hc'⟩ := h u hu
      exact ⟨slot', (hget u).trans ((if_neg hut).trans hslot'),
        hc'.imp id (List.mem_append_left _)⟩
  · exact h.apart (markReady_apart hk hw hm)

theorem Stirred.wakeEach (l : List Sleeper) (h : Stirred q k) (hk : k.Sane)
    (hr : Alarm.wakeEach l k = .ok k') :
    Stirred q k' ∧ ∀ u, k'.table.waitingQueue u = some q ↔ k.table.waitingQueue u = some q := by
  replace hr := Alarm.wakeEach_ok hr
  induction hr with
  | nobody => exact ⟨h, fun _ => .rfl⟩
  | wakes ready _ ih =>
    obtain ⟨hs, hw⟩ := ih (h.markReady hk ready) ((markReady_steady ready).sane hk)
    obtain ⟨ht, -⟩ := markReady_registry hk ready
    exact ⟨hs, fun u => by rw [hw, ht]⟩

/-! ## The poll -/

theorem pollPoint_others {p p' : YieldPoint} {ready : Bool}
    (h : k.pollPoint t p = (ready, p', k')) :
    k'.table = k.table ∧ ∀ u, u ≠ t → k'.registry.get? u = k.registry.get? u := by
  unfold Kernel.pollPoint at h
  split at h
  · cases h
    exact ⟨rfl, fun _ _ => rfl⟩
  · cases h
    exact ⟨rfl, fun u hu => (Registry.get?_setSlot _ _ u _).trans (if_neg (Ne.symm hu))⟩

/-- A thread that suspends until it is woken leaves its waker. -/
theorem pollPoint_untilWake {p' : YieldPoint} {ready : Bool} {slot : Slot Activation}
    (hs : k.registry.get? t = some slot) (h : k.pollPoint t .untilWake = (ready, p', k')) :
    k'.registry.get? t = some { slot with signal := ⟨false, some slot.waker⟩ } := by
  unfold Kernel.pollPoint at h
  rw [hs] at h
  cases h
  exact (Registry.get?_setSlot _ _ t _).trans (if_pos rfl)

/-! ## The choice -/

/-- Announced waiters of another queue cannot become ready. -/
theorem admitEach_apart (l : List ThreadId) (hk : k.Sane) (hq : k.readyQueue ≠ q)
    (hal : ∀ u, k.table.waitingQueue u = some q → (k.registry.get? u).isSome)
    (h : admitEach l k = .ok k') :
    Apart q k k' ∧ ∀ u ∈ l, k.table.waitingQueue u ≠ some q := by
  replace h := admitEach_ok h
  induction h with
  | nobody => exact ⟨.refl q _, by simp⟩
  | @gone t l k k' absent _ ih =>
    obtain ⟨ha, hl⟩ := ih hk hq hal
    refine ⟨ha, fun u hu hw => ?_⟩
    rcases List.mem_cons.1 hu with rfl | hu
    · have halive := hal u hw
      rw [absent] at halive
      cases halive
    · exact hl u hu hw
  | waits ready _ ih =>
    obtain ⟨ha, hl⟩ := ih hk hq hal
    refine ⟨ha, fun u hu hw => ?_⟩
    rcases List.mem_cons.1 hu with rfl | hu
    · exact hq (Option.some.inj (ready.symm.trans hw))
    · exact hl u hu hw
  | @comes t l k k₁ k' _ wait _ ih =>
    have hsteady := apply_steady (.waitForAccess k.readyQueue t) wait
    obtain ⟨hnone, ha₁⟩ := enqueue_alters q hk.sound wait
    have ha₁ : Apart q k k₁ := ha₁.congr (by simp [hq]) (by simp)
    have hreg : k₁.registry = k.registry := by
      obtain ⟨tb, -, rfl⟩ := withTable_ok wait
      rfl
    obtain ⟨ha, hl⟩ := ih (hsteady.sane hk) (hsteady.ready ▸ hq)
      fun u hu => hreg ▸ hal u ((ha₁.waiting_iff u).1 hu)
    refine ⟨ha₁.trans ha, fun u hu hw => ?_⟩
    rcases List.mem_cons.1 hu with rfl | hu
    · rw [hnone] at hw
      cases hw
    · exact hl u hu ((ha₁.waiting_iff u).2 hw)

/-- A choice comes to nothing if a waiter is announced, so all of them are calm after it. -/
theorem Stirred.choose {served : Option ThreadId} (h : Stirred q k) (hk : k.Sane)
    (hq : k.readyQueue ≠ q) (hr : k.chooseThread = .ok (served, k')) :
    AllCalm q k' ∧ (∀ u, k'.table.waitingQueue u = some q ↔ k.table.waitingQueue u = some q) ∧
      ∀ t, served = some t → k'.table.waitingQueue t = none := by
  obtain ⟨k₁, k₂, hadm, hnext, rfl⟩ := chooseThread_cases hr
  unfold admitWoken Registry.drain at hadm
  set k₀ : Kernel Activation :=
    { k.enter with registry := { k.enter.registry with channel := [] } }
  have hk₀ : k₀.Sane := ⟨hk.sound, hk.waker, hk.signal⟩
  have hal : ∀ u, k₀.table.waitingQueue u = some q → (k₀.registry.get? u).isSome := by
    intro u hu
    obtain ⟨slot, hslot, -⟩ := h u hu
    exact Option.isSome_iff_exists.2 ⟨slot, hslot⟩
  obtain ⟨ha, hl⟩ := admitEach_apart k.registry.channel hk₀ hq hal hadm
  have hsteady := admitEach_steady _ hadm
  have hk₁ := hsteady.sane hk₀
  have hready : k₁.readyQueue ≠ q := by
    rw [hsteady.ready]
    exact hq
  have hall := ha.trans (nextThread_apart hk₁.sound hready hnext)
  have hset₀ : AllCalm q k₀ := by
    intro u hu _
    obtain ⟨slot, hslot, hc⟩ := h u hu
    refine ⟨List.not_mem_nil, slot, hslot, hc.resolve_right fun hm => hl u hm hu⟩
  refine ⟨?_, fun u => Apart.waiting_iff hall u, ?_⟩
  · have hset : AllCalm q k₂ := hset₀.alters hall (by simp)
    exact hset.congr rfl rfl
  · rintro t rfl
    exact (nextThread_served hk₁.sound hnext).2

end Kernel

namespace System

variable {q : QueueId} {x : Option ThreadId} {a a' : Activation} {s s' : System} {actor : Actor}

/-- Only the running thread comes to wait, and it suspends then. -/
theorem Deal.alters (h : s.Deal q x a a' s') :
    ∃ joins leaves, Alters q joins leaves s.kernel s'.kernel ∧
      ∀ u, joins u → x = some u ∧ a'.Halts ∧ (s'.kernel.registry.get? u).isSome := by
  cases h with
  | apart queue => exact ⟨_, _, queue, fun _ => False.elim⟩
  | takes _ _ _ _ queue => exact ⟨_, _, queue, fun _ => False.elim⟩
  | waits thread _ _ _ alive queue _ halts =>
    exact ⟨_, _, queue, fun u hu => ⟨hu ▸ thread, halts, hu ▸ alive⟩⟩
  | passes _ _ _ _ _ queue => exact ⟨_, _, queue.alters, fun _ => False.elim⟩
  | sleeps thread _ _ _ alive queue halts =>
    exact ⟨_, _, queue, fun u hu => ⟨hu ▸ thread, halts, hu ▸ alive⟩⟩
  | wakes _ _ _ _ _ _ queue => exact ⟨_, _, queue.alters, fun _ => False.elim⟩
  | wakesAll _ _ _ _ _ _ queue => exact ⟨_, _, queue.alters, fun _ => False.elim⟩

/-- Programs that no thread executes leave the queue alone. -/
theorem Deal.apart_of_none (h : s.Deal q none a a' s') :
    Apart q s.kernel s'.kernel ∧ ∀ {i : Nat} {l : Lock}, s.locks[i]? = some l → l.queue = q →
      s'.locks[i]? = some l := by
  cases h with
  | apart queue locks => exact ⟨queue, locks⟩
  | takes thread | waits thread | passes thread | sleeps thread | wakes thread
  | wakesAll thread => cases thread

/-- A program that is about to suspend its thread does nothing else before. -/
theorem not_go_of_halts (h : a.Halts) : s.stepCode actor a ≠ .ok (.go a' s') := by
  intro hr
  obtain ⟨hc, r, hs⟩ := h
  cases stepCode_ok hr with
  | begins _ stage => cases hs.symm.trans stage
  | resumes _ stage _ poll =>
    cases hs.symm.trans stage
    obtain ⟨_, -, hy, -⟩ := pollPoint_ready poll
    cases hy

end System

namespace Machine

/-- The program whose instruction is executed next. -/
def executing? (m : Machine) : Option Activation :=
  match m.stack with
  | .program _ a :: _ => some a
  | .thread d :: _ => some d.task.coroutine
  | _ => none

/-- The next instruction does not handle the queue itself. -/
def Leaves (q : QueueId) (m : Machine) : Prop :=
  ∀ a, m.executing? = some a → ¬ a.Touches q m.system

/-- The queue belongs to at most one lock or condition, and the next instruction does not handle
it in another way. -/
structure Private (q : QueueId) (m : Machine) : Prop where
  reserves : m.system.Reserves q
  program : m.Leaves q

/-- All waiters of the queue are suspended, or about to be. While a thread runs, the others are
calm. -/
structure Guarded (q : QueueId) (m : Machine) : Prop where
  stirred : m.thread? = none → Kernel.Stirred q m.system.kernel
  calm : ∀ t, m.thread? = some t → CalmBut (some t) q m.system.kernel
  running : ∀ d below, m.stack = .thread d :: below →
    m.system.kernel.table.waitingQueue d.thread = some q →
      d.task.coroutine.Halts ∧ (m.system.kernel.registry.get? d.thread).isSome

/-- What a step does to the waiters of the queue: it is a deal of the running thread, or nobody
comes or leaves. -/
inductive Affects (q : QueueId) (m m' : Machine) : Prop where
  | deal {d : Kernel.Dispatched Activation} {a' : Activation} {below : List Frame}
      (stack : m.stack = .thread d :: below) (after : m'.stack = .thread (holding d a') :: below)
      (code : m.system.stepCode (.thread d.thread) d.task.coroutine = .ok (.go a' m'.system))
      (free : m.system.kernel.table.waitingQueue d.thread ≠ some q)
      (deal : m.system.Deal q (some d.thread) d.task.coroutine a' m'.system)
  | none (waiting : ∀ u, m'.system.kernel.table.waitingQueue u = some q ↔
        m.system.kernel.table.waitingQueue u = some q)
      (locks : ∀ {i : Nat} {l : Lock}, m.system.locks[i]? = some l → l.queue = q →
        m'.system.locks[i]? = some l)

variable {m m' : Machine} {q : QueueId} {below : List Frame}

/-- A running thread that goes on does not wait. -/
theorem Guarded.free {d : Kernel.Dispatched Activation} {a' : Activation} {s' : System}
    (h : m.Guarded q) (hs : m.stack = .thread d :: below)
    (hc : m.system.stepCode (.thread d.thread) d.task.coroutine = .ok (.go a' s')) :
    m.system.kernel.table.waitingQueue d.thread ≠ some q := fun hw =>
  System.not_go_of_halts (h.running d below hs hw).1 hc

theorem Guarded.poised {d : Kernel.Dispatched Activation} (h : m.Guarded q) (hr : m.Regular)
    (hp : m.Private q) (hs : m.stack = .thread d :: below)
    (hf : m.system.kernel.table.waitingQueue d.thread ≠ some q) :
    m.system.Poised q (some d.thread) := by
  have hset : AllCalm q m.system.kernel := fun u hu _ =>
    h.calm _ (thread?_eq hs) u hu fun e => hf (by rw [Option.some.inj e]; exact hu)
  refine ⟨hr.sane, hp.reserves, hr.current.trans (thread?_eq hs), fun u hu => ?_, ?_,
    fun _ _ => hset⟩
  · obtain ⟨-, slot, hslot, -⟩ := hset u hu (by simp)
    exact Option.isSome_iff_exists.2 ⟨slot, hslot⟩
  · rintro t ⟨⟩
    exact hf

theorem Guarded.poised_none (h : m.Guarded q) (hr : m.Regular) (hp : m.Private q)
    (hi : m.thread? = none) : m.system.Poised q none := by
  refine ⟨hr.sane, hp.reserves, hr.current.trans hi, fun u hu => ?_, by simp, by simp⟩
  obtain ⟨slot, hslot, -⟩ := h.stirred hi u hu
  exact Option.isSome_iff_exists.2 ⟨slot, hslot⟩

theorem Guarded.of_idle (hi : Idle m.stack) (h : Kernel.Stirred q m.system.kernel) :
    m.Guarded q :=
  ⟨fun _ => h, fun _ ht => (nomatch (thread?_of_idle hi).symm.trans ht),
    fun d _ hs => absurd (hs ▸ List.mem_cons_self) (hi d)⟩

/-- Nobody else's slot changes as a thread parks, and its own is calm if it waits. -/
theorem Guarded.parks {d : Kernel.Dispatched Activation} {a' : Activation} {s : System}
    {k : Kernel Activation} (h : m.Guarded q) (hr : m.Regular) (hs : m.stack = .thread d :: below)
    (hcode : m.system.stepCode (.thread d.thread) d.task.coroutine = .ok (.park a' s))
    (hpark : s.kernel.park (holding d a') = .ok k) :
    Kernel.Stirred q k ∧ k.table = m.system.kernel.table ∧ s.locks = m.system.locks := by
  obtain ⟨_, p, r, p', k₁, -, hstage, hcur, hpoll, rfl, rfl⟩ := System.stepCode_park hcode
  rw [hr.current, thread?_eq hs] at hcur
  cases hcur
  obtain ⟨htable, hothers⟩ := Kernel.pollPoint_others hpoll
  obtain ⟨hktable, -, -, slot, hslot, hget⟩ := park_get? hpark
  have hset := h.calm _ (thread?_eq hs)
  have hw : ∀ u, k.table.waitingQueue u = m.system.kernel.table.waitingQueue u := fun u => by
    rw [hktable]
    exact congrArg (fun tb => tb.waitingQueue u) htable
  refine ⟨fun u hu => ?_, hktable.trans htable, rfl⟩
  rw [hw] at hu
  by_cases hud : d.thread = u
  · subst hud
    obtain ⟨⟨-, r', hhalts⟩, halive⟩ := h.running d below hs hu
    rw [hstage] at hhalts
    cases hhalts
    obtain ⟨slot₀, hslot₀⟩ := Option.isSome_iff_exists.1 halive
    have hpolled := Kernel.pollPoint_untilWake hslot₀ hpoll
    have hslot : k₁.registry.get? d.thread = some slot := hslot
    rw [hpolled, hr.sane.waker hslot₀] at hslot
    cases hslot
    exact ⟨_, (hget d.thread).trans (if_pos rfl), .inl rfl⟩
  · obtain ⟨-, x, hx, hsig⟩ := hset u hu (by simpa using hud)
    exact ⟨x, (hget u).trans ((if_neg hud).trans ((hothers u (Ne.symm hud)).trans hx)), .inl hsig⟩

/-- What is asked of a step so that the waiters stay guarded: only the running thread comes to
wait, and suspends then. -/
structure Respects (q : QueueId) (m m' : Machine) : Prop where
  ready : m.system.kernel.readyQueue ≠ q
  program : ∀ {actor : Actor} {a a' : Activation} {below : List Frame},
    m.stack = .program actor a :: below → m.system.stepCode actor a = .ok (.go a' m'.system) →
      Apart q m.system.kernel m'.system.kernel
  thread : ∀ {d : Kernel.Dispatched Activation} {a' : Activation} {below : List Frame},
    m.stack = .thread d :: below →
      m.system.stepCode (.thread d.thread) d.task.coroutine = .ok (.go a' m'.system) →
        ∃ joins leaves, Alters q joins leaves m.system.kernel m'.system.kernel ∧
          ∀ u, joins u → u = d.thread ∧ a'.Halts ∧ (m'.system.kernel.registry.get? u).isSome
  retires : ∀ {d : Kernel.Dispatched Activation} {below : List Frame} {slot : Slot Activation},
    m.stack = .thread d :: below → d.task.coroutine.code = [] →
      m.system.kernel.registry.get? d.thread = some slot → slot.joinQueue ≠ q

/-- The waiters stay guarded. Unless a thread goes on, nobody comes or leaves. -/
theorem Guarded.turn (h : m.Guarded q) (hr : m.Regular) (hp : Respects q m m') (ht : Turn m m') :
    m'.Guarded q ∧ (m.thread? = none ∨ m'.thread? = none →
      ∀ u, m'.system.kernel.table.waitingQueue u = some q ↔
        m.system.kernel.table.waitingQueue u = some q) := by
  cases ht with
  | @program actor a a' below stack code after =>
    have hi : m.thread? = none := by rw [thread?, stack]
    have hi' : Idle m'.stack := by
      rw [after]
      exact idle_cons (by simpa [stack] using hr.below) (by simp)
    have hapart := hp.program stack code
    exact ⟨.of_idle hi' ((h.stirred hi).apart hapart), fun _ => Apart.waiting_iff hapart⟩
  | @thread d a' below stack code after =>
    have hfree := h.free stack code
    obtain ⟨joins, leaves, halters, hjoins⟩ := hp.thread stack code
    have hrun : m.thread? ≠ none ∧ m'.thread? ≠ none := by simp [thread?, stack, after]
    refine ⟨⟨fun hn => absurd hn hrun.2, fun t ht => ?_, fun d' below' hs' hw => ?_⟩,
      fun hn => absurd hn (not_or.2 hrun)⟩
    · rw [thread?, after] at ht
      cases ht
      exact (h.calm _ (thread?_eq stack)).alters halters fun u hu =>
        congrArg some (hjoins u hu).1.symm
    · rw [after] at hs'
      cases hs'
      rcases (halters.waiting _).1 hw with hj | ⟨hw, -⟩
      · exact (hjoins _ hj).2
      · exact absurd hw hfree
  | @parks d a' s k below stack code park system after =>
    obtain ⟨hstirred, htable, -⟩ := h.parks hr stack code park
    have hi' : Idle m'.stack := by simpa [stack, after] using hr.below
    refine ⟨.of_idle hi' ?_, fun _ u => ?_⟩
    · rw [system]
      exact hstirred.congr rfl rfl
    · rw [system]
      exact Eq.congr_left (congrArg (fun tb => tb.waitingQueue u) htable)
  | @retires d k below stack code finish system after =>
    have hfree : m.system.kernel.table.waitingQueue d.thread ≠ some q := fun hw =>
      (h.running d below stack hw).1.1 code
    have hi' : Idle m'.stack := by simpa [stack, after] using hr.below
    rw [System.restoreAll_eq] at finish
    have hsane : (Kernel.backToLoop d (m.system.kernel.restore
        (d.task.coroutine.guards.getLastD m.system.kernel.level))).Sane :=
      ⟨hr.sane.sound, hr.sane.waker, hr.sane.signal⟩
    have hapart := Kernel.retire_apart hsane hfree (fun slot hs => hp.retires stack code hs) finish
    have hset : CalmBut (some d.thread) q (Kernel.backToLoop d (m.system.kernel.restore
        (d.task.coroutine.guards.getLastD m.system.kernel.level))) := fun u hu hx =>
      have hc := h.calm _ (thread?_eq stack) u hu hx
      ⟨hc.channel, hc.signal⟩
    have hstirred := (hset.stirred fun u hu hw => absurd (Option.some.inj hu ▸ hw) hfree).apart
      hapart
    refine ⟨.of_idle hi' ?_, fun _ u => ?_⟩
    · rw [system]
      exact hstirred.congr rfl rfl
    · rw [system]
      exact Apart.waiting_iff hapart u
  | @alarm i alarm alarm' k idle idle' release same events =>
    have hk := h.stirred (thread?_of_idle idle)
    obtain ⟨hwake, -⟩ := Alarm.release_ok release
    obtain ⟨hstirred, hw⟩ := hk.wakeEach _ hr.sane hwake
    refine ⟨.of_idle idle' (hstirred.congr same.table same.registry), fun _ u => ?_⟩
    rw [← hw u]
    exact Eq.congr_left (congrArg (fun tb => tb.waitingQueue u) same.table)
  | chooses idle idle' choose same =>
    obtain ⟨hset, hw, -⟩ := (h.stirred (thread?_of_idle idle)).choose hr.sane hp.ready choose
    refine ⟨.of_idle idle' ((hset.stirred (by simp)).congr same.table same.registry),
      fun _ u => ?_⟩
    rw [← hw u]
    exact Eq.congr_left (congrArg (fun tb => tb.waitingQueue u) same.table)
  | @dispatches u k k' d below idle choose dispatch system idle' after =>
    obtain ⟨hset, hw, hnone⟩ := (h.stirred (thread?_of_idle idle)).choose hr.sane hp.ready choose
    obtain ⟨hd, htable, -, -, hch, slot, hslot, -, hget⟩ := dispatch_get? dispatch
    have hwait : ∀ v, m'.system.kernel.table.waitingQueue v = k.table.waitingQueue v := fun v => by
      rw [system]
      exact congrArg (fun tb => tb.waitingQueue v) htable
    refine ⟨⟨fun hn => ?_, fun t ht v hv hx => ?_, fun d' below' hs' hv => ?_⟩, fun _ v => ?_⟩
    · rw [thread?, after] at hn
      cases hn
    · rw [thread?_eq after] at ht
      cases ht
      rw [hwait] at hv
      obtain ⟨hcv, x, hx', hsig⟩ := hset v hv (by simp)
      have hne : ¬ u = v := fun e => hx (congrArg some (hd.trans e))
      refine ⟨?_, x, ?_, hsig⟩
      · rw [system]
        exact hch ▸ hcv
      · rw [system]
        exact (hget v).trans ((if_neg hne).trans hx')
    · rw [after] at hs'
      cases hs'
      rw [hwait, hd, hnone u rfl] at hv
      cases hv
    · rw [hwait, hw]
  | quiet idle idle' same =>
    refine ⟨.of_idle idle' ((h.stirred (thread?_of_idle idle)).congr same.table same.registry),
      fun _ u => ?_⟩
    rw [same.table]

theorem Private.respects (hp : m.Private q) (h : m.Guarded q) (hr : m.Regular) :
    Respects q m m' where
  ready := hp.reserves.ready
  program {actor a a' below} stack code := by
    have hi : m.thread? = none := by rw [thread?, stack]
    have hnot : ¬ a.Touches q m.system := hp.program a (by rw [executing?, stack])
    exact ((h.poised_none hr hp hi).stepCode hnot code).apart_of_none.1
  thread {d a' below} stack code := by
    have hnot : ¬ d.task.coroutine.Touches q m.system := hp.program _ (by rw [executing?, stack])
    have hdeal := (h.poised hr hp stack (h.free stack code)).stepCode hnot code
    obtain ⟨joins, leaves, halters, hjoins⟩ := hdeal.alters
    exact ⟨joins, leaves, halters, fun u hu =>
      ⟨(Option.some.inj (hjoins u hu).1).symm, (hjoins u hu).2⟩⟩
  retires _ _ hs := hp.reserves.join hs

/-- A step of a program that leaves the queue to its lock or condition. -/
theorem Guarded.next (h : m.Guarded q) (hr : m.Regular) (hp : m.Private q) (ht : Turn m m') :
    m'.Guarded q ∧ Affects q m m' := by
  obtain ⟨hguarded, hwaiting⟩ := h.turn hr (hp.respects h hr) ht
  refine ⟨hguarded, ?_⟩
  have hleft : ∀ {s : System}, m'.system.locks = s.locks → s.locks = m.system.locks →
      ∀ {i : Nat} {l : Lock}, m.system.locks[i]? = some l → l.queue = q →
        m'.system.locks[i]? = some l := fun hs hm _ _ hl _ => hs ▸ hm ▸ hl
  cases ht with
  | @program actor a a' below stack code after =>
    have hi : m.thread? = none := by rw [thread?, stack]
    have hnot : ¬ a.Touches q m.system := hp.program a (by rw [executing?, stack])
    exact .none (hwaiting (.inl hi)) ((h.poised_none hr hp hi).stepCode hnot code).apart_of_none.2
  | @thread d a' below stack code after =>
    have hfree := h.free stack code
    have hnot : ¬ d.task.coroutine.Touches q m.system := hp.program _ (by rw [executing?, stack])
    exact .deal stack after code hfree ((h.poised hr hp stack hfree).stepCode hnot code)
  | @parks d a' s k below stack code park system after =>
    obtain ⟨-, -, hlocks⟩ := h.parks hr stack code park
    have hi' : Idle m'.stack := by simpa [stack, after] using hr.below
    exact .none (hwaiting (.inr (thread?_of_idle hi'))) (hleft (congrArg System.locks system) hlocks)
  | retires stack code finish system after =>
    have hi' : Idle m'.stack := by simpa [stack, after] using hr.below
    exact .none (hwaiting (.inr (thread?_of_idle hi'))) (hleft (congrArg System.locks system) rfl)
  | dispatches idle choose dispatch system =>
    exact .none (hwaiting (.inl (thread?_of_idle idle))) (hleft (congrArg System.locks system) rfl)
  | alarm idle _ _ same | chooses idle _ _ same | quiet idle _ same =>
    exact .none (hwaiting (.inl (thread?_of_idle idle))) (hleft same.locks rfl)

/-- A queue on which nobody waits. -/
theorem Guarded.of_unwaited (h : ∀ u, m.system.kernel.table.waitingQueue u ≠ some q) :
    m.Guarded q :=
  ⟨fun _ u hu => absurd hu (h u), fun _ _ u hu => absurd hu (h u),
    fun d _ _ hw => absurd hw (h d.thread)⟩

end Machine
end ThreadKernel
