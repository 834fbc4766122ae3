import ThreadKernel.Proofs.Kernel.Serve
import ThreadKernel.Proofs.Machine.Effects

/-!
# ThreadKernel.Proofs.Machine.Deals

What programs do with a queue that only one lock or one condition uses. Of all instructions only
those on that lock or that condition change who waits there.

* `Action.Touches`   — operations on the queue itself, and wakes that no queue knows of.
* `System.Reserves`  — no two locks, conditions, threads or the kernel share the queue.
* `System.Deal`      — all that a step of a program can do with such a queue.
* `Poised.stepCode`  — nothing else happens.
-/

namespace ThreadKernel

open Kernel (Alters Apart Serves Empties AllCalm CalmBut Passes)

/-- The action handles the queue itself, or makes a thread ready that may wait there. -/
def Action.Touches (q : QueueId) (s : System) : Action → Prop
  | .markReady _ => True
  | .destroyQueue r | .waitOn r _ | .acquireQueue r _ | .serve r => r = q
  | .dropWaitQueue i | .waitQueueWait i _ | .waitQueueAcquire i _ | .waitQueueNext i =>
    s.waitQueues[i]? = some (some q)
  | _ => False

namespace Activation

/-- The program is about to begin the instruction. -/
def Begins (i : Instr) (a : Activation) : Prop := a.stage = .fresh ∧ ∃ rest, a.code = i :: rest

/-- The program is about to give up the lock with the index `i`. -/
def GivesUp (i : Nat) (s : System) (a : Activation) : Prop :=
  a.Begins (.act (.release i)) ∨
    ∃ c x, a.Begins (.sleep c) ∧ s.conditions[c]? = some x ∧ x.lock = i

/-- The program is about to suspend its thread until it is woken. -/
def Halts (a : Activation) : Prop := a.code ≠ [] ∧ ∃ r, a.stage = .suspended .untilWake r

def Touches (q : QueueId) (s : System) (a : Activation) : Prop :=
  ∃ b, a.Begins (.act b) ∧ b.Touches q s

end Activation

namespace System

/-- At most one lock or condition has the queue, and nobody else does. -/
structure Reserves (q : QueueId) (s : System) : Prop where
  ready : s.kernel.readyQueue ≠ q
  join : ∀ {t slot}, s.kernel.registry.get? t = some slot → slot.joinQueue ≠ q
  lock : ∀ {i j : Nat} {l m : Lock}, s.locks[i]? = some l → s.locks[j]? = some m → l.queue = q →
    m.queue = q → i = j
  condition : ∀ {i j : Nat} {c d : Condition}, s.conditions[i]? = some c →
    s.conditions[j]? = some d → c.queue = q → d.queue = q → i = j
  apart : ∀ {i j : Nat} {l : Lock} {c : Condition}, s.locks[i]? = some l →
    s.conditions[j]? = some c → l.queue = q → c.queue ≠ q

/-- An instruction can begin: the running thread does not wait, and all waiters are calm. -/
structure Poised (q : QueueId) (x : Option ThreadId) (s : System) : Prop where
  sane : s.kernel.Sane
  reserves : s.Reserves q
  current : s.kernel.registry.current = x
  alive : ∀ u, s.kernel.table.waitingQueue u = some q → (s.kernel.registry.get? u).isSome
  free : ∀ t, x = some t → s.kernel.table.waitingQueue t ≠ some q
  calm : ∀ t, x = some t → AllCalm q s.kernel

/-- What a step of `x` does with the queue, which belongs to a lock or to a condition if it does
anything. -/
inductive Deal (q : QueueId) (x : Option ThreadId) (a : Activation) (s : System)
    (a' : Activation) (s' : System) : Prop where
  | apart (queue : Apart q s.kernel s'.kernel)
      (locks : ∀ {i : Nat} {l : Lock}, s.locks[i]? = some l → l.queue = q → s'.locks[i]? = some l)
  | takes {t : ThreadId} {i : Nat} {l : Lock} (thread : x = some t)
      (lock : s.locks[i]? = some l) (own : l.queue = q) (free : l.holder = none)
      (queue : Apart q s.kernel s'.kernel)
      (taken : s'.locks[i]? = some { l with holder := some t })
  | waits {t u : ThreadId} {i : Nat} {l : Lock} (thread : x = some t)
      (lock : s.locks[i]? = some l) (own : l.queue = q) (held : l.holder = some u)
      (alive : (s'.kernel.registry.get? t).isSome)
      (queue : Alters q (fun v => v = t) (fun _ => False) s.kernel s'.kernel)
      (kept : s'.locks[i]? = some l) (halts : a'.Halts)
  | passes {t : ThreadId} {i : Nat} {l : Lock} (thread : x = some t)
      (begins : a.GivesUp i s) (lock : s.locks[i]? = some l) (own : l.queue = q)
      (held : l.holder = some t) (queue : Serves q s.kernel s'.kernel)
      (passed : s'.locks[i]? = some { l with holder := s.kernel.table.chosen q })
  | sleeps {t : ThreadId} {i : Nat} {c : Condition} (thread : x = some t)
      (begins : a.Begins (.sleep i)) (condition : s.conditions[i]? = some c) (own : c.queue = q)
      (alive : (s'.kernel.registry.get? t).isSome)
      (queue : Alters q (fun v => v = t) (fun _ => False) s.kernel s'.kernel) (halts : a'.Halts)
  | wakes {t : ThreadId} {i : Nat} {c : Condition} {l : Lock} (thread : x = some t)
      (begins : a.Begins (.act (.wake i))) (condition : s.conditions[i]? = some c)
      (own : c.queue = q) (lock : s.locks[c.lock]? = some l) (held : l.holder = some t)
      (queue : Serves q s.kernel s'.kernel)
  | wakesAll {t : ThreadId} {i : Nat} {c : Condition} {l : Lock} (thread : x = some t)
      (begins : a.Begins (.act (.wakeAll i))) (condition : s.conditions[i]? = some c)
      (own : c.queue = q) (lock : s.locks[c.lock]? = some l) (held : l.holder = some t)
      (queue : Empties q s.kernel s'.kernel)

/-- The lock under the index `j` passes from `t` to the waiter that the policy selects. -/
structure HandsOver (t : ThreadId) (j : Nat) (l : Lock) (s s' : System) : Prop where
  held : l.holder = some t
  queue : Serves l.queue s.kernel s'.kernel
  passed : s'.locks[j]? = some { l with holder := s.kernel.table.chosen l.queue }

variable {q : QueueId} {x : Option ThreadId} {a a' b : Activation} {s s' s₁ : System} {v : Value}
  {actor : Actor} {k : Kernel Activation} {t : ThreadId} {i : Instr} {rest : List Instr}
  {r : Progress}

/-- A step that leaves the queue and the locks alone. -/
theorem Deal.of_eq (ht : s'.kernel.table = s.kernel.table)
    (hr : s'.kernel.registry = s.kernel.registry) (hl : s'.locks = s.locks) :
    Deal q x a s a' s' := .apart (.of_eq ht hr) fun h _ => by rwa [hl]

/-- Levels and the log do not matter. -/
theorem Deal.relevel {level : Level} (h : Deal q x a s b s₁)
    (hk : s'.kernel = s₁.kernel.restore level) (hl : s'.locks = s₁.locks)
    (hh : b.Halts → a'.Halts) : Deal q x a s a' s' := by
  cases h with
  | apart queue locks =>
    refine .apart ?_ fun h h' => by rw [hl]; exact locks h h'
    rw [hk]
    exact queue.restore level
  | takes thread lock own free queue taken =>
    exact .takes thread lock own free (hk ▸ queue.restore level) (hl ▸ taken)
  | waits thread lock own held alive queue kept halts =>
    exact .waits thread lock own held (hk ▸ alive) (hk ▸ queue.restore level) (hl ▸ kept) (hh halts)
  | passes thread begins lock own held queue passed =>
    exact .passes thread begins lock own held (hk ▸ queue.restore level) (hl ▸ passed)
  | sleeps thread begins condition own alive queue halts =>
    exact .sleeps thread begins condition own (hk ▸ alive) (hk ▸ queue.restore level) (hh halts)
  | wakes thread begins condition own lock held queue =>
    exact .wakes thread begins condition own lock held (hk ▸ queue.restore level)
  | wakesAll thread begins condition own lock held queue =>
    exact .wakesAll thread begins condition own lock held (hk ▸ queue.restore level)

/-- The program goes on behind its first instruction. -/
theorem returns_eq (hc : a.code = i :: rest) (h : s.returns actor v a = .ok r) :
    ∃ level, r = .go { a with code := rest, stage := .fresh, regions := [] }
      { s with
        kernel := s.kernel.restore level
        events := ⟨actor, s.kernel.now, i, v⟩ :: s.events } := by
  refine ⟨a.regions.getLastD s.kernel.level, ?_⟩
  simp only [returns, complete, hc, restoreAll_eq] at h
  exact (Except.ok.inj h).symm

theorem Deal.returns (hr : s₁.returns actor v b = .ok (.go a' s')) (hc : b.code = i :: rest)
    (h : ∀ b, Deal q x a s b s₁) : Deal q x a s a' s' := by
  obtain ⟨level, hgo⟩ := returns_eq hc hr
  cases hgo
  exact (h _).relevel rfl rfl id

/-! ## Actions -/

/-- The holder of a lock releases it. -/
theorem Poised.handsOver {j : Nat} {l l' : Lock} (h : s.Poised l.queue x)
    (hl : s.locks[j]? = some l) (hr : l.release s.kernel = .ok (l', k)) :
    ∃ t, x = some t ∧ HandsOver t j l s { s with kernel := k, locks := s.locks.set j l' } := by
  obtain ⟨t, hcur, hheld, served, hp, rfl⟩ := Lock.release_cases hr
  rw [h.current] at hcur
  obtain ⟨hc, hs⟩ := hp.serves h.sane (h.calm t hcur)
  refine ⟨t, hcur, hheld, hs, ?_⟩
  rw [hc]
  exact List.getElem?_set_self (List.getElem?_eq_some_iff.1 hl).1

theorem getElem?_set_of_queue {j : Nat} {l l' : Lock} (hl : s.locks[j]? = some l)
    (hq : l.queue ≠ q) {n : Nat} {m : Lock} (hm : s.locks[n]? = some m) (hmq : m.queue = q) :
    (s.locks.set j l')[n]? = some m := by
  have hne : j ≠ n := by
    rintro rfl
    rw [hl] at hm
    cases hm
    exact hq hmq
  exact (List.getElem?_set_ne hne).trans hm

theorem Poised.releaseLock {j : Nat} (h : s.Poised q x) (hb : a.Begins (.act (.release j)))
    (hr : s.releaseLock j = .ok (v, s')) (a' : Activation) : Deal q x a s a' s' := by
  obtain ⟨l, l', k, hl, hrel, rfl⟩ := releaseLock_ok hr
  by_cases hq : l.queue = q
  · subst hq
    obtain ⟨t, hx, hover⟩ := h.handsOver hl hrel
    exact .passes hx (.inl hb) hl rfl hover.held hover.queue hover.passed
  · obtain ⟨t, -, -, served, hp, rfl⟩ := Lock.release_cases hrel
    exact .apart (hp.apart h.sane hq) (getElem?_set_of_queue hl hq)

/-- A wake by the holder of the lock. -/
theorem Poised.serves {c : Condition} {l : Lock} (h : s.Poised c.queue x)
    (hr : c.wake l s.kernel = .ok k) :
    ∃ t, x = some t ∧ l.holder = some t ∧ Serves c.queue s.kernel k := by
  obtain ⟨t, hcur, hheld, served, hp⟩ := Condition.wake_cases hr
  rw [h.current] at hcur
  exact ⟨t, hcur, hheld, (hp.serves h.sane (h.calm t hcur)).2⟩

theorem Poised.wake {j : Nat} (h : s.Poised q x) (hb : a.Begins (.act (.wake j)))
    (hr : s.onCondition j Condition.wake = .ok (v, s')) (a' : Activation) :
    Deal q x a s a' s' := by
  obtain ⟨c, l, k, hc, hl, hk, rfl⟩ := onCondition_ok hr
  by_cases hq : c.queue = q
  · subst hq
    obtain ⟨t, hx, hheld, hs⟩ := h.serves hk
    exact .wakes hx hb hc rfl hl hheld hs
  · obtain ⟨t, -, -, served, hp⟩ := Condition.wake_cases hk
    exact .apart (hp.apart h.sane hq) fun hm _ => hm

/-- A wake of all sleepers by the holder of the lock. -/
theorem Poised.empties {c : Condition} {l : Lock} (h : s.Poised c.queue x)
    (hr : c.wakeAll l s.kernel = .ok k) :
    ∃ t, x = some t ∧ l.holder = some t ∧ Empties c.queue s.kernel k := by
  obtain ⟨t, hcur, hheld, -⟩ := Condition.wakeAll_cases hr
  rw [h.current] at hcur
  exact ⟨t, hcur, hheld, Condition.wakeAll_empties h.sane (h.calm t hcur) hr⟩

theorem Poised.wakeAll {j : Nat} (h : s.Poised q x) (hb : a.Begins (.act (.wakeAll j)))
    (hr : s.onCondition j Condition.wakeAll = .ok (v, s')) (a' : Activation) :
    Deal q x a s a' s' := by
  obtain ⟨c, l, k, hc, hl, hk, rfl⟩ := onCondition_ok hr
  by_cases hq : c.queue = q
  · subst hq
    obtain ⟨t, hx, hheld, hs⟩ := h.empties hk
    exact .wakesAll hx hb hc rfl hl hheld hs
  · exact .apart (Condition.wakeAll_apart h.sane hq hk) fun hm _ => hm

theorem Poised.spawn {j : Nat} (h : s.Poised q x) (hr : s.spawn j = .ok (v, s'))
    (a' : Activation) : Deal q x a s a' s' := by
  obtain ⟨_, _, _, -, hk, rfl⟩ := spawn_ok hr
  exact .apart (Kernel.spawn_apart h.sane.sound h.reserves.ready h.alive hk) fun hm _ => hm

/-- A call of the kernel on another queue. -/
theorem Deal.change {f : Except Fault (Kernel Activation)} (hr : s.change f = .ok (v, s'))
    (hf : ∀ {k}, f = .ok k → Apart q s.kernel k) : Deal q x a s a' s' := by
  obtain ⟨k, hk, rfl⟩ := change_ok hr
  exact .apart (hf hk) fun hm _ => hm

theorem Deal.serve {p : QueueId} (hs : s.kernel.table.Sound) (hp : p ≠ q)
    (hr : s.serve p = .ok (v, s')) : Deal q x a s a' s' := by
  obtain ⟨_, _, hn, rfl⟩ := serve_ok hr
  exact .apart (Kernel.nextThread_apart hs hp hn) fun hm _ => hm

theorem waitQueue_ok {j : Nat} {p : QueueId} (h : s.waitQueue j = .ok p) :
    s.waitQueues[j]? = some (some p) := by
  unfold waitQueue at h
  split at h
  · cases h
  · cases h
  · rename_i hf
    cases h
    exact fetch_ok hf

theorem dropWaitQueue_ok {j : Nat} (h : s.dropWaitQueue j = .ok (v, s')) :
    ∃ p k, s.waitQueues[j]? = some (some p) ∧ s.kernel.destroyQueue p = .ok k ∧
      s' = { s with kernel := k, waitQueues := s.waitQueues.set j none } := by
  unfold dropWaitQueue at h
  split at h
  · cases h
  · rename_i p hp
    obtain ⟨k, hk, rfl⟩ := change_ok h
    exact ⟨p, k, waitQueue_ok hp, hk, rfl⟩

theorem onWaitQueue_cases {j : Nat} {f : QueueId → Effect} (h : s.onWaitQueue j f = .ok (v, s')) :
    ∃ p, s.waitQueues[j]? = some (some p) ∧ f p = .ok (v, s') := by
  unfold onWaitQueue at h
  split at h
  · cases h
  · rename_i p hp
    exact ⟨p, waitQueue_ok hp, h⟩

theorem Poised.perform {b : Action} (h : s.Poised q x) (hb : a.Begins (.act b))
    (ht : ¬ b.Touches q s) (hr : s.perform b = .ok (v, s')) (a' : Activation) :
    Deal q x a s a' s' := by
  have hs := h.sane.sound
  have same : s' = s → Deal q x a s a' s' := by
    rintro rfl
    exact .of_eq rfl rfl rfl
  have hne : ∀ {j : Nat} {p : QueueId}, ¬ s.waitQueues[j]? = some (some q) →
      s.waitQueues[j]? = some (some p) → p ≠ q := fun hj hp e => hj (e ▸ hp)
  cases b with
  | atomic | enter | exit | guard | unguard | run | inAtomic | note | now | policy | bounds
  | tryCurrent | numThreads | read =>
    cases hr
    exact same rfl
  | assertAtomic | current | ownerOf | waitersOf | held | holder | alarmSleepers =>
    exact same (answer_ok hr)
  | alive t =>
    obtain ⟨u, hu⟩ := onThread_ok hr
    cases hu
    exact same rfl
  | getPriority t | getEffective t =>
    obtain ⟨u, hu⟩ := onThread_ok hr
    exact same (answer_ok hu)
  | waitQueueOwner j | waitQueueSize j =>
    obtain ⟨p, hp⟩ := onWaitQueue_ok hr
    exact same (answer_ok hp)
  | sleepers c =>
    exact same (sleepers_ok hr)
  | spawn j => exact h.spawn hr a'
  | markReady t => exact absurd trivial ht
  | setPriority t p =>
    obtain ⟨u, hu⟩ := onThread_ok hr
    exact .change hu fun hk => Kernel.setPriority_apart q hs (Kernel.atomically_ok hk)
  | increasePriority =>
    obtain ⟨_, k, hk, rfl⟩ := shift_ok hr
    rcases Kernel.increasePriority_cases hk with rfl | ⟨t, p, -, hset⟩
    · exact same rfl
    · exact .apart (Kernel.setPriority_apart q hs hset) fun hm _ => hm
  | decreasePriority =>
    obtain ⟨_, k, hk, rfl⟩ := shift_ok hr
    rcases Kernel.decreasePriority_cases hk with rfl | ⟨t, p, -, hset⟩
    · exact same rfl
    · exact .apart (Kernel.setPriority_apart q hs hset) fun hm _ => hm
  | createQueue transfer =>
    cases hr
    exact .apart (Kernel.createQueue_apart q s.kernel transfer) fun hm _ => hm
  | destroyQueue p => exact .change hr (Kernel.destroyQueue_apart hs ht)
  | waitOn p t =>
    obtain ⟨u, hu⟩ := onThread_ok hr
    exact .change hu (Kernel.waitForAccess_apart hs ht)
  | acquireQueue p t =>
    obtain ⟨u, hu⟩ := onThread_ok hr
    exact .change hu (Kernel.acquire_apart hs ht)
  | serve p => exact .serve hs ht hr
  | newWaitQueue transfer =>
    cases hr
    exact .apart (Kernel.createQueue_apart q s.kernel transfer) fun hm _ => hm
  | dropWaitQueue j =>
    obtain ⟨p, k, hp, hk, rfl⟩ := dropWaitQueue_ok hr
    exact .apart (Kernel.destroyQueue_apart hs (hne ht hp) hk) fun hm _ => hm
  | waitQueueWait j t =>
    obtain ⟨u, hu⟩ := onThread_ok hr
    obtain ⟨p, hp, hf⟩ := onWaitQueue_cases hu
    exact .change hf (Kernel.waitForAccess_apart hs (hne ht hp))
  | waitQueueAcquire j t =>
    obtain ⟨u, hu⟩ := onThread_ok hr
    obtain ⟨p, hp, hf⟩ := onWaitQueue_cases hu
    exact .change hf (Kernel.acquire_apart hs (hne ht hp))
  | waitQueueNext j =>
    obtain ⟨p, hp, hf⟩ := onWaitQueue_cases hr
    exact .serve hs (hne ht hp) hf
  | newLock =>
    cases hr
    refine .apart (Kernel.createQueue_apart q s.kernel true) fun hm _ => ?_
    exact (List.getElem?_append_left (List.getElem?_eq_some_iff.1 hm).1).trans hm
  | release l => exact h.releaseLock hb hr a'
  | newCondition l =>
    obtain ⟨_, -, rfl⟩ := newCondition_ok hr
    exact .apart (Kernel.createQueue_apart q s.kernel false) fun hm _ => hm
  | wake c => exact h.wake hb hr a'
  | wakeAll c => exact h.wakeAll hb hr a'
  | newAlarm | timer n body =>
    cases hr
    exact .of_eq rfl rfl rfl
  | set v x | add v x | copy v w =>
    cases hr
    exact .of_eq rfl rfl rfl

/-! ## Instructions -/

theorem blocks_eq {p : Resume} (h : s.blocks p a = .ok r) :
    (∃ t, s.kernel.registry.current = some t ∧ (s.kernel.registry.get? t).isSome) ∧
      r = .go { a with stage := .suspended .untilWake p } s := by
  unfold System.blocks at h
  split at h
  · cases h
  · rename_i t ht
    refine ⟨?_, (Except.ok.inj h).symm⟩
    have ht := Kernel.atomically_ok ht
    split at ht
    · cases ht
    · rename_i u hu
      split at ht
      · rename_i hc
        exact ⟨u, Kernel.currentThread_ok hu, (Registry.contains_eq_isSome _ _).symm.trans hc⟩
      · cases ht

/-- A request of a lock is granted, or the caller waits for the lock. -/
theorem beginAcquire_cases {j : Nat} (h : s.beginAcquire actor j a = .ok r) :
    ∃ l t, s.locks[j]? = some l ∧ s.kernel.registry.current = some t ∧
      ((∃ k, l.holder = none ∧ s.kernel.enter.acquire l.queue t = .ok k ∧
          System.returns actor .nothing a { s with
            kernel := k.restore s.kernel.level
            locks := s.locks.set j { l with holder := some t } } = .ok r) ∨
        ∃ u k, l.holder = some u ∧ u ≠ t ∧ s.kernel.enter.waitForAccess l.queue t = .ok k ∧
          System.blocks (.takeOver j s.kernel.level) a { s with kernel := k } = .ok r) := by
  unfold System.beginAcquire at h
  split at h
  · cases h
  · rename_i l hl
    split at h
    · cases h
    · rename_i t ht
      refine ⟨l, t, fetch_ok hl, Kernel.currentThread_ok ht, ?_⟩
      simp only at h
      split at h
      · cases h
      · rename_i granted l' k hreq
        unfold Lock.request at hreq
        split at hreq
        · rename_i hfree
          split at hreq
          · cases hreq
          · rename_i hk
            cases hreq
            exact .inl ⟨k, hfree, hk, h⟩
        · rename_i u hu
          split at hreq
          · cases hreq
          · rename_i hne
            split at hreq
            · cases hreq
            · rename_i hk
              cases hreq
              simp only [set_of_getElem? (fetch_ok hl)] at h
              exact .inr ⟨u, k, hu, hne, hk, h⟩

/-- A sleep passes the lock on and enqueues the caller, all in one step. -/
theorem beginSleep_cases {j : Nat} (h : s.beginSleep j a = .ok r) :
    ∃ c l t l' k₁ k, s.conditions[j]? = some c ∧ s.locks[c.lock]? = some l ∧
      s.kernel.registry.current = some t ∧ l.holder = some t ∧
      l.release s.kernel.enter = .ok (l', k₁) ∧ k₁.waitForAccess c.queue t = .ok k ∧
      System.blocks (.relock c.lock s.kernel.level) a
        { s with kernel := k, locks := s.locks.set c.lock l' } = .ok r := by
  unfold System.beginSleep at h
  split at h
  · cases h
  · rename_i c hc
    split at h
    · cases h
    · rename_i l hl
      split at h
      · cases h
      · rename_i t ht
        obtain ⟨hcur, hheld⟩ := Condition.holder_ok ht
        split at h
        · cases h
        · rename_i l' k hk
          obtain ⟨k₁, hrel, hw⟩ := Condition.fallAsleep_cases hk
          exact ⟨c, l, t, l', k₁, k, fetch_ok hc, fetch_ok hl, hcur, hheld, hrel, hw, h⟩

/-- A wait puts the caller on the alarm. -/
theorem beginWait_cases {j ticks : Nat} (h : s.beginWait j ticks a = .ok r) :
    ∃ alarm t, s.alarms[j]? = some alarm ∧ s.kernel.registry.current = some t ∧
      System.blocks (.leave s.kernel.level) a
        { s with
          kernel := s.kernel.enter
          alarms := s.alarms.set j (alarm.push (Clock.after s.kernel.now ticks) t) } = .ok r := by
  unfold System.beginWait at h
  split at h
  · cases h
  · rename_i alarm halarm
    split at h
    · cases h
    · rename_i t ht
      exact ⟨alarm, t, fetch_ok halarm, Kernel.currentThread_ok ht, h⟩

/-- A join of a thread that is not alive returns at once. -/
theorem beginJoin_cases {target : ThreadRef}
    (h : s.beginJoin actor target a = .ok r) :
    ∃ t u, target.resolve s.kernel = .ok t ∧ s.kernel.registry.current = some u ∧ u ≠ t ∧
      (s.kernel.registry.get? t = none ∧ s.returns actor .nothing a = .ok r ∨
        ∃ slot k, s.kernel.registry.get? t = some slot ∧
          s.kernel.enter.waitForAccess slot.joinQueue u = .ok k ∧
          (s.withKernel k).blocks (.leave s.kernel.level) a = .ok r) := by
  unfold System.beginJoin at h
  split at h
  · cases h
  · rename_i t ht
    split at h
    · cases h
    · rename_i u hu
      split at h
      · cases h
      · rename_i hne
        refine ⟨t, u, ht, Kernel.currentThread_ok hu, hne, ?_⟩
        split at h
        · rename_i hslot
          exact .inl ⟨hslot, h⟩
        · rename_i slot hslot
          split at h
          · cases h
          · rename_i k hk
            exact .inr ⟨slot, k, hslot, hk, h⟩

theorem Poised.beginJoin {target : ThreadRef} (h : s.Poised q x) (hc : a.code = i :: rest)
    (hr : s.beginJoin actor target a = .ok (.go a' s')) : Deal q x a s a' s' := by
  obtain ⟨t, u, -, -, -, ⟨-, hr⟩ | ⟨slot, k, hslot, hk, hr⟩⟩ := beginJoin_cases hr
  · exact .returns hr hc fun _ => .of_eq rfl rfl rfl
  · obtain ⟨-, hgo⟩ := blocks_eq hr
    cases hgo
    exact .apart (Kernel.waitForAccess_apart (k := s.kernel.enter) h.sane.sound
      (h.reserves.join hslot) hk).of_enter fun hm _ => hm

theorem Poised.beginAcquire {j : Nat} (h : s.Poised q x) (hc : a.code = i :: rest)
    (hr : s.beginAcquire actor j a = .ok (.go a' s')) : Deal q x a s a' s' := by
  obtain ⟨l, t, hl, hcur, ⟨k, hfree, hk, hr⟩ | ⟨u, k, hheld, -, hk, hr⟩⟩ := beginAcquire_cases hr
  · rw [h.current] at hcur
    obtain ⟨level, hgo⟩ := returns_eq hc hr
    cases hgo
    have hapart : Apart q s.kernel k :=
      ((Kernel.acquire_alters q (k := s.kernel.enter) h.sane.sound hk).apart
        fun u hu hl => h.free t hcur (hl.1 ▸ hu)).of_enter
    by_cases hq : l.queue = q
    · refine .takes hcur hl hq hfree (hapart.restore _) ?_
      exact List.getElem?_set_self (List.getElem?_eq_some_iff.1 hl).1
    · exact .apart (hapart.restore _) (getElem?_set_of_queue hl hq)
  · obtain ⟨⟨t', hcur', halive⟩, hgo⟩ := blocks_eq hr
    cases hgo
    have hsteady := Kernel.waitForAccess_steady hk
    have hreg : k.registry = s.kernel.registry := by
      obtain ⟨tb, -, rfl⟩ := Kernel.waitForAccess_ok hk
      rfl
    have hcur' : k.registry.current = some t' := hcur'
    rw [hreg, hcur] at hcur'
    cases hcur'
    rw [h.current] at hcur
    by_cases hq : l.queue = q
    · subst hq
      exact .waits hcur hl rfl hheld halive ((Kernel.waitForAccess_alters l.queue
          (k := s.kernel.enter) h.sane.sound hk).2.of_enter.congr (by simp) (by simp)) hl
        ⟨by rw [show _ = a.code from rfl, hc]; simp, _, rfl⟩
    · exact .apart (Kernel.waitForAccess_apart (k := s.kernel.enter) h.sane.sound hq hk).of_enter
        fun hm _ => hm

/-- Falling asleep passes the lock on as a release does. -/
theorem Poised.handsOver_asleep {c : Condition} {l l' : Lock} {k₁ : Kernel Activation}
    (h : s.Poised l.queue x) (hx : x = some t) (hcq : c.queue ≠ l.queue)
    (hl : s.locks[c.lock]? = some l) (hrel : l.release s.kernel.enter = .ok (l', k₁))
    (hw : k₁.waitForAccess c.queue t = .ok k) :
    HandsOver t c.lock l s { s with kernel := k, locks := s.locks.set c.lock l' } := by
  have hk₁ := (Lock.release_steady hrel).1.sane h.sane.entered
  have hreg : k.registry = k₁.registry := by
    obtain ⟨tb, -, rfl⟩ := Kernel.waitForAccess_ok hw
    rfl
  obtain ⟨t', hcur, hheld, served, hp, rfl⟩ := Lock.release_cases hrel
  rw [show s.kernel.enter.registry.current = x from h.current, hx] at hcur
  cases hcur
  obtain ⟨hchosen, hserves⟩ := hp.serves h.sane.entered (h.calm t hx).entered
  refine ⟨hheld, (hserves.trans (Kernel.waitForAccess_apart hk₁.sound hcq hw) hreg ?_).of_enter, ?_⟩
  · intro u hu
    obtain ⟨hwait, hnone, -⟩ := hserves.served u hu
    rw [Kernel.waitForAccess_others hk₁.sound hw, hnone]
    rintro rfl
    exact h.free u hx hwait
  · rw [show s.kernel.table.chosen l.queue = served from hchosen]
    exact List.getElem?_set_self (List.getElem?_eq_some_iff.1 hl).1

theorem Poised.beginSleep {j : Nat} (h : s.Poised q x) (hb : a.Begins (.sleep j))
    (hr : s.beginSleep j a = .ok (.go a' s')) : Deal q x a s a' s' := by
  obtain ⟨c, l, t, l', k₁, k, hc, hl, hcur, hheld, hrel, hw, hr⟩ := beginSleep_cases hr
  obtain ⟨⟨t', hcur', halive⟩, hgo⟩ := blocks_eq hr
  cases hgo
  obtain ⟨hsteady, -⟩ := Lock.release_steady hrel
  have hk₁ := hsteady.sane h.sane.entered
  have hreg : k.registry = k₁.registry := by
    obtain ⟨tb, -, rfl⟩ := Kernel.waitForAccess_ok hw
    rfl
  have hcur' : k.registry.current = some t' := hcur'
  rw [hreg, hsteady.current, show s.kernel.enter.registry.current = some t from hcur] at hcur'
  cases hcur'
  rw [h.current] at hcur
  by_cases hlq : l.queue = q
  · subst hlq
    have hover := h.handsOver_asleep hcur (h.reserves.apart hl hc rfl) hl hrel hw
    exact .passes hcur (.inr ⟨j, c, hb, hc, rfl⟩) hl rfl hheld hover.queue hover.passed
  · obtain ⟨_, -, -, served, hp, rfl⟩ := Lock.release_cases hrel
    have hrelease : Apart q s.kernel k₁ := (hp.apart h.sane.entered hlq).of_enter
    by_cases hcq : c.queue = q
    · subst hcq
      refine .sleeps hcur hb hc rfl halive ?_ ⟨by obtain ⟨-, rest, he⟩ := hb; simp [he], _, rfl⟩
      exact (Apart.alters hrelease (Kernel.waitForAccess_alters c.queue hk₁.sound hw).2).congr
        (by simp) (by simp)
    · exact .apart (Alters.trans hrelease (Kernel.waitForAccess_apart hk₁.sound hcq hw))
        (getElem?_set_of_queue hl hlq)

theorem Poised.restore (h : s.Poised q x) (level : Level) :
    (s.withKernel (s.kernel.restore level)).Poised q x :=
  ⟨⟨h.sane.sound, h.sane.waker, h.sane.signal⟩,
    ⟨h.reserves.ready, h.reserves.join, h.reserves.lock, h.reserves.condition, h.reserves.apart⟩,
    h.current, h.alive, h.free, fun t ht u hu hx =>
      ⟨(h.calm t ht u hu hx).channel, (h.calm t ht u hu hx).signal⟩⟩

theorem leaveNewest_same (saved : List Level) (s : System) :
    (s.leaveNewest saved).kernel.table = s.kernel.table ∧
      (s.leaveNewest saved).kernel.registry = s.kernel.registry ∧
      (s.leaveNewest saved).locks = s.locks := by
  cases saved <;> exact ⟨rfl, rfl, rfl⟩

theorem Poised.stepAction {b : Action} (h : s.Poised q x) (hb : a.Begins (.act b))
    (hc : a.code = .act b :: rest) (ht : ¬ b.Touches q s)
    (hr : s.stepAction actor b rest a = .ok (.go a' s')) : Deal q x a s a' s' := by
  obtain ⟨hlt, hlr, hll⟩ := leaveNewest_same a.levels s
  obtain ⟨hgt, hgr, hgl⟩ := leaveNewest_same a.guards s
  unfold System.stepAction at hr
  simp only at hr
  split at hr
  · cases hr
    exact .of_eq rfl rfl rfl
  · exact .returns hr hc fun _ => .of_eq rfl rfl rfl
  · exact .returns hr hc fun _ => .of_eq hlt hlr hll
  · exact .returns hr hc fun _ => .of_eq rfl rfl rfl
  · exact .returns hr hc fun _ => .of_eq hgt hgr hgl
  · split at hr <;> cases hr
  · split at hr
    · cases hr
    · rename_i hperf
      exact .returns hr hc (h.perform hb ht hperf)

theorem Poised.stepInstr (h : s.Poised q x) (hb : a.Begins i) (hc : a.code = i :: rest)
    (ht : ¬ a.Touches q s) (hr : s.stepInstr actor i rest a = .ok (.go a' s')) :
    Deal q x a s a' s' := by
  cases i with
  | act b => exact h.stepAction hb hc (fun hq => ht ⟨b, hb, hq⟩) hr
  | yield =>
    simp only [System.stepInstr] at hr
    split at hr
    · cases hr
    · cases hr
      exact .of_eq rfl rfl rfl
  | block =>
    obtain ⟨-, hgo⟩ := blocks_eq hr
    cases hgo
    exact .of_eq rfl rfl rfl
  | join t => exact h.beginJoin hc hr
  | acquire l => exact h.beginAcquire hc hr
  | sleep c => exact h.beginSleep hb hr
  | wait j ticks =>
    obtain ⟨_, _, -, -, hblocks⟩ := beginWait_cases hr
    obtain ⟨-, hgo⟩ := blocks_eq hblocks
    cases hgo
    exact .of_eq rfl rfl rfl
  | loop n body =>
    cases n <;>
      · cases hr
        exact .of_eq rfl rfl rfl
  | whileEq v y body | whileNe v y body | whileSame v w body | ifEq v y body =>
    cases hr
    exact .of_eq rfl rfl rfl

/-! ## Going on behind a yield point -/

/-- What the poll before it did is no matter of the queue. -/
theorem Deal.after (h : Deal q x a s₁ a' s') (ha : Apart q s.kernel s₁.kernel)
    (hl : s₁.locks = s.locks) (hs : a.stage ≠ .fresh) : Deal q x a s a' s' := by
  cases h with
  | apart queue locks =>
    exact .apart (Alters.trans ha queue) fun hm hq => locks (hl ▸ hm) hq
  | takes thread lock own free queue taken =>
    exact .takes thread (hl ▸ lock) own free (Alters.trans ha queue) taken
  | waits thread lock own held alive queue kept halts =>
    exact .waits thread (hl ▸ lock) own held alive (ha.alters queue) kept halts
  | passes thread begins =>
    rcases begins with begins | ⟨_, _, begins, -⟩
    · exact absurd begins.1 hs
    · exact absurd begins.1 hs
  | sleeps thread begins => exact absurd begins.1 hs
  | wakes thread begins => exact absurd begins.1 hs
  | wakesAll thread begins => exact absurd begins.1 hs

theorem Poised.stepResume {p : Resume} (h : s.Poised q x) (hc : a.code = i :: rest)
    (hs : a.stage ≠ .fresh) (hr : s.stepResume actor t p a = .ok (.go a' s')) :
    Deal q x a s a' s' := by
  cases p with
  | proceed => exact .returns hr hc fun _ => .of_eq rfl rfl rfl
  | leave level =>
    simp only [System.stepResume] at hr
    exact .returns hr hc fun _ => .of_eq rfl rfl rfl
  | takeOver l level =>
    simp only [System.stepResume] at hr
    split at hr
    · cases hr
    · split at hr
      · exact .returns hr hc fun _ => .of_eq rfl rfl rfl
      · cases hr
  | relock l level =>
    exact ((h.restore level).beginAcquire hc hr).after (.of_eq rfl rfl) rfl hs

/-- A thread passes a yield point that suspended it before if a wake is pending. -/
theorem pollPoint_ready {k' : Kernel Activation} {p p' : YieldPoint}
    (h : k.pollPoint t p = (true, p', k')) :
    ∃ slot, k.registry.get? t = some slot ∧ p.yielded = true ∧ slot.signal.woken = true ∧
      k' = { k with registry :=
        k.registry.setSlot t { slot with signal := ⟨false, slot.signal.waker⟩ } } := by
  unfold Kernel.pollPoint at h
  split at h
  · cases h
  · rename_i slot hslot
    obtain ⟨hready, hrest⟩ := Prod.mk.inj h
    obtain ⟨-, rfl⟩ := Prod.mk.inj hrest
    unfold YieldPoint.poll at hready ⊢
    split at hready
    · rename_i hpass
      rw [if_pos hpass]
      rw [Bool.and_eq_true] at hpass
      refine ⟨slot, hslot, hpass.1, hpass.2, ?_⟩
      simp [Registry.postOption, Registry.setSlot]
    · split at hready <;> cases hready

theorem Poised.poll_ready {p p' : YieldPoint} (h : s.Poised q (some t))
    (hp : s.kernel.pollPoint t p = (true, p', k)) :
    Apart q s.kernel k ∧ (s.withKernel k).Poised q (some t) := by
  have hsane := (Kernel.pollPoint_steady hp).sane h.sane
  obtain ⟨slot, hslot, -, -, rfl⟩ := pollPoint_ready hp
  have hget : ∀ u, (s.kernel.registry.setSlot t { slot with
      signal := ⟨false, slot.signal.waker⟩ }).get? u = if t = u then some { slot with
        signal := ⟨false, slot.signal.waker⟩ } else s.kernel.registry.get? u :=
    fun u => Registry.get?_setSlot _ _ u _
  have hne : ∀ {u}, s.kernel.table.waitingQueue u = some q → t ≠ u := by
    rintro u hu rfl
    exact h.free t rfl hu
  have hwaiter : ∀ {u}, s.kernel.table.waitingQueue u = some q →
      (s.kernel.registry.setSlot t { slot with
        signal := ⟨false, slot.signal.waker⟩ }).get? u = s.kernel.registry.get? u := fun hu => by
    rw [hget, if_neg (hne hu)]
  refine ⟨⟨fun u => by simp, fun u hu _ => hwaiter hu, fun _ _ _ => .rfl⟩, hsane,
    ⟨h.reserves.ready, fun {u x} hx => ?_, h.reserves.lock, h.reserves.condition,
      h.reserves.apart⟩, h.current, fun u hu => ?_, h.free, fun v hv u hu hx => ?_⟩
  · have hx := (hget u).symm.trans hx
    split at hx
    · cases hx
      have hj := h.reserves.join hslot
      exact hj
    · exact h.reserves.join hx
  · exact (hwaiter hu).symm ▸ h.alive u hu
  · obtain ⟨hch, x, hx', hsig⟩ := h.calm v hv u hu hx
    exact ⟨hch, x, (hwaiter hu).trans hx', hsig⟩

/-- One step of a program that leaves the queue to its lock or condition. -/
theorem Poised.stepCode (h : s.Poised q x) (ht : ¬ a.Touches q s)
    (hr : s.stepCode actor a = .ok (.go a' s')) : Deal q x a s a' s' := by
  cases stepCode_ok hr with
  | @begins i rest _ code stage instr => exact h.stepInstr ⟨stage, rest, code⟩ code ht instr
  | resumes code stage current poll resume =>
    have hfresh : a.stage ≠ .fresh := by simp [stage]
    cases h.current.symm.trans current
    obtain ⟨hapart, hp⟩ := h.poll_ready poll
    exact (hp.stepResume code hfresh resume).after hapart rfl hfresh

end System
end ThreadKernel
