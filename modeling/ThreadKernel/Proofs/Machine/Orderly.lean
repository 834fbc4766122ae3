import ThreadKernel.Proofs.Kernel.Primitives

/-!
# ThreadKernel.Proofs.Machine.Orderly

Systems in which every thread is where it should be, and the effects that keep them so.

* `System.uses`, `System.asleep` — the queues of locks and conditions, and the sleepers of alarms.
* `System.Orderly`               — all threads are placed, and whatever may still run is plain.
* `Orderly.perform`              — a plain action keeps a system orderly.
-/

namespace ThreadKernel

open Kernel (Posture Placed Later Reassigned Executing)

/-- How often the thread sleeps at the alarm. -/
def Alarm.count (t : ThreadId) (a : Alarm) : Nat := (a.sleepers.map Sleeper.thread).count t

namespace System

def uses (s : System) : List Use := s.locks.map Use.ofLock ++ s.conditions.map Use.ofCondition

def asleep (s : System) (t : ThreadId) : Nat := (s.alarms.map (Alarm.count t)).sum

structure Orderly (run : Option (ThreadId × Posture)) (s : System) : Prop where
  placed : Placed s.uses s.asleep run s.kernel
  programs : ∀ p ∈ s.programs, Instr.plainList p.code = true
  handlers : ∀ h ∈ s.handlers, h.Plain

variable {s s' : System} {run run' : Option (ThreadId × Posture)} {k : Kernel Activation}

theorem Orderly.kernel (h : Orderly run s) (hk : Placed s.uses s.asleep run' k) :
    Orderly run' { s with kernel := k } := ⟨hk, h.programs, h.handlers⟩

theorem fetch_ok {α : Type} {l : List α} {i : Nat} {a : α} (h : fetch l i = .ok a) :
    l[i]? = some a := by
  unfold fetch at h
  split at h
  · cases h
    assumption
  · cases h

/-! ## Locks, conditions and alarms of the system -/

theorem mem_uses_lock {i : Nat} {l : Lock} (hl : s.locks[i]? = some l) : Use.ofLock l ∈ s.uses :=
  List.mem_append_left _ (List.mem_map.2 ⟨l, List.mem_of_getElem? hl, rfl⟩)

theorem mem_uses_condition {i : Nat} {c : Condition} (hc : s.conditions[i]? = some c) :
    Use.ofCondition c ∈ s.uses :=
  List.mem_append_right _ (List.mem_map.2 ⟨c, List.mem_of_getElem? hc, rfl⟩)

theorem set_of_getElem? {α : Type} {l : List α} {i : Nat} {a : α} (h : l[i]? = some a) :
    l.set i a = l := by
  obtain ⟨hi, rfl⟩ := List.getElem?_eq_some_iff.1 h
  exact List.set_getElem_self hi

/-- The system with another lock at an index. -/
def setLock (i : Nat) (l : Lock) (s : System) : System := { s with locks := s.locks.set i l }

theorem uses_setLock_self {i : Nat} {l : Lock} (hl : s.locks[i]? = some l) :
    (s.setLock i l).uses = s.uses := by
  rw [uses, setLock, set_of_getElem? hl]
  rfl

theorem reassigned_setLock {i : Nat} {l l' : Lock} (hl : s.locks[i]? = some l)
    (hq : l'.queue = l.queue) (hn : (s.uses.map Use.queue).Nodup) :
    Reassigned l.queue l'.holder s.uses (s.setLock i l').uses := by
  have hkinds : (s.setLock i l').uses.map (fun u => (u.queue, u.transfer)) =
      s.uses.map fun u => (u.queue, u.transfer) := by
    have hsame : (s.locks.set i l').map (fun l => (l.queue, true)) =
        s.locks.map fun l => (l.queue, true) := by
      rw [List.map_set]
      refine set_of_getElem? ?_
      rw [List.getElem?_map, hl, hq]
      rfl
    simp only [uses, List.map_append, List.map_map]
    exact congrArg (· ++ _) hsame
  have hmem : ∀ {u}, u ∈ (s.setLock i l').uses → u ∈ s.uses ∨ u = Use.ofLock l' := by
    intro u hu
    rcases List.mem_append.1 hu with hu | hu
    · obtain ⟨x, hx, rfl⟩ := List.mem_map.1 hu
      rcases List.mem_or_eq_of_mem_set hx with hx | rfl
      · exact .inl (List.mem_append_left _ (List.mem_map.2 ⟨x, hx, rfl⟩))
      · exact .inr rfl
    · exact .inl (List.mem_append_right _ hu)
  have hl' : Use.ofLock l' ∈ (s.setLock i l').uses := by
    have hi : (s.setLock i l').locks[i]? = some l' :=
      List.getElem?_set_self (List.getElem?_eq_some_iff.1 hl).1
    exact mem_uses_lock hi
  have hn' : ((s.setLock i l').uses.map Use.queue).Nodup := by
    have hfst := congrArg (List.map Prod.fst) hkinds
    rw [List.map_map, List.map_map] at hfst
    have hfst : (s.setLock i l').uses.map Use.queue = s.uses.map Use.queue := hfst
    rw [hfst]
    exact hn
  refine ⟨hkinds, fun u hu hne => ?_, fun u hu huq => .inr ?_⟩
  · rcases hmem hu with hu | rfl
    · exact hu
    · exact absurd hq hne
  · rw [List.inj_on_of_nodup_map hn' hu hl' (huq.trans hq.symm)]
    rfl

/-- A sum changes with one of its summands. -/
theorem sum_map_set {α : Type} (f : α → Nat) {l : List α} {i : Nat} {a : α} (b : α)
    (h : l[i]? = some a) : ((l.set i b).map f).sum + f a = (l.map f).sum + f b := by
  induction l generalizing i with
  | nil => cases h
  | cons x l ih =>
    cases i with
    | zero =>
      cases h
      rw [List.set_cons_zero, List.map_cons, List.map_cons, List.sum_cons, List.sum_cons]
      omega
    | succ i =>
      have hl := ih h
      rw [List.set_cons_succ, List.map_cons, List.map_cons, List.sum_cons, List.sum_cons]
      omega

/-- The system with another alarm at an index. -/
def setAlarm (i : Nat) (a : Alarm) (s : System) : System := { s with alarms := s.alarms.set i a }

theorem asleep_setAlarm {i : Nat} {a b : Alarm} (h : s.alarms[i]? = some a) (t : ThreadId) :
    (s.setAlarm i b).asleep t + a.count t = s.asleep t + b.count t :=
  sum_map_set (Alarm.count t) b h

end System

theorem Alarm.count_push (wakeTime : Nat) (t u : ThreadId) (a : Alarm) :
    (a.push wakeTime t).count u = a.count u + if t = u then 1 else 0 := by
  have hsplit : a.count u =
      ((a.sleepers.takeWhile (fun s => s.wakeTime ≤ wakeTime)).map Sleeper.thread).count u +
        ((a.sleepers.dropWhile (fun s => s.wakeTime ≤ wakeTime)).map Sleeper.thread).count u := by
    rw [← List.count_append, ← List.map_append, List.takeWhile_append_dropWhile]
    rfl
  rw [hsplit, Alarm.count, Alarm.push, List.map_append, List.count_append, List.map_cons,
    List.count_cons]
  simp only [beq_iff_eq]
  omega

theorem Alarm.count_release (now : Nat) (t : ThreadId) (a : Alarm) :
    ((a.due now).map Sleeper.thread).count t + ((a.rest now).map Sleeper.thread).count t =
      a.count t := by
  rw [← List.count_append, ← List.map_append, Alarm.due, Alarm.rest,
    List.takeWhile_append_dropWhile]
  rfl

namespace System

variable {s s' : System} {run : Option (ThreadId × Posture)} {v : Value}

/-! ## Actions -/

theorem answer_ok {r : Except Fault Value} (h : s.answer r = .ok (v, s')) : s' = s := by
  unfold answer at h
  split at h
  · cases h
  · cases h
    rfl

theorem change_ok {r : Except Fault (Kernel Activation)} (h : s.change r = .ok (v, s')) :
    ∃ k, r = .ok k ∧ s' = { s with kernel := k } := by
  unfold change at h
  split at h
  · cases h
  · rename_i k
    cases h
    exact ⟨k, rfl, rfl⟩

theorem shift_ok {r : Except Fault (Bool × Kernel Activation)} (h : s.shift r = .ok (v, s')) :
    ∃ b k, r = .ok (b, k) ∧ s' = { s with kernel := k } := by
  unfold shift at h
  split at h
  · cases h
  · rename_i b k
    cases h
    exact ⟨b, k, rfl, rfl⟩

theorem spawn_ok {i : Nat} (h : s.spawn i = .ok (v, s')) :
    ∃ p t k, s.programs[i]? = some p ∧ s.kernel.spawn p.name (.start p.code) = .ok (t, k) ∧
      s' = { s with kernel := k, spawned := s.spawned ++ [t] } := by
  unfold spawn at h
  split at h
  · cases h
  · rename_i p hp
    split at h
    · cases h
    · rename_i t k hk
      cases h
      exact ⟨p, t, k, fetch_ok hp, hk, rfl⟩

theorem serve_ok {q : QueueId} (h : s.serve q = .ok (v, s')) :
    ∃ t k, s.kernel.nextThread q = .ok (t, k) ∧ s' = { s with kernel := k } := by
  unfold serve at h
  split at h
  · cases h
  · rename_i t k hk
    cases h
    exact ⟨t, k, hk, rfl⟩

theorem newCondition_ok {i : Nat} (h : s.newCondition i = .ok (v, s')) :
    ∃ l, s.locks[i]? = some l ∧ s' = { s with
      kernel := (Condition.create i s.kernel).2
      conditions := s.conditions ++ [(Condition.create i s.kernel).1] } := by
  unfold newCondition at h
  split at h
  · cases h
  · rename_i l hl
    cases h
    exact ⟨l, fetch_ok hl, rfl⟩

theorem sleepers_ok {c : Nat} (h : s.sleepers c = .ok (v, s')) : s' = s := by
  unfold sleepers at h
  split at h
  · cases h
  · exact answer_ok h

theorem onThread_ok {t : ThreadRef} {f : ThreadId → Effect} (h : s.onThread t f = .ok (v, s')) :
    ∃ u, f u = .ok (v, s') := by
  unfold onThread at h
  split at h
  · cases h
  · rename_i u _
    exact ⟨u, h⟩

theorem onWaitQueue_ok {i : Nat} {f : QueueId → Effect} (h : s.onWaitQueue i f = .ok (v, s')) :
    ∃ q, f q = .ok (v, s') := by
  unfold onWaitQueue at h
  split at h
  · cases h
  · rename_i q _
    exact ⟨q, h⟩

theorem Orderly.setPriority {t : ThreadId} {p : Nat} {k : Kernel Activation} (h : Orderly run s)
    (hr : s.kernel.withTable (s.kernel.table.setPriority t p) = .ok k) :
    Orderly run { s with kernel := k } ∧ Later s.kernel k := by
  obtain ⟨hp, hl⟩ := h.placed.setPriority hr
  exact ⟨h.kernel hp, hl⟩

theorem Orderly.increasePriority {b : Bool} {k : Kernel Activation} (h : Orderly run s)
    (hr : s.kernel.increasePriority = .ok (b, k)) :
    Orderly run { s with kernel := k } ∧ Later s.kernel k := by
  unfold Kernel.increasePriority at hr
  split at hr
  · cases hr
  · simp only at hr
    split at hr
    · split at hr
      · cases hr
      · rename_i hk
        cases hr
        exact h.setPriority hk
    · cases hr
      exact ⟨h, .refl _⟩

theorem Orderly.decreasePriority {b : Bool} {k : Kernel Activation} (h : Orderly run s)
    (hr : s.kernel.decreasePriority = .ok (b, k)) :
    Orderly run { s with kernel := k } ∧ Later s.kernel k := by
  unfold Kernel.decreasePriority at hr
  split at hr
  · cases hr
  · simp only at hr
    split at hr
    · split at hr
      · cases hr
      · rename_i hk
        cases hr
        exact h.setPriority hk
    · cases hr
      exact ⟨h, .refl _⟩

theorem Orderly.spawn {i : Nat} (h : Orderly run s) (hr : s.spawn i = .ok (v, s')) :
    Orderly run s' ∧ Later s.kernel s'.kernel := by
  obtain ⟨p, t, k, hp, hk, rfl⟩ := spawn_ok hr
  obtain ⟨hpl, hl⟩ := h.placed.spawn (h.programs p (List.mem_of_getElem? hp)) hk
  exact ⟨⟨hpl, h.programs, h.handlers⟩, hl⟩

theorem Orderly.newLock (h : Orderly run s) (hr : s.newLock = .ok (v, s')) :
    Orderly run s' ∧ Later s.kernel s'.kernel := by
  cases hr
  set l : Lock := ⟨none, (s.kernel.createQueue true).1⟩
  have hperm : ((s.locks ++ [l]).map Use.ofLock ++ s.conditions.map Use.ofCondition).Perm
      (Use.ofLock l :: s.uses) := by
    rw [List.map_append, List.append_assoc]
    exact List.perm_middle
  obtain ⟨hp, hl⟩ := h.placed.createQueue true hperm
  exact ⟨⟨hp, h.programs, h.handlers⟩, hl⟩

theorem releaseLock_ok {i : Nat} (h : s.releaseLock i = .ok (v, s')) :
    ∃ l l' k, s.locks[i]? = some l ∧ l.release s.kernel = .ok (l', k) ∧
      s' = { s with kernel := k, locks := s.locks.set i l' } := by
  unfold System.releaseLock at h
  split at h
  · cases h
  · rename_i l hl
    split at h
    · cases h
    · rename_i l' k hk
      cases h
      exact ⟨l, l', k, fetch_ok hl, hk, rfl⟩

theorem Orderly.releaseLock {i : Nat} (h : Orderly run s) (hx : Executing run)
    (hr : s.releaseLock i = .ok (v, s')) : Orderly run s' ∧ Later s.kernel s'.kernel := by
  obtain ⟨l, l', k, hl, hk, rfl⟩ := releaseLock_ok hr
  obtain ⟨-, hp, hlater⟩ := h.placed.release hx (mem_uses_lock hl)
    (fun l' hq => reassigned_setLock hl hq h.placed.1.layout.use_nodup) hk
  exact ⟨⟨hp, h.programs, h.handlers⟩, hlater⟩

theorem Orderly.newCondition {i : Nat} (h : Orderly run s) (hr : s.newCondition i = .ok (v, s')) :
    Orderly run s' ∧ Later s.kernel s'.kernel := by
  obtain ⟨_, -, rfl⟩ := newCondition_ok hr
  set c : Condition := (Condition.create i s.kernel).1
  have hperm : (s.locks.map Use.ofLock ++ (s.conditions ++ [c]).map Use.ofCondition).Perm
      (Use.ofCondition c :: s.uses) := by
    rw [List.map_append, ← List.append_assoc]
    exact List.perm_append_singleton _ _
  obtain ⟨hp, hl⟩ := h.placed.createQueue false hperm
  exact ⟨⟨hp, h.programs, h.handlers⟩, hl⟩

theorem onCondition_ok {c : Nat}
    {f : Condition → Lock → Kernel Activation → Except Fault (Kernel Activation)}
    (h : s.onCondition c f = .ok (v, s')) :
    ∃ x l k, s.conditions[c]? = some x ∧ s.locks[x.lock]? = some l ∧ f x l s.kernel = .ok k ∧
      s' = { s with kernel := k } := by
  unfold onCondition at h
  split at h
  · cases h
  · rename_i x hx
    split at h
    · cases h
    · rename_i l hl
      obtain ⟨k, hk, rfl⟩ := change_ok h
      exact ⟨x, l, k, fetch_ok hx, fetch_ok hl, hk, rfl⟩

theorem Orderly.newAlarm (h : Orderly run s) (hr : s.newAlarm = .ok (v, s')) :
    Orderly run s' ∧ s'.kernel = s.kernel := by
  cases hr
  have ha : ({ s with
      alarms := s.alarms ++ [.empty]
      handlers := s.handlers ++ [.alarm s.alarms.length] } : System).asleep = s.asleep := by
    funext t
    show ((s.alarms ++ [Alarm.empty]).map (Alarm.count t)).sum = _
    rw [List.map_append, List.sum_append]
    rfl
  refine ⟨⟨?_, h.programs, fun x hx => ?_⟩, rfl⟩
  · rw [ha]
    exact h.placed
  · rcases List.mem_append.1 hx with hx | hx
    · exact h.handlers x hx
    · rw [List.mem_singleton.1 hx]
      trivial

theorem Orderly.newTimer {n : Nat} {body : List Action} (h : Orderly run s)
    (hb : Action.plainList body = true) (hr : s.newTimer n body = .ok (v, s')) :
    Orderly run s' ∧ s'.kernel = s.kernel := by
  cases hr
  refine ⟨⟨h.placed, h.programs, fun x hx => ?_⟩, rfl⟩
  rcases List.mem_append.1 hx with hx | hx
  · exact h.handlers x hx
  · rw [List.mem_singleton.1 hx]
    exact hb

theorem Orderly.perform {a : Action} (h : Orderly run s) (hx : Executing run)
    (ha : a.plain = true) (hr : s.perform a = .ok (v, s')) :
    Orderly run s' ∧ Later s.kernel s'.kernel := by
  have same : s' = s → Orderly run s' ∧ Later s.kernel s'.kernel := by
    rintro rfl
    exact ⟨h, .refl _⟩
  cases a with
  | markReady | createQueue | destroyQueue | waitOn | acquireQueue | serve | newWaitQueue
  | dropWaitQueue | waitQueueWait | waitQueueAcquire | waitQueueNext => cases ha
  | atomic | enter | exit | guard | unguard | run | inAtomic | note | now | policy | bounds
  | tryCurrent | numThreads | read =>
    cases hr
    exact same rfl
  | assertAtomic | current | ownerOf | waitersOf | held | holder | alarmSleepers =>
    exact same (answer_ok hr)
  | alive t =>
    obtain ⟨u, hu⟩ := onThread_ok hr
    cases hu
    exact same rfl
  | getPriority t | getEffective t =>
    obtain ⟨u, hu⟩ := onThread_ok hr
    exact same (answer_ok hu)
  | waitQueueOwner i | waitQueueSize i =>
    obtain ⟨q, hq⟩ := onWaitQueue_ok hr
    exact same (answer_ok hq)
  | sleepers c =>
    exact same (sleepers_ok hr)
  | spawn i => exact h.spawn hr
  | setPriority t p =>
    obtain ⟨u, hu⟩ := onThread_ok hr
    obtain ⟨k, hk, rfl⟩ := change_ok hu
    exact h.setPriority (Kernel.atomically_ok hk)
  | increasePriority =>
    obtain ⟨b, k, hk, rfl⟩ := shift_ok hr
    exact h.increasePriority hk
  | decreasePriority =>
    obtain ⟨b, k, hk, rfl⟩ := shift_ok hr
    exact h.decreasePriority hk
  | newLock => exact h.newLock hr
  | release l => exact h.releaseLock hx hr
  | newCondition l => exact h.newCondition hr
  | wake c =>
    obtain ⟨x, l, k, hc, -, hk, rfl⟩ := onCondition_ok hr
    obtain ⟨hp, hl⟩ := h.placed.wake hx (mem_uses_condition hc) hk
    exact ⟨h.kernel hp, hl⟩
  | wakeAll c =>
    obtain ⟨x, l, k, hc, -, hk, rfl⟩ := onCondition_ok hr
    obtain ⟨hp, hl⟩ := h.placed.wakeAll hx (mem_uses_condition hc) hk
    exact ⟨h.kernel hp, hl⟩
  | newAlarm =>
    obtain ⟨ho, hk⟩ := h.newAlarm hr
    exact ⟨ho, hk ▸ .refl _⟩
  | timer n body =>
    have hb : Action.plainList body = true := by
      rw [Action.plain] at ha
      exact ha
    obtain ⟨ho, hk⟩ := h.newTimer hb hr
    exact ⟨ho, hk ▸ .refl _⟩
  | set v x | add v x | copy v w =>
    cases hr
    exact ⟨⟨h.placed, h.programs, h.handlers⟩, .refl _⟩

end System
end ThreadKernel
