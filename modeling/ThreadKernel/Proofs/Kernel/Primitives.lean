import Mathlib.Data.List.Nodup
import ThreadKernel.Proofs.Kernel.Cycle

/-!
# ThreadKernel.Proofs.Kernel.Primitives

Locks and conditions keep every thread where it should be. A lock is replaced by what the call
leaves of it, so the uses of queues are given as a function of the lock.

* `Placed.request`    — a lock is taken, or the caller waits for it.
* `Placed.release`    — a lock is handed over.
* `Placed.sleep`      — the caller gives up a lock and waits on a condition.
* `Placed.wake`, `Placed.wakeAll` — sleepers are announced.
-/

namespace ThreadKernel.Kernel

variable {uses : List Use} {asleep : ThreadId → Nat} {run : Option (ThreadId × Posture)}
  {k k₁ k' : Kernel Activation} {q : QueueId} {t : ThreadId}

/-- The running thread, if there is one, executes instructions. -/
def Executing (run : Option (ThreadId × Posture)) : Prop := ∀ t p, run = some (t, p) → p = .free

theorem executing_free (t : ThreadId) : Executing (some (t, .free)) := by
  rintro u p ⟨⟩
  rfl

theorem Placed.nowhere (h : Placed uses asleep run k) (hx : Executing run) :
    ∀ t, run.map Prod.fst = some t → Nowhere asleep k t := by
  intro t ht
  cases run with
  | none => cases ht
  | some run =>
    obtain ⟨u, p⟩ := run
    cases ht
    cases hx _ p rfl
    exact h.2.place

theorem currentThread_ok (h : k.currentThread = .ok t) : k.registry.current = some t := by
  unfold currentThread at h
  split at h
  · cases h
    assumption
  · cases h

/-- Only the running thread can be asked for. -/
theorem Placed.current (h : Placed uses asleep run k) (hx : Executing run)
    (hc : k.registry.current = some t) : run = some (t, .free) := by
  cases run with
  | none =>
    have hn : k.registry.current = none := h.2
    rw [hc] at hn
    cases hn
  | some run =>
    obtain ⟨u, p⟩ := run
    cases hx u p rfl
    have hu := h.2.current
    rw [hc] at hu
    cases hu
    rfl

/-- No two locks and conditions share a queue. -/
theorem Layout.use_inj (h : Layout uses k) {u v : Use} (hu : u ∈ uses) (hv : v ∈ uses)
    (hq : u.queue = v.queue) : u = v :=
  List.inj_on_of_nodup_map h.use_nodup hu hv hq

/-! ## Handing over -/

/-- The queue of a lock or a condition is handed to a waiter, who is announced. -/
theorem Placed.serve {uses' : List Use} (h : Placed uses asleep run k) (hx : Executing run)
    (hq : ∃ u ∈ uses, u.queue = q) (hu : Reassigned q (some t) uses uses')
    (hn : k.nextThread q = .ok (some t, k₁)) (hm : k₁.markReady t = .ok k') :
    Placed uses' asleep run k' ∧ Later k k' := by
  have hserv : Servable uses (run.map Prod.fst) k q := .inl hq
  have hw : ∀ u, run.map Prod.fst = some u → k.table.waitingQueue u ≠ some q := fun u he => by
    rw [(h.nowhere hx u he).waiting]
    simp
  obtain ⟨hsit, hs, hcur, hne, -, he⟩ := h.1.serve hserv hw hu hn hm
  refine ⟨h.of_spares hsit hs hcur (fun u p hr hc => hne ?_) fun u p slot hr hslot hown => ?_,
    he.precedes, hs.ready⟩
  · rw [hr]
    exact hc.symm ▸ rfl
  · rw [he.links]
    refine (Function.update_of_ne ?_ _ _).trans hown
    rintro rfl
    obtain ⟨v, hv, hvq⟩ := hq
    exact h.1.layout.join_apart hslot v hv hvq

theorem Placed.serve_none {uses' : List Use} (h : Placed uses asleep run k)
    (hq : ∃ u ∈ uses, u.queue = q) (hu : Reassigned q none uses uses')
    (hn : k.nextThread q = .ok (none, k')) : Placed uses' asleep run k' ∧ Later k k' := by
  obtain ⟨v, hv, rfl⟩ := hq
  obtain ⟨tb, htb, rfl⟩ := nextThread_ok hn
  obtain ⟨qs, -, ⟨-, -, he⟩ | ⟨r, hr, -⟩⟩ := Table.nextThread_effect h.1.sound htb
  · refine ⟨h.pass_on he rfl rfl rfl hu ?_ (fun g hg => by cases hg), he.precedes, rfl⟩
    exact fun t slot hs => (h.1.layout.join_apart hs v hv).symm
  · cases hr

theorem Placed.handOverAll (h : Placed uses asleep run k) (hx : Executing run)
    (hq : ∃ u ∈ uses, u.queue = q) (hu : ∀ u ∈ uses, u.queue = q → u.holder = none)
    (hr : k.handOverAll q = .ok k') : Placed uses asleep run k' ∧ Later k k' := by
  have hem := h.1.handOverAll (.inl hq) hu (fun u he => by
    rw [(h.nowhere hx u he).waiting]
    simp) hr
  refine ⟨⟨hem.situated, ?_⟩, hem.later⟩
  cases run with
  | none => exact hem.current.trans h.2
  | some run =>
    obtain ⟨t, p⟩ := run
    have hl := hem.leaves t rfl
    obtain ⟨slot, hslot, htask, hown, hwoken⟩ := h.2.slot
    have hnow := h.nowhere hx t rfl
    refine ⟨hem.current.trans h.2.current,
      ⟨slot, hl.slot.trans hslot, htask, ?_, hwoken⟩, ?_⟩
    · obtain ⟨v, hv, rfl⟩ := hq
      rw [hem.owner _ (h.1.layout.join_apart hslot v hv).symm]
      exact hown
    · rw [if_neg (by rw [hx t p rfl]; rintro ⟨⟩)]
      exact ⟨hl.waiting.trans hnow.waiting, hl.channel.trans hnow.channel, hnow.asleep⟩

/-! ## Locks -/

section Lock

variable {l l' : Lock} {after : Lock → List Use}

/-- A thread that does not get the lock is about to block. -/
theorem Placed.request {granted : Bool} (h : Placed uses asleep (some (t, .free)) k)
    (hl : Use.ofLock l ∈ uses) (hself : after l = uses)
    (hafter : ∀ l', l'.queue = l.queue → Reassigned l.queue l'.holder uses (after l'))
    (hr : l.request t k.enter = .ok (granted, l', k')) :
    Placed (after l') asleep (some (t, if granted then .free else .blocking)) k' ∧ Later k k' := by
  have henter : Placed uses asleep (some (t, .free)) k.enter := h.congr rfl rfl rfl
  have hq : ∃ u ∈ uses, u.queue = l.queue := ⟨_, hl, rfl⟩
  have hjoin : ∀ u slot, k.registry.get? u = some slot → slot.joinQueue ≠ l.queue :=
    fun u slot hs => (h.1.layout.join_apart hs _ hl).symm
  unfold Lock.request at hr
  split at hr
  · split at hr
    · cases hr
    · rename_i k₁ hacq
      cases hr
      obtain ⟨tb, htb, rfl⟩ := acquire_ok hacq
      obtain ⟨-, -, he⟩ := Table.acquire_effect henter.1.sound htb
      have hnum : ∀ g, some t = some g → g.number < k.enter.registry.nextNumber := by
        rintro g ⟨⟩
        obtain ⟨slot, hslot, -⟩ := h.2.slot
        exact h.1.number hslot
      have hnow : Nowhere asleep k t := h.2.place
      have hw : Function.update k.table.links.waiting t none = k.table.links.waiting :=
        Function.update_eq_self_iff.2 hnow.waiting.symm
      have hu := hafter { l with holder := some t } rfl
      exact ⟨henter.pass_on he hw rfl rfl hu hjoin hnum, he.precedes, rfl⟩
  · rename_i g hg
    split at hr
    · cases hr
    · rename_i hne
      split at hr
      · cases hr
      · rename_i k₁ hwait
        cases hr
        rw [hself]
        have hother : ∀ u ∈ uses, u.queue = l.queue → u.holder ≠ some t := by
          intro u hu huq huh
          rw [h.1.layout.use_inj hu hl huq] at huh
          have huh : l.holder = some t := huh
          rw [hg] at huh
          exact hne (Option.some.inj huh)
        obtain ⟨hp, hlater⟩ := henter.enqueue (.inl hq) hother (hjoin t) hwait
        exact ⟨hp, hlater.table, hlater.ready⟩

/-- Only the holder can release a lock, which is handed over or free then. -/
theorem Placed.release (h : Placed uses asleep run k) (hx : Executing run)
    (hl : Use.ofLock l ∈ uses)
    (hafter : ∀ l', l'.queue = l.queue → Reassigned l.queue l'.holder uses (after l'))
    (hr : l.release k = .ok (l', k')) :
    l'.queue = l.queue ∧ Placed (after l') asleep run k' ∧ Later k k' := by
  have henter : Placed uses asleep run k.enter := h.congr rfl rfl rfl
  have hq : ∃ u ∈ uses, u.queue = l.queue := ⟨_, hl, rfl⟩
  unfold Lock.release at hr
  split at hr
  · cases hr
  · rename_i t ht
    split at hr
    · cases hr
    · rename_i l₁ k₁ hfrom
      cases hr
      unfold Lock.releaseFrom at hfrom
      split at hfrom
      · split at hfrom
        · cases hfrom
        · rename_i k₂ hn
          cases hfrom
          have hu := hafter { l with holder := none } rfl
          obtain ⟨hp, hlater⟩ := henter.serve_none hq hu hn
          exact ⟨rfl, hp.congr rfl rfl rfl, hlater.table, hlater.ready⟩
        · rename_i next k₂ hn
          split at hfrom
          · cases hfrom
          · rename_i k₃ hm
            cases hfrom
            have hu := hafter { l with holder := some next } rfl
            obtain ⟨hp, hlater⟩ := henter.serve hx hq hu hn hm
            exact ⟨rfl, hp.congr rfl rfl rfl, hlater.table, hlater.ready⟩
      · cases hfrom

/-! ## Conditions -/

variable {c : Condition}

theorem Placed.sleep (h : Placed uses asleep (some (t, .free)) k) (hl : Use.ofLock l ∈ uses)
    (hafter : ∀ l', l'.queue = l.queue → Reassigned l.queue l'.holder uses (after l'))
    (hc : ∀ l', l'.queue = l.queue → Use.ofCondition c ∈ after l')
    (hr : c.fallAsleep t l k = .ok (l', k')) :
    Placed (after l') asleep (some (t, .blocking)) k' ∧ Later k k' := by
  unfold Condition.fallAsleep at hr
  split at hr
  · cases hr
  · rename_i l₁ k₁ hrel
    split at hr
    · cases hr
    · rename_i k₂ hwait
      cases hr
      obtain ⟨hqueue, hp, hlater⟩ := h.release (executing_free t) hl hafter hrel
      have hcond := hc l' hqueue
      have hother : ∀ u ∈ after l', u.queue = c.queue → u.holder ≠ some t := by
        intro u hu huq huh
        rw [hp.1.layout.use_inj hu hcond huq] at huh
        cases huh
      obtain ⟨hp', hlater'⟩ := hp.enqueue (.inl ⟨_, hcond, rfl⟩) hother
        (fun slot hs => (hp.1.layout.join_apart hs _ hcond).symm) hwait
      exact ⟨hp', hlater.trans hlater'⟩

theorem Placed.wake (h : Placed uses asleep run k) (hx : Executing run)
    (hc : Use.ofCondition c ∈ uses) (hr : c.wake l k = .ok k') :
    Placed uses asleep run k' ∧ Later k k' := by
  have henter : Placed uses asleep run k.enter := h.congr rfl rfl rfl
  have hq : ∃ u ∈ uses, u.queue = c.queue := ⟨_, hc, rfl⟩
  have hu : ∀ {o : Option ThreadId}, Reassigned c.queue o uses uses := .refl fun u hu huq => by
    rw [h.1.layout.use_inj hu hc huq]
    rfl
  unfold Condition.wake at hr
  split at hr
  · cases hr
  · split at hr
    · cases hr
    · rename_i k₁ hn
      cases hr
      obtain ⟨hp, hlater⟩ := henter.serve_none hq hu hn
      exact ⟨hp.congr rfl rfl rfl, hlater.table, hlater.ready⟩
    · rename_i u k₁ hn
      split at hr
      · cases hr
      · rename_i k₂ hm
        cases hr
        obtain ⟨hp, hlater⟩ := henter.serve hx hq hu hn hm
        exact ⟨hp.congr rfl rfl rfl, hlater.table, hlater.ready⟩

theorem Placed.wakeAll (h : Placed uses asleep run k) (hx : Executing run)
    (hc : Use.ofCondition c ∈ uses) (hr : c.wakeAll l k = .ok k') :
    Placed uses asleep run k' ∧ Later k k' := by
  have henter : Placed uses asleep run k.enter := h.congr rfl rfl rfl
  unfold Condition.wakeAll at hr
  split at hr
  · cases hr
  · split at hr
    · cases hr
    · rename_i k₁ hall
      cases hr
      obtain ⟨hp, hlater⟩ := henter.handOverAll hx ⟨_, hc, rfl⟩ (fun u hu huq => by
        rw [h.1.layout.use_inj hu hc huq]
        rfl) hall
      exact ⟨hp.congr rfl rfl rfl, hlater.table, hlater.ready⟩

end Lock
end ThreadKernel.Kernel
