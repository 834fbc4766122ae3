import ThreadKernel.Proofs.Machine.Exclusion

/-!
# ThreadKernel.Proofs.Machine.Released

A thread that gave up a lock to sleep neither holds it nor waits for it until it asks for it again.

* `Machine.Released` — the invariant.
* `Released.next`    — a step keeps it.
-/

namespace ThreadKernel

namespace Machine

def Released (l : Nat) (m : Machine) : Prop :=
  ∀ t a p level, m.activation? t = some a → a.stage = .suspended p (.relock l level) →
    ∃ L, m.system.locks[l]? = some L ∧ L.holder ≠ some t ∧
      m.system.kernel.table.waitingQueue t ≠ some L.queue

variable {m m' : Machine} {l c : Nat} {L : Lock} {t : ThreadId}

/-- Locks pass only to those that run or wait for them. -/
theorem LockTurn.released (h : LockTurn l L m m') (ho : m.thread? ≠ some t)
    (hheld : L.holder ≠ some t) (hw : m.system.kernel.table.waitingQueue t ≠ some L.queue) :
    ∃ L', m'.system.locks[l]? = some L' ∧ L'.holder ≠ some t ∧
      m'.system.kernel.table.waitingQueue t ≠ some L'.queue := by
  cases h with
  | apart lock waiting => exact ⟨L, lock, hheld, fun h => hw ((waiting t).1 h)⟩
  | takes runs _ lock waiting =>
    refine ⟨_, lock, fun h => ho ?_, fun h => hw ((waiting t).1 h)⟩
    cases h
    exact runs
  | waits runs _ lock waiting =>
    refine ⟨L, lock, hheld, fun h => ?_⟩
    rcases (waiting t).1 h with rfl | h
    · exact ho runs
    · exact hw h
  | passes _ _ lock serves =>
    exact ⟨_, lock, fun h => hw (serves.served t h).1, fun h => hw ((serves.waiting t).1 h).1⟩

/-- A thread that falls asleep gives the lock to someone else. -/
theorem Begins.released {x : Condition} (hb : Begins t (.sleep c) m) (hs : m.step = .next m')
    (hr : m.Regular) (hx : m.system.conditions[c]? = some x)
    (hg : ∀ L, m.system.locks[x.lock]? = some L → m.Guarded L.queue ∧ m.Private L.queue) :
    ∃ L, m'.system.locks[x.lock]? = some L ∧ L.holder ≠ some t ∧
      m'.system.kernel.table.waitingQueue t ≠ some L.queue := by
  obtain ⟨x', L, hx', hl, -, hl', hw⟩ := hb.sleep hs hr
  rw [hx] at hx'
  cases hx'
  obtain ⟨hguarded, hprivate⟩ := hg L hl
  have hpoised := hguarded.poised_of_begins hr hprivate hb
  have hserved : ∀ u, m.system.kernel.table.chosen L.queue = some u →
      m.system.kernel.table.waitingQueue u = some L.queue := by
    obtain ⟨L', hl'', hover⟩ := hb.sleep_handsOver hs hr hx fun L' h =>
      (hg L' h).1.poised_of_begins hr (hg L' h).2 hb
    rw [hl] at hl''
    cases hl''
    exact fun u hu => (hover.queue.served u hu).1
  refine ⟨_, hl', fun h => hpoised.free t rfl (hserved t h), fun h => ?_⟩
  rw [hw] at h
  exact hprivate.reserves.apart hl hx rfl (Option.some.inj h)

theorem Released.next (h : m.Released l) (ht : m.Tended l) (hc : m.Coherent)
    (hs : m.step = .next m') (hp : ∀ L, m.system.locks[l]? = some L → m.Private L.queue) :
    m'.Released l := by
  have hturn := hc.toRegular.turn hs
  intro t a' p level ha hstage
  cases hturn.origin hc.toRegular ha with
  | fresh stage =>
    rw [stage] at hstage
    cases hstage
  | kept other before =>
    obtain ⟨L, hl, hheld, hw⟩ := h t a' p level before hstage
    exact (ht.turn hc hturn hl (hp L hl)).2.released other hheld hw
  | @goes d below own stack code =>
    subst own
    cases System.stepCode_leads hc.sane code with
    | goesOn _ fresh =>
      rw [fresh] at hstage
      cases hstage
    | completes hcomp =>
      rw [hcomp.fresh] at hstage
      cases hstage
    | suspends _ _ hsusp =>
      cases hsusp with
      | plain _ _ suspended resume =>
        rw [suspended] at hstage
        cases hstage
        rcases resume with hr | ⟨_, hr⟩ <;> cases hr
      | lock _ suspended =>
        rw [suspended] at hstage
        cases hstage
      | sleep begins condition suspended =>
        rw [suspended] at hstage
        cases hstage
        exact Begins.released ⟨d, below, stack, rfl, begins⟩ hs hc.toRegular condition
          fun L hl => ⟨ht.guarded L hl, hp L hl⟩
  | parks _ before stage now table locks =>
    subst now
    cases hstage
    obtain ⟨L, hl, hheld, hw⟩ := h t _ _ _ before stage
    exact ⟨L, locks ▸ hl, hheld, table ▸ hw⟩

theorem Released.reseed (h : m.Released l) (g : Random) : (m.reseed g).Released l := h

theorem released_of_none (ha : ∀ t, m.activation? t = none) : m.Released l :=
  fun t _ _ _ ha' => (nomatch (ha t).symm.trans ha')

end Machine
end ThreadKernel
