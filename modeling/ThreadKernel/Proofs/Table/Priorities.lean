import ThreadKernel.Proofs.Table.Frame
import ThreadKernel.Proofs.Table.Propagation

/-!
# ThreadKernel.Proofs.Table.Priorities

Setting priorities leaves no history. Whatever walks the calls started, the table is the one that
has the last value of each thread as its base value.

* `Table.lastValue`            — the last value that a list of calls gives a thread.
* `Table.rebase`               — only the base values change, without any walk.
* `setPriorities_sameFrame`    — the calls leave the frame of the rebased table.
* `reachable_priorities`       — so calls commute, and a value that is replaced leaves no trace.
-/

namespace ThreadKernel.Table

variable {tb tb' : Table} {t u : ThreadId} {v : Nat}

/-- Sets priorities one after the other. -/
def setPriorities (tb : Table) (calls : List (ThreadId × Nat)) : Except Fault Table :=
  calls.foldlM (fun tb c => tb.setPriority c.1 c.2) tb

/-- The last value that the calls give `t`, if any. -/
def lastValue (t : ThreadId) : List (ThreadId × Nat) → Option Nat
  | [] => none
  | (u, v) :: rest => (lastValue t rest).or (if u = t then some v else none)

/-! ## Base values alone -/

def setBase (t : ThreadId) (v : Nat) (tb : Table) : Table :=
  tb.setThread t { tb.state t with base := v }

def rebase (calls : List (ThreadId × Nat)) (tb : Table) : Table :=
  calls.foldl (fun tb c => setBase c.1 c.2 tb) tb

/-- A thread that was given values has the last of them, and otherwise the state it had. -/
theorem get?_rebase (calls : List (ThreadId × Nat)) (t : ThreadId) : ∀ tb : Table,
    (rebase calls tb).threads.get? t =
      match lastValue t calls with
      | some v => some { tb.state t with base := v }
      | none => tb.threads.get? t := by
  induction calls with
  | nil => exact fun _ => rfl
  | cons c calls ih =>
    intro tb
    obtain ⟨u, v⟩ := c
    have hrest := ih (setBase u v tb)
    rw [setBase, state_setBase, get?_setThread] at hrest
    rw [lastValue]
    refine hrest.trans ?_
    cases lastValue t calls with
    | some w =>
      dsimp only [Option.some_or]
      split <;> rfl
    | none =>
      rw [Option.none_or]
      by_cases hut : u = t
      · subst hut
        simp only [if_true]
      · simp only [if_neg hut]

theorem rebase_rest (calls : List (ThreadId × Nat)) : ∀ tb : Table,
    rebase calls tb = { tb with threads := (rebase calls tb).threads } := by
  induction calls with
  | nil => exact fun _ => rfl
  | cons c calls ih => exact fun tb => ih (setBase c.1 c.2 tb)

theorem rebase_congr {calls calls' : List (ThreadId × Nat)}
    (h : ∀ t, lastValue t calls = lastValue t calls') (tb : Table) :
    rebase calls tb = rebase calls' tb := by
  have hthreads : (rebase calls tb).threads = (rebase calls' tb).threads :=
    KeyMap.ext_get? fun t => by rw [get?_rebase, get?_rebase, h]
  rw [rebase_rest calls, rebase_rest calls', hthreads]

/-- What was the frame is the frame after a base value was set in both tables. -/
theorem SameFrame.setBase (h : SameFrame tb tb') (t : ThreadId) (v : Nat) :
    SameFrame (setBase t v tb) (setBase t v tb') where
  policy := h.policy
  arrivals := h.arrivals
  state u := by
    obtain ⟨e, he⟩ := h.state u
    rw [Table.setBase, Table.setBase, state_setBase, state_setBase, he]
    split <;> exact ⟨e, rfl⟩
  absent hq := h.absent hq
  queue hq := h.queue hq
  random := h.random
  free := h.free
  fresh := h.fresh
  known := by
    ext u
    rw [Table.setBase, Table.setBase, known_setThread, known_setThread, h.known]

/-! ## One call -/

theorem setBase_owner_known (h : Sound tb) (q : QueueId) (u : ThreadId)
    (ho : (setBase t v tb).links.owner q = some u) : u ∈ (setBase t v tb).known := by
  rw [setBase, setBase_links] at ho
  exact known_setThread.2 (.inr (h.known_of_owner ho))

theorem setPriority_sameFrame (h : Sound tb) (hr : tb.setPriority t v = .ok tb') :
    SameFrame (setBase t v tb) tb' :=
  refreshWithin_sameFrame _
    (aheadKnown_of_owners (known_setThread.2 (.inl rfl)) (setBase_owner_known h))
    (setPriority_cases hr).2

theorem setPriority_donates (h : Sound tb) (hr : tb.setPriority t v = .ok tb')
    (a b : ThreadId) : tb'.Donates a b ↔ tb.Donates a b := by
  rw [donates_iff_links, donates_iff_links, (setPriority_effect h hr).2.links]

/-- Without cycles a priority within the bounds can be set. -/
theorem exists_setPriority (h : Sound tb) (hac : Acyclic tb)
    (hv : tb.policy.bounds.contains v = true) (t : ThreadId) :
    ∃ tb', tb.setPriority t v = .ok tb' := by
  have hdonates : ∀ a b, (setBase t v tb).Donates a b → tb.Donates a b := fun a b hd => by
    rw [donates_iff_links, setBase, setBase_links] at hd
    exact donates_iff_links.2 hd
  have hno : ¬ (setBase t v tb).EntersCycle t := fun ⟨u, _, hu⟩ => hac.mono hdonates u hu
  obtain ⟨tb', hr⟩ := refresh_ends_of_no_cycle (setBase_linked h.linked) hno
  exact ⟨tb', (if_pos hv).trans hr⟩

/-! ## Many calls -/

/-- All values lie within the bounds. -/
def Allowed (p : Policy) (calls : List (ThreadId × Nat)) : Prop :=
  ∀ c ∈ calls, p.bounds.contains c.2 = true

/-- The calls succeed, whatever walks they start. -/
theorem exists_setPriorities (calls : List (ThreadId × Nat)) : ∀ {tb : Table}, Sound tb →
    Acyclic tb → Allowed tb.policy calls →
      ∃ tb', tb.setPriorities calls = .ok tb' ∧ Sound tb' ∧ Acyclic tb' := by
  induction calls with
  | nil => exact fun {tb} h hac _ => ⟨tb, rfl, h, hac⟩
  | cons c calls ih =>
    intro tb h hac hin
    obtain ⟨tb₁, hr₁⟩ := exists_setPriority h hac (hin c List.mem_cons_self) c.1
    have he := (setPriority_effect h hr₁).2
    have hac₁ : Acyclic tb₁ := hac.mono fun a b => (setPriority_donates h hr₁ a b).1
    have hin₁ : Allowed tb₁.policy calls := by
      rw [he.precedes.policy]
      exact fun d hd => hin d (List.mem_cons_of_mem _ hd)
    obtain ⟨tb', hr, hrest⟩ := ih he.sound hac₁ hin₁
    refine ⟨tb', ?_, hrest⟩
    rw [setPriorities, List.foldlM_cons, hr₁]
    exact hr

/-- The calls leave the frame that setting the base values alone would leave. -/
theorem setPriorities_sameFrame (calls : List (ThreadId × Nat)) : ∀ {tb tb₀ tb' : Table},
    Sound tb → SameFrame tb₀ tb → tb.setPriorities calls = .ok tb' →
      SameFrame (rebase calls tb₀) tb' := by
  induction calls with
  | nil =>
    intro tb tb₀ tb' _ hframe hr
    cases hr
    exact hframe
  | cons c calls ih =>
    intro tb tb₀ tb' h hframe hr
    rw [setPriorities, List.foldlM_cons] at hr
    cases hr₁ : tb.setPriority c.1 c.2 with
    | error e =>
      rw [hr₁] at hr
      cases hr
    | ok tb₁ =>
      rw [hr₁] at hr
      exact ih (setPriority_effect h hr₁).2.sound
        ((hframe.setBase c.1 c.2).trans (setPriority_sameFrame h hr₁)) hr

/-- Calls that give every thread the same last value lead to the same table. -/
theorem setPriorities_eq {calls calls' : List (ThreadId × Nat)} (h : Sound tb) (hac : Acyclic tb)
    (hin : Allowed tb.policy calls) (hin' : Allowed tb.policy calls')
    (hlast : ∀ t, lastValue t calls = lastValue t calls') :
    ∃ tb', tb.setPriorities calls = .ok tb' ∧ tb.setPriorities calls' = .ok tb' := by
  obtain ⟨tb₁, hr₁, hs₁, hac₁⟩ := exists_setPriorities calls h hac hin
  obtain ⟨tb₂, hr₂, hs₂, -⟩ := exists_setPriorities calls' h hac hin'
  have hf₁ := setPriorities_sameFrame calls h (.refl tb) hr₁
  have hf₂ := setPriorities_sameFrame calls' h (.refl tb) hr₂
  rw [← rebase_congr hlast] at hf₂
  exact ⟨tb₁, hr₁, (hs₁.eq_of_sameFrame hs₂ hac₁ (hf₁.symm.trans hf₂)) ▸ hr₂⟩

/-- After the calls the base values are the last ones. -/
theorem setPriorities_priority {calls : List (ThreadId × Nat)} (h : Sound tb)
    (hr : tb.setPriorities calls = .ok tb') (t : ThreadId) :
    tb'.priority t = (lastValue t calls).getD (tb.priority t) := by
  have hframe := setPriorities_sameFrame calls h (.refl tb) hr
  have hget := get?_rebase calls t tb
  have hpolicy : (rebase calls tb).policy = tb.policy := by rw [rebase_rest]
  rw [priority, hframe.base]
  cases hlast : lastValue t calls with
  | some v =>
    rw [hlast] at hget
    rw [state_of_get? hget]
    rfl
  | none =>
    rw [hlast] at hget
    rw [state, hget, hpolicy]
    rfl

/-- Calls that touch the same threads and end with the same value for each lead to one and the same
table, and so does everything after them. In particular calls for different threads commute, and a
value that is replaced leaves no trace. -/
theorem reachable_priorities {p : Policy} (h : Reachable p tb) (hac : Acyclic tb) :
    (∀ calls calls' : List (ThreadId × Nat), Allowed p calls → Allowed p calls' →
      (∀ t, lastValue t calls = lastValue t calls') →
        ∃ tb', tb.setPriorities calls = .ok tb' ∧ tb.setPriorities calls' = .ok tb' ∧
          (∀ t, tb'.priority t = (lastValue t calls).getD (tb.priority t)) ∧
          ∀ later : List Op, (tb.setPriorities calls >>= fun tb => later.foldlM apply tb) =
            (tb.setPriorities calls' >>= fun tb => later.foldlM apply tb)) ∧
    (∀ t u v w, t ≠ u → p.bounds.contains v = true → p.bounds.contains w = true →
      (tb.setPriority t v >>= fun tb => tb.setPriority u w) =
        (tb.setPriority u w >>= fun tb => tb.setPriority t v)) ∧
    ∀ t v w, p.bounds.contains v = true → p.bounds.contains w = true →
      (tb.setPriority t v >>= fun tb => tb.setPriority t w) = tb.setPriority t w := by
  obtain ⟨hp, hs⟩ := h.sound
  subst hp
  have hpair : ∀ t u v w, (tb.setPriority t v >>= fun tb => tb.setPriority u w) =
      tb.setPriorities [(t, v), (u, w)] := by
    intro t u v w
    simp [setPriorities]
  refine ⟨fun calls calls' hin hin' hlast => ?_, fun t u v w htu hv hw => ?_, fun t v w hv hw => ?_⟩
  · obtain ⟨tb', hr, hr'⟩ := setPriorities_eq hs hac hin hin' hlast
    exact ⟨tb', hr, hr', setPriorities_priority hs hr, fun later => by rw [hr, hr']⟩
  · rw [hpair, hpair]
    have hin : ∀ c ∈ [(t, v), (u, w)], tb.policy.bounds.contains c.2 = true := by simp [hv, hw]
    have hin' : ∀ c ∈ [(u, w), (t, v)], tb.policy.bounds.contains c.2 = true := by simp [hv, hw]
    obtain ⟨tb', hr, hr'⟩ := setPriorities_eq hs hac hin hin' fun x => by
      by_cases htx : t = x
      · subst htx
        simp [lastValue, htu.symm]
      · simp [lastValue, htx]
    rw [hr, hr']
  · rw [hpair]
    have hin : ∀ c ∈ [(t, v), (t, w)], tb.policy.bounds.contains c.2 = true := by simp [hv, hw]
    have hin' : ∀ c ∈ [(t, w)], tb.policy.bounds.contains c.2 = true := by simp [hw]
    obtain ⟨tb', hr, hr'⟩ := setPriorities_eq hs hac hin hin' fun x => by
      by_cases htx : t = x <;> simp [lastValue, htx]
    rw [hr, ← hr']
    simp [setPriorities]

/-- Thread 3 waits for thread 2, which waits for thread 1. That thread 3 had nine tickets for a
while cannot be seen afterwards. -/
theorem reachable_priorities_chain : ∃ tb tb', Reachable .lottery tb ∧ Acyclic tb ∧
    tb.setPriorities [(⟨3⟩, 9), (⟨1⟩, 2), (⟨3⟩, 4)] = .ok tb' ∧
    tb.setPriorities [(⟨3⟩, 4), (⟨1⟩, 2)] = .ok tb' ∧ tb'.priority ⟨3⟩ = 4 := by
  have hrun : (ofOps .lottery .counting chainOps).toOption.any descending = true := by
    decide +kernel
  obtain ⟨tb, hreach, hd⟩ := exists_reachable hrun
  have hac := acyclic_of_descending hd
  obtain ⟨tb', hr, hr', hlast, -⟩ := (reachable_priorities hreach hac).1
    [(⟨3⟩, 9), (⟨1⟩, 2), (⟨3⟩, 4)] [(⟨3⟩, 4), (⟨1⟩, 2)] (by simp [Allowed]; decide)
    (by simp [Allowed]; decide) fun t => by
      by_cases ht : (⟨3⟩ : ThreadId) = t
      · subst ht
        simp [lastValue]
      · simp [lastValue, ht]
  exact ⟨tb, tb', hreach, hac, hr, hr', (hlast ⟨3⟩).trans (by simp [lastValue])⟩

end ThreadKernel.Table
