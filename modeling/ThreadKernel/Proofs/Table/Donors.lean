import ThreadKernel.Proofs.Table.Consistency
import Mathlib.Algebra.BigOperators.Group.Finset.Basic
import Mathlib.Data.Finset.Lattice.Fold
import Mathlib.Data.Set.Card
import Mathlib.Logic.Relation
import Mathlib.Order.Lattice.Nat

/-!
# ThreadKernel.Proofs.Table.Donors

What a thread's effective value amounts to when owners form no cycle.

* `Table.Donates`        — one thread waits on a transferring queue of another.
* `Policy.combine_foldl` — combining values in portions is the same, saturation included.
* `effective_eq_direct`  — a value is the base value with the values of the direct donors.
* `effective_eq_donors`  — by induction it is the base value with those of all donors, each once.
* `reachable_closedForm`  — a maximum under strict priorities, a capped sum under the lottery.
-/

namespace ThreadKernel

open Relation

namespace Policy

theorem foldl_max_eq (l : List Nat) : ∀ v : Nat, l.foldl max v = max v (l.foldl max 0) := by
  induction l with
  | nil => intro v; simp
  | cons a l ih =>
    intro v
    rw [List.foldl_cons, List.foldl_cons, ih, ih (max 0 a)]
    omega

/-- A portion that was combined before counts like its parts. -/
theorem combine_foldl (p : Policy) {v b : Nat} (hv : v ≤ p.bounds.greatest)
    (hb : b ≤ p.bounds.greatest) (l : List Nat) :
    p.combine v (l.foldl p.combine b) = (b :: l).foldl p.combine v := by
  cases p with
  | priority =>
    show max v (l.foldl max b) = l.foldl max (max v b)
    rw [foldl_max_eq l b, foldl_max_eq l (max v b)]
    omega
  | lottery =>
    show min (v + l.foldl (fun v w => min (v + w) maxPriority) b) maxPriority =
      l.foldl (fun v w => min (v + w) maxPriority) (min (v + b) maxPriority)
    rw [foldl_add_capped l b hb, foldl_add_capped l _ (Nat.min_le_right _ _)]
    omega

end Policy

namespace Table

/-- `u` waits on a transferring queue that `t` owns. -/
def Donates (tb : Table) (u t : ThreadId) : Prop :=
  ∃ q qs, tb.waitingQueue u = some q ∧ tb.queue? q = some qs ∧
    qs.transfer = true ∧ qs.owner = some t

def Acyclic (tb : Table) : Prop := ∀ t, ¬ TransGen tb.Donates t t

/-- A thread waits on one queue, which has one owner. -/
theorem Donates.unique {tb : Table} {u t t' : ThreadId} (h : tb.Donates u t)
    (h' : tb.Donates u t') : t = t' := by
  obtain ⟨q, qs, hw, hq, -, ho⟩ := h
  obtain ⟨q', qs', hw', hq', -, ho'⟩ := h'
  rw [hw] at hw'
  cases hw'
  rw [hq] at hq'
  cases hq'
  rw [ho] at ho'
  exact Option.some.inj ho'

theorem not_donates {tb : Table} {u t : ThreadId} (h : tb.waitingQueue u = none) :
    ¬ tb.Donates u t := by
  rintro ⟨q, qs, hw, -⟩
  exact nomatch h.symm.trans hw

/-! ## Direct donors -/

/-- Who waits on a transferring queue. -/
def donorsThrough (tb : Table) (q : QueueId) : List ThreadId :=
  match tb.queue? q with
  | some qs => if qs.transfer then qs.waiters.threads else []
  | none => []

def directDonors (tb : Table) (t : ThreadId) : List ThreadId :=
  (tb.ownedQueues t).flatMap tb.donorsThrough

theorem mem_ownedQueues {tb : Table} {q : QueueId} {t : ThreadId} :
    q ∈ tb.ownedQueues t ↔ ∃ qs, tb.queue? q = some qs ∧ qs.owner = some t := by
  rw [ownedQueues, List.mem_filter, mem_queueIds, decide_eq_true_eq, Option.bind_eq_some_iff]
  constructor
  · exact fun h => h.2
  · rintro ⟨qs, hq, ho⟩
    exact ⟨by rw [hq]; rfl, qs, hq, ho⟩

theorem mem_donorsThrough {tb : Table} {q : QueueId} {u : ThreadId} :
    u ∈ tb.donorsThrough q ↔
      ∃ qs, tb.queue? q = some qs ∧ qs.transfer = true ∧ u ∈ qs.waiters.threads := by
  cases hq : tb.queue? q with
  | none => simp [donorsThrough, hq]
  | some qs => cases htr : qs.transfer <;> simp [donorsThrough, hq, htr]

theorem mem_directDonors {tb : Table} (h : Linked tb) {u t : ThreadId} :
    u ∈ tb.directDonors t ↔ tb.Donates u t := by
  simp only [directDonors, List.mem_flatMap, mem_ownedQueues, mem_donorsThrough]
  constructor
  · rintro ⟨q, ⟨qs, hq, ho⟩, qs', hq', htr, hu⟩
    rw [hq] at hq'
    cases hq'
    exact ⟨q, qs, h.waiting_iff.2 ⟨qs, hq, hu⟩, hq, htr, ho⟩
  · rintro ⟨q, qs, hw, hq, htr, ho⟩
    obtain ⟨qs', hq', hu⟩ := h.waiting_iff.1 hw
    rw [hq] at hq'
    cases hq'
    exact ⟨q, ⟨qs, hq, ho⟩, qs, hq, htr, hu⟩

theorem directDonors_nodup {tb : Table} (h : Linked tb) (t : ThreadId) :
    (tb.directDonors t).Nodup := by
  refine List.nodup_flatMap.2 ⟨fun q _ => ?_, ?_⟩
  · rw [donorsThrough]
    split
    · rename_i qs hq
      split
      · exact h.threads_nodup hq
      · exact List.nodup_nil
    · exact List.nodup_nil
  · have hn : (tb.ownedQueues t).Nodup := (queueIds_nodup tb).filter _
    refine hn.imp fun {q r} hne u hq hr => hne ?_
    obtain ⟨qs, hqs, -, hu⟩ := mem_donorsThrough.1 hq
    obtain ⟨rs, hrs, -, hu'⟩ := mem_donorsThrough.1 hr
    have hwq := h.waiting_iff.2 ⟨qs, hqs, hu⟩
    have hwr := h.waiting_iff.2 ⟨rs, hrs, hu'⟩
    exact Option.some.inj (hwq.symm.trans hwr)

/-- A queue gives what its donors give one after the other. -/
theorem foldl_queueDonation {tb : Table} (h : Sound tb) (l : List QueueId) : ∀ {v : Nat},
    v ≤ tb.policy.bounds.greatest →
    (l.filterMap tb.queueDonation).foldl tb.policy.combine v =
      ((l.flatMap tb.donorsThrough).map tb.effective).foldl tb.policy.combine v := by
  induction l with
  | nil => intro v _; rfl
  | cons q l ih =>
    intro v hv
    rw [List.flatMap_cons, List.map_append, List.foldl_append]
    cases hq : tb.queue? q with
    | none =>
      have hd : tb.queueDonation q = none := by simp [queueDonation, hq]
      have hn : tb.donorsThrough q = [] := by simp [donorsThrough, hq]
      rw [List.filterMap_cons_none hd, hn]
      exact ih hv
    | some qs =>
      cases htr : qs.transfer with
      | false =>
        have hd : tb.queueDonation q = none := by simp [queueDonation, hq, htr]
        have hn : tb.donorsThrough q = [] := by simp [donorsThrough, hq, htr]
        rw [List.filterMap_cons_none hd, hn]
        exact ih hv
      | true =>
        have hd : tb.queueDonation q = some (tb.policy.donation qs.waiters) := by
          simp [queueDonation, hq, htr]
        have hn : tb.donorsThrough q = qs.waiters.threads := by simp [donorsThrough, hq, htr]
        have hw : qs.waiters.threads.map tb.effective = qs.waiters.weights := by
          rw [WaitSet.threads, WaitSet.weights, List.map_map]
          exact List.map_congr_left fun r hr => (h.settled.weight hq hr).symm
        rw [List.filterMap_cons_some hd, List.foldl_cons, hn, hw,
          ← Policy.foldl_combine (h.linked.ranked hq) hv]
        exact ih (Policy.combine_le hv (h.settled.donation_le hq))

theorem effective_eq_direct {tb : Table} (h : Sound tb) (t : ThreadId) :
    tb.effective t =
      ((tb.directDonors t).map tb.effective).foldl tb.policy.combine (tb.priority t) := by
  rw [h.effective_eq, donations, directDonors]
  exact foldl_queueDonation h _ (h.settled.base_le t)

/-- A value from scratch is no less than that of a donor, if the owner has its queues. -/
theorem Donates.le_donatedValue {tb : Table} {u t : ThreadId} {x : Option ThreadId} {v : Nat}
    (hd : tb.Donates u t) (hl : Linked tb) (hs : SettledBut x tb)
    (hacq : ∀ {q qs}, tb.queue? q = some qs → qs.owner = some t → q ∈ (tb.state t).acquired)
    (hv : tb.donatedValue t = .ok v) : tb.effective u ≤ v := by
  obtain ⟨q, qs, hw, hq, htr, ho⟩ := hd
  obtain ⟨qs', hq', hm⟩ := hl.waiting_iff.1 hw
  rw [hq] at hq'
  cases hq'
  obtain ⟨r, hr, rfl⟩ := WaitSet.mem_threads.1 hm
  have hle := hs.weight_le hl (hacq hq ho) hq htr hr hv
  rwa [hs.weight hq hr] at hle

/-- Nobody is worth less than a thread that donates to it. -/
theorem Donates.effective_le {tb : Table} {u t : ThreadId} (h : Sound tb)
    (hd : tb.Donates u t) : tb.effective u ≤ tb.effective t :=
  hd.le_donatedValue h.linked h.settled h.owned (h.settled.value t (by simp))

/-! ## All donors -/

/-- The threads of the list are those that donate to `t` in one or more steps, each once. -/
structure DonorList (tb : Table) (t : ThreadId) (l : List ThreadId) : Prop where
  nodup : l.Nodup
  mem : ∀ u, u ∈ l ↔ TransGen tb.Donates u t

theorem Donates.mem_keys {tb : Table} {u t : ThreadId} (h : tb.Donates u t) :
    u ∈ tb.threads.keys := by
  obtain ⟨q, qs, hw, -⟩ := h
  rw [KeyMap.mem_keys_iff]
  cases hs : tb.threads.get? u with
  | some s => rfl
  | none =>
    rw [waitingQueue, state_of_absent hs] at hw
    cases hw

theorem donors_finite (tb : Table) (t : ThreadId) : {u | TransGen tb.Donates u t}.Finite := by
  refine (tb.threads.keys.toFinset.finite_toSet).subset fun u hu => ?_
  obtain ⟨v, huv, -⟩ := TransGen.head'_iff.1 hu
  exact List.mem_toFinset.2 huv.mem_keys

/-- A donor has fewer donors than the thread it donates to. -/
theorem donors_lt {tb : Table} (hac : Acyclic tb) {u t : ThreadId} (h : tb.Donates u t) :
    {v | TransGen tb.Donates v u}.ncard < {v | TransGen tb.Donates v t}.ncard := by
  refine Set.ncard_lt_ncard ⟨fun v hv => hv.tail h, fun hsub => ?_⟩ (donors_finite tb t)
  exact hac u (hsub (TransGen.single h))

/-- What reaches two direct donors of one thread would close a cycle. -/
theorem donor_branch_unique {tb : Table} (hac : Acyclic tb) {x u v t : ThreadId}
    (hu : tb.Donates u t) (hv : tb.Donates v t) (hxu : ReflTransGen tb.Donates x u)
    (hxv : ReflTransGen tb.Donates x v) : u = v := by
  have hno : ∀ {a b}, tb.Donates a t → tb.Donates b t → ReflTransGen tb.Donates a b → a = b := by
    intro a b ha hb hab
    rcases ReflTransGen.cases_head hab with heq | ⟨c, hac', hcb⟩
    · exact heq
    · have hct : c = t := hac'.unique ha
      subst hct
      exact absurd (TransGen.tail' hcb hb) (hac c)
  have hru : Relator.RightUnique tb.Donates := fun _ _ _ h h' => h.unique h'
  rcases ReflTransGen.total_of_right_unique hru hxu hxv with huv | hvu
  · exact hno hu hv huv
  · exact (hno hv hu hvu).symm

/-- Direct donors, each with its own donors behind it, are all donors. -/
theorem donorList_flatMap {tb : Table} (h : Linked tb) (hac : Acyclic tb) {t : ThreadId}
    {f : ThreadId → List ThreadId} (hf : ∀ u, tb.Donates u t → tb.DonorList u (f u)) :
    tb.DonorList t ((tb.directDonors t).flatMap fun u => u :: f u) := by
  have hmem : ∀ {u x}, tb.Donates u t → (x ∈ u :: f u ↔ ReflTransGen tb.Donates x u) := by
    intro u x hu
    rw [List.mem_cons, (hf u hu).mem, reflTransGen_iff_eq_or_transGen, eq_comm]
  constructor
  · refine List.nodup_flatMap.2 ⟨fun u hu => ?_, ?_⟩
    · have hd := hf u ((mem_directDonors h).1 hu)
      exact List.nodup_cons.2 ⟨fun hm => hac u ((hd.mem u).1 hm), hd.nodup⟩
    · refine (directDonors_nodup h t).imp_of_mem fun {u v} hu hv hne x hxu hxv => hne ?_
      have hu := (mem_directDonors h).1 hu
      have hv := (mem_directDonors h).1 hv
      exact donor_branch_unique hac hu hv ((hmem hu).1 hxu) ((hmem hv).1 hxv)
  · intro x
    rw [List.mem_flatMap]
    constructor
    · rintro ⟨u, hu, hx⟩
      have hu := (mem_directDonors h).1 hu
      exact TransGen.tail' ((hmem hu).1 hx) hu
    · intro hx
      obtain ⟨u, hxu, hu⟩ := TransGen.tail'_iff.1 hx
      exact ⟨u, (mem_directDonors h).2 hu, (hmem hu).2 hxu⟩

/-- Values that were combined for each direct donor combine to those of all donors. -/
theorem foldl_portions {tb : Table} (h : Sound tb) {f : ThreadId → List ThreadId}
    {l : List ThreadId} (hl : ∀ u ∈ l, tb.effective u =
      ((f u).map tb.priority).foldl tb.policy.combine (tb.priority u)) : ∀ {v : Nat},
    v ≤ tb.policy.bounds.greatest → (l.map tb.effective).foldl tb.policy.combine v =
      ((l.flatMap fun u => u :: f u).map tb.priority).foldl tb.policy.combine v := by
  induction l with
  | nil => intro v _; rfl
  | cons u l ih =>
    intro v hv
    have hu := hl u List.mem_cons_self
    have ih := @ih (fun x hx => hl x (List.mem_cons_of_mem _ hx))
    have hport : tb.policy.combine v
        (((f u).map tb.priority).foldl tb.policy.combine (tb.priority u)) =
          ((u :: f u).map tb.priority).foldl tb.policy.combine v :=
      tb.policy.combine_foldl hv (h.settled.base_le u) _
    have hle : tb.policy.combine v (tb.effective u) ≤ tb.policy.bounds.greatest :=
      Policy.combine_le hv (h.settled.effective_le u)
    rw [List.map_cons, List.foldl_cons, ih hle, List.flatMap_cons, List.map_append,
      List.foldl_append, hu, hport]

theorem effective_eq_donors {tb : Table} (h : Sound tb) (hac : Acyclic tb) (t : ThreadId) :
    ∃ l, tb.DonorList t l ∧
      tb.effective t = (l.map tb.priority).foldl tb.policy.combine (tb.priority t) := by
  -- the induction is on the number of donors
  generalize hn : {u | TransGen tb.Donates u t}.ncard = n
  induction n using Nat.strongRecOn generalizing t with
  | ind n ih =>
    subst hn
    have hih : ∀ u, tb.Donates u t → ∃ l, tb.DonorList u l ∧
        tb.effective u = (l.map tb.priority).foldl tb.policy.combine (tb.priority u) :=
      fun u hu => ih _ (donors_lt hac hu) u rfl
    choose! f hf using hih
    refine ⟨(tb.directDonors t).flatMap fun u => u :: f u,
      donorList_flatMap h.linked hac fun u hu => (hf u hu).1, ?_⟩
    rw [effective_eq_direct h t]
    exact foldl_portions h (fun u hu => (hf u ((mem_directDonors h.linked).1 hu)).2)
      (h.settled.base_le t)

/-- Without cycles a value follows from the base values and from who donates, over whichever
queues. -/
theorem effective_congr_donors {tb tb' : Table} {t : ThreadId} (h : Sound tb) (h' : Sound tb')
    (hac : Acyclic tb) (hac' : Acyclic tb') (hp : tb'.policy = tb.policy)
    (hb : tb'.priority = tb.priority)
    (hd : ∀ u, TransGen tb'.Donates u t ↔ TransGen tb.Donates u t) :
    tb'.effective t = tb.effective t := by
  obtain ⟨l, hl, he⟩ := effective_eq_donors h hac t
  obtain ⟨l', hl', he'⟩ := effective_eq_donors h' hac' t
  have hperm : l'.Perm l :=
    (List.perm_ext_iff_of_nodup hl'.nodup hl.nodup).2 fun u => by rw [hl'.mem, hl.mem, hd]
  rw [he, he', hp, hb, (hperm.map tb.priority).foldl_eq]

/-! ## The closed form -/

theorem foldl_max_toFinset (f : ThreadId → Nat) (l : List ThreadId) :
    (l.map f).foldl max 0 = l.toFinset.sup f := by
  induction l with
  | nil => rfl
  | cons a l ih =>
    rw [List.map_cons, List.foldl_cons, Policy.foldl_max_eq, ih, List.toFinset_cons,
      Finset.sup_insert, Nat.zero_max]

/-- The effective value of `t` stands for its own base value and those of all its donors, each
counted once. -/
def ClosedForm (p : Policy) (tb : Table) (t : ThreadId) : Prop :=
  ∃ donors : Finset ThreadId, (∀ u, u ∈ donors ↔ TransGen tb.Donates u t) ∧
    match p with
    | .priority => tb.effective t = (insert t donors).sup tb.priority
    | .lottery => tb.effective t = min maxPriority (∑ u ∈ insert t donors, tb.priority u)

theorem Sound.closedForm {tb : Table} (h : Sound tb) (hac : Acyclic tb) (t : ThreadId) :
    ClosedForm tb.policy tb t := by
  obtain ⟨l, hl, heff⟩ := effective_eq_donors h hac t
  refine ⟨l.toFinset, fun u => by rw [List.mem_toFinset, hl.mem], ?_⟩
  have hb := h.settled.base_le t
  have ht : t ∉ l.toFinset := by
    rw [List.mem_toFinset, hl.mem]
    exact hac t
  cases hp : tb.policy with
  | priority =>
    rw [hp] at heff
    show tb.effective t = _
    rw [heff, Finset.sup_insert, ← foldl_max_toFinset]
    exact Policy.foldl_max_eq _ _
  | lottery =>
    rw [hp] at heff hb
    show tb.effective t = _
    rw [heff, Finset.sum_insert ht, List.sum_toFinset _ hl.nodup, Nat.min_comm]
    exact Policy.foldl_add_capped _ _ hb

theorem acyclic_of_rank {tb : Table} (rank : ThreadId → Nat)
    (h : ∀ u t, tb.Donates u t → rank t < rank u) : Acyclic tb := by
  have hlt : ∀ {u t}, TransGen tb.Donates u t → rank t < rank u := by
    intro u t ht
    induction ht with
    | single hd => exact h _ _ hd
    | tail _ hd ih => exact (h _ _ hd).trans ih
  exact fun t ht => Nat.lt_irrefl _ (hlt ht)

theorem Acyclic.mono {tb tb' : Table} (h : Acyclic tb)
    (hsub : ∀ u t, tb'.Donates u t → tb.Donates u t) : Acyclic tb' :=
  fun t ht => h t (TransGen.mono hsub t t ht)

/-- Without cycles values are exact, and an operation that takes links away leaves nothing of what
was donated through them. -/
theorem reachable_closedForm {p : Policy} {tb : Table} (h : Reachable p tb) (hac : Acyclic tb) :
    (∀ t, ClosedForm p tb t) ∧
      ∀ op tb', tb.apply op = .ok tb' → (∀ u t, tb'.Donates u t → tb.Donates u t) →
        ∀ t, ClosedForm p tb' t := by
  have hexact : ∀ {tb : Table}, Reachable p tb → Acyclic tb → ∀ t, ClosedForm p tb t := by
    intro tb h hac t
    obtain ⟨hp, hs⟩ := h.sound
    rw [← hp]
    exact hs.closedForm hac t
  exact ⟨hexact h hac, fun op tb' ha hsub => hexact (h.step op ha) (hac.mono hsub)⟩

/-- Thread 3 waits for thread 2, which waits for thread 1. -/
def chainOps : List Op :=
  [.createQueue true, .createQueue true, .acquire ⟨0⟩ ⟨1⟩, .acquire ⟨1⟩ ⟨2⟩,
    .waitForAccess ⟨0⟩ ⟨2⟩, .setPriority ⟨3⟩ 5, .waitForAccess ⟨1⟩ ⟨3⟩]

/-- Every thread with a state waits, if at all, on a queue of a thread with a smaller number. -/
def descending (tb : Table) : Bool :=
  tb.threads.keys.all fun u => ((tb.waitingQueue u).bind tb.queue?).all fun qs =>
    qs.owner.all fun t => t.number < u.number

theorem acyclic_of_descending {tb : Table} (h : descending tb = true) : Acyclic tb := by
  refine acyclic_of_rank ThreadId.number fun u t hd => ?_
  have hk := List.all_eq_true.1 h u hd.mem_keys
  obtain ⟨q, qs, hw, hq, -, ho⟩ := hd
  simpa [hw, hq, ho] using hk

theorem reachable_closedForm_chain : ∃ tb,
    Reachable .lottery tb ∧ Acyclic tb ∧ tb.effective ⟨1⟩ = 7 ∧
      (∀ t, ClosedForm .lottery tb t) ∧
      ∀ op tb', tb.apply op = .ok tb' → (∀ u t, tb'.Donates u t → tb.Donates u t) →
        ∀ t, ClosedForm .lottery tb' t := by
  have hrun : (ofOps .lottery .counting chainOps).toOption.any (fun tb =>
      descending tb = true ∧ tb.effective ⟨1⟩ = 7) = true := by
    decide +kernel
  obtain ⟨tb, hr, hrun⟩ := exists_reachable hrun
  obtain ⟨hd, heff⟩ := of_decide_eq_true hrun
  have hac := acyclic_of_descending hd
  exact ⟨tb, hr, hac, heff, reachable_closedForm hr hac⟩

end Table
end ThreadKernel
