import ThreadKernel.Proofs.Table.Donors
import Mathlib.Data.List.Chain

/-!
# ThreadKernel.Proofs.Table.Walk

How far a walk along the owners goes.

A walk that goes on from a thread has changed its value, so a measure that every such change lowers
bounds the hops. The threads ahead do, as long as the walk does not come back to a thread.

* `Table.hop`, `Table.Onward`  — what the walk does at one thread, and where it goes on.
* `Table.examined`             — the threads that a walk looks at.
* `Table.Walked`               — it looks at these and no others, whether it ends or is given up.
* `refreshWithin_ends`         — a walk ends within as many hops as a measure allows.
* `refresh_ends_of_no_cycle`   — it ends unless it enters a cycle.
* `Table.Walking`              — what holds of a table while a walk is under way.
-/

namespace ThreadKernel.Table

open Relation

variable {t o : ThreadId} {tb tb' : Table}

/-! ## One hop -/

/-- What the walk does at one thread: where it goes on, if anywhere, and the table it leaves. -/
def hop (t : ThreadId) (tb : Table) : Except Fault (Option ThreadId × Table) :=
  match tb.donatedValue t with
  | .error e => .error e
  | .ok value =>
    if (tb.state t).effective = value then .ok (none, tb.ensure t)
    else
      match (tb.state t).waiting with
      | none => .ok (none, tb.setThread t { tb.state t with effective := value })
      | some q =>
        match tb.queue? q with
        | none => .error (.unknownQueue q)
        | some qs =>
          match rerank tb.policy t value qs.waiters with
          | none => .error (.recordMissing t q)
          | some waiters => .ok (qs.beneficiary, reweigh t value q waiters tb)

/-- A walk is a hop and the rest of the walk. -/
theorem refreshWithin_eq_hop (hops : Nat) (t : ThreadId) (tb : Table) :
    refreshWithin hops t tb =
      match hop t tb with
      | .error e => .error e
      | .ok (none, tb') => .ok tb'
      | .ok (some o, tb') =>
        match hops with
        | 0 => .error (.ownershipCycle o)
        | n + 1 => refreshWithin n o tb' := by
  conv_lhs => unfold refreshWithin
  unfold hop reweigh
  cases tb.donatedValue t with
  | error e => rfl
  | ok value =>
    dsimp only
    split
    · rfl
    · cases (tb.state t).waiting with
      | none => rfl
      | some q =>
        dsimp only [queue?_setThread]
        cases tb.queue? q with
        | none => rfl
        | some qs =>
          dsimp only
          show (match rerank tb.policy t value qs.waiters with | none => _ | some _ => _) = _
          cases rerank tb.policy t value qs.waiters with
          | none => rfl
          | some waiters =>
            dsimp only
            cases qs.beneficiary <;> rfl

/-- The walk goes on from `t` to `o`: the value of `t` changed, and `t` waits on a transferring
queue of `o`. -/
inductive Onward (tb : Table) (t o : ThreadId) : Table → Prop where
  | mk {value q qs waiters} (differs : tb.effective t ≠ value)
      (computed : tb.donatedValue t = .ok value) (waits : tb.waitingQueue t = some q)
      (queue : tb.queue? q = some qs) (reranked : rerank tb.policy t value qs.waiters = some waiters)
      (owned : qs.beneficiary = some o) : Onward tb t o (reweigh t value q waiters tb)

theorem onward_of_hop (h : hop t tb = .ok (some o, tb')) : Onward tb t o tb' := by
  unfold hop at h
  split at h
  · cases h
  · rename_i value hv
    split at h
    · cases h
    · rename_i hne
      split at h
      · cases h
      · rename_i q hw
        split at h
        · cases h
        · rename_i qs hq
          split at h
          · cases h
          · rename_i waiters hr
            obtain ⟨hb, rfl⟩ := Prod.mk.inj (Except.ok.inj h)
            exact ⟨hne, hv, hw, hq, hr, hb⟩

/-- On a linked table a hop finds the queue and the record that it looks for. -/
theorem Linked.exists_hop (h : Linked tb) (t : ThreadId) : ∃ x, hop t tb = .ok x := by
  obtain ⟨value, hv⟩ := h.exists_donatedValue t
  unfold hop
  rw [hv]
  dsimp only
  split
  · exact ⟨_, rfl⟩
  · split
    · exact ⟨_, rfl⟩
    · rename_i q hw
      obtain ⟨qs, hq, hm⟩ := h.waiting_iff.1 hw
      obtain ⟨r, rest, hrem⟩ := WaitSet.exists_remove hm
      rw [hq]
      dsimp only
      rw [rerank, hrem]
      exact ⟨_, rfl⟩

/-- The threads that have a state. -/
def known (tb : Table) : Finset ThreadId := tb.threads.keys.toFinset

theorem mem_known {u : ThreadId} : u ∈ tb.known ↔ (tb.threads.get? u).isSome := by
  rw [known, List.mem_toFinset, KeyMap.mem_keys_iff]

theorem card_known_le (tb : Table) : tb.known.card ≤ tb.threads.size := by
  refine (List.toFinset_card_le _).trans ?_
  rw [KeyMap.keys, List.length_map]
  rfl

/-- A thread without a state has the value it was given by default, so a walk stops there. -/
theorem mem_known_of_changed {value : Nat} (hv : tb.donatedValue t = .ok value)
    (hne : tb.effective t ≠ value) : t ∈ tb.known := by
  rw [mem_known]
  cases hs : tb.threads.get? t with
  | some s => rfl
  | none =>
    rw [donatedValue, hs] at hv
    refine absurd ?_ hne
    rw [effective, state_of_absent hs]
    exact Except.ok.inj hv

theorem donates_iff_links {u : ThreadId} : tb.Donates u t ↔ ∃ q, tb.links.waiting u = some q ∧
    tb.links.transfer q = some true ∧ tb.links.owner q = some t := by
  constructor
  · rintro ⟨q, qs, hw, hq, htr, ho⟩
    exact ⟨q, hw, by simp [links, hq, htr], by simp [links, hq, ho]⟩
  · rintro ⟨q, hw, htr, ho⟩
    obtain ⟨qs, hq, htr⟩ := Option.map_eq_some_iff.1 htr
    obtain ⟨qs', hq', ho⟩ := Option.bind_eq_some_iff.1 ho
    rw [hq] at hq'
    cases hq'
    exact ⟨q, qs, hw, hq, htr, ho⟩

theorem SameLinks.donates_iff {u : ThreadId} (h : SameLinks tb tb') :
    tb'.Donates u t ↔ tb.Donates u t := by
  rw [donates_iff_links, donates_iff_links, h.links_eq]

namespace Onward

theorem sameLinks (h : Onward tb t o tb') : SameLinks tb tb' := by
  obtain ⟨-, -, -, hq, hr, -⟩ := h
  exact reweigh_sameLinks _ _ hq hr

theorem linked (h : Onward tb t o tb') (hl : Linked tb) : Linked tb' := by
  obtain ⟨-, -, -, hq, hr, -⟩ := h
  exact reweigh_linked hl hq hr

theorem settledBut (h : Onward tb t o tb') (hl : Linked tb) (hs : SettledBut (some t) tb) :
    SettledBut (some o) tb' := by
  obtain ⟨-, hv, hw, hq, hr, hb⟩ := h
  rw [← hb]
  exact reweigh_settledBut hl hs hv hw hq hr

theorem donates (h : Onward tb t o tb') : tb.Donates t o := by
  obtain ⟨-, -, hw, hq, -, hb⟩ := h
  rename_i q qs waiters
  refine ⟨q, qs, hw, hq, ?_⟩
  simpa [QueueState.beneficiary] using hb

theorem mem_known (h : Onward tb t o tb') : t ∈ tb.known := by
  obtain ⟨hne, hv, -⟩ := h
  exact mem_known_of_changed hv hne

/-- The walk gives no thread a state on the way. -/
theorem known_eq (h : Onward tb t o tb') : tb'.known = tb.known := by
  have ht := Table.mem_known.1 h.mem_known
  obtain ⟨-, -, -, -, -, -⟩ := h
  ext u
  rw [Table.mem_known, Table.mem_known, reweigh, threads_modifyQueue, get?_setThread]
  split
  · rename_i htu
    rw [← htu]
    exact iff_of_true rfl ht
  · rfl

/-- Only the value of the thread that was examined changes. -/
theorem effective_eq {value : Nat} (h : Onward tb t o tb') (hv : tb.donatedValue t = .ok value)
    (u : ThreadId) : tb'.effective u = if t = u then value else tb.effective u := by
  obtain ⟨-, hv', -⟩ := h
  rw [hv] at hv'
  cases hv'
  rw [effective, state_reweigh]
  split <;> rfl

theorem changed {value : Nat} (h : Onward tb t o tb') (hv : tb.donatedValue t = .ok value) :
    tb.effective t ≠ value := by
  obtain ⟨hne, hv', -⟩ := h
  rw [hv] at hv'
  cases hv'
  exact hne

theorem ne (h : Onward tb t o tb') (hl : Linked tb) : o ≠ t := by
  rintro rfl
  obtain ⟨q, qs, hw, hq, -, ho⟩ := h.donates
  obtain ⟨qs', hq', hm⟩ := hl.waiting_iff.1 hw
  rw [hq] at hq'
  cases hq'
  exact hl.owner_elsewhere hq ho hm

end Onward

/-! ## The whole walk -/

/-- The threads that a walk with this many hops left looks at, the first one included. -/
def examinedWithin : Nat → ThreadId → Table → List ThreadId
  | 0, t, _ => [t]
  | n + 1, t, tb =>
    match hop t tb with
    | .ok (some o, tb') => t :: examinedWithin n o tb'
    | _ => [t]

def examined (t : ThreadId) (tb : Table) : List ThreadId := examinedWithin tb.threads.size t tb

theorem examinedWithin_length_le (hops : Nat) : ∀ (t : ThreadId) (tb : Table),
    (examinedWithin hops t tb).length ≤ hops + 1 := by
  induction hops with
  | zero => exact fun _ _ => Nat.le_refl _
  | succ n ih =>
    intro t tb
    rw [examinedWithin]
    split
    · exact Nat.succ_le_succ (ih _ _)
    · exact Nat.succ_le_succ (Nat.zero_le _)

theorem head?_examinedWithin (hops : Nat) (t : ThreadId) (tb : Table) :
    (examinedWithin hops t tb).head? = some t := by
  cases hops with
  | zero => rfl
  | succ n =>
    rw [examinedWithin]
    split <;> rfl

/-- The walk follows the donations. -/
theorem examinedWithin_chain (hops : Nat) : ∀ {t : ThreadId} {tb : Table},
    (examinedWithin hops t tb).IsChain tb.Donates := by
  induction hops with
  | zero => exact .singleton _
  | succ n ih =>
    intro t tb
    rw [examinedWithin]
    split
    · rename_i o tb' hh
      have hon := onward_of_hop hh
      have hrest : (examinedWithin n o tb').IsChain tb.Donates :=
        ih.imp fun u v => hon.sameLinks.donates_iff.1
      refine List.isChain_cons.2 ⟨fun u hu => ?_, hrest⟩
      rw [head?_examinedWithin] at hu
      cases hu
      exact hon.donates
    · exact .singleton _

/-- Hops from `t` on that look at the threads of the list, one after the other, and lead to the
second table. `next` is where a walk goes on from there, if anywhere. Nothing limits them. -/
inductive Hops : Table → ThreadId → List ThreadId → Option ThreadId → Table → Prop where
  | last {tb tb' : Table} {t : ThreadId} {next : Option ThreadId}
      (h : hop t tb = .ok (next, tb')) : Hops tb t [t] next tb'
  | more {tb tb₁ tb' : Table} {t o : ThreadId} {us : List ThreadId} {next : Option ThreadId}
      (h : hop t tb = .ok (some o, tb₁)) (rest : Hops tb₁ o us next tb') :
      Hops tb t (t :: us) next tb'

/-- A walk that may look at `limit` threads looks at those of the list. It ends where it does not go
on, and it is given up where it would go on but has looked at as many as it may. -/
inductive Walked (limit : Nat) (t : ThreadId) (tb : Table) (us : List ThreadId) :
    Except Fault Table → Prop where
  | ends {tb' : Table} (hops : Hops tb t us none tb') (few : us.length ≤ limit) :
      Walked limit t tb us (.ok tb')
  | givenUp {o : ThreadId} {tb' : Table} (hops : Hops tb t us (some o) tb')
      (all : us.length = limit) : Walked limit t tb us (.error (.ownershipCycle o))

theorem Walked.more {limit : Nat} {us : List ThreadId} {r : Except Fault Table}
    (hh : hop t tb = .ok (some o, tb')) (h : Walked limit o tb' us r) :
    Walked (limit + 1) t tb (t :: us) r := by
  cases h with
  | ends hops few => exact .ends (.more hh hops) (Nat.succ_le_succ few)
  | givenUp hops all => exact .givenUp (.more hh hops) (congrArg (· + 1) all)

theorem refreshWithin_walked (hops : Nat) : ∀ {t : ThreadId} {tb : Table}, Linked tb →
    Walked (hops + 1) t tb (examinedWithin hops t tb) (refreshWithin hops t tb) := by
  induction hops with
  | zero =>
    intro t tb hl
    obtain ⟨⟨next, tb₁⟩, hh⟩ := hl.exists_hop t
    rw [refreshWithin_eq_hop, hh]
    cases next with
    | none => exact .ends (.last hh) (Nat.le_refl 1)
    | some o => exact .givenUp (.last hh) rfl
  | succ n ih =>
    intro t tb hl
    obtain ⟨⟨next, tb₁⟩, hh⟩ := hl.exists_hop t
    rw [refreshWithin_eq_hop, examinedWithin, hh]
    cases next with
    | none => exact .ends (.last hh) (Nat.succ_le_succ (Nat.zero_le _))
    | some o => exact (ih ((onward_of_hop hh).linked hl)).more hh

/-- A walk ends if every hop keeps an invariant and lowers a measure that the hops left cover. -/
theorem refreshWithin_ends {I : ThreadId → Table → Prop} {μ : Table → ThreadId → Nat}
    (hl : ∀ {t tb}, I t tb → Linked tb)
    (hstep : ∀ {t o tb tb'}, I t tb → Onward tb t o tb' → I o tb' ∧ μ tb' o < μ tb t)
    (hops : Nat) : ∀ {t tb}, I t tb → μ tb t ≤ hops → ∃ tb', refreshWithin hops t tb = .ok tb' := by
  induction hops with
  | zero =>
    intro t tb hi hm
    obtain ⟨⟨next, tb₁⟩, hh⟩ := (hl hi).exists_hop t
    rw [refreshWithin_eq_hop, hh]
    cases next with
    | none => exact ⟨_, rfl⟩
    | some o =>
      have := (hstep hi (onward_of_hop hh)).2
      omega
  | succ n ih =>
    intro t tb hi hm
    obtain ⟨⟨next, tb₁⟩, hh⟩ := (hl hi).exists_hop t
    rw [refreshWithin_eq_hop, hh]
    cases next with
    | none => exact ⟨_, rfl⟩
    | some o =>
      obtain ⟨hi', hlt⟩ := hstep hi (onward_of_hop hh)
      exact ih hi' (by omega)

theorem ncard_known_le {s : Set ThreadId} (hs : s ⊆ tb.known) : s.ncard ≤ tb.threads.size := by
  refine (Set.ncard_le_ncard hs tb.known.finite_toSet).trans ?_
  rw [Set.ncard_coe_finset]
  exact card_known_le tb

/-! ## Owners without a cycle -/

/-- The threads with a state that a walk from `t` could come to. -/
def ahead (tb : Table) (t : ThreadId) : Set ThreadId :=
  {u | u ∈ tb.known ∧ ReflTransGen tb.Donates t u}

/-- The walk never comes back to a thread, so fewer and fewer threads are ahead of it. -/
theorem Onward.ahead_lt (h : Onward tb t o tb') (hc : ¬ TransGen tb.Donates t t) :
    (tb'.ahead o).ncard < (tb.ahead t).ncard := by
  have hsame : ∀ {u v}, ReflTransGen tb'.Donates u v → ReflTransGen tb.Donates u v :=
    fun hr => ReflTransGen.mono (fun _ _ => h.sameLinks.donates_iff.1) _ _ hr
  refine Set.ncard_lt_ncard ⟨fun u hu => ?_, fun hsub => ?_⟩
    (tb.known.finite_toSet.subset fun u hu => hu.1)
  · exact ⟨h.known_eq ▸ hu.1, .head h.donates (hsame hu.2)⟩
  · have ht : t ∈ tb'.ahead o := hsub ⟨h.mem_known, .refl⟩
    exact hc (.head' h.donates (hsame ht.2))

/-- Following the donations from `t` leads into a cycle. -/
def EntersCycle (tb : Table) (t : ThreadId) : Prop :=
  ∃ u, ReflTransGen tb.Donates t u ∧ TransGen tb.Donates u u

theorem refresh_ends_of_no_cycle (h : Linked tb) (hc : ¬ tb.EntersCycle t) :
    ∃ tb', tb.refresh t = .ok tb' := by
  refine refreshWithin_ends (I := fun t tb => Linked tb ∧ ¬ tb.EntersCycle t)
    (μ := fun tb t => (tb.ahead t).ncard) And.left ?_ _ ⟨h, hc⟩ (ncard_known_le fun u hu => hu.1)
  rintro t o tb tb' ⟨hl, hc⟩ hon
  refine ⟨⟨hon.linked hl, ?_⟩, hon.ahead_lt fun ht => hc ⟨t, .refl, ht⟩⟩
  rintro ⟨u, hou, huu⟩
  have hsub : ∀ u v, tb'.Donates u v → tb.Donates u v := fun _ _ => hon.sameLinks.donates_iff.1
  exact hc ⟨u, .head hon.donates (ReflTransGen.mono hsub _ _ hou), TransGen.mono hsub _ _ huu⟩

/-! ## What a walk relies on -/

/-- An owner that has a state has the queue among those it acquired. While a thread is forgotten,
its queues still name it. -/
def KnownOwned (tb : Table) : Prop :=
  ∀ {q qs t}, tb.queue? q = some qs → qs.owner = some t → t ∈ tb.known →
    q ∈ (tb.state t).acquired

theorem Owned.knownOwned (h : Owned tb) : KnownOwned tb := fun hq ho _ => h hq ho

theorem Onward.knownOwned (h : Onward tb t o tb') (ho : KnownOwned tb) : KnownOwned tb' := by
  intro q qs' u hq' hown hu
  obtain ⟨qs, hq, hs⟩ := h.sameLinks.queue_rev hq'
  rw [h.sameLinks.acquired]
  exact ho hq (hs.owner ▸ hown) (h.known_eq ▸ hu)

/-- What a walk relies on: all values but that of its next thread are right. -/
structure Walking (t : ThreadId) (tb : Table) : Prop where
  linked : Linked tb
  settled : SettledBut (some t) tb
  owned : KnownOwned tb

theorem Onward.walking (h : Onward tb t o tb') (hw : Walking t tb) : Walking o tb' :=
  ⟨h.linked hw.linked, h.settledBut hw.linked hw.settled, h.knownOwned hw.owned⟩

end ThreadKernel.Table
