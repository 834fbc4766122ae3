import ThreadKernel.Proofs.Table.Priorities
import ThreadKernel.Proofs.Table.Propagation

/-!
# ThreadKernel.Proofs.Table.Footprint

What a walk leaves alone. It follows the owners from its first thread for a while. The values of the
threads on its way change, and so do the weights and the places of their records. All the rest stays.

* `Table.ownerChain`      — a thread, the owner it donates to, the owner that one donates to, ….
* `Table.KeptBut`         — values and records of all threads but those of a list are the same.
* `refreshWithin_keptBut` — a walk changes those of the threads that it looks at.
* `refreshWithin_goesOn`  — without cycles it goes on just while values change.
* `Table.Footprint`       — all that a walk does and leaves alone.
* `reachable_footprint`   — so it is with every walk of every operation.
-/

namespace ThreadKernel

/-- The records of the threads that are not in the list, in their order. -/
def WaitSet.outside (l : List ThreadId) (s : WaitSet) : List WaitRecord :=
  s.records.filter fun r => r.thread ∉ l

namespace Table

open Relation

variable {tb tb₁ tb₂ tb₃ tb' : Table} {t u o : ThreadId} {q : QueueId} {l : List ThreadId}

/-! ## The chain of owners -/

/-- The thread that `t` donates to, if any. -/
def donee? (tb : Table) (t : ThreadId) : Option ThreadId :=
  (tb.waitingQueue t).bind fun q => (tb.queue? q).bind QueueState.beneficiary

/-- The thread that is reached from `t` in so many steps from donor to donee. -/
def ownerChain (tb : Table) (t : ThreadId) : Nat → Option ThreadId
  | 0 => some t
  | n + 1 => (tb.ownerChain t n).bind tb.donee?

theorem donee?_eq_some_iff : tb.donee? t = some o ↔ tb.Donates t o := by
  simp only [donee?, Donates, Option.bind_eq_some_iff, QueueState.beneficiary,
    Option.ite_none_right_eq_some]
  constructor
  · rintro ⟨q, hw, qs, hq, hb⟩
    exact ⟨q, qs, hw, hq, hb⟩
  · rintro ⟨q, qs, hw, hq, hb⟩
    exact ⟨q, hw, qs, hq, hb⟩

theorem SameLinks.donee?_eq (h : SameLinks tb tb') (t : ThreadId) :
    tb'.donee? t = tb.donee? t := by
  ext o
  rw [donee?_eq_some_iff, donee?_eq_some_iff, h.donates_iff]

theorem examinedWithin_getElem? (hops : Nat) {n : Nat} (hn : n < (examinedWithin hops t tb).length) :
    (examinedWithin hops t tb)[n]? = tb.ownerChain t n := by
  induction n with
  | zero =>
    rw [← List.head?_eq_getElem?, head?_examinedWithin]
    rfl
  | succ n ih =>
    have hchain : (examinedWithin hops t tb).IsChain tb.Donates := examinedWithin_chain hops
    have hd := List.isChain_iff_getElem.1 hchain n hn
    have hprev := ih (Nat.lt_of_succ_lt hn)
    rw [List.getElem?_eq_getElem (Nat.lt_of_succ_lt hn)] at hprev
    rw [ownerChain, ← hprev, List.getElem?_eq_getElem hn, Option.bind_some]
    exact (donee?_eq_some_iff.2 hd).symm

theorem reaches_of_examinedWithin (hops : Nat) : ∀ {t : ThreadId} {tb : Table},
    u ∈ examinedWithin hops t tb → ReflTransGen tb.Donates t u := by
  induction hops with
  | zero =>
    intro t tb hu
    rw [examinedWithin, List.mem_singleton] at hu
    rw [hu]
  | succ n ih =>
    intro t tb hu
    rw [examinedWithin] at hu
    split at hu
    · rename_i o tb₁ hh
      have hon := onward_of_hop hh
      rcases List.mem_cons.1 hu with rfl | hu
      · exact .refl
      · exact .head hon.donates
          (ReflTransGen.mono (fun _ _ => hon.sameLinks.donates_iff.1) _ _ (ih hu))
    · rw [List.mem_singleton.1 hu]

/-- A walk goes on from a thread whose value has changed. -/
theorem Onward.effective_ne (h : Onward tb t o tb₁) : tb₁.effective t ≠ tb.effective t := by
  obtain ⟨hne, -, -, -, -, -⟩ := h
  rw [effective, state_reweigh, if_pos rfl]
  exact hne.symm

/-- Without cycles the rest of a walk does not come back. -/
theorem Onward.not_examined (h : Onward tb t o tb₁) (hac : Acyclic tb) (hops : Nat) :
    t ∉ examinedWithin hops o tb₁ := by
  intro ht
  have hot := reaches_of_examinedWithin hops ht
  exact hac t (.head' h.donates
    (ReflTransGen.mono (fun _ _ => h.sameLinks.donates_iff.1) _ _ hot))

theorem examinedWithin_nodup (hops : Nat) : ∀ {t : ThreadId} {tb : Table}, Acyclic tb →
    (examinedWithin hops t tb).Nodup := by
  induction hops with
  | zero => exact fun _ => List.nodup_singleton _
  | succ n ih =>
    intro t tb hac
    rw [examinedWithin]
    split
    · rename_i o tb₁ hh
      have hon := onward_of_hop hh
      exact List.nodup_cons.2 ⟨hon.not_examined hac n,
        ih (hac.mono fun _ _ => hon.sameLinks.donates_iff.1)⟩
    · exact List.nodup_singleton _

/-! ## What a walk keeps -/

/-- Threads outside the list have the same values, and in every queue the same records in the same
order. -/
structure KeptBut (l : List ThreadId) (tb tb' : Table) : Prop where
  value : ∀ u ∉ l, tb'.effective u = tb.effective u
  order : ∀ q, (tb'.queue? q).map (fun qs => qs.waiters.outside l) =
    (tb.queue? q).map fun qs => qs.waiters.outside l

namespace KeptBut

theorem trans (h : KeptBut l tb₁ tb₂) (h' : KeptBut l tb₂ tb₃) : KeptBut l tb₁ tb₃ :=
  ⟨fun u hu => (h'.value u hu).trans (h.value u hu), fun q => (h'.order q).trans (h.order q)⟩

theorem mono {l' : List ThreadId} (h : KeptBut l tb tb') (hl : l ⊆ l') : KeptBut l' tb tb' := by
  have hout : ∀ s : WaitSet, s.outside l' = (s.outside l).filter fun r => r.thread ∉ l' := by
    intro s
    rw [WaitSet.outside, WaitSet.outside, List.filter_filter]
    refine List.filter_congr fun r _ => ?_
    by_cases hr : r.thread ∈ l'
    · simp [hr]
    · have hr' : r.thread ∉ l := fun hm => hr (hl hm)
      simp [hr, hr']
  refine ⟨fun u hu => h.value u fun hm => hu (hl hm), fun q => ?_⟩
  have hmap := congrArg (Option.map (List.filter fun r : WaitRecord => r.thread ∉ l')) (h.order q)
  simpa only [Option.map_map, Function.comp_def, ← hout] using hmap

end KeptBut

/-- Taking a record out and putting it back elsewhere leaves the other records in order. -/
theorem outside_rerank {p : Policy} {w : Nat} {s s' : WaitSet} (h : rerank p t w s = some s') :
    s'.outside [t] = s.outside [t] := by
  simp only [rerank] at h
  split at h
  · cases h
  · rename_i r rest hr
    cases h
    obtain ⟨l₁, l₂, hs, -, ht, rfl⟩ := WaitSet.remove_split hr
    have hback : ∀ stays : WaitRecord → Bool,
        ((l₁ ++ l₂).takeWhile stays ++ { r with weight := w } :: (l₁ ++ l₂).dropWhile stays).filter
          (fun x => x.thread ∉ [t]) = (l₁ ++ l₂).filter fun x => x.thread ∉ [t] := by
      intro stays
      conv_rhs => rw [← List.takeWhile_append_dropWhile (p := stays) (l := l₁ ++ l₂)]
      rw [List.filter_append, List.filter_cons_of_neg (by simp [ht]), ← List.filter_append]
    have hout : (l₁ ++ r :: l₂).filter (fun x => x.thread ∉ [t]) =
        (l₁ ++ l₂).filter fun x => x.thread ∉ [t] := by
      rw [List.filter_append, List.filter_cons_of_neg (by simp [ht]), ← List.filter_append]
    rw [WaitSet.outside, WaitSet.outside, hs, hout]
    exact hback _

theorem reweigh_keptBut {value : Nat} {qs : QueueState} {waiters : WaitSet}
    (hq : tb.queue? q = some qs) (hr : rerank tb.policy t value qs.waiters = some waiters) :
    KeptBut [t] tb (reweigh t value q waiters tb) where
  value u hu := by
    rw [List.mem_singleton] at hu
    rw [effective, state_reweigh, if_neg (Ne.symm hu)]
    rfl
  order r := by
    rw [queue?_reweigh]
    split
    · rename_i hqr
      rw [← hqr, hq]
      exact congrArg some (outside_rerank hr)
    · rfl

/-- At one thread the walk changes the value and the record of this thread. Where it stops, the value
is the same or there is nobody to go on to. -/
theorem hop_spec {next : Option ThreadId} (h : hop t tb = .ok (next, tb₁)) :
    KeptBut [t] tb tb₁ ∧ (next = none → tb₁.effective t = tb.effective t ∨ tb.donee? t = none) := by
  unfold hop at h
  split at h
  · cases h
  · split at h
    · cases h
      refine ⟨⟨fun u _ => ?_, fun q => ?_⟩, fun _ => .inl ?_⟩
      · rw [effective, state_ensure]
        rfl
      · rw [queue?_ensure]
      · rw [effective, state_ensure]
        rfl
    · split at h
      · rename_i hw
        cases h
        refine ⟨⟨fun u hu => ?_, fun _ => rfl⟩, fun _ => .inr ?_⟩
        · rw [effective, state_setThread, if_neg fun e => hu (List.mem_singleton.2 e.symm)]
          rfl
        · rw [donee?, waitingQueue, hw]
          rfl
      · rename_i q hw
        split at h
        · cases h
        · rename_i qs hq
          split at h
          · cases h
          · rename_i waiters hr
            obtain ⟨rfl, rfl⟩ := Prod.mk.inj (Except.ok.inj h)
            refine ⟨reweigh_keptBut hq hr, fun hb => .inr ?_⟩
            rw [donee?, waitingQueue, hw, Option.bind_some, hq, Option.bind_some, hb]

theorem refreshWithin_keptBut (hops : Nat) : ∀ {t : ThreadId} {tb tb' : Table},
    refreshWithin hops t tb = .ok tb' → KeptBut (examinedWithin hops t tb) tb tb' := by
  induction hops with
  | zero =>
    intro t tb tb' hr
    rw [refreshWithin_eq_hop] at hr
    split at hr
    · cases hr
    · rename_i hh
      cases hr
      exact (hop_spec hh).1
    · cases hr
  | succ n ih =>
    intro t tb tb' hr
    rw [refreshWithin_eq_hop] at hr
    rw [examinedWithin]
    split at hr
    · cases hr
    · rename_i hh
      cases hr
      rw [hh]
      exact (hop_spec hh).1
    · rename_i o tb₁ hh
      rw [hh]
      have hhere : KeptBut [t] tb tb₁ := (hop_spec hh).1
      have hrest : KeptBut (examinedWithin n o tb₁) tb₁ tb' := ih hr
      exact (hhere.mono (by simp)).trans (hrest.mono (List.subset_cons_self _ _))

/-- The next thread is looked at if the value of this one changed and it donates to somebody. -/
theorem refreshWithin_goesOn (hops : Nat) : ∀ {t : ThreadId} {tb tb' : Table}, Acyclic tb →
    refreshWithin hops t tb = .ok tb' → ∀ {n : Nat} {u : ThreadId},
      (examinedWithin hops t tb)[n]? = some u →
        ((examinedWithin hops t tb)[n + 1]?.isSome ↔
          tb'.effective u ≠ tb.effective u ∧ (tb.donee? u).isSome) := by
  have hstops : ∀ {t : ThreadId} {tb tb' : Table}, hop t tb = .ok (none, tb') →
      ∀ {n : Nat} {u : ThreadId}, [t][n]? = some u →
        ([t][n + 1]?.isSome ↔ tb'.effective u ≠ tb.effective u ∧ (tb.donee? u).isSome) := by
    intro t tb tb' hh n u hu
    obtain ⟨rfl, rfl⟩ : n = 0 ∧ t = u := by
      cases n with
      | zero => exact ⟨rfl, Option.some.inj hu⟩
      | succ n => cases hu
    refine iff_of_false Bool.false_ne_true fun ⟨hne, hsome⟩ => ?_
    rcases (hop_spec hh).2 rfl with heq | hnone
    · exact hne heq
    · rw [hnone] at hsome
      cases hsome
  induction hops with
  | zero =>
    intro t tb tb' _ hr
    rw [refreshWithin_eq_hop] at hr
    split at hr
    · cases hr
    · rename_i hh
      cases hr
      exact hstops hh
    · cases hr
  | succ m ih =>
    intro t tb tb' hac hr
    rw [refreshWithin_eq_hop] at hr
    rw [examinedWithin]
    split at hr
    · cases hr
    · rename_i hh
      cases hr
      rw [hh]
      exact hstops hh
    · rename_i o tb₁ hh
      rw [hh]
      dsimp only
      have hon := onward_of_hop hh
      have haway := hon.not_examined hac m
      intro n u hu
      cases n with
      | zero =>
        cases hu
        refine iff_of_true ?_ ⟨?_, ?_⟩
        · rw [List.getElem?_cons_succ, ← List.head?_eq_getElem?, head?_examinedWithin]
          rfl
        · rw [(refreshWithin_keptBut m hr).value _ haway]
          exact hon.effective_ne
        · rw [donee?_eq_some_iff.2 hon.donates]
          rfl
      | succ n =>
        rw [List.getElem?_cons_succ] at hu ⊢
        have hne : u ∉ [t] := by
          rw [List.mem_singleton]
          rintro rfl
          exact haway (List.mem_of_getElem? hu)
        rw [ih (hac.mono fun _ _ => hon.sameLinks.donates_iff.1) hr hu, hon.sameLinks.donee?_eq,
          (hop_spec hh).1.value u hne]

/-! ## Places under the lottery -/

/-- The lottery ranks by arrival, which no walk changes. -/
theorem SameLinks.entries_eq_of_lottery (h : SameLinks tb tb') (hl : Linked tb) (hl' : Linked tb')
    (hp : tb.policy = .lottery) {qs qs' : QueueState} (hq : tb.queue? q = some qs)
    (hq' : tb'.queue? q = some qs') : qs'.waiters.entries = qs.waiters.entries := by
  have hsorted : ∀ {s : WaitSet}, s.Ranked .lottery →
      s.entries.Pairwise fun a b => a.2 ≤ b.2 := fun hs =>
    List.pairwise_map.2 (hs.sorted.imp fun hab => Policy.compare_lottery_ne_gt.1 hab)
  obtain ⟨qs₁, hq₁, hs⟩ := h.queue hq
  rw [hq'] at hq₁
  cases hq₁
  refine hs.entries.eq_of_pairwise (fun a b ha hb hab hba => ?_)
    (hsorted (h.policy.trans hp ▸ hl'.ranked hq')) (hsorted (hp ▸ hl.ranked hq))
  obtain ⟨x, hx, hxa⟩ := List.mem_map.1 (hs.entries.mem_iff.1 ha)
  obtain ⟨y, hy, hyb⟩ := List.mem_map.1 hb
  rw [← hxa, ← hyb] at hab hba
  have harrival : x.arrival = y.arrival := Nat.le_antisymm hab hba
  rw [← hxa, ← hyb, hl.arrival_inj hq hq hx hy harrival, harrival]

/-! ## Walks of operations -/

/-- Forgetting a thread makes nobody a donor. -/
theorem forget_donates {u v : ThreadId} (h : Linked tb) (hd : (forget t tb).Donates u v) :
    tb.Donates u v := by
  obtain ⟨q, qs, hw, hq, htr, ho⟩ := hd
  rw [queue?_forget h] at hq
  obtain ⟨qs₀, hq₀, rfl⟩ := Option.map_eq_some_iff.1 hq
  rw [waitingQueue, state_forget] at hw
  split at hw
  · cases hw
  · exact ⟨q, qs₀, hw, hq₀, htr, ho⟩

/-- Whoever a walk may come to has a state, also when it begins where a thread waited that was just
forgotten: coming to this thread again would close a cycle. -/
theorem Starts.aheadKnown {op : Op} (h : Starts tb op t tb₁) (hs : Sound tb) (hac : Acyclic tb) :
    tb₁.AheadKnown t := by
  induction h with
  | @release tb q qs o hq ho =>
    refine aheadKnown_of_owners ?_ fun r u hu => ?_
    · rw [known_disown]
      exact hs.known_of_owner (q := q) (by simp [links, hq, ho])
    · rw [disown_links hs.linked hq ho] at hu
      rw [known_disown]
      simp only [Function.update_apply] at hu
      split at hu
      · cases hu
      · exact hs.known_of_owner hu
  | @destroy tb q qs o hq ho =>
    refine aheadKnown_of_owners ?_ fun r u hu => ?_
    · rw [known_dissolve]
      exact hs.known_of_owner (q := q) (by simp [links, hq, ho])
    · rw [dissolve_links hs.linked hq] at hu
      rw [known_dissolve]
      simp only [Function.update_apply] at hu
      split at hu
      · cases hu
      · exact hs.known_of_owner hu
  | waitReleases _ _ _ _ ih => exact ih hs hac
  | @wait tb q qs t tb₁ qs₁ o hw hq hr hq₁ hb =>
    have h₁ := (giveUp_effect hs hq hr).sound
    refine aheadKnown_of_owners (known_setThread.2 (.inr ?_)) fun r u hu =>
      known_setThread.2 (.inr ?_)
    · simp only [QueueState.beneficiary, Option.ite_none_right_eq_some] at hb
      exact h₁.known_of_owner (q := q) (by simp [links, hq₁, hb.2])
    · rw [enqueue_links hq₁] at hu
      exact h₁.known_of_owner hu
  | acquireReleases _ _ ih => exact ih hs hac
  | @acquire tb q t tb₁ hw hr =>
    obtain ⟨-, h₁⟩ := releaseOwnership_effect hs hr
    obtain ⟨qs₁, hq₁, -⟩ := releaseOwnership_vacant hs hr
    have hwaiting : (tb₁.state t).waiting = tb.waitingQueue t :=
      congrFun (congrArg Links.waiting h₁.links) t
    refine aheadKnown_of_owners (known_setThread.2 (.inl rfl)) fun r u hu =>
      known_setThread.2 ?_
    rw [seize_links h₁.sound.linked hwaiting hq₁] at hu
    simp only [Function.update_apply] at hu
    split at hu
    · exact .inl (Option.some.inj hu).symm
    · exact .inr (h₁.sound.known_of_owner hu)
  | nextReleases _ _ _ _ ih => exact ih (hs.withRandom _) hac
  | nextAcquires _ _ _ _ ih => exact ih (hs.withRandom _) hac
  | @setPriority tb t p hp =>
    exact aheadKnown_of_owners (known_setThread.2 (.inl rfl)) (setBase_owner_known hs)
  | @remove tb t s o hst hb =>
    intro u hreach
    have hto : tb.Donates t o := donee?_eq_some_iff.1 hb
    have hou : ReflTransGen tb.Donates o u :=
      ReflTransGen.mono (fun _ _ hd => forget_donates hs.linked hd) _ _ hreach
    rw [known_forget]
    refine ⟨?_, ?_⟩
    · rcases ReflTransGen.cases_tail hou with rfl | ⟨v, -, hd⟩
      · obtain ⟨q, -, -, ho⟩ := donates_iff_links.1 hto
        exact hs.known_of_owner ho
      · obtain ⟨q, -, -, ho⟩ := donates_iff_links.1 hd
        exact hs.known_of_owner ho
    · rintro rfl
      exact hac _ (.head' hto hou)

/-- What a walk from `t` does and leaves alone. -/
structure Footprint (t : ThreadId) (tb tb' : Table) : Prop where
  /-- The walk is one hop after the other, and goes nowhere from the last one. -/
  walk : Hops tb t (examined t tb) none tb'
  /-- The threads looked at are the first ones of the chain of owners. -/
  segment : ∀ n < (examined t tb).length, (examined t tb)[n]? = tb.ownerChain t n
  /-- Base values, waits, owned queues, owners, kinds of queues, arrivals and the rest stay. -/
  frame : SameFrame tb tb'
  /-- Only the threads looked at may get other values, weights and places. -/
  kept : KeptBut (examined t tb) tb tb'
  /-- Weights are values again, and wait sets are in order. -/
  linked : Linked tb'
  settled : SettledBut none tb'
  /-- Under the lottery all records stay in their places. -/
  places : tb.policy = .lottery → ∀ {q qs qs'}, tb.queue? q = some qs → tb'.queue? q = some qs' →
    qs'.waiters.entries = qs.waiters.entries
  /-- Without cycles nobody is looked at twice, and the walk goes on just while values change. -/
  distinct : Acyclic tb → (examined t tb).Nodup
  goesOn : Acyclic tb → ∀ {n u}, (examined t tb)[n]? = some u →
    ((examined t tb)[n + 1]?.isSome ↔ tb'.effective u ≠ tb.effective u ∧ (tb.donee? u).isSome)

theorem Walking.footprint (h : Walking t tb) (hk : tb.AheadKnown t) (hr : tb.refresh t = .ok tb') :
    Footprint t tb tb' where
  walk := by
    have hw := h.bounded.walk
    rw [hr] at hw
    cases hw with
    | ends hops => exact hops
  segment _ hn := examinedWithin_getElem? _ hn
  frame := refreshWithin_sameFrame _ hk hr
  kept := refreshWithin_keptBut _ hr
  linked := (refresh_spec h.linked h.settled hr).2.1
  settled := (refresh_spec h.linked h.settled hr).2.2
  places hp {_ _ _} hq hq' := by
    obtain ⟨hsame, hl', -⟩ := refresh_spec h.linked h.settled hr
    exact hsame.entries_eq_of_lottery h.linked hl' hp hq hq'
  distinct hac := examinedWithin_nodup _ hac
  goesOn hac := refreshWithin_goesOn _ hac hr

/-- On a table without cycles every walk of an operation that succeeds, or whose new links close no
cycle, ends, and it keeps to the first threads of the chain of owners. -/
theorem reachable_footprint {p : Policy} {op : Op} (h : Reachable p tb) (hac : Acyclic tb)
    (hst : Starts tb op t tb₁) :
    (Acyclic tb₁ ∨ (∃ tb₂, tb.apply op = .ok tb₂) → ∃ tb', tb₁.refresh t = .ok tb') ∧
      ∀ tb', tb₁.refresh t = .ok tb' → Footprint t tb₁ tb' := by
  have hs := h.sound.2
  have hw := (hst.walking hs).1
  refine ⟨?_, fun tb' hr => hw.footprint (hst.aheadKnown hs hac) hr⟩
  rintro (hac₁ | ⟨tb₂, ha⟩)
  · exact hw.bounded.acyclic hac₁
  · cases hr : tb₁.refresh t with
    | ok tb' => exact ⟨tb', rfl⟩
    | error f => exact nomatch (hst.fails hr).symm.trans ha

/-- Thread 4 overtakes thread 3 in the queue of thread 2, and the walk goes on to threads 2 and 1. -/
theorem reachable_footprint_overtaking : ∃ tb tb₁ tb',
    Reachable .priority tb ∧ Acyclic tb ∧ Starts tb (.setPriority ⟨4⟩ 6) ⟨4⟩ tb₁ ∧
    tb₁.refresh ⟨4⟩ = .ok tb' ∧ examined ⟨4⟩ tb₁ = [⟨4⟩, ⟨2⟩, ⟨1⟩] ∧
    tb₁.donorsThrough ⟨1⟩ = [⟨3⟩, ⟨4⟩] ∧ tb'.donorsThrough ⟨1⟩ = [⟨4⟩, ⟨3⟩] ∧
    Footprint ⟨4⟩ tb₁ tb' := by
  have hrun : (ofOps .priority .counting (chainOps ++ [.waitForAccess ⟨1⟩ ⟨4⟩])).toOption.any
      (fun tb => descending tb = true ∧ tb.policy.bounds.contains 6 = true ∧
        (setBase ⟨4⟩ 6 tb).donorsThrough ⟨1⟩ = [⟨3⟩, ⟨4⟩] ∧
        examined ⟨4⟩ (setBase ⟨4⟩ 6 tb) = [⟨4⟩, ⟨2⟩, ⟨1⟩] ∧
        ((setBase ⟨4⟩ 6 tb).refresh ⟨4⟩).toOption.map (fun tb' => tb'.donorsThrough ⟨1⟩) =
          some [⟨4⟩, ⟨3⟩]) = true := by
    decide +kernel
  obtain ⟨tb, hreach, hrun⟩ := exists_reachable hrun
  obtain ⟨hd, hp, hfirst, hexamined, hafter⟩ := of_decide_eq_true hrun
  have hst : Starts tb (.setPriority ⟨4⟩ 6) ⟨4⟩ (setBase ⟨4⟩ 6 tb) := .setPriority hp
  have hfoot := reachable_footprint hreach (acyclic_of_descending hd) hst
  cases hr : (setBase ⟨4⟩ 6 tb).refresh ⟨4⟩ with
  | error e =>
    rw [hr] at hafter
    cases hafter
  | ok tb' =>
    rw [hr] at hafter
    exact ⟨tb, _, tb', hreach, acyclic_of_descending hd, hst, hr, hexamined, hfirst,
      Option.some.inj hafter, hfoot.2 tb' hr⟩

end Table
end ThreadKernel
