import ThreadKernel.Proofs.Table.Arrivals
import ThreadKernel.Proofs.Table.Propagation
import ThreadKernel.Proofs.Table.Silent

/-!
# ThreadKernel.Proofs.Table.Service

Passing a queue on under strict priorities. The waiter of the greatest value is served, and among
equals the one whose call came first. All other records stay in their places: the walks of the
operation begin at the former owner and at the new one, and neither donates to whoever waits there.

* `refreshWithin_elsewhere`    — a walk leaves a queue alone if nobody ahead of it waits there.
* `releaseOwnership_queue`     — a queue that is given up keeps its waiters.
* `Table.PassedOn`             — what the operation changes, and that it changes nothing else.
* `Table.Foremost`             — who is served.
* `reachable_service`          — both hold in every table without cycles.
-/

namespace ThreadKernel

/-- Taking out the thread of the first record leaves the others in their places. -/
theorem WaitSet.records_without_head {s : WaitSet} {r : WaitRecord} {rest : List WaitRecord}
    (h : s.records = r :: rest) : (s.without r.thread).records = rest := by
  simp [without, remove, find?, h]

namespace Table

open Relation

variable {tb tb₁ tb' : Table} {t u w : ThreadId} {q r : QueueId} {qs : QueueState}
  {served : Option ThreadId}

/-! ## The queue that is passed on -/

/-- A walk changes a queue only where somebody whom it comes to waits. -/
theorem refreshWithin_elsewhere (hops : Nat) : ∀ {t : ThreadId} {tb tb' : Table},
    refreshWithin hops t tb = .ok tb' →
      (∀ x, ReflTransGen tb.Donates t x → tb.waitingQueue x ≠ some q) →
        tb'.queue? q = tb.queue? q := by
  induction hops using Nat.strongRecOn with
  | ind hops ih =>
    intro t tb tb' hr hout
    obtain ⟨value, -, ⟨-, rfl⟩ | ⟨-, rfl⟩ | ⟨r, rs, waiters, hw, hq, hrr, hc⟩⟩ :=
      refreshWithin_cases hr
    · exact queue?_ensure tb t q
    · rfl
    · have hne : r ≠ q := by
        rintro rfl
        exact hout t .refl hw
      have hkept : (reweigh t value r waiters tb).queue? q = tb.queue? q := by
        rw [queue?_reweigh, if_neg hne]
      rcases hc with ⟨-, rfl⟩ | ⟨o, n, hb, rfl, hrest⟩
      · exact hkept
      · have hsame := reweigh_sameLinks t value hq hrr
        have hdonates : tb.Donates t o := by
          refine ⟨r, rs, hw, hq, ?_⟩
          simpa [QueueState.beneficiary] using hb
        rw [ih n (Nat.lt_succ_self n) hrest fun x hx => ?_, hkept]
        rw [waitingQueue, hsame.waiting]
        exact hout x (.head hdonates (ReflTransGen.mono (fun _ _ => hsame.donates_iff.1) _ _ hx))

/-- A queue without an owner gives to nobody, and all others give what they gave. -/
theorem donates_unowned_iff
    (h : tb'.links = { tb.links with owner := Function.update tb.links.owner q none }) :
    tb'.Donates t u ↔ tb.Donates t u ∧ tb.waitingQueue t ≠ some q := by
  rw [donates_iff_links, donates_iff_links, h]
  constructor
  · rintro ⟨r, hwait, htrans, hown⟩
    simp only [Function.update_apply] at hown
    split at hown
    · cases hown
    · rename_i hne
      exact ⟨⟨r, hwait, htrans, hown⟩, fun hq => hne (Option.some.inj (hwait.symm.trans hq))⟩
  · rintro ⟨⟨r, hwait, htrans, hown⟩, hne⟩
    have hrq : r ≠ q := by
      rintro rfl
      exact hne hwait
    exact ⟨r, hwait, htrans, by simpa only [Function.update_of_ne hrq] using hown⟩

/-- The former owner's walk does not come to anybody who waits on the queue: that would have been a
cycle, unless the queue does not transfer, and then there is no walk. -/
theorem releaseOwnership_queue (h : Sound tb) (hac : Acyclic tb) (hq : tb.queue? q = some qs)
    (hr : tb.releaseOwnership q = .ok tb') : tb'.queue? q = some { qs with owner := none } := by
  obtain ⟨qs', hq', hc⟩ := releaseOwnership_cases hr
  rw [hq] at hq'
  cases hq'
  rcases hc with ⟨ho, rfl⟩ | ⟨o, ho, hw⟩
  · rw [hq, ← ho]
  · have hw : (disown q o tb).refresh o = .ok tb' := hw
    have hdisown : (disown q o tb).queue? q = some { qs with owner := none } := by
      rw [queue?_disown, if_pos rfl, hq, Option.map_some]
    by_cases htr : qs.transfer = true
    · have hsub : ∀ a b, (disown q o tb).Donates a b → tb.Donates a b := fun a b hd =>
        ((donates_unowned_iff (disown_links h.linked hq ho)).1 hd).1
      refine (refreshWithin_elsewhere _ hw fun x hx hxq => ?_).trans hdisown
      rw [waitingQueue, state_disown h.linked hq ho] at hxq
      have hxo : tb.Donates x o := ⟨q, qs, hxq, hq, htr, ho⟩
      exact hac o (.tail' (ReflTransGen.mono hsub _ _ hx) hxo)
    · rw [disown_silent h hq (by simpa using htr) ho] at hw
      cases hw
      rw [queue?_ensure, hdisown]

/-- The new owner waits nowhere, so its walk stops at once. -/
theorem acquire_queue (h : Sound tb) (hac : Acyclic tb) (hq : tb.queue? q = some qs)
    (hr : tb.acquire q t = .ok tb') :
    tb'.queue? q = some { qs with owner := some t, waiters := qs.waiters.without t } := by
  obtain ⟨-, tb₁, hr₁, hw⟩ := acquire_cases hr
  have h₁ := (releaseOwnership_effect h hr₁).2
  have hw₁ : (tb₁.state t).waiting = tb.waitingQueue t :=
    congrFun (congrArg Links.waiting h₁.links) t
  have hseize : (seize q t (tb.waitingQueue t) tb₁).queue? q =
      some { qs with owner := some t, waiters := qs.waiters.without t } := by
    rw [queue?_seize h₁.sound.linked hw₁, if_pos rfl, releaseOwnership_queue h hac hq hr₁,
      Option.map_some]
  have hnowhere : (seize q t (tb.waitingQueue t) tb₁).waitingQueue t = none := by
    rw [waitingQueue, state_seize, if_pos rfl]
  refine (refreshWithin_elsewhere _ hw fun x hx hxq => ?_).trans hseize
  rcases ReflTransGen.cases_head hx with rfl | ⟨y, ⟨r, rs, hr, -⟩, -⟩
  · cases hnowhere.symm.trans hxq
  · cases hnowhere.symm.trans hr

/-! ## The other queues -/

theorem SameQueue.trans {qs₁ qs₂ qs₃ : QueueState} (h : SameQueue qs₁ qs₂)
    (h' : SameQueue qs₂ qs₃) : SameQueue qs₁ qs₃ :=
  ⟨h'.transfer.trans h.transfer, h'.owner.trans h.owner, h'.entries.trans h.entries⟩

/-- A queue has the same kind, owner and waiters in both tables, or exists in neither. -/
structure SameAt (r : QueueId) (tb tb' : Table) : Prop where
  absent : tb.queue? r = none → tb'.queue? r = none
  queue : ∀ {rs}, tb.queue? r = some rs → ∃ rs', tb'.queue? r = some rs' ∧ SameQueue rs rs'

theorem SameAt.of_eq (h : tb'.queue? r = tb.queue? r) : SameAt r tb tb' :=
  ⟨fun hr => h.trans hr, fun {rs} hr => ⟨rs, h.trans hr, .refl rs⟩⟩

theorem SameLinks.sameAt (h : SameLinks tb tb') (r : QueueId) : SameAt r tb tb' :=
  ⟨h.absent, h.queue⟩

theorem SameAt.trans {tb₁ tb₂ tb₃ : Table} (h : SameAt r tb₁ tb₂) (h' : SameAt r tb₂ tb₃) :
    SameAt r tb₁ tb₃ := by
  refine ⟨fun hr => h'.absent (h.absent hr), fun hr => ?_⟩
  obtain ⟨rs₂, hr₂, hs₂⟩ := h.queue hr
  obtain ⟨rs₃, hr₃, hs₃⟩ := h'.queue hr₂
  exact ⟨rs₃, hr₃, hs₂.trans hs₃⟩

theorem releaseOwnership_sameAt (hr : tb.releaseOwnership q = .ok tb') (hne : r ≠ q) :
    SameAt r tb tb' := by
  obtain ⟨qs, -, ⟨-, rfl⟩ | ⟨o, -, hw⟩⟩ := releaseOwnership_cases hr
  · exact .of_eq rfl
  · have hdisown : SameAt r tb (disown q o tb) :=
      .of_eq (by rw [queue?_disown, if_neg hne.symm])
    exact hdisown.trans ((refreshOption_sameLinks hw).sameAt r)

theorem acquire_sameAt (h : Sound tb) (hr : tb.acquire q t = .ok tb') (hne : r ≠ q) :
    SameAt r tb tb' := by
  obtain ⟨-, tb₁, hr₁, hw⟩ := acquire_cases hr
  have h₁ := (releaseOwnership_effect h hr₁).2
  have hw₁ : (tb₁.state t).waiting = tb.waitingQueue t :=
    congrFun (congrArg Links.waiting h₁.links) t
  have hseize : SameAt r tb₁ (seize q t (tb.waitingQueue t) tb₁) :=
    .of_eq (by rw [queue?_seize h₁.sound.linked hw₁, if_neg hne.symm])
  exact (releaseOwnership_sameAt hr₁ hne).trans
    (hseize.trans ((refreshOption_sameLinks hw).sameAt r))

/-! ## The operation -/

/-- Strict priorities serve the first record. -/
theorem nextThread_first (hp : tb.policy = .priority) (hq : tb.queue? q = some qs)
    (hr : tb.nextThread q = .ok (served, tb')) :
    qs.waiters.records = [] ∧ served = none ∧ tb.releaseOwnership q = .ok tb' ∨
      ∃ x rest, qs.waiters.records = x :: rest ∧ served = some x.thread ∧
        tb.acquire q x.thread = .ok tb' := by
  obtain ⟨qs', g, hq', hg, hcases⟩ := nextThread_cases hr
  rw [hq] at hq'
  cases hq'
  obtain rfl := hg hp
  rcases hcases with ⟨rfl, hnil, hr₁⟩ | ⟨x, -, rfl, hfirst, hr₁⟩
  · exact .inl ⟨hnil, rfl, hr₁⟩
  · obtain ⟨rest, hrest⟩ := List.head?_eq_some_iff.1 (hfirst hp)
    exact .inr ⟨x, rest, hrest, rfl, hr₁⟩

/-- What passing `q` on to `served` changes. -/
structure PassedOn (tb : Table) (q : QueueId) (qs : QueueState) (served : Option ThreadId)
    (tb' : Table) : Prop where
  sound : Sound tb'
  /-- The queue has its new owner, and the records behind the first are as they were. -/
  queue : ∃ qs', tb'.queue? q = some qs' ∧ qs'.owner = served ∧ qs'.transfer = qs.transfer ∧
    qs'.waiters.records = qs.waiters.records.tail
  /-- Whoever is served waits nowhere, and all others wait where they waited. -/
  waiting : ∀ t, tb'.waitingQueue t = if served = some t then none else tb.waitingQueue t
  others : ∀ r, r ≠ q → SameAt r tb tb'

theorem nextThread_passedOn (h : Sound tb) (hac : Acyclic tb) (hp : tb.policy = .priority)
    (hq : tb.queue? q = some qs) (hr : tb.nextThread q = .ok (served, tb')) :
    PassedOn tb q qs served tb' := by
  rcases nextThread_first hp hq hr with ⟨hrec, rfl, hr₁⟩ | ⟨x, rest, hrec, rfl, hr₁⟩
  · have he := (releaseOwnership_effect h hr₁).2
    exact ⟨he.sound, ⟨_, releaseOwnership_queue h hac hq hr₁, rfl, rfl, by rw [hrec]; rfl⟩,
      congrFun (congrArg Links.waiting he.links), fun r => releaseOwnership_sameAt hr₁⟩
  · have he := (acquire_effect h hr₁).2.2
    refine ⟨he.sound, ⟨_, acquire_queue h hac hq hr₁, rfl, rfl, ?_⟩, fun t => ?_,
      fun r => acquire_sameAt h hr₁⟩
    · rw [hrec]
      exact WaitSet.records_without_head hrec
    · have hwaiting : tb'.waitingQueue t = Function.update tb.links.waiting x.thread none t :=
        congrFun (congrArg Links.waiting he.links) t
      rw [hwaiting, Function.update_apply]
      exact if_congr ⟨fun e => congrArg some e.symm, fun e => (Option.some.inj e).symm⟩ rfl rfl

/-! ## The former owner -/

/-- What is left to the former owner of `q`: its other queues, and nothing of what waits on `q`. -/
structure Deprived (tb : Table) (q : QueueId) (o : ThreadId) (tb' : Table) : Prop where
  owns : ∀ r, r ∈ tb'.ownedQueues o ↔ r ∈ tb.ownedQueues o ∧ r ≠ q
  value : tb'.effective o = (tb'.donations o).foldl tb'.policy.combine (tb'.priority o)
  gets : ∀ u, tb'.waitingQueue u = some q → ¬ TransGen tb'.Donates u o

theorem PassedOn.deprived {o : ThreadId} (h : PassedOn tb q qs served tb') (hq : tb.queue? q = some qs)
    (ho : qs.owner = some o) (hne : served ≠ some o) : Deprived tb q o tb' := by
  obtain ⟨qs', hq', hserved, -⟩ := h.queue
  refine ⟨fun r => ?_, h.sound.effective_eq o, fun u hu hgets => ?_⟩
  · rw [mem_ownedQueues, mem_ownedQueues]
    by_cases hrq : r = q
    · subst hrq
      rw [hq']
      refine iff_of_false ?_ fun hr => hr.2 rfl
      rintro ⟨rs, hrs, hown⟩
      cases hrs
      exact hne (hserved.symm.trans hown)
    · have hsame := h.others r hrq
      constructor
      · rintro ⟨rs', hrs', hown⟩
        refine ⟨?_, hrq⟩
        cases hrs : tb.queue? r with
        | none => exact nomatch (hsame.absent hrs).symm.trans hrs'
        | some rs =>
          obtain ⟨rs₁, hrs₁, hs⟩ := hsame.queue hrs
          cases hrs₁.symm.trans hrs'
          exact ⟨rs, rfl, hs.owner.symm.trans hown⟩
      · rintro ⟨⟨rs, hrs, hown⟩, -⟩
        obtain ⟨rs', hrs', hs⟩ := hsame.queue hrs
        exact ⟨rs', hrs', hs.owner.trans hown⟩
  · -- the queue gives to whoever was served, who waits nowhere and so gives to nobody
    obtain ⟨v, ⟨r, rs, hwait, hrs, -, hown⟩, hvo⟩ := TransGen.head'_iff.1 hgets
    cases hwait.symm.trans hu
    cases hrs.symm.trans hq'
    have hv : served = some v := hserved.symm.trans hown
    rcases ReflTransGen.cases_head hvo with rfl | ⟨x, ⟨r', rs', hwait', -⟩, -⟩
    · exact hne hv
    · rw [h.waiting, if_pos hv] at hwait'
      cases hwait'

/-! ## Who is served -/

/-- `w` waits on `q`, nobody who waits there has a greater value, and among those of the same value
`w` called to wait first, in every history that led to the table. -/
structure Foremost (tb : Table) (q : QueueId) (w : ThreadId) : Prop where
  waits : tb.waitingQueue w = some q
  greatest : ∀ u, tb.waitingQueue u = some q → tb.effective u ≤ tb.effective w
  earliest : ∀ p g ops, ofOps p g ops = .ok tb → ∃ n, WaitsSince ops q w n ∧
    ∀ u, tb.waitingQueue u = some q → tb.effective u = tb.effective w → u ≠ w →
      ∃ m, WaitsSince ops q u m ∧ n < m

/-- The first record is that of the foremost waiter. -/
theorem Sound.foremost (h : Sound tb) (hp : tb.policy = .priority) (hq : tb.queue? q = some qs)
    {x : WaitRecord} (hx : qs.waiters.records.head? = some x) : Foremost tb q x.thread := by
  have hmem : x ∈ qs.waiters.records := List.mem_of_mem_head? hx
  have hrank := h.linked.ranked_priority hp hq
  have hrecord : ∀ u, tb.waitingQueue u = some q →
      ∃ y ∈ qs.waiters.records, y.thread = u ∧ y.weight = tb.effective u := by
    intro u hu
    obtain ⟨qs', hq', hm⟩ := h.linked.waiting_iff.1 hu
    cases hq'.symm.trans hq
    obtain ⟨y, hy, rfl⟩ := WaitSet.mem_threads.1 hm
    exact ⟨y, hy, rfl, h.settled.weight hq hy⟩
  have hweight : x.weight = tb.effective x.thread := h.settled.weight hq hmem
  refine ⟨h.linked.waiting_of_mem hq hmem, fun u hu => ?_, fun p g ops hops => ?_⟩
  · obtain ⟨y, hy, rfl, hwy⟩ := hrecord u hu
    have := hrank.le_head hx hy
    omega
  · have hticket : ∀ y ∈ qs.waiters.records, ∃ n, WaitsSince ops q y.thread n ∧
        y.arrival = callsBefore ops n := fun y hy =>
      (ofOps_ticket ops hops).2 q y.thread y.arrival
        ⟨qs, hq, WaitSet.mem_entries.2 ⟨y, hy, rfl, rfl⟩⟩
    obtain ⟨n, hn, hxn⟩ := hticket x hmem
    refine ⟨n, hn, fun u hu heq hne => ?_⟩
    obtain ⟨y, hy, rfl, hwy⟩ := hrecord u hu
    obtain ⟨m, hm, hym⟩ := hticket y hy
    refine ⟨m, hm, Nat.lt_of_not_le fun hle => hne ?_⟩
    have hback := callsBefore_mono ops hle
    have hfirst := hrank.le_head hx hy
    exact h.linked.arrival_inj hq hq hy hmem (by omega)

/-- In a table without cycles a queue can be passed on. It goes to the foremost of its waiters, or
to nobody if nobody waits, and nothing changes but the queue, who was served, and what the former
owner gets. -/
theorem reachable_service (h : Reachable .priority tb) (hac : Acyclic tb)
    (hq : tb.queue? q = some qs) :
    (∃ g ops, ofOps .priority g ops = .ok tb) ∧
      ∃ served tb', tb.nextThread q = .ok (served, tb') ∧
        (served = none ↔ qs.waiters.records = []) ∧
        (∀ w, served = some w → Foremost tb q w) ∧
        PassedOn tb q qs served tb' ∧
        ∀ o, qs.owner = some o → Deprived tb q o tb' := by
  obtain ⟨hp, hs⟩ := h.sound
  obtain ⟨⟨served, tb'⟩, hr⟩ := exists_nextThread hs (by rw [hq]; rfl)
  have hpassed := nextThread_passedOn hs hac hp hq hr
  refine ⟨h.exists_ofOps, served, tb', hr, ?_, fun w hw => ?_, hpassed, fun o ho =>
    hpassed.deprived hq ho ?_⟩
  · rcases nextThread_first hp hq hr with ⟨hrec, rfl, -⟩ | ⟨x, rest, hrec, rfl, -⟩ <;> simp [hrec]
  · rcases nextThread_first hp hq hr with ⟨-, rfl, -⟩ | ⟨x, rest, hrec, rfl, -⟩
    · cases hw
    · cases hw
      exact hs.foremost hp hq (by rw [hrec]; rfl)
  · rcases nextThread_first hp hq hr with ⟨-, rfl, -⟩ | ⟨x, rest, hrec, rfl, -⟩
    · exact fun e => nomatch e
    · rintro ⟨⟩
      refine hs.linked.owner_elsewhere hq ho (WaitSet.mem_threads.2 ⟨x, ?_, rfl⟩)
      rw [hrec]
      exact List.mem_cons_self

/-- Three threads wait on a queue of thread 1. The last of them gets a greater value first, but in
the end it is a tie of threads 3 and 4. -/
def rerankedOps : List Op :=
  [.createQueue true, .acquire ⟨0⟩ ⟨1⟩, .waitForAccess ⟨0⟩ ⟨2⟩, .waitForAccess ⟨0⟩ ⟨3⟩,
    .waitForAccess ⟨0⟩ ⟨4⟩, .setPriority ⟨4⟩ 5, .setPriority ⟨3⟩ 5]

/-- Thread 3 called before thread 4. -/
theorem reachable_service_reranked : ∃ tb qs tb', Reachable .priority tb ∧ Acyclic tb ∧
    tb.queue? ⟨0⟩ = some qs ∧ qs.owner = some ⟨1⟩ ∧ (tb.effective ⟨3⟩, tb.effective ⟨4⟩) = (5, 5) ∧
    tb.nextThread ⟨0⟩ = .ok (some ⟨3⟩, tb') ∧ Foremost tb ⟨0⟩ ⟨3⟩ ∧
    PassedOn tb ⟨0⟩ qs (some ⟨3⟩) tb' ∧ Deprived tb ⟨0⟩ ⟨1⟩ tb' := by
  have hrun : (ofOps .priority .counting rerankedOps).toOption.any (fun tb =>
      descending tb = true ∧ (tb.queue? ⟨0⟩).map QueueState.owner = some (some ⟨1⟩) ∧
        (tb.effective ⟨3⟩, tb.effective ⟨4⟩) = (5, 5) ∧
        (tb.nextThread ⟨0⟩).toOption.map Prod.fst = some (some ⟨3⟩)) = true := by
    decide +kernel
  obtain ⟨tb, hreach, hrun⟩ := exists_reachable hrun
  obtain ⟨hd, hq, heff, hserved⟩ := of_decide_eq_true hrun
  obtain ⟨qs, hqs, ho⟩ := Option.map_eq_some_iff.1 hq
  have hac := acyclic_of_descending hd
  obtain ⟨-, served, tb', hr, -, hfirst, hpassed, hlost⟩ := reachable_service hreach hac hqs
  rw [hr] at hserved
  cases hserved
  exact ⟨tb, qs, tb', hreach, hac, hqs, ho, heff, hr, hfirst _ rfl, hpassed, hlost _ ho⟩

end Table
end ThreadKernel
