import ThreadKernel.Proofs.Table.Service
import Mathlib.Data.List.Rotate

/-!
# ThreadKernel.Proofs.Table.RoundRobin

Turns on a queue. Whoever is served waits again, behind its equals and before all others, so equal
threads take turns and nobody of a smaller value comes between. The queue passes through the hands
of each of them, which takes from its former owner what the waiters donated, but no waiter is worth
more or less for that: it would have to be its own donor.

* `Table.acquire_acyclic`      — handing a queue over closes no cycle.
* `effective_of_unowned`       — the waiters of a queue keep their values when it loses its owner.
* `Table.Turning`              — the equals at the front of a queue and the records behind them.
* `Turning.turn`               — one turn moves the first of the equals to their end.
* `Turning.requeue`            — so any number of turns rotates them.
* `reachable_roundRobin`       — this holds for every queue with waiters in a table without cycles.
-/

namespace ThreadKernel

open Relation

/-- If whatever stands before a member of a kind is of that kind too, the list is its members of
that kind followed by the others. -/
theorem filter_append_filter_not {α : Type} {f : α → Bool} {l : List α}
    (h : l.Pairwise fun a b => f b = true → f a = true) :
    l.filter f ++ l.filter (fun a => !f a) = l := by
  induction l with
  | nil => rfl
  | cons a l ih =>
    obtain ⟨ha, hl⟩ := List.pairwise_cons.1 h
    by_cases hfa : f a = true
    · rw [List.filter_cons_of_pos hfa, List.filter_cons_of_neg (by simp [hfa]), List.cons_append,
        ih hl]
    · have hnone : ∀ b ∈ l, ¬ f b = true := fun b hb hfb => hfa (ha b hb hfb)
      rw [List.filter_cons_of_neg hfa, List.filter_cons_of_pos (by simp [hfa]),
        List.filter_eq_nil_iff.2 hnone, List.filter_eq_self.2 fun b hb => by simpa using hnone b hb,
        List.nil_append]

/-- A record goes behind those of its weight that came before it, and before all lighter ones. -/
theorem WaitSet.Ranked.insert_last {s : WaitSet} {r : WaitRecord} {lead rest : List WaitRecord}
    (h : Ranked .priority s) (hs : s.records = lead ++ rest)
    (hlead : ∀ x ∈ lead, x.weight = r.weight ∧ x.arrival ≤ r.arrival)
    (hrest : ∀ x ∈ rest, x.weight < r.weight) :
    (s.insert .priority r).records = lead ++ r :: rest := by
  refine h.insert_between hs (fun x hx => ?_) fun x hx => ?_
  · obtain ⟨hw, ha⟩ := hlead x hx
    exact Policy.compare_priority_ne_gt.2 (.inr ⟨hw.symm, ha⟩)
  · have hw := hrest x hx
    by_contra hne
    have := Policy.compare_priority_ne_gt.1 hne
    omega

namespace Table

variable {tb tb₁ tb' : Table} {t u : ThreadId} {q : QueueId} {qs : QueueState} {top n : Nat}
  {ring : List ThreadId} {rest : List WaitRecord}

/-! ## Donors while a queue changes hands -/

theorem acquire_waitingQueue (h : Sound tb) (hr : tb.acquire q t = .ok tb') :
    tb'.waitingQueue t = none := by
  have hwaiting : tb'.waitingQueue t = Function.update tb.links.waiting t none t :=
    congrFun (congrArg Links.waiting (acquire_effect h hr).2.2.links) t
  rw [hwaiting, Function.update_self]

/-- The new owner waits nowhere, so a cycle cannot lead through it. -/
theorem acquire_acyclic (h : Sound tb) (hac : Acyclic tb) (hr : tb.acquire q t = .ok tb') :
    Acyclic tb' := by
  have hlinks := (acquire_effect h hr).2.2.links
  have hroot : ∀ {v}, ¬ tb'.Donates t v := not_donates (acquire_waitingQueue h hr)
  have hold : ∀ {u v}, tb'.Donates u v → v ≠ t → tb.Donates u v := by
    intro u v hd hv
    have hu : u ≠ t := fun e => hroot (e ▸ hd)
    obtain ⟨r, hwait, htrans, hown⟩ := donates_iff_links.1 hd
    rw [hlinks] at hwait htrans hown
    simp only [Function.update_of_ne hu] at hwait
    by_cases hrq : r = q
    · subst hrq
      simp only [Function.update_self, Option.some.injEq] at hown
      exact absurd hown.symm hv
    · simp only [Function.update_of_ne hrq] at hown
      exact donates_iff_links.2 ⟨r, hwait, htrans, hown⟩
  have hchain : ∀ {u v}, TransGen tb'.Donates u v → v ≠ t → TransGen tb.Donates u v := by
    intro u v hd
    induction hd with
    | single hd => exact fun hv => .single (hold hd hv)
    | tail _ hd ih => exact fun hv => (ih fun e => hroot (e ▸ hd)).tail (hold hd hv)
  intro u hcycle
  refine hac u (hchain hcycle ?_)
  rintro rfl
  obtain ⟨v, hd, -⟩ := TransGen.head'_iff.1 hcycle
  exact hroot hd

theorem Acyclic.unowned (hac : Acyclic tb)
    (hl : tb'.links = { tb.links with owner := Function.update tb.links.owner q none }) :
    Acyclic tb' := hac.mono fun _ _ hd => ((donates_unowned_iff hl).1 hd).1

/-- Whoever waits on a queue has no donor by way of that queue, so its value stays the same when
nobody owns the queue any more. -/
theorem effective_of_unowned (h : Sound tb) (h' : Sound tb') (hac : Acyclic tb)
    (hp : tb'.policy = tb.policy)
    (hl : tb'.links = { tb.links with owner := Function.update tb.links.owner q none })
    (ht : tb.waitingQueue t = some q) : tb'.effective t = tb.effective t := by
  have hkept : ∀ {u v}, tb.Donates u v → ReflTransGen tb.Donates v t → tb'.Donates u v := by
    intro u v hd hvt
    refine (donates_unowned_iff hl).2 ⟨hd, fun hu => ?_⟩
    -- `t` waits where `u` does, so it would be its own donor
    obtain ⟨r, rs, hwait, hrs⟩ := hd
    cases hwait.symm.trans hu
    exact hac t (.head' ⟨q, rs, ht, hrs⟩ hvt)
  have hbase : tb'.priority = tb.priority := congrArg Links.base hl
  refine effective_congr_donors h h' hac (hac.unowned hl) hp hbase fun u =>
    ⟨fun hd => ?_, fun hd => ?_⟩
  · exact TransGen.mono (fun _ _ hd => ((donates_unowned_iff hl).1 hd).1) _ _ hd
  · induction hd using TransGen.head_induction_on with
    | single hd => exact .single (hkept hd .refl)
    | head hd hvt ih => exact .head (hkept hd hvt.to_reflTransGen) ih

/-- An owner that waits on its own queue gives it up, and as nobody gets anything through the queue
then, that is all. -/
theorem waitForAccess_of_owner (hw : tb.waitingQueue t = none) (hq : tb.queue? q = some qs)
    (ho : qs.owner = some t) (hr : tb.releaseOwnership q = .ok tb')
    (hq' : tb'.queue? q = some { qs with owner := none }) :
    tb.waitForAccess q t = .ok (enqueue q t tb') := by
  have hq'' : ∀ (s : ThreadState) (k : Nat),
      Table.queue? { tb'.setThread t s with arrivals := k } q = some { qs with owner := none } :=
    fun _ _ => hq'
  simp only [waitForAccess, hw, hq, ho, if_true, hr, hq'', QueueState.beneficiary, ite_self]
  rfl

/-- `t` was handed the queue, gave it up again, which led to `tb₂`, and then waits once more. -/
structure HandedBack (tb : Table) (q : QueueId) (qs : QueueState) (t : ThreadId) (tb₂ : Table) :
    Prop where
  given : Sound tb₂
  queue : tb₂.queue? q = some { qs with owner := none, waiters := qs.waiters.without t }
  policy : tb₂.policy = tb.policy
  sound : Sound (enqueue q t tb₂)
  /-- In the end `t` waits where it waited, and only the owner of the queue is gone. -/
  links : (enqueue q t tb₂).links =
    { tb.links with owner := Function.update tb.links.owner q none }

theorem acquire_handedBack (h : Sound tb) (hac : Acyclic tb) (hq : tb.queue? q = some qs)
    (hw : tb.waitingQueue t = some q) (hr : tb.acquire q t = .ok tb₁) :
    ∃ tb₂, tb₁.waitForAccess q t = .ok (enqueue q t tb₂) ∧ HandedBack tb q qs t tb₂ := by
  have he₁ := (acquire_effect h hr).2.2
  have hq₁ := acquire_queue h hac hq hr
  obtain ⟨tb₂, hr₂⟩ := exists_releaseOwnership he₁.sound (q := q) (by rw [hq₁]; rfl)
  have he₂ := (releaseOwnership_effect he₁.sound hr₂).2
  have hq₂ := releaseOwnership_queue he₁.sound (acquire_acyclic h hac hr) hq₁ hr₂
  have hcall := waitForAccess_of_owner (acquire_waitingQueue h hr) hq₁ rfl hr₂ hq₂
  have he := (waitForAccess_effect he₁.sound hcall).2.2
  refine ⟨tb₂, hcall, he₂.sound, hq₂, (he₁.precedes.trans he₂.precedes).policy, he.sound, ?_⟩
  have hw : tb.links.waiting t = some q := hw
  rw [he.links, he₁.links]
  simp only [Function.update_self, if_true, Function.update_idem, ← hw, Function.update_eq_self]

/-! ## One turn -/

/-- The threads of `ring` wait at the front of `q`, each of the value `top`, and `rest` are the
records behind them, all of smaller values. -/
structure Turning (tb : Table) (q : QueueId) (top : Nat) (ring : List ThreadId)
    (rest : List WaitRecord) : Prop where
  sound : Sound tb
  acyclic : Acyclic tb
  policy : tb.policy = .priority
  queue : ∃ qs lead, tb.queue? q = some qs ∧ qs.waiters.records = lead ++ rest ∧
    lead.map WaitRecord.thread = ring ∧ ∀ r ∈ lead, r.weight = top
  behind : ∀ r ∈ rest, r.weight < top

theorem Turning.effective_of_ring (h : Turning tb q top ring rest) (ht : t ∈ ring) :
    tb.effective t = top := by
  obtain ⟨qs, lead, hq, hrec, rfl, htop⟩ := h.queue
  obtain ⟨r, hr, rfl⟩ := List.mem_map.1 ht
  exact (h.sound.settled.weight hq (by simp [hrec, hr])).symm.trans (htop r hr)

theorem Turning.effective_of_rest {r : WaitRecord} (h : Turning tb q top ring rest)
    (hr : r ∈ rest) : tb.effective r.thread = r.weight := by
  obtain ⟨qs, lead, hq, hrec, -⟩ := h.queue
  exact (h.sound.settled.weight hq (by simp [hrec, hr])).symm

theorem Turning.mem_of_waits (h : Turning tb q top ring rest) (ht : tb.waitingQueue t = some q) :
    t ∈ ring ∨ ∃ r ∈ rest, r.thread = t := by
  obtain ⟨qs, lead, hq, hrec, rfl, -⟩ := h.queue
  obtain ⟨qs', hq', hm⟩ := h.sound.linked.waiting_iff.1 ht
  cases hq.symm.trans hq'
  rw [WaitSet.threads, hrec, List.map_append, List.mem_append] at hm
  exact hm.imp_right List.mem_map.1

/-- Serving the first of the equals and letting it wait again puts it behind the others of them. -/
theorem Turning.turn (h : Turning tb q top (t :: ring) rest) :
    ∃ tb₁ tb', tb.nextThread q = .ok (some t, tb₁) ∧ tb₁.waitForAccess q t = .ok tb' ∧
      Turning tb' q top (ring ++ [t]) rest ∧
      tb'.links = { tb.links with owner := Function.update tb.links.owner q none } := by
  have hvalue := h.effective_of_ring List.mem_cons_self
  obtain ⟨hs, hac, hp, ⟨qs, lead, hq, hrec, hlead, htop⟩, hbehind⟩ := h
  obtain ⟨x, lead, rfl, rfl, rfl⟩ := List.map_eq_cons_iff.1 hlead
  obtain ⟨⟨served, tb₁⟩, hnext⟩ := exists_nextThread hs (q := q) (by rw [hq]; rfl)
  obtain ⟨hnil, -⟩ | ⟨y, behind, hy, rfl, hacq⟩ := nextThread_first hp hq hnext
  · rw [hrec] at hnil
    cases hnil
  obtain ⟨rfl, rfl⟩ := List.cons.inj (hy.symm.trans hrec)
  have hwaits : tb.waitingQueue y.thread = some q :=
    hs.linked.waiting_of_mem hq (by rw [hrec]; exact List.mem_cons_self)
  obtain ⟨tb₂, hcall, hback⟩ := acquire_handedBack hs hac hq hwaits hacq
  have hp₂ : tb₂.policy = .priority := hback.policy.trans hp
  have hkept := effective_of_unowned hs hback.sound hac hback.policy hback.links hwaits
  -- it waits under its old value and a new arrival number, so behind all of its weight
  have hweight : (tb₂.state y.thread).effective = top := by
    rw [← hvalue, ← hkept, effective, state_enqueue, if_pos rfl]
  have hqueue : (enqueue q y.thread tb₂).queue? q = some
      { qs with
        owner := none
        waiters := (qs.waiters.without y.thread).insert .priority
          ⟨y.thread, top, tb₂.arrivals⟩ } := by
    rw [queue?_enqueue, if_pos rfl, hback.queue, hweight, hp₂]
    rfl
  have hold : (qs.waiters.without y.thread).records = lead ++ rest :=
    WaitSet.records_without_head hrec
  have hinserted := (hback.given.linked.ranked_priority hp₂ hback.queue).insert_last
    (r := ⟨y.thread, top, tb₂.arrivals⟩) hold
    (fun z hz => ⟨htop z (List.mem_cons_of_mem _ hz),
      (hback.given.linked.arrival_lt hback.queue (by simp [hold, hz])).le⟩) hbehind
  refine ⟨tb₁, _, hnext, hcall, ⟨hback.sound, hac.unowned hback.links, hp₂,
    ⟨_, lead ++ [⟨y.thread, top, tb₂.arrivals⟩], hqueue,
      hinserted.trans (List.append_cons _ _ _), by simp, fun r hr => ?_⟩, hbehind⟩, hback.links⟩
  rcases List.mem_append.1 hr with hr | hr
  · exact htop r (List.mem_cons_of_mem _ hr)
  · rw [List.mem_singleton.1 hr]

/-! ## Any number of turns -/

theorem Turning.requeue (n : Nat) : ∀ {tb : Table} {ring : List ThreadId},
    Turning tb q top ring rest → ring ≠ [] →
      ∃ tb', tb.requeue q n = .ok ((List.range n).map fun i => ring[i % ring.length]?, tb') ∧
        Turning tb' q top (ring.rotate n) rest ∧
        tb'.links = if n = 0 then tb.links else
          { tb.links with owner := Function.update tb.links.owner q none } := by
  induction n with
  | zero => exact fun {tb ring} h _ => ⟨tb, rfl, by rwa [List.rotate_zero], rfl⟩
  | succ n ih =>
    intro tb ring h hne
    obtain ⟨t, l, rfl⟩ := List.exists_cons_of_ne_nil hne
    obtain ⟨tb₁, tb₂, hnext, hwait, hturned, hlinks⟩ := h.turn
    have hone : l ++ [t] = (t :: l).rotate 1 := by
      rw [List.rotate_cons_succ, List.rotate_zero]
    rw [hone] at hturned
    obtain ⟨tb', hrun, hrest, hlinks'⟩ := ih hturned (by simp)
    refine ⟨tb', ?_, ?_, ?_⟩
    · have hshift : ∀ i, ((t :: l).rotate 1)[i % (t :: l).length]? =
          (t :: l)[(i + 1) % (t :: l).length]? := by
        intro i
        rw [List.getElem?_rotate (Nat.mod_lt i (List.length_pos_iff.2 hne)), Nat.mod_add_mod]
      simp only [Table.requeue, hnext, waitForAccessOption, hwait, hrun, List.length_rotate, hshift]
      rw [List.range_succ_eq_map, List.map_cons, List.map_map]
      simp [Function.comp_def]
    · rwa [List.rotate_rotate, Nat.add_comm] at hrest
    · rw [hlinks', hlinks, if_neg (Nat.succ_ne_zero n)]
      split
      · rfl
      · rw [Function.update_idem]

/-! ## Every queue -/

/-- Nobody in the queue has a greater value than the thread of the record. -/
def leads (tb : Table) (qs : QueueState) (r : WaitRecord) : Bool :=
  qs.waiters.threads.all fun u => tb.effective u ≤ tb.effective r.thread

/-- The waiters of the greatest value, in their order. -/
def leaders (tb : Table) (qs : QueueState) : List ThreadId :=
  (qs.waiters.records.filter (leads tb qs)).map WaitRecord.thread

/-- The records of all other waiters, in their order. -/
def followers (tb : Table) (qs : QueueState) : List WaitRecord :=
  qs.waiters.records.filter fun r => !leads tb qs r

/-- The first record has the greatest weight, and the leaders are those that have it too. -/
theorem Sound.leads_iff {x r : WaitRecord} (h : Sound tb) (hp : tb.policy = .priority)
    (hq : tb.queue? q = some qs) (hx : qs.waiters.records.head? = some x)
    (hr : r ∈ qs.waiters.records) : leads tb qs r = true ↔ r.weight = x.weight := by
  have hrank := h.linked.ranked_priority hp hq
  have hvalue : ∀ {y}, y ∈ qs.waiters.records → tb.effective y.thread = y.weight :=
    fun hy => (h.settled.weight hq hy).symm
  have hle : ∀ {y}, y ∈ qs.waiters.records → y.weight ≤ x.weight := by
    intro y hy
    have := hrank.le_head hx hy
    omega
  simp only [leads, List.all_eq_true, decide_eq_true_eq, hvalue hr]
  constructor
  · intro hall
    have hmem := List.mem_of_mem_head? hx
    have hge := hall x.thread (WaitSet.mem_threads.2 ⟨x, hmem, rfl⟩)
    rw [hvalue hmem] at hge
    exact Nat.le_antisymm (hle hr) hge
  · rintro heq u hu
    obtain ⟨y, hy, rfl⟩ := WaitSet.mem_threads.1 hu
    rw [hvalue hy, heq]
    exact hle hy

theorem Sound.turning (h : Sound tb) (hac : Acyclic tb) (hp : tb.policy = .priority)
    (hq : tb.queue? q = some qs) (hw : qs.waiters.records ≠ []) :
    ∃ top, Turning tb q top (leaders tb qs) (followers tb qs) ∧ leaders tb qs ≠ [] := by
  obtain ⟨x, hx⟩ := Option.isSome_iff_exists.1 (List.isSome_head?.2 hw)
  have hleads := fun {r} => h.leads_iff (r := r) hp hq hx
  have hrank := h.linked.ranked_priority hp hq
  have hsplit : qs.waiters.records =
      qs.waiters.records.filter (leads tb qs) ++ followers tb qs := by
    refine (filter_append_filter_not (hrank.sorted.imp_of_mem fun {a b} ha hb hab hlead => ?_)).symm
    have hle := hrank.le_head hx ha
    have hcmp := Policy.compare_priority_ne_gt.1 hab
    rw [hleads hb] at hlead
    rw [hleads ha]
    omega
  have hmem := List.mem_of_mem_head? hx
  refine ⟨x.weight, ⟨h, hac, hp, ⟨qs, _, hq, hsplit, rfl, fun r hr => ?_⟩, fun r hr => ?_⟩, ?_⟩
  · obtain ⟨hr, hlead⟩ := List.mem_filter.1 hr
    exact (hleads hr).1 hlead
  · obtain ⟨hr, hlead⟩ := List.mem_filter.1 hr
    have hne : r.weight ≠ x.weight := by
      rw [Ne, ← hleads hr]
      simpa using hlead
    have := hrank.le_head hx hr
    omega
  · refine List.ne_nil_of_mem (List.mem_map.2 ⟨x, List.mem_filter.2 ⟨hmem, ?_⟩, rfl⟩)
    exact (hleads hmem).2 rfl

/-- What `n` turns on a queue come to. -/
structure RoundRobin (tb : Table) (q : QueueId) (qs : QueueState) (n : Nat)
    (served : List (Option ThreadId)) (tb' : Table) : Prop where
  leader : leaders tb qs ≠ []
  /-- The leaders are served one after the other, again and again, and nobody else is. -/
  served : served =
    (List.range n).map fun i => (leaders tb qs)[i % (leaders tb qs).length]?
  /-- The leaders stand rotated in front, and all other records are as they were. -/
  queue : ∃ qs' lead, tb'.queue? q = some qs' ∧ qs'.waiters.records = lead ++ followers tb qs ∧
    lead.map WaitRecord.thread = (leaders tb qs).rotate (n % (leaders tb qs).length) ∧
    qs'.owner = if n = 0 then qs.owner else none
  /-- Base values, waits, the kinds of all queues and the owners of the others are the same. -/
  links : tb'.links = if n = 0 then tb.links else
    { tb.links with owner := Function.update tb.links.owner q none }
  values : ∀ t, tb.waitingQueue t = some q → tb'.effective t = tb.effective t

/-- Under strict priorities equal threads take turns on any queue, and no thread of a smaller value
comes between them. -/
theorem reachable_roundRobin (h : Reachable .priority tb) (hac : Acyclic tb)
    (hq : tb.queue? q = some qs) (hw : qs.waiters.records ≠ []) (n : Nat) :
    ∃ served tb', tb.requeue q n = .ok (served, tb') ∧ RoundRobin tb q qs n served tb' := by
  obtain ⟨hp, hs⟩ := h.sound
  obtain ⟨top, hstart, hne⟩ := hs.turning hac hp hq hw
  obtain ⟨tb', hrun, hend, hlinks⟩ := hstart.requeue n hne
  refine ⟨_, tb', hrun, hne, rfl, ?_, hlinks, fun t ht => ?_⟩
  · obtain ⟨qs', lead, hq', hrec, hlead, -⟩ := hend.queue
    refine ⟨qs', lead, hq', hrec, by rw [List.rotate_mod, hlead], ?_⟩
    have ho' : tb'.links.owner q = qs'.owner := by simp [Table.links, hq']
    have ho : tb.links.owner q = qs.owner := by simp [Table.links, hq]
    rw [← ho', hlinks, ← ho]
    split
    · rfl
    · exact Function.update_self _ _ _
  · rcases hstart.mem_of_waits ht with hring | ⟨r, hr, rfl⟩
    · rw [hstart.effective_of_ring hring, hend.effective_of_ring (List.mem_rotate.2 hring)]
    · rw [hstart.effective_of_rest hr, hend.effective_of_rest hr]

/-- Threads 2 and 4 have the greatest base value of those that wait on queue 0, and thread 3 has it
from thread 6, which waits on a queue of thread 3. -/
def sharedOps : List Op :=
  [.createQueue true, .createQueue true, .acquire ⟨0⟩ ⟨1⟩, .acquire ⟨1⟩ ⟨3⟩, .setPriority ⟨2⟩ 5,
    .setPriority ⟨4⟩ 5, .setPriority ⟨6⟩ 5, .waitForAccess ⟨0⟩ ⟨2⟩, .waitForAccess ⟨0⟩ ⟨3⟩,
    .waitForAccess ⟨0⟩ ⟨5⟩, .waitForAccess ⟨0⟩ ⟨4⟩, .waitForAccess ⟨1⟩ ⟨6⟩]

theorem reachable_roundRobin_shared : ∃ tb qs tb', Reachable .priority tb ∧ Acyclic tb ∧
    tb.queue? ⟨0⟩ = some qs ∧ qs.waiters.records ≠ [] ∧ leaders tb qs = [⟨2⟩, ⟨3⟩, ⟨4⟩] ∧
    tb.requeue ⟨0⟩ 7 = .ok ([2, 3, 4, 2, 3, 4, 2].map fun k => some ⟨k⟩, tb') ∧
    RoundRobin tb ⟨0⟩ qs 7 ([2, 3, 4, 2, 3, 4, 2].map fun k => some ⟨k⟩) tb' := by
  have hrun : (ofOps .priority .counting sharedOps).toOption.any (fun tb =>
      descending tb = true ∧ (tb.queue? ⟨0⟩).map (leaders tb) = some [⟨2⟩, ⟨3⟩, ⟨4⟩]) = true := by
    decide +kernel
  obtain ⟨tb, hreach, hrun⟩ := exists_reachable hrun
  obtain ⟨hd, hq⟩ := of_decide_eq_true hrun
  obtain ⟨qs, hqs, hlead⟩ := Option.map_eq_some_iff.1 hq
  have hac := acyclic_of_descending hd
  have hw : qs.waiters.records ≠ [] := by
    intro hnil
    simp [leaders, hnil] at hlead
  obtain ⟨served, tb', hr, hround⟩ := reachable_roundRobin hreach hac hqs hw 7
  have hserved := hround.served
  rw [hlead] at hserved
  obtain rfl : served = [2, 3, 4, 2, 3, 4, 2].map fun k => some ⟨k⟩ := hserved.trans (by decide)
  exact ⟨tb, qs, tb', hreach, hac, hqs, hw, hlead, hr, hround⟩

end Table
end ThreadKernel
