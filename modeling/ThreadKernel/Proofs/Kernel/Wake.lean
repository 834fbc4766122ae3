import ThreadKernel.Proofs.Kernel.TableStep

/-!
# ThreadKernel.Proofs.Kernel.Wake

Threads that begin to wait, and threads that are called back.

* `Placed.enqueue`        — the running thread waits on the queue of a primitive.
* `Situated.announce`     — a parked thread stops waiting, and its wake signal announces it.
* `Situated.serve`        — a waiter is handed a queue and announced.
* `Situated.handOverAll`  — all waiters are, one after the other, and the queue is empty then.
-/

namespace ThreadKernel

/-- A wake of a parked thread invokes its waker, and the thread can be dispatched. -/
theorem Slot.Parked.wake {t : ThreadId} {s : Slot Activation} (h : s.Parked t) :
    s.signal.wake = (some t, ⟨true, none⟩) ∧
      ({ s with signal := ⟨true, none⟩ } : Slot Activation).Resumable := by
  obtain ⟨hsig, task, p, r, htask, hplain, hstage, hy⟩ := h
  refine ⟨by rw [hsig]; rfl, task, htask, hplain, .inr ⟨p, r, hstage, hy, rfl⟩⟩

namespace Kernel

/-! ## Beginning to wait -/

section Enqueue

variable {uses : List Use} {asleep : ThreadId → Nat} {k k' : Kernel Activation} {q : QueueId}
  {t : ThreadId}

/-- A thread that owns the queue it waits on gives it up; other owners stay. -/
theorem owner_given_up {owner : QueueId → Option ThreadId} {r : QueueId} {g : ThreadId}
    (h : owner r = some g) (hne : r = q → g ≠ t) :
    (if owner q = some t then Function.update owner q none else owner) r = some g := by
  split
  · rename_i ho
    rw [Function.update_of_ne, h]
    rintro rfl
    rw [h] at ho
    exact hne rfl (Option.some.inj ho)
  · exact h

theorem Placed.enqueue (h : Placed uses asleep (some (t, .free)) k) (hq : Primitive uses k q)
    (hl : ∀ u ∈ uses, u.queue = q → u.holder ≠ some t)
    (hj : ∀ slot, k.registry.get? t = some slot → slot.joinQueue ≠ q)
    (hr : k.waitForAccess q t = .ok k') :
    Placed uses asleep (some (t, .blocking)) k' ∧ Later k k' := by
  obtain ⟨tb, htb, rfl⟩ := waitForAccess_ok hr
  obtain ⟨-, -, he⟩ := Table.waitForAccess_effect h.1.sound htb
  obtain ⟨slot, hslot, htask, hown, -⟩ := h.2.slot
  have hnow : Nowhere asleep k t := h.2.place
  have hw : ∀ u, tb.waitingQueue u = Function.update k.table.links.waiting t (some q) u :=
    fun u => congrFun (congrArg Table.Links.waiting he.links) u
  have howner : tb.links.owner = if k.table.links.owner q = some t
      then Function.update k.table.links.owner q none else k.table.links.owner :=
    congrArg Table.Links.owner he.links
  have hm : Moves t slot slot k { k with table := tb } := by
    refine ⟨he.sound, hslot, get?_same hslot, rfl, rfl, fun u hu => ?_, ?_, fun _ _ => rfl, rfl,
      rfl⟩
    · exact (hw u).trans (Function.update_of_ne hu _ _)
    · show tb.links.transfer = _
      rw [he.links]
  have hsit : Situated uses asleep (some t) { k with table := tb } := by
    refine h.1.moves hm h.1.layout.unassigned (fun _ _ => rfl) (fun _ _ hx => hx) ?_ ?_
      fun hx => absurd rfl hx
    · intro u hu g hg
      obtain ⟨hnum, hold⟩ := h.1.holder u hu g hg
      refine ⟨hnum, fun hal => ?_⟩
      show tb.links.owner u.queue = some g
      rw [howner]
      exact owner_given_up (hold hal) fun heq hgt => hl u hu heq (hgt ▸ hg)
    · intro u s hu hs
      show tb.links.owner s.joinQueue = some u
      rw [howner]
      exact owner_given_up (h.1.join_owner hu hs) fun _ hut => hu (congrArg some hut.symm)
  refine ⟨⟨hsit, h.2.current, ⟨slot, hslot, htask, ?_, by rintro ⟨⟩⟩, hnow.channel,
    .inl ⟨⟨q, ?_, hq⟩, hnow.asleep⟩⟩, he.precedes, rfl⟩
  · show tb.links.owner slot.joinQueue = some t
    rw [howner]
    exact owner_given_up hown fun heq => absurd heq (hj slot hslot)
  · exact (hw t).trans (Function.update_self _ _ _)

end Enqueue

/-! ## Being called back -/

section Announce

variable {uses uses' : List Use} {asleep asleep' : ThreadId → Nat} {x : Option ThreadId}
  {k k₁ k' : Kernel Activation} {q : QueueId} {o : Option ThreadId} {t : ThreadId} {tb : Table}
  {after : Table.Links}

theorem Situated.announce (h : Situated uses asleep x k)
    (hp : ∀ slot, k.registry.get? t = some slot → slot.Parked t)
    (hc : k.registry.channel.count t = 0) (he : k.table.Effect after tb)
    (hw : after.waiting = Function.update k.table.links.waiting t none)
    (ht : after.transfer = k.table.links.transfer) (hu : Reassigned q o uses uses')
    (hholder : ∀ u ∈ uses', ∀ g, u.holder = some g → g.number < k.registry.nextNumber ∧
      ((k.registry.get? g).isSome → after.owner u.queue = some g))
    (howner : ∀ {u slot}, x ≠ some u → k.registry.get? u = some slot →
      after.owner slot.joinQueue = k.table.links.owner slot.joinQueue)
    (ha : asleep' t = 0) (hsame : ∀ u, u ≠ t → asleep' u = asleep u)
    (hm : markReady t { k with table := tb } = .ok k') :
    Situated uses' asleep' x k' ∧ Spares (some t) uses asleep k uses' asleep' k' ∧
      k'.table = tb ∧ k'.registry.current = k.registry.current := by
  obtain ⟨hcur, slot, hslot, rfl⟩ := markReady_ok hm
  have hslot : k.registry.get? t = some slot := hslot
  obtain ⟨hwake, hres⟩ := (hp slot hslot).wake
  rw [hwake]
  set reg := (k.registry.setSlot t { slot with signal := ⟨true, none⟩ }).postOption (some t)
  have hchan : ∀ u, reg.channel.count u = k.registry.channel.count u + if t = u then 1 else 0 := by
    intro u
    show (k.registry.channel ++ [t]).count u = _
    rw [List.count_append, List.count_singleton]
    simp
  have hw' : ∀ u, tb.waitingQueue u = Function.update k.table.links.waiting t none u := by
    intro u
    have := congrFun (congrArg Table.Links.waiting he.links) u
    rw [hw] at this
    exact this
  have hmv : Moves t slot { slot with signal := ⟨true, none⟩ } k
      { k with table := tb, registry := reg } := by
    refine ⟨he.sound, hslot, fun u => Registry.get?_setSlot _ _ _ _, rfl, rfl, fun u hne => ?_, ?_,
      fun u hne => ?_, rfl, rfl⟩
    · exact (hw' u).trans (Function.update_of_ne hne _ _)
    · show tb.links.transfer = _
      rw [he.links, ht]
    · show reg.channel.count u = _
      rw [hchan, if_neg (Ne.symm hne), Nat.add_zero]
  refine ⟨h.moves hmv hu hsame (fun _ _ hx => hx) ?_ ?_ fun _ => ?_, hmv.spares hu hsame, rfl, rfl⟩
  · intro u hu' g hg
    show _ ∧ (_ → tb.links.owner u.queue = some g)
    rw [he.links]
    exact hholder u hu' g hg
  · intro u s hxu hs
    show tb.links.owner s.joinQueue = some u
    rw [he.links, howner hxu hs]
    exact h.join_owner hxu hs
  · refine .announced ?_ ?_ ha hres
    · exact (hw' t).trans (Function.update_self _ _ _)
    · show reg.channel.count t = 1
      rw [hchan, hc, if_pos rfl]

/-- Who waits on a queue of a primitive is parked. -/
theorem Situated.parked_of_waiting (h : Situated uses asleep x k) (hx : x ≠ some t)
    (hq : Primitive uses k q) (hw : k.table.waitingQueue t = some q) :
    (∀ slot, k.registry.get? t = some slot → slot.Parked t) ∧
      k.registry.channel.count t = 0 ∧ asleep t = 0 := by
  cases hs : k.registry.get? t with
  | none =>
    have := (h.absent hs).waiting
    rw [hw] at this
    cases this
  | some slot =>
    cases h.standing hx hs with
    | ready hr _ _ _ =>
      rw [hw] at hr
      exact absurd (Option.some.inj hr) (h.layout.ne_ready hq)
    | announced hn _ _ _ =>
      rw [hw] at hn
      cases hn
    | parked hp hb =>
      refine ⟨fun s hs' => Option.some.inj hs' ▸ hp, hb.channel, ?_⟩
      rcases hb.place with ⟨-, ha⟩ | ⟨hn, -⟩
      · exact ha
      · rw [hw] at hn
        cases hn

/-- The queue of a lock or a condition, or the one on which others join `x`. -/
def Servable (uses : List Use) (x : Option ThreadId) (k : Kernel Activation) (q : QueueId) : Prop :=
  (∃ u ∈ uses, u.queue = q) ∨
    ∃ t slot, x = some t ∧ k.registry.get? t = some slot ∧ slot.joinQueue = q

theorem Servable.primitive (h : Servable uses x k q) : Primitive uses k q := by
  rcases h with h | ⟨t, slot, -, hs, hj⟩
  · exact .inl h
  · exact .inr ⟨t, slot, hs, hj⟩

theorem Servable.join_ne (h : Servable uses x k q) (hl : Layout uses k) {u : ThreadId}
    {slot : Slot Activation} (hx : x ≠ some u) (hs : k.registry.get? u = some slot) :
    slot.joinQueue ≠ q := by
  rcases h with ⟨v, hv, rfl⟩ | ⟨t, slot', rfl, hs', rfl⟩
  · exact (hl.join_apart hs v hv).symm
  · intro hj
    exact hx (congrArg some (hl.join_inj hs hs' hj).symm)

/-- The thread that a queue of a primitive is handed to was parked, and is announced. -/
theorem Situated.serve (h : Situated uses asleep x k) (hq : Servable uses x k q)
    (hx : ∀ u, x = some u → k.table.waitingQueue u ≠ some q)
    (hu : Reassigned q (some t) uses uses') (hn : k.nextThread q = .ok (some t, k₁))
    (hm : k₁.markReady t = .ok k') :
    Situated uses' asleep x k' ∧ Spares (some t) uses asleep k uses' asleep k' ∧
      k'.registry.current = k.registry.current ∧ x ≠ some t ∧
      k.table.waitingQueue t = some q ∧
      k.table.Effect
        { k.table.links with
          waiting := Function.update k.table.links.waiting t none
          owner := Function.update k.table.links.owner q (some t) } k'.table := by
  obtain ⟨tb, htb, rfl⟩ := nextThread_ok hn
  obtain ⟨qs, hqs, ⟨hnone, -⟩ | ⟨r, hr, hmem, -, he⟩⟩ := Table.nextThread_effect h.sound htb
  · cases hnone
  · cases hr
    have hw : k.table.waitingQueue r.thread = some q := h.sound.linked.waiting_of_mem hqs hmem
    have hxr : x ≠ some r.thread := fun e => hx _ e hw
    obtain ⟨hp, hc, ha⟩ := h.parked_of_waiting hxr hq.primitive hw
    have halive : r.thread.number < k.registry.nextNumber := by
      obtain ⟨-, slot, hslot, -⟩ := markReady_ok hm
      exact h.number hslot
    obtain ⟨hsit, hs, htbl, hcur⟩ := h.announce hp hc he rfl rfl hu
      (hu.holder h.holder (Function.update_self _ _ _) (fun _ hne => Function.update_of_ne hne _ _)
        (fun g hg => Option.some.inj hg ▸ halive))
      (fun hxu hslot => Function.update_of_ne (hq.join_ne h.layout hxu hslot) _ _) ha
      (fun _ _ => rfl) hm
    exact ⟨hsit, hs, hcur, hxr, hw, htbl ▸ he⟩

/-- A queue that nobody waits on is left to nobody. -/
theorem Situated.serve_none (h : Situated uses asleep x k) (hq : Servable uses x k q)
    (hu : Reassigned q none uses uses') (hn : k.nextThread q = .ok (none, k')) :
    Situated uses' asleep x k' ∧ Spares none uses asleep k uses' asleep k' ∧
      k'.registry = k.registry ∧ (∀ t, k.table.waitingQueue t ≠ some q) ∧
      k.table.Effect
        { k.table.links with owner := Function.update k.table.links.owner q none } k'.table := by
  obtain ⟨tb, htb, rfl⟩ := nextThread_ok hn
  obtain ⟨qs, hqs, ⟨-, hnil, he⟩ | ⟨r, hr, -⟩⟩ := Table.nextThread_effect h.sound htb
  · obtain ⟨hsit, hs⟩ := h.table_step he rfl rfl hu
      (hu.holder h.holder (Function.update_self _ _ _)
        (fun _ hne => Function.update_of_ne hne _ _) (fun g hg => by cases hg))
      fun hxu hslot => Function.update_of_ne (hq.join_ne h.layout hxu hslot) _ _
    refine ⟨hsit, hs, rfl, fun t hw => ?_, he⟩
    obtain ⟨qs', hqs', hm⟩ := h.sound.linked.waiting_iff.1 hw
    rw [hqs] at hqs'
    cases hqs'
    obtain ⟨r, hr, -⟩ := WaitSet.mem_threads.1 hm
    rw [hnil] at hr
    cases hr
  · cases hr

end Announce

/-! ## Emptying a queue -/

/-- A queue that hands itself to a waiter has one waiter less. -/
theorem size_lt_of_served {tb tb' : Table} {q : QueueId} {qs : QueueState} {t : ThreadId}
    {owner : QueueId → Option ThreadId} (hl : tb.Linked) (hq : tb.queue? q = some qs)
    (hw : tb.waitingQueue t = some q)
    (he : tb.Effect { tb.links with
      waiting := Function.update tb.links.waiting t none
      owner := owner } tb') :
    ∃ qs', tb'.queue? q = some qs' ∧ qs'.waiters.size < qs.waiters.size := by
  have hwait : ∀ u, tb'.waitingQueue u = Function.update tb.links.waiting t none u :=
    fun u => congrFun (congrArg Table.Links.waiting he.links) u
  have htr : tb'.links.transfer q = tb.links.transfer q := by rw [he.links]
  have hmap : (tb'.queue? q).map QueueState.transfer = some qs.transfer := by
    refine htr.trans ?_
    simp [Table.links, hq]
  obtain ⟨qs', hq', -⟩ := Option.map_eq_some_iff.1 hmap
  refine ⟨qs', hq', ?_⟩
  have ht : t ∈ qs.waiters.threads := by
    obtain ⟨rs, hr, hm⟩ := hl.waiting_iff.1 hw
    rw [hq] at hr
    cases hr
    exact hm
  have hsub : t :: qs'.waiters.threads ⊆ qs.waiters.threads := by
    intro u hu
    rcases List.mem_cons.1 hu with rfl | hu
    · exact ht
    · have hwu : tb'.waitingQueue u = some q := he.sound.linked.waiting_iff.2 ⟨qs', hq', hu⟩
      rw [hwait] at hwu
      by_cases hut : u = t
      · rw [hut, Function.update_self] at hwu
        cases hwu
      · rw [Function.update_of_ne hut] at hwu
        obtain ⟨rs, hr, hm⟩ := hl.waiting_iff.1 hwu
        rw [hq] at hr
        cases hr
        exact hm
  have hnot : t ∉ qs'.waiters.threads := by
    intro hm
    have hwt : tb'.waitingQueue t = some q := he.sound.linked.waiting_iff.2 ⟨qs', hq', hm⟩
    rw [hwait, Function.update_self] at hwt
    cases hwt
  have hn := List.nodup_cons.2 ⟨hnot, he.sound.linked.threads_nodup hq'⟩
  have hlen := hn.length_le_of_subset hsub
  rw [List.length_cons, WaitSet.threads, WaitSet.threads, List.length_map, List.length_map] at hlen
  exact hlen

/-- From `k` to `k'` the thread stays where it is. -/
structure Leaves (t : ThreadId) (k k' : Kernel Activation) : Prop where
  waiting : k'.table.waitingQueue t = k.table.waitingQueue t
  channel : k'.registry.channel.count t = k.registry.channel.count t
  slot : k'.registry.get? t = k.registry.get? t

theorem Leaves.trans {t : ThreadId} {k₁ k₂ k₃ : Kernel Activation} (h : Leaves t k₁ k₂)
    (h' : Leaves t k₂ k₃) : Leaves t k₁ k₃ :=
  ⟨h'.waiting.trans h.waiting, h'.channel.trans h.channel, h'.slot.trans h.slot⟩

theorem Spares.leaves {e : Option ThreadId} {uses uses' : List Use}
    {asleep asleep' : ThreadId → Nat} {k k' : Kernel Activation} {t : ThreadId}
    (h : Spares e uses asleep k uses' asleep' k') (ht : e ≠ some t) : Leaves t k k' :=
  ⟨h.waiting t ht, h.channel t ht, h.slot t ht⟩

/-- What emptying the queue `q` leaves behind. -/
structure Emptied (q : QueueId) (uses : List Use) (asleep : ThreadId → Nat) (x : Option ThreadId)
    (k k' : Kernel Activation) : Prop where
  situated : Situated uses asleep x k'
  leaves : ∀ t, x = some t → Leaves t k k'
  current : k'.registry.current = k.registry.current
  later : Later k k'
  empty : ∀ t, k'.table.waitingQueue t ≠ some q
  owner : ∀ r, r ≠ q → k'.table.links.owner r = k.table.links.owner r

section HandOver

variable {uses : List Use} {asleep : ThreadId → Nat} {x : Option ThreadId} {q : QueueId}

theorem Situated.emptied_of_none {k k' : Kernel Activation} (h : Situated uses asleep x k)
    (hq : Servable uses x k q) (hu : ∀ u ∈ uses, u.queue = q → u.holder = none)
    (hn : k.nextThread q = .ok (none, k')) : Emptied q uses asleep x k k' := by
  obtain ⟨hsit, hs, hreg, hempty, he⟩ := h.serve_none hq (.refl hu) hn
  refine ⟨hsit, fun t _ => hs.leaves (by simp), by rw [hreg], ⟨he.precedes, hs.ready⟩,
    fun t ht => ?_, fun r hne => ?_⟩
  · exact hempty t ((hs.waiting t (by simp)).symm.trans ht)
  · rw [he.links]
    exact Function.update_of_ne hne _ _

theorem Situated.handOver (hu : ∀ u ∈ uses, u.queue = q → u.holder = none) (n : Nat) :
    ∀ {k k' : Kernel Activation}, Situated uses asleep x k → Servable uses x k q →
      (∀ u, x = some u → k.table.waitingQueue u ≠ some q) →
      (∃ qs, k.table.queue? q = some qs ∧ qs.waiters.size ≤ n) →
      k.handOver q (n + 1) = .ok k' → Emptied q uses asleep x k k' := by
  induction n with
  | zero =>
    intro k k' h hq hx hex hr
    obtain ⟨qs, hqs, hsize⟩ := hex
    rw [Kernel.handOver] at hr
    split at hr
    · cases hr
    · rename_i k₁ hn
      cases hr
      exact h.emptied_of_none hq hu hn
    · rename_i t k₁ hn
      split at hr
      · cases hr
      · rename_i k₂ hm
        obtain ⟨-, -, -, -, hw, -⟩ := h.serve hq hx (.refl hu) hn hm
        obtain ⟨rs, hrs, hmem⟩ := h.sound.linked.waiting_iff.1 hw
        rw [hqs] at hrs
        cases hrs
        obtain ⟨r, hr, -⟩ := WaitSet.mem_threads.1 hmem
        exact absurd (List.length_pos_of_mem hr) (by simpa [WaitSet.size] using hsize)
  | succ n ih =>
    intro k k' h hq hx hex hr
    obtain ⟨qs, hqs, hsize⟩ := hex
    rw [Kernel.handOver] at hr
    split at hr
    · cases hr
    · rename_i k₁ hn
      cases hr
      exact h.emptied_of_none hq hu hn
    · rename_i t k₁ hn
      split at hr
      · cases hr
      · rename_i k₂ hm
        obtain ⟨hsit, hs, hcur, hxt, hw, he⟩ := h.serve hq hx (.refl hu) hn hm
        obtain ⟨qs', hqs', hlt⟩ := size_lt_of_served h.sound.linked hqs hw he
        have hleave : ∀ u, x = some u → Leaves u k k₂ := fun u hxu =>
          hs.leaves fun e => hxt (e ▸ hxu)
        have hq₂ : Servable uses x k₂ q := by
          rcases hq with hq | ⟨u, slot, hxu, hslot, hj⟩
          · exact .inl hq
          · exact .inr ⟨u, slot, hxu, (hleave u hxu).slot.trans hslot, hj⟩
        have hx₂ : ∀ u, x = some u → k₂.table.waitingQueue u ≠ some q := fun u hxu => by
          rw [(hleave u hxu).waiting]
          exact hx u hxu
        have hrest := ih hsit hq₂ hx₂ ⟨qs', hqs', by omega⟩ hr
        refine ⟨hrest.situated, fun u hxu => (hleave u hxu).trans (hrest.leaves u hxu),
          hrest.current.trans hcur, Later.trans ⟨he.precedes, hs.ready⟩ hrest.later, hrest.empty,
          fun r hne => ?_⟩
        rw [hrest.owner r hne, he.links]
        exact Function.update_of_ne hne _ _

/-- There are as many turns as waiters, and one more. -/
theorem handOverAll_ok {k k' : Kernel Activation} (h : k.handOverAll q = .ok k') :
    ∃ qs, k.table.queue? q = some qs ∧ k.handOver q (qs.waiters.size + 1) = .ok k' := by
  unfold Kernel.handOverAll numWaiters Table.numWaiters Table.queue at h
  cases hqs : k.table.queue? q with
  | none =>
    rw [hqs] at h
    cases h
  | some qs =>
    rw [hqs] at h
    exact ⟨qs, rfl, h⟩

theorem handOverAll_goesRound {k k' : Kernel Activation} (h : k.handOverAll q = .ok k') :
    GoesRound q k k' := by
  obtain ⟨_, -, h⟩ := handOverAll_ok h
  exact handOver_ok _ h

theorem Situated.handOverAll {k k' : Kernel Activation} (h : Situated uses asleep x k)
    (hq : Servable uses x k q) (hu : ∀ u ∈ uses, u.queue = q → u.holder = none)
    (hx : ∀ u, x = some u → k.table.waitingQueue u ≠ some q)
    (hr : k.handOverAll q = .ok k') : Emptied q uses asleep x k k' := by
  obtain ⟨qs, hqs, hr⟩ := handOverAll_ok hr
  exact h.handOver hu _ hq hx ⟨qs, hqs, Nat.le_refl _⟩ hr

end HandOver
end Kernel
end ThreadKernel
