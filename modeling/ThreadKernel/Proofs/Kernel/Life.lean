import ThreadKernel.Proofs.Kernel.Wake

/-!
# ThreadKernel.Proofs.Kernel.Life

Queues that are created, and threads that come and go.

* `Placed.createQueue` — a new queue for a lock or a condition.
* `Spawned`            — what a new thread changes.
* `Placed.spawn`       — it is ready and owns its join queue.
* `Departed`           — what a finished thread leaves behind.
* `Situated.retire`    — a finished thread is nowhere, and those that joined it are announced.
-/

namespace ThreadKernel.Kernel

variable {uses uses' : List Use} {asleep : ThreadId → Nat} {run : Option (ThreadId × Posture)}
  {k k' : Kernel Activation}

/-! ## New queues -/

theorem transfer_createQueue (transfer : Bool) (tb : Table) :
    tb.links.transfer (tb.createQueue transfer).1 = none := by
  simp [Table.links, Table.queue?_createQueue_fst]

theorem Layout.fresh_ne (h : Layout uses k) {q : QueueId} (hq : k.table.links.transfer q = none) :
    q ≠ k.readyQueue ∧ (∀ u ∈ uses, u.queue ≠ q) ∧
      ∀ t slot, k.registry.get? t = some slot → slot.joinQueue ≠ q := by
  refine ⟨?_, fun u hu => ?_, fun t slot hs => ?_⟩
  · rintro rfl
    have := h.ready_kind
    rw [hq] at this
    cases this
  · rintro rfl
    have := h.use_kind u hu
    rw [hq] at this
    cases this
  · rintro rfl
    have := h.join_kind hs
    rw [hq] at this
    cases this

/-- A queue that was free becomes the queue of a lock or a condition. -/
theorem Layout.add {q : QueueId} {transfer : Bool} {tb : Table} (h : Layout uses k)
    (hq : k.table.links.transfer q = none) (hu : uses'.Perm (⟨q, transfer, none⟩ :: uses))
    (ht : tb.links.transfer = Function.update k.table.links.transfer q (some transfer)) :
    Layout uses' { k with table := tb } := by
  obtain ⟨hqr, hqu, hqj⟩ := h.fresh_ne hq
  have hmem : ∀ {u}, u ∈ uses' → u = ⟨q, transfer, none⟩ ∨ u ∈ uses := fun hm =>
    List.mem_cons.1 (hu.mem_iff.1 hm)
  have hkind : ∀ r, r ≠ q → tb.links.transfer r = k.table.links.transfer r := fun r hr => by
    rw [ht]
    exact Function.update_of_ne hr _ _
  constructor
  · exact (hkind _ hqr.symm).trans h.ready_kind
  · intro u hu
    rcases hmem hu with rfl | hu
    · exact hqr
    · exact h.ready_apart u hu
  · intro u hu
    rcases hmem hu with rfl | hu
    · exact (congrFun ht q).trans (Function.update_self _ _ _)
    · exact (hkind _ (hqu u hu)).trans (h.use_kind u hu)
  · have hp : (uses'.map Use.queue).Perm (q :: uses.map Use.queue) := hu.map _
    rw [hp.nodup_iff]
    refine List.nodup_cons.2 ⟨fun hm => ?_, h.use_nodup⟩
    obtain ⟨u, hu, huq⟩ := List.mem_map.1 hm
    exact hqu u hu huq
  · exact fun {t slot} hslot => (hkind _ (hqj t slot hslot)).trans (h.join_kind hslot)
  · intro t slot hslot u hu
    rcases hmem hu with rfl | hu
    · exact (hqj t slot hslot).symm
    · exact h.join_apart hslot u hu
  · exact h.join_inj

theorem Placed.createQueue (h : Placed uses asleep run k) (transfer : Bool)
    (hu : uses'.Perm (⟨(k.createQueue transfer).1, transfer, none⟩ :: uses)) :
    Placed uses' asleep run (k.createQueue transfer).2 ∧
      Later k (k.createQueue transfer).2 := by
  have he := Table.createQueue_effect h.1.sound transfer
  have hfresh := transfer_createQueue transfer k.table
  set q := (k.table.createQueue transfer).1
  set tb := (k.table.createQueue transfer).2
  have hown : tb.links.owner = k.table.links.owner := by rw [he.links]
  have hlayout : Layout uses' { k with table := tb } :=
    h.1.layout.add hfresh hu (by rw [he.links])
  have hs : Spares none uses asleep k uses' asleep { k with table := tb } := by
    refine ⟨fun u _ => ?_, fun _ _ => rfl, fun _ _ => rfl, fun _ _ => rfl, fun u r _ _ hr => ?_,
      rfl, Nat.le_refl _⟩
    · exact congrFun (congrArg Table.Links.waiting he.links) u
    · rcases hr with ⟨v, hv, hvr⟩ | hr
      · exact .inl ⟨v, hu.mem_iff.2 (List.mem_cons_of_mem _ hv), hvr⟩
      · exact .inr hr
  refine ⟨?_, he.precedes, rfl⟩
  refine h.of_spares (h.1.of_spares hs (fun _ _ hx => hx) he.sound hlayout ?_ ?_ (by rintro u ⟨⟩))
    hs rfl (fun _ _ _ hc => by cases hc) fun t p slot _ _ ho => ?_
  · intro u hu' g hg
    show _ ∧ (_ → tb.links.owner u.queue = some g)
    rw [hown]
    rcases List.mem_cons.1 (hu.mem_iff.1 hu') with rfl | hu'
    · cases hg
    · exact h.1.holder u hu' g hg
  · intro u slot hx hslot
    show tb.links.owner slot.joinQueue = some u
    rw [hown]
    exact h.1.join_owner hx hslot
  · show tb.links.owner slot.joinQueue = some t
    rw [hown]
    exact ho

/-! ## New threads -/

/-- From `k` to `k'` the thread `t` came to life: it owns its join queue and is ready. -/
structure Spawned (t : ThreadId) (slot : Slot Activation) (k k' : Kernel Activation) : Prop where
  sound : k'.table.Sound
  later : Later k k'
  thread : t = ⟨k.registry.nextNumber⟩
  absent : k.registry.get? t = none
  queue : k.table.links.transfer slot.joinQueue = none
  get? : ∀ u, k'.registry.get? u = if t = u then some slot else k.registry.get? u
  channel : k'.registry.channel = k.registry.channel
  current : k'.registry.current = k.registry.current
  number : k'.registry.nextNumber = k.registry.nextNumber + 1
  waiting : k'.table.links.waiting =
    Function.update k.table.links.waiting t (some k.readyQueue)
  transfer : k'.table.links.transfer =
    Function.update k.table.links.transfer slot.joinQueue (some true)
  owner : ∀ {r g}, r ≠ k.readyQueue →
    Function.update k.table.links.owner slot.joinQueue (some t) r = some g →
      k'.table.links.owner r = some g

/-- The thread owns its join queue before it waits to be ready. -/
theorem spawn_cases {name : String} {a : Activation} {t : ThreadId}
    (h : k.spawn name a = .ok (t, k')) :
    ∃ tb₁ tb, t = ⟨k.registry.nextNumber⟩ ∧ k.registry.get? t = none ∧
      (k.table.createQueue true).2.acquire (k.table.createQueue true).1 t = .ok tb₁ ∧
      tb₁.waitForAccess k.readyQueue t = .ok tb ∧
      k' = { k with
        registry := { k.registry with
          slots := k.registry.slots.insert t
            ⟨some ⟨name, t, a⟩, .idle, t, (k.table.createQueue true).1, .enabled⟩
          nextNumber := k.registry.nextNumber + 1 }
        table := tb } := by
  unfold Kernel.spawn at h
  simp only at h
  split at h
  · cases h
  · rename_i t' registry hins
    obtain ⟨hnumber, habsent, rfl⟩ := Registry.insert_ok hins
    split at h
    · cases h
    · rename_i tb₁ hacquire
      split at h
      · cases h
      · rename_i tb hwait
        cases h
        exact ⟨tb₁, tb, hnumber, habsent, hacquire, hwait, rfl⟩

theorem spawn_ok {name : String} {a : Activation} {t : ThreadId} (h : k.table.Sound)
    (hr : k.spawn name a = .ok (t, k')) :
    ∃ q, Spawned t ⟨some ⟨name, t, a⟩, .idle, t, q, .enabled⟩ k k' := by
  obtain ⟨tb₁, tb, hnum, habs, h₁, h₂, rfl⟩ := spawn_cases hr
  have e₀ := Table.createQueue_effect h true
  obtain ⟨-, -, e₁⟩ := Table.acquire_effect e₀.sound h₁
  obtain ⟨-, -, e₂⟩ := Table.waitForAccess_effect e₁.sound h₂
  refine ⟨(k.table.createQueue true).1, ⟨e₂.sound,
    ⟨(e₀.precedes.trans e₁.precedes).trans e₂.precedes, rfl⟩, hnum, habs,
    transfer_createQueue true k.table, fun u => Directory.get?_insert _ _ _ _, rfl, rfl, rfl,
    ?_, ?_, fun {r g} hr ho => ?_⟩⟩
  · show tb.links.waiting = _
    rw [e₂.links, e₁.links, e₀.links]
    exact Function.update_idem _ _ _
  · show tb.links.transfer = _
    rw [e₂.links, e₁.links, e₀.links]
  · show tb.links.owner r = _
    rw [e₂.links, e₁.links, e₀.links]
    exact owner_given_up ho fun heq => absurd heq hr

section Spawned

variable {t : ThreadId} {slot : Slot Activation}

theorem Spawned.self (h : Spawned t slot k k') : k'.registry.get? t = some slot := by
  rw [h.get?, if_pos rfl]

theorem Spawned.back (h : Spawned t slot k k') {u : ThreadId} {s : Slot Activation}
    (hu : k'.registry.get? u = some s) :
    u = t ∧ s = slot ∨ u ≠ t ∧ k.registry.get? u = some s := by
  rw [h.get?] at hu
  split at hu
  · rename_i htu
    exact .inl ⟨htu.symm, (Option.some.inj hu).symm⟩
  · rename_i hne
    exact .inr ⟨Ne.symm hne, hu⟩

theorem Spawned.spares (h : Spawned t slot k k') :
    Spares (some t) uses asleep k uses asleep k' := by
  refine ⟨fun u hu => ?_, fun u _ => by rw [h.channel], fun _ _ => rfl, fun u hu => ?_,
    fun u r _ _ hp => ?_, h.later.ready, h.number ▸ Nat.le_succ _⟩
  · refine (congrFun h.waiting u).trans ?_
    exact Function.update_of_ne (fun e => hu (congrArg some e.symm)) _ _
  · rw [h.get?, if_neg fun e => hu (congrArg some e)]
  · rcases hp with hp | ⟨v, s, hv, hj⟩
    · exact .inl hp
    · refine .inr ⟨v, s, ?_, hj⟩
      rw [h.get?, if_neg, hv]
      rintro rfl
      rw [h.absent] at hv
      cases hv

/-- Owners of queues that were there before stay. -/
theorem Spawned.owner_of_ne (h : Spawned t slot k k') {r : QueueId} {g : ThreadId}
    (hr : r ≠ slot.joinQueue) (hready : r ≠ k.readyQueue) (ho : k.table.links.owner r = some g) :
    k'.table.links.owner r = some g :=
  h.owner hready ((Function.update_of_ne hr _ _).trans ho)

theorem Spawned.layout (h : Spawned t slot k k') (hl : Layout uses k) : Layout uses k' := by
  obtain ⟨-, hqu, hqj⟩ := hl.fresh_ne h.queue
  have hkind : ∀ {r b}, k.table.links.transfer r = some b →
      k'.table.links.transfer r = some b := by
    intro r b hb
    rw [h.transfer, Function.update_of_ne, hb]
    rintro rfl
    rw [h.queue] at hb
    cases hb
  constructor
  · rw [h.later.ready]
    exact hkind hl.ready_kind
  · rw [h.later.ready]
    exact hl.ready_apart
  · exact fun u hu => hkind (hl.use_kind u hu)
  · exact hl.use_nodup
  · intro u s hu
    rcases h.back hu with ⟨-, rfl⟩ | ⟨-, hu⟩
    · rw [h.transfer, Function.update_self]
    · exact hkind (hl.join_kind hu)
  · intro u s hu v hv
    rcases h.back hu with ⟨-, rfl⟩ | ⟨-, hu⟩
    · exact hqu v hv
    · exact hl.join_apart hu v hv
  · intro u v s s' hu hv hj
    rcases h.back hu with ⟨rfl, rfl⟩ | ⟨-, hu₀⟩ <;>
      rcases h.back hv with ⟨rfl, rfl⟩ | ⟨-, hv₀⟩
    · rfl
    · exact absurd hj.symm (hqj v s' hv₀)
    · exact absurd hj (hqj u s hu₀)
    · exact hl.join_inj hu₀ hv₀ hj

end Spawned

theorem Placed.spawn {name : String} {code : List Instr} {t : ThreadId}
    (h : Placed uses asleep run k) (hplain : Instr.plainList code = true)
    (hr : k.spawn name (.start code) = .ok (t, k')) :
    Placed uses asleep run k' ∧ Later k k' := by
  obtain ⟨q, hsp⟩ := spawn_ok h.1.sound hr
  obtain ⟨hqr, hqu, hqj⟩ := h.1.layout.fresh_ne hsp.queue
  have hnow : Nowhere asleep k t := h.1.absent hsp.absent
  refine ⟨h.of_spares (h.1.of_spares hsp.spares (fun _ _ hx => hx) hsp.sound
    (hsp.layout h.1.layout) ?_ ?_ ?_) hsp.spares hsp.current ?_ ?_, hsp.later⟩
  · intro u hu g hg
    obtain ⟨hlt, ho⟩ := h.1.holder u hu g hg
    rw [hsp.number]
    refine ⟨Nat.lt_succ_of_lt hlt, fun hal => ?_⟩
    obtain ⟨s, hs⟩ := Option.isSome_iff_exists.1 hal
    rcases hsp.back hs with ⟨rfl, -⟩ | ⟨-, hs⟩
    · rw [hsp.thread] at hlt
      exact absurd hlt (Nat.lt_irrefl _)
    · exact hsp.owner_of_ne (hqu u hu) (h.1.layout.ready_apart u hu) (ho (by rw [hs]; rfl))
  · intro u s hx hu
    rcases hsp.back hu with ⟨rfl, rfl⟩ | ⟨-, hu⟩
    · exact hsp.owner hqr (Function.update_self _ _ _)
    · exact hsp.owner_of_ne (hqj u s hu) (h.1.layout.join_ne_ready hu) (h.1.join_owner hx hu)
  · rintro u ⟨⟩
    refine ⟨fun hn => ?_, fun s hs => ?_⟩
    · rw [hsp.self] at hn
      cases hn
    · rw [hsp.self] at hs
      cases hs
      refine ⟨?_, rfl, fun _ => .ready ?_ ?_ hnow.asleep ⟨_, rfl, hplain, .inl rfl⟩⟩
      · rw [hsp.number, hsp.thread]
        exact Nat.lt_succ_self _
      · rw [hsp.later.ready]
        exact (congrFun hsp.waiting t).trans (Function.update_self _ _ _)
      · rw [hsp.channel]
        exact hnow.channel
  · rintro u p rfl hc
    obtain ⟨s, hu, -⟩ := h.2.slot
    rw [← Option.some.inj hc, hsp.absent] at hu
    cases hu
  · intro u p s _ hu ho
    exact hsp.owner_of_ne (hqj u s hu) (h.1.layout.join_ne_ready hu) ho

/-! ## Finished threads -/

/-- The ready queue is revoked from its owner only. -/
theorem releaseReady_cases {t : ThreadId} (h : k.releaseReady t = .ok k') :
    k.table.owner k.readyQueue = .ok (some t) ∧
        k.withTable (k.table.releaseOwnership k.readyQueue) = .ok k' ∨ k' = k := by
  unfold releaseReady at h
  split at h
  · cases h
  · rename_i o ho
    split at h
    · rename_i ht
      exact .inl ⟨ht ▸ ho, h⟩
    · exact .inr (Except.ok.inj h).symm

theorem releaseReady_ok {t : ThreadId} (hs : k.table.Sound) (h : k.releaseReady t = .ok k') :
    ∃ after tb, k' = { k with table := tb } ∧ k.table.Effect after tb ∧
      after.waiting = k.table.links.waiting ∧ after.transfer = k.table.links.transfer ∧
      ∀ r, r ≠ k.readyQueue → after.owner r = k.table.links.owner r := by
  rcases releaseReady_cases h with ⟨-, h⟩ | rfl
  · obtain ⟨tb, htb, rfl⟩ := withTable_ok h
    obtain ⟨-, he⟩ := Table.releaseOwnership_effect hs htb
    exact ⟨_, tb, rfl, he, rfl, rfl, fun r hr => Function.update_of_ne hr _ _⟩
  · exact ⟨_, k'.table, rfl, .unchanged hs, rfl, rfl, fun _ _ => rfl⟩

/-- A retirement hands the join queue over, and then takes it and the thread away. -/
theorem retire_ok {t : ThreadId} (h : k.retire t = .ok k') :
    ∃ slot k₁ k₂ k₃ k₄, k.registry.get? t = some slot ∧
      k.enter.handOverAll slot.joinQueue = .ok k₁ ∧ k₁.destroyQueue slot.joinQueue = .ok k₂ ∧
      k₂.releaseReady t = .ok k₃ ∧ k₃.withTable (k₃.table.removeThread t) = .ok k₄ ∧
      k' = restore k.level
        { k₄ with registry := { k₄.registry with slots := k₄.registry.slots.erase t } } := by
  unfold Kernel.retire at h
  split at h
  · cases h
  · rename_i slot hslot
    split at h
    · cases h
    · rename_i k₁ h₁
      split at h
      · cases h
      · rename_i k₂ h₂
        split at h
        · cases h
        · rename_i k₃ h₃
          split at h
          · cases h
          · rename_i k₄ h₄
            cases h
            exact ⟨slot, k₁, k₂, k₃, k₄, hslot, h₁, h₂, h₃, h₄, rfl⟩

/-- The links after the join queue of `t` and then `t` itself went away. -/
structure Departed (t : ThreadId) (q : QueueId) (k k' : Kernel Activation) : Prop where
  sound : k'.table.Sound
  later : Later k k'
  registry : k'.registry = { k.registry with slots := k.registry.slots.erase t }
  waiting : ∀ u, k.table.waitingQueue u ≠ some q → u ≠ t →
    k'.table.waitingQueue u = k.table.waitingQueue u
  gone : k'.table.waitingQueue t = none
  destroyed : k'.table.links.transfer q = none
  transfer : ∀ r, r ≠ q → k'.table.links.transfer r = k.table.links.transfer r
  owner : ∀ r g, r ≠ q → r ≠ k.readyQueue → g ≠ t → k.table.links.owner r = some g →
    k'.table.links.owner r = some g

theorem departed {t : ThreadId} {q : QueueId} {k₁ k₂ k₃ : Kernel Activation} (level : Level)
    (h : k.table.Sound) (h₁ : k.destroyQueue q = .ok k₁) (h₂ : k₁.releaseReady t = .ok k₂)
    (h₃ : k₂.withTable (k₂.table.removeThread t) = .ok k₃) :
    Departed t q k (restore level
      { k₃ with registry := { k₃.registry with slots := k₃.registry.slots.erase t } }) := by
  obtain ⟨tb₁, htb₁, rfl⟩ := withTable_ok h₁
  have e₁ := Table.destroyQueue_effect h htb₁
  have hsound₁ : ({ k with table := tb₁ } : Kernel Activation).table.Sound := e₁.sound
  obtain ⟨after, tb₂, rfl, e₂, hw₂, ht₂, ho₂⟩ := releaseReady_ok hsound₁ h₂
  obtain ⟨tb₃, htb₃, rfl⟩ := withTable_ok h₃
  have e₃ := Table.removeThread_effect e₂.sound htb₃
  have e₂ : tb₁.Effect after tb₂ := e₂
  have htransfer : ∀ r, tb₃.links.transfer r = Function.update k.table.links.transfer q none r := by
    intro r
    rw [e₃.links]
    show tb₂.links.transfer r = _
    rw [e₂.links, ht₂]
    show tb₁.links.transfer r = _
    rw [e₁.links]
  refine ⟨e₃.sound, ⟨(e₁.precedes.trans e₂.precedes).trans e₃.precedes, rfl⟩, rfl,
    fun u hu hut => ?_, ?_, (htransfer q).trans (Function.update_self _ _ _),
    fun r hr => (htransfer r).trans (Function.update_of_ne hr _ _),
    fun r g hr hready hg ho => ?_⟩
  · show tb₃.links.waiting u = _
    rw [e₃.links]
    show Function.update tb₂.links.waiting t none u = _
    rw [Function.update_of_ne hut, e₂.links, hw₂]
    show tb₁.links.waiting u = _
    rw [e₁.links]
    exact if_neg hu
  · show tb₃.links.waiting t = none
    rw [e₃.links]
    exact Function.update_self _ _ _
  · show tb₃.links.owner r = _
    have ho₁ : tb₂.links.owner r = some g := by
      rw [e₂.links, ho₂ r hready]
      show tb₁.links.owner r = _
      rw [e₁.links]
      exact (Function.update_of_ne hr _ _).trans ho
    rw [e₃.links]
    show (if tb₂.links.owner r = some t then none else tb₂.links.owner r) = _
    rw [ho₁, if_neg fun he => hg (Option.some.inj he)]

section Departed

variable {t : ThreadId} {q : QueueId} {slot : Slot Activation}

theorem Departed.get? (h : Departed t q k k') (u : ThreadId) :
    k'.registry.get? u = if t = u then none else k.registry.get? u := by
  rw [h.registry]
  exact Directory.get?_erase _ _ _

theorem Departed.back (h : Departed t q k k') {u : ThreadId} {s : Slot Activation}
    (hu : k'.registry.get? u = some s) : t ≠ u ∧ k.registry.get? u = some s := by
  rw [h.get?] at hu
  split at hu
  · cases hu
  · rename_i hne
    exact ⟨hne, hu⟩

/-- Nobody else named the join queue that went away. -/
theorem Departed.ne_of_primitive (h : Departed t q k k') (hl : Layout uses k)
    (hslot : k.registry.get? t = some slot) (hj : slot.joinQueue = q) {r : QueueId}
    (hr : Primitive uses k' r) : r ≠ q := by
  rcases hr with ⟨u, hu, rfl⟩ | ⟨u, s, hs, rfl⟩
  · rw [← hj]
    exact hl.join_apart hslot u hu
  · obtain ⟨hne, hs⟩ := h.back hs
    exact fun he => hne (hl.join_inj hslot hs (hj.trans he.symm))

theorem Departed.layout (h : Departed t q k k') (hl : Layout uses k)
    (hslot : k.registry.get? t = some slot) (hj : slot.joinQueue = q) : Layout uses k' := by
  refine hl.restrict ?_ h.later.ready rfl fun hs => ⟨_, (h.back hs).2, rfl⟩
  rintro r (rfl | hr)
  · refine h.transfer _ ?_
    rw [← hj]
    exact (hl.join_ne_ready hslot).symm
  · exact h.transfer _ (h.ne_of_primitive hl hslot hj hr)

theorem Departed.spares (h : Departed t q k k') (hslot : k.registry.get? t = some slot)
    (hj : slot.joinQueue = q) (hempty : ∀ u, k.table.waitingQueue u ≠ some q) :
    Spares (some t) uses asleep k uses asleep k' := by
  refine ⟨fun u hu => ?_, fun u _ => by rw [h.registry], fun _ _ => rfl, fun u hu => ?_,
    fun u r _ hw hp => ?_, h.later.ready, by rw [h.registry]⟩
  · exact h.waiting u (hempty u) fun e => hu (congrArg some e.symm)
  · rw [h.get?, if_neg fun e => hu (congrArg some e)]
  · rcases hp with hp | ⟨v, s, hv, hr⟩
    · exact .inl hp
    · refine .inr ⟨v, s, ?_, hr⟩
      rw [h.get?, if_neg, hv]
      rintro rfl
      rw [hslot] at hv
      cases hv
      exact hempty u (by rw [hw, ← hr, hj])

/-- A thread goes without a trace once nobody waits for it. -/
theorem Situated.depart (h : Situated uses asleep (some t) k) (hd : Departed t q k k')
    (hslot : ∃ slot, k.registry.get? t = some slot ∧ slot.joinQueue = q) (hnow : Nowhere asleep k t)
    (hempty : ∀ u, k.table.waitingQueue u ≠ some q) : Situated uses asleep none k' := by
  obtain ⟨slot, hslot, hj⟩ := hslot
  have hne : ∀ {r}, Primitive uses k' r → r ≠ q := hd.ne_of_primitive h.layout hslot hj
  refine h.of_spares (hd.spares hslot hj hempty) (fun _ hne _ => hne) hd.sound
    (hd.layout h.layout hslot hj) ?_ ?_ ?_
  · intro u hu g hg
    obtain ⟨hlt, ho⟩ := h.holder u hu g hg
    refine ⟨by rw [hd.registry]; exact hlt, fun hal => ?_⟩
    obtain ⟨s, hs⟩ := Option.isSome_iff_exists.1 hal
    obtain ⟨htg, hs⟩ := hd.back hs
    exact hd.owner _ g (hne (.inl ⟨u, hu, rfl⟩)) (h.layout.ready_apart u hu) (Ne.symm htg)
      (ho (by rw [hs]; rfl))
  · intro u s _ hs
    obtain ⟨htu, hs₀⟩ := hd.back hs
    exact hd.owner _ u (hne (.inr ⟨u, s, hs, rfl⟩)) (h.layout.join_ne_ready hs₀) (Ne.symm htu)
      (h.join_owner (fun he => htu (Option.some.inj he)) hs₀)
  · rintro u ⟨⟩
    refine ⟨fun _ => ⟨hd.gone, ?_, hnow.asleep⟩, fun s hs => absurd rfl (hd.back hs).1⟩
    rw [hd.registry]
    exact hnow.channel

end Departed

/-- Those that joined a finished thread are announced, and it is nowhere. -/
theorem Situated.retire {t : ThreadId} (h : Situated uses asleep (some t) k)
    (hcur : k.registry.current = none) (hnow : Nowhere asleep k t)
    (hr : k.retire t = .ok k') : Placed uses asleep none k' ∧ Later k k' := by
  obtain ⟨slot, k₁, k₂, k₃, k₄, hslot, h₁, h₂, h₃, h₄, rfl⟩ := retire_ok hr
  have henter : Situated uses asleep (some t) k.enter := by
    exact h.congr rfl rfl rfl rfl rfl
  have hq : Servable uses (some t) k.enter slot.joinQueue :=
    .inr ⟨t, slot, rfl, hslot, rfl⟩
  have hem := henter.handOverAll hq
    (fun u hu he => absurd he (h.layout.join_apart hslot u hu))
    (by rintro u ⟨⟩; show k.table.waitingQueue t ≠ _; rw [hnow.waiting]; simp) h₁
  have hl := hem.leaves t rfl
  have hd := departed k.level hem.situated.sound h₂ h₃ h₄
  have hsit := hem.situated.depart hd ⟨slot, hl.slot.trans hslot, rfl⟩
    ⟨hl.waiting.trans hnow.waiting, hl.channel.trans hnow.channel, hnow.asleep⟩ hem.empty
  refine ⟨⟨hsit, ?_⟩, ?_⟩
  · rw [hd.registry]
    exact hem.current.trans hcur
  · have hl₁ : Later k k₁ := ⟨hem.later.table, hem.later.ready⟩
    exact hl₁.trans hd.later

end ThreadKernel.Kernel
