import ThreadKernel.Proofs.Kernel.Situated

/-!
# ThreadKernel.Proofs.Kernel.TableStep

Calls of the kernel that leave every thread where it is, or all but one.

* `atomically_ok`, `withTable_ok`, `markReady_ok`, … — what a call that returns has done.
* `GoesRound`, `Admits` — what the loops of the kernel do, turn by turn.
* `Later`             — time passes: no arrival number is given twice.
* `Reassigned`        — a queue changes hands, and the uses of queues with it.
* `Placed.table_step` — owners and values change, and no thread moves.
* `Placed.pass_on`    — a queue that nobody waits on gets another owner.
* `Situated.moves`    — one thread moves, and all others stay where they are.
-/

namespace ThreadKernel

namespace Kernel

/-! ## What a call has done -/

section Calls

variable {κ α : Type} {k k' : Kernel κ}

theorem atomically_ok {operation : String} {f : Kernel κ → Except Fault α} {a : α}
    (h : k.atomically operation f = .ok a) : f k = .ok a := by
  unfold atomically at h
  split at h
  · cases h
  · exact h

theorem withTable_ok {r : Except Fault Table} (h : k.withTable r = .ok k') :
    ∃ tb, r = .ok tb ∧ k' = { k with table := tb } := by
  unfold withTable at h
  split at h
  · cases h
  · rename_i tb
    cases h
    exact ⟨tb, rfl, rfl⟩

theorem waitForAccess_ok {q : QueueId} {t : ThreadId} (h : k.waitForAccess q t = .ok k') :
    ∃ tb, k.table.waitForAccess q t = .ok tb ∧ k' = { k with table := tb } :=
  withTable_ok (atomically_ok h)

theorem acquire_ok {q : QueueId} {t : ThreadId} (h : k.acquire q t = .ok k') :
    ∃ tb, k.table.acquire q t = .ok tb ∧ k' = { k with table := tb } :=
  withTable_ok (atomically_ok h)

theorem nextThread_ok {q : QueueId} {served : Option ThreadId}
    (h : k.nextThread q = .ok (served, k')) :
    ∃ tb, k.table.nextThread q = .ok (served, tb) ∧ k' = { k with table := tb } := by
  have h := atomically_ok h
  split at h
  · cases h
  · rename_i t tb hn
    cases h
    exact ⟨tb, hn, rfl⟩

theorem markReady_ok {t : ThreadId} (h : k.markReady t = .ok k') :
    k.registry.current ≠ some t ∧ ∃ slot, k.registry.get? t = some slot ∧
      k' = { k with registry := (k.registry.setSlot t { slot with signal := slot.signal.wake.2
        }).postOption slot.signal.wake.1 } := by
  have h := atomically_ok h
  split at h
  · cases h
  · rename_i hcur
    refine ⟨hcur, ?_⟩
    split at h
    · cases h
    · rename_i slot hs
      cases h
      exact ⟨slot, hs, rfl⟩

/-- The queue goes from one waiter to the next, each of which becomes ready, until nobody waits or
there are no turns left. -/
inductive GoesRound (q : QueueId) : Kernel κ → Kernel κ → Prop where
  | stops {k : Kernel κ} : GoesRound q k k
  | nobody {k k' : Kernel κ} (next : k.nextThread q = .ok (none, k')) : GoesRound q k k'
  | turn {k k₁ k₂ k' : Kernel κ} {t : ThreadId} (next : k.nextThread q = .ok (some t, k₁))
      (ready : k₁.markReady t = .ok k₂) (rest : GoesRound q k₂ k') : GoesRound q k k'

theorem handOver_ok {q : QueueId} (n : Nat) {k : Kernel κ} (h : k.handOver q n = .ok k') :
    GoesRound q k k' := by
  induction n generalizing k with
  | zero =>
    cases h
    exact .stops
  | succ n ih =>
    rw [handOver] at h
    split at h
    · cases h
    · rename_i hnext
      cases h
      exact .nobody hnext
    · rename_i hnext
      split at h
      · cases h
      · rename_i hready
        exact .turn hnext hready (ih h)

/-- Announced threads come to wait in the ready queue one after the other, except those that are
gone or wait there already. -/
inductive Admits : List ThreadId → Kernel κ → Kernel κ → Prop where
  | nobody {k : Kernel κ} : Admits [] k k
  | gone {t : ThreadId} {l : List ThreadId} {k k' : Kernel κ}
      (absent : k.registry.get? t = none) (rest : Admits l k k') : Admits (t :: l) k k'
  | waits {t : ThreadId} {l : List ThreadId} {k k' : Kernel κ}
      (ready : k.table.waitingQueue t = some k.readyQueue) (rest : Admits l k k') :
      Admits (t :: l) k k'
  | comes {t : ThreadId} {l : List ThreadId} {k k₁ k' : Kernel κ}
      (alive : (k.registry.get? t).isSome)
      (wait : k.withTable (k.table.waitForAccess k.readyQueue t) = .ok k₁)
      (rest : Admits l k₁ k') : Admits (t :: l) k k'

theorem admitEach_ok {l : List ThreadId} {k : Kernel κ} (h : admitEach l k = .ok k') :
    Admits l k k' := by
  induction l generalizing k with
  | nil =>
    cases h
    exact .nobody
  | cons t l ih =>
    rw [admitEach, Registry.contains_eq_isSome] at h
    split at h
    · rename_i habsent
      exact .gone (by simpa using habsent) (ih h)
    · rename_i halive
      split at h
      · rename_i hready
        exact .waits hready (ih h)
      · split at h
        · cases h
        · rename_i hwait
          exact .comes (Option.isSome_iff_ne_none.2 (by simpa using halive)) hwait (ih h)

end Calls

/-- Time passes from `k` to `k'`. -/
structure Later {κ : Type} (k k' : Kernel κ) : Prop where
  table : k.table.Precedes k'.table
  ready : k'.readyQueue = k.readyQueue

theorem Later.refl {κ : Type} (k : Kernel κ) : Later k k := ⟨.refl _, rfl⟩

theorem Later.trans {κ : Type} {k₁ k₂ k₃ : Kernel κ} (h : Later k₁ k₂) (h' : Later k₂ k₃) :
    Later k₁ k₃ := ⟨h.table.trans h'.table, h'.ready.trans h.ready⟩

/-! ## Steps of the table -/

/-- The uses of the queue `q` name `o` or nobody, and the others are as before. -/
structure Reassigned (q : QueueId) (o : Option ThreadId) (uses uses' : List Use) : Prop where
  kinds : uses'.map (fun u => (u.queue, u.transfer)) = uses.map fun u => (u.queue, u.transfer)
  other : ∀ u ∈ uses', u.queue ≠ q → u ∈ uses
  self : ∀ u ∈ uses', u.queue = q → u.holder = none ∨ u.holder = o

theorem Reassigned.primitive {q r : QueueId} {o : Option ThreadId} {uses uses' : List Use}
    {k k' : Kernel Activation} (h : Reassigned q o uses uses') (hq : Primitive uses k r)
    (hs : ∀ t slot, k.registry.get? t = some slot →
      ∃ slot', k'.registry.get? t = some slot' ∧ slot'.joinQueue = slot.joinQueue) :
    Primitive uses' k' r := by
  rcases hq with ⟨u, hu, rfl⟩ | ⟨t, slot, ht, rfl⟩
  · have hm : (u.queue, u.transfer) ∈ uses'.map fun u => (u.queue, u.transfer) := by
      rw [h.kinds]
      exact List.mem_map.2 ⟨u, hu, rfl⟩
    obtain ⟨v, hv, he⟩ := List.mem_map.1 hm
    exact .inl ⟨v, hv, (Prod.mk.inj he).1⟩
  · obtain ⟨slot', ht', hj⟩ := hs t slot ht
    exact .inr ⟨t, slot', ht', hj⟩

section TableStep

variable {uses uses' : List Use} {asleep : ThreadId → Nat} {x : Option ThreadId}
  {k k' : Kernel Activation} {q : QueueId} {o : Option ThreadId} {tb : Table} {after : Table.Links}

/-- The table changes and no thread moves. -/
theorem Situated.table_step (h : Situated uses asleep x k) (he : k.table.Effect after tb)
    (hw : after.waiting = k.table.links.waiting) (ht : after.transfer = k.table.links.transfer)
    (hu : Reassigned q o uses uses')
    (hholder : ∀ u ∈ uses', ∀ g, u.holder = some g → g.number < k.registry.nextNumber ∧
      ((k.registry.get? g).isSome → after.owner u.queue = some g))
    (howner : ∀ {t slot}, x ≠ some t → k.registry.get? t = some slot →
      after.owner slot.joinQueue = k.table.links.owner slot.joinQueue) :
    Situated uses' asleep x { k with table := tb } ∧
      Spares none uses asleep k uses' asleep { k with table := tb } := by
  have hs : Spares none uses asleep k uses' asleep { k with table := tb } := by
    refine ⟨fun u _ => ?_, fun _ _ => rfl, fun _ _ => rfl, fun _ _ => rfl, fun u r _ _ hr => ?_,
      rfl, Nat.le_refl _⟩
    · have := congrFun (congrArg Table.Links.waiting he.links) u
      rw [hw] at this
      exact this
    · exact hu.primitive hr fun t slot ht => ⟨slot, ht, rfl⟩
  refine ⟨h.of_spares hs (fun _ _ hx => hx) he.sound ?_ ?_ ?_ (by rintro u ⟨⟩), hs⟩
  · refine h.layout.congr ?_ rfl hu.kinds fun {t slot'} hs' => ⟨slot', hs', rfl⟩
    show tb.links.transfer = _
    rw [he.links, ht]
  · intro u hu' g hg
    show g.number < _ ∧ (_ → tb.links.owner u.queue = some g)
    rw [he.links]
    exact hholder u hu' g hg
  · intro t slot hx hslot
    show tb.links.owner slot.joinQueue = some t
    rw [he.links, howner hx hslot]
    exact h.join_owner hx hslot

/-- After a queue changed hands, holders still own theirs. -/
theorem Reassigned.holder {n : Nat} {owner owner' : QueueId → Option ThreadId}
    {alive : ThreadId → Prop} (h : Reassigned q o uses uses')
    (hold : ∀ u ∈ uses, ∀ g, u.holder = some g → g.number < n ∧
      (alive g → owner u.queue = some g))
    (hself : owner' q = o) (hother : ∀ r, r ≠ q → owner' r = owner r)
    (ho : ∀ g, o = some g → g.number < n) :
    ∀ u ∈ uses', ∀ g, u.holder = some g → g.number < n ∧
      (alive g → owner' u.queue = some g) := by
  intro u hu g hg
  by_cases hq : u.queue = q
  · rcases h.self u hu hq with hn | heq
    · rw [hn] at hg
      cases hg
    · rw [heq] at hg
      rw [hq, hself]
      exact ⟨ho g hg, fun _ => hg⟩
  · rw [hother _ hq]
    exact hold u (h.other u hu hq) g hg

theorem Reassigned.refl (hq : ∀ u ∈ uses, u.queue = q → u.holder = none) :
    Reassigned q o uses uses :=
  ⟨rfl, fun _ hu _ => hu, fun u hu he => .inl (hq u hu he)⟩

/-- No lock or condition uses the ready queue. -/
theorem Layout.unassigned (h : Layout uses k) : Reassigned k.readyQueue none uses uses :=
  .refl fun u hu hq => absurd hq (h.ready_apart u hu)

variable {run : Option (ThreadId × Posture)}

/-- Every thread owns its join queue, the running one included. -/
theorem Placed.join_owner (h : Placed uses asleep run k) {t : ThreadId} {slot : Slot Activation}
    (hs : k.registry.get? t = some slot) : k.table.links.owner slot.joinQueue = some t := by
  by_cases hx : run.map Prod.fst = some t
  · obtain ⟨⟨u, p⟩, rfl, rfl⟩ := Option.map_eq_some_iff.1 hx
    obtain ⟨slot', hs', -, hown, -⟩ := h.2.slot
    rw [hs] at hs'
    cases hs'
    exact hown
  · exact h.1.join_owner hx hs

/-- A step that spares the running thread keeps it where it is. -/
theorem Placed.of_spares {e : Option ThreadId} {asleep' : ThreadId → Nat}
    (h : Placed uses asleep run k) (h' : Situated uses' asleep' (run.map Prod.fst) k')
    (hs : Spares e uses asleep k uses' asleep' k') (hcur : k'.registry.current = k.registry.current)
    (ht : ∀ t p, run = some (t, p) → e ≠ some t)
    (howner : ∀ t p slot, run = some (t, p) → k.registry.get? t = some slot →
      k.table.links.owner slot.joinQueue = some t →
        k'.table.links.owner slot.joinQueue = some t) : Placed uses' asleep' run k' := by
  refine ⟨h', ?_⟩
  have hr := h.2
  cases run with
  | none => exact hcur.trans hr
  | some run =>
    obtain ⟨t, p⟩ := run
    exact Running.of_spares hr hs (ht t p rfl) hcur fun slot => howner t p slot rfl

theorem Placed.table_step (h : Placed uses asleep run k) (he : k.table.Effect after tb)
    (hw : after.waiting = k.table.links.waiting) (ht : after.transfer = k.table.links.transfer)
    (hu : Reassigned q o uses uses')
    (hholder : ∀ u ∈ uses', ∀ g, u.holder = some g → g.number < k.registry.nextNumber ∧
      ((k.registry.get? g).isSome → after.owner u.queue = some g))
    (howner : ∀ {t slot}, k.registry.get? t = some slot →
      after.owner slot.joinQueue = k.table.links.owner slot.joinQueue) :
    Placed uses' asleep run { k with table := tb } := by
  obtain ⟨h', hs⟩ := h.1.table_step he hw ht hu hholder fun _ => howner
  refine h.of_spares h' hs rfl (fun _ _ _ hc => by cases hc) fun t p slot _ hslot hown => ?_
  show tb.links.owner slot.joinQueue = some t
  rw [he.links, howner hslot]
  exact hown

theorem Spares.of_eq (ht : k'.table = k.table) (hr : k'.registry.slots = k.registry.slots)
    (hc : k'.registry.channel = k.registry.channel) (hq : k'.readyQueue = k.readyQueue)
    (hn : k'.registry.nextNumber = k.registry.nextNumber) :
    Spares none uses asleep k uses asleep k' := by
  have hget : ∀ u, k'.registry.get? u = k.registry.get? u := fun u => by
    rw [Registry.get?, hr, Registry.get?]
  refine ⟨fun u _ => by rw [ht], fun u _ => by rw [hc], fun _ _ => rfl, fun u _ => hget u,
    fun u q _ _ hp => ?_, hq, hn.ge⟩
  rcases hp with hp | ⟨t, slot, hs, hj⟩
  · exact .inl hp
  · exact .inr ⟨t, slot, (hget t).trans hs, hj⟩

/-- Levels, clocks and the running thread do not matter for those that do not run. -/
theorem Situated.congr (h : Situated uses asleep x k) (ht : k'.table = k.table)
    (hr : k'.registry.slots = k.registry.slots) (hc : k'.registry.channel = k.registry.channel)
    (hq : k'.readyQueue = k.readyQueue) (hn : k'.registry.nextNumber = k.registry.nextNumber) :
    Situated uses asleep x k' := by
  have hget : ∀ u, k'.registry.get? u = k.registry.get? u := fun u => by
    rw [Registry.get?, hr, Registry.get?]
  refine h.of_spares (.of_eq ht hr hc hq hn) (fun _ _ hx => hx) (ht ▸ h.sound) ?_ ?_ ?_
    (by rintro u ⟨⟩)
  · refine h.layout.congr (by rw [ht]) hq rfl fun {t slot} hs => ⟨slot, ?_, rfl⟩
    rw [← hget]
    exact hs
  · intro u hu g hg
    rw [ht, hget, hn]
    exact h.holder u hu g hg
  · intro u slot hx hslot
    rw [hget] at hslot
    rw [ht]
    exact h.join_owner hx hslot

/-- Levels and clocks do not matter. -/
theorem Placed.congr (h : Placed uses asleep run k) (ht : k'.table = k.table)
    (hr : k'.registry = k.registry) (hq : k'.readyQueue = k.readyQueue) :
    Placed uses asleep run k' := by
  have hs : Spares none uses asleep k uses asleep k' :=
    .of_eq ht (by rw [hr]) (by rw [hr]) hq (by rw [hr])
  refine h.of_spares (h.1.congr ht (by rw [hr]) (by rw [hr]) hq (by rw [hr])) hs (by rw [hr])
    (fun _ _ _ hc => by cases hc) fun t p slot _ _ hown => by rw [ht]; exact hown

theorem Placed.setPriority {t : ThreadId} {p : Nat} (h : Placed uses asleep run k)
    (hr : k.withTable (k.table.setPriority t p) = .ok k') :
    Placed uses asleep run k' ∧ Later k k' := by
  obtain ⟨tb, htb, rfl⟩ := withTable_ok hr
  obtain ⟨-, he⟩ := Table.setPriority_effect h.1.sound htb
  exact ⟨h.table_step he rfl rfl h.1.layout.unassigned h.1.holder fun _ => rfl, he.precedes, rfl⟩

/-- A queue that nobody waits on passes to `o`. -/
theorem Placed.pass_on {o : Option ThreadId} (h : Placed uses asleep run k)
    (he : k.table.Effect after tb) (hw : after.waiting = k.table.links.waiting)
    (ht : after.transfer = k.table.links.transfer)
    (ho : after.owner = Function.update k.table.links.owner q o)
    (hu : Reassigned q o uses uses') (hq : ∀ t slot, k.registry.get? t = some slot →
      slot.joinQueue ≠ q) (hnum : ∀ g, o = some g → g.number < k.registry.nextNumber) :
    Placed uses' asleep run { k with table := tb } := by
  refine h.table_step he hw ht hu ?_ fun {t slot} hs => ?_
  · refine hu.holder h.1.holder ?_ (fun r hr => ?_) hnum
    · rw [ho, Function.update_self]
    · rw [ho, Function.update_of_ne hr]
  · rw [ho, Function.update_of_ne (hq t slot hs)]

end TableStep

/-! ## Steps of one thread -/

/-- From `k` to `k'` only `t` moves. Its slot changes, but neither its join queue nor its waker. -/
structure Moves (t : ThreadId) (slot slot' : Slot Activation) (k k' : Kernel Activation) :
    Prop where
  sound : k'.table.Sound
  before : k.registry.get? t = some slot
  get? : ∀ u, k'.registry.get? u = if t = u then some slot' else k.registry.get? u
  joinQueue : slot'.joinQueue = slot.joinQueue
  waker : slot'.waker = slot.waker
  waiting : ∀ u, u ≠ t → k'.table.waitingQueue u = k.table.waitingQueue u
  transfer : k'.table.links.transfer = k.table.links.transfer
  channel : ∀ u, u ≠ t → k'.registry.channel.count u = k.registry.channel.count u
  ready : k'.readyQueue = k.readyQueue
  number : k'.registry.nextNumber = k.registry.nextNumber

section Moves

variable {uses uses' : List Use} {asleep asleep' : ThreadId → Nat} {x x' : Option ThreadId}
  {k k' : Kernel Activation} {q : QueueId} {o : Option ThreadId} {t : ThreadId}
  {slot slot' : Slot Activation}

/-- A slot that does not change. -/
theorem get?_same (h : k.registry.get? t = some slot) (u : ThreadId) :
    k.registry.get? u = if t = u then some slot else k.registry.get? u := by
  split
  · rename_i htu
    exact htu ▸ h
  · rfl

theorem Moves.self (h : Moves t slot slot' k k') : k'.registry.get? t = some slot' := by
  rw [h.get?, if_pos rfl]

theorem Moves.back (h : Moves t slot slot' k k') {u : ThreadId} {s : Slot Activation}
    (hu : k'.registry.get? u = some s) :
    ∃ s₀, k.registry.get? u = some s₀ ∧ s.joinQueue = s₀.joinQueue ∧ s.waker = s₀.waker := by
  rw [h.get?] at hu
  split at hu
  · rename_i htu
    cases hu
    exact ⟨slot, htu ▸ h.before, h.joinQueue, h.waker⟩
  · exact ⟨s, hu, rfl, rfl⟩

theorem Moves.forth (h : Moves t slot slot' k k') {u : ThreadId} {s : Slot Activation}
    (hu : k.registry.get? u = some s) :
    ∃ s', k'.registry.get? u = some s' ∧ s'.joinQueue = s.joinQueue := by
  by_cases htu : t = u
  · subst htu
    rw [h.before] at hu
    cases hu
    exact ⟨slot', h.self, h.joinQueue⟩
  · exact ⟨s, by rw [h.get?, if_neg htu]; exact hu, rfl⟩

theorem Moves.spares (h : Moves t slot slot' k k') (hu : Reassigned q o uses uses')
    (ha : ∀ u, u ≠ t → asleep' u = asleep u) :
    Spares (some t) uses asleep k uses' asleep' k' := by
  have hne : ∀ {u}, some t ≠ some u → u ≠ t := fun hn e => hn (congrArg some e.symm)
  refine ⟨fun u hn => h.waiting u (hne hn), fun u hn => h.channel u (hne hn),
    fun u hn => ha u (hne hn), fun u hn => ?_,
    fun u r _ _ hp => hu.primitive hp fun v s hv => h.forth hv, h.ready, h.number.ge⟩
  rw [h.get?, if_neg fun e => hn (congrArg some e)]

/-- A kernel stays situated if the thread that moves stands after it, or is excepted then. -/
theorem Situated.moves (h : Situated uses asleep x k) (hm : Moves t slot slot' k k')
    (hu : Reassigned q o uses uses') (ha : ∀ u, u ≠ t → asleep' u = asleep u)
    (hx : ∀ u, u ≠ t → x' ≠ some u → x ≠ some u)
    (hholder : ∀ u ∈ uses', ∀ g, u.holder = some g → g.number < k.registry.nextNumber ∧
      ((k.registry.get? g).isSome → k'.table.links.owner u.queue = some g))
    (howner : ∀ {u s}, x' ≠ some u → k.registry.get? u = some s →
      k'.table.links.owner s.joinQueue = some u)
    (hst : x' ≠ some t → Standing uses' asleep' k' t slot') : Situated uses' asleep' x' k' := by
  refine h.of_spares (hm.spares hu ha) (fun u hn => hx u fun e => hn (congrArg some e.symm))
    hm.sound ?_ ?_ ?_ ?_
  · refine h.layout.congr hm.transfer hm.ready hu.kinds fun {u s} hs => ?_
    obtain ⟨s₀, hs₀, hj, -⟩ := hm.back hs
    exact ⟨s₀, hs₀, hj⟩
  · intro u hu' g hg
    obtain ⟨hlt, ho⟩ := hholder u hu' g hg
    rw [hm.number]
    refine ⟨hlt, fun hal => ho ?_⟩
    obtain ⟨s, hs⟩ := Option.isSome_iff_exists.1 hal
    obtain ⟨s₀, hs₀, -⟩ := hm.back hs
    rw [hs₀]
    rfl
  · intro u s hxu hs
    obtain ⟨s₀, hs₀, hj, -⟩ := hm.back hs
    rw [hj]
    exact howner hxu hs₀
  · rintro u ⟨⟩
    refine ⟨fun hn => ?_, fun s hs => ?_⟩
    · rw [hm.self] at hn
      cases hn
    · obtain ⟨s₀, hs₀, -, hw⟩ := hm.back hs
      refine ⟨hm.number ▸ h.number hs₀, hw.trans (h.waker hs₀), fun hxt => ?_⟩
      rw [hm.self] at hs
      cases hs
      exact hst hxt

end Moves
end Kernel
end ThreadKernel
