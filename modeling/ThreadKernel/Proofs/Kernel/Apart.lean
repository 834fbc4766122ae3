import ThreadKernel.Proofs.Kernel.Steady

/-!
# ThreadKernel.Proofs.Kernel.Apart

What calls of the kernel do to the waiters of one queue.

* `Kernel.Alters` — who comes to wait on the queue and who leaves it; the others are left alone.
* `Kernel.Apart`  — nobody comes or leaves. So it is for every call on another queue.
-/

namespace ThreadKernel

namespace Kernel

structure Alters (q : QueueId) (joins leaves : ThreadId → Prop) (k k' : Kernel Activation) :
    Prop where
  waiting : ∀ u, k'.table.waitingQueue u = some q ↔
    joins u ∨ k.table.waitingQueue u = some q ∧ ¬ leaves u
  slot : ∀ u, k.table.waitingQueue u = some q → ¬ leaves u →
    k'.registry.get? u = k.registry.get? u
  channel : ∀ u, k.table.waitingQueue u = some q → ¬ leaves u →
    (u ∈ k'.registry.channel ↔ u ∈ k.registry.channel)

abbrev Apart (q : QueueId) (k k' : Kernel Activation) : Prop :=
  Alters q (fun _ => False) (fun _ => False) k k'

variable {q r : QueueId} {joins leaves : ThreadId → Prop} {k k' k'' : Kernel Activation}
  {t : ThreadId} {tb : Table} {after : Table.Links} {slot : Slot Activation}

theorem Alters.congr {joins' leaves' : ThreadId → Prop} (h : Alters q joins leaves k k')
    (hj : ∀ u, joins' u ↔ joins u) (hl : ∀ u, leaves' u ↔ leaves u) :
    Alters q joins' leaves' k k' := by
  rw [show joins' = joins from funext fun u => propext (hj u),
    show leaves' = leaves from funext fun u => propext (hl u)]
  exact h

theorem Apart.waiting_iff (h : Apart q k k') (u : ThreadId) :
    k'.table.waitingQueue u = some q ↔ k.table.waitingQueue u = some q := by
  simpa using h.waiting u

theorem Apart.of_eq (ht : k'.table = k.table) (hr : k'.registry = k.registry) : Apart q k k' :=
  ⟨fun u => by simp [ht], fun u _ _ => by rw [hr], fun u _ _ => by rw [hr]⟩

theorem Apart.refl (q : QueueId) (k : Kernel Activation) : Apart q k k := .of_eq rfl rfl

theorem Alters.trans (h : Alters q joins leaves k k') (h' : Apart q k' k'') :
    Alters q joins leaves k k'' := by
  have hstay : ∀ {u}, k.table.waitingQueue u = some q → ¬ leaves u →
      k'.table.waitingQueue u = some q := fun hw hl => (h.waiting _).2 (.inr ⟨hw, hl⟩)
  exact ⟨fun u => (h'.waiting_iff u).trans (h.waiting u),
    fun u hw hl => (h'.slot u (hstay hw hl) id).trans (h.slot u hw hl),
    fun u hw hl => (h'.channel u (hstay hw hl) id).trans (h.channel u hw hl)⟩

/-- Nobody leaves if those who would do not wait. -/
theorem Alters.apart (h : Alters q (fun _ => False) leaves k k')
    (hl : ∀ u, k.table.waitingQueue u = some q → ¬ leaves u) : Apart q k k' :=
  ⟨fun u => by
    rw [h.waiting]
    exact or_congr .rfl (and_congr_right fun hu => iff_of_true (hl u hu) id),
    fun u hu _ => h.slot u hu (hl u hu), fun u hu _ => h.channel u hu (hl u hu)⟩

theorem Apart.alters (h : Apart q k k') (h' : Alters q joins leaves k' k'') :
    Alters q joins leaves k k'' := by
  have hstay : ∀ {u}, k.table.waitingQueue u = some q → k'.table.waitingQueue u = some q :=
    fun hw => (h.waiting_iff _).2 hw
  exact ⟨fun u => by rw [h'.waiting, h.waiting_iff],
    fun u hw hl => (h'.slot u (hstay hw) hl).trans (h.slot u hw id),
    fun u hw hl => (h'.channel u (hstay hw) hl).trans (h.channel u hw id)⟩

theorem Alters.of_enter (h : Alters q joins leaves k.enter k') : Alters q joins leaves k k' :=
  ⟨h.waiting, h.slot, h.channel⟩

theorem Alters.restore (h : Alters q joins leaves k k') (level : Level) :
    Alters q joins leaves k (k'.restore level) := ⟨h.waiting, h.slot, h.channel⟩

/-! ## Calls that change the table -/

/-- The links after a change of the table tell who came and who left. -/
theorem Alters.of_effect (he : k.table.Effect after tb)
    (hw : ∀ u, after.waiting u = some q ↔
      joins u ∨ k.table.links.waiting u = some q ∧ ¬ leaves u) :
    Alters q joins leaves k { k with table := tb } := by
  refine ⟨fun u => ?_, fun _ _ _ => rfl, fun _ _ _ => .rfl⟩
  have htb := congrFun (congrArg Table.Links.waiting he.links) u
  exact (Eq.congr_left htb).trans (hw u)

/-- One thread waits on `r` or on nothing now. -/
theorem update_waiting {waiting : ThreadId → Option QueueId} {o : Option QueueId} (u : ThreadId) :
    Function.update waiting t o u = some q ↔
      (u = t ∧ o = some q) ∨ waiting u = some q ∧ ¬ u = t := by
  by_cases hu : u = t
  · simp [hu]
  · simp [hu]

theorem enqueue_alters (q : QueueId) (hs : k.table.Sound)
    (h : k.withTable (k.table.waitForAccess r t) = .ok k') :
    k.table.waitingQueue t = none ∧
      Alters q (fun u => u = t ∧ r = q) (fun _ => False) k k' := by
  obtain ⟨tb, htb, rfl⟩ := withTable_ok h
  obtain ⟨hnone, -, he⟩ := Table.waitForAccess_effect hs htb
  refine ⟨hnone, .of_effect he fun u => ?_⟩
  rw [update_waiting]
  by_cases hu : u = t
  · simp [hu, hnone]
  · simp [hu]

theorem waitForAccess_alters (q : QueueId) (hs : k.table.Sound)
    (h : k.waitForAccess r t = .ok k') :
    k.table.waitingQueue t = none ∧
      Alters q (fun u => u = t ∧ r = q) (fun _ => False) k k' :=
  enqueue_alters q hs (atomically_ok h)

/-- Nobody but the caller comes to wait. -/
theorem waitForAccess_others (hs : k.table.Sound) (h : k.waitForAccess r t = .ok k')
    {u : ThreadId} (hu : u ≠ t) : k'.table.waitingQueue u = k.table.waitingQueue u := by
  obtain ⟨tb, htb, rfl⟩ := waitForAccess_ok h
  obtain ⟨-, -, he⟩ := Table.waitForAccess_effect hs htb
  exact (congrFun (congrArg Table.Links.waiting he.links) u).trans (Function.update_of_ne hu _ _)

theorem waitForAccess_self (hs : k.table.Sound) (h : k.waitForAccess r t = .ok k') :
    k'.table.waitingQueue t = some r := by
  obtain ⟨tb, htb, rfl⟩ := waitForAccess_ok h
  obtain ⟨-, -, he⟩ := Table.waitForAccess_effect hs htb
  exact (congrFun (congrArg Table.Links.waiting he.links) t).trans (Function.update_self _ _ _)

theorem grant_alters (q : QueueId) (hs : k.table.Sound)
    (h : k.withTable (k.table.acquire r t) = .ok k') :
    Alters q (fun _ => False) (fun u => u = t ∧ r = q) k k' := by
  obtain ⟨tb, htb, rfl⟩ := withTable_ok h
  obtain ⟨hw, -, he⟩ := Table.acquire_effect hs htb
  refine .of_effect he fun u => ?_
  rw [update_waiting]
  by_cases hu : u = t
  · subst hu
    rcases hw with hw | hw <;> simp [hw]
  · simp [hu]

theorem acquire_alters (q : QueueId) (hs : k.table.Sound) (h : k.acquire r t = .ok k') :
    Alters q (fun _ => False) (fun u => u = t ∧ r = q) k k' :=
  grant_alters q hs (atomically_ok h)

theorem nextThread_alters (q : QueueId) {served : Option ThreadId} (hs : k.table.Sound)
    (h : k.nextThread r = .ok (served, k')) :
    Alters q (fun _ => False) (fun u => served = some u ∧ r = q) k k' := by
  obtain ⟨tb, htb, rfl⟩ := nextThread_ok h
  obtain ⟨qs, hqs, ⟨rfl, -, he⟩ | ⟨x, rfl, hx, -, he⟩⟩ := Table.nextThread_effect hs htb
  · exact .of_effect he fun u => by simp
  · have hw : k.table.links.waiting x.thread = some r := hs.linked.waiting_of_mem hqs hx
    refine .of_effect he fun u => ?_
    rw [update_waiting]
    by_cases hu : u = x.thread
    · simp [hu, hw]
    · simp [hu, Ne.symm hu]

theorem createQueue_apart (q : QueueId) (k : Kernel Activation) (transfer : Bool) :
    Apart q k (k.createQueue transfer).2 :=
  ⟨fun u => by simp [createQueue, Table.waitingQueue, Table.state_createQueue],
    fun _ _ _ => rfl, fun _ _ _ => .rfl⟩

theorem destroyQueue_apart (hs : k.table.Sound) (hr : r ≠ q) (h : k.destroyQueue r = .ok k') :
    Apart q k k' := by
  obtain ⟨tb, htb, rfl⟩ := withTable_ok h
  have he := Table.destroyQueue_effect hs htb
  refine .of_effect he fun u => ?_
  by_cases hu : k.table.links.waiting u = some r
  · simp [hu, hr]
  · simp [hu]

theorem setPriority_apart {p : Nat} (q : QueueId) (hs : k.table.Sound)
    (h : k.withTable (k.table.setPriority t p) = .ok k') : Apart q k k' := by
  obtain ⟨tb, htb, rfl⟩ := withTable_ok h
  obtain ⟨-, he⟩ := Table.setPriority_effect hs htb
  exact .of_effect he fun u => by simp

theorem releaseReady_apart (q : QueueId) (hs : k.table.Sound) (h : k.releaseReady t = .ok k') :
    Apart q k k' := by
  obtain ⟨after, tb, rfl, he, hw, -⟩ := releaseReady_ok hs h
  exact .of_effect he fun u => by simp [hw]

theorem removeThread_alters (q : QueueId) (hs : k.table.Sound)
    (h : k.withTable (k.table.removeThread t) = .ok k') :
    Alters q (fun _ => False) (fun u => u = t) k k' := by
  obtain ⟨tb, htb, rfl⟩ := withTable_ok h
  have he := Table.removeThread_effect hs htb
  refine .of_effect he fun u => ?_
  rw [update_waiting]
  simp

/-- Calls on another queue. -/
theorem waitForAccess_apart (hs : k.table.Sound) (hr : r ≠ q) (h : k.waitForAccess r t = .ok k') :
    Apart q k k' := (waitForAccess_alters q hs h).2.congr (by simp [hr]) (by simp)

theorem acquire_apart (hs : k.table.Sound) (hr : r ≠ q) (h : k.acquire r t = .ok k') :
    Apart q k k' := (acquire_alters q hs h).congr (by simp) (by simp [hr])

theorem nextThread_apart {served : Option ThreadId} (hs : k.table.Sound) (hr : r ≠ q)
    (h : k.nextThread r = .ok (served, k')) : Apart q k k' :=
  (nextThread_alters q hs h).congr (by simp) (by simp [hr])

/-! ## Calls that give a wake signal -/

/-- What a wake does to the slots and to the channel. -/
theorem markReady_registry (hk : k.Sane) (h : k.markReady t = .ok k') :
    k'.table = k.table ∧ (∀ u, u ≠ t → k'.registry.get? u = k.registry.get? u) ∧
      ∀ u, u ≠ t → (u ∈ k'.registry.channel ↔ u ∈ k.registry.channel) := by
  obtain ⟨-, slot, hslot, rfl⟩ := markReady_ok h
  refine ⟨rfl, fun u hu => ?_, fun u hu => ?_⟩
  · show ((k.registry.setSlot t _).postOption _).get? u = _
    rw [Registry.get?_postOption, Registry.get?_setSlot, if_neg (Ne.symm hu)]
  · have hinv : u ∉ slot.signal.wake.1.toList := by
      intro hm
      unfold WakeSignal.wake at hm
      split at hm
      · cases hm
      · have hm := Option.mem_toList.1 hm
        exact hu (hk.signal hslot hm)
    show u ∈ k.registry.channel ++ slot.signal.wake.1.toList ↔ _
    rw [List.mem_append, or_iff_left hinv]

theorem markReady_apart (hk : k.Sane) (hw : k.table.waitingQueue t ≠ some q)
    (h : k.markReady t = .ok k') : Apart q k k' := by
  obtain ⟨ht, hslot, hch⟩ := markReady_registry hk h
  have hne : ∀ {u}, k.table.waitingQueue u = some q → u ≠ t := fun hu e => hw (e ▸ hu)
  exact ⟨fun u => by simp [ht], fun u hu _ => hslot u (hne hu),
    fun u hu _ => hch u (hne hu)⟩

theorem nextThread_served (hs : k.table.Sound) (h : k.nextThread r = .ok (some t, k')) :
    k.table.waitingQueue t = some r ∧ k'.table.waitingQueue t = none := by
  obtain ⟨tb, htb, rfl⟩ := nextThread_ok h
  obtain ⟨qs, hqs, ⟨hc, -⟩ | ⟨x, hx, hm, -, he⟩⟩ := Table.nextThread_effect hs htb
  · cases hc
  · cases hx
    refine ⟨hs.linked.waiting_of_mem hqs hm, ?_⟩
    show tb.links.waiting x.thread = none
    rw [he.links]
    exact Function.update_self _ _ _

/-- Another queue is handed to a waiter, who is announced. -/
theorem served_apart (hk : k.Sane) (hr : r ≠ q) (hn : k.nextThread r = .ok (some t, k'))
    (hm : k'.markReady t = .ok k'') : Apart q k k'' := by
  refine Alters.trans (nextThread_apart hk.sound hr hn)
    (markReady_apart ((nextThread_steady hn).sane hk) ?_ hm)
  rw [(nextThread_served hk.sound hn).2]
  simp

theorem handOverAll_apart (hr : r ≠ q) (hk : k.Sane) (h : k.handOverAll r = .ok k') :
    Apart q k k' := by
  replace h := handOverAll_goesRound h
  induction h with
  | stops => exact .refl q _
  | nobody next => exact nextThread_apart hk.sound hr next
  | turn next ready _ ih =>
    have hk₂ := (markReady_steady ready).sane ((nextThread_steady next).sane hk)
    exact Alters.trans (served_apart hk hr next ready) (ih hk₂)

/-! ## Threads that come and go -/

theorem spawn_apart {name : String} {a : Activation} (hs : k.table.Sound) (hq : k.readyQueue ≠ q)
    (hal : ∀ u, k.table.waitingQueue u = some q → (k.registry.get? u).isSome)
    (h : k.spawn name a = .ok (t, k')) : Apart q k k' := by
  obtain ⟨j, hsp⟩ := spawn_ok hs h
  have hne : ∀ {u}, k.table.waitingQueue u = some q → u ≠ t := by
    rintro u hu rfl
    have hal := hal u hu
    rw [hsp.absent] at hal
    cases hal
  refine ⟨fun u => ?_, fun u hu _ => ?_, fun u _ _ => by rw [hsp.channel]⟩
  · have hw := congrFun hsp.waiting u
    refine (Eq.congr_left hw).trans ?_
    rw [update_waiting]
    by_cases hu : u = t
    · subst hu
      simp only [hq, not_true, and_false, false_or, not_false_eq_true, and_true,
        Option.some.injEq, false_iff]
      exact fun hw => hne hw rfl
    · simp only [hu, false_and, not_false_eq_true, and_true, false_or]
      exact .rfl
  · rw [hsp.get?, if_neg fun e => hne hu e.symm]

theorem retire_apart (hk : k.Sane) (hw : k.table.waitingQueue t ≠ some q)
    (hj : ∀ slot, k.registry.get? t = some slot → slot.joinQueue ≠ q)
    (h : k.retire t = .ok k') : Apart q k k' := by
  obtain ⟨slot, k₁, k₂, k₃, k₄, hslot, h₁, h₂, h₃, h₄, rfl⟩ := retire_ok h
  have hq := hj slot hslot
  have hk₀ : k.enter.Sane := ⟨hk.sound, hk.waker, hk.signal⟩
  have hk₁ := (handOverAll_steady h₁).sane hk₀
  have a₁ : Apart q k.enter k₁ := handOverAll_apart hq hk₀ h₁
  have hs₂ := ((apply_steady (.destroyQueue slot.joinQueue) h₂).sane hk₁)
  have a₂ : Apart q k.enter k₂ := Alters.trans a₁ (destroyQueue_apart hk₁.sound hq h₂)
  have a₃ : Apart q k.enter k₃ := Alters.trans a₂ (releaseReady_apart q hs₂.sound h₃)
  have hw₃ : k₃.table.waitingQueue t ≠ some q := fun he => hw ((a₃.waiting_iff t).1 he)
  have hs₃ : k₃.table.Sound := by
    obtain ⟨after, tb, rfl, e₃, -⟩ := releaseReady_ok hs₂.sound h₃
    exact e₃.sound
  have a₄ : Apart q k.enter k₄ := Alters.trans a₃
    ((removeThread_alters q hs₃ h₄).apart fun u hu e => hw₃ (e ▸ hu))
  let erased : Kernel Activation := { k₄ with
    registry := { k₄.registry with slots := k₄.registry.slots.erase t } }
  suffices herase : Apart q k₄ erased from
    (Alters.of_enter (Alters.trans a₄ herase)).restore _
  refine ⟨fun u => by simp [erased], fun u hu _ => ?_, fun _ _ _ => .rfl⟩
  have hut : t ≠ u := by
    rintro rfl
    exact hw ((a₄.waiting_iff t).1 hu)
  exact (Directory.get?_erase _ _ _).trans (if_neg hut)

end Kernel
end ThreadKernel
