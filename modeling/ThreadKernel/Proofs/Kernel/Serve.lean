import ThreadKernel.Proofs.Kernel.Apart
import ThreadKernel.Proofs.Kernel.Primitives

/-!
# ThreadKernel.Proofs.Kernel.Serve

What locks and conditions do to the waiters of one queue, their own or another one.

* `Table.chosen`     — whom the policy selects among the waiters.
* `Kernel.CalmBut` — all waiters but one have left their wakers and are not announced.
* `Kernel.Serves`    — the queue passes to the waiter that the policy selects, who is announced.
* `Kernel.Empties`   — all waiters are announced.
* `Kernel.Drains`    — the turns in which that happens.
* `Kernel.Passes`    — the call that does so; releases and wakes are such calls.
-/

namespace ThreadKernel

/-- The waiter of a queue that the policy selects. -/
def Table.chosen (q : QueueId) (tb : Table) : Option ThreadId :=
  match tb.queue? q with
  | none => none
  | some qs =>
    match tb.policy.select qs.waiters tb.random with
    | .error _ => none
    | .ok (index, _) => (index.bind fun i => qs.waiters.records[i]?).map WaitRecord.thread

theorem Table.nextThread_chosen {tb tb' : Table} {q : QueueId} {served : Option ThreadId}
    (h : tb.nextThread q = .ok (served, tb')) : tb.chosen q = served := by
  unfold nextThread at h
  unfold chosen
  cases hq : tb.queue? q with
  | none =>
    rw [hq] at h
    cases h
  | some qs =>
    simp only [hq] at h
    cases hsel : tb.policy.select qs.waiters tb.random with
    | error e =>
      simp only [hsel] at h
      cases h
    | ok selected =>
      obtain ⟨i, g⟩ := selected
      simp only [hsel] at h ⊢
      cases hr : i.bind fun i => qs.waiters.records[i]? with
      | none =>
        simp only [hr] at h
        split at h
        · cases h
        · cases h
          rfl
      | some r =>
        simp only [hr] at h
        split at h
        · cases h
        · cases h
          rfl

/-- The slot of a thread whose wake signal was given. -/
def Slot.awaken (s : Slot Activation) : Slot Activation := { s with signal := ⟨true, none⟩ }

namespace Kernel

/-- The thread has left its waker and is not announced. -/
structure Calm (k : Kernel Activation) (u : ThreadId) : Prop where
  channel : u ∉ k.registry.channel
  signal : ∃ slot, k.registry.get? u = some slot ∧ slot.signal = ⟨false, some u⟩

/-- All waiters but `x` are calm. -/
def CalmBut (x : Option ThreadId) (q : QueueId) (k : Kernel Activation) : Prop :=
  ∀ u, k.table.waitingQueue u = some q → x ≠ some u → k.Calm u

abbrev AllCalm (q : QueueId) (k : Kernel Activation) : Prop := CalmBut none q k

/-- The waiter that the policy selects, if there is one, is served and announced. -/
structure Serves (q : QueueId) (k k' : Kernel Activation) : Prop where
  waiting : ∀ u, k'.table.waitingQueue u = some q ↔
    k.table.waitingQueue u = some q ∧ k.table.chosen q ≠ some u
  served : ∀ u, k.table.chosen q = some u → k.table.waitingQueue u = some q ∧
    k'.table.waitingQueue u = none ∧ u ∉ k.registry.channel
  nobody : k.table.chosen q = none → ∀ u, k.table.waitingQueue u ≠ some q
  slot : ∀ u, k'.registry.get? u =
    if k.table.chosen q = some u then (k.registry.get? u).map Slot.awaken else k.registry.get? u
  channel : k'.registry.channel = k.registry.channel ++ (k.table.chosen q).toList

/-- Every waiter is served and announced once, and the queue is left to nobody. -/
structure Empties (q : QueueId) (k k' : Kernel Activation) : Prop where
  waiting : ∀ u, k'.table.waitingQueue u =
    if k.table.waitingQueue u = some q then none else k.table.waitingQueue u
  slot : ∀ u, k'.registry.get? u =
    if k.table.waitingQueue u = some q then (k.registry.get? u).map Slot.awaken
    else k.registry.get? u
  channel : ∃ announced, k'.registry.channel = k.registry.channel ++ announced ∧
    announced.Nodup ∧ ∀ u, u ∈ announced ↔ k.table.waitingQueue u = some q
  owner : k'.table.links.owner q = none

variable {q r : QueueId} {k k' k'' : Kernel Activation} {t : ThreadId}

/-! ## Serving one waiter -/

theorem nextThread_serves_none (hs : k.table.Sound) (h : k.nextThread q = .ok (none, k')) :
    k.table.chosen q = none ∧ Serves q k k' ∧ k'.table.links.owner q = none := by
  obtain ⟨tb, htb, rfl⟩ := nextThread_ok h
  have hc := Table.nextThread_chosen htb
  obtain ⟨qs, hqs, ⟨-, hnil, he⟩ | ⟨x, hx, -⟩⟩ := Table.nextThread_effect hs htb
  · have hnobody : ∀ u, k.table.waitingQueue u ≠ some q := by
      intro u hu
      obtain ⟨qs', hqs', hm⟩ := hs.linked.waiting_iff.1 hu
      rw [hqs] at hqs'
      cases hqs'
      rw [WaitSet.mem_threads, hnil] at hm
      obtain ⟨x, hx, -⟩ := hm
      cases hx
    refine ⟨hc, ⟨fun u => ?_, by simp [hc], fun _ => hnobody, fun u => by simp [hc], by simp [hc]⟩,
      ?_⟩
    · have hu := congrFun (congrArg Table.Links.waiting he.links) u
      rw [hc, and_iff_left (by simp)]
      exact Eq.congr_left hu
    · rw [he.links]
      exact Function.update_self _ _ _
  · cases hx

theorem nextThread_serves (hs : k.table.Sound) (hq : AllCalm q k)
    (hn : k.nextThread q = .ok (some t, k')) (hm : k'.markReady t = .ok k'') :
    k.table.chosen q = some t ∧ Serves q k k'' ∧
      ∀ u, u ≠ t → k''.table.waitingQueue u = k.table.waitingQueue u := by
  obtain ⟨hw, hw'⟩ := nextThread_served hs hn
  obtain ⟨tb, htb, rfl⟩ := nextThread_ok hn
  have hc := Table.nextThread_chosen htb
  obtain ⟨hch, slot, hslot, hsig⟩ := hq t hw (by simp)
  obtain ⟨-, slot', hslot', rfl⟩ := markReady_ok hm
  have hslot' : k.registry.get? t = some slot' := hslot'
  rw [hslot] at hslot'
  cases hslot'
  have hwake : slot.signal.wake = (some t, ⟨true, none⟩) := by
    rw [hsig]
    rfl
  obtain ⟨qs, hqs, ⟨hx, -⟩ | ⟨x, hx, -, -, he⟩⟩ := Table.nextThread_effect hs htb
  · cases hx
  · cases hx
    have hne : ∀ u, u ≠ x.thread → tb.waitingQueue u = k.table.waitingQueue u := fun u hu =>
      (congrFun (congrArg Table.Links.waiting he.links) u).trans (Function.update_of_ne hu _ _)
    refine ⟨hc, ⟨fun u => ?_, fun u hu => ?_, by simp [hc], fun u => ?_, by rw [hwake, hc]; rfl⟩,
      hne⟩
    · show tb.waitingQueue u = some q ↔ _
      rw [hc]
      by_cases hux : u = x.thread
      · rw [hux]
        simp [show tb.waitingQueue x.thread = none from hw']
      · rw [hne u hux, and_iff_left fun e => hux (Option.some.inj e).symm]
    · rw [hc] at hu
      cases hu
      exact ⟨hw, hw', hch⟩
    · show ((k.registry.setSlot x.thread _).postOption _).get? u = _
      rw [Registry.get?_postOption, Registry.get?_setSlot, hc, hwake]
      by_cases hux : x.thread = u
      · subst hux
        simp [hslot, Slot.awaken]
      · rw [if_neg hux, if_neg fun e => hux (Option.some.inj e)]

/-- Who waits after a queue was served waited before, and is not the one served. -/
theorem Serves.alters (h : Serves q k k') :
    Alters q (fun _ => False) (fun u => k.table.chosen q = some u) k k' := by
  refine ⟨fun u => by rw [h.waiting, false_or], fun u _ hu => ?_, fun u _ hu => ?_⟩
  · rw [h.slot, if_neg hu]
  · rw [h.channel, List.mem_append, or_iff_left]
    exact fun hm => hu (Option.mem_toList.1 hm)

theorem Serves.of_enter (h : Serves q k.enter k') : Serves q k k' :=
  ⟨h.waiting, h.served, h.nobody, h.slot, h.channel⟩

theorem Serves.restore (h : Serves q k k') (level : Level) : Serves q k (k'.restore level) :=
  ⟨h.waiting, h.served, h.nobody, h.slot, h.channel⟩

/-- Nobody else's registration changes afterwards. -/
theorem Serves.trans (h : Serves q k k') (ha : Apart q k' k'') (hr : k''.registry = k'.registry)
    (hw : ∀ u, k.table.chosen q = some u → k''.table.waitingQueue u = none) : Serves q k k'' :=
  ⟨fun u => (ha.waiting_iff u).trans (h.waiting u),
    fun u hu => ⟨(h.served u hu).1, hw u hu, (h.served u hu).2.2⟩, h.nobody,
    fun u => hr ▸ h.slot u, hr ▸ h.channel⟩

/-! ## Serving all waiters -/

theorem nextThread_empties (hs : k.table.Sound) (h : k.nextThread q = .ok (none, k')) :
    Empties q k k' := by
  obtain ⟨hc, hv, ho⟩ := nextThread_serves_none hs h
  have hno := hv.nobody hc
  obtain ⟨tb, htb, rfl⟩ := nextThread_ok h
  obtain ⟨qs, -, ⟨-, -, he⟩ | ⟨x, hx, -⟩⟩ := Table.nextThread_effect hs htb
  · refine ⟨fun u => ?_, fun u => ?_, ⟨[], by simp, List.nodup_nil, fun u => by simp [hno u]⟩, ho⟩
    · rw [if_neg (hno u)]
      exact congrFun (congrArg Table.Links.waiting he.links) u
    · rw [if_neg (hno u)]
  · cases hx

theorem AllCalm.serves (h : AllCalm q k) (hs : Serves q k k') : AllCalm q k' := by
  intro u hu _
  obtain ⟨hw, hne⟩ := (hs.waiting u).1 hu
  obtain ⟨hc, slot, hslot, hsig⟩ := h u hw (by simp)
  refine ⟨?_, slot, by rw [hs.slot, if_neg hne]; exact hslot, hsig⟩
  rw [hs.channel, List.mem_append]
  exact fun hm => hm.elim hc fun hm => hne (Option.mem_toList.1 hm)

theorem Serves.empties (h : Serves q k k') (hc : k.table.chosen q = some t)
    (hne : ∀ u, u ≠ t → k'.table.waitingQueue u = k.table.waitingQueue u)
    (h' : Empties q k' k'') : Empties q k k'' := by
  have hw : ∀ u, k'.table.waitingQueue u = some q ↔ u ≠ t ∧ k.table.waitingQueue u = some q := by
    intro u
    rw [h.waiting, hc, and_comm, ne_eq, Option.some_inj, eq_comm]
  obtain ⟨ht, ht', -⟩ := h.served t hc
  obtain ⟨l, hl, hnd, hm⟩ := h'.channel
  refine ⟨fun u => ?_, fun u => ?_, ⟨t :: l, ?_, ?_, fun u => ?_⟩, h'.owner⟩
  · rw [h'.waiting]
    by_cases hu : u = t
    · simp [hu, ht, ht']
    · simp [hne u hu]
  · simp only [h'.slot, hw, h.slot, hc]
    by_cases hu : u = t
    · simp [hu, ht]
    · simp [hu, Ne.symm hu]
  · rw [hl, h.channel, hc]
    simp
  · exact List.nodup_cons.2 ⟨fun hmem => ((hw t).1 ((hm t).1 hmem)).1 rfl, hnd⟩
  · rw [List.mem_cons, hm, hw]
    by_cases hu : u = t
    · simp [hu, ht]
    · simp [hu]

/-- Turn by turn the queue passes to the waiter that the policy selects, who is made ready, until
nobody waits. The list has those waiters in their order. -/
inductive Drains (q : QueueId) : List ThreadId → Kernel Activation → Kernel Activation → Prop
  | done {k k' : Kernel Activation} (next : k.nextThread q = .ok (none, k')) : Drains q [] k k'
  | turn {u : ThreadId} {l : List ThreadId} {k k₁ k₂ k' : Kernel Activation}
      (chosen : k.table.chosen q = some u) (next : k.nextThread q = .ok (some u, k₁))
      (owner : k₁.table.links.owner q = some u) (ready : k₁.markReady u = .ok k₂)
      (rest : Drains q l k₂ k') : Drains q (u :: l) k k'

theorem nextThread_owner (hs : k.table.Sound) (h : k.nextThread q = .ok (some t, k')) :
    k'.table.links.owner q = some t := by
  obtain ⟨tb, htb, rfl⟩ := nextThread_ok h
  obtain ⟨_, _, ⟨hx, -⟩ | ⟨x, hx, -, -, he⟩⟩ := Table.nextThread_effect hs htb
  · cases hx
  · cases hx
    show tb.links.owner q = _
    rw [he.links]
    exact Function.update_self _ _ _

/-- Every turn has one waiter less. -/
theorem nextThread_size_lt {n : Nat} (hs : k.table.Sound)
    (hsize : ∃ qs, k.table.queue? q = some qs ∧ qs.waiters.size ≤ n)
    (h : k.nextThread q = .ok (some t, k')) :
    ∃ qs, k'.table.queue? q = some qs ∧ qs.waiters.size < n := by
  obtain ⟨qs, hqs, hsize⟩ := hsize
  obtain ⟨hw, -⟩ := nextThread_served hs h
  obtain ⟨tb, htb, rfl⟩ := nextThread_ok h
  obtain ⟨_, _, ⟨hx, -⟩ | ⟨x, hx, -, -, he⟩⟩ := Table.nextThread_effect hs htb
  · cases hx
  · cases hx
    obtain ⟨qs', hqs', hlt⟩ := size_lt_of_served hs.linked hqs hw he
    exact ⟨qs', hqs', by omega⟩

/-- More turns than there are waiters leave nobody. -/
theorem handOver_drains (n : Nat) {k : Kernel Activation} (hk : k.Sane)
    (hsize : ∃ qs, k.table.queue? q = some qs ∧ qs.waiters.size ≤ n)
    (h : k.handOver q (n + 1) = .ok k') : ∃ l, Drains q l k k' := by
  induction n generalizing k with
  | zero =>
    rw [Kernel.handOver] at h
    split at h
    · cases h
    · rename_i hn
      cases h
      exact ⟨[], .done hn⟩
    · rename_i hn
      obtain ⟨_, -, hlt⟩ := nextThread_size_lt hk.sound hsize hn
      exact absurd hlt (Nat.not_lt_zero _)
  | succ n ih =>
    rw [Kernel.handOver] at h
    split at h
    · cases h
    · rename_i hn
      cases h
      exact ⟨[], .done hn⟩
    · rename_i t k₁ hn
      split at h
      · cases h
      · rename_i k₂ hm
        have hk₁ := (nextThread_steady hn).sane hk
        obtain ⟨qs, hqs, hlt⟩ := nextThread_size_lt hk.sound hsize hn
        have hsize₂ : ∃ qs, k₂.table.queue? q = some qs ∧ qs.waiters.size ≤ n := by
          rw [(markReady_registry hk₁ hm).1]
          exact ⟨qs, hqs, Nat.le_of_lt_succ hlt⟩
        obtain ⟨l, hl⟩ := ih ((markReady_steady hm).sane hk₁) hsize₂ h
        obtain ⟨tb, htb, -⟩ := nextThread_ok hn
        exact ⟨t :: l, .turn (Table.nextThread_chosen htb) hn (nextThread_owner hk.sound hn) hm hl⟩

theorem handOverAll_drains (hk : k.Sane) (h : k.handOverAll q = .ok k') :
    ∃ l, Drains q l k k' := by
  obtain ⟨qs, hqs, h⟩ := handOverAll_ok h
  exact handOver_drains qs.waiters.size hk ⟨qs, hqs, Nat.le_refl _⟩ h

/-- A queue that is drained is empty, and its waiters are announced in their turn. -/
theorem Drains.empties {l : List ThreadId} (h : Drains q l k k') (hk : k.Sane)
    (hq : AllCalm q k) :
    Empties q k k' ∧ k'.registry.channel = k.registry.channel ++ l := by
  induction h with
  | done hn =>
    obtain ⟨tb, -, rfl⟩ := nextThread_ok hn
    exact ⟨nextThread_empties hk.sound hn, (List.append_nil _).symm⟩
  | turn _ hn _ hm _ ih =>
    obtain ⟨hc, hserves, hne⟩ := nextThread_serves hk.sound hq hn hm
    have hk₂ := (markReady_steady hm).sane ((nextThread_steady hn).sane hk)
    obtain ⟨hempties, hchannel⟩ := ih hk₂ (hq.serves hserves)
    refine ⟨hserves.empties hc hne hempties, ?_⟩
    rw [hchannel, hserves.channel, hc]
    exact List.append_assoc _ _ _

theorem handOverAll_empties (hk : k.Sane) (hq : AllCalm q k) (h : k.handOverAll q = .ok k') :
    Empties q k k' := by
  obtain ⟨l, hl⟩ := handOverAll_drains hk h
  exact (hl.empties hk hq).1

theorem Empties.of_enter (h : Empties q k.enter k') : Empties q k k' :=
  ⟨h.waiting, h.slot, h.channel, h.owner⟩

theorem Empties.restore (h : Empties q k k') (level : Level) : Empties q k (k'.restore level) :=
  ⟨h.waiting, h.slot, h.channel, h.owner⟩

theorem Empties.alters (h : Empties q k k') :
    Alters q (fun _ => False) (fun _ => True) k k' := by
  refine ⟨fun u => ?_, fun u _ hu => absurd trivial hu, fun u _ hu => absurd trivial hu⟩
  rw [h.waiting]
  by_cases hu : k.table.waitingQueue u = some q <;> simp [hu]

/-! ## Handing over in the atomic region -/

/-- The queue passes to `served`, who is made ready. The interrupt level stays. -/
inductive Passes (q : QueueId) (k : Kernel Activation) : Option ThreadId → Kernel Activation → Prop
  | nobody {k' : Kernel Activation} (next : k.enter.nextThread q = .ok (none, k')) :
      Passes q k none (k'.restore k.level)
  | waiter {u : ThreadId} {k' k'' : Kernel Activation}
      (next : k.enter.nextThread q = .ok (some u, k')) (ready : k'.markReady u = .ok k'') :
      Passes q k (some u) (k''.restore k.level)

variable {served : Option ThreadId}

theorem Sane.entered (h : k.Sane) : k.enter.Sane := ⟨h.sound, h.waker, h.signal⟩

theorem CalmBut.entered {x : Option ThreadId} (h : CalmBut x q k) : CalmBut x q k.enter :=
  fun u hu hx => ⟨(h u hu hx).channel, (h u hu hx).signal⟩

theorem Passes.chosen (h : Passes q k served k') : k.table.chosen q = served := by
  cases h with
  | nobody hn | waiter hn =>
    obtain ⟨tb, htb, -⟩ := nextThread_ok hn
    exact Table.nextThread_chosen htb

theorem Passes.steady (h : Passes q k served k') : Steady k k' := by
  cases h with
  | nobody next => exact (nextThread_steady next).within
  | waiter next ready => exact ((nextThread_steady next).trans (markReady_steady ready)).within

theorem Passes.apart (hk : k.Sane) (hr : r ≠ q) (h : Passes r k served k') : Apart q k k' := by
  cases h with
  | nobody hn => exact (nextThread_apart (k := k.enter) hk.sound hr hn).of_enter.restore _
  | waiter hn hm => exact (served_apart hk.entered hr hn hm).of_enter.restore _

theorem Passes.serves (hk : k.Sane) (hq : AllCalm q k) (h : Passes q k served k') :
    k.table.chosen q = served ∧ Serves q k k' := by
  cases h with
  | nobody hn =>
    obtain ⟨hc, hs, -⟩ := nextThread_serves_none (k := k.enter) hk.sound hn
    exact ⟨hc, hs.of_enter.restore _⟩
  | waiter hn hm =>
    obtain ⟨hc, hs, -⟩ := nextThread_serves (k := k.enter) hk.sound hq.entered hn hm
    exact ⟨hc, hs.of_enter.restore _⟩

end Kernel

/-! ## Locks and conditions -/

open Kernel (Apart Empties AllCalm Passes)

variable {q : QueueId} {k k' : Kernel Activation} {l l' : Lock} {c : Condition} {t : ThreadId}
  {operation : String}

/-- A release is a call of the holder, and passes the lock on. -/
theorem Lock.release_cases (h : l.release k = .ok (l', k')) :
    ∃ t, k.registry.current = some t ∧ l.holder = some t ∧ ∃ served,
      Passes l.queue k served k' ∧ l' = { l with holder := served } := by
  unfold Lock.release at h
  split at h
  · cases h
  · rename_i t ht
    split at h
    · cases h
    · rename_i hr
      cases h
      unfold Lock.releaseFrom at hr
      split at hr
      · rename_i hholder
        refine ⟨t, Kernel.currentThread_ok ht, hholder, ?_⟩
        split at hr
        · cases hr
        · rename_i hn
          cases hr
          exact ⟨none, .nobody hn, rfl⟩
        · rename_i u k₁ hn
          split at hr
          · cases hr
          · rename_i hm
            cases hr
            exact ⟨some u, .waiter hn hm, rfl⟩
      · cases hr

/-- Only the holder of the lock may use a condition. -/
theorem Condition.holder_ok (h : Condition.holder operation l k = .ok t) :
    k.registry.current = some t ∧ l.holder = some t := by
  unfold Condition.holder at h
  split at h
  · rename_i hheld
    have ht := Kernel.currentThread_ok h
    rw [Lock.isHeldByCurrent, Bool.and_eq_true, beq_iff_eq] at hheld
    exact ⟨ht, hheld.2.trans ht⟩
  · cases h

theorem Condition.wake_cases (h : c.wake l k = .ok k') :
    ∃ t, k.registry.current = some t ∧ l.holder = some t ∧ ∃ served,
      Passes c.queue k served k' := by
  unfold Condition.wake at h
  split at h
  · cases h
  · rename_i t ht
    obtain ⟨hcur, hl⟩ := Condition.holder_ok ht
    refine ⟨t, hcur, hl, ?_⟩
    split at h
    · cases h
    · rename_i k₁ hn
      cases h
      exact ⟨none, .nobody hn⟩
    · rename_i u k₁ hn
      split at h
      · cases h
      · rename_i k₂ hm
        cases h
        exact ⟨some u, .waiter hn hm⟩

theorem Condition.wakeAll_cases (h : c.wakeAll l k = .ok k') :
    ∃ t, k.registry.current = some t ∧ l.holder = some t ∧ ∃ k₁,
      k.enter.handOverAll c.queue = .ok k₁ ∧ k' = k₁.restore k.level := by
  unfold Condition.wakeAll at h
  split at h
  · cases h
  · rename_i t ht
    obtain ⟨hcur, hl⟩ := Condition.holder_ok ht
    split at h
    · cases h
    · rename_i k₁ hk
      cases h
      exact ⟨t, hcur, hl, k₁, hk, rfl⟩

theorem Condition.wakeAll_apart (hk : k.Sane) (hq : c.queue ≠ q) (h : c.wakeAll l k = .ok k') :
    Apart q k k' := by
  obtain ⟨t, -, -, k₁, hall, rfl⟩ := Condition.wakeAll_cases h
  exact (Kernel.handOverAll_apart hq hk.entered hall).of_enter.restore _

theorem Condition.wakeAll_empties (hk : k.Sane) (hq : AllCalm c.queue k)
    (h : c.wakeAll l k = .ok k') : Empties c.queue k k' := by
  obtain ⟨t, -, -, k₁, hall, rfl⟩ := Condition.wakeAll_cases h
  exact (Kernel.handOverAll_empties hk.entered hq.entered hall).of_enter.restore _

/-- Falling asleep is a release, after which the caller waits on the condition. -/
theorem Condition.fallAsleep_cases (h : c.fallAsleep t l k = .ok (l', k')) :
    ∃ k₁, l.release k = .ok (l', k₁) ∧ k₁.waitForAccess c.queue t = .ok k' := by
  unfold Condition.fallAsleep at h
  split at h
  · cases h
  · rename_i l₁ k₁ hr
    split at h
    · cases h
    · rename_i hw
      cases h
      exact ⟨k₁, hr, hw⟩

end ThreadKernel
