import ThreadKernel.Proofs.Alarm
import ThreadKernel.Proofs.Kernel.Life

/-!
# ThreadKernel.Proofs.Kernel.Cycle

A thread's way from the processor and back to it.

* `Activation.Takes`   — what the stage of a program says about the thread that executes it.
* `Placed.suspend`     — a thread leaves the processor and stands.
* `Placed.poll_ready`  — a thread that was called back passes its yield point.
* `Placed.admitWoken`  — announced threads become ready.
* `Placed.choose`      — the thread that is dispatched was ready.
* `Placed.wakeEach`    — sleepers that are due are announced.
-/

namespace ThreadKernel

inductive Activation.Takes (a : Activation) : Kernel.Posture → Prop where
  | fresh (stage : a.stage = .fresh) : Takes a .free
  | yielding {r : Resume} (stage : a.stage = .suspended .yieldOnce r) : Takes a .free
  | passing {p : YieldPoint} {r : Resume} (stage : a.stage = .suspended p r)
      (yielded : p.yielded = true) : Takes a .passing
  | blocking {r : Resume} (stage : a.stage = .suspended .untilWake r) (code : a.code ≠ []) :
      Takes a .blocking

/-- A thread that can be dispatched begins, or passes the yield point it waits at. -/
theorem Slot.Resumable.takes {slot : Slot Activation} (h : slot.Resumable) :
    ∃ task p, slot.task = some task ∧ task.coroutine.Plain ∧ task.coroutine.Takes p ∧
      p ≠ .blocking ∧ (p = .passing → slot.signal.woken = true) := by
  obtain ⟨task, htask, hplain, hf | ⟨p, r, hstage, hy, hwoken⟩⟩ := h
  · refine ⟨task, .free, htask, hplain, .fresh hf, ?_, ?_⟩ <;> rintro ⟨⟩
  · refine ⟨task, .passing, htask, hplain, .passing hstage hy, ?_, fun _ => hwoken⟩
    rintro ⟨⟩

namespace Kernel

variable {uses uses' : List Use} {asleep asleep' : ThreadId → Nat}
  {run : Option (ThreadId × Posture)} {k k' : Kernel Activation} {t : ThreadId} {p : Posture}

/-! ## Leaving the processor -/

/-- A thread stands as soon as it has left the processor. -/
theorem Placed.suspend {slot slot' : Slot Activation} (h : Placed uses asleep (some (t, p)) k)
    (hm : Moves t slot slot' k k') (htable : k'.table = k.table)
    (hcur : k'.registry.current = none) (hst : Standing uses asleep k' t slot') :
    Placed uses asleep none k' := by
  refine ⟨h.1.moves hm h.1.layout.unassigned (fun _ _ => rfl)
    (fun u hu _ he => hu (Option.some.inj he).symm) ?_ ?_ fun _ => hst, hcur⟩
  · rw [htable]
    exact h.1.holder
  · intro u s _ hs
    rw [htable]
    exact h.join_owner hs

theorem dispatch_ok {d : Dispatched Activation} (h : k.dispatch t = .ok (some (d, k'))) :
    ∃ slot task, k.registry.get? t = some slot ∧ slot.task = some task ∧ d = ⟨t, task, k.level⟩ ∧
      k' = { k with
        registry := { k.registry.setSlot t { slot with task := none } with current := some t }
        level := slot.level } := by
  unfold dispatch at h
  split at h
  · cases h
  · rename_i slot hslot
    split at h
    · cases h
    · rename_i task htask
      cases h
      exact ⟨slot, task, hslot, htask, rfl, rfl⟩

theorem park_ok {d : Dispatched Activation} (h : k.park d = .ok k') :
    ∃ slot, k.registry.get? d.thread = some slot ∧ slot.task = none ∧
      k' = { k with
        registry := ({ k.registry with current := none } : Registry Activation).setSlot d.thread
          { slot with level := k.level, task := some d.task }
        level := d.loopLevel } := by
  unfold park at h
  simp only [backToLoop] at h
  split at h
  · cases h
  · rename_i slot hslot
    refine ⟨slot, hslot, ?_⟩
    simp only [Slot.putTask] at h
    split at h
    · cases h
    · rename_i s hs
      split at hs
      · cases hs
      · rename_i htask
        cases hs
        cases h
        exact ⟨htask, rfl⟩

/-- The slot of `t` takes the task back with the signal that a poll left, and nobody runs. -/
structure Suspended (t : ThreadId) (slot slot' : Slot Activation) (task : ThreadTask Activation)
    (r : YieldPoint.Polled ThreadId) (k k' : Kernel Activation) : Prop where
  slot : slot' = { slot with task := some task, signal := r.signal, level := k.level }
  table : k'.table = k.table
  ready : k'.readyQueue = k.readyQueue
  number : k'.registry.nextNumber = k.registry.nextNumber
  current : k'.registry.current = none
  get? : ∀ u, k'.registry.get? u = if t = u then some slot' else k.registry.get? u
  channel : k'.registry.channel = k.registry.channel ++ r.invoked.toList

theorem poll_park_ok {point point' : YieldPoint} {slot : Slot Activation} {k₁ : Kernel Activation}
    {d : Dispatched Activation} (hslot : k.registry.get? d.thread = some slot)
    (hpoll : k.pollPoint d.thread point = (false, point', k₁)) (hpark : k₁.park d = .ok k') :
    point' = (point.poll slot.waker slot.signal).point ∧
      (point.poll slot.waker slot.signal).ready = false ∧
      ∃ slot', Suspended d.thread slot slot' d.task (point.poll slot.waker slot.signal) k k' := by
  simp only [pollPoint, hslot] at hpoll
  obtain ⟨hready, hrest⟩ := Prod.mk.inj hpoll
  obtain ⟨rfl, rfl⟩ := Prod.mk.inj hrest
  obtain ⟨s, hs, -, rfl⟩ := park_ok hpark
  rw [Registry.get?_postOption, Registry.get?_setSlot, if_pos rfl] at hs
  cases hs
  refine ⟨rfl, hready, _, rfl, rfl, rfl, rfl, rfl, fun u => ?_, rfl⟩
  rw [Registry.get?_setSlot]
  split
  · rfl
  · rename_i hne
    exact (Registry.get?_setSlot k.registry d.thread u _).trans (if_neg hne)

theorem Suspended.moves {slot slot' : Slot Activation} {task : ThreadTask Activation}
    {r : YieldPoint.Polled ThreadId} (h : Suspended t slot slot' task r k k')
    (hsound : k.table.Sound) (hslot : k.registry.get? t = some slot)
    (hr : ∀ u, u ≠ t → r.invoked.toList.count u = 0) : Moves t slot slot' k k' where
  sound := h.table ▸ hsound
  before := hslot
  get? := h.get?
  joinQueue := by rw [h.slot]
  waker := by rw [h.slot]
  waiting _ _ := by rw [h.table]
  transfer := by rw [h.table]
  channel u hu := by rw [h.channel, List.count_append, hr u hu, Nat.add_zero]
  ready := h.ready
  number := h.number

/-- A thread that does not pass its yield point is announced at once, or parked. -/
theorem Placed.poll_park {point point' : YieldPoint} {r : Resume} {a : Activation}
    {k₁ : Kernel Activation} {d : Dispatched Activation} (hpark : k₁.park d = .ok k')
    (h : Placed uses asleep (some (d.thread, p)) k) (ha : a.Takes p) (hplain : a.Plain)
    (hstage : a.stage = .suspended point r)
    (hpoll : k.pollPoint d.thread point = (false, point', k₁))
    (htask : d.task.coroutine = { a with stage := .suspended point' r }) :
    Placed uses asleep none k' ∧ Later k k' := by
  obtain ⟨slot, hslot, -, -, hwoken⟩ := h.2.slot
  obtain ⟨rfl, hready, slot', hs⟩ := poll_park_ok hslot hpoll hpark
  rw [h.1.waker hslot] at hs hready htask
  have hcode : d.task.coroutine.Plain := by
    rw [htask]
    exact hplain
  have hlater : Later k k' := ⟨by rw [hs.table]; exact .refl _, hs.ready⟩
  cases ha with
  | fresh hf =>
    rw [hf] at hstage
    cases hstage
  | yielding hy =>
    rw [hy] at hstage
    cases hstage
    have hm : Moves d.thread slot slot' k k' := by
      refine hs.moves h.1.sound hslot fun u hu => ?_
      show [d.thread].count u = 0
      rw [List.count_singleton, if_neg (by simpa using Ne.symm hu)]
    have hnow : Nowhere asleep k d.thread := h.2.place
    refine ⟨h.suspend hm hs.table hs.current ?_, hlater⟩
    refine .announced ?_ ?_ hnow.asleep ⟨d.task, ?_, hcode, .inr ⟨⟨true, true⟩, r, ?_, rfl, ?_⟩⟩
    · rw [hs.table]
      exact hnow.waiting
    · rw [hs.channel, List.count_append, hnow.channel]
      show 0 + [d.thread].count d.thread = 1
      simp
    · rw [hs.slot]
    · rw [htask]
      rfl
    · rw [hs.slot]
      rfl
  | passing hp hy =>
    rw [hp] at hstage
    cases hstage
    rw [YieldPoint.poll, hy, hwoken rfl] at hready
    cases hready
  | blocking hb hne =>
    rw [hb] at hstage
    cases hstage
    have hm : Moves d.thread slot slot' k k' := hs.moves h.1.sound hslot fun _ _ => rfl
    have hplace : Blocked uses asleep k d.thread := h.2.place
    refine ⟨h.suspend hm hs.table hs.current ?_, hlater⟩
    refine .parked ⟨by rw [hs.slot]; rfl, d.task, ⟨false, true⟩, r, by rw [hs.slot], hcode, ?_, rfl⟩
      ⟨?_, ?_⟩
    · rw [htask]
      rfl
    · rw [hs.channel]
      exact (congrArg (List.count d.thread) (List.append_nil _)).trans hplace.channel
    · rw [hs.table]
      rcases hplace.place with ⟨⟨q, hw, hq⟩, has⟩ | hb
      · have hq' : Primitive uses k' q := h.1.layout.unassigned.primitive hq fun _ _ => hm.forth
        exact .inl ⟨⟨q, hw, hq'⟩, has⟩
      · exact .inr hb

theorem Placed.restoreAll {run : Option (ThreadId × Posture)} (h : Placed uses asleep run k)
    (l : List Level) : Placed uses asleep run (k.restoreAll l) ∧ Later k (k.restoreAll l) := by
  unfold Kernel.restoreAll
  induction l generalizing k with
  | nil => exact ⟨h, .refl k⟩
  | cons level l ih =>
    have h' : Placed uses asleep run (k.restore level) := h.congr rfl rfl rfl
    obtain ⟨hp, hl⟩ := ih h'
    exact ⟨hp, ⟨hl.table, hl.ready⟩⟩

theorem Placed.finish {a : Activation} {d : Dispatched Activation}
    (h : Placed uses asleep (some (d.thread, p)) k) (ha : a.Takes p) (hcode : a.code = [])
    (hr : k.finish d = .ok k') : Placed uses asleep none k' ∧ Later k k' := by
  have hp : p ≠ .blocking := by
    rintro rfl
    cases ha with
    | blocking _ hne => exact hne hcode
  have hplace := h.2.place
  rw [if_neg hp] at hplace
  have hsit : Situated uses asleep (some d.thread) (k.backToLoop d) :=
    h.1.congr rfl rfl rfl rfl rfl
  obtain ⟨hpl, hl⟩ := hsit.retire rfl ⟨hplace.waiting, hplace.channel, hplace.asleep⟩ hr
  exact ⟨hpl, ⟨hl.table, hl.ready⟩⟩

/-! ## Passing a yield point -/

theorem Placed.poll_ready {point point' : YieldPoint} {r : Resume} {a : Activation}
    (h : Placed uses asleep (some (t, p)) k) (ha : a.Takes p)
    (hstage : a.stage = .suspended point r) (hpoll : k.pollPoint t point = (true, point', k')) :
    Placed uses asleep (some (t, .free)) k' ∧ Later k k' := by
  obtain ⟨slot, hslot, htask, hown, hwoken⟩ := h.2.slot
  simp only [pollPoint, hslot] at hpoll
  obtain ⟨hready, hrest⟩ := Prod.mk.inj hpoll
  obtain ⟨-, rfl⟩ := Prod.mk.inj hrest
  cases ha with
  | fresh hf =>
    rw [hf] at hstage
    cases hstage
  | yielding hy =>
    rw [hy] at hstage
    cases hstage
    cases hready
  | blocking hb hne =>
    rw [hb] at hstage
    cases hstage
    cases hready
  | passing hp hy =>
    rw [hp] at hstage
    cases hstage
    have hpass : (point.poll slot.waker slot.signal) =
        ⟨true, point, ⟨false, slot.signal.waker⟩, none⟩ := by
      rw [YieldPoint.poll, hy, hwoken rfl]
      rfl
    rw [hpass]
    set k' : Kernel Activation := { k with registry :=
      (k.registry.setSlot t { slot with signal := ⟨false, slot.signal.waker⟩ }).postOption none }
    have hchan : k'.registry.channel = k.registry.channel := List.append_nil _
    have hm : Moves t slot { slot with signal := ⟨false, slot.signal.waker⟩ } k k' :=
      ⟨h.1.sound, hslot, fun u => Registry.get?_setSlot _ _ _ _, rfl, rfl, fun _ _ => rfl, rfl,
        fun u _ => by rw [hchan], rfl, rfl⟩
    have hsit : Situated uses asleep (some t) k' :=
      h.1.moves hm h.1.layout.unassigned (fun _ _ => rfl) (fun _ _ hx => hx) h.1.holder
        h.1.join_owner fun hx => absurd rfl hx
    have hnow : Nowhere asleep k t := h.2.place
    refine ⟨⟨hsit, h.2.current, ⟨_, hm.self, htask, hown, by rintro ⟨⟩⟩, ?_⟩, .refl _, rfl⟩
    exact ⟨hnow.waiting, by rw [hchan]; exact hnow.channel, hnow.asleep⟩

/-! ## Coming back to the processor -/

/-- The kernel with other announcements. -/
def announcing (l : List ThreadId) (k : Kernel Activation) : Kernel Activation :=
  { k with registry := { k.registry with channel := l } }

/-- Who is announced can be dispatched, waits nowhere, and is announced once. -/
theorem Placed.announced_head {l : List ThreadId}
    (h : Placed uses asleep none (k.announcing (t :: l))) :
    ∃ slot, k.registry.get? t = some slot ∧ k.table.waitingQueue t = none ∧ l.count t = 0 ∧
      asleep t = 0 ∧ slot.Resumable := by
  have hcount : (k.announcing (t :: l)).registry.channel.count t = l.count t + 1 :=
    List.count_cons_self
  cases hs : k.registry.get? t with
  | none =>
    have := (h.1.absent hs).channel
    omega
  | some slot =>
    cases h.1.standing (by simp) hs with
    | ready _ hc _ _ => omega
    | parked _ hb =>
      have := hb.channel
      omega
    | announced hw hc ha hr => exact ⟨slot, rfl, hw, by omega, ha, hr⟩

/-- The thread that was announced first is ready. -/
theorem Placed.admits {l : List ThreadId} {tb : Table}
    (h : Placed uses asleep none (k.announcing (t :: l)))
    (htb : k.table.waitForAccess k.readyQueue t = .ok tb) :
    Placed uses asleep none (({ k with table := tb } : Kernel Activation).announcing l) ∧
      k.table.Precedes tb := by
  obtain ⟨-, -, he⟩ := Table.waitForAccess_effect h.1.sound htb
  set k₁ : Kernel Activation := k.announcing (t :: l)
  set k₂ : Kernel Activation := ({ k with table := tb } : Kernel Activation).announcing l
  have hw : ∀ u, k₂.table.waitingQueue u =
      Function.update k.table.links.waiting t (some k.readyQueue) u :=
    fun u => congrFun (congrArg Table.Links.waiting he.links) u
  have hown : ∀ {r g}, r ≠ k.readyQueue → k.table.links.owner r = some g →
      k₂.table.links.owner r = some g := by
    intro r g hr ho
    show tb.links.owner r = _
    rw [he.links]
    exact owner_given_up ho fun heq => absurd heq hr
  obtain ⟨slot, hslot, -, hcount, ha, hr⟩ := h.announced_head
  have hm : Moves t slot slot k₁ k₂ := by
    refine ⟨he.sound, hslot, get?_same hslot, rfl, rfl, fun u hu => ?_, ?_, fun u hu => ?_, rfl,
      rfl⟩
    · exact (hw u).trans (Function.update_of_ne hu _ _)
    · show tb.links.transfer = _
      rw [he.links]
    · exact (List.count_cons_of_ne (Ne.symm hu)).symm
  refine ⟨⟨h.1.moves hm h.1.layout.unassigned (fun _ _ => rfl) (fun _ _ hx => hx) ?_ ?_ fun _ => ?_,
    h.2⟩, he.precedes⟩
  · intro u hu g hg
    obtain ⟨hlt, ho⟩ := h.1.holder u hu g hg
    exact ⟨hlt, fun hal => hown (h.1.layout.ready_apart u hu) (ho hal)⟩
  · exact fun hx hu => hown (h.1.layout.join_ne_ready hu) (h.1.join_owner hx hu)
  · exact .ready ((hw t).trans (Function.update_self _ _ _)) hcount ha hr

theorem Placed.admitEach (l : List ThreadId) {k : Kernel Activation}
    (h : Placed uses asleep none (k.announcing l)) (hr : admitEach l k = .ok k') :
    Placed uses asleep none (k'.announcing []) ∧ Later k k' ∧
      ∃ tb, k' = { k with table := tb } := by
  replace hr := admitEach_ok hr
  induction hr with
  | nobody => exact ⟨h, .refl _, _, rfl⟩
  | @gone t _ k _ absent =>
    obtain ⟨slot, hslot, -⟩ := h.announced_head
    cases hslot.symm.trans absent
  | waits ready =>
    obtain ⟨slot, -, hnone, -⟩ := h.announced_head
    cases hnone.symm.trans ready
  | comes _ wait _ ih =>
    obtain ⟨tb, htb, rfl⟩ := withTable_ok wait
    obtain ⟨hp, hpre⟩ := h.admits htb
    obtain ⟨hp', hl, tb', rfl⟩ := ih hp
    exact ⟨hp', ⟨hpre.trans hl.table, rfl⟩, tb', rfl⟩

/-- Once all announced threads are admitted, nobody is announced any more. -/
theorem Placed.admitWoken (h : Placed uses asleep none k) (hr : k.admitWoken = .ok k') :
    Placed uses asleep none k' ∧ Later k k' ∧ k'.registry.channel = [] ∧
      k'.registry.slots = k.registry.slots := by
  unfold Kernel.admitWoken Registry.drain at hr
  have h' : Placed uses asleep none ((k.announcing []).announcing k.registry.channel) := h
  obtain ⟨hp, hl, tb, rfl⟩ := h'.admitEach k.registry.channel hr
  exact ⟨hp, ⟨hl.table, hl.ready⟩, rfl, rfl⟩

theorem Placed.choose_none (h : Placed uses asleep none k)
    (hn : k.nextThread k.readyQueue = .ok (none, k')) :
    Placed uses asleep none k' ∧ Later k k' := by
  obtain ⟨tb, htb, rfl⟩ := nextThread_ok hn
  obtain ⟨qs, -, ⟨-, -, he⟩ | ⟨r, hr, -⟩⟩ := Table.nextThread_effect h.1.sound htb
  · refine ⟨?_, he.precedes, rfl⟩
    exact h.pass_on he rfl rfl rfl h.1.layout.unassigned
      (fun t slot hs => h.1.layout.join_ne_ready hs) (fun g hg => by cases hg)
  · cases hr

/-- Who waits in the ready queue can be dispatched. -/
theorem Placed.resumable_of_ready (h : Placed uses asleep none k)
    (hw : k.table.waitingQueue t = some k.readyQueue) :
    ∃ slot, k.registry.get? t = some slot ∧ slot.Resumable ∧
      k.registry.channel.count t = 0 ∧ asleep t = 0 := by
  cases hs : k.registry.get? t with
  | none =>
    have hn := (h.1.absent hs).waiting
    rw [hw] at hn
    cases hn
  | some slot =>
    cases h.1.standing (by simp) hs with
    | ready _ hc ha hr => exact ⟨slot, rfl, hr, hc, ha⟩
    | announced hn _ _ _ =>
      rw [hw] at hn
      cases hn
    | parked _ hb =>
      rcases hb.place with ⟨⟨q, hq, hp⟩, -⟩ | ⟨hn, -⟩
      · rw [hw] at hq
        exact absurd (Option.some.inj hq).symm (h.1.layout.ne_ready hp)
      · rw [hw] at hn
        cases hn

/-- The thread that the ready queue hands out is dispatched, and is nowhere while it runs. -/
theorem Placed.choose {k₁ : Kernel Activation}
    {r : Option (Dispatched Activation × Kernel Activation)} (level : Level)
    (h : Placed uses asleep none k) (hn : k.nextThread k.readyQueue = .ok (some t, k₁))
    (hd : (k₁.restore level).dispatch t = .ok r) :
    ∃ d k' p, r = some (d, k') ∧ d.thread = t ∧ d.task.coroutine.Plain ∧
      d.task.coroutine.Takes p ∧ Placed uses asleep (some (t, p)) k' ∧ Later k k' ∧
        k'.table = k₁.table := by
  obtain ⟨tb, htb, rfl⟩ := nextThread_ok hn
  obtain ⟨qs, hqs, ⟨hr, -⟩ | ⟨rec, hr, hmem, -, he⟩⟩ := Table.nextThread_effect h.1.sound htb
  · cases hr
  cases hr
  obtain ⟨slot, hslot, hres, hchan, hasleep⟩ :=
    h.resumable_of_ready (h.1.sound.linked.waiting_of_mem hqs hmem)
  obtain ⟨task, p, htask, hplain, htakes, hne, hwoken⟩ := hres.takes
  unfold Kernel.dispatch at hd
  have hget : (restore level { k with table := tb }).registry.get? rec.thread = some slot := hslot
  simp only [hget, htask] at hd
  cases hd
  refine ⟨_, _, p, rfl, rfl, hplain, htakes, ?_, ⟨he.precedes, rfl⟩, rfl⟩
  set k' : Kernel Activation := { k with
    registry := { k.registry.setSlot rec.thread { slot with task := none } with
      current := some rec.thread }
    table := tb
    level := slot.level }
  have hw : ∀ u, tb.waitingQueue u = Function.update k.table.links.waiting rec.thread none u :=
    fun u => congrFun (congrArg Table.Links.waiting he.links) u
  have hown : ∀ {r}, r ≠ k.readyQueue → tb.links.owner r = k.table.links.owner r := by
    intro r hr
    rw [he.links]
    exact Function.update_of_ne hr _ _
  have hm : Moves rec.thread slot { slot with task := none } k k' := by
    refine ⟨he.sound, hslot, fun u => Registry.get?_setSlot k.registry rec.thread u _, rfl, rfl,
      fun u hu => (hw u).trans (Function.update_of_ne hu _ _), ?_, fun _ _ => rfl, rfl, rfl⟩
    show tb.links.transfer = _
    rw [he.links]
  have hjoin : ∀ {u s}, k.registry.get? u = some s → tb.links.owner s.joinQueue = some u :=
    fun hs => (hown (h.1.layout.join_ne_ready hs)).trans (h.join_owner hs)
  have hsit : Situated uses asleep (some rec.thread) k' := by
    refine h.1.moves hm h.1.layout.unassigned (fun _ _ => rfl) (fun _ _ _ => by simp) ?_
      (fun _ => hjoin) fun hx => absurd rfl hx
    intro u hu g hg
    obtain ⟨hlt, ho⟩ := h.1.holder u hu g hg
    exact ⟨hlt, fun hal => (hown (h.1.layout.ready_apart u hu)).trans (ho hal)⟩
  have hself : tb.links.owner slot.joinQueue = some rec.thread := hjoin hslot
  refine ⟨hsit, rfl, ⟨_, hm.self, rfl, hself, hwoken⟩, ?_⟩
  rw [if_neg hne]
  exact ⟨(hw _).trans (Function.update_self _ _ _), hchan, hasleep⟩

/-! ## Alarms -/

/-- Sleepers are announced one after the other. -/
theorem Placed.wakeEach (l : List Sleeper) {k : Kernel Activation}
    (h : Placed uses (fun t => (l.map Sleeper.thread).count t + asleep t) none k)
    (hr : Alarm.wakeEach l k = .ok k') : Placed uses asleep none k' ∧ Later k k' := by
  replace hr := Alarm.wakeEach_ok hr
  induction hr with
  | nobody =>
    have ha : (fun t => (([] : List Sleeper).map Sleeper.thread).count t + asleep t) = asleep :=
      funext fun t => Nat.zero_add _
    rw [ha] at h
    exact ⟨h, .refl _⟩
  | @wakes s l k k₁ _ hm _ ih =>
    have hself : ((s :: l).map Sleeper.thread).count s.thread + asleep s.thread =
        (l.map Sleeper.thread).count s.thread + 1 + asleep s.thread := by
      rw [List.map_cons, List.count_cons_self]
    obtain ⟨-, slot, hslot, -⟩ := markReady_ok hm
    obtain ⟨hp, hb⟩ : slot.Parked s.thread ∧ Blocked uses _ k s.thread := by
      cases h.1.standing (by simp) hslot with
      | ready _ _ ha _ => omega
      | announced _ _ ha _ => omega
      | parked hp hb => exact ⟨hp, hb⟩
    obtain ⟨hw, hone⟩ : k.table.waitingQueue s.thread = none ∧
        ((s :: l).map Sleeper.thread).count s.thread + asleep s.thread = 1 := by
      rcases hb.place with ⟨-, ha⟩ | hb
      · omega
      · exact hb
    have hupd : k.table.links.waiting =
        Function.update k.table.links.waiting s.thread none :=
      (Function.update_eq_self_iff.2 hw.symm).symm
    have hsame : ∀ u, u ≠ s.thread → (l.map Sleeper.thread).count u + asleep u =
        ((s :: l).map Sleeper.thread).count u + asleep u := fun u hu => by
      rw [List.map_cons, List.count_cons_of_ne (Ne.symm hu)]
    have hnone : (l.map Sleeper.thread).count s.thread + asleep s.thread = 0 := by omega
    have hann : Situated uses (fun t => (l.map Sleeper.thread).count t + asleep t) none k₁ ∧
        Spares (some s.thread) uses _ k uses _ k₁ ∧ k₁.table = k.table ∧
          k₁.registry.current = k.registry.current :=
      h.1.announce (fun slot' hs' => Option.some.inj (hslot.symm.trans hs') ▸ hp) hb.channel
        (.unchanged h.1.sound) hupd rfl h.1.layout.unassigned h.1.holder (fun _ _ => rfl) hnone
        hsame hm
    obtain ⟨hsit, hs, htbl, hcur⟩ := hann
    obtain ⟨hp', hl⟩ := ih ⟨hsit, hcur.trans h.2⟩
    exact ⟨hp', Later.trans ⟨by rw [htbl]; exact .refl _, hs.ready⟩ hl⟩

/-- The running thread begins to wait at an alarm. -/
theorem Placed.fallAsleep {asleep' : ThreadId → Nat}
    (h : Placed uses asleep (some (t, .free)) k) (ht : asleep' t = asleep t + 1)
    (hsame : ∀ u, u ≠ t → asleep' u = asleep u) : Placed uses asleep' (some (t, .blocking)) k := by
  have hnow : Nowhere asleep k t := h.2.place
  obtain ⟨slot, hslot, htask, hown, -⟩ := h.2.slot
  have hm : Moves t slot slot k k :=
    ⟨h.1.sound, hslot, get?_same hslot, rfl, rfl, fun _ _ => rfl, rfl, fun _ _ => rfl, rfl, rfl⟩
  refine ⟨h.1.moves hm h.1.layout.unassigned hsame (fun _ _ hx => hx) h.1.holder h.1.join_owner
    fun hx => absurd rfl hx, h.2.current, ⟨slot, hslot, htask, hown, by rintro ⟨⟩⟩, hnow.channel,
    .inr ⟨hnow.waiting, ?_⟩⟩
  rw [ht, hnow.asleep]

end Kernel
end ThreadKernel
