import Mathlib.Data.Set.Card
import ThreadKernel.Proofs.Directory
import ThreadKernel.Registry.History

/-!
# ThreadKernel.Proofs.Registry

Who is who in a registry. The cells that hold the slots are used again, but a number, the slot found
under it and the wakers taken from there belong to one thread for good.

* `Op.onSlot`           — what an operation does to the slot of one thread.
* `Alive`, `Holds`      — who is alive after a past, and with which slot.
* `announced`           — whom the wakers announced since the last drain.
* `Moves`               — what an operation that returns has done.
* `Treated`             — what it has done about one thread.
* `Accounts`            — the invariant.
* `registry_identities` — a registry after any past.
-/

namespace ThreadKernel.RegistryHistory

variable {κ : Type} {h h' : RegistryHistory κ} {past : List (Entry κ)} {op : Op κ} {a : Answer κ}
  {t u : ThreadId} {slot : Slot κ}

/-! ## What a past says -/

/-- The thread that was admitted. -/
def Entry.admitted? (e : Entry κ) : Option ThreadId :=
  match e.op, e.answer with
  | .insert _ _ _, .admitted t => some t
  | _, _ => none

/-- The numbers that were given, the newest first. -/
def issued (past : List (Entry κ)) : List ThreadId := past.filterMap Entry.admitted?

/-- The thread from whose slot a waker was taken. -/
def Entry.taken? (e : Entry κ) : Option ThreadId :=
  match e.op, e.answer with
  | .takeWaker t, .done true => some t
  | _, _ => none

/-- The threads from whose slots the wakers were taken, the first one first. -/
def takenFrom (past : List (Entry κ)) : List ThreadId := past.reverse.filterMap Entry.taken?

/-- The threads whose wakers were invoked since the channel was drained, in that order. -/
def announced : List (Entry κ) → List ThreadId
  | [] => []
  | e :: past =>
    match e.op with
    | .drain => []
    | .wake i => announced past ++ ((takenFrom past)[i]?).toList
    | _ => announced past

/-- The thread whose slot the operation changes. -/
def Op.target? : Op κ → Option ThreadId
  | .takeTask t | .putTask t _ | .setLevel t _ | .setSignal t _ => some t
  | _ => none

/-- What the operation does to the slot of `t`. -/
def Op.onSlot (t : ThreadId) (slot : Slot κ) : Op κ → Slot κ
  | .takeTask u => if u = t then { slot with task := none } else slot
  | .putTask u task => if u = t then { slot with task := some task } else slot
  | .setLevel u level => if u = t then { slot with level := level } else slot
  | .setSignal u signal => if u = t then { slot with signal := signal } else slot
  | _ => slot

/-- The thread was admitted, and not removed since. -/
def Alive (past : List (Entry κ)) (t : ThreadId) : Prop :=
  ∃ later name coroutine q earlier,
    past = later ++ ⟨.insert name coroutine q, .admitted t⟩ :: earlier ∧
    ∀ e ∈ later, e.op ≠ .remove t

/-- The thread was admitted, and not removed since. Its slot is the one created then, with what was
done to it since. -/
def Holds (past : List (Entry κ)) (t : ThreadId) (slot : Slot κ) : Prop :=
  ∃ later name coroutine q earlier,
    past = later ++ ⟨.insert name coroutine q, .admitted t⟩ :: earlier ∧
    (∀ e ∈ later, e.op ≠ .remove t) ∧
    slot = later.foldr (fun e slot => e.op.onSlot t slot) (.created name coroutine q t)

theorem alive_iff_holds : Alive past t ↔ ∃ slot, Holds past t slot := by
  constructor
  · rintro ⟨later, name, coroutine, q, earlier, hpast, hkept⟩
    exact ⟨_, later, name, coroutine, q, earlier, hpast, hkept, rfl⟩
  · rintro ⟨_, later, name, coroutine, q, earlier, hpast, hkept, -⟩
    exact ⟨later, name, coroutine, q, earlier, hpast, hkept⟩

/-- Whoever holds a slot got it just now, or held it before and was not removed. -/
theorem holds_cons {e : Entry κ} :
    Holds (e :: past) t slot ↔
      (∃ name coroutine q, e = ⟨.insert name coroutine q, .admitted t⟩ ∧
        slot = .created name coroutine q t) ∨
      ∃ slot₀, Holds past t slot₀ ∧ e.op ≠ .remove t ∧ slot = e.op.onSlot t slot₀ := by
  constructor
  · rintro ⟨later, name, coroutine, q, earlier, hpast, hkept, hslot⟩
    cases later with
    | nil =>
      obtain ⟨rfl, -⟩ := List.cons.inj hpast
      exact .inl ⟨name, coroutine, q, rfl, hslot⟩
    | cons x later =>
      obtain ⟨rfl, rfl⟩ := List.cons.inj hpast
      obtain ⟨hnow, hkept⟩ := List.forall_mem_cons.1 hkept
      exact .inr ⟨_, ⟨later, name, coroutine, q, earlier, rfl, hkept, rfl⟩, hnow, hslot⟩
  · rintro (⟨name, coroutine, q, rfl, rfl⟩ | ⟨slot₀, hold, hnow, rfl⟩)
    · exact ⟨[], name, coroutine, q, past, rfl, by simp, rfl⟩
    · obtain ⟨later, name, coroutine, q, earlier, rfl, hkept, rfl⟩ := hold
      exact ⟨e :: later, name, coroutine, q, earlier, rfl,
        List.forall_mem_cons.2 ⟨hnow, hkept⟩, rfl⟩

@[simp] theorem onSlot_waker : (op.onSlot t slot).waker = slot.waker := by
  unfold Op.onSlot
  split <;> first | rfl | (split <;> rfl)

@[simp] theorem onSlot_joinQueue : (op.onSlot t slot).joinQueue = slot.joinQueue := by
  unfold Op.onSlot
  split <;> first | rfl | (split <;> rfl)

/-- A task that is in a slot afterwards was there before, or was put there. -/
theorem onSlot_task {task : ThreadTask κ} (ht : (op.onSlot t slot).task = some task) :
    slot.task = some task ∨ op = .putTask t task := by
  cases op with
  | takeTask u =>
    simp only [Op.onSlot] at ht
    split at ht
    · cases ht
    · exact .inl ht
  | putTask u task' =>
    simp only [Op.onSlot] at ht
    split at ht
    · rename_i hu
      cases ht
      exact .inr (hu ▸ rfl)
    · exact .inl ht
  | setLevel u | setSignal u =>
    simp only [Op.onSlot] at ht
    split at ht <;> exact .inl ht
  | insert | remove | takeWaker | wake | drain => exact .inl ht

theorem onSlot_of_ne (ht : op.target? ≠ some t) : op.onSlot t slot = slot := by
  cases op with
  | takeTask | putTask | setLevel | setSignal => exact if_neg fun e => ht (congrArg some e)
  | insert | remove | takeWaker | wake | drain => rfl

/-- An operation that changes a slot admits and removes nobody, and announces nobody. -/
theorem quiet_of_target (ht : op.target? = some t) (a : Answer κ) (past : List (Entry κ)) :
    (⟨op, a⟩ : Entry κ).admitted? = none ∧ (⟨op, a⟩ : Entry κ).taken? = none ∧
      announced (⟨op, a⟩ :: past) = announced past ∧ ∀ u, op ≠ .remove u := by
  cases op with
  | takeTask | putTask | setLevel | setSignal => exact ⟨rfl, rfl, rfl, fun _ => nofun⟩
  | insert | remove | takeWaker | wake | drain => cases ht

/-- The marks of the slot are those of the admission. -/
theorem Holds.marks (hs : Holds past t slot) : ∃ name coroutine q,
    ⟨.insert name coroutine q, .admitted t⟩ ∈ past ∧ slot.waker = t ∧ slot.joinQueue = q ∧
    ∀ task, slot.task = some task →
      task = ⟨name, t, coroutine⟩ ∨ ∃ e ∈ past, e.op = .putTask t task := by
  obtain ⟨later, name, coroutine, q, earlier, rfl, -, rfl⟩ := hs
  refine ⟨name, coroutine, q, by simp, ?_⟩
  induction later with
  | nil =>
    refine ⟨rfl, rfl, fun task ht => .inl ?_⟩
    exact (Option.some.inj ht).symm
  | cons e later ih =>
    obtain ⟨hwaker, hqueue, htask⟩ := ih
    refine ⟨onSlot_waker.trans hwaker, onSlot_joinQueue.trans hqueue, fun task ht => ?_⟩
    rcases onSlot_task ht with ht | hput
    · refine (htask task ht).imp_right ?_
      rintro ⟨x, hx, hput⟩
      exact ⟨x, List.mem_cons_of_mem _ hx, hput⟩
    · exact .inr ⟨e, List.mem_cons_self, hput⟩

/-! ## What an operation does -/

/-- What an operation that returns has done. -/
inductive Moves (h : RegistryHistory κ) : Op κ → Answer κ → RegistryHistory κ → Prop where
  | admits {name : String} {coroutine : κ} {q : QueueId} {t : ThreadId}
      (number : t = ⟨h.registry.nextNumber⟩) (free : h.registry.get? t = none) :
      Moves h (.insert name coroutine q) (.admitted t)
        { h with registry := { h.registry with
          slots := h.registry.slots.insert t (.created name coroutine q t)
          nextNumber := h.registry.nextNumber + 1 } }
  | removes {t : ThreadId} {slot : Slot κ} (found : h.registry.get? t = some slot) :
      Moves h (.remove t) (.removed (some slot))
        { h with registry := { h.registry with slots := h.registry.slots.erase t } }
  | gone {t : ThreadId} (absent : h.registry.get? t = none) : Moves h (.remove t) (.removed none) h
  | changes {op : Op κ} {a : Answer κ} {t : ThreadId} {slot : Slot κ} (target : op.target? = some t)
      (found : h.registry.get? t = some slot) :
      Moves h op a { h with registry := h.registry.setSlot t (op.onSlot t slot) }
  | misses {op : Op κ} {a : Answer κ} {t : ThreadId} (target : op.target? = some t)
      (absent : h.registry.get? t = none) : Moves h op a h
  | takes {t : ThreadId} {slot : Slot κ} (found : h.registry.get? t = some slot) :
      Moves h (.takeWaker t) (.done true) { h with wakers := h.wakers ++ [slot.waker] }
  | refuses {t : ThreadId} (absent : h.registry.get? t = none) :
      Moves h (.takeWaker t) (.done false) h
  | wakes {i : Nat} {found : Bool} :
      Moves h (.wake i) (.done found) { h with registry := h.registry.postOption h.wakers[i]? }
  | drains : Moves h .drain (.announced h.registry.channel)
      { h with registry := { h.registry with channel := [] } }

theorem Moves.of_onSlot {slot' : Slot κ} (target : op.target? = some t)
    (found : h.registry.get? t = some slot) (hslot : op.onSlot t slot = slot') :
    Moves h op a { h with registry := h.registry.setSlot t slot' } := hslot ▸ .changes target found

theorem putTask_ok {task : ThreadTask κ} {slot' : Slot κ} (hp : slot.putTask task = .ok slot') :
    slot' = { slot with task := some task } := by
  unfold Slot.putTask at hp
  split at hp
  · cases hp
  · exact (Except.ok.inj hp).symm

theorem apply_moves (ha : h.apply op = .ok (a, h')) : Moves h op a h' := by
  cases op with
  | insert name coroutine q =>
    simp only [apply] at ha
    split at ha
    · cases ha
    · rename_i t r hins
      obtain ⟨hnumber, hfree, rfl⟩ := Registry.insert_ok hins
      cases ha
      exact .admits hnumber hfree
  | remove t =>
    simp only [apply, Registry.remove] at ha
    cases hs : h.registry.get? t with
    | none =>
      rw [hs] at ha
      cases ha
      exact .gone hs
    | some slot =>
      rw [hs] at ha
      cases ha
      exact .removes hs
  | takeTask t | setLevel t | setSignal t =>
    simp only [apply, Registry.takeTask, Registry.setLevel] at ha
    cases hs : h.registry.get? t with
    | none =>
      rw [hs] at ha
      cases ha
      exact .misses rfl hs
    | some slot =>
      rw [hs] at ha
      cases ha
      exact .of_onSlot rfl hs (if_pos rfl)
  | putTask t task =>
    simp only [apply, Registry.putTask] at ha
    cases hs : h.registry.get? t with
    | none =>
      rw [hs] at ha
      cases ha
      exact .misses rfl hs
    | some slot =>
      simp only [hs] at ha
      cases hput : slot.putTask task with
      | error e =>
        rw [hput] at ha
        cases ha
      | ok slot' =>
        rw [hput] at ha
        cases ha
        exact .of_onSlot rfl hs ((if_pos rfl).trans (putTask_ok hput).symm)
  | takeWaker t =>
    simp only [apply] at ha
    cases hs : h.registry.get? t with
    | none =>
      rw [hs] at ha
      cases ha
      exact .refuses hs
    | some slot =>
      rw [hs] at ha
      cases ha
      exact .takes hs
  | wake i =>
    simp only [apply] at ha
    cases hw : h.wakers[i]? with
    | none =>
      rw [hw] at ha
      cases ha
      have hmoves : Moves h (.wake i) (.done false)
          { h with registry := h.registry.postOption none } := hw ▸ .wakes
      simpa [Registry.postOption] using hmoves
    | some w =>
      rw [hw] at ha
      cases ha
      have hmoves : Moves h (.wake i) (.done true)
          { h with registry := h.registry.postOption (some w) } := hw ▸ .wakes
      exact hmoves
  | drain =>
    cases ha
    exact .drains

/-! ## Every past -/

/-- The registry agrees with the past. -/
structure Accounts (past : List (Entry κ)) (h : RegistryHistory κ) : Prop where
  below : ∀ t ∈ issued past, t.number < h.registry.nextNumber
  ascending : (issued past).Pairwise fun newer older => older.number < newer.number
  slot : ∀ t slot, h.registry.get? t = some slot ↔ Holds past t slot
  wakers : h.wakers = takenFrom past
  channel : h.registry.channel = announced past

theorem issued_cons (e : Entry κ) : issued (e :: past) = e.admitted?.toList ++ issued past := by
  rw [issued, List.filterMap_cons]
  cases e.admitted? <;> rfl

theorem takenFrom_cons (e : Entry κ) :
    takenFrom (e :: past) = takenFrom past ++ e.taken?.toList := by
  rw [takenFrom, List.reverse_cons, List.filterMap_append, List.filterMap_cons]
  cases e.taken? <;> rfl

/-- Whoever holds a slot was given a number. -/
theorem Holds.issued (hs : Holds past t slot) : t ∈ issued past := by
  obtain ⟨name, coroutine, q, hmem, -⟩ := hs.marks
  exact List.mem_filterMap.2 ⟨_, hmem, rfl⟩

/-- `t` has the slot it had before, with what the operation does to it, unless it was removed. -/
def Treated (h : RegistryHistory κ) (op : Op κ) (h' : RegistryHistory κ) (t : ThreadId) : Prop :=
  ∀ slot, h'.registry.get? t = some slot ↔
    ∃ slot₀, h.registry.get? t = some slot₀ ∧ op ≠ .remove t ∧ slot = op.onSlot t slot₀

theorem treated_of_same (htarget : op.target? ≠ some t) (hremove : op ≠ .remove t)
    (hget : h'.registry.get? t = h.registry.get? t) : Treated h op h' t := by
  intro slot
  rw [hget]
  constructor
  · intro hs
    exact ⟨slot, hs, hremove, (onSlot_of_ne htarget).symm⟩
  · rintro ⟨slot₀, hs, -, rfl⟩
    rwa [onSlot_of_ne htarget]

theorem treated_of_absent (hget : h.registry.get? t = none) (hget' : h'.registry.get? t = none) :
    Treated h op h' t := by
  intro slot
  rw [hget, hget']
  exact ⟨nofun, fun ⟨_, hs, _⟩ => nomatch hs⟩

theorem Moves.treated (hm : Moves h op a h') (ha : (⟨op, a⟩ : Entry κ).admitted? = none)
    (u : ThreadId) : Treated h op h' u := by
  cases hm with
  | admits => cases ha
  | @removes t slot found =>
    by_cases htu : t = u
    · subst htu
      intro s
      rw [Registry.get?, Directory.get?_erase, if_pos rfl]
      exact ⟨nofun, fun ⟨_, _, hne, _⟩ => absurd rfl hne⟩
    · refine treated_of_same nofun (fun e => htu (by cases e; rfl)) ?_
      rw [Registry.get?, Directory.get?_erase, if_neg htu]
      rfl
  | @gone t absent =>
    by_cases htu : t = u
    · exact treated_of_absent (htu ▸ absent) (htu ▸ absent)
    · exact treated_of_same nofun (fun e => htu (by cases e; rfl)) rfl
  | @changes _ _ t slot target found =>
    obtain ⟨-, -, -, hremoves⟩ := quiet_of_target target a []
    by_cases htu : t = u
    · subst htu
      intro s
      rw [Registry.get?_setSlot, if_pos rfl]
      constructor
      · intro hs
        exact ⟨slot, found, hremoves t, (Option.some.inj hs).symm⟩
      · rintro ⟨_, hs, -, rfl⟩
        cases found.symm.trans hs
        rfl
    · refine treated_of_same (fun e => htu (Option.some.inj (target.symm.trans e))) (hremoves u) ?_
      rw [Registry.get?_setSlot, if_neg htu]
  | @misses _ _ t target absent =>
    obtain ⟨-, -, -, hremoves⟩ := quiet_of_target target a []
    by_cases htu : t = u
    · exact treated_of_absent (htu ▸ absent) (htu ▸ absent)
    · exact treated_of_same (fun e => htu (Option.some.inj (target.symm.trans e))) (hremoves u) rfl
  | takes | refuses | wakes | drains => exact treated_of_same nofun nofun rfl

/-- An entry that admits nobody leaves the numbers alone. -/
theorem Accounts.keep {e : Entry κ} (hacc : Accounts past h) (he : e.admitted? = none)
    (hnumber : h'.registry.nextNumber = h.registry.nextNumber) (hslot : ∀ t, Treated h e.op h' t)
    (hwakers : h'.wakers = takenFrom (e :: past))
    (hchannel : h'.registry.channel = announced (e :: past)) : Accounts (e :: past) h' := by
  have hissued : issued (e :: past) = issued past := by rw [issued_cons, he]; rfl
  refine ⟨?_, ?_, fun t slot => ?_, hwakers, hchannel⟩
  · rw [hissued, hnumber]
    exact hacc.below
  · rw [hissued]
    exact hacc.ascending
  · rw [hslot, holds_cons]
    simp only [hacc.slot]
    refine (or_iff_right ?_).symm
    rintro ⟨name, coroutine, q, rfl, -⟩
    cases he

theorem Accounts.admit {name : String} {coroutine : κ} {q : QueueId} (hacc : Accounts past h)
    (hnumber : t = ⟨h.registry.nextNumber⟩) :
    Accounts (⟨.insert name coroutine q, .admitted t⟩ :: past) { h with registry :=
      { h.registry with
        slots := h.registry.slots.insert t (.created name coroutine q t)
        nextNumber := h.registry.nextNumber + 1 } } := by
  have hissued : issued (⟨.insert name coroutine q, .admitted t⟩ :: past) = t :: issued past :=
    issued_cons _
  have hold : t ∉ issued past := fun hm => by
    have hlt := hacc.below t hm
    rw [hnumber] at hlt
    exact Nat.lt_irrefl _ hlt
  refine ⟨fun u hu => ?_, ?_, fun u slot => ?_, ?_, hacc.channel⟩
  · rw [hissued] at hu
    rcases List.mem_cons.1 hu with rfl | hu
    · rw [hnumber]
      exact Nat.lt_succ_self _
    · exact (hacc.below u hu).trans (Nat.lt_succ_self _)
  · rw [hissued, List.pairwise_cons, hnumber]
    exact ⟨hacc.below, hacc.ascending⟩
  · have hget := Directory.get?_insert h.registry.slots t u (.created name coroutine q t)
    rw [holds_cons, Registry.get?, hget]
    split
    · rename_i htu
      subst htu
      constructor
      · intro hs
        exact .inl ⟨name, coroutine, q, rfl, (Option.some.inj hs).symm⟩
      · rintro (⟨_, _, _, he, rfl⟩ | ⟨slot₀, hs, -⟩)
        · cases he
          rfl
        · exact absurd hs.issued hold
    · rename_i htu
      constructor
      · intro hs
        exact .inr ⟨slot, (hacc.slot u slot).1 hs, nofun, rfl⟩
      · rintro (⟨_, _, _, he, -⟩ | ⟨_, hs, -, rfl⟩)
        · cases he
          exact absurd rfl htu
        · exact (hacc.slot u _).2 hs
  · rw [takenFrom_cons]
    exact hacc.wakers.trans (List.append_nil _).symm

theorem Accounts.step (hacc : Accounts past h) (hm : Moves h op a h') :
    Accounts (⟨op, a⟩ :: past) h' := by
  have hwakers : ∀ {e : Entry κ}, e.taken? = none → h.wakers = takenFrom (e :: past) := by
    intro e he
    rw [takenFrom_cons, he, hacc.wakers]
    exact (List.append_nil _).symm
  have htreated := hm.treated
  cases hm with
  | admits number free => exact hacc.admit number
  | removes | gone | refuses => exact hacc.keep rfl rfl (htreated rfl) (hwakers rfl) hacc.channel
  | changes target | misses target =>
    obtain ⟨hadmits, htakes, hannounces, -⟩ := quiet_of_target target a past
    exact hacc.keep hadmits rfl (htreated hadmits) (hwakers htakes)
      (hacc.channel.trans hannounces.symm)
  | @takes t slot found =>
    refine hacc.keep rfl rfl (htreated rfl) ?_ hacc.channel
    obtain ⟨_, _, _, -, hwaker, -⟩ := ((hacc.slot t slot).1 found).marks
    rw [takenFrom_cons, hacc.wakers, hwaker]
    rfl
  | wakes =>
    refine hacc.keep rfl rfl (htreated rfl) (hwakers rfl) ?_
    rw [Registry.postOption, hacc.channel, hacc.wakers]
    rfl
  | drains => exact hacc.keep rfl rfl (htreated rfl) (hwakers rfl) rfl

theorem Reaches.accounts (hr : Reaches past h) : Accounts past h := by
  induction hr with
  | start =>
    refine ⟨by simp [issued], .nil, fun t slot => ?_, rfl, rfl⟩
    constructor
    · nofun
    · rintro ⟨later, _, _, _, earlier, hpast, -⟩
      cases later <;> cases hpast
  | step _ _ apply ih => exact ih.step (apply_moves apply)

/-! ## A registry after any past -/

structure Identities (past : List (Entry κ)) (h : RegistryHistory κ) : Prop where
  /-- Numbers ascend, so none is given twice. -/
  ascending : (issued past).Pairwise fun newer older => older.number < newer.number
  /-- Nobody is turned away, and the number is above all that were given. -/
  admits : ∀ name coroutine q, ∃ t h', h.apply (.insert name coroutine q) = .ok (.admitted t, h') ∧
    ∀ u ∈ issued past, u.number < t.number
  /-- The only fault is to put a task where one is. -/
  faults : ∀ op fault, h.apply op = .error fault → fault = .taskPresent ∧
    ∃ t task slot, op = .putTask t task ∧ h.registry.get? t = some slot ∧ slot.task.isSome
  contains : ∀ t, h.registry.contains t ↔ Alive past t
  found : ∀ t, (h.registry.get? t).isSome ↔ Alive past t
  /-- Under a number stands the slot of the very admission that gave it. -/
  slot : ∀ t slot, h.registry.get? t = some slot ↔ Holds past t slot
  marks : ∀ t slot, h.registry.get? t = some slot → ∃ name coroutine q,
    ⟨.insert name coroutine q, .admitted t⟩ ∈ past ∧ slot.waker = t ∧ slot.joinQueue = q ∧
    ∀ task, slot.task = some task →
      task = ⟨name, t, coroutine⟩ ∨ ∃ e ∈ past, e.op = .putTask t task
  size : h.registry.size = {t | Alive past t}.ncard
  /-- A waker announces the thread from whose slot it was taken, whoever uses the cell now. -/
  wakes : ∀ i, ∃ h', h.apply (.wake i) = .ok (.done ((takenFrom past)[i]?).isSome, h') ∧
    h'.registry.channel = h.registry.channel ++ ((takenFrom past)[i]?).toList
  drains : ∃ h', h.apply .drain = .ok (.announced (announced past), h') ∧ h'.registry.channel = []

/-- The next number is free. -/
theorem Accounts.free (hacc : Accounts past h) :
    h.registry.get? ⟨h.registry.nextNumber⟩ = none := by
  rw [Option.eq_none_iff_forall_ne_some]
  intro slot hs
  exact Nat.lt_irrefl _ (hacc.below _ ((hacc.slot _ slot).1 hs).issued)

theorem Accounts.found (hacc : Accounts past h) : (h.registry.get? t).isSome ↔ Alive past t := by
  rw [Option.isSome_iff_exists, alive_iff_holds]
  simp only [hacc.slot]

theorem Accounts.size (hacc : Accounts past h) :
    h.registry.size = {t | Alive past t}.ncard := by
  have hkeys : {t | Alive past t} = (h.registry.slots.keys.toFinset : Set ThreadId) := by
    ext t
    rw [List.coe_toFinset, Set.mem_ofPred_eq, Set.mem_ofPred_eq, Directory.mem_keys_iff]
    exact hacc.found.symm
  rw [hkeys, Set.ncard_coe_finset, List.toFinset_card_of_nodup h.registry.slots.nodup_keys]
  exact h.registry.slots.size_eq_keys

/-- Only a task that is in the way makes an operation fault, once the next number is free. -/
theorem apply_error {fault : Fault} (hfree : h.registry.get? ⟨h.registry.nextNumber⟩ = none)
    (ha : h.apply op = .error fault) : fault = .taskPresent ∧
      ∃ t task slot, op = .putTask t task ∧ h.registry.get? t = some slot ∧ slot.task.isSome := by
  cases op with
  | insert name coroutine q =>
    rw [apply, Registry.insert_of_free hfree] at ha
    cases ha
  | putTask t task =>
    simp only [apply, Registry.putTask] at ha
    cases hs : h.registry.get? t with
    | none =>
      rw [hs] at ha
      cases ha
    | some slot =>
      simp only [hs, Slot.putTask] at ha
      cases htask : slot.task with
      | none =>
        rw [htask] at ha
        cases ha
      | some old =>
        rw [htask] at ha
        cases ha
        exact ⟨rfl, t, task, slot, rfl, hs, by rw [htask]; rfl⟩
  | remove | takeWaker =>
    simp only [apply] at ha
    split at ha <;> cases ha
  | takeTask | setLevel | setSignal | wake | drain => cases ha

/-- Numbers, slots and wakers belong to one thread for good, however the cells are used again. -/
theorem registry_identities (hr : Reaches past h) : Identities past h := by
  have hacc := hr.accounts
  refine ⟨hacc.ascending, fun name coroutine q => ?_, fun op fault ha => apply_error hacc.free ha,
    fun t => ?_, fun t => hacc.found, hacc.slot, fun t slot hs => ((hacc.slot t slot).1 hs).marks,
    hacc.size, fun i => ?_, ?_⟩
  · exact ⟨_, _, by rw [apply, Registry.insert_of_free hacc.free], hacc.below⟩
  · rw [Registry.contains_eq_isSome]
    exact hacc.found
  · rw [← hacc.wakers]
    cases hw : h.wakers[i]? with
    | none => exact ⟨h, by rw [apply, hw]; rfl, (List.append_nil _).symm⟩
    | some w => exact ⟨{ h with registry := h.registry.post w }, by rw [apply, hw]; rfl, rfl⟩
  · exact ⟨_, by rw [← hacc.channel]; rfl, rfl⟩

/-- The second thread takes over the cell of the first. A waker from the first one's slot still
announces the first. -/
theorem registry_identities_reused_cell : ∃ past, ∃ h : RegistryHistory Unit, Reaches past h ∧
    past.map Entry.answer = [.announced [⟨1⟩], .done true, .admitted ⟨2⟩,
      .removed (some (.created "first" () ⟨0⟩ ⟨1⟩)), .done true, .admitted ⟨1⟩] ∧
    h.registry.slots.index.get? ⟨2⟩ = some 0 ∧ Identities past h := by
  have hr := Reaches.step (.insert "first" () ⟨0⟩) .start rfl
  have hr := (hr.step (.takeWaker ⟨1⟩) rfl).step (.remove ⟨1⟩) rfl
  have hr := ((hr.step (.insert "second" () ⟨1⟩) rfl).step (.wake 0) rfl).step .drain rfl
  exact ⟨_, _, hr, rfl, rfl, registry_identities hr⟩

end ThreadKernel.RegistryHistory
