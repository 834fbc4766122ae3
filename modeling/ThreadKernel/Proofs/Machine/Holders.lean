import ThreadKernel.Proofs.Machine.Contexts
import ThreadKernel.Proofs.Machine.Edits
import ThreadKernel.Proofs.Machine.Exclusion
import ThreadKernel.Proofs.Machine.Joins

/-!
# ThreadKernel.Proofs.Machine.Holders

Who holds a lock is written down twice: the lock names its holder, and the scheduling table names
the owner of the lock's queue. As long as the holder is alive the two agree. A thread that retires
loses the queue, but not the lock: nobody writes to the lock any more, and it stays held for good.

* `Kernel.Records`     — the table names the holder as the owner if the holder is alive.
* `Edit.bypasses`      — of all operations of a program only those on the lock are about its queue.
* `Recorded.turn`      — one step.
* `LockRecords`        — what is so of a lock in every execution.
* `execution_holders`  — it is so of every lock that programs leave to itself and its conditions,
  if nobody else has its queue.
-/

namespace ThreadKernel

open Table (Course Op)

namespace Kernel

/-- The table names the holder of the lock as the owner of its queue if that thread is alive, and
nobody otherwise. -/
structure Records (L : Lock) (k : Kernel Activation) : Prop where
  transfer : k.table.links.transfer L.queue = some true
  owner : ∀ t, k.table.links.owner L.queue = some t ↔
    L.holder = some t ∧ (k.registry.get? t).isSome
  number : ∀ t, L.holder = some t → t.number < k.registry.nextNumber

variable {L : Lock} {k k' : Kernel Activation} {q : QueueId} {t : ThreadId}

/-- Nobody came to life under an old number, and those who live lived before. -/
structure Outlive (dead : ThreadId → Prop) (k k' : Kernel Activation) : Prop where
  number : k.registry.nextNumber ≤ k'.registry.nextNumber
  alive : ∀ t, t.number < k.registry.nextNumber →
    ((k'.registry.get? t).isSome ↔ (k.registry.get? t).isSome ∧ ¬ dead t)

/-- The queue keeps its owner, unless that thread dies. -/
theorem Records.keep {dead : ThreadId → Prop} (h : Records L k) (ha : Outlive dead k k')
    (ht : k'.table.links.transfer L.queue = k.table.links.transfer L.queue)
    (ho : ∀ t, k'.table.links.owner L.queue = some t ↔
      k.table.links.owner L.queue = some t ∧ ¬ dead t) : Records L k' where
  transfer := ht.trans h.transfer
  owner t := by
    rw [ho, h.owner, and_assoc]
    exact and_congr_right fun hl => (ha.alive t (h.number t hl)).symm
  number t hl := (h.number t hl).trans_le ha.number

end Kernel

namespace System

variable {a : Activation} {s s' : System} {op : Op} {L : Lock} {l : Nat} {tb tb' : Table}

/-- Of all operations that a program may ask for, only a wait for the lock is about its queue. -/
theorem Edit.bypasses (h : Edit a s op) (hl : s.locks[l]? = some L) (hr : s.Reserves L.queue)
    (ht : ¬ a.Touches L.queue s) (hq : s.kernel.table.links.transfer L.queue ≠ none) :
    op.Bypasses L.queue ∨ ∃ t u, op = .waitForAccess L.queue t ∧
      s.kernel.registry.current = some t ∧ L.holder = some u ∧ u ≠ t := by
  cases h with
  | creates | adjusts | adjustsNamed => exact .inl trivial
  | grants _ absent =>
    refine .inl ?_
    rintro rfl
    simp [Table.links, absent] at hq
  | admits => exact .inl hr.ready
  | joins _ alive => exact .inl (hr.join alive)
  | @waits t u i l' current lock held other =>
    by_cases he : l'.queue = L.queue
    · obtain rfl := hr.lock lock hl he rfl
      cases lock.symm.trans hl
      exact .inr ⟨t, u, rfl, current, held, other⟩
    · exact .inl he
  | sleeps _ condition => exact .inl (hr.apart hl condition rfl)
  | wakes condition => exact .inl (hr.apart hl condition rfl)
  | @handles q op touches about =>
    refine .inl ?_
    have hne : q ≠ L.queue := fun e => ht (e ▸ touches)
    cases op <;> cases about <;> exact hne

/-- They leave the queue to its owner `o`, who does not wait for it. -/
theorem course_owner {o : Option ThreadId} (h : Course (Edit a s) tb tb')
    (hl : s.locks[l]? = some L) (hr : s.Reserves L.queue) (ht : ¬ a.Touches L.queue s)
    (hq : s.kernel.table.links.transfer L.queue ≠ none)
    (hother : ∀ t u, s.kernel.registry.current = some t → L.holder = some u → u ≠ t →
      o ≠ some t) (hs : tb.Sound)
    (hi : tb.links.transfer L.queue = some true ∧ tb.links.owner L.queue = o) :
    tb'.Sound ∧ tb'.links.transfer L.queue = some true ∧ tb'.links.owner L.queue = o := by
  refine h.preserves (I := fun tb => tb.links.transfer L.queue = some true ∧
    tb.links.owner L.queue = o) hs hi fun {tb₁ op tb₂} hs₁ hi₁ hop happly => ?_
  obtain ⟨htransfer, howner⟩ := hi₁
  rcases hop.bypasses hl hr ht hq with hbypass | ⟨t, u, rfl, hcur, hheld, hne⟩
  · obtain ⟨ho, htr⟩ := Table.apply_bypasses hs₁ (by rw [htransfer]; simp) hbypass happly
    exact ⟨htr.trans htransfer, ho.trans howner⟩
  · obtain ⟨-, -, he⟩ := Table.waitForAccess_effect hs₁ happly
    have ho : tb₁.links.owner L.queue ≠ some t := howner ▸ hother t u hcur hheld hne
    rw [he.links]
    refine ⟨htransfer, ?_⟩
    show (if tb₁.links.owner L.queue = some t then _ else tb₁.links.owner) L.queue = o
    rw [if_neg ho, howner]

end System

namespace Machine

variable {m m' : Machine} {l : Nat} {L : Lock} {t : ThreadId}

/-- A step ends a life only with the program, and gives one only to new numbers. -/
theorem Turn.outlive (h : Turn m m') (hr : m.Regular) :
    Kernel.Outlive (m.Ends ·) m.system.kernel m'.system.kernel := by
  have hsettles := h.settles hr
  refine ⟨hsettles.number, fun t ht => ⟨fun halive => ?_, fun ⟨halive, hlives⟩ => ?_⟩⟩
  · obtain ⟨slot', hslot'⟩ := Option.isSome_iff_exists.1 halive
    refine ⟨?_, ?_⟩
    · rcases hsettles.slot hslot' with ⟨slot, hslot, -⟩ | ⟨hle, -⟩
      · rw [hslot]
        rfl
      · omega
    · rintro ⟨d, below, hs, rfl, hc⟩
      exact nomatch hslot'.symm.trans (h.gone hs hc)
  · obtain ⟨slot, hslot⟩ := Option.isSome_iff_exists.1 halive
    by_contra hgone
    obtain ⟨d, below, hs, hd, hc⟩ := h.dies hslot (Option.not_isSome_iff_eq_none.1 hgone)
    exact hlives ⟨d, below, hs, hd, hc⟩

/-- What a step relies on besides: who runs and who waits for the lock is alive, and numbers were
given to all who live. -/
structure Peopled (L : Lock) (m : Machine) : Prop where
  running : ∀ t, m.system.kernel.registry.current = some t →
    (m.system.kernel.registry.get? t).isSome
  waiting : ∀ t, m.system.kernel.table.waitingQueue t = some L.queue →
    (m.system.kernel.registry.get? t).isSome
  number : ∀ t, (m.system.kernel.registry.get? t).isSome →
    t.number < m.system.kernel.registry.nextNumber

/-- A thread that lives now gets the lock. -/
theorem Peopled.hands {o : Option ThreadId} {k' : Kernel Activation} (h : m.Peopled L)
    (hlives : ∀ t, ¬ m.Ends t) (ho : Kernel.Outlive (m.Ends ·) m.system.kernel k')
    (halive : ∀ t, o = some t → (m.system.kernel.registry.get? t).isSome)
    (htransfer : k'.table.links.transfer L.queue = some true)
    (howner : k'.table.links.owner L.queue = o) : Kernel.Records { L with holder := o } k' where
  transfer := htransfer
  owner t := by
    rw [show ({ L with holder := o } : Lock).queue = L.queue from rfl, howner]
    refine ⟨fun he => ⟨he, ?_⟩, And.left⟩
    have ht := halive t he
    exact (ho.alive t (h.number t ht)).2 ⟨ht, hlives t⟩
  number t he := (h.number t (halive t he)).trans_le ho.number

variable {a : Activation}

/-- A step of a program. -/
theorem Peopled.edits (h : m.Peopled L) (he : m.system.Edits a m'.system)
    (hlives : ∀ t, ¬ m.Ends t) (ho : Kernel.Outlive (m.Ends ·) m.system.kernel m'.system.kernel)
    (hs : m.system.kernel.table.Sound) (hres : m.system.Reserves L.queue)
    (ht : ¬ a.Touches L.queue m.system) (hl : m.system.locks[l]? = some L)
    (hrec : Kernel.Records L m.system.kernel) :
    ∃ L', m'.system.locks[l]? = some L' ∧ Kernel.Records L' m'.system.kernel := by
  have hq : m.system.kernel.table.links.transfer L.queue ≠ none := by
    rw [hrec.transfer]
    simp
  have hkeep : ∀ {tb : Table}, tb.Sound →
      tb.links.transfer L.queue = m.system.kernel.table.links.transfer L.queue →
      tb.links.owner L.queue = m.system.kernel.table.links.owner L.queue →
      Course (m.system.Edit a) tb m'.system.kernel.table →
      Kernel.Records L m'.system.kernel := by
    intro tb htb htransfer howner hcourse
    obtain ⟨-, htr, ho'⟩ := System.course_owner hcourse hl hres ht hq
      (fun t u _ hheld hne hown => by
        rw [(hrec.owner t).1 hown |>.1] at hheld
        exact hne (Option.some.inj hheld).symm) htb ⟨htransfer.trans hrec.transfer, howner⟩
    exact hrec.keep ho (htr.trans hrec.transfer.symm) fun t => by
      rw [ho', and_iff_left (hlives t)]
  cases he with
  | aside table locks =>
    exact ⟨L, getElem?_of_isPrefix locks hl, hkeep hs rfl rfl table⟩
  | @takes t i l' current lock free table locks =>
    obtain ⟨-, -, heffect⟩ := Table.acquire_effect hs table
    by_cases hl' : l'.queue = L.queue
    · obtain rfl := hres.lock lock hl hl' rfl
      cases lock.symm.trans hl
      refine ⟨_, by rw [locks, List.getElem?_set_self (List.getElem?_eq_some_iff.1 hl).1],
        h.hands hlives ho (fun u hu => ?_) ?_ ?_⟩
      · cases hu
        exact h.running t current
      · rw [heffect.links]
        exact hrec.transfer
      · rw [heffect.links]
        exact Function.update_self _ _ _
    · have hbypass : (Op.acquire l'.queue t).Bypasses L.queue := hl'
      obtain ⟨howner, htransfer⟩ := Table.apply_bypasses hs hq hbypass table
      exact ⟨L, locks ▸ System.getElem?_set_of_queue lock hl' hl rfl,
        hkeep heffect.sound htransfer howner .refl⟩
  | @passes t i l' served tb current lock held next table locks =>
    obtain ⟨htb, hserved, htransfer, hwaited⟩ := Table.nextThread_owner hs next
    by_cases hl' : l'.queue = L.queue
    · obtain rfl := hres.lock lock hl hl' rfl
      cases lock.symm.trans hl
      obtain ⟨-, htr, howner⟩ := System.course_owner table hl hres ht hq
        (fun v u hcur hheld hne _ => by
          cases current.symm.trans hcur
          cases held.symm.trans hheld
          exact hne rfl) htb ⟨(congrFun htransfer _).trans hrec.transfer, hserved⟩
      exact ⟨_, by rw [locks, List.getElem?_set_self (List.getElem?_eq_some_iff.1 hl).1],
        h.hands hlives ho (fun u hu => h.waiting u (hwaited u hu)) htr howner⟩
    · have hbypass : (Op.nextThread l'.queue).Bypasses L.queue := hl'
      obtain ⟨howner, htransfer⟩ := Table.apply_bypasses hs hq hbypass
        (Table.apply_nextThread next)
      exact ⟨L, locks ▸ System.getElem?_set_of_queue lock hl' hl rfl,
        hkeep htb htransfer howner table⟩

/-- Operations that leave the queue alone. -/
theorem course_bypasses {P : Op → Prop} {tb tb' : Table} (h : Course P tb tb') (hs : tb.Sound)
    {q : QueueId} (hq : tb.links.transfer q ≠ none) (hp : ∀ op, P op → op.Bypasses q) :
    tb'.Sound ∧ tb'.links.transfer q = tb.links.transfer q ∧
      tb'.links.owner q = tb.links.owner q := by
  refine h.preserves (I := fun tb₁ => tb₁.links.transfer q = tb.links.transfer q ∧
    tb₁.links.owner q = tb.links.owner q) hs ⟨rfl, rfl⟩ fun {tb₁ op tb₂} hs₁ hi hop happly => ?_
  obtain ⟨howner, htransfer⟩ := Table.apply_bypasses hs₁ (by rwa [hi.1]) (hp op hop) happly
  exact ⟨htransfer.trans hi.1, howner.trans hi.2⟩

/-- The table and the lock agree after every step. -/
theorem Peopled.reworks (h : m.Peopled L) (hw : Reworks m m')
    (ho : Kernel.Outlive (m.Ends ·) m.system.kernel m'.system.kernel)
    (hs : m.system.kernel.table.Sound) (hp : m.Private L.queue)
    (hl : m.system.locks[l]? = some L) (hrec : Kernel.Records L m.system.kernel) :
    ∃ L', m'.system.locks[l]? = some L' ∧ Kernel.Records L' m'.system.kernel := by
  have hq : m.system.kernel.table.links.transfer L.queue ≠ none := by
    rw [hrec.transfer]
    simp
  cases hw with
  | program executes lives code =>
    exact h.edits (System.stepCode_edits code) lives ho hs hp.reserves (hp.program _ executes) hl hrec
  | chooses lives course locks =>
    obtain ⟨-, htransfer, howner⟩ := course_bypasses course hs hq fun op hop => by
      cases hop <;> exact hp.reserves.ready
    exact ⟨L, locks ▸ hl, hrec.keep ho htransfer fun t => by
      rw [howner, and_iff_left (lives t)]⟩
  | @retires d below slot tb stack code alive course removed locks =>
    obtain ⟨htb, htransfer, howner⟩ := course_bypasses course hs hq fun op hop => by
      cases hop with
      | joiner | queue => exact hp.reserves.join alive
      | ready => exact hp.reserves.ready
    have he := Table.removeThread_effect htb removed
    refine ⟨L, locks ▸ hl, hrec.keep ho ?_ fun t => ?_⟩
    · rw [he.links]
      exact htransfer
    · have hends : m.Ends t ↔ d.thread = t := by
        refine ⟨?_, fun e => ⟨d, below, stack, e, code⟩⟩
        rintro ⟨d', below', stack', rfl, -⟩
        cases stack.symm.trans stack'
        rfl
      rw [he.links, hends]
      show (if tb.links.owner L.queue = some d.thread then none else tb.links.owner L.queue) =
        some t ↔ _
      rw [howner]
      split
      · rename_i hd
        simp [hd]
      · rename_i hd
        refine ⟨fun ht => ⟨ht, ?_⟩, And.left⟩
        rintro rfl
        exact hd ht
  | quiet lives table locks =>
    exact ⟨L, locks ▸ hl, hrec.keep ho (by rw [table]) fun t => by
      rw [table, and_iff_left (lives t)]⟩

/-! ## New locks -/

/-- Nobody holds a new lock, and nobody owns its queue. -/
theorem records_of_creates {s s' : System} (h : s.Creates s') (hn : s.locks[l]? = none)
    (hl : s'.locks[l]? = some L) : Kernel.Records L s'.kernel := by
  have hlen := List.getElem?_eq_none_iff.1 hn
  cases h with
  | nothing locks =>
    have hj := (List.getElem?_eq_some_iff.1 hl).1
    omega
  | lock locks table =>
    rw [locks, List.getElem?_append_right hlen] at hl
    have hl := List.mem_singleton.1 (List.mem_of_getElem? hl)
    subst hl
    have htable : s'.kernel.table = (s.kernel.table.createQueue true).2 := table
    have hfresh := Table.queue?_createQueue_fst true s.kernel.table
    refine ⟨?_, fun t => ?_, fun t ht => nomatch ht⟩
    · rw [htable, Table.createQueue_links]
      exact Function.update_self _ _ _
    · rw [htable, Table.createQueue_links]
      have hvacant : s.kernel.table.links.owner (s.kernel.table.createQueue true).1 = none :=
        congrArg (Option.bind · QueueState.owner) hfresh
      refine iff_of_false (fun he => ?_) (by simp [Lock.create])
      exact nomatch hvacant.symm.trans he
  | condition locks =>
    rw [locks, hn] at hl
    cases hl

theorem Turn.lock_recorded (h : Turn m m') (hn : m.system.locks[l]? = none)
    (hl : m'.system.locks[l]? = some L) : Kernel.Records L m'.system.kernel := by
  have hno : ∀ {P : Prop}, m'.system.locks = m.system.locks → P := fun he => by
    rw [he, hn] at hl
    cases hl
  cases h with
  | program _ code | thread _ code => exact records_of_creates (System.stepCode_creates code) hn hl
  | parks _ code _ system =>
    obtain ⟨_, _, _, _, _, -, -, -, -, -, rfl⟩ := System.stepCode_park code
    exact hno (by rw [system]; rfl)
  | retires _ _ _ system | dispatches _ _ _ system => exact hno (by rw [system]; rfl)
  | alarm _ _ _ same | chooses _ _ _ same | quiet _ _ same => exact hno same.locks

/-! ## Whole runs -/

theorem Tended.peopled (h : m.Tended l) (hr : m.Regular) (hl : m.system.locks[l]? = some L)
    (hrun : ∀ d below, m.stack = .thread d :: below →
      (m.system.kernel.registry.get? d.thread).isSome)
    (hnum : ∀ t slot, m.system.kernel.registry.get? t = some slot →
      t.number < m.system.kernel.registry.nextNumber) : m.Peopled L := by
  have hg := h.guarded L hl
  refine ⟨fun t ht => ?_, fun t ht => ?_, fun t ht => ?_⟩
  · rw [hr.current] at ht
    obtain ⟨d, below, hs, rfl⟩ := thread?_cases ht
    exact hrun d below hs
  · cases hthread : m.thread? with
    | none =>
      obtain ⟨slot, hslot, -⟩ := hg.stirred hthread t ht
      exact Option.isSome_iff_exists.2 ⟨slot, hslot⟩
    | some u =>
      by_cases hut : u = t
      · obtain ⟨d, below, hs, rfl⟩ := thread?_cases hthread
        exact hut ▸ hrun d below hs
      · obtain ⟨-, slot, hslot, -⟩ := hg.calm u hthread t ht fun e => hut (Option.some.inj e)
        exact Option.isSome_iff_exists.2 ⟨slot, hslot⟩
  · obtain ⟨slot, hslot⟩ := Option.isSome_iff_exists.1 ht
    exact hnum t slot hslot

end Machine

/-- How the lock under the index `l` and the table name its holder in the run `ms` of `n` steps. -/
structure LockRecords (l n : Nat) (ms : Nat → Machine) : Prop where
  /-- The owner of the queue is the holder if that thread is alive, and nobody otherwise. -/
  owner : ∀ i ≤ n, ∀ L, (ms i).system.locks[l]? = some L →
    (ms i).system.kernel.queueOwner L.queue =
      .ok (L.holder.filter fun t => (ms i).system.kernel.isAlive t)
  /-- A thread that retires with the lock loses the queue, and is the holder all the same. -/
  retires : ∀ i < n, ∀ L t, (ms i).system.locks[l]? = some L → L.holder = some t →
    (ms i).Ends t → (ms (i + 1)).system.locks[l]? = some L ∧
      (ms (i + 1)).system.kernel.queueOwner L.queue = .ok none
  /-- A holder that is not alive stays the holder. -/
  abandoned : ∀ i j, i ≤ j → j ≤ n → ∀ L t, (ms i).system.locks[l]? = some L →
    L.holder = some t → (ms i).system.kernel.isAlive t = false → (ms j).system.locks[l]? = some L

namespace Execution

variable {n i l : Nat} {ms : Nat → Machine} {t : ThreadId} {L : Lock}

theorem running_alive (h : Execution n ms) (hi : i ≤ n) {d : Kernel.Dispatched Activation}
    {below : List Frame} (hs : (ms i).stack = .thread d :: below) :
    ((ms i).system.kernel.registry.get? d.thread).isSome := by
  induction i generalizing d below with
  | zero =>
    obtain ⟨_, _, k, programs, main, hk, hm⟩ := h.start
    rw [hm] at hs
    cases hs
  | succ i ih =>
    have hc := h.coherent (by omega : i ≤ n)
    obtain ⟨m, g, -, hturn, hm⟩ := h.next (by omega) hc
    rw [hm] at hs ⊢
    exact hturn.running_alive hc.toRegular (fun hs => ih (by omega) hs) hs

/-- Nobody comes to life again. -/
theorem stays_gone {j : Nat} (h : Execution n ms) (hij : i ≤ j) (hj : j ≤ n)
    (hnumber : t.number < (ms i).system.kernel.registry.nextNumber)
    (hgone : (ms i).system.kernel.registry.get? t = none) :
    (ms j).system.kernel.registry.get? t = none := by
  induction j, hij using Nat.le_induction with
  | base => exact hgone
  | succ j hij ih =>
    obtain ⟨m, g, -, hturn, hm⟩ := h.next hj (h.coherent (by omega))
    have hnumber := hnumber.trans_le (h.nextNumber_le hij (by omega))
    rw [hm]
    refine Option.not_isSome_iff_eq_none.1 fun halive => ?_
    have hlived := ((hturn.outlive (h.coherent (by omega)).toRegular).alive t hnumber).1 halive
    rw [ih (by omega)] at hlived
    exact absurd hlived.1 (by simp)

theorem peopled (h : Execution n ms)
    (hp : ∀ i < n, ∀ L, (ms i).system.locks[l]? = some L → (ms i).Private L.queue) (hi : i ≤ n)
    (hl : (ms i).system.locks[l]? = some L) : (ms i).Peopled L :=
  (h.tended hp hi).peopled (h.coherent hi).toRegular hl (fun _ _ hs => h.running_alive hi hs)
    fun _ _ hs => h.number_lt hi hs

theorem records (h : Execution n ms)
    (hp : ∀ i < n, ∀ L, (ms i).system.locks[l]? = some L → (ms i).Private L.queue) (hi : i ≤ n)
    (hl : (ms i).system.locks[l]? = some L) : Kernel.Records L (ms i).system.kernel := by
  induction i generalizing L with
  | zero =>
    obtain ⟨_, _, k, programs, main, hk, hm⟩ := h.start
    rw [hm] at hl
    cases hl
  | succ i ih =>
    have hc := h.coherent (by omega : i ≤ n)
    obtain ⟨m, g, -, hturn, hm⟩ := h.next (by omega) hc
    rw [hm] at hl ⊢
    suffices hrec : Kernel.Records L m.system.kernel from
      ⟨hrec.transfer, hrec.owner, hrec.number⟩
    have hl : m.system.locks[l]? = some L := hl
    cases hold : (ms i).system.locks[l]? with
    | none => exact hturn.lock_recorded hold hl
    | some L₀ =>
      obtain ⟨L', hl', hrec⟩ := (h.peopled hp (by omega) hold).reworks hturn.reworks
        (hturn.outlive hc.toRegular) hc.sane.sound (hp i hi L₀ hold) hold (ih (by omega) hold)
      cases hl.symm.trans hl'
      exact hrec

end Execution

theorem Kernel.Records.queueOwner {k : Kernel Activation} {L : Lock} (h : k.Records L) :
    k.queueOwner L.queue = .ok (L.holder.filter fun t => k.isAlive t) := by
  have htransfer := h.transfer
  obtain ⟨qs, hqs, -⟩ := Option.map_eq_some_iff.1 htransfer
  have howner : ∀ t, qs.owner = some t ↔ L.holder = some t ∧ (k.registry.get? t).isSome := by
    intro t
    rw [← h.owner, Table.links]
    simp only [hqs, Option.bind_some]
  rw [Kernel.queueOwner, Table.owner, Table.queue, hqs]
  refine congrArg Except.ok (Option.ext fun t => ?_)
  rw [howner, Option.filter_eq_some_iff, Kernel.isAlive_eq_isSome]

/-- The lock and the table agree about the holder while it is alive. Once it has retired, the queue
has no owner and the lock is held for good. -/
theorem execution_holders {n l : Nat} {ms : Nat → Machine} (h : Execution n ms)
    (hp : ∀ i < n, ∀ L, (ms i).system.locks[l]? = some L → (ms i).Private L.queue) :
    LockRecords l n ms := by
  have hrec : ∀ {i}, i ≤ n → ∀ {L}, (ms i).system.locks[l]? = some L →
      Kernel.Records L (ms i).system.kernel := fun hi _ hl => h.records hp hi hl
  have hdead : ∀ {k : Kernel Activation} {t : ThreadId},
      k.isAlive t = false ↔ k.registry.get? t = none := Kernel.isAlive_eq_false_iff _ _
  refine ⟨fun i hi L hl => (hrec hi hl).queueOwner, fun i hi L t hl ht hends => ?_,
    fun i j hij hj L t hl ht hgone => ?_⟩
  · have hc := h.coherent (i := i) (by omega)
    obtain ⟨m, g, -, hturn, hm⟩ := h.next hi hc
    obtain ⟨d, below, hs, rfl, hcode⟩ := hends
    have hl' : (ms (i + 1)).system.locks[l]? = some L := by
      have hkept := ((h.tended hp (by omega)).turn hc hturn hl (hp i hi L hl)).2.keeps ht ?_
      · rwa [hm]
      · rintro ⟨d', _, hs', -, hg⟩
        cases hs.symm.trans hs'
        rcases hg with hb | ⟨_, _, hb, -⟩ <;>
          obtain ⟨-, _, hcode'⟩ := hb <;>
          cases hcode.symm.trans hcode'
    refine ⟨hl', ?_⟩
    have hgone : (ms (i + 1)).system.kernel.registry.get? d.thread = none := by
      rw [hm]
      exact hturn.gone hs hcode
    rw [(hrec hi hl').queueOwner, ht, Option.filter_some, hdead.2 hgone]
    rfl
  · rw [hdead] at hgone
    induction j, hij using Nat.le_induction with
    | base => exact hl
    | succ j hij ih =>
      have hc := h.coherent (i := j) (by omega)
      obtain ⟨m, g, -, hturn, hm⟩ := h.next hj hc
      have hlj := ih (by omega)
      rw [hm]
      refine (((h.tended hp (by omega)).turn hc hturn hlj (hp j hj L hlj)).2.keeps ht ?_)
      -- a thread that gives the lock up runs, so it is alive
      rintro ⟨d, below, hs, rfl, -⟩
      have hrun := h.running_alive (by omega) hs
      rw [h.stays_gone hij (by omega) ((hrec (by omega) hl).number _ ht) hgone] at hrun
      cases hrun

namespace Machine

/-- A thread ends with the lock, and another one asks for it then. -/
def estatePrograms : List Program := [⟨"holder", [.acquire 0]⟩, ⟨"follower", [.acquire 0]⟩]

def estateMain : List Action := [.newLock, .spawn 0, .spawn 1, .run, .holder 0]

def estateSettings : Settings := ⟨.priority, none, 10, 1⟩

/-- The holder of the lock, the owner of its queue, and who still waits for it. -/
def estate (m : Machine) : Option ThreadId × Option ThreadId × List (Option QueueId) :=
  (m.holder? 0, m.system.locks[0]?.bind fun L => m.system.kernel.table.links.owner L.queue,
    m.system.spawned.map m.system.kernel.table.waitingQueue)

/-- After seven steps the first thread has the lock, and one step later it is gone. When the run is
over the second one waits for a holder that will never come back. -/
theorem execution_holders_estate : ∃ (n : Nat) (ms : Nat → Machine), Execution n ms ∧
    (∀ i < n, ∀ L, (ms i).system.locks[0]? = some L → (ms i).Private L.queue) ∧ 14 < n ∧
    estate (ms 7) = (some ⟨1⟩, some ⟨1⟩, [none, some ⟨0⟩]) ∧
    estate (ms 8) = (some ⟨1⟩, none, [none, some ⟨0⟩]) ∧
    (ms 8).system.kernel.isAlive ⟨1⟩ = false ∧
    estate (ms 14) = (some ⟨1⟩, none, [none, some ⟨1⟩]) ∧ LockRecords 0 n ms := by
  have hrun : (Kernel.start .counting estateSettings).toOption.any (fun k =>
      let m := fun i => (run i (start k estatePrograms estateMain)).1
      (run 15 (m 0)).2 = .unfinished ∧ estate (m 7) = (some ⟨1⟩, some ⟨1⟩, [none, some ⟨0⟩]) ∧
        estate (m 8) = (some ⟨1⟩, none, [none, some ⟨0⟩]) ∧
        (m 8).system.kernel.isAlive ⟨1⟩ = false ∧
        estate (m 14) = (some ⟨1⟩, none, [none, some ⟨1⟩])) = true := by
    decide +kernel
  have hp : ∀ p ∈ estatePrograms, Instr.plainList p.code = true := by decide
  have hm : Action.plainList estateMain = true := by decide
  obtain ⟨k, hk, hrun⟩ := exists_start hrun
  obtain ⟨hn, hbefore, hafter, hgone, hlast⟩ := of_decide_eq_true hrun
  have hexec := execution_run hk hn
  have hpriv : ∀ i < 15, ∀ L,
      (run i (start k estatePrograms estateMain)).1.system.locks[0]? = some L →
        (run i (start k estatePrograms estateMain)).1.Private L.queue :=
    fun i _ L hl => private_run hk hp hm i ⟨_, System.mem_uses_lock hl, rfl⟩
  exact ⟨15, _, hexec, hpriv, by decide, hbefore, hafter, hgone, hlast,
    execution_holders hexec hpriv⟩

end Machine
end ThreadKernel
