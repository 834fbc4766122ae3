import ThreadKernel.Proofs.Directory
import ThreadKernel.Proofs.Kernel.Clearance
import ThreadKernel.Proofs.Machine.Deadlock
import ThreadKernel.Proofs.Machine.Holders

/-!
# ThreadKernel.Proofs.Machine.Clearance

Nothing is left of a thread that retired. The scheduling table has a state only for threads that are
alive, and queues only for locks, for conditions, for joining and for those who are ready, so that a
run that ends well leaves a table without threads.

* `Machine.Prudent`     — the next step sets nobody's priority who is not alive.
* `Machine.Furnished`   — all states and queues of the table are there for something.
* `Furnished.turn`      — one step.
* `Clearance`           — what retirements and successful runs leave.
* `execution_clearance` — it is so in every execution of plain programs that are prudent.
-/

namespace ThreadKernel

open Table (Course Op)

namespace System

variable {a a' : Activation} {s s' : System} {actor : Actor} {c : Action} {q : QueueId}
  {t u : ThreadId} {transfer : Bool}

/-- A plain step that makes a queue makes that of a lock, of a condition or of a new thread. -/
theorem stepCode_makes (hs : s.kernel.table.Sound) (hb : a.Begins (.act c)) (hc : c.Makes transfer)
    (hplain : c.plain = true) (hr : s.stepCode actor a = .ok (.go a' s'))
    (hq : (s'.kernel.table.queue? q).isSome) :
    (s.kernel.table.queue? q).isSome ∨ Kernel.Primitive s'.uses s'.kernel q := by
  cases c with
  | newLock =>
    obtain ⟨v, s₁, level, hperf, hk, hlocks, -⟩ := stepCode_perform hb (fun _ => rfl) hr
    cases hperf
    rw [hk] at hq
    have hq : ((s.kernel.table.createQueue true).2.queue? q).isSome := hq
    rw [Table.queue?_createQueue] at hq
    split at hq
    · rename_i he
      refine .inr (.inl ⟨.ofLock (Lock.create s.kernel).1, ?_, he⟩)
      refine List.mem_append_left _ (List.mem_map_of_mem ?_)
      rw [hlocks]
      exact List.mem_append_right _ (List.mem_singleton_self _)
    · exact .inl hq
  | newCondition l =>
    obtain ⟨v, s₁, level, hperf, hk, -, hconditions⟩ := stepCode_perform hb (fun _ => rfl) hr
    obtain ⟨_, -, rfl⟩ := newCondition_ok hperf
    rw [hk] at hq
    have hq : ((s.kernel.table.createQueue false).2.queue? q).isSome := hq
    rw [Table.queue?_createQueue] at hq
    split at hq
    · rename_i he
      refine .inr (.inl ⟨.ofCondition (Condition.create l s.kernel).1, ?_, he⟩)
      refine List.mem_append_right _ (List.mem_map_of_mem ?_)
      rw [hconditions]
      exact List.mem_append_right _ (List.mem_singleton_self _)
    · exact .inl hq
  | spawn j =>
    obtain ⟨v, s₁, level, hperf, hk, -, -⟩ := stepCode_perform hb (fun _ => rfl) hr
    obtain ⟨x, t, k, -, hspawn, rfl⟩ := spawn_ok hperf
    obtain ⟨r, hspawned⟩ := Kernel.spawn_ok hs hspawn
    rw [hk] at hq ⊢
    have hq : (k.table.queue? q).isSome := hq
    rw [Table.isSome_queue?_iff, hspawned.transfer] at hq
    by_cases he : q = r
    · exact .inr (.inr ⟨t, _, (hspawned.get? t).trans (if_pos rfl), he.symm⟩)
    · rw [Function.update_of_ne he] at hq
      exact .inl (Table.isSome_queue?_iff.2 hq)
  | createQueue | newWaitQueue => cases hplain
  | _ => exact hc.elim

/-- A queue that a step makes stems from the action that the step begins. -/
theorem Edits.queue? (h : Edits a s s') (hs : s.kernel.table.Sound)
    (hq : (s'.kernel.table.queue? q).isSome) :
    (s.kernel.table.queue? q).isSome ∨
      ∃ c transfer, a.Begins (.act c) ∧ c.Makes transfer := by
  have hcourse : ∀ {tb : Table}, tb.Sound → Course (Edit a s) tb s'.kernel.table →
      (tb.queue? q).isSome ∨ ∃ c transfer, a.Begins (.act c) ∧ c.Makes transfer := by
    intro tb htb hcourse
    refine (hcourse.preserves (I := fun tb₁ => (tb₁.queue? q).isSome → (tb.queue? q).isSome ∨
      ∃ c transfer, a.Begins (.act c) ∧ c.Makes transfer) htb .inl
      fun hs hi hop happly hq => ?_).2 hq
    rcases Table.apply_queue? _ hs happly hq with hq | ⟨transfer, rfl⟩
    · exact hi hq
    · cases hop with
      | creates begins makes => exact .inr ⟨_, transfer, begins, makes⟩
      | handles _ about _ => cases about
  cases h with
  | aside table => exact hcourse hs table
  | takes _ _ _ table =>
    exact .inl ((Table.apply_queue? (.acquire _ _) hs table hq).resolve_right
      (by rintro ⟨_, ⟨⟩⟩))
  | passes _ _ _ next table =>
    have htb := (Table.nextThread_owner hs next).1
    refine (hcourse htb table).imp_left fun hq => ?_
    exact (Table.apply_queue? _ hs (Table.apply_nextThread next) hq).resolve_right
      (by rintro ⟨_, ⟨⟩⟩)

/-- Whom a plain step gives a state: the running thread, one whose priority it sets, or a new
thread. -/
theorem Edit.names {op : Op} (h : Edit a s op) (ht : ∀ q, ¬ a.Touches q s) (hu : op.Names u) :
    s.kernel.registry.current = some u ∨
      (∃ target p, a.Begins (.act (.setPriority target p)) ∧ target.resolve s.kernel = .ok u) ∨
      ∃ j, a.Begins (.act (.spawn j)) ∧ u = ⟨s.kernel.registry.nextNumber⟩ := by
  cases h with
  | creates | wakes => exact hu.elim
  | adjusts current | joins current | waits current | sleeps current => exact .inl (hu ▸ current)
  | adjustsNamed begins resolved => exact .inr (.inl ⟨_, _, begins, hu ▸ resolved⟩)
  | grants begins | admits begins => exact .inr (.inr ⟨_, begins, hu.symm⟩)
  | handles touches => exact absurd touches (ht _)

theorem Edits.known {A : ThreadId → Prop} (h : Edits a s s') (hs : s.kernel.table.Sound)
    (hp : ∀ op u, Edit a s op → op.Names u → A u)
    (hcurrent : ∀ u, s.kernel.registry.current = some u → A u)
    (hA : ∀ u ∈ s.kernel.table.known, A u) : ∀ u ∈ s'.kernel.table.known, A u := by
  cases h with
  | aside table => exact table.known hs hp hA
  | @takes t _ _ current _ _ table =>
    intro u hu
    rcases Table.acquire_known hs table hu with hu | rfl
    · exact hA u hu
    · exact hcurrent t current
  | passes _ _ _ next table =>
    exact table.known (Table.nextThread_owner hs next).1 hp fun u hu =>
      hA u (Table.nextThread_known hs next hu)

/-- A new thread is alive. -/
theorem stepCode_spawn_alive {j : Nat} (hs : s.kernel.table.Sound)
    (hb : a.Begins (.act (.spawn j))) (hr : s.stepCode actor a = .ok (.go a' s')) :
    (s'.kernel.registry.get? ⟨s.kernel.registry.nextNumber⟩).isSome := by
  obtain ⟨v, s₁, level, hperf, hk, -, -⟩ := stepCode_perform hb (fun _ => rfl) hr
  obtain ⟨x, t, k, -, hspawn, rfl⟩ := spawn_ok hperf
  obtain ⟨r, hspawned⟩ := Kernel.spawn_ok hs hspawn
  rw [hk, ← hspawned.thread]
  exact (congrArg Option.isSome ((hspawned.get? t).trans (if_pos rfl))).trans rfl

end System

namespace Machine

variable {m m' : Machine} {q : QueueId} {t : ThreadId} {slot : Slot Activation}

/-- The thread whose priority the next step sets, if it sets one, is alive. -/
def Prudent (m : Machine) : Prop :=
  ∀ a target p t, m.executing? = some a → a.Begins (.act (.setPriority target p)) →
    target.resolve m.system.kernel = .ok t → m.system.kernel.isAlive t = true

/-- All states and queues of the table are there for something. -/
structure Furnished (m : Machine) : Prop where
  known : ∀ t ∈ m.system.kernel.table.known, (m.system.kernel.registry.get? t).isSome
  queues : ∀ q, (m.system.kernel.table.queue? q).isSome → q = m.system.kernel.readyQueue ∨
    Kernel.Primitive m.system.uses m.system.kernel q

/-! ## What a step leaves alone -/

/-- A thread that is alive before and after a step keeps its join queue. -/
theorem Turn.slot_kept (h : Turn m m') (hr : m.Regular) (ho : m.Orderly) (ht : ¬ m.Ends t)
    (hslot : m.system.kernel.registry.get? t = some slot) :
    ∃ slot', m'.system.kernel.registry.get? t = some slot' ∧ slot'.joinQueue = slot.joinQueue := by
  obtain ⟨run, hs⟩ := ho.system
  have hnumber := hs.placed.1.number hslot
  have halive := ((h.outlive hr).alive t hnumber).2 ⟨by rw [hslot]; rfl, ht⟩
  obtain ⟨slot', hslot'⟩ := Option.isSome_iff_exists.1 halive
  refine ⟨slot', hslot', ?_⟩
  rcases (h.settles hr).slot hslot' with ⟨slot₀, hslot₀, hjoin⟩ | ⟨hle, -⟩
  · cases hslot.symm.trans hslot₀
    exact hjoin.symm
  · omega

/-- Locks and conditions keep their queues. -/
theorem Turn.use_kept (h : Turn m m') (hq : m.system.OfUse q) : m'.system.OfUse q := by
  have hgrows : ∀ {s' : System}, m.system.Grows s' → s'.OfUse q := by
    intro s' hg
    obtain ⟨u, hu, rfl⟩ := hq
    rcases List.mem_append.1 hu with hu | hu
    · obtain ⟨l, hl, rfl⟩ := List.mem_map.1 hu
      obtain ⟨i, hi⟩ := List.getElem?_of_mem hl
      obtain ⟨holder, hl'⟩ := hg.locks hi
      exact System.ofUse_lock (l := { l with holder := holder }) hl'
    · obtain ⟨c, hc, rfl⟩ := List.mem_map.1 hu
      obtain ⟨i, hi⟩ := List.getElem?_of_mem hc
      exact System.ofUse_condition (getElem?_of_isPrefix hg.conditions hi)
  have hsame : ∀ {s' : System}, s'.locks = m.system.locks → s'.conditions = m.system.conditions →
      s'.OfUse q := by
    intro s' hlocks hconditions
    rwa [System.OfUse, System.uses, hlocks, hconditions]
  cases h with
  | program _ code | thread _ code => exact hgrows (System.stepCode_grows code)
  | parks _ code _ system =>
    obtain ⟨_, _, _, _, _, -, -, -, -, -, rfl⟩ := System.stepCode_park code
    exact hsame (by rw [system]; rfl) (by rw [system]; rfl)
  | retires _ _ _ system | dispatches _ _ _ system =>
    exact hsame (by rw [system]; rfl) (by rw [system]; rfl)
  | alarm _ _ _ same | chooses _ _ _ same | quiet _ _ same => exact hsame same.locks same.conditions

/-- What a queue is there for stays, unless its thread retires. -/
theorem Turn.primitive_kept (h : Turn m m') (hr : m.Regular) (ho : m.Orderly)
    (hq : Kernel.Primitive m.system.uses m.system.kernel q) :
    Kernel.Primitive m'.system.uses m'.system.kernel q ∨
      ∃ t slot, m.Ends t ∧ m.system.kernel.registry.get? t = some slot ∧ slot.joinQueue = q := by
  rcases hq with hq | ⟨t, slot, hslot, hjoin⟩
  · exact .inl (.inl (h.use_kept hq))
  · by_cases ht : m.Ends t
    · exact .inr ⟨t, slot, ht, hslot, hjoin⟩
    · obtain ⟨slot', hslot', hjoin'⟩ := h.slot_kept hr ho ht hslot
      exact .inl (.inr ⟨t, slot', hslot', hjoin'.trans hjoin⟩)

/-! ## Retirement -/

/-- The step in which a thread retires. -/
theorem Turn.clears (h : Turn m m') (ho : m.Orderly) (ht : m.Ends t) :
    ∃ slot, m.system.kernel.registry.get? t = some slot ∧
      Kernel.Clears t slot.joinQueue m.system.kernel m'.system.kernel := by
  obtain ⟨d, below, hstack, rfl, hcode⟩ := ht
  obtain ⟨k, hk, hsystem, -⟩ := h.finish hstack hcode
  rw [System.restoreAll_eq] at hk
  obtain ⟨s, stack⟩ := m
  have hstack : stack = .thread d :: below := hstack
  subst hstack
  cases ho with
  | idle _ frames => cases frames _ List.mem_cons_self
  | @running _ _ p _ system takes =>
    obtain ⟨hsituated, hrunning⟩ := system.placed
    obtain ⟨slot, hslot, -, howner, -⟩ := hrunning.slot
    have hfree : p ≠ .blocking := by
      rintro rfl
      cases takes with
      | blocking _ code => exact code hcode
    have hplace := hrunning.place
    rw [if_neg hfree] at hplace
    have hclears := Kernel.retire_clears (k := (s.kernel.restore
      (d.task.coroutine.guards.getLastD s.kernel.level)).backToLoop d)
      hsituated.sound hslot howner hplace.waiting hk
    rw [hsystem]
    exact ⟨slot, hslot, hclears.forgotten, hclears.unregistered, hclears.destroyed, hclears.base,
      hclears.acquired, hclears.waiting⟩

/-! ## Every step -/

/-- Who is alive when somebody comes to have a state. -/
theorem Furnished.known_turn (h : m.Furnished) (ho : m.Orderly) (hr : m.Regular)
    (hp : m.Prudent) (hrun : ∀ t, m.system.kernel.registry.current = some t →
      (m.system.kernel.registry.get? t).isSome) (hturn : Turn m m') :
    ∀ t ∈ m'.system.kernel.table.known, (m'.system.kernel.registry.get? t).isSome := by
  have hkept : ∀ t, (m.system.kernel.registry.get? t).isSome → ¬ m.Ends t →
      (m'.system.kernel.registry.get? t).isSome := by
    intro t halive ht
    obtain ⟨slot, hslot⟩ := Option.isSome_iff_exists.1 halive
    obtain ⟨slot', hslot', -⟩ := hturn.slot_kept hr ho ht hslot
    rw [hslot']
    rfl
  have hsound := hr.sane.sound
  cases hturn.reworks with
  | program executes lives code =>
    refine (System.stepCode_edits code).known hsound (fun op u hop hu => ?_)
      (fun u hu => hkept u (hrun u hu) (lives u)) fun u hu => hkept u (h.known u hu) (lives u)
    rcases hop.names (fun _ => ho.not_touches executes) hu with
      hcurrent | ⟨target, p, hb, hresolved⟩ | ⟨j, hb, rfl⟩
    · exact hkept u (hrun u hcurrent) (lives u)
    · have halive := hp _ target p u executes hb hresolved
      rw [Kernel.isAlive_eq_isSome] at halive
      exact hkept u halive (lives u)
    · exact System.stepCode_spawn_alive hsound hb code
  | chooses lives course =>
    refine course.known hsound (fun op u hop hu => ?_) fun u hu => hkept u (h.known u hu) (lives u)
    cases hop with
    | admits alive => exact hu ▸ hkept _ alive (lives _)
    | serves => exact hu.elim
  | @retires d below slot tb stack code alive course removed =>
    intro u hu
    obtain ⟨slot', hslot', hclears⟩ := hturn.clears ho ⟨d, below, stack, rfl, code⟩
    have hne : u ≠ d.thread := by
      rintro rfl
      exact hclears.forgotten hu
    have hknown : u ∈ tb.known := (Table.removeThread_known (course.sound hsound) removed hu).1
    have halive : ∀ v ∈ tb.known, (m.system.kernel.registry.get? v).isSome :=
      course.known hsound (fun op v hop hv => by cases hop <;> exact hv.elim) h.known
    refine hkept u (halive u hknown) ?_
    rintro ⟨d', below', stack', rfl, -⟩
    cases stack.symm.trans stack'
    exact hne rfl
  | quiet lives table =>
    intro u hu
    rw [table] at hu
    exact hkept u (h.known u hu) (lives u)

/-- What the queues are there for after a step. -/
theorem Furnished.queues_turn (h : m.Furnished) (ho : m.Orderly) (hr : m.Regular)
    (hready : m'.system.kernel.readyQueue = m.system.kernel.readyQueue) (hturn : Turn m m') :
    ∀ q, (m'.system.kernel.table.queue? q).isSome → q = m'.system.kernel.readyQueue ∨
      Kernel.Primitive m'.system.uses m'.system.kernel q := by
  intro q hq
  have hsound := hr.sane.sound
  have hkept : (∀ t, ¬ m.Ends t) → (m.system.kernel.table.queue? q).isSome →
      q = m'.system.kernel.readyQueue ∨ Kernel.Primitive m'.system.uses m'.system.kernel q := by
    intro lives hq
    refine (h.queues q hq).imp (·.trans hready.symm) fun hprimitive => ?_
    refine (hturn.primitive_kept hr ho hprimitive).resolve_right ?_
    rintro ⟨t, -, ht, -⟩
    exact lives t ht
  cases hturn.reworks with
  | program executes lives code =>
    rcases (System.stepCode_edits code).queue? hsound hq with hq | ⟨c, transfer, hb, hmakes⟩
    · exact hkept lives hq
    · have hplain : c.plain = true := by
        obtain ⟨-, rest, hcode⟩ := hb
        have hplain := ho.plain executes
        rw [Activation.Plain, hcode, Instr.plainList, Bool.and_eq_true] at hplain
        exact hplain.1
      rcases System.stepCode_makes hsound hb hmakes hplain code hq with hq | hprimitive
      · exact hkept lives hq
      · exact .inr hprimitive
  | chooses lives course =>
    exact hkept lives (course.queue? hsound (fun _ hop => by cases hop) hq)
  | @retires d below slot tb stack code alive course removed =>
    obtain ⟨slot', hslot', hclears⟩ := hturn.clears ho ⟨d, below, stack, rfl, code⟩
    have hold : (m.system.kernel.table.queue? q).isSome :=
      course.queue? hsound (fun _ hop => by cases hop)
        ((Table.apply_queue? (.removeThread _) (course.sound hsound) removed hq).resolve_right
          (by rintro ⟨_, ⟨⟩⟩))
    refine (h.queues q hold).imp (·.trans hready.symm) fun hprimitive => ?_
    refine (hturn.primitive_kept hr ho hprimitive).resolve_right ?_
    rintro ⟨t, slot₁, ⟨d', below', stack', rfl, -⟩, hslot₁, rfl⟩
    cases stack.symm.trans stack'
    cases hslot'.symm.trans hslot₁
    rw [hclears.destroyed] at hq
    cases hq
  | quiet lives table => exact hkept lives (table ▸ hq)

theorem Furnished.turn (h : m.Furnished) (ho : m.Orderly) (hr : m.Regular) (hp : m.Prudent)
    (hrun : ∀ t, m.system.kernel.registry.current = some t →
      (m.system.kernel.registry.get? t).isSome)
    (hready : m'.system.kernel.readyQueue = m.system.kernel.readyQueue) (hturn : Turn m m') :
    m'.Furnished :=
  ⟨h.known_turn ho hr hp hrun hturn, h.queues_turn ho hr hready hturn⟩

theorem Furnished.reseed (h : m.Furnished) (g : Random) : (m.reseed g).Furnished :=
  ⟨h.known, h.queues⟩

/-- At the start there is the ready queue, and nobody has a state. -/
theorem start_furnished {gen : Generator} {settings : Settings} {k : Kernel Activation}
    {programs : List Program} {main : List Action} (hk : Kernel.start gen settings = .ok k) :
    (start k programs main).Furnished := by
  obtain ⟨clock, rfl⟩ := start_ok hk
  refine ⟨fun t ht => ?_, fun q hq => .inl ?_⟩
  · have ht : t ∈ (∅ : KeyMap ThreadId ThreadState).keys.toFinset := ht
    simp [KeyMap.mem_keys_iff, KeyMap.get?_empty] at ht
  · have hq : ((firstTable gen settings).2.queue? q).isSome := hq
    rw [firstTable, Table.queue?_createQueue] at hq
    split at hq
    · rename_i he
      exact he.symm
    · cases hq

/-! ## Who has no state -/

/-- The table has nothing of the thread, and it is not alive. -/
structure Forgotten (t : ThreadId) (m : Machine) : Prop where
  state : m.system.kernel.table.threads.get? t = none
  unowned : ∀ q qs, m.system.kernel.table.queue? q = some qs → qs.owner ≠ some t
  unrecorded : ∀ q qs, m.system.kernel.table.queue? q = some qs → t ∉ qs.waiters.threads
  unregistered : m.system.kernel.isAlive t = false

theorem Furnished.forgotten (h : m.Furnished) (hs : m.system.kernel.table.Sound)
    (ht : m.system.kernel.registry.get? t = none) : Forgotten t m := by
  have hstate : m.system.kernel.table.threads.get? t = none := by
    rw [← Option.not_isSome_iff_eq_none, ← Table.mem_known]
    intro hknown
    have halive := h.known t hknown
    rw [ht] at halive
    cases halive
  have hstateful : ∀ q qs, m.system.kernel.table.queue? q = some qs →
      ¬ (qs.owner = some t ∨ t ∈ qs.waiters.threads) := by
    intro q qs hq hnamed
    have hsome := hs.crossReferenced.stateful t q qs hq hnamed
    rw [hstate] at hsome
    cases hsome
  exact ⟨hstate, fun q qs hq ho => hstateful q qs hq (.inl ho),
    fun q qs hq hr => hstateful q qs hq (.inr hr), (Kernel.isAlive_eq_false_iff _ _).2 ht⟩

/-! ## Successful runs -/

/-- A run that returns successfully leaves no threads. -/
theorem Returns.nobody {actor : Actor} (h : Returns actor (.text "ok") m m') :
    m'.system.kernel.registry.isEmpty = true := by
  obtain ⟨k, a, below, -, -, ⟨hempty, -⟩ | ⟨-, -, hfails⟩, hsystem⟩ := h.choice
  · rw [hsystem]
    exact (congrArg Registry.isEmpty (System.complete_same _ _ _ _).registry).trans hempty
  · cases hfails

/-- When nobody is alive, the table has no states, and the queues are those of locks and conditions,
and the ready queue. -/
theorem Furnished.empty (h : m.Furnished) (ho : m.Orderly)
    (hn : m.system.kernel.registry.isEmpty = true) :
    m.system.kernel.table.known = ∅ ∧ m.system.kernel.table.queueIds.Perm
      (m.system.kernel.readyQueue :: m.system.uses.map Use.queue) := by
  obtain ⟨run, hs⟩ := ho.system
  have hlayout := hs.placed.1.layout
  have hnobody : ∀ t, m.system.kernel.registry.get? t = none :=
    Directory.get?_of_size_zero (beq_iff_eq.1 hn)
  refine ⟨Finset.eq_empty_of_forall_notMem fun t ht => ?_, ?_⟩
  · have halive := h.known t ht
    rw [hnobody] at halive
    cases halive
  · refine (List.perm_ext_iff_of_nodup (Table.queueIds_nodup _) ?_).2 fun q => ?_
    · refine List.nodup_cons.2 ⟨fun hready => ?_, hlayout.use_nodup⟩
      obtain ⟨u, hu, hq⟩ := List.mem_map.1 hready
      exact hlayout.ready_apart u hu hq
    · rw [Table.mem_queueIds, List.mem_cons, List.mem_map]
      refine ⟨fun hq => (h.queues q hq).imp_right fun hprimitive => ?_, fun hq => ?_⟩
      · rcases hprimitive with huse | ⟨t, slot, hslot, -⟩
        · exact huse
        · cases (hnobody t).symm.trans hslot
      · rw [Table.isSome_queue?_iff]
        rcases hq with rfl | ⟨u, hu, rfl⟩
        · rw [hlayout.ready_kind]
          simp
        · rw [hlayout.use_kind u hu]
          simp

end Machine

/-- What retirements and successful runs of the kernel leave in the run `ms` of `n` steps. -/
structure Clearance (n : Nat) (ms : Nat → Machine) : Prop where
  /-- Whatever the thread held, its step leaves the others as they were, but for its joiners. -/
  retires : ∀ i < n, ∀ t, (ms i).Ends t → ∃ slot,
    (ms i).system.kernel.registry.get? t = some slot ∧
      Kernel.Clears t slot.joinQueue (ms i).system.kernel (ms (i + 1)).system.kernel
  /-- Nothing of the thread ever comes back. -/
  forgotten : ∀ i j, i < j → j ≤ n → ∀ t, (ms i).Ends t → Machine.Forgotten t (ms j)
  /-- A successful run leaves no states, and no queues but those of locks and conditions, and the
  ready queue. -/
  finished : ∀ i < n, ∀ actor m, Machine.Returns actor (.text "ok") (ms i) m →
    (∀ t, m.system.kernel.table.threads.get? t = none) ∧ m.system.kernel.table.queueIds.Perm
      (m.system.kernel.readyQueue :: m.system.uses.map Use.queue)

namespace Execution

variable {n i j : Nat} {ms : Nat → Machine} {t : ThreadId}

/-- Everything that a step of a prudent machine relies on. -/
theorem furnished_turn (h : Execution n ms) (ho : (ms 0).Orderly)
    (hp : ∀ i < n, (ms i).Prudent) (hi : i < n) {m : Machine} (hf : (ms i).Furnished)
    (hstep : (ms i).step = .next m) : m.Furnished := by
  have hr := (h.coherent (i := i) (by omega)).toRegular
  have ho := h.orderly ho (i := i) (by omega)
  refine hf.turn ho hr (hp i hi) (fun t ht => ?_) (ho.step hstep).2.ready (hr.turn hstep)
  rw [hr.current] at ht
  obtain ⟨d, below, hs, rfl⟩ := Machine.thread?_cases ht
  exact h.running_alive (by omega) hs

theorem furnished (h : Execution n ms) (ho : (ms 0).Orderly) (hp : ∀ i < n, (ms i).Prudent)
    (hi : i ≤ n) : (ms i).Furnished :=
  h.invariant (h.of_start Machine.start_furnished)
    (fun _ hj _ g hstep hf => (h.furnished_turn ho hp hj hf hstep).reseed g) hi

end Execution

/-- Nothing is left of a thread that retires, whatever it held, and the other threads keep what they
have. -/
theorem execution_clearance {n : Nat} {ms : Nat → Machine} {gen : Generator} {settings : Settings}
    {k : Kernel Activation} {programs : List Program} {main : List Action} (h : Execution n ms)
    (hk : Kernel.start gen settings = .ok k) (hstart : ms 0 = Machine.start k programs main)
    (hp : ∀ p ∈ programs, Instr.plainList p.code = true) (hm : Action.plainList main = true)
    (hprudent : ∀ i < n, (ms i).Prudent) : Clearance n ms := by
  have ho : (ms 0).Orderly := hstart ▸ Machine.start_orderly hk hp hm
  have hclears : ∀ i < n, ∀ t, (ms i).Ends t → ∃ slot,
      (ms i).system.kernel.registry.get? t = some slot ∧
        Kernel.Clears t slot.joinQueue (ms i).system.kernel (ms (i + 1)).system.kernel := by
    intro i hi t ht
    obtain ⟨m, g, -, hturn, hm⟩ := h.next hi (h.coherent (by omega))
    obtain ⟨slot, hslot, hc⟩ := hturn.clears (h.orderly ho (by omega)) ht
    refine ⟨slot, hslot, ?_⟩
    rw [hm]
    exact ⟨hc.forgotten, hc.unregistered, hc.destroyed, hc.base, hc.acquired, hc.waiting⟩
  refine ⟨hclears, fun i j hij hj t ht => ?_, fun i hi actor m hret => ?_⟩
  · obtain ⟨slot, hslot, hc⟩ := hclears i (by omega) t ht
    have hnumber := h.number_lt (by omega) hslot
    have hgone := h.stays_gone hij hj (hnumber.trans_le (h.nextNumber_le (by omega) (by omega)))
      hc.unregistered
    exact (h.furnished ho hprudent hj).forgotten (h.coherent hj).sane.sound hgone
  · have hf := h.furnished_turn ho hprudent hi (h.furnished ho hprudent (by omega)) hret.step
    have ho' := ((h.orderly ho (by omega)).step hret.step).1
    obtain ⟨hknown, hqueues⟩ := hf.empty ho' hret.nobody
    refine ⟨fun t => ?_, hqueues⟩
    rw [← Option.not_isSome_iff_eq_none, ← Table.mem_known, hknown]
    exact Finset.notMem_empty t

namespace Machine

/-- The machine is prudent. -/
def isPrudent (m : Machine) : Bool :=
  match m.beginning? with
  | some (.act (.setPriority target _)) =>
    (target.resolve m.system.kernel).toOption.all fun t => m.system.kernel.isAlive t
  | _ => true

theorem prudent_of_isPrudent {m : Machine} (h : m.isPrudent = true) : m.Prudent := by
  rintro a target p t ha ⟨hfresh, rest, hcode⟩ ht
  have hbegins : m.beginning? = some (.act (.setPriority target p)) := by
    rw [beginning?, ha, Option.bind_some, if_pos hfresh, hcode]
    rfl
  rw [isPrudent, hbegins] at h
  simp only [ht] at h
  exact h

/-- A thread ends inside the atomic region with a lock and the queue of a condition, and another one
has joined it. -/
def burdenedPrograms : List Program :=
  [⟨"sleeper", [.acquire 0, .sleep 0, .act .enter]⟩, ⟨"joiner", [.join (.named ⟨1⟩)]⟩,
    ⟨"waker", [.act (.atomic (.setPriority (.named ⟨1⟩) 3)), .acquire 0, .act (.wake 0),
      .act (.release 0)]⟩]

def burdenedMain : List Action := [.newLock, .newCondition 0, .spawn 0, .spawn 1, .spawn 2, .run]

def burdenedSettings : Settings := ⟨.priority, none, 10, 1⟩

/-- The thread at the end of its program, what it owns, and who waits for it to retire. -/
def burden (m : Machine) : Option ThreadId × List QueueId × List (Option QueueId) :=
  (m.thread?, (m.system.kernel.table.state ⟨1⟩).acquired,
    m.system.spawned.map m.system.kernel.table.waitingQueue)

theorem execution_clearance_burdened : ∃ (n : Nat) (ms : Nat → Machine) (k : Kernel Activation),
    Execution n ms ∧ Kernel.start .counting burdenedSettings = .ok k ∧
    ms 0 = start k burdenedPrograms burdenedMain ∧
    (∀ p ∈ burdenedPrograms, Instr.plainList p.code = true) ∧
    Action.plainList burdenedMain = true ∧ (∀ i < n, (ms i).Prudent) ∧ 34 ≤ n ∧
    burden (ms 27) = (some ⟨1⟩, [⟨3⟩, ⟨2⟩, ⟨0⟩, ⟨1⟩], [none, some ⟨3⟩, none]) ∧
    (ms 27).system.kernel.inAtomic = true ∧
    burden (ms 28) = (none, [], [none, none, none]) ∧
    (ms n).system.kernel.table.queueIds = [⟨0⟩, ⟨1⟩, ⟨2⟩] ∧ Clearance n ms := by
  have hrun : (Kernel.start .counting burdenedSettings).toOption.any (fun k =>
      let m := fun i => (run i (start k burdenedPrograms burdenedMain)).1
      (run 34 (m 0)).2 = .unfinished ∧ throughout isPrudent 34 (m 0) = true ∧
        burden (m 27) = (some ⟨1⟩, [⟨3⟩, ⟨2⟩, ⟨0⟩, ⟨1⟩], [none, some ⟨3⟩, none]) ∧
        (m 27).system.kernel.inAtomic = true ∧
        burden (m 28) = (none, [], [none, none, none]) ∧
        (m 34).system.kernel.table.queueIds = [⟨0⟩, ⟨1⟩, ⟨2⟩]) = true := by
    decide +kernel
  have hp : ∀ p ∈ burdenedPrograms, Instr.plainList p.code = true := by decide
  have hm : Action.plainList burdenedMain = true := by decide
  obtain ⟨k, hk, hrun⟩ := exists_start hrun
  obtain ⟨hn, hall, hbefore, hatomic, hafter, hlast⟩ := of_decide_eq_true hrun
  have hexec := execution_run hk hn
  have hprudent : ∀ i < 34, (run i (start k burdenedPrograms burdenedMain)).1.Prudent :=
    fun i hi => prudent_of_isPrudent (of_throughout hall hi.le)
  exact ⟨34, _, k, hexec, hk, rfl, hp, hm, hprudent, by decide, hbefore, hatomic, hafter, hlast,
    execution_clearance hexec hk rfl hp hm hprudent⟩

end Machine
end ThreadKernel
