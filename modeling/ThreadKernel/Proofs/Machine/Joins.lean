import ThreadKernel.Proofs.Directory
import ThreadKernel.Proofs.Machine.JoinQueues

/-!
# ThreadKernel.Proofs.Machine.Joins

Joining. A thread that joins another one waits on its join queue and donates to it, and returns only
after the other one has retired. A thread that retires hands its join queue to one joiner after the
other, each of which becomes ready once.

* `Machine.Joining`  — a thread has begun a join and has not returned.
* `Machine.retiring` — the kernel in which the thread at the end of its program retires.
* `Machine.Frees`    — what a retirement does to the joiners.
* `execution_join`   — all this in every execution whose join queues are left alone.
-/

namespace ThreadKernel

open Kernel (AllCalm Drains)

namespace Machine

/-- The thread `u` has begun to join `t`, and has not returned. -/
def Joining (u t : ThreadId) (m : Machine) : Prop :=
  ∃ a rest p r, m.activation? u = some a ∧ a.code = .join (.named t) :: rest ∧
    a.stage = .suspended p r

/-- The kernel in which a thread at the end of its program retires. -/
def retiring (d : Kernel.Dispatched Activation) (m : Machine) : Kernel Activation :=
  (m.system.kernel.restoreAll d.task.coroutine.guards).backToLoop d

/-- The thread `t` with the join queue `q` goes, and its joiners `l` become ready. -/
structure Frees (t : ThreadId) (q : QueueId) (l : List ThreadId) (m m' : Machine) : Prop where
  unannounced : ∀ u ∈ l, u ∉ m.system.kernel.registry.channel
  announced : m'.system.kernel.registry.channel = m.system.kernel.registry.channel ++ l
  awake : ∀ u ∈ l, ∃ slot, m'.system.kernel.registry.get? u = some slot ∧ slot.signal.woken = true
  free : ∀ u ∈ l, m'.system.kernel.table.waitingQueue u = none
  gone : m'.system.kernel.isAlive t = false
  destroyed : m'.system.kernel.table.queue? q = none
  apart : ∀ u ∈ l, ∀ v, u ∉ m'.system.kernel.table.directDonors v

variable {m m' : Machine} {t u : ThreadId} {below : List Frame} {slot : Slot Activation}
  {d : Kernel.Dispatched Activation} {target : ThreadRef}

/-! ## Steps of the running thread -/

theorem step_go {a' : Activation} {s' : System} (hs : m.stack = .thread d :: below)
    (hc : m.system.stepCode (.thread d.thread) d.task.coroutine = .ok (.go a' s')) :
    m.step = .next ⟨s', .thread (holding d a') :: below⟩ := by
  unfold Machine.step
  rw [hs]
  show stepThread d below m.system = _
  unfold stepThread
  simp only [hc]
  rfl

theorem step_done (hs : m.stack = .thread d :: below) (hc : d.task.coroutine.code = []) :
    m.step = endDispatch ((m.retiring d).retire d.thread) below m.system := by
  have hcode : m.system.stepCode (.thread d.thread) d.task.coroutine =
      .ok (.done d.task.coroutine m.system) := by
    unfold System.stepCode
    rw [hc]
  unfold Machine.step
  rw [hs]
  show stepThread d below m.system = _
  unfold stepThread
  simp only [hcode]
  rfl

/-! ## The call -/

/-- A thread that is not alive is not waited for. -/
theorem Begins.join_gone (hb : Begins u (.join target) m) (hr : m.Regular)
    (ht : target.resolve m.system.kernel = .ok t) (hne : u ≠ t)
    (hgone : m.system.kernel.registry.get? t = none) :
    ∃ m', m.step = .next m' ∧ Completes u (.join target) m m' := by
  obtain ⟨d, below, hstack, rfl, hfresh, rest, hcode⟩ := hb
  have hcurrent : m.system.kernel.currentThread = .ok d.thread := by
    rw [Kernel.currentThread, hr.current, thread?_eq hstack]
  obtain ⟨r, hret⟩ : ∃ r, m.system.returns (.thread d.thread) .nothing d.task.coroutine = .ok r :=
    ⟨_, rfl⟩
  have hjoin : m.system.stepCode (.thread d.thread) d.task.coroutine = .ok r := by
    rw [System.stepCode_fresh hfresh hcode, System.stepInstr, System.beginJoin]
    simp only [ht, hcurrent, if_neg hne, hgone]
    exact hret
  obtain ⟨level, rfl⟩ := System.returns_eq hcode hret
  exact ⟨_, step_go hstack hjoin, thread?_eq hstack, _, _, rfl⟩

/-- A thread that is alive is waited for on its join queue. -/
theorem Begins.join_alive (hb : Begins u (.join target) m) (hr : m.Regular)
    (ht : target.resolve m.system.kernel = .ok t)
    (halive : m.system.kernel.registry.get? t = some slot) (hs : m.step = .next m') :
    m'.Joining u t ∧ m'.system.kernel.table.waitingQueue u = some slot.joinQueue := by
  obtain ⟨d, below, rest, a', hstack, rfl, hfresh, hcode, hinstr⟩ := hb.step hs (by simp)
  have hgo := (System.stepCode_fresh hfresh hcode).trans hinstr
  have hstack' : m'.stack = .thread (holding d a') :: below :=
    congrArg Machine.stack (Outcome.next.inj (hs.symm.trans (step_go hstack hgo)))
  have hbegins : d.task.coroutine.Begins (.join target) := ⟨hfresh, rest, hcode⟩
  obtain ⟨x, v, hx, -, -, hjoins⟩ := System.stepCode_join hbegins hgo
  cases ht.symm.trans hx
  have hsuspended : a' = { d.task.coroutine with
      stage := .suspended .untilWake (.leave m.system.kernel.level) } := by
    cases hjoins with
    | returns gone => exact nomatch halive.symm.trans gone
    | waits _ _ suspended => exact suspended
  obtain ⟨y, yslot, rfl, -, hyslot, -, hw⟩ :=
    hr.begins_join hstack hbegins (by rw [hsuspended]; simp) hgo
  cases ht
  cases halive.symm.trans hyslot
  refine ⟨⟨a', rest, _, _, activation?_self hstack', ?_, congrArg _ hsuspended⟩, hw⟩
  rw [hsuspended]
  exact hcode

/-- A join completes only when the other thread is not alive. -/
theorem Completes.join (hc : Completes u (.join target) m m') (hm : m.Joinable) (hr : m.Regular)
    (hturn : Turn m m') : ∃ t, target = .named t ∧ u ≠ t ∧
      m.system.kernel.registry.get? t = none ∧ m'.system.kernel.registry.get? t = none := by
  obtain ⟨d, a', below, rest, hstack, rfl, hcode, code, hcompletes⟩ := hc.cases hturn hr
  cases hstage : d.task.coroutine.stage with
  | fresh =>
    obtain ⟨t, u, ht, hu, hne, hjoins⟩ := System.stepCode_join ⟨hstage, rest, hcode⟩ code
    cases hu.symm.trans (hr.current.trans (thread?_eq hstack))
    have hnamed := named_of_resolve ht hu hne
    cases hjoins with
    | returns gone _ _ registry => exact ⟨t, hnamed, hne, gone, registry ▸ gone⟩
    | waits _ _ suspended =>
      have hfresh := hcompletes.fresh
      rw [suspended] at hfresh
      cases hfresh
  | suspended p r =>
    obtain ⟨t, rfl, hne, hnumber, hw⟩ := hm.joined (activation?_self hstack) hcode hstage
    have hgone : m.system.kernel.registry.get? t = none := by
      cases hslot : m.system.kernel.registry.get? t with
      | none => rfl
      | some slot => exact absurd (hw slot hslot) ((hm.guarded hslot).free hstack code)
    refine ⟨t, rfl, hne, hgone, ?_⟩
    cases hslot : m'.system.kernel.registry.get? t with
    | none => rfl
    | some slot =>
      rcases (hturn.settles hr).slot hslot with ⟨_, halive, -⟩ | ⟨hold, -⟩
      · exact nomatch halive.symm.trans hgone
      · omega

/-- Whoever joins a thread that is alive waits on its join queue and donates to it. -/
theorem Joinable.donates (h : m.Joinable) (hr : m.Regular) (hj : m.Joining u t)
    (halive : m.system.kernel.registry.get? t = some slot) :
    u ≠ t ∧ m.system.kernel.table.waitingQueue u = some slot.joinQueue ∧
      u ∈ m.system.kernel.table.directDonors t := by
  obtain ⟨a, rest, p, r, ha, hcode, hstage⟩ := hj
  obtain ⟨x, hx, hne, -, hw⟩ := h.joined ha hcode hstage
  cases hx
  exact ⟨hne, hw slot halive, ((h.holds halive).donates hr.sane.sound (hw slot halive)).1⟩

/-! ## Retirement -/

theorem retiring_eq (d : Kernel.Dispatched Activation) (m : Machine) :
    m.retiring d = { m.system.kernel with
      registry := { m.system.kernel.registry with current := none }
      level := d.loopLevel } := by
  rw [retiring, System.restoreAll_eq]
  rfl

theorem Regular.retiring (h : m.Regular) : (m.retiring d).Sane := by
  rw [retiring_eq]
  exact ⟨h.sane.sound, h.sane.waker, h.sane.signal⟩

/-- A thread at the end of its program does not wait for itself. -/
theorem Guarded.free_of_done {q : QueueId} (h : m.Guarded q) (hs : m.stack = .thread d :: below)
    (hc : d.task.coroutine.code = []) : m.system.kernel.table.waitingQueue d.thread ≠ some q :=
  fun hw => (h.running d below hs hw).1.1 hc

theorem Guarded.retiring_calm {q : QueueId} (h : m.Guarded q) (hs : m.stack = .thread d :: below)
    (hc : d.task.coroutine.code = []) : AllCalm q (m.retiring d).enter := by
  rw [retiring_eq]
  intro u hu _
  have hne : some d.thread ≠ some u := by
    rintro ⟨⟩
    exact h.free_of_done hs hc hu
  have hcalm := h.calm d.thread (thread?_eq hs) u hu hne
  exact ⟨hcalm.channel, hcalm.signal⟩

/-- All that wait on the join queue can be made ready. -/
theorem Joinable.wakeable (h : m.Joinable) (hr : m.Regular) (hs : m.stack = .thread d :: below)
    (hc : d.task.coroutine.code = []) (hslot : m.system.kernel.registry.get? d.thread = some slot) :
    Kernel.Wakeable slot.joinQueue (m.retiring d).enter := by
  obtain ⟨qs, hqs, -⟩ := (h.holds hslot).queue
  have hguarded := h.guarded hslot
  have hfree : ∀ t, m.thread? = some t →
      m.system.kernel.table.waitingQueue t ≠ some slot.joinQueue := by
    intro t ht
    rw [thread?_eq hs] at ht
    cases ht
    exact hguarded.free_of_done hs hc
  have hqueue : (m.system.kernel.table.queue? slot.joinQueue).isSome := by
    rw [hqs]
    rfl
  rw [retiring_eq]
  exact ⟨rfl, hr.sane.sound, hqueue, fun u hu => ⟨hguarded.alive hfree hu, nofun⟩⟩

/-- The step that retires a thread: after its join queue was handed over, it departs. -/
theorem Regular.departs (hr : m.Regular) (hs : m.stack = .thread d :: below)
    (hc : d.task.coroutine.code = []) (hslot : m.system.kernel.registry.get? d.thread = some slot)
    {k : Kernel Activation} (hall : (m.retiring d).enter.handOverAll slot.joinQueue = .ok k)
    (hstep : m.step = .next m') :
    Kernel.Departed d.thread slot.joinQueue k m'.system.kernel := by
  rw [step_done hs hc] at hstep
  unfold endDispatch at hstep
  split at hstep
  · cases hstep
  · rename_i k' hk'
    cases hstep
    obtain ⟨slot', k₁, hslot', h₁, -, hdeparted⟩ := Kernel.retire_departed hk' hr.retiring
    rw [retiring_eq] at hslot'
    cases hslot.symm.trans hslot'
    cases hall.symm.trans h₁
    obtain ⟨hprecedes, hready⟩ := hdeparted.later
    exact ⟨hdeparted.sound, ⟨hprecedes, hready⟩, hdeparted.registry, hdeparted.waiting,
      hdeparted.gone, hdeparted.destroyed, hdeparted.transfer, hdeparted.owner⟩

/-- What the step that retires a thread does to those who wait on its join queue. -/
theorem Joinable.frees (h : m.Joinable) (hr : m.Regular) (hs : m.stack = .thread d :: below)
    (hc : d.task.coroutine.code = []) (hslot : m.system.kernel.registry.get? d.thread = some slot)
    {l : List ThreadId} {k : Kernel Activation}
    (hall : (m.retiring d).enter.handOverAll slot.joinQueue = .ok k)
    (hdrains : Drains slot.joinQueue l (m.retiring d).enter k)
    (hl : ∀ u, u ∈ l ↔ m.system.kernel.table.waitingQueue u = some slot.joinQueue)
    (hstep : m.step = .next m') : Frees d.thread slot.joinQueue l m m' := by
  have hguarded := h.guarded hslot
  have hcalm := hguarded.retiring_calm hs hc
  obtain ⟨hempties, hchannel⟩ := hdrains.empties hr.retiring.entered hcalm
  have hdeparted := hr.departs hs hc hslot hall hstep
  have htable : (m.retiring d).enter.table = m.system.kernel.table := by
    rw [retiring_eq]
    rfl
  have hold : (m.retiring d).enter.registry.channel = m.system.kernel.registry.channel := by
    rw [retiring_eq]
    rfl
  have hwaits : ∀ u ∈ l, (m.retiring d).enter.table.waitingQueue u = some slot.joinQueue :=
    fun u hu => htable ▸ (hl u).1 hu
  have hne : ∀ u ∈ l, d.thread ≠ u := by
    rintro u hu rfl
    exact hguarded.free_of_done hs hc ((hl _).1 hu)
  have hnone : ∀ u ∈ l, k.table.waitingQueue u = none := fun u hu => by
    rw [hempties.waiting, if_pos (hwaits u hu)]
  have hfree : ∀ u ∈ l, m'.system.kernel.table.waitingQueue u = none := fun u hu => by
    rw [hdeparted.waiting u (by simp [hnone u hu]) (hne u hu).symm, hnone u hu]
  constructor
  case unannounced => exact fun u hu hm => (hcalm u (hwaits u hu) (by simp)).channel (hold ▸ hm)
  case announced =>
    have hregistry := congrArg Registry.channel hdeparted.registry
    exact hregistry.trans (hchannel.trans (congrArg (· ++ l) hold))
  case awake =>
    intro u hu
    obtain ⟨-, x, hx, -⟩ := hcalm u (hwaits u hu) (by simp)
    refine ⟨x.awaken, ?_, rfl⟩
    refine (hdeparted.get? u).trans ?_
    rw [if_neg (hne u hu), hempties.slot, if_pos (hwaits u hu), hx]
    rfl
  case free => exact hfree
  case gone => exact (Kernel.isAlive_eq_false_iff _ _).2 ((hdeparted.get? _).trans (if_pos rfl))
  case destroyed => exact Option.map_eq_none_iff.1 hdeparted.destroyed
  case apart =>
    intro u hu v hv
    obtain ⟨q, -, hw, -⟩ := (Table.mem_directDonors hdeparted.sound.linked).1 hv
    exact nomatch (hfree u hu).symm.trans hw

/-- The loop of a retirement ends. The thread retires, unless the ready queue was destroyed. -/
theorem Joinable.retires (h : m.Joinable) (hr : m.Regular) (hm : m.Separate)
    (hs : m.stack = .thread d :: below) (hc : d.task.coroutine.code = []) :
    ∃ slot l k, m.system.kernel.registry.get? d.thread = some slot ∧
      (m.retiring d).enter.handOverAll slot.joinQueue = .ok k ∧
      Drains slot.joinQueue l (m.retiring d).enter k ∧ l.Nodup ∧
      (∀ u, u ∈ l ↔ m.system.kernel.table.waitingQueue u = some slot.joinQueue) ∧
      (∀ m', m.step = .next m' → Frees d.thread slot.joinQueue l m m') ∧
      ((m.system.kernel.table.queue? m.system.kernel.readyQueue).isSome →
        ∃ m', m.step = .next m') := by
  obtain ⟨slot, hslot⟩ := Option.isSome_iff_exists.1 (h.running hs)
  have hwakeable := h.wakeable hr hs hc hslot
  obtain ⟨k, hall, -⟩ := hwakeable.exists_handOverAll
  obtain ⟨l, hdrains⟩ := Kernel.handOverAll_drains hr.retiring.entered hall
  obtain ⟨hempties, hchannel⟩ :=
    hdrains.empties hr.retiring.entered ((h.guarded hslot).retiring_calm hs hc)
  obtain ⟨announced, hannounced, hnodup, hmem⟩ := hempties.channel
  cases List.append_cancel_left (hchannel.symm.trans hannounced)
  have hl : ∀ u, u ∈ l ↔ m.system.kernel.table.waitingQueue u = some slot.joinQueue := by
    intro u
    rw [hmem, retiring_eq]
    rfl
  refine ⟨slot, l, k, hslot, hall, hdrains, hnodup, hl,
    fun m' hstep => h.frees hr hs hc hslot hall hdrains hl hstep, fun hready => ?_⟩
  have hretiring := retiring_eq d m
  have hslot' : (m.retiring d).registry.get? d.thread = some slot := by
    rw [hretiring]
    exact hslot
  obtain ⟨k', hk'⟩ := Kernel.exists_retire hslot' hwakeable
    (by rw [hretiring]; exact hready) (by rw [hretiring]; exact hm.ready _ _ hslot)
  rw [step_done hs hc, hk']
  exact ⟨_, rfl⟩

/-- A thread dies in the step that ends its program, and in no other one. -/
theorem Turn.dies (hturn : Turn m m')
    (halive : m.system.kernel.registry.get? t = some slot)
    (hgone : m'.system.kernel.registry.get? t = none) :
    ∃ d below, m.stack = .thread d :: below ∧ d.thread = t ∧ d.task.coroutine.code = [] := by
  have hlives : ∀ {P : Prop} {x : Slot Activation},
      m'.system.kernel.registry.get? t = some x → P := fun hx => nomatch hx.symm.trans hgone
  cases hturn with
  | program _ code | thread _ code =>
    obtain ⟨_, hslot⟩ := (System.stepCode_grows code).kernel.slot halive
    exact hlives hslot
  | @parks d _ _ _ _ _ code park system =>
    obtain ⟨_, _, _, _, k₁, -, -, -, hpoll, rfl, rfl⟩ := System.stepCode_park code
    obtain ⟨_, hslot⟩ := (Kernel.pollPoint_steady hpoll).slot halive
    obtain ⟨-, -, -, _, -, hget⟩ := park_get? park
    rw [system] at hlives
    by_cases ht : d.thread = t
    · exact hlives ((hget t).trans (if_pos ht))
    · exact hlives ((hget t).trans ((if_neg ht).trans hslot))
  | @retires d k below stack code finish system =>
    obtain ⟨k₁, hsteady, rfl⟩ := finish_cases finish
    rw [System.restoreAll_eq] at hsteady
    obtain ⟨_, hslot⟩ := hsteady.slot halive
    by_cases ht : d.thread = t
    · exact ⟨d, below, stack, ht, code⟩
    · rw [system] at hlives
      exact hlives ((Directory.get?_erase _ _ _).trans ((if_neg ht).trans hslot))
  | alarm _ _ release same =>
    obtain ⟨_, hslot⟩ := (release_steady release).slot halive
    exact hlives (same.registry ▸ hslot)
  | chooses _ _ choose same =>
    obtain ⟨_, hslot⟩ := (choose_steady choose).slot halive
    exact hlives (same.registry ▸ hslot)
  | @dispatches u _ _ _ _ _ choose dispatch system =>
    obtain ⟨_, hslot⟩ := (choose_steady choose).slot halive
    obtain ⟨-, -, -, -, -, _, -, -, hget⟩ := dispatch_get? dispatch
    rw [system] at hlives
    by_cases ht : u = t
    · exact hlives ((hget t).trans (if_pos ht))
    · exact hlives ((hget t).trans ((if_neg ht).trans hslot))
  | quiet _ _ same => exact hlives (same.registry ▸ halive)

/-! ## Joining, from the call to the return -/

/-- What joining comes to in the machine and in its next step. -/
structure Joins (m : Machine) : Prop where
  /-- A thread that is not alive is not waited for. -/
  absent : ∀ {u target t}, Begins u (.join target) m → target.resolve m.system.kernel = .ok t →
    m.system.kernel.isAlive t = false → ∃ m', m.step = .next m' ∧ Completes u (.join target) m m'
  waits : ∀ {u target t slot m'}, Begins u (.join target) m →
    target.resolve m.system.kernel = .ok t → m.system.kernel.registry.get? t = some slot →
      m.step = .next m' →
        m'.Joining u t ∧ m'.system.kernel.table.waitingQueue u = some slot.joinQueue
  returns : ∀ {u target m'}, m.step = .next m' → Completes u (.join target) m m' →
    ∃ t, target = .named t ∧ u ≠ t ∧ m.system.kernel.isAlive t = false ∧
      m'.system.kernel.isAlive t = false
  donates : ∀ {u t slot}, m.Joining u t → m.system.kernel.registry.get? t = some slot →
    m.system.kernel.table.waitingQueue u = some slot.joinQueue ∧
      u ∈ m.system.kernel.table.directDonors t
  /-- What is donated counts once. -/
  worth : ∀ t, (m.system.kernel.table.directDonors t).Nodup ∧ m.system.kernel.table.effective t =
    ((m.system.kernel.table.directDonors t).map m.system.kernel.table.effective).foldl
      m.system.kernel.table.policy.combine (m.system.kernel.table.priority t)
  dies : ∀ {t m'}, m.step = .next m' → m.system.kernel.isAlive t = true →
    m'.system.kernel.isAlive t = false →
      ∃ d below, m.stack = .thread d :: below ∧ d.thread = t ∧ d.task.coroutine.code = []
  /-- A retirement passes the join queue to one joiner after the other. After that it fails only
  if there is no ready queue any more. -/
  retires : ∀ {d below}, m.stack = .thread d :: below → d.task.coroutine.code = [] →
    ∃ slot l k, m.system.kernel.registry.get? d.thread = some slot ∧
      (m.retiring d).enter.handOverAll slot.joinQueue = .ok k ∧
      Drains slot.joinQueue l (m.retiring d).enter k ∧ l.Nodup ∧
      (∀ u, u ∈ l ↔ m.system.kernel.table.waitingQueue u = some slot.joinQueue) ∧
      (∀ m', m.step = .next m' → Frees d.thread slot.joinQueue l m m') ∧
      ((m.system.kernel.table.queue? m.system.kernel.readyQueue).isSome →
        ∃ m', m.step = .next m')

theorem Joinable.joins (h : m.Joinable) (hr : m.Regular) (hm : m.Separate) : m.Joins where
  absent {u target t} hb ht hgone := by
    have hgone := (Kernel.isAlive_eq_false_iff _ _).1 hgone
    have hne : u ≠ t := by
      obtain ⟨d, below, hstack, rfl, -⟩ := hb
      rintro rfl
      have halive := h.running hstack
      rw [hgone] at halive
      cases halive
    exact hb.join_gone hr ht hne hgone
  waits hb ht halive hs := hb.join_alive hr ht halive hs
  returns hs hc := by
    obtain ⟨t, hnamed, hne, hgone, hgone'⟩ := hc.join h hr (hr.turn hs)
    exact ⟨t, hnamed, hne, (Kernel.isAlive_eq_false_iff _ _).2 hgone,
      (Kernel.isAlive_eq_false_iff _ _).2 hgone'⟩
  donates hj halive := (h.donates hr hj halive).2
  worth t := ⟨Table.directDonors_nodup hr.sane.sound.linked t,
    Table.effective_eq_direct hr.sane.sound t⟩
  dies hs halive hgone := by
    obtain ⟨slot, hslot⟩ := Option.isSome_iff_exists.1 ((Kernel.isAlive_eq_isSome _ _).symm.trans halive)
    exact (hr.turn hs).dies hslot ((Kernel.isAlive_eq_false_iff _ _).1 hgone)
  retires hs hc := h.retires hr hm hs hc

end Machine

/-- In every execution that leaves join queues alone, joining takes this course. -/
theorem execution_join {n i : Nat} {ms : Nat → Machine} (h : Execution n ms)
    (hs : ∀ j ≤ n, (ms j).Separate) (hi : i ≤ n) : (ms i).Joins :=
  (h.joinable hs hi).joins (h.coherent hi).toRegular (hs i hi)

/-! ## Two runs -/

namespace Machine

variable {m : Machine}

/-- The next instruction handles no queue and wakes nobody, or there are no threads. -/
def aloof (m : Machine) : Bool :=
  m.beginning?.all Instr.plain || m.system.kernel.registry.isEmpty

theorem aloof_of_throughout {n : Nat} (h : throughout aloof n m = true) {i : Nat} (hi : i ≤ n) :
    (run i m).1.Aloof := by
  intro a ha t slot ht
  rcases Bool.or_eq_true_iff.1 (of_throughout h hi) with hplain | hempty
  · exact leaves_of_beginning hplain slot.joinQueue a ha
  · cases ht.symm.trans (Directory.get?_of_size_zero (beq_iff_eq.1 hempty) t)

/-- Two threads join a third one. -/
def joinPrograms : List Program :=
  [⟨"target", [.yield]⟩, ⟨"joiner", [.join (.named ⟨1⟩)]⟩]

def joinMain : List Action := [.spawn 0, .spawn 1, .spawn 1, .run]

/-- With this seed the kernel's own generator makes the same draws as one that counts. -/
def joinSettings : Settings := ⟨.lottery, some 15002, 100, 1⟩

/-- The lottery wakes the joiners in the order in which they did not come. -/
theorem execution_join_drawn : ∃ (n : Nat) (ms : Nat → Machine), Execution n ms ∧
    (∀ j ≤ n, (ms j).Separate) ∧ 19 ≤ n ∧
    ((ms 19).thread? = some ⟨1⟩ ∧ (ms 19).system.kernel.table.effective ⟨1⟩ = 3) ∧
    (ms 20).system.kernel.registry.channel = [⟨3⟩, ⟨2⟩] ∧
    (ms 20).system.kernel.isAlive ⟨1⟩ = false ∧ (ms 19).Joins := by
  have hrun : (Kernel.start .counting joinSettings).toOption.any (fun k =>
      let m := fun i => (run i (start k joinPrograms joinMain)).1
      (run 20 (m 0)).2 = .unfinished ∧
        ((m 19).thread? = some ⟨1⟩ ∧ (m 19).system.kernel.table.effective ⟨1⟩ = 3) ∧
        (m 20).system.kernel.registry.channel = [⟨3⟩, ⟨2⟩] ∧
        (m 20).system.kernel.isAlive ⟨1⟩ = false) = true := by
    decide +kernel
  have hp : ∀ p ∈ joinPrograms, Instr.plainList p.code = true := by decide
  have hm : Action.plainList joinMain = true := by decide
  obtain ⟨k, hk, hrun⟩ := exists_start hrun
  obtain ⟨hn, hbefore, hannounced, hgone⟩ := of_decide_eq_true hrun
  have hexec := execution_run hk hn
  have hseparate : ∀ j ≤ 20, (run j (start k joinPrograms joinMain)).1.Separate := fun j _ =>
    ((start_orderly hk hp hm).steps (steps_run j _)).1.separate
  have hjoins := execution_join hexec hseparate (by decide : 19 ≤ 20)
  exact ⟨20, _, hexec, hseparate, by decide, hbefore, hannounced, hgone, hjoins⟩

/-- The queue of a lock is destroyed, and its number goes to the join queue of a new thread. -/
def strandedPrograms : List Program :=
  [⟨"target", [.acquire 0, .yield, .act (.release 0), .yield, .act (.note (.number 1))]⟩,
    ⟨"joiner", [.join (.named ⟨1⟩), .act (.alive (.named ⟨1⟩))]⟩]

def strandedMain : List Action := [.newLock, .destroyQueue ⟨1⟩, .spawn 0, .spawn 1, .run]

def strandedSettings : Settings := ⟨.priority, none, 100, 1⟩

/-- A release of that lock wakes the joiner of a thread that is alive. -/
theorem join_cut_short : ∃ (n : Nat) (ms : Nat → Machine), Execution n ms ∧
    (∀ j ≤ n, (ms j).Aloof) ∧ 23 ≤ n ∧
    (Actor.thread ⟨2⟩, 3, "join") ∉
      (ms 22).system.events.map (fun e => (e.actor, e.time, e.instr.word)) ∧
    (Actor.thread ⟨2⟩, 3, "join") ∈
      (ms 23).system.events.map (fun e => (e.actor, e.time, e.instr.word)) ∧
    (ms 22).system.kernel.isAlive ⟨1⟩ = true ∧ (ms 23).system.kernel.isAlive ⟨1⟩ = true := by
  have hrun : (Kernel.start .counting strandedSettings).toOption.any (fun k =>
      let m := fun i => (run i (start k strandedPrograms strandedMain)).1
      (run 23 (m 0)).2 = .unfinished ∧ throughout aloof 23 (m 0) ∧
        (Actor.thread ⟨2⟩, 3, "join") ∉
          (m 22).system.events.map (fun e => (e.actor, e.time, e.instr.word)) ∧
        (Actor.thread ⟨2⟩, 3, "join") ∈
          (m 23).system.events.map (fun e => (e.actor, e.time, e.instr.word)) ∧
        (m 22).system.kernel.isAlive ⟨1⟩ = true ∧
        (m 23).system.kernel.isAlive ⟨1⟩ = true) = true := by
    decide +kernel
  obtain ⟨k, hk, hrun⟩ := exists_start hrun
  obtain ⟨hn, haloof, hbefore, hafter, halive, halive'⟩ := of_decide_eq_true hrun
  exact ⟨23, _, execution_run hk hn, fun j hj => aloof_of_throughout haloof hj, by decide,
    hbefore, hafter, halive, halive'⟩

end Machine
end ThreadKernel
