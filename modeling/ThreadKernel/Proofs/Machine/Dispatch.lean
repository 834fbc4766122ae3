import ThreadKernel.Proofs.Machine.Situations
import ThreadKernel.Proofs.Table.Donors
import ThreadKernel.Proofs.Table.Silent

/-!
# ThreadKernel.Proofs.Machine.Dispatch

Which thread is dispatched under priorities: one that is worth most among those that can run, the
first of them in the ready queue, and worth as much as any thread that waits for one of them.

* `System.Runnable`, `System.WaitsFor` — who can run, and who waits for whom.
* `Kernel.admitWoken_effective`        — admission changes nobody's value.
* `WaitsFor.chain_le`                  — values do not drop along waiting threads.
* `dispatch_highest`                   — the choice, at any dispatch of any run.
-/

namespace ThreadKernel

open Relation
open Kernel (Posture Placed Later)

/-! ## Values and admission -/

namespace Kernel

variable {k k' : Kernel Activation}

theorem admitEach_effective (l : List ThreadId) {k : Kernel Activation} (h : k.table.Sound)
    (hq : k.table.Silent k.readyQueue) (hr : admitEach l k = .ok k') (t : ThreadId) :
    k'.table.effective t = k.table.effective t := by
  replace hr := admitEach_ok hr
  induction hr with
  | nobody => rfl
  | gone _ _ ih | waits _ _ ih => exact ih h hq
  | comes _ wait _ ih =>
    obtain ⟨tb, htb, rfl⟩ := withTable_ok wait
    obtain ⟨-, -, he⟩ := Table.waitForAccess_effect h htb
    rw [ih he.sound (hq.effect he rfl)]
    exact Table.waitForAccess_silent h hq htb t

theorem admitWoken_effective (h : k.table.Sound) (hq : k.table.Silent k.readyQueue)
    (hr : k.admitWoken = .ok k') (t : ThreadId) : k'.table.effective t = k.table.effective t := by
  have hs : (k.announcing []).table.Sound := h
  exact admitEach_effective k.registry.channel hs hq hr t

end Kernel

namespace System

def effective (s : System) (t : ThreadId) : Nat := s.kernel.table.effective t

/-- The thread is new, has yielded, or was woken. -/
def Runnable (s : System) (t : ThreadId) : Prop :=
  ∃ slot task, s.kernel.registry.get? t = some slot ∧ slot.task = some task ∧
    (task.coroutine.stage = .fresh ∨ slot.signal.woken = true)

/-- `t` waits for a lock that `u` holds, or for `u` to finish. -/
def WaitsFor (s : System) (t u : ThreadId) : Prop :=
  (∃ l ∈ s.locks, l.holder = some u ∧ s.kernel.table.waitingQueue t = some l.queue) ∨
    ∃ slot, s.kernel.registry.get? u = some slot ∧
      s.kernel.table.waitingQueue t = some slot.joinQueue

variable {s : System} {k : Kernel Activation} {t u : ThreadId}

theorem Orderly.silent_ready (h : s.Orderly none) : s.kernel.table.Silent s.kernel.readyQueue :=
  Table.silent_of_links h.placed.1.layout.ready_kind

/-- After admission all threads that can run wait in the ready queue. -/
theorem Orderly.ready_of_runnable (h : s.Orderly none) (hk : s.kernel.enter.admitWoken = .ok k)
    (hr : s.Runnable t) : k.table.waitingQueue t = some k.readyQueue := by
  obtain ⟨hp, -, hchan, hslots⟩ := Machine.placed_admitted h hk
  obtain ⟨slot, task, hslot, htask, hres⟩ := hr
  have hslot : k.registry.get? t = some slot := by
    rw [Registry.get?, hslots]
    exact hslot
  cases hp.1.standing (by simp) hslot with
  | ready hw _ _ _ => exact hw
  | announced _ hc _ _ =>
    rw [hchan] at hc
    cases hc
  | parked hpark _ =>
    obtain ⟨hsig, task', p, r, htask', -, hstage, -⟩ := hpark
    rw [htask] at htask'
    cases htask'
    rcases hres with hf | hw
    · rw [hstage] at hf
      cases hf
    · rw [hsig] at hw
      cases hw

theorem Orderly.runnable_of_ready (h : s.Orderly none) (hk : s.kernel.enter.admitWoken = .ok k)
    (hw : k.table.waitingQueue t = some k.readyQueue) : s.Runnable t := by
  obtain ⟨hp, -, -, hslots⟩ := Machine.placed_admitted h hk
  obtain ⟨slot, hslot, ⟨task, htask, -, hf | ⟨p, r, -, -, hwoken⟩⟩, -⟩ := hp.resumable_of_ready hw
  all_goals
    have hslot : s.kernel.registry.get? t = some slot := by
      rw [Registry.get?, ← hslots]
      exact hslot
  · exact ⟨slot, task, hslot, htask, .inl hf⟩
  · exact ⟨slot, task, hslot, htask, .inr hwoken⟩

/-! ## Chains of waiting threads -/

theorem WaitsFor.alive (h : s.Orderly none) (hw : s.WaitsFor t u) :
    (s.kernel.registry.get? t).isSome := by
  cases hs : s.kernel.registry.get? t with
  | some slot => rfl
  | none =>
    have hn := (h.placed.1.absent hs).waiting
    rcases hw with ⟨l, -, -, hw⟩ | ⟨slot, -, hw⟩
    all_goals
      rw [hn] at hw
      cases hw

/-- Who waits for a live thread donates to it. -/
theorem WaitsFor.donates (h : s.Orderly none) (hw : s.WaitsFor t u)
    (hu : (s.kernel.registry.get? u).isSome) : s.kernel.table.Donates t u := by
  have hlinks : ∃ q, s.kernel.table.waitingQueue t = some q ∧
      s.kernel.table.links.transfer q = some true ∧ s.kernel.table.links.owner q = some u := by
    rcases hw with ⟨l, hl, hh, hw⟩ | ⟨slot, hslot, hw⟩
    · have huse : Use.ofLock l ∈ s.uses := List.mem_append_left _ (List.mem_map.2 ⟨l, hl, rfl⟩)
      exact ⟨l.queue, hw, h.placed.1.layout.use_kind _ huse, (h.placed.1.holder _ huse u hh).2 hu⟩
    · exact ⟨slot.joinQueue, hw, h.placed.1.layout.join_kind hslot,
        h.placed.1.join_owner (by simp) hslot⟩
  obtain ⟨q, hw, htr, hown⟩ := hlinks
  obtain ⟨qs, hq, htr⟩ := Option.map_eq_some_iff.1 htr
  have hown : qs.owner = some u := by simpa [Table.links, hq] using hown
  exact ⟨q, qs, hw, hq, htr, hown⟩

/-- Along threads that wait for each other values do not drop. -/
theorem WaitsFor.chain_le (h : s.Orderly none) (hc : TransGen s.WaitsFor t u)
    (hu : (s.kernel.registry.get? u).isSome) : s.effective t ≤ s.effective u := by
  induction hc using TransGen.head_induction_on with
  | single hw => exact (hw.donates h hu).effective_le h.placed.1.sound
  | head hw hrest ih =>
    obtain ⟨v, hv, -⟩ := TransGen.head'_iff.1 hrest
    exact ((hw.donates h (hv.alive h)).effective_le h.placed.1.sound).trans ih

end System
namespace Machine

variable {s : System} {m m' : Machine} {k : Kernel Activation} {t u : ThreadId}
  {below : List Frame}

/-! ## The choice -/

theorem Orderly.frames_below {phase : Phase} (h : m.Orderly) (hb : m.stack = .loop phase :: below) :
    ∀ f ∈ below, f.Plain := by
  cases h with
  | idle _ hf =>
    subst hb
    exact (List.forall_mem_cons.1 hf).2
  | running _ _ _ _ => cases hb

/-- What the ready queue of `k` held when it handed out `t`. -/
theorem Chosen.first (h : s.Orderly none) (hc : Chosen s k t m')
    (hp : s.kernel.table.policy = .priority) :
    ∃ qs r, k.table.queue? k.readyQueue = some qs ∧ r ∈ qs.waiters.records ∧ r.thread = t ∧
      ∀ x ∈ qs.waiters.records,
        x.weight < r.weight ∨ x.weight = r.weight ∧ r.arrival ≤ x.arrival := by
  obtain ⟨hpl, hl, -, -⟩ := placed_admitted h hc.admitted
  have hpk : k.table.policy = .priority := hl.table.policy.trans hp
  obtain ⟨k₁, hn, -⟩ := hc.served
  obtain ⟨tb, htb, rfl⟩ := Kernel.nextThread_ok hn
  obtain ⟨qs, hqs, ⟨hnone, -⟩ | ⟨r, hr, hmem, hhead, -⟩⟩ :=
    Table.nextThread_effect hpl.1.sound htb
  · cases hnone
  · have hranked := hpl.1.sound.linked.ranked_priority hpk hqs
    exact ⟨qs, r, hqs, hmem, (Option.some.inj hr).symm, fun x hx =>
      hranked.le_head (hhead hpk) hx⟩

theorem Chosen.effective (h : s.Orderly none) (hc : Chosen s k t m') (u : ThreadId) :
    k.table.effective u = s.effective u ∧ m'.system.effective u = s.effective u := by
  obtain ⟨hpl, -⟩ := placed_admitted h hc.admitted
  have hsound : s.kernel.enter.table.Sound := h.placed.1.sound
  have hk : k.table.effective u = s.effective u :=
    Kernel.admitWoken_effective hsound h.silent_ready hc.admitted u
  obtain ⟨k₁, hn, htable⟩ := hc.served
  obtain ⟨tb, htb, rfl⟩ := Kernel.nextThread_ok hn
  refine ⟨hk, ?_⟩
  rw [System.effective, htable, ← hk]
  exact Table.nextThread_silent hpl.1.sound (Table.silent_of_links hpl.1.layout.ready_kind) htb u

theorem Chosen.runnable (h : s.Orderly none) (hc : Chosen s k t m') : s.Runnable t := by
  obtain ⟨hpl, -⟩ := placed_admitted h hc.admitted
  obtain ⟨k₁, hn, -⟩ := hc.served
  obtain ⟨tb, htb, rfl⟩ := Kernel.nextThread_ok hn
  obtain ⟨qs, hqs, ⟨hnone, -⟩ | ⟨r, hr, hmem, -⟩⟩ := Table.nextThread_effect hpl.1.sound htb
  · cases hnone
  · cases hr
    exact h.runnable_of_ready hc.admitted (hpl.1.sound.linked.waiting_of_mem hqs hmem)

/-- Who can run is worth at most as much as `t`, and arrived later if it is worth as much. -/
theorem Chosen.outranks (h : s.Orderly none) (hc : Chosen s k t m')
    (hp : s.kernel.table.policy = .priority) (hu : s.Runnable u) :
    s.effective u ≤ s.effective t ∧ (u ≠ t → s.effective u = s.effective t →
      ∃ a b, k.table.Ticket k.readyQueue t a ∧ k.table.Ticket k.readyQueue u b ∧ a < b) := by
  obtain ⟨qs, r, hqs, hr, rfl, hfirst⟩ := hc.first h hp
  obtain ⟨hpl, -⟩ := placed_admitted h hc.admitted
  have hl := hpl.1.sound.linked
  obtain ⟨qs', hqs', hmem⟩ := hl.waiting_iff.1 (h.ready_of_runnable hc.admitted hu)
  rw [hqs] at hqs'
  cases hqs'
  obtain ⟨x, hx, rfl⟩ := WaitSet.mem_threads.1 hmem
  have hweight : ∀ y ∈ qs.waiters.records, y.weight = s.effective y.thread := by
    intro y hy
    rw [← (hc.effective h y.thread).1]
    exact hpl.1.sound.settled.weight hqs hy
  have hxr := hfirst x hx
  rw [hweight x hx, hweight r hr] at hxr
  refine ⟨by omega, fun hne heq => ⟨r.arrival, x.arrival, ?_, ?_, ?_⟩⟩
  · exact ⟨qs, hqs, WaitSet.mem_entries.2 ⟨r, hr, rfl, rfl⟩⟩
  · exact ⟨qs, hqs, WaitSet.mem_entries.2 ⟨x, hx, rfl, rfl⟩⟩
  · have harr : x.arrival ≠ r.arrival := fun e => hne (hl.arrival_inj hqs hqs hx hr e)
    omega

/-- At the choice from `k` the thread `t` has been in the ready queue for longer than `u`: it drew a
smaller arrival number, and whenever `u` had its place in the queue, `t` had its own. -/
def AdmittedBefore (first m : Machine) (k : Kernel Activation) (t u : ThreadId) : Prop :=
  ∃ a b, k.table.Ticket k.readyQueue t a ∧ k.table.Ticket k.readyQueue u b ∧ a < b ∧
    ∀ m₀, Steps first m₀ → Steps m₀ m → m₀.system.kernel.table.Ticket k.readyQueue u b →
      m₀.system.kernel.table.Ticket k.readyQueue t a

theorem Chosen.admittedBefore {first : Machine} (hf : first.Orderly) (h : m.system.Orderly none)
    (hc : Chosen m.system k t m') {a b : Nat} (ht : k.table.Ticket k.readyQueue t a)
    (hu : k.table.Ticket k.readyQueue u b) (hab : a < b) : AdmittedBefore first m k t u := by
  refine ⟨a, b, ht, hu, hab, fun m₀ h₀ hm hu₀ => ?_⟩
  have ho₀ := (hf.steps h₀).1
  obtain ⟨run, hs₀⟩ := ho₀.system
  have hlater : Later m₀.system.kernel k :=
    (ho₀.steps hm).2.trans (placed_admitted h hc.admitted).2.1
  -- `u` was there, so its number had been given out, and the smaller one of `t` as well
  obtain ⟨qs, hqs, hmem⟩ := hu₀
  obtain ⟨x, hx, -, rfl⟩ := WaitSet.mem_entries.1 hmem
  have hlt := hs₀.placed.1.sound.linked.arrival_lt hqs hx
  rcases hlater.table.ticket ht with ht₀ | hge
  · exact ht₀
  · omega

/-- From `m` to `m'` the thread `d` is dispatched before all that it should precede. -/
structure HighestFirst (first m m' : Machine) (d : ThreadId) : Prop where
  effective : ∀ t, m'.system.effective t = m.system.effective t
  runnable : m.system.Runnable d
  highest : ∀ t, m.system.Runnable t → m.system.effective t ≤ m.system.effective d
  earliest : ∃ k, m.system.kernel.enter.admitWoken = .ok k ∧
    ∀ t, m.system.Runnable t → t ≠ d → m.system.effective t = m.system.effective d →
      AdmittedBefore first m k d t
  /-- No thread waits for one that can run and is worth more than `d`. -/
  inherited : ∀ t u, TransGen m.system.WaitsFor t u → m.system.Runnable u →
    m.system.effective t ≤ m.system.effective d

theorem Chosen.highestFirst {first : Machine} (hf : first.Orderly) (h : m.system.Orderly none)
    (hc : Chosen m.system k t m') (hp : m.system.kernel.table.policy = .priority) :
    HighestFirst first m m' t where
  effective u := (hc.effective h u).2
  runnable := hc.runnable h
  highest u hu := (hc.outranks h hp hu).1
  earliest := by
    refine ⟨k, hc.admitted, fun u hu hne heq => ?_⟩
    obtain ⟨a, b, hta, hub, hab⟩ := (hc.outranks h hp hu).2 hne heq
    exact hc.admittedBefore hf h hta hub hab
  inherited u v hchain hv := by
    have halive : (m.system.kernel.registry.get? v).isSome := by
      obtain ⟨slot, task, hslot, -⟩ := hv
      rw [hslot]
      rfl
    exact (System.WaitsFor.chain_le h hchain halive).trans (hc.outranks h hp hv).1

theorem dispatch_highest {gen : Generator} {settings : Settings} {k : Kernel Activation}
    {programs : List Program} {main : List Action} {d : Kernel.Dispatched Activation}
    {rest : List Frame}
    (hk : Kernel.start gen settings = .ok k) (hpol : settings.policy = .priority)
    (hp : ∀ p ∈ programs, Instr.plainList p.code = true) (hm : Action.plainList main = true)
    (hr : Steps (start k programs main) m) (hb : m.phase? = some .choose)
    (hs : m.step = .next m') (hd : m'.stack = .thread d :: rest) :
    HighestFirst (start k programs main) m m' d.thread := by
  have hfirst := start_orderly hk hp hm
  obtain ⟨ho, hlater⟩ := hfirst.steps hr
  have hsys := ho.boundary hb
  have hpolicy : m.system.kernel.table.policy = .priority := by
    obtain ⟨clock, rfl⟩ := start_ok hk
    exact hlater.table.policy.trans hpol
  obtain ⟨below, hstack⟩ := phase?_eq_some hb
  have hplain := ho.frames_below hstack
  have hstep : stepChoose below m.system = .next m' := by
    rw [← hs, step, hstack]
  rcases stepChoose_cases hsys hplain hstep with hi | ⟨-, k', t, hc⟩
  · -- a loop that goes on without a thread leaves none on the stack
    have hf := hi.frames
    rw [hd] at hf
    cases (List.forall_mem_cons.1 hf).1
  · obtain ⟨d', rest', hd', rfl⟩ := hc.thread
    rw [hd] at hd'
    cases hd'
    exact hc.highestFirst hfirst hsys hpolicy

/-- The thread that the next step puts on the processor. -/
def dispatches? (m : Machine) : Option ThreadId :=
  match m.step with
  | .next ⟨_, .thread d :: _⟩ => some d.thread
  | _ => none

theorem dispatches?_eq_some {m : Machine} (h : m.dispatches? = some t) :
    ∃ m' d rest, m.step = .next m' ∧ m'.stack = .thread d :: rest ∧ d.thread = t := by
  unfold dispatches? at h
  split at h
  · rename_i s d rest hstep
    exact ⟨_, d, rest, hstep, rfl, Option.some.inj h⟩
  · cases h

/-- The holder of the lock is dispatched at the value of the thread that waits for it. -/
theorem dispatch_highest_lending : ∃ k m m' d rest,
    Kernel.start .counting lendingSettings = .ok k ∧ lendingSettings.policy = .priority ∧
    (∀ p ∈ lendingPrograms, Instr.plainList p.code = true) ∧ Action.plainList lendingMain = true ∧
    Steps (start k lendingPrograms lendingMain) m ∧ m.phase? = some .choose ∧
    m.step = .next m' ∧ m'.stack = .thread d :: rest ∧ d.thread = ⟨1⟩ ∧
    (m.system.effective ⟨1⟩, m.system.effective ⟨2⟩, m.system.effective ⟨3⟩) = (5, 5, 1) ∧
    HighestFirst (start k lendingPrograms lendingMain) m m' d.thread := by
  have hrun : (Kernel.start .counting lendingSettings).toOption.any (fun k =>
      let m := (run 17 (start k lendingPrograms lendingMain)).1
      m.phase? = some .choose ∧ m.dispatches? = some ⟨1⟩ ∧
        (m.system.effective ⟨1⟩, m.system.effective ⟨2⟩, m.system.effective ⟨3⟩) = (5, 5, 1)) =
          true := by
    decide +kernel
  have hp : ∀ p ∈ lendingPrograms, Instr.plainList p.code = true := by decide
  have hm : Action.plainList lendingMain = true := by decide
  obtain ⟨k, hk, hrun⟩ := exists_start hrun
  obtain ⟨hb, hd, he⟩ := of_decide_eq_true hrun
  have hr := steps_run 17 (start k lendingPrograms lendingMain)
  obtain ⟨m', d, rest, hs, hstack, hthread⟩ := dispatches?_eq_some hd
  have hfirst := dispatch_highest hk rfl hp hm hr hb hs hstack
  exact ⟨k, _, m', d, rest, hk, rfl, hp, hm, hr, hb, hs, hstack, hthread, he, hfirst⟩

end Machine
end ThreadKernel
