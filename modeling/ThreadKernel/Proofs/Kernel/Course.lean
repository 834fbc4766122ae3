import ThreadKernel.Proofs.Kernel.Serve

/-!
# ThreadKernel.Proofs.Kernel.Course

What calls of the kernel do to the scheduling table. Behind each call there is a run of table
operations, so that what every operation of a kind keeps, every call that makes no others keeps.

* `Table.Course`      — a run of operations that all are of one kind.
* `Course.preserves`  — by induction, what each of them keeps.
* `spawn_course`, `chooseThread_course`, `retire_course`, … — the operations behind the calls.
* `apply_transfer`    — a queue that is not destroyed keeps its kind.
* `Op.Bypasses`       — the operations that leave a queue to its owner.
-/

namespace ThreadKernel

namespace Table

variable {P P' : Op → Prop} {op : Op} {tb tb' tb'' : Table} {q : QueueId}

/-- Operations of which `P` holds lead from one table to the other. -/
inductive Course (P : Op → Prop) (tb : Table) : Table → Prop where
  | refl : Course P tb tb
  | step {tb' tb'' : Table} {op : Op} (before : Course P tb tb') (kind : P op)
      (apply : tb'.apply op = .ok tb'') : Course P tb tb''

theorem Course.single (op : Op) (hp : P op) (ha : tb.apply op = .ok tb') : Course P tb tb' :=
  .step .refl hp ha

theorem Course.mono (h : Course P tb tb') (hp : ∀ op, P op → P' op) : Course P' tb tb' := by
  induction h with
  | refl => exact .refl
  | step _ kind apply ih => exact .step ih (hp _ kind) apply

theorem Course.trans (h : Course P tb tb') (h' : Course P tb' tb'') : Course P tb tb'' := by
  induction h' with
  | refl => exact h
  | step _ kind apply ih => exact .step ih kind apply

theorem Course.of_eq (h : tb' = tb) : Course P tb tb' := h ▸ .refl

/-- What every operation of the kind keeps. -/
theorem Course.preserves {I : Table → Prop} (h : Course P tb tb') (hs : tb.Sound) (hi : I tb)
    (hstep : ∀ {tb op tb'}, tb.Sound → I tb → P op → tb.apply op = .ok tb' → I tb') :
    tb'.Sound ∧ I tb' := by
  induction h with
  | refl => exact ⟨hs, hi⟩
  | step _ kind apply ih =>
    obtain ⟨_, he⟩ := apply_effect ih.1 apply
    exact ⟨he.sound, hstep ih.1 ih.2 kind apply⟩

theorem Course.sound (h : Course P tb tb') (hs : tb.Sound) : tb'.Sound :=
  (h.preserves (I := fun _ => True) hs trivial fun _ _ _ _ => trivial).1

theorem apply_nextThread {served : Option ThreadId} (h : tb.nextThread q = .ok (served, tb')) :
    tb.apply (.nextThread q) = .ok tb' := by
  rw [apply, h]
  rfl

/-- The thread served owns the queue then, and waited there. -/
theorem nextThread_owner {served : Option ThreadId} (h : tb.Sound)
    (hn : tb.nextThread q = .ok (served, tb')) :
    tb'.Sound ∧ tb'.links.owner q = served ∧ tb'.links.transfer = tb.links.transfer ∧
      ∀ u, served = some u → tb.waitingQueue u = some q := by
  obtain ⟨qs, hqs, ⟨rfl, -, he⟩ | ⟨r, rfl, hr, -, he⟩⟩ := nextThread_effect h hn
  · refine ⟨he.sound, ?_, by rw [he.links], fun u hu => nomatch hu⟩
    rw [he.links]
    exact Function.update_self _ _ _
  · refine ⟨he.sound, ?_, by rw [he.links], fun u hu => ?_⟩
    · rw [he.links]
      exact Function.update_self _ _ _
    · cases hu
      exact h.linked.waiting_of_mem hqs hr

/-! ## Queues that are left alone -/

/-- A queue that exists is not the next one to be created. -/
theorem createQueue_ne (transfer : Bool) (hq : tb.links.transfer q ≠ none) :
    q ≠ (tb.createQueue transfer).1 := by
  rintro rfl
  exact hq (congrArg (Option.map QueueState.transfer) (queue?_createQueue_fst transfer tb))

/-- A queue keeps its kind until it is destroyed. -/
theorem apply_transfer {b : Bool} (op : Op) (h : tb.Sound) (hq : tb.links.transfer q = some b)
    (hop : op ≠ .destroyQueue q) (ha : tb.apply op = .ok tb') :
    tb'.links.transfer q = some b := by
  rw [← hq]
  cases op with
  | createQueue transfer =>
    cases ha
    rw [(createQueue_effect h transfer).links]
    exact Function.update_of_ne (createQueue_ne transfer (by rw [hq]; simp)) _ _
  | destroyQueue r =>
    rw [(destroyQueue_effect h ha).links]
    exact Function.update_of_ne (fun e => hop (congrArg Op.destroyQueue e.symm)) _ _
  | waitForAccess r u => rw [(waitForAccess_effect h ha).2.2.links]
  | acquire r u => rw [(acquire_effect h ha).2.2.links]
  | nextThread r =>
    obtain ⟨served, hn⟩ := apply_nextThread_ok ha
    rw [(nextThread_owner h hn).2.2.1]
  | releaseOwnership r => rw [(releaseOwnership_effect h ha).2.links]
  | setPriority u p => rw [(setPriority_effect h ha).2.links]
  | removeThread u => rw [(removeThread_effect h ha).links]

theorem Course.transfer {b : Bool} (h : Course P tb tb') (hs : tb.Sound)
    (hp : ¬ P (.destroyQueue q)) (hq : tb.links.transfer q = some b) :
    tb'.links.transfer q = some b :=
  (h.preserves (I := fun tb => tb.links.transfer q = some b) hs hq
    fun hs hi hop happly => apply_transfer _ hs hi (fun e => hp (e ▸ hop)) happly).2

/-- The operation neither takes `q` from its owner nor gives it to anybody, nor is any thread
forgotten, who may own it. -/
def Op.Bypasses (q : QueueId) : Op → Prop
  | .createQueue _ | .setPriority _ _ => True
  | .destroyQueue r | .waitForAccess r _ | .acquire r _ | .nextThread r | .releaseOwnership r =>
    r ≠ q
  | .removeThread _ => False

theorem apply_bypasses (h : tb.Sound) (hq : tb.links.transfer q ≠ none) (hop : op.Bypasses q)
    (ha : tb.apply op = .ok tb') :
    tb'.links.owner q = tb.links.owner q ∧ tb'.links.transfer q = tb.links.transfer q := by
  obtain ⟨b, hb⟩ := Option.ne_none_iff_exists'.1 hq
  have hspared : op ≠ .destroyQueue q := by
    rintro rfl
    exact hop rfl
  refine ⟨?_, (apply_transfer op h hb hspared ha).trans hb.symm⟩
  cases op with
  | createQueue transfer =>
    cases ha
    rw [(createQueue_effect h transfer).links]
  | destroyQueue r =>
    rw [(destroyQueue_effect h ha).links]
    exact Function.update_of_ne (Ne.symm hop) _ _
  | waitForAccess r u =>
    obtain ⟨-, -, he⟩ := waitForAccess_effect h ha
    rw [he.links]
    show (if tb.links.owner r = some u then Function.update tb.links.owner r none
      else tb.links.owner) q = _
    split
    · exact Function.update_of_ne (Ne.symm hop) _ _
    · rfl
  | acquire r u =>
    rw [(acquire_effect h ha).2.2.links]
    exact Function.update_of_ne (Ne.symm hop) _ _
  | nextThread r =>
    obtain ⟨served, hn⟩ := apply_nextThread_ok ha
    obtain ⟨qs, -, ⟨-, -, he⟩ | ⟨x, -, -, -, he⟩⟩ := nextThread_effect h hn <;>
      rw [he.links] <;>
      exact Function.update_of_ne (Ne.symm hop) _ _
  | releaseOwnership r =>
    rw [(releaseOwnership_effect h ha).2.links]
    exact Function.update_of_ne (Ne.symm hop) _ _
  | setPriority u p => rw [(setPriority_effect h ha).2.links]
  | removeThread u => exact hop.elim

end Table

namespace Kernel

open Table (Course Op)

variable {P : Op → Prop} {k k' : Kernel Activation} {q : QueueId} {t : ThreadId}
  {served : Option ThreadId}

/-! ## Calls on a queue -/

theorem apply_course (op : Op) (hp : P op) (h : k.withTable (k.table.apply op) = .ok k') :
    Course P k.table k'.table := by
  obtain ⟨tb, htb, rfl⟩ := withTable_ok h
  exact .single op hp htb

theorem nextThread_course (hp : P (.nextThread q)) (h : k.nextThread q = .ok (served, k')) :
    Course P k.table k'.table := by
  obtain ⟨tb, htb, rfl⟩ := nextThread_ok h
  exact .single _ hp (Table.apply_nextThread htb)

theorem markReady_table (h : k.markReady t = .ok k') : k'.table = k.table := by
  obtain ⟨-, slot, -, rfl⟩ := markReady_ok h
  rfl

theorem handOverAll_course (hp : P (.nextThread q)) (h : k.handOverAll q = .ok k') :
    Course P k.table k'.table := by
  replace h := handOverAll_goesRound h
  induction h with
  | stops => exact .refl
  | nobody next => exact nextThread_course hp next
  | turn next ready _ ih =>
    exact (nextThread_course hp next).trans ((Course.of_eq (markReady_table ready)).trans ih)

@[simp] theorem restore_table (k : Kernel Activation) (level : Level) :
    (k.restore level).table = k.table := rfl

theorem Passes.table (h : Passes q k served k') :
    k.table.nextThread q = .ok (served, k'.table) := by
  cases h with
  | nobody next =>
    obtain ⟨tb, htb, rfl⟩ := nextThread_ok next
    exact htb
  | waiter next ready =>
    obtain ⟨tb, htb, rfl⟩ := nextThread_ok next
    refine Eq.trans htb ?_
    rw [restore_table, markReady_table ready]

theorem releaseReady_course (hp : P (.releaseOwnership k.readyQueue))
    (h : k.releaseReady t = .ok k') : Course P k.table k'.table := by
  rcases releaseReady_cases h with ⟨-, h⟩ | rfl
  · exact apply_course (.releaseOwnership k.readyQueue) hp h
  · exact .refl

/-! ## Threads that come and go -/

/-- A new thread gets a queue that did not exist, and waits to be ready. -/
theorem spawn_course {name : String} {a : Activation} (hcreate : P (.createQueue true))
    (hacquire : ∀ q, k.table.queue? q = none → P (.acquire q ⟨k.registry.nextNumber⟩))
    (hready : P (.waitForAccess k.readyQueue ⟨k.registry.nextNumber⟩))
    (h : k.spawn name a = .ok (t, k')) : Course P k.table k'.table := by
  obtain ⟨tb₁, tb, rfl, -, hacq, hwait, rfl⟩ := spawn_cases h
  have hfresh := Table.queue?_createQueue_fst true k.table
  have hcreated : Course P k.table (k.table.createQueue true).2 := .single _ hcreate rfl
  exact (hcreated.step (hacquire _ hfresh) hacq).step hready hwait

/-- The operations of a retirement before the thread is forgotten. -/
inductive TearsDown (j ready : QueueId) : Op → Prop where
  | joiner : TearsDown j ready (.nextThread j)
  | queue : TearsDown j ready (.destroyQueue j)
  | ready : TearsDown j ready (.releaseOwnership ready)

theorem retire_course (h : k.retire t = .ok k') :
    ∃ slot tb, k.registry.get? t = some slot ∧
      Course (TearsDown slot.joinQueue k.readyQueue) k.table tb ∧
        tb.removeThread t = .ok k'.table := by
  obtain ⟨slot, k₁, k₂, k₃, k₄, hslot, h₁, h₂, h₃, h₄, rfl⟩ := retire_ok h
  have hready : k₂.readyQueue = k.readyQueue :=
    (apply_steady (.destroyQueue slot.joinQueue) h₂).ready.trans (handOverAll_steady h₁).ready
  obtain ⟨tb, htb, rfl⟩ := withTable_ok h₄
  have hjoiners : Course (TearsDown slot.joinQueue k.readyQueue) k.enter.table k₁.table :=
    handOverAll_course .joiner h₁
  have hqueue := hjoiners.trans (apply_course (.destroyQueue slot.joinQueue) .queue h₂)
  exact ⟨slot, k₃.table, hslot,
    hqueue.trans (releaseReady_course (hready.symm ▸ .ready) h₃), htb⟩

/-! ## The choice -/

theorem admitEach_course (l : List ThreadId) {k : Kernel Activation}
    (hp : ∀ t, (k.registry.get? t).isSome → P (.waitForAccess k.readyQueue t))
    (h : admitEach l k = .ok k') : Course P k.table k'.table := by
  replace h := admitEach_ok h
  induction h with
  | nobody => exact .refl
  | gone _ _ ih | waits _ _ ih => exact ih hp
  | @comes t _ k _ _ alive wait _ ih =>
    have hfirst := apply_course (.waitForAccess k.readyQueue t) (hp t alive) wait
    obtain ⟨tb, -, rfl⟩ := withTable_ok wait
    exact hfirst.trans (ih hp)

theorem chooseThread_course
    (hcome : ∀ t, (k.registry.get? t).isSome → P (.waitForAccess k.readyQueue t))
    (hnext : P (.nextThread k.readyQueue)) (h : k.chooseThread = .ok (served, k')) :
    Course P k.table k'.table := by
  obtain ⟨k₁, k₂, hadm, hn, rfl⟩ := chooseThread_cases h
  have hready := (admitWoken_steady hadm).ready
  unfold admitWoken Registry.drain at hadm
  have hnext : P (.nextThread k₁.readyQueue) := by rwa [hready]
  set k₀ : Kernel Activation :=
    { k.enter with registry := { k.enter.registry with channel := [] } }
  have hadmitted : Course P k₀.table k₁.table := admitEach_course _ hcome hadm
  have hchosen : Course P k₁.table k₂.table := nextThread_course hnext hn
  exact hadmitted.trans hchosen

end Kernel
end ThreadKernel
