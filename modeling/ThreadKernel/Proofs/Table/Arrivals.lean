import ThreadKernel.Proofs.Table.Known

/-!
# ThreadKernel.Proofs.Table.Arrivals

When the waiters came. Every call to wait takes the next arrival number, and no other operation
takes one or gives one away, so the arrival number of a record tells which call made it, whatever
happened to the record since.

* `Op.waits`          — the operation is a call to wait.
* `apply_arrivals`    — such a call takes one number, all other operations take none.
* `apply_ticket`      — a record is the one that the call made, or was there before.
* `Table.WaitsSince`  — the last call of a waiter in a history.
* `ofOps_ticket`      — a record's number is the number of the calls before its own.
-/

namespace ThreadKernel.Table

variable {tb tb₁ tb' : Table} {t u : ThreadId} {q r : QueueId} {op : Op}

def Op.waits : Op → Bool
  | .waitForAccess _ _ => true
  | .createQueue _ | .destroyQueue _ | .acquire _ _ | .nextThread _ | .releaseOwnership _
  | .setPriority _ _ | .removeThread _ => false

/-! ## Arrival numbers -/

theorem releaseOwnership_arrivals (hr : tb.releaseOwnership q = .ok tb') :
    tb'.arrivals = tb.arrivals := by
  obtain ⟨qs, -, ⟨-, rfl⟩ | ⟨o, -, hw⟩⟩ := releaseOwnership_cases hr
  · rfl
  · rw [(refreshOption_sameLinks hw).arrivals, arrivals_disown]

theorem destroyQueue_arrivals (hr : tb.destroyQueue q = .ok tb') :
    tb'.arrivals = tb.arrivals := by
  obtain ⟨-, rfl⟩ | ⟨qs, -, hw⟩ := destroyQueue_cases hr
  · rfl
  · rw [(refreshOption_sameLinks hw).arrivals, arrivals_dissolve]

theorem acquire_arrivals (hr : tb.acquire q t = .ok tb') : tb'.arrivals = tb.arrivals := by
  obtain ⟨-, tb₁, hr₁, hw⟩ := acquire_cases hr
  have hseize : (seize q t (tb.waitingQueue t) tb₁).arrivals = tb₁.arrivals := rfl
  rw [(refreshOption_sameLinks hw).arrivals, hseize, releaseOwnership_arrivals hr₁]

theorem nextThread_arrivals {served : Option ThreadId} (hr : tb.nextThread q = .ok (served, tb')) :
    tb'.arrivals = tb.arrivals := by
  obtain ⟨qs, g, -, -, ⟨-, -, hr⟩ | ⟨x, -, -, -, hr⟩⟩ := nextThread_cases hr
  · rw [releaseOwnership_arrivals hr]
  · rw [acquire_arrivals hr]

theorem setPriority_arrivals {p : Nat} (hr : tb.setPriority t p = .ok tb') :
    tb'.arrivals = tb.arrivals :=
  (refreshOption_sameLinks (setPriority_cases hr).2).arrivals

theorem removeThread_arrivals (hr : tb.removeThread t = .ok tb') :
    tb'.arrivals = tb.arrivals := by
  obtain ⟨-, rfl⟩ | ⟨s, tb₁, -, hw, rfl⟩ := removeThread_cases hr
  · rfl
  · rw [(revoke_rest _ _).2.1, (refreshOption_sameLinks hw).arrivals, arrivals_forget]

theorem giveUp_arrivals {qs : QueueState}
    (hr : (if qs.owner = some t then tb.releaseOwnership q else .ok tb) = .ok tb₁) :
    tb₁.arrivals = tb.arrivals := by
  split at hr
  · exact releaseOwnership_arrivals hr
  · cases hr
    rfl

/-- A call to wait takes one arrival number, and no other operation takes any. -/
theorem apply_arrivals (ha : tb.apply op = .ok tb') :
    tb'.arrivals = tb.arrivals + if op.waits then 1 else 0 := by
  cases op with
  | createQueue transfer =>
    cases ha
    rfl
  | destroyQueue q => exact destroyQueue_arrivals ha
  | waitForAccess q t =>
    obtain ⟨qs, tb₁, qs₁, -, -, hr₁, -, hw⟩ := waitForAccess_cases ha
    rw [(refreshOption_sameLinks hw).arrivals]
    exact congrArg (· + 1) (giveUp_arrivals hr₁)
  | acquire q t => exact acquire_arrivals ha
  | nextThread q =>
    obtain ⟨served, hn⟩ := apply_nextThread_ok ha
    exact nextThread_arrivals hn
  | releaseOwnership q => exact releaseOwnership_arrivals ha
  | setPriority t p => exact setPriority_arrivals ha
  | removeThread t => exact removeThread_arrivals ha

/-! ## Records -/

/-- After a call to wait a record is the caller's new one, or was there before. -/
theorem waitForAccess_ticket {a : Nat} (h : Sound tb) (hr : tb.waitForAccess q t = .ok tb')
    (ht : tb'.Ticket r u a) : tb.Ticket r u a ∨ r = q ∧ u = t ∧ a = tb.arrivals := by
  obtain ⟨qs, tb₁, qs₁, -, hq, hr₁, hq₁, hw⟩ := waitForAccess_cases hr
  have hpre := (giveUp_effect h hq hr₁).precedes
  have harr := giveUp_arrivals hr₁
  obtain ⟨rs', hr', hm'⟩ := ht
  obtain ⟨rs, hrs, hs⟩ := (refreshOption_sameLinks hw).queue_rev hr'
  obtain ⟨x, hx, hxt, hxa⟩ := WaitSet.mem_entries.1 (hs.entries.mem_iff.1 hm')
  rcases record_enqueue hq₁ hrs hx with ⟨hrq, rfl⟩ | ⟨rs₀, hrs₀, hx₀⟩
  · exact .inr ⟨hrq, hxt.symm, hxa.symm.trans harr⟩
  · have hold : tb₁.Ticket r u a := ⟨rs₀, hrs₀, WaitSet.mem_entries.2 ⟨x, hx₀, hxt, hxa⟩⟩
    refine .inl ((hpre.ticket hold).resolve_right fun hle => ?_)
    have hlt := (giveUp_effect h hq hr₁).sound.linked.arrival_lt hrs₀ hx₀
    omega

theorem Linked.waiting_of_ticket {a : Nat} (h : Linked tb) (ht : tb.Ticket q t a) :
    tb.waitingQueue t = some q := by
  obtain ⟨qs, hq, hm⟩ := ht
  obtain ⟨x, hx, rfl, -⟩ := WaitSet.mem_entries.1 hm
  exact h.waiting_of_mem hq hx

/-- A record is the one that the operation made, or was there before an operation that was no call
of its thread to wait. -/
theorem apply_ticket {a : Nat} (h : Sound tb) (ha : tb.apply op = .ok tb') (ht : tb'.Ticket q t a) :
    tb.Ticket q t a ∧ (∀ r, op ≠ .waitForAccess r t) ∨
      op = .waitForAccess q t ∧ a = tb.arrivals := by
  have hfree : ∀ r, tb.Ticket q t a → op ≠ .waitForAccess r t := by
    rintro r hold rfl
    have hwaits := h.linked.waiting_of_ticket hold
    have hnone : tb.waitingQueue t = none := (waitForAccess_effect h ha).1
    exact nomatch hwaits.symm.trans hnone
  by_cases hop : op.waits = true
  · cases op with
    | waitForAccess r u =>
      rcases waitForAccess_ticket h ha ht with hold | ⟨rfl, rfl, rfl⟩
      · exact .inl ⟨hold, fun r => hfree r hold⟩
      · exact .inr ⟨rfl, rfl⟩
    | createQueue | destroyQueue | acquire | nextThread | releaseOwnership | setPriority
    | removeThread => cases hop
  · obtain ⟨after, he⟩ := apply_effect h ha
    have harr := apply_arrivals ha
    rw [if_neg hop, Nat.add_zero] at harr
    have hold : tb.Ticket q t a := by
      refine (he.precedes.ticket ht).resolve_right fun hle => ?_
      obtain ⟨qs, hq, hm⟩ := ht
      obtain ⟨x, hx, -, rfl⟩ := WaitSet.mem_entries.1 hm
      have hlt := he.sound.linked.arrival_lt hq hx
      omega
    exact .inl ⟨hold, fun r => hfree r hold⟩

/-! ## Histories -/

/-- At place `n` of the history `t` called to wait on `q`, and it has not called again since. -/
structure WaitsSince (ops : List Op) (q : QueueId) (t : ThreadId) (n : Nat) : Prop where
  called : ops[n]? = some (.waitForAccess q t)
  last : ∀ m r, n < m → ops[m]? ≠ some (.waitForAccess r t)

/-- The number of calls to wait before place `n`. -/
def callsBefore (ops : List Op) (n : Nat) : Nat := (ops.take n).countP Op.waits

theorem callsBefore_mono (ops : List Op) {n m : Nat} (h : n ≤ m) :
    callsBefore ops n ≤ callsBefore ops m :=
  (List.take_sublist_take_left h).countP_le

theorem WaitsSince.lt_length {ops : List Op} {n : Nat} (h : WaitsSince ops q t n) :
    n < ops.length := (List.getElem?_eq_some_iff.1 h.called).1

/-- The call stays the last one after an operation that is no such call. -/
theorem WaitsSince.concat {ops : List Op} {n : Nat} (h : WaitsSince ops q t n)
    (hop : ∀ r, op ≠ .waitForAccess r t) : WaitsSince (ops ++ [op]) q t n where
  called := by rw [List.getElem?_append_left h.lt_length, h.called]
  last m r hm := by
    rcases Nat.lt_trichotomy m ops.length with hlt | rfl | hgt
    · rw [List.getElem?_append_left hlt]
      exact h.last m r hm
    · rw [List.getElem?_concat_length]
      exact fun e => hop r (Option.some.inj e)
    · rw [List.getElem?_eq_none (by simpa using hgt)]
      exact fun e => nomatch e

theorem waitsSince_concat (ops : List Op) (q : QueueId) (t : ThreadId) :
    WaitsSince (ops ++ [.waitForAccess q t]) q t ops.length where
  called := List.getElem?_concat_length
  last m r hm := by
    rw [List.getElem?_eq_none (by simpa using hm)]
    exact fun e => nomatch e

theorem ofOps_concat (p : Policy) (g : Random) (ops : List Op) (op : Op) :
    ofOps p g (ops ++ [op]) = (ofOps p g ops).bind fun tb => tb.apply op := by
  rw [ofOps, List.foldlM_append, ofOps]
  refine congrArg (Except.bind _) (funext fun tb => ?_)
  rw [List.foldlM_cons]
  exact bind_pure (tb.apply op)

/-- The arrival number of a record is the number of the calls to wait that came before the call that
made it, and that call is the last one of its thread. -/
theorem ofOps_ticket {p : Policy} {g : Random} (ops : List Op) : ∀ {tb : Table},
    ofOps p g ops = .ok tb → tb.arrivals = ops.countP Op.waits ∧
      ∀ q t a, tb.Ticket q t a → ∃ n, WaitsSince ops q t n ∧ a = callsBefore ops n := by
  -- the induction adds the operations at the end, where they act on the table of the others
  induction ops using List.reverseRecOn with
  | nil =>
    intro tb h
    cases h
    refine ⟨rfl, fun q t a ht => ?_⟩
    obtain ⟨qs, hq, -⟩ := ht
    exact nomatch (Arena.get?_empty q.number).symm.trans hq
  | append_singleton ops op ih =>
    intro tb' h
    rw [ofOps_concat] at h
    cases htb : ofOps p g ops with
    | error e =>
      rw [htb] at h
      cases h
    | ok tb =>
      rw [htb] at h
      have ha : tb.apply op = .ok tb' := h
      obtain ⟨harr, htickets⟩ := ih htb
      have hs := (reachable_ofOps htb).sound.2
      refine ⟨?_, fun q t a ht => ?_⟩
      · rw [apply_arrivals ha, harr, List.countP_append, List.countP_singleton]
      · rcases apply_ticket hs ha ht with ⟨hold, hop⟩ | ⟨rfl, rfl⟩
        · obtain ⟨n, hn, rfl⟩ := htickets q t a hold
          refine ⟨n, hn.concat hop, ?_⟩
          rw [callsBefore, callsBefore, List.take_append_of_le_length hn.lt_length.le]
        · refine ⟨ops.length, waitsSince_concat ops q t, ?_⟩
          rw [callsBefore, List.take_left, harr]

/-- Every table that operations lead to has a history. -/
theorem Reachable.exists_ofOps {p : Policy} (h : Reachable p tb) :
    ∃ g ops, ofOps p g ops = .ok tb := by
  induction h with
  | empty g => exact ⟨g, [], rfl⟩
  | step op _ ha ih =>
    obtain ⟨g, ops, hops⟩ := ih
    exact ⟨g, ops ++ [op], by rw [ofOps_concat, hops]; exact ha⟩

end ThreadKernel.Table
