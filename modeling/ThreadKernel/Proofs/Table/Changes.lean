import ThreadKernel.Proofs.Table.Walk

/-!
# ThreadKernel.Proofs.Table.Changes

How a change of one value passes on along the owners.

A thread is worth no less than its donors, so a thread in a cycle is held up by itself and its value
does not fall. A walk that takes donations away therefore ends, whoever waits for whom. Under strict
priorities a walk that brings more ends too: fewer and fewer threads are below the value that spreads.

* `Table.GivesLess`          — no queue gives its owner more than before.
* `Table.Falling`            — the walk begins with a value that does not rise.
* `refresh_ends_of_falling`  — such a walk ends.
* `refresh_ends_of_priority` — under strict priorities every walk ends.
-/

namespace ThreadKernel.Table

open Relation

variable {t o : ThreadId} {tb tb' : Table}

/-! ## Values that fall -/

/-- There is no new queue, and none gives its owner more than before. -/
def GivesLess (tb tb' : Table) : Prop :=
  ∀ q qs', tb'.queue? q = some qs' → ∃ qs, tb.queue? q = some qs ∧
    qs'.transfer = qs.transfer ∧ tb.policy.donation qs'.waiters ≤ tb.policy.donation qs.waiters

/-- Fewer queues that give less amount to less. -/
theorem GivesLess.combineDonations_le {l' l : List QueueId} (h : GivesLess tb tb')
    (hp : tb'.policy = tb.policy) (hb : ∀ q qs, tb.queue? q = some qs →
      tb.policy.donation qs.waiters ≤ tb.policy.bounds.greatest) (hl : l'.Sublist l) :
    ∀ {v' v w' w : Nat}, v' ≤ v → v ≤ tb.policy.bounds.greatest →
      tb'.combineDonations v' l' = .ok w' → tb.combineDonations v l = .ok w → w' ≤ w := by
  induction hl with
  | slnil =>
    intro v' v w' w hle _ hw' hw
    cases hw'
    cases hw
    exact hle
  | cons q _ ih =>
    intro v' v w' w hle hv hw' hw
    rw [combineDonations] at hw
    split at hw
    · cases hw
    · rename_i qs hq
      refine ih ?_ ?_ hw' hw
      · split
        · exact hle.trans (Policy.le_combine hv _)
        · exact hle
      · split
        · exact Policy.combine_le hv (hb q qs hq)
        · exact hv
  | cons_cons q _ ih =>
    intro v' v w' w hle hv hw' hw
    rw [combineDonations] at hw hw'
    split at hw'
    · cases hw'
    · rename_i qs' hq'
      obtain ⟨qs, hq, htr, hd⟩ := h q qs' hq'
      simp only [hq] at hw
      rw [htr, hp] at hw'
      refine ih ?_ ?_ hw' hw
      · split
        · exact tb.policy.combine_mono hle hd
        · exact hle
      · split
        · exact Policy.combine_le hv (hb q qs hq)
        · exact hv

theorem GivesLess.donatedValue_le {x : Option ThreadId} {v v' : Nat} (h : GivesLess tb tb')
    (hs : SettledBut x tb) (hp : tb'.policy = tb.policy) (hbase : tb'.priority t = tb.priority t)
    (hacq : (tb'.state t).acquired.Sublist (tb.state t).acquired)
    (hv' : tb'.donatedValue t = .ok v') (hv : tb.donatedValue t = .ok v) : v' ≤ v := by
  rw [donatedValue_eq] at hv hv'
  exact h.combineDonations_le hp (fun _ _ hq => hs.donation_le hq) hacq hbase.le (hs.base_le t)
    hv' hv

/-- A lighter record leaves its queue less to give. -/
theorem reweigh_givesLess {x : Option ThreadId} {value : Nat} {q : QueueId} {qs : QueueState}
    {waiters : WaitSet} (hl : Linked tb) (hs : SettledBut x tb) (hq : tb.queue? q = some qs)
    (hr : rerank tb.policy t value qs.waiters = some waiters) (hv : value ≤ tb.effective t) :
    GivesLess tb (reweigh t value q waiters tb) := by
  intro r rs' hr'
  rw [queue?_reweigh] at hr'
  split at hr'
  · rename_i hqr
    subst hqr
    rw [hq] at hr'
    cases hr'
    refine ⟨qs, hq, rfl, ?_⟩
    unfold rerank at hr
    split at hr
    · cases hr
    · rename_i record rest hremove
      cases hr
      have hmem := (WaitSet.remove_perm hremove).mem_iff.2 List.mem_cons_self
      refine Policy.donation_insert_le (hl.ranked hq) hremove ?_
      rw [hs.weight hq hmem, WaitSet.remove_thread hremove]
      exact hv
  · exact ⟨rs', hr', rfl, Nat.le_refl _⟩

/-- A walk begins, and the value of its first thread does not rise. -/
structure Falling (t : ThreadId) (tb : Table) : Prop extends Walking t tb where
  falls : ∀ {value}, tb.donatedValue t = .ok value → value ≤ tb.effective t

/-- Whatever takes from a thread what it was given begins such a walk. -/
theorem GivesLess.falling (h : GivesLess tb tb') (hs : Sound tb) (hw : Walking t tb')
    (hp : tb'.policy = tb.policy) (hbase : tb'.priority t = tb.priority t)
    (heff : tb'.effective t = tb.effective t)
    (hacq : (tb'.state t).acquired.Sublist (tb.state t).acquired) : Falling t tb' := by
  refine ⟨hw, fun hv => ?_⟩
  rw [heff]
  exact h.donatedValue_le hs.settled hp hbase hacq hv (hs.settled.value t (by simp))

theorem Onward.falling (h : Onward tb t o tb') (hf : Falling t tb) : Falling o tb' := by
  have hwalking := h.walking hf.toWalking
  have hne := h.ne hf.linked
  obtain ⟨value, hv⟩ := hf.linked.exists_donatedValue t
  have heff := h.effective_eq hv o
  rw [if_neg (Ne.symm hne)] at heff
  have hsame := h.sameLinks
  obtain ⟨-, hv', -, hq, hr, -⟩ := h
  cases hv.symm.trans hv'
  have hgives := reweigh_givesLess hf.linked hf.settled hq hr (hf.falls hv)
  refine ⟨hwalking, fun hnext => ?_⟩
  rw [heff]
  refine hgives.donatedValue_le hf.settled hsame.policy (hsame.base o) ?_ hnext
    (hf.settled.value o fun e => hne (Option.some.inj e).symm)
  rw [hsame.acquired]

theorem Walking.donor_le {u v : ThreadId} {value : Nat} (h : Walking t tb) (hd : tb.Donates u v)
    (hk : v ∈ tb.known) (hv : tb.donatedValue v = .ok value) : tb.effective u ≤ value :=
  hd.le_donatedValue h.linked h.settled (fun hq ho => h.owned hq ho hk) hv

theorem Donates.mem_known {u : ThreadId} (h : tb.Donates u t) : u ∈ tb.known :=
  List.mem_toFinset.2 h.mem_keys

/-- Around a cycle nobody is worth less than the thread before, which holds up the first one. -/
theorem Onward.off_cycle (h : Onward tb t o tb') (hf : Falling t tb) :
    ¬ TransGen tb.Donates t t := by
  intro hcycle
  obtain ⟨value, hv⟩ := hf.linked.exists_donatedValue t
  have hlt : value < tb.effective t := Nat.lt_of_le_of_ne (hf.falls hv) (Ne.symm (h.changed hv))
  have hup : ∀ {u}, ReflTransGen tb.Donates t u → u ∈ tb.known →
      tb.effective t ≤ tb.effective u := by
    intro u hu
    induction hu with
    | refl => exact fun _ => Nat.le_refl _
    | @tail v u _ hd ih =>
      intro hk
      by_cases hut : t = u
      · rw [hut]
      · have hvalue := hf.settled.value u fun e => hut (Option.some.inj e)
        exact (ih hd.mem_known).trans (hf.donor_le hd hk hvalue)
  obtain ⟨u, htu, hut⟩ := TransGen.tail'_iff.1 hcycle
  have hle := (hup htu hut.mem_known).trans (hf.donor_le hut h.mem_known hv)
  omega

theorem refresh_ends_of_falling (h : Falling t tb) : ∃ tb', tb.refresh t = .ok tb' := by
  refine refreshWithin_ends (I := Falling) (μ := fun tb t => (tb.ahead t).ncard)
    (fun hf => hf.linked) ?_ _ h (ncard_known_le fun u hu => hu.1)
  exact fun hf hon => ⟨hon.falling hf, hon.ahead_lt (hon.off_cycle hf)⟩

/-! ## Strict priorities -/

/-- A maximum is at most `y` if all it is taken of are. -/
theorem combineDonations_le_iff (hl : Linked tb) (hp : tb.policy = .priority) {l : List QueueId}
    {y : Nat} : ∀ {v w : Nat}, tb.combineDonations v l = .ok w →
      (w ≤ y ↔ v ≤ y ∧ ∀ q ∈ l, ∀ qs, tb.queue? q = some qs → qs.transfer = true →
        ∀ r ∈ qs.waiters.records, r.weight ≤ y) := by
  induction l with
  | nil =>
    intro v w h
    cases h
    simp
  | cons q l ih =>
    intro v w h
    rw [combineDonations] at h
    split at h
    · cases h
    · rename_i qs hq
      have hrank := hl.ranked_priority hp hq
      rw [ih h, List.forall_mem_cons]
      cases htr : qs.transfer with
      | false => simp [hq, htr]
      | true =>
        have hd := Policy.donation_priority_le_iff hrank (y := y)
        simp only [hp, Policy.combine, if_true, Nat.max_le, hd, hq, Option.some.injEq,
          forall_eq', htr, forall_const, and_assoc]

/-- Under strict priorities a value is the greatest of the base value and the donors' values. -/
theorem donatedValue_le_iff {x : Option ThreadId} {v y : Nat} (hl : Linked tb)
    (hs : SettledBut x tb) (ho : KnownOwned tb) (hp : tb.policy = .priority) (ht : t ∈ tb.known)
    (hv : tb.donatedValue t = .ok v) :
    v ≤ y ↔ tb.priority t ≤ y ∧ ∀ u, tb.Donates u t → tb.effective u ≤ y := by
  rw [donatedValue_eq] at hv
  rw [combineDonations_le_iff hl hp hv]
  refine and_congr Iff.rfl ⟨fun h u => ?_, fun h q hacq qs hq htr r hr => ?_⟩
  · rintro ⟨q, qs, hw, hq, htr, hown⟩
    obtain ⟨qs', hq', hm⟩ := hl.waiting_iff.1 hw
    rw [hq] at hq'
    cases hq'
    obtain ⟨r, hr, rfl⟩ := WaitSet.mem_threads.1 hm
    have hle := h q (ho hq hown ht) qs hq htr r hr
    rwa [hs.weight hq hr] at hle
  · have hown := acquired_by_owner hl hq hacq
    rw [hs.weight hq hr]
    exact h _ ⟨q, qs, hl.waiting_of_mem hq hr, hq, htr, hown⟩

/-- Of two maxima that differ in one entry only, the greater is that entry or they are equal. -/
theorem max_shift {rest : Nat → Prop} {a b e v : Nat} (hmono : ∀ {x y}, x ≤ y → rest x → rest y)
    (hev : e < v) (ha : ∀ y, a ≤ y ↔ rest y ∧ e ≤ y) (hb : ∀ y, b ≤ y ↔ rest y ∧ v ≤ y) :
    a = b ∨ a < v ∧ b = v := by
  have hra : rest a := ((ha a).1 (Nat.le_refl a)).1
  have hbv := (hb b).1 (Nat.le_refl b)
  have hab : a ≤ b := (ha b).2 ⟨hbv.1, by omega⟩
  rcases Nat.lt_or_ge a v with hlt | hge
  · have hle : b ≤ v := (hb v).2 ⟨hmono hlt.le hra, Nat.le_refl v⟩
    exact .inr ⟨hlt, by omega⟩
  · exact .inl (Nat.le_antisymm hab ((hb a).2 ⟨hra, hge⟩))

/-- At the next thread the walk stops, or the same value is due there. -/
theorem Onward.next_value {value : Nat} (h : Onward tb t o tb') (hw : Walking t tb)
    (hp : tb.policy = .priority) (hv : tb.donatedValue t = .ok value)
    (hlt : tb.effective t < value) : ∃ value', tb'.donatedValue o = .ok value' ∧
      (tb'.effective o = value' ∨ tb'.effective o < value ∧ value' = value) := by
  obtain ⟨hl, hs, ho⟩ := hw
  have hl' := h.linked hl
  obtain ⟨value', hv'⟩ := hl'.exists_donatedValue o
  refine ⟨value', hv', ?_⟩
  by_cases hko : o ∈ tb.known
  · have hne := h.ne hl
    have heff := h.effective_eq hv
    have hold : tb.donatedValue o = .ok (tb'.effective o) := by
      rw [heff, if_neg (Ne.symm hne)]
      exact hs.value o fun e => hne (Option.some.inj e).symm
    -- what bounds the value of `o` apart from its donor `t`
    let rest (y : Nat) : Prop :=
      tb.priority o ≤ y ∧ ∀ u, tb.Donates u o → u ≠ t → tb.effective u ≤ y
    have hmono : ∀ {x y}, x ≤ y → rest x → rest y := fun hxy hx =>
      ⟨hx.1.trans hxy, fun u hu hut => (hx.2 u hu hut).trans hxy⟩
    have ha : ∀ y, tb'.effective o ≤ y ↔ rest y ∧ tb.effective t ≤ y := by
      intro y
      rw [donatedValue_le_iff hl hs ho hp hko hold]
      constructor
      · exact fun hy => ⟨⟨hy.1, fun u hu _ => hy.2 u hu⟩, hy.2 t h.donates⟩
      · rintro ⟨hy, hty⟩
        refine ⟨hy.1, fun u hu => ?_⟩
        by_cases hut : u = t
        · rw [hut]
          exact hty
        · exact hy.2 u hu hut
    have hb : ∀ y, value' ≤ y ↔ rest y ∧ value ≤ y := by
      intro y
      rw [donatedValue_le_iff hl' (h.settledBut hl hs) (h.knownOwned ho)
        (h.sameLinks.policy.trans hp) (h.known_eq ▸ hko) hv']
      have hbase : tb'.priority o = tb.priority o := h.sameLinks.base o
      simp only [hbase, h.sameLinks.donates_iff, heff]
      constructor
      · rintro ⟨hy, hd⟩
        refine ⟨⟨hy, fun u hu hut => ?_⟩, ?_⟩
        · have hle := hd u hu
          rwa [if_neg (Ne.symm hut)] at hle
        · have hle := hd t h.donates
          rwa [if_pos rfl] at hle
      · rintro ⟨hy, hvy⟩
        refine ⟨hy.1, fun u hu => ?_⟩
        split
        · exact hvy
        · rename_i hut
          exact hy.2 u hu (Ne.symm hut)
    exact max_shift hmono hlt ha hb
  · have hstop := mt (mem_known_of_changed hv') (h.known_eq ▸ hko)
    exact .inl (not_ne_iff.1 hstop)

/-- The threads with a state whose value has a property. -/
def valued (P : Nat → Prop) (tb : Table) : Set ThreadId := {u | u ∈ tb.known ∧ P (tb.effective u)}

/-- A thread whose new value lacks the property leaves the set, and nobody enters it. -/
theorem Onward.valued_lt {P : Nat → Prop} {value : Nat} (h : Onward tb t o tb')
    (hv : tb.donatedValue t = .ok value) (hold : P (tb.effective t)) (hnew : ¬ P value) :
    (valued P tb').ncard < (valued P tb).ncard := by
  have heff := h.effective_eq hv
  refine Set.ncard_lt_ncard ⟨fun u hu => ?_, fun hsub => ?_⟩
    (tb.known.finite_toSet.subset fun u hu => hu.1)
  · obtain ⟨hk, hP⟩ := hu
    rw [heff] at hP
    split at hP
    · exact absurd hP hnew
    · exact ⟨h.known_eq ▸ hk, hP⟩
  · have ht : t ∈ valued P tb' := hsub ⟨h.mem_known, hold⟩
    have hP := ht.2
    rw [heff, if_pos rfl] at hP
    exact hnew hP

/-- A raised value leaves one thread less below it at each hop. -/
theorem refresh_ends_of_rising {value : Nat} (h : Walking t tb) (hp : tb.policy = .priority)
    (hv : tb.donatedValue t = .ok value) (hlt : tb.effective t < value) :
    ∃ tb', tb.refresh t = .ok tb' := by
  refine refreshWithin_ends
    (I := fun t tb => (Walking t tb ∧ tb.policy = .priority) ∧ ∃ new,
      tb.donatedValue t = .ok new ∧ (tb.effective t = new ∨ tb.effective t < value ∧ new = value))
    (μ := fun tb _ => (valued (· < value) tb).ncard) (fun hi => hi.1.1.linked) ?_ _
    ⟨⟨h, hp⟩, value, hv, .inr ⟨hlt, rfl⟩⟩ (ncard_known_le fun u hu => hu.1)
  rintro t o tb tb' ⟨⟨hw, hp⟩, new, hnew, hcase⟩ hon
  obtain ⟨hlow, rfl⟩ := hcase.resolve_left (hon.changed hnew)
  exact ⟨⟨⟨hon.walking hw, hon.sameLinks.policy.trans hp⟩, hon.next_value hw hp hnew hlow⟩,
    hon.valued_lt hnew hlow (Nat.lt_irrefl _)⟩

theorem refresh_ends_of_priority (h : Walking t tb) (hp : tb.policy = .priority) :
    ∃ tb', tb.refresh t = .ok tb' := by
  obtain ⟨value, hv⟩ := h.linked.exists_donatedValue t
  rcases Nat.lt_or_ge (tb.effective t) value with hlt | hge
  · exact refresh_ends_of_rising h hp hv hlt
  · refine refresh_ends_of_falling ⟨h, fun hv' => ?_⟩
    cases hv.symm.trans hv'
    exact hge

end ThreadKernel.Table
