/-!
# ThreadKernel.KeyMap

Finite maps whose entries stand in strict key order, so a map is fixed by its lookups and lists
its keys ascending.

* `Key`     — key types, ordered by an injective number.
* `KeyMap`  — the map: `get?`, `insert`, `erase`, `size`, `keys`.
* `KeyMap.get?_insert`, `KeyMap.get?_erase` — each operation through its lookups.
* `KeyMap.ext_get?` — maps with equal lookups are equal.
-/

namespace ThreadKernel

/-- A type whose values are told apart and ordered by a number. -/
class Key (κ : Type) where
  rank : κ → Nat
  rank_inj : ∀ {a b : κ}, rank a = rank b → a = b

instance : Key Nat := ⟨id, id⟩

/-- A finite map from `κ` to `α`. -/
structure KeyMap (κ α : Type) [Key κ] where
  entries : List (κ × α)
  sorted : entries.Pairwise (fun a b => Key.rank a.1 < Key.rank b.1)

namespace KeyMap

variable {κ α : Type} [Key κ]

def lookup (k : κ) : List (κ × α) → Option α
  | [] => none
  | (j, v) :: rest => if Key.rank j = Key.rank k then some v else lookup k rest

/-- Puts an entry at its place in key order and replaces one with the same key. -/
def place (k : κ) (v : α) : List (κ × α) → List (κ × α)
  | [] => [(k, v)]
  | (j, w) :: rest =>
    if Key.rank k < Key.rank j then (k, v) :: (j, w) :: rest
    else if Key.rank j = Key.rank k then (k, v) :: rest
    else (j, w) :: place k v rest

theorem mem_place {k : κ} {v : α} {e : κ × α} {l : List (κ × α)} (h : e ∈ place k v l) :
    e = (k, v) ∨ e ∈ l := by
  induction l with
  | nil => simpa [place] using h
  | cons a rest ih =>
    obtain ⟨j, w⟩ := a
    simp only [place] at h
    split at h
    · simpa using h
    · split at h
      · rcases List.mem_cons.1 h with h | h
        · exact .inl h
        · exact .inr (List.mem_cons_of_mem _ h)
      · rcases List.mem_cons.1 h with h | h
        · exact .inr (h ▸ List.mem_cons_self)
        · exact (ih h).imp id (List.mem_cons_of_mem _)

theorem place_sorted (k : κ) (v : α) {l : List (κ × α)}
    (h : l.Pairwise (fun a b => Key.rank a.1 < Key.rank b.1)) :
    (place k v l).Pairwise (fun a b => Key.rank a.1 < Key.rank b.1) := by
  induction l with
  | nil => simp [place]
  | cons a rest ih =>
    obtain ⟨j, w⟩ := a
    obtain ⟨ha, hrest⟩ := List.pairwise_cons.1 h
    simp only [place]
    split
    · rename_i hlt
      refine List.pairwise_cons.2 ⟨fun e he => ?_, h⟩
      rcases List.mem_cons.1 he with rfl | he
      · exact hlt
      · exact Nat.lt_trans hlt (ha e he)
    · split
      · rename_i heq
        exact List.pairwise_cons.2 ⟨fun e he => heq ▸ ha e he, hrest⟩
      · rename_i hnlt hne
        refine List.pairwise_cons.2 ⟨fun e he => ?_, ih hrest⟩
        rcases mem_place he with rfl | he
        · exact Nat.lt_of_le_of_ne (Nat.le_of_not_lt hnlt) hne
        · exact ha e he

def empty : KeyMap κ α := ⟨[], .nil⟩

instance : EmptyCollection (KeyMap κ α) := ⟨empty⟩

instance : Inhabited (KeyMap κ α) := ⟨empty⟩

def get? (m : KeyMap κ α) (k : κ) : Option α := lookup k m.entries

def insert (m : KeyMap κ α) (k : κ) (v : α) : KeyMap κ α :=
  ⟨place k v m.entries, place_sorted k v m.sorted⟩

def erase (m : KeyMap κ α) (k : κ) : KeyMap κ α :=
  ⟨m.entries.filter (fun e => Key.rank e.1 != Key.rank k), m.sorted.filter _⟩

def size (m : KeyMap κ α) : Nat := m.entries.length

/-- The keys, ascending. -/
def keys (m : KeyMap κ α) : List κ := m.entries.map Prod.fst

def contains (m : KeyMap κ α) (k : κ) : Bool := (m.get? k).isSome

/-! ## Operations through lookups -/

theorem lookup_place (k j : κ) (v : α) (l : List (κ × α)) :
    lookup j (place k v l) = if Key.rank k = Key.rank j then some v else lookup j l := by
  induction l with
  | nil => simp [place, lookup]
  | cons a rest ih =>
    obtain ⟨i, w⟩ := a
    simp only [place]
    split
    · simp [lookup]
    · split
      · rename_i heq
        simp only [lookup, heq]
        split <;> rfl
      · rename_i hne
        simp only [lookup, ih]
        split
        · rename_i hij
          rw [if_neg (fun h => hne (hij.trans h.symm))]
        · rfl

theorem lookup_filter (k j : κ) (l : List (κ × α)) :
    lookup j (l.filter (fun e => Key.rank e.1 != Key.rank k)) =
      if Key.rank k = Key.rank j then none else lookup j l := by
  induction l with
  | nil => simp [lookup]
  | cons a rest ih =>
    obtain ⟨i, w⟩ := a
    by_cases h : Key.rank i = Key.rank k
    · rw [List.filter_cons_of_neg (by simp [h]), ih]
      simp only [lookup, h]
      split <;> rfl
    · rw [List.filter_cons_of_pos (by simp [h])]
      simp only [lookup, ih]
      split
      · rename_i hij
        rw [if_neg (fun h' => h (hij.trans h'.symm))]
      · rfl

@[simp] theorem get?_empty (k : κ) : (∅ : KeyMap κ α).get? k = none := rfl

theorem get?_insert [DecidableEq κ] (m : KeyMap κ α) (k j : κ) (v : α) :
    (m.insert k v).get? j = if k = j then some v else m.get? j := by
  rw [get?, insert, lookup_place]
  by_cases h : k = j
  · simp [h]
  · rw [if_neg (fun hr => h (Key.rank_inj hr)), if_neg h, get?]

theorem get?_erase [DecidableEq κ] (m : KeyMap κ α) (k j : κ) :
    (m.erase k).get? j = if k = j then none else m.get? j := by
  rw [get?, erase, lookup_filter]
  by_cases h : k = j
  · simp [h]
  · rw [if_neg (fun hr => h (Key.rank_inj hr)), if_neg h, get?]

theorem lookup_isSome_iff (k : κ) (l : List (κ × α)) :
    (lookup k l).isSome ↔ k ∈ l.map Prod.fst := by
  induction l with
  | nil => simp [lookup]
  | cons a rest ih =>
    obtain ⟨j, w⟩ := a
    simp only [lookup, List.map_cons, List.mem_cons]
    split
    · rename_i h
      simp [Key.rank_inj h]
    · rename_i h
      rw [ih]
      exact ⟨.inr, fun h' => h'.resolve_left (fun e => h (by rw [e]))⟩

theorem mem_keys_iff (m : KeyMap κ α) (k : κ) : k ∈ m.keys ↔ (m.get? k).isSome :=
  (lookup_isSome_iff k m.entries).symm

theorem lookup_eq_none_of_lt {k : κ} {l : List (κ × α)}
    (h : ∀ e ∈ l, Key.rank k < Key.rank e.1) : lookup k l = none := by
  induction l with
  | nil => rfl
  | cons a rest ih =>
    obtain ⟨j, w⟩ := a
    have hj : Key.rank k < Key.rank j := h (j, w) List.mem_cons_self
    simp only [lookup]
    rw [if_neg (by intro e; omega)]
    exact ih (fun e he => h e (List.mem_cons_of_mem _ he))

theorem eq_of_lookup_eq : ∀ {l l' : List (κ × α)},
    l.Pairwise (fun a b => Key.rank a.1 < Key.rank b.1) →
    l'.Pairwise (fun a b => Key.rank a.1 < Key.rank b.1) →
    (∀ k, lookup k l = lookup k l') → l = l'
  | [], [], _, _, _ => rfl
  | [], (j, w) :: rest, _, _, h => by simpa [lookup] using h j
  | (j, w) :: rest, [], _, _, h => by simpa [lookup] using h j
  | (i, v) :: l, (j, w) :: l', hl, hl', h => by
    obtain ⟨hi, hls⟩ := List.pairwise_cons.1 hl
    obtain ⟨hj, hls'⟩ := List.pairwise_cons.1 hl'
    have hij : Key.rank i = Key.rank j := by
      rcases Nat.lt_trichotomy (Key.rank i) (Key.rank j) with hlt | heq | hgt
      · have := h i
        simp only [lookup, if_true] at this
        rw [if_neg (by omega), lookup_eq_none_of_lt (fun e he => Nat.lt_trans hlt (hj e he))] at this
        cases this
      · exact heq
      · have := h j
        simp only [lookup, if_true] at this
        rw [if_neg (by omega), lookup_eq_none_of_lt (fun e he => Nat.lt_trans hgt (hi e he))] at this
        cases this
    have hkey : i = j := Key.rank_inj hij
    subst hkey
    have hval : v = w := by simpa [lookup] using h i
    subst hval
    have htail : l = l' := by
      refine eq_of_lookup_eq hls hls' (fun k => ?_)
      by_cases hk : Key.rank i = Key.rank k
      · rw [lookup_eq_none_of_lt (fun e he => hk ▸ hi e he),
          lookup_eq_none_of_lt (fun e he => hk ▸ hj e he)]
      · simpa [lookup, hk] using h k
    rw [htail]

theorem ext_get? {m n : KeyMap κ α} (h : ∀ k, m.get? k = n.get? k) : m = n := by
  obtain ⟨l, hl⟩ := m
  obtain ⟨l', hl'⟩ := n
  have : l = l' := eq_of_lookup_eq hl hl' h
  subst this
  rfl

end KeyMap
end ThreadKernel
