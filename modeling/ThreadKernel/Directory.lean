import ThreadKernel.Arena

/-!
# ThreadKernel.Directory

Values that are found by key, in numbered cells. A freed cell is used again, for whichever key comes
next.

* `Directory` — the cells, and an index that names the cell of each key. By its type no two keys share
  a cell, and every cell in use has a key.
* `get?_insert`, `get?_erase` — each operation through its lookups. No key sees which cells the others
  use, or used before.
-/

namespace ThreadKernel

structure Directory (κ α : Type) [Key κ] where
  /-- The cell of each key. -/
  index : KeyMap κ Nat
  cells : Arena α
  apart : ∀ {j k : κ} {n : Nat}, index.get? j = some n → index.get? k = some n → j = k
  in_use : ∀ n, (cells.get? n).isSome ↔ ∃ k, index.get? k = some n

namespace Directory

variable {κ α : Type} [Key κ]

def empty : Directory κ α where
  index := ∅
  cells := ∅
  apart h := by simp at h
  in_use n := by simp

instance : EmptyCollection (Directory κ α) := ⟨empty⟩

def get? (d : Directory κ α) (k : κ) : Option α := (d.index.get? k).bind d.cells.get?

@[simp] theorem get?_empty (k : κ) : (∅ : Directory κ α).get? k = none := rfl

/-- Whether the key has a cell. -/
def contains (d : Directory κ α) (k : κ) : Bool := d.index.contains k

/-- The number of cells in use. -/
def size (d : Directory κ α) : Nat := d.cells.size

/-- The keys, ascending. -/
def keys (d : Directory κ α) : List κ := d.index.keys

theorem exists_cell (d : Directory κ α) {k : κ} {n : Nat} (h : d.index.get? k = some n) :
    ∃ v, d.cells.get? n = some v :=
  Option.isSome_iff_exists.1 ((d.in_use n).2 ⟨k, h⟩)

theorem contains_eq_isSome (d : Directory κ α) (k : κ) : d.contains k = (d.get? k).isSome := by
  rw [contains, KeyMap.contains, get?]
  cases h : d.index.get? k with
  | none => rfl
  | some n =>
    obtain ⟨v, hv⟩ := d.exists_cell h
    rw [Option.bind_some, hv]
    rfl

theorem get?_eq_none_iff (d : Directory κ α) (k : κ) : d.get? k = none ↔ d.index.get? k = none := by
  rw [← Option.not_isSome_iff_eq_none, ← contains_eq_isSome, contains, KeyMap.contains,
    Option.not_isSome_iff_eq_none]

theorem mem_keys_iff (d : Directory κ α) (k : κ) : k ∈ d.keys ↔ (d.get? k).isSome := by
  rw [keys, KeyMap.mem_keys_iff, ← contains_eq_isSome]
  rfl

/-- A number that the arena gives out next is nobody's cell. -/
theorem index_ne_fresh (d : Directory κ α) (v : α) (k : κ) :
    d.index.get? k ≠ some (d.cells.insert v).1 := by
  intro h
  obtain ⟨w, hw⟩ := d.exists_cell h
  rw [Arena.get?_insert_key] at hw
  cases hw

variable [DecidableEq κ]

/-- Puts a value into the cell of `k`, a new one if it has none. -/
def insert (d : Directory κ α) (k : κ) (v : α) : Directory κ α :=
  match h : d.index.get? k with
  | some n =>
    { d with
      cells := d.cells.modify n fun _ => v
      in_use := fun m => by
        rw [Arena.get?_modify, ← d.in_use]
        split <;> simp }
  | none =>
    { index := d.index.insert k (d.cells.insert v).1
      cells := (d.cells.insert v).2
      apart := fun {i j n} hi hj => by
        rw [KeyMap.get?_insert] at hi hj
        split at hi <;> split at hj
        · rename_i hki hkj
          exact hki.symm.trans hkj
        · exact absurd (hj.trans hi.symm) (d.index_ne_fresh v j)
        · exact absurd (hi.trans hj.symm) (d.index_ne_fresh v i)
        · exact d.apart hi hj
      in_use := fun m => by
        rw [Arena.get?_insert]
        split
        · rename_i hm
          refine ⟨fun _ => ⟨k, ?_⟩, fun _ => rfl⟩
          rw [KeyMap.get?_insert, if_pos rfl, hm]
        · rename_i hm
          rw [d.in_use]
          constructor
          · rintro ⟨j, hj⟩
            refine ⟨j, ?_⟩
            rw [KeyMap.get?_insert, if_neg fun e => ?_, hj]
            rw [e, hj] at h
            cases h
          · rintro ⟨j, hj⟩
            rw [KeyMap.get?_insert] at hj
            split at hj
            · exact absurd (Option.some.inj hj) hm
            · exact ⟨j, hj⟩ }

/-- Frees the cell of `k`; does nothing if it has none. -/
def erase (d : Directory κ α) (k : κ) : Directory κ α :=
  match h : d.index.get? k with
  | none => d
  | some n =>
    { index := d.index.erase k
      cells := d.cells.erase n
      apart := fun {i j m} hi hj => by
        rw [KeyMap.get?_erase] at hi hj
        split at hi
        · cases hi
        · split at hj
          · cases hj
          · exact d.apart hi hj
      in_use := fun m => by
        rw [Arena.get?_erase]
        split
        · rename_i hm
          subst hm
          refine ⟨fun hs => (nomatch hs), ?_⟩
          rintro ⟨j, hj⟩
          rw [KeyMap.get?_erase] at hj
          split at hj
          · cases hj
          · rename_i hkj
            exact absurd (d.apart h hj) hkj
        · rename_i hm
          rw [d.in_use]
          constructor
          · rintro ⟨j, hj⟩
            refine ⟨j, ?_⟩
            rw [KeyMap.get?_erase, if_neg fun e => ?_, hj]
            rw [e, hj] at h
            exact hm (Option.some.inj h).symm
          · rintro ⟨j, hj⟩
            rw [KeyMap.get?_erase] at hj
            split at hj
            · cases hj
            · exact ⟨j, hj⟩ }

/-! ## Operations through lookups -/

theorem get?_insert (d : Directory κ α) (k j : κ) (v : α) :
    (d.insert k v).get? j = if k = j then some v else d.get? j := by
  unfold insert
  split
  · rename_i n h
    simp only [get?]
    split
    · rename_i hkj
      obtain ⟨w, hw⟩ := d.exists_cell h
      rw [← hkj, h, Option.bind_some, Arena.get?_modify, if_pos rfl, hw]
      rfl
    · rename_i hkj
      cases hj : d.index.get? j with
      | none => rfl
      | some m =>
        have hne : n ≠ m := fun e => hkj (d.apart h (e ▸ hj))
        rw [Option.bind_some, Arena.get?_modify, if_neg hne, Option.bind_some]
  · simp only [get?, KeyMap.get?_insert]
    split
    · rw [Option.bind_some, Arena.get?_insert, if_pos rfl]
    · cases hj : d.index.get? j with
      | none => rfl
      | some m =>
        have hne : (d.cells.insert v).1 ≠ m := fun e => d.index_ne_fresh v j (e ▸ hj)
        rw [Option.bind_some, Arena.get?_insert, if_neg hne, Option.bind_some]

theorem get?_erase (d : Directory κ α) (k j : κ) :
    (d.erase k).get? j = if k = j then none else d.get? j := by
  unfold erase
  split
  · rename_i h
    split
    · rename_i hkj
      rw [← hkj, get?, h]
      rfl
    · rfl
  · rename_i n h
    simp only [get?, KeyMap.get?_erase]
    split
    · rfl
    · rename_i hkj
      cases hj : d.index.get? j with
      | none => rfl
      | some m =>
        have hne : n ≠ m := fun e => hkj (d.apart h (e ▸ hj))
        rw [Option.bind_some, Arena.get?_erase, if_neg hne, Option.bind_some]

end Directory
end ThreadKernel
