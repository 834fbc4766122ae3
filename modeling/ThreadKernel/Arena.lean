import ThreadKernel.KeyMap

/-!
# ThreadKernel.Arena

Storage that numbers its cells itself. A new cell takes the number freed last, or the next unused
one if no freed number is left.

* `Arena`        — the storage, with the bookkeeping of free numbers in its type.
* `Arena.insert` — stores a value and returns its number, absent before (`get?_insert_key`).
* `get?_insert`, `get?_erase`, `get?_modify` — each operation through its lookups.
-/

namespace ThreadKernel

structure Arena (α : Type) where
  cells : KeyMap Nat α
  /-- Freed numbers, the newest first. -/
  free : List Nat
  /-- The least number that was never handed out. -/
  fresh : Nat
  free_lt : ∀ k ∈ free, k < fresh
  free_nodup : free.Nodup
  free_absent : ∀ k ∈ free, cells.get? k = none
  fresh_absent : ∀ k, fresh ≤ k → cells.get? k = none

namespace Arena

variable {α : Type}

def empty : Arena α where
  cells := ∅
  free := []
  fresh := 0
  free_lt := by simp
  free_nodup := .nil
  free_absent := by simp
  fresh_absent := by simp

instance : EmptyCollection (Arena α) := ⟨empty⟩

instance : Inhabited (Arena α) := ⟨empty⟩

def get? (a : Arena α) (k : Nat) : Option α := a.cells.get? k

/-- The numbers in use, ascending. -/
def keys (a : Arena α) : List Nat := a.cells.keys

def size (a : Arena α) : Nat := a.cells.size

theorem absent_ne {a : Arena α} {k j : Nat} {v : α} (hk : a.cells.get? k = some v)
    (hj : a.cells.get? j = none) : k ≠ j := by
  intro h
  rw [h, hj] at hk
  cases hk

/-- Stores `v` and returns the number it got. -/
def insert (a : Arena α) (v : α) : Nat × Arena α :=
  match h : a.free with
  | k :: rest =>
    (k, { cells := a.cells.insert k v
          free := rest
          fresh := a.fresh
          free_lt := fun j hj => a.free_lt j (by rw [h]; exact List.mem_cons_of_mem _ hj)
          free_nodup := (List.nodup_cons.1 (h ▸ a.free_nodup)).2
          free_absent := fun j hj => by
            have hne : k ≠ j := fun e => (List.nodup_cons.1 (h ▸ a.free_nodup)).1 (e ▸ hj)
            rw [KeyMap.get?_insert, if_neg hne]
            exact a.free_absent j (by rw [h]; exact List.mem_cons_of_mem _ hj)
          fresh_absent := fun j hj => by
            have hk := a.free_lt k (by rw [h]; exact List.mem_cons_self)
            rw [KeyMap.get?_insert, if_neg (by omega)]
            exact a.fresh_absent j hj })
  | [] =>
    (a.fresh, { cells := a.cells.insert a.fresh v
                free := []
                fresh := a.fresh + 1
                free_lt := by simp
                free_nodup := .nil
                free_absent := by simp
                fresh_absent := fun j hj => by
                  rw [KeyMap.get?_insert, if_neg (by omega)]
                  exact a.fresh_absent j (by omega) })

/-- Frees the number `k`; does nothing if it is not in use. -/
def erase (a : Arena α) (k : Nat) : Arena α :=
  match h : a.cells.get? k with
  | none => a
  | some _ =>
    { cells := a.cells.erase k
      free := k :: a.free
      fresh := a.fresh
      free_lt := fun j hj => by
        rcases List.mem_cons.1 hj with rfl | hj
        · exact Nat.lt_of_not_le (fun hle => absent_ne h (a.fresh_absent j hle) rfl)
        · exact a.free_lt j hj
      free_nodup :=
        List.nodup_cons.2 ⟨fun hk => absent_ne h (a.free_absent k hk) rfl, a.free_nodup⟩
      free_absent := fun j hj => by
        rw [KeyMap.get?_erase]
        rcases List.mem_cons.1 hj with rfl | hj
        · simp
        · split
          · rfl
          · exact a.free_absent j hj
      fresh_absent := fun j hj => by
        rw [KeyMap.get?_erase]
        split
        · rfl
        · exact a.fresh_absent j hj }

/-- Replaces the value at `k` by its image; does nothing if `k` is not in use. -/
def modify (a : Arena α) (k : Nat) (f : α → α) : Arena α :=
  match h : a.cells.get? k with
  | none => a
  | some v =>
    { a with
      cells := a.cells.insert k (f v)
      free_absent := fun j hj => by
        rw [KeyMap.get?_insert, if_neg (absent_ne h (a.free_absent j hj))]
        exact a.free_absent j hj
      fresh_absent := fun j hj => by
        rw [KeyMap.get?_insert, if_neg (absent_ne h (a.fresh_absent j hj))]
        exact a.fresh_absent j hj }

/-! ## Operations through lookups -/

@[simp] theorem get?_empty (k : Nat) : (∅ : Arena α).get? k = none := rfl

theorem get?_insert_key (a : Arena α) (v : α) : a.get? (a.insert v).1 = none := by
  unfold insert
  split
  · rename_i k rest h
    exact a.free_absent k (by rw [h]; exact List.mem_cons_self)
  · exact a.fresh_absent _ (Nat.le_refl _)

theorem get?_insert (a : Arena α) (v : α) (j : Nat) :
    (a.insert v).2.get? j = if (a.insert v).1 = j then some v else a.get? j := by
  unfold insert
  split <;> exact KeyMap.get?_insert _ _ _ _

theorem get?_erase (a : Arena α) (k j : Nat) :
    (a.erase k).get? j = if k = j then none else a.get? j := by
  unfold erase
  split
  · rename_i h
    split
    · rename_i hkj
      rw [← hkj]
      exact h
    · rfl
  · exact KeyMap.get?_erase _ _ _

theorem get?_modify (a : Arena α) (k j : Nat) (f : α → α) :
    (a.modify k f).get? j = if k = j then (a.get? j).map f else a.get? j := by
  unfold modify
  split
  · rename_i h
    split
    · rename_i hkj
      subst hkj
      rw [get?, h]
      rfl
    · rfl
  · rename_i v h
    rw [get?, KeyMap.get?_insert]
    split
    · rename_i hkj
      subst hkj
      rw [get?, h]
      rfl
    · rfl

end Arena
end ThreadKernel
