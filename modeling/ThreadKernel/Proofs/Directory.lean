import Mathlib.Data.List.Perm.Basic
import ThreadKernel.Directory

/-!
# ThreadKernel.Proofs.Directory

Keys and cells of a directory correspond one to one, so they are equally many.

* `KeyMap.mem_entries_iff` — the entries of a map are its lookups.
* `Directory.size_eq_keys` — as many cells are in use as there are keys.
-/

namespace ThreadKernel

namespace KeyMap

variable {κ α : Type} [Key κ]

theorem nodup_keys (m : KeyMap κ α) : m.keys.Nodup := by
  refine List.pairwise_map.2 (m.sorted.imp fun {a b} h hab => ?_)
  rw [hab] at h
  exact Nat.lt_irrefl _ h

theorem mem_entries_iff (m : KeyMap κ α) (k : κ) (v : α) :
    (k, v) ∈ m.entries ↔ m.get? k = some v := by
  obtain ⟨l, hl⟩ := m
  show (k, v) ∈ l ↔ lookup k l = some v
  induction l with
  | nil => simp [lookup]
  | cons e rest ih =>
    obtain ⟨j, w⟩ := e
    obtain ⟨hj, hrest⟩ := List.pairwise_cons.1 hl
    rw [lookup, List.mem_cons, ih hrest]
    split
    · rename_i hjk
      rw [lookup_eq_none_of_lt fun e he => hjk ▸ hj e he, Key.rank_inj hjk]
      simp [eq_comm]
    · rename_i hjk
      exact or_iff_right fun h => hjk (by rw [(Prod.mk.inj h).1])

end KeyMap

namespace Directory

variable {κ α : Type} [Key κ]

/-- The cells of the keys are the cells in use, each once. -/
theorem cells_perm (d : Directory κ α) : (d.index.entries.map Prod.snd).Perm d.cells.keys := by
  refine (List.perm_ext_iff_of_nodup ?_ d.cells.cells.nodup_keys).2 fun n => ?_
  · refine List.pairwise_map.2 (d.index.sorted.imp_of_mem fun {a b} ha hb h hab => ?_)
    have hsame := d.apart ((d.index.mem_entries_iff a.1 a.2).1 ha)
      (hab ▸ (d.index.mem_entries_iff b.1 b.2).1 hb)
    rw [hsame] at h
    exact Nat.lt_irrefl _ h
  · refine .trans ?_ ((d.in_use n).symm.trans (KeyMap.mem_keys_iff _ n).symm)
    rw [List.mem_map]
    constructor
    · rintro ⟨⟨k, m⟩, hm, rfl⟩
      exact ⟨k, (d.index.mem_entries_iff k m).1 hm⟩
    · rintro ⟨k, hk⟩
      exact ⟨(k, n), (d.index.mem_entries_iff k n).2 hk, rfl⟩

theorem size_eq_keys (d : Directory κ α) : d.size = d.keys.length := by
  have h := d.cells_perm.length_eq
  rw [List.length_map, Arena.keys, KeyMap.keys, List.length_map] at h
  rw [keys, KeyMap.keys, List.length_map, h]
  rfl

theorem nodup_keys (d : Directory κ α) : d.keys.Nodup := d.index.nodup_keys

theorem get?_of_size_zero {d : Directory κ α} (h : d.size = 0) (k : κ) : d.get? k = none := by
  rw [size_eq_keys] at h
  rw [← Option.not_isSome_iff_eq_none, ← mem_keys_iff, List.eq_nil_of_length_eq_zero h]
  exact List.not_mem_nil

end Directory
end ThreadKernel
