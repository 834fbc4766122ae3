import ThreadKernel.Policy
import ThreadKernel.Text.Numeral
import Mathlib.Data.List.TakeWhile
import Mathlib.Data.Nat.Digits.Defs

/-!
# ThreadKernel.Proofs.Text

What the texts of parameters may look like: the name of a policy among blanks, and a decimal
numeral. Both are described without the functions that read them.

* `Policy.Spells`, `named?_eq_some_iff`  — the texts that name a policy.
* `Text.Numeral`, `word64?_eq_some_iff`  — the texts that stand for a number of 64 bits.
-/

namespace ThreadKernel

namespace Text

variable {s before word after : List Char}

/-! ## Blanks at both ends -/

theorem dropWhile_isBlank (hb : ∀ c ∈ before, isBlank c = true)
    (hw : ∀ c, word.head? = some c → isBlank c = false) :
    (before ++ word).dropWhile isBlank = word := by
  rw [List.dropWhile_append_of_pos hb]
  cases word with
  | nil => rfl
  | cons c word =>
    rw [List.dropWhile_cons_of_neg]
    rw [hw c rfl]
    exact Bool.false_ne_true

theorem trim_eq (hb : ∀ c ∈ before, isBlank c = true) (hw : ∀ c ∈ word, isBlank c = false)
    (ha : ∀ c ∈ after, isBlank c = true) : trim (before ++ word ++ after) = word := by
  cases word with
  | nil =>
    have hall : (before ++ [] ++ after).dropWhile isBlank = [] := by
      rw [List.append_nil, List.dropWhile_append_of_pos hb]
      exact List.dropWhile_eq_nil_iff.2 ha
    rw [trim, hall]
    rfl
  | cons c word =>
    rw [trim, List.append_assoc, dropWhile_isBlank hb, List.reverse_append, dropWhile_isBlank,
      List.reverse_reverse]
    · exact fun d hd => ha d (List.mem_reverse.1 hd)
    · exact fun d hd => hw d (List.mem_reverse.1 (List.mem_of_head? hd))
    · exact fun d hd => hw d (Option.some.inj hd ▸ List.mem_cons_self)

/-- What is cut off is blank. -/
theorem exists_trim (s : List Char) : ∃ before after, s = before ++ trim s ++ after ∧
    (∀ c ∈ before, isBlank c = true) ∧ ∀ c ∈ after, isBlank c = true := by
  refine ⟨s.takeWhile isBlank, ((s.dropWhile isBlank).reverse.takeWhile isBlank).reverse, ?_,
    fun c hc => List.mem_takeWhile_imp hc,
    fun c hc => List.mem_takeWhile_imp (List.mem_reverse.1 hc)⟩
  rw [trim, List.append_assoc, ← List.reverse_append, List.takeWhile_append_dropWhile,
    List.reverse_reverse, List.takeWhile_append_dropWhile]

/-- No letter is a blank. -/
theorem toLower_of_isBlank {c : Char} (h : isBlank c = true) : c.toLower = c := by
  have hletter : ¬ ('A' ≤ c ∧ c ≤ 'Z') := by
    rintro ⟨hge, hle⟩
    have hge : 65 ≤ c.toNat := hge
    have hle : c.toNat ≤ 90 := hle
    simp only [isBlank, Bool.or_eq_true, Bool.and_eq_true, decide_eq_true_eq, beq_iff_eq] at h
    omega
  exact dif_neg hletter

/-! ## Decimal numerals -/

theorem digit?_eq_some_iff {c : Char} {d : Nat} :
    digit? 10 c = some d ↔ d < 10 ∧ c = Nat.digitChar d := by
  have hread : ∀ d < 10, digit? 10 (Nat.digitChar d) = some d := by decide
  have hchar : ∀ d < 10, Char.ofNat (48 + d) = Nat.digitChar d := by decide
  constructor
  · intro h
    simp only [digit?, Option.ite_none_right_eq_some, Option.some.injEq] at h
    obtain ⟨hlt, rfl⟩ := h
    refine ⟨hlt, ?_⟩
    split at hlt
    · rename_i hc
      have hge : 48 ≤ c.toNat := hc.1
      have hdigit : Char.ofNat (48 + (c.toNat - 48)) = Nat.digitChar (c.toNat - 48) := hchar _ hlt
      rw [Nat.add_sub_cancel' hge, Char.ofNat_toNat] at hdigit
      rwa [if_pos hc]
    -- the other letters stand for ten and more
    · split at hlt
      · omega
      · split at hlt <;> omega
  · rintro ⟨hd, rfl⟩
    exact hread d hd

theorem digitsFrom?_eq_some_iff {m : Nat} : ∀ {n : Nat}, digitsFrom? 10 n s = some m ↔
    ∃ digits : List Nat, (∀ d ∈ digits, d < 10) ∧ s = digits.map Nat.digitChar ∧
      m = digits.foldl (fun v d => d + 10 * v) n := by
  induction s with
  | nil =>
    intro n
    rw [digitsFrom?, Option.some.injEq]
    constructor
    · rintro rfl
      exact ⟨[], by simp, rfl, rfl⟩
    · rintro ⟨digits, -, hs, rfl⟩
      rw [List.map_eq_nil_iff.1 hs.symm]
      rfl
  | cons c s ih =>
    intro n
    rw [digitsFrom?]
    split
    · rename_i d hd
      obtain ⟨hlt, rfl⟩ := digit?_eq_some_iff.1 hd
      rw [ih]
      constructor
      · rintro ⟨digits, hall, rfl, rfl⟩
        refine ⟨d :: digits, List.forall_mem_cons.2 ⟨hlt, hall⟩, rfl, ?_⟩
        rw [List.foldl_cons, Nat.mul_comm n, Nat.add_comm]
      · rintro ⟨digits, hall, hs, rfl⟩
        cases digits with
        | nil => cases hs
        | cons e digits =>
          obtain ⟨he, hall⟩ := List.forall_mem_cons.1 hall
          obtain ⟨hc, rfl⟩ := List.cons.inj hs
          have hde : e = d := by
            have hread := digit?_eq_some_iff.2 ⟨he, hc⟩
            rw [hd] at hread
            exact (Option.some.inj hread).symm
          refine ⟨digits, hall, rfl, ?_⟩
          rw [hde, List.foldl_cons, Nat.mul_comm n, Nat.add_comm]
    · rename_i hd
      refine iff_of_false (fun h => nomatch h) ?_
      rintro ⟨digits, hall, hs, -⟩
      cases digits with
      | nil => cases hs
      | cons e digits =>
        have he := (List.forall_mem_cons.1 hall).1
        rw [digit?_eq_some_iff.2 ⟨he, (List.cons.inj hs).1⟩] at hd
        cases hd

theorem digits?_eq_some_iff {m : Nat} : digits? 10 s = some m ↔
    ∃ digits : List Nat, digits ≠ [] ∧ (∀ d ∈ digits, d < 10) ∧ s = digits.map Nat.digitChar ∧
      m = Nat.ofDigits 10 digits.reverse := by
  have hvalue : ∀ digits : List Nat,
      Nat.ofDigits 10 digits.reverse = digits.foldl (fun v d => d + 10 * v) 0 := by
    intro digits
    rw [Nat.ofDigits_eq_foldr, List.foldr_reverse]
    rfl
  cases s with
  | nil =>
    refine iff_of_false (fun h => nomatch h) ?_
    rintro ⟨digits, hne, -, hs, -⟩
    exact hne (List.map_eq_nil_iff.1 hs.symm)
  | cons c s =>
    rw [digits?, digitsFrom?_eq_some_iff]
    · constructor
      · rintro ⟨digits, hall, hs, rfl⟩
        refine ⟨digits, ?_, hall, hs, (hvalue digits).symm⟩
        rintro rfl
        cases hs
      · rintro ⟨digits, -, hall, hs, rfl⟩
        exact ⟨digits, hall, hs, hvalue digits⟩
    · exact fun h => nomatch h

/-- Decimal digits of a number of at most 64 bits. -/
def Unsigned (n : Nat) (s : List Char) : Prop :=
  ∃ digits : List Nat, digits ≠ [] ∧ (∀ d ∈ digits, d < 10) ∧ s = digits.map Nat.digitChar ∧
    n = Nat.ofDigits 10 digits.reverse ∧ n < 2 ^ 64

/-- The same with a plus sign or without. -/
def Numeral (n : Nat) (s : List Char) : Prop :=
  Unsigned n s ∨ ∃ rest, s = '+' :: rest ∧ Unsigned n rest

theorem not_unsigned_plus {n : Nat} : ¬ Unsigned n ('+' :: s) := by
  rintro ⟨digits, -, hall, hs, -⟩
  cases digits with
  | nil => cases hs
  | cons d digits =>
    have hd : d < 10 := (List.forall_mem_cons.1 hall).1
    have hplus : ∀ d < 10, Nat.digitChar d ≠ '+' := by decide
    exact hplus d hd (List.cons.inj hs).1.symm

theorem word64?_eq_some_iff {n : Nat} : word64? s = some n ↔ Numeral n s := by
  have hunsigned : ∀ s : List Char,
      (digits? 10 s).filter (fun n => n ≤ 18446744073709551615) = some n ↔ Unsigned n s := by
    intro s
    rw [Option.filter_eq_some_iff, digits?_eq_some_iff, decide_eq_true_eq]
    constructor
    · rintro ⟨⟨digits, hne, hall, hs, hn⟩, hle⟩
      exact ⟨digits, hne, hall, hs, hn, by omega⟩
    · rintro ⟨digits, hne, hall, hs, hn, hlt⟩
      exact ⟨⟨digits, hne, hall, hs, hn⟩, by omega⟩
  unfold word64?
  split
  · rename_i rest
    rw [hunsigned, Numeral, or_iff_right not_unsigned_plus]
    constructor
    · exact fun h => ⟨rest, rfl, h⟩
    · rintro ⟨rest', hs, h⟩
      cases hs
      exact h
  · rename_i hsign
    rw [hunsigned, Numeral, or_iff_left]
    rintro ⟨rest, hs, -⟩
    exact hsign rest hs

theorem word64?_eq_none_iff : word64? s = none ↔ ∀ n, ¬ Numeral n s := by
  simp only [Option.eq_none_iff_forall_ne_some, ne_eq, word64?_eq_some_iff]

end Text

namespace Policy

/-- The text is the name of the policy, with blanks around it and letters in any case. -/
def Spells (p : Policy) (s : String) : Prop :=
  ∃ before word after, s.toList = before ++ word ++ after ∧
    (∀ c ∈ before, Text.isBlank c = true) ∧ (∀ c ∈ after, Text.isBlank c = true) ∧
    word.map Char.toLower = p.name.toList

theorem isBlank_name (p : Policy) : ∀ c ∈ p.name.toList, Text.isBlank c = false := by
  have hall : p.name.toList.all (fun c => !Text.isBlank c) = true := by
    cases p <;> decide
  simpa using hall

theorem Spells.lower_trim {p : Policy} {s : String} (h : p.Spells s) :
    Text.lower (Text.trim s.toList) = p.name.toList := by
  obtain ⟨before, word, after, hs, hb, ha, hw⟩ := h
  have hword : ∀ c ∈ word, Text.isBlank c = false := by
    intro c hc
    by_contra hblank
    rw [Bool.not_eq_false] at hblank
    have hmem : c.toLower ∈ p.name.toList := hw ▸ List.mem_map_of_mem hc
    rw [Text.toLower_of_isBlank hblank] at hmem
    exact nomatch hblank.symm.trans (p.isBlank_name c hmem)
  rw [hs, Text.trim_eq hb hword ha]
  exact hw

theorem named?_eq_some_iff {p : Policy} {s : String} : named? s = some p ↔ p.Spells s := by
  constructor
  · intro h
    obtain ⟨before, after, hs, hb, ha⟩ := Text.exists_trim s.toList
    refine ⟨before, _, after, hs, hb, ha, ?_⟩
    simp only [named?, ← String.toList_inj, String.toList_ofList] at h
    split at h
    · rename_i hw
      cases h
      exact hw
    · split at h
      · rename_i hw
        cases h
        exact hw
      · cases h
  · intro h
    have hw := h.lower_trim
    simp only [named?, hw]
    cases p <;> decide

theorem named?_eq_none_iff {s : String} : named? s = none ↔ ∀ p : Policy, ¬ p.Spells s := by
  simp only [Option.eq_none_iff_forall_ne_some, ne_eq, named?_eq_some_iff]

end Policy
end ThreadKernel
