import Mathlib

/-! # Tables of ids

A table gives ids to keys. It is `Sound` if no key and no id is there twice. `leastFree` finds the
least number not in use, and `FilledBelow` is what a mark keeps up to find it. -/
namespace IdTable
open List
variable {K : Type}

abbrev ids (t : List (K × Nat)) : List Nat := t.map Prod.snd

abbrev keys (t : List (K × Nat)) : List K := t.map Prod.fst

def without [DecidableEq K] (t : List (K × Nat)) (k : K) : List (K × Nat) :=
  t.filter fun e => e.1 ≠ k

theorem without_of_notMem [DecidableEq K] {t : List (K × Nat)} {k : K} (h : k ∉ keys t) :
    without t k = t := by
  apply filter_eq_self.mpr
  rintro e he
  simp only [decide_eq_true_eq]
  rintro rfl
  exact h (mem_map_of_mem he)

structure Sound (t : List (K × Nat)) : Prop where
  keys_nodup : (keys t).Nodup
  ids_nodup : (ids t).Nodup

namespace Sound

theorem nil : Sound ([] : List (K × Nat)) := ⟨nodup_nil, nodup_nil⟩

theorem cons {t : List (K × Nat)} (ht : Sound t) {k : K} {i : Nat} (hk : k ∉ keys t)
    (hi : i ∉ ids t) : Sound ((k, i) :: t) :=
  ⟨nodup_cons.mpr ⟨hk, ht.keys_nodup⟩, nodup_cons.mpr ⟨hi, ht.ids_nodup⟩⟩

variable [DecidableEq K] {t : List (K × Nat)}

theorem without (ht : Sound t) (k : K) : Sound (without t k) where
  keys_nodup := ht.keys_nodup.sublist (filter_sublist.map _)
  ids_nodup := ht.ids_nodup.sublist (filter_sublist.map _)

section
variable (ht : Sound t) {k : K} {i : Nat} (hki : (k, i) ∈ t)
include ht hki

theorem mem_ids_without (j : Nat) : j ∈ ids (IdTable.without t k) ↔ j ∈ ids t ∧ j ≠ i := by
  constructor
  · intro hj
    obtain ⟨⟨k', j'⟩, hmem, rfl⟩ := mem_map.mp hj
    obtain ⟨hmem, hne⟩ := mem_filter.mp hmem
    refine ⟨mem_map_of_mem hmem, ?_⟩
    rintro rfl
    have := inj_on_of_nodup_map ht.ids_nodup hmem hki rfl
    simp_all
  · rintro ⟨hj, hne⟩
    obtain ⟨⟨k', j'⟩, hmem, rfl⟩ := mem_map.mp hj
    refine mem_map_of_mem (mem_filter.mpr ⟨hmem, ?_⟩)
    simp only [decide_eq_true_eq]
    rintro rfl
    have := inj_on_of_nodup_map ht.keys_nodup hmem hki rfl
    simp_all

theorem toFinset_ids_without : (ids (IdTable.without t k)).toFinset = (ids t).toFinset.erase i := by
  ext j
  rw [mem_toFinset, ht.mem_ids_without hki, Finset.mem_erase, mem_toFinset, and_comm]

theorem filter_ne_eq_without : t.filter (· ≠ (k, i)) = IdTable.without t k := by
  apply filter_congr
  rintro ⟨k', i'⟩ hmem
  rw [decide_eq_decide, not_iff_not]
  constructor
  · rintro heq
    exact congrArg Prod.fst heq
  · rintro rfl
    exact inj_on_of_nodup_map ht.keys_nodup hmem hki rfl

end

end Sound

section Lookup
variable [DecidableEq K] {t : List (K × Nat)} {k : K}

theorem mem_of_lookup {i : Nat} (h : t.lookup k = some i) : (k, i) ∈ t := by
  obtain ⟨before, after, rfl, _⟩ := lookup_eq_some_iff.mp h
  simp

theorem lookup_eq_none : t.lookup k = none ↔ k ∉ keys t := by
  rw [lookup_eq_none_iff]
  constructor
  · intro h hk
    obtain ⟨e, he, rfl⟩ := mem_map.mp hk
    simpa using h e he
  · intro hk e he
    rw [bne_iff_ne]
    rintro rfl
    exact hk (mem_map_of_mem he)

end Lookup

/-! ## The least id not in use -/

/-- Counts up from `i` to the first number that is not in use, over at most so many that
are. -/
def searchFrom (used : List Nat) : (fuel i : Nat) → Nat
  | 0, i => i
  | fuel + 1, i => if i ∈ used then searchFrom used fuel (i + 1) else i

/-- No more numbers are in use than the list is long. -/
def leastFree (used : List Nat) : Nat := searchFrom used used.length 0

def FilledBelow (mark : Nat) (used : List Nat) : Prop := ∀ i < mark, i ∈ used

theorem FilledBelow.zero (used : List Nat) : FilledBelow 0 used :=
  fun i hi => absurd hi (Nat.not_lt_zero i)

section
variable {mark : Nat} {used : List Nat} (h : FilledBelow mark used)
include h

theorem FilledBelow.le_length : mark ≤ used.length := by
  have hsub : range mark ⊆ used := fun i hi => h i (mem_range.mp hi)
  simpa using (nodup_range.subperm hsub).length_le

theorem FilledBelow.succ (hmark : mark ∈ used) : FilledBelow (mark + 1) used := by
  intro i hi
  rcases Nat.lt_succ_iff_lt_or_eq.mp hi with hlt | rfl
  · exact h i hlt
  · exact hmark

/-- A mark that is not in use itself is the least such number. -/
theorem FilledBelow.isLeast (hmark : mark ∉ used) : IsLeast {i | i ∉ used} mark := by
  refine ⟨hmark, ?_⟩
  intro i hi
  by_contra hlt
  exact hi (h i (by omega))

end

theorem searchFrom_isLeast {used : List Nat} {fuel i : Nat} (hfilled : FilledBelow i used)
    (hfuel : used.length ≤ fuel + i) : IsLeast {i | i ∉ used} (searchFrom used fuel i) := by
  induction fuel generalizing i with
  | zero =>
    apply hfilled.isLeast
    intro hi
    have := (hfilled.succ hi).le_length
    omega
  | succ fuel ih =>
    rw [searchFrom]
    by_cases hi : i ∈ used
    · rw [if_pos hi]
      exact ih (hfilled.succ hi) (by omega)
    · rw [if_neg hi]
      exact hfilled.isLeast hi

theorem leastFree_isLeast (used : List Nat) : IsLeast {i | i ∉ used} (leastFree used) :=
  searchFrom_isLeast (FilledBelow.zero used) (le_rfl)

end IdTable
