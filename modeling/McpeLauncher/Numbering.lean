import Mathlib.Data.List.Nodup
import Mathlib.Data.List.Range
import Mathlib.Logic.Function.Basic

/-! # Numbering

The loop that gives the next number to each element of a class, as the assignments it makes:
consecutive (`map_fst_number`, `map_snd_number`) and distinct (`number_inj`). `assign` writes them
into a table. -/
namespace Numbering
open List Function
variable {α β : Type} {is : List α} {next : Nat} {i : α} {present : α → Bool}

/-- `if (present(i)) table[i] = next++`, for each `i` of the list. -/
def number (present : α → Bool) : List α → Nat → List (α × Nat)
  | [], _ => []
  | i :: is, next =>
    if present i then (i, next) :: number present is (next + 1) else number present is next

theorem map_fst_number (present : α → Bool) (is : List α) (next : Nat) :
    (number present is next).map Prod.fst = is.filter present := by
  induction is generalizing next with
  | nil => rfl
  | cons i is ih =>
    by_cases hi : present i = true
    · rw [number, if_pos hi, map_cons, ih, filter_cons_of_pos hi]
    · rw [number, if_neg hi, ih, filter_cons_of_neg hi]

theorem map_snd_number (present : α → Bool) (is : List α) (next : Nat) :
    (number present is next).map Prod.snd = range' next (is.filter present).length := by
  induction is generalizing next with
  | nil => rfl
  | cons i is ih =>
    by_cases hi : present i = true
    · rw [number, if_pos hi, map_cons, ih, filter_cons_of_pos hi]
      rfl
    · rw [number, if_neg hi, ih, filter_cons_of_neg hi]

theorem length_number (present : α → Bool) (is : List α) (next : Nat) :
    (number present is next).length = (is.filter present).length := by
  rw [← map_fst_number present is next, length_map]

theorem number_inj {j : α} {n : Nat} (hi : (i, n) ∈ number present is next)
    (hj : (j, n) ∈ number present is next) : i = j := by
  have hnodup : ((number present is next).map Prod.snd).Nodup := by
    rw [map_snd_number]
    exact nodup_range'
  have := inj_on_of_nodup_map hnodup hi hj rfl
  exact congrArg Prod.fst this

theorem number_lt {w : α × Nat} (h : w ∈ number present is next) :
    next ≤ w.2 ∧ w.2 < next + (is.filter present).length := by
  have hmem : w.2 ∈ (number present is next).map Prod.snd := mem_map_of_mem h
  rw [map_snd_number, mem_range'_1] at hmem
  exact hmem

section Assign
variable [DecidableEq α] {writes : List (α × β)}

theorem mem_of_lookup {v : β} (h : writes.lookup i = some v) : (i, v) ∈ writes := by
  obtain ⟨before, after, rfl, -⟩ := lookup_eq_some_iff.mp h
  simp

theorem lookup_number (present : α → Bool) (next : Nat) (hi : i ∈ is)
    (hpresent : present i = true) :
    ∃ n, (number present is next).lookup i = some n := by
  have hmem : i ∈ (number present is next).map Prod.fst := by
    rw [map_fst_number]
    exact mem_filter.mpr ⟨hi, hpresent⟩
  rcases hlookup : (number present is next).lookup i with _ | n
  · obtain ⟨w, hw, rfl⟩ := mem_map.mp hmem
    have := lookup_eq_none_iff.mp hlookup w hw
    simp at this
  · exact ⟨n, rfl⟩

def assign (table : α → β) (writes : List (α × β)) : α → β :=
  writes.foldl (fun t w => Function.update t w.1 w.2) table

theorem assign_of_not_mem (table : α → β) (hi : i ∉ writes.map Prod.fst) :
    assign table writes i = table i := by
  induction writes generalizing table with
  | nil => rfl
  | cons w writes ih =>
    rw [map_cons, mem_cons, not_or] at hi
    show assign (update table w.1 w.2) writes i = _
    rw [ih _ hi.2, update_of_ne hi.1]

theorem assign_cases (table : α → β) (writes : List (α × β)) (i : α) :
    assign table writes i = table i ∨ (i, assign table writes i) ∈ writes := by
  induction writes generalizing table with
  | nil => exact .inl rfl
  | cons w writes ih =>
    rcases ih (update table w.1 w.2) with hsame | hmem
    · have hcons : assign table (w :: writes) i = update table w.1 w.2 i := hsame
      by_cases hi : i = w.1
      · refine .inr ?_
        rw [hcons, hi, update_self]
        exact mem_cons_self
      · rw [hcons, update_of_ne hi]
        exact .inl rfl
    · exact .inr (mem_cons_of_mem _ hmem)

theorem map_assign (table : α → β) (h : (writes.map Prod.fst).Nodup) :
    (writes.map Prod.fst).map (assign table writes) = writes.map Prod.snd := by
  induction writes generalizing table with
  | nil => rfl
  | cons w writes ih =>
    obtain ⟨hw, hrest⟩ := nodup_cons.mp h
    show assign (update table w.1 w.2) writes w.1 :: _ = _
    rw [assign_of_not_mem _ hw, update_self]
    exact congrArg (w.2 :: ·) (ih (update table w.1 w.2) hrest)

end Assign

end Numbering
