import Mathlib.Data.List.Basic
import Mathlib.Data.List.Nodup

/-! # Free lists in an index array

A list of free slots threaded through an array: the entry 0 holds the first slot, that of a slot the
next one, and 0 ends it. Slots are taken from the front and given back at the end. -/
namespace ThreadedFreeList
open List

/-- From the entry `a` the links lead through `free` and end. -/
def Linked (next : List Nat) : Nat → List Nat → Prop
  | a, [] => next[a]? = some 0
  | a, f :: free => next[a]? = some f ∧ Linked next f free

/-- The list that starts at the entry 0, and its last entry. -/
structure Chain (next : List Nat) (last : Nat) (free : List Nat) : Prop where
  linked : Linked next 0 free
  nodup : (0 :: free).Nodup
  last_eq : last = (0 :: free).getLast (List.cons_ne_nil 0 free)

variable {next : List Nat} {a x last : Nat} {free more : List Nat}

/-- An entry that the links do not lead through may change. -/
theorem Linked.set (h : Linked next a free) (hx : x ∉ a :: free) (v : Nat) :
    Linked (next.set x v) a free := by
  induction free generalizing a with
  | nil =>
    have hne : x ≠ a := fun hxa => hx (hxa ▸ mem_cons_self)
    show (next.set x v)[a]? = some 0
    rw [getElem?_set_ne hne]
    exact h
  | cons f free ih =>
    have hne : x ≠ a := fun hxa => hx (hxa ▸ mem_cons_self)
    refine ⟨?_, ih h.2 fun hmem => hx (mem_cons_of_mem _ hmem)⟩
    rw [getElem?_set_ne hne]
    exact h.1

theorem Linked.append (h : Linked next a free) (entries : List Nat) :
    Linked (next ++ entries) a free := by
  have hget : ∀ {i v : Nat}, next[i]? = some v → (next ++ entries)[i]? = some v := by
    intro i v hi
    rw [getElem?_append_left (List.getElem?_eq_some_iff.mp hi).1]
    exact hi
  induction free generalizing a with
  | nil => exact hget h
  | cons f free ih => exact ⟨hget h.1, ih h.2⟩

theorem Linked.lt (h : Linked next a free) : ∀ f ∈ a :: free, f < next.length := by
  induction free generalizing a with
  | nil =>
    intro f hf
    rw [mem_singleton.mp hf]
    exact (List.getElem?_eq_some_iff.mp h).1
  | cons g free ih =>
    intro f hf
    rcases mem_cons.mp hf with rfl | hf
    · exact (List.getElem?_eq_some_iff.mp h.1).1
    · exact ih h.2 f hf

theorem Linked.join (h : Linked next a free) (hx : Linked next x more)
    (hnodup : ((a :: free) ++ (x :: more)).Nodup) :
    Linked (next.set ((a :: free).getLast (cons_ne_nil a free)) x) a (free ++ x :: more) := by
  induction free generalizing a with
  | nil =>
    have ha : a ∉ x :: more := (nodup_cons.mp hnodup).1
    refine ⟨?_, hx.set ha x⟩
    rw [getLast_singleton, getElem?_set_self]
    exact (List.getElem?_eq_some_iff.mp h).1
  | cons f free ih =>
    obtain ⟨ha, hrest⟩ := nodup_cons.mp hnodup
    have hlast : (f :: free).getLast (cons_ne_nil f free) ≠ a := by
      intro hlast
      exact ha (mem_append_left _ (hlast ▸ getLast_mem _))
    rw [getLast_cons (cons_ne_nil f free)]
    refine ⟨?_, ih h.2 hrest⟩
    rw [getElem?_set_ne hlast]
    exact h.1

theorem Chain.give (h : Chain next last free) (hx : Linked next x more)
    (hnodup : ((0 :: free) ++ (x :: more)).Nodup) :
    Chain (next.set last x) ((x :: more).getLast (cons_ne_nil x more))
      (free ++ x :: more) where
  linked := by
    rw [h.last_eq]
    exact h.linked.join hx hnodup
  nodup := hnodup
  last_eq := (getLast_append_right (l := 0 :: free) (cons_ne_nil x more)).symm

theorem Chain.take {f : Nat} (h : Chain next last (f :: free)) :
    ∃ v, next[f]? = some v ∧
      Chain ((next.set 0 v).set f 0) (if v = 0 then 0 else last) free := by
  obtain ⟨h0, hnodup⟩ := nodup_cons.mp h.nodup
  obtain ⟨hf, hfree⟩ := nodup_cons.mp hnodup
  have hf0 : f ≠ 0 := fun hf0 => h0 (hf0 ▸ mem_cons_self)
  have h0free : 0 ∉ free := fun hmem => h0 (mem_cons_of_mem _ hmem)
  have hlen : 0 < next.length := (List.getElem?_eq_some_iff.mp h.linked.1).1
  rcases free with _ | ⟨g, free⟩
  · refine ⟨0, h.linked.2, ?_, nodup_singleton 0, rfl⟩
    show ((next.set 0 0).set f 0)[0]? = some 0
    rw [getElem?_set_ne hf0, getElem?_set_self hlen]
  · have hg : g ≠ 0 := fun hg => h0free (hg ▸ mem_cons_self)
    refine ⟨g, h.linked.2.1, ⟨?_, ?_⟩, nodup_cons.mpr ⟨h0free, hfree⟩, ?_⟩
    · rw [getElem?_set_ne hf0, getElem?_set_self hlen]
    · exact (h.linked.2.2.set h0free g).set hf 0
    · rw [if_neg hg, h.last_eq, getLast_cons (cons_ne_nil f _),
        getLast_cons (cons_ne_nil g _), getLast_cons (cons_ne_nil g _)]

theorem Chain.head_eq_zero_iff (h : Chain next last free) : next[0]? = some 0 ↔ free = [] := by
  constructor
  · intro hzero
    rcases free with _ | ⟨f, free⟩
    · rfl
    · have hf : f = 0 := Option.some.inj (h.linked.1.symm.trans hzero)
      exact absurd (hf ▸ mem_cons_self) (nodup_cons.mp h.nodup).1
  · rintro rfl
    exact h.linked

theorem Linked.of_getElem? {n count : Nat}
    (h : ∀ i < count, next[n + i]? = some (n + i + 1)) (hend : next[n + count]? = some 0) :
    Linked next n (range' (n + 1) count) := by
  induction count generalizing n with
  | zero => exact hend
  | succ count ih =>
    refine ⟨h 0 (Nat.succ_pos _), ih ?_ ?_⟩
    · intro i hi
      have := h (i + 1) (Nat.succ_lt_succ hi)
      rwa [show n + (i + 1) = n + 1 + i by omega] at this
    · rwa [show n + (count + 1) = n + 1 + count by omega] at hend

end ThreadedFreeList
