import Mathlib.Data.Finset.Basic
import Mathlib.Data.Finset.Union

/-! # Linked lists in memory

A cell holds a value and a link. `IsChain` says that the cells from a link on are a given list, and
`Built` that a computation has made such a list of new cells and nothing else. -/
namespace SinglyLinked
open List
variable {A N : Type} [DecidableEq A] {cells : List (A × N)} {head : Option A}

/-- A memory: the cells that are allocated, and what is in the cells. -/
structure Memory (A N : Type) where
  live : Finset A
  cell : A → N × Option A

/-- Where a new cell is put. -/
structure Allocator (A : Type) where
  new : Finset A → A
  fresh : ∀ live, new live ∉ live

namespace Memory

def alloc (m : Memory A N) (a : A) : Memory A N := { m with live := insert a m.live }

def free (m : Memory A N) (a : A) : Memory A N := { m with live := m.live.erase a }

def write (m : Memory A N) (a : A) (c : N × Option A) : Memory A N :=
  { m with cell := fun x => if x = a then c else m.cell x }

def setNext (m : Memory A N) (a : A) (next : Option A) : Memory A N :=
  m.write a ((m.cell a).1, next)

theorem free_alloc {m : Memory A N} {a : A} (h : a ∉ m.live) : (m.alloc a).free a = m := by
  simp only [alloc, free, Finset.erase_insert h]

end Memory

/-- The cells from `head` on, with their values. -/
def IsChain (m : Memory A N) : Option A → List (A × N) → Prop
  | head, [] => head = none
  | head, (a, n) :: rest =>
    head = some a ∧ a ∈ m.live ∧ ∃ next, m.cell a = (n, next) ∧ IsChain m next rest

omit [DecidableEq A] in
theorem IsChain.congr {m m' : Memory A N} (h : IsChain m head cells)
    (hsame : ∀ a ∈ cells.map Prod.fst, a ∈ m'.live ∧ m'.cell a = m.cell a) :
    IsChain m' head cells := by
  induction cells generalizing head with
  | nil => exact h
  | cons c rest ih =>
    obtain ⟨a, n⟩ := c
    obtain ⟨hhead, -, next, hcell, hrest⟩ := h
    obtain ⟨hlive, hkept⟩ := hsame a mem_cons_self
    exact ⟨hhead, hlive, next, hkept.trans hcell,
      ih hrest fun b hb => hsame b (mem_cons_of_mem a hb)⟩

/-- From `before` to `after`, the list `cells` was made, and nothing else happened. -/
structure Built (before after : Memory A N) (head : Option A) (cells : List (A × N)) : Prop where
  chain : IsChain after head cells
  nodup : (cells.map Prod.fst).Nodup
  fresh : ∀ a ∈ cells.map Prod.fst, a ∉ before.live
  live : after.live = before.live ∪ (cells.map Prod.fst).toFinset
  kept : ∀ a ∈ before.live, after.cell a = before.cell a

namespace Built
variable {before after : Memory A N}

theorem nil (m : Memory A N) : Built m m none [] where
  chain := rfl
  nodup := nodup_nil
  fresh a ha := absurd ha not_mem_nil
  live := by simp
  kept _ _ := rfl

/-- **A cell in front**: it is allocated and filled before the rest of the list is built, and
linked to it afterwards. -/
theorem link {a : A} {n : N} {filled : N × Option A} (ha : a ∉ before.live) (hfilled : filled.1 = n)
    (h : Built ((before.alloc a).write a filled) after head cells) :
    Built before (after.setNext a head) (some a) ((a, n) :: cells) := by
  have hlive : a ∈ after.live := by
    rw [h.live]
    exact Finset.mem_union_left _ (Finset.mem_insert_self a _)
  have hnew : a ∉ cells.map Prod.fst := fun hmem => h.fresh a hmem (Finset.mem_insert_self a _)
  have hvalue : (after.cell a).1 = n := by
    rw [h.kept a (Finset.mem_insert_self a _)]
    simp [Memory.write, hfilled]
  -- Setting the link changes no other cell.
  have hother : ∀ b, b ≠ a → (after.setNext a head).cell b = after.cell b := fun b hb => if_neg hb
  refine ⟨⟨rfl, hlive, head, ?_, ?_⟩, nodup_cons.mpr ⟨hnew, h.nodup⟩, ?_, ?_, ?_⟩
  · rw [← hvalue]
    exact if_pos rfl
  · refine h.chain.congr fun b hb => ⟨?_, hother b fun heq => hnew (heq ▸ hb)⟩
    show b ∈ after.live
    rw [h.live]
    exact Finset.mem_union_right _ (mem_toFinset.mpr hb)
  · intro b hb
    rcases mem_cons.mp hb with rfl | hb
    · exact ha
    · exact fun hmem => h.fresh b hb (Finset.mem_insert_of_mem hmem)
  · show after.live = _
    rw [h.live, map_cons, toFinset_cons, Finset.union_insert, ← Finset.insert_union]
    rfl
  · intro b hb
    have hne : b ≠ a := fun heq => ha (heq ▸ hb)
    rw [hother b hne, h.kept b (Finset.mem_insert_of_mem hb)]
    exact if_neg hne

end Built

end SinglyLinked
