import Mathlib.Logic.Relation
import Mathlib.Data.List.Basic

/-! # Acyclic hierarchies

Classes with their parents, in order, and a search upwards. Parents have less depth, which proofs go
by. -/
namespace ClassHierarchy

structure Hierarchy (K : Type) where
  parents : K → List K
  depth : K → Nat
  depth_lt : ∀ c, ∀ p ∈ parents c, depth p < depth c

namespace Hierarchy
variable {K β : Type} (h : Hierarchy K) {c : K}

/-- The class itself and its ancestors. -/
def Above : K → K → Prop := Relation.ReflTransGen fun c p => p ∈ h.parents c

variable {h}

theorem Above.refl (c : K) : h.Above c c := Relation.ReflTransGen.refl

theorem Above.head {p a : K} (hp : p ∈ h.parents c) (ha : h.Above p a) : h.Above c a :=
  Relation.ReflTransGen.head hp ha

theorem above_iff {a : K} : h.Above c a ↔ a = c ∨ ∃ p ∈ h.parents c, h.Above p a := by
  constructor
  · intro ha
    rcases Relation.ReflTransGen.cases_head ha with rfl | ⟨p, hp, ha⟩
    · exact .inl rfl
    · exact .inr ⟨p, hp, ha⟩
  · rintro (rfl | ⟨p, hp, ha⟩)
    · exact .refl _
    · exact .head hp ha

variable (h)

theorem induct {motive : K → Prop} (hstep : ∀ c, (∀ p ∈ h.parents c, motive p) → motive c)
    (c : K) : motive c := by
  induction hd : h.depth c using Nat.strongRecOn generalizing c with
  | ind d ih =>
    apply hstep
    intro p hp
    exact ih (h.depth p) (hd ▸ h.depth_lt c p hp) p rfl

/-- What the class has, or the first of its parents that finds something. -/
def search (f : K → Option β) (c : K) : Option β :=
  match f c with
  | some b => some b
  | none => (h.parents c).attach.findSome? fun p => search f p.1
termination_by h.depth c
decreasing_by exact h.depth_lt c p.1 p.2

variable {h} {f : K → Option β}

theorem search_of_some {b : β} (hc : f c = some b) : h.search f c = some b := by rw [search, hc]

theorem search_of_none (hc : f c = none) : h.search f c = (h.parents c).findSome? (h.search f) := by
  rw [search, hc]
  simp

theorem above_of_search {b : β} (hs : h.search f c = some b) : ∃ a, h.Above c a ∧ f a = some b := by
  induction c using h.induct with
  | hstep c ih =>
    rcases hc : f c with _ | b'
    · rw [search_of_none hc] at hs
      obtain ⟨p, hp, hfound⟩ := List.exists_of_findSome?_eq_some hs
      obtain ⟨a, ha, hb⟩ := ih p hp hfound
      exact ⟨a, .head hp ha, hb⟩
    · rw [search_of_some hc] at hs
      exact ⟨c, .refl c, hc.trans hs⟩

end Hierarchy
end ClassHierarchy
