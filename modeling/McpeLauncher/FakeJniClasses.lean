import Mathlib
import McpeLauncher.ClassHierarchy

/-! # Classes of fake-jni

Every class has one parent; the parent of `JObject` is itself, and the loops that go up
from a class stop before it. -/
namespace FakeJni
open ClassHierarchy

/-- The descriptors; `object` is that of `JObject`, which every class derives from. -/
structure JClasses (K : Type) where
  object : K
  parent : K → K
  depth : K → Nat
  depth_lt : ∀ c, c ≠ object → depth (parent c) < depth c

namespace JClasses
variable {K β : Type} [DecidableEq K] (h : JClasses K) {c b : K}

/-- `while (clazz != jobjDescriptor) { …; clazz = clazz->parent.get(); }`, with a body that
may return something. -/
def walk (f : K → Option β) (c : K) : Option β :=
  if _hc : c = h.object then none
  else match f c with
    | some b => some b
    | none => walk f (h.parent c)
termination_by h.depth c
decreasing_by exact h.depth_lt c _hc

def toHierarchy : Hierarchy K where
  parents c := if c = h.object then [] else [h.parent c]
  depth := h.depth
  depth_lt := by
    intro c p hp
    split at hp
    · contradiction
    · next hc =>
      rw [List.mem_singleton.mp hp]
      exact h.depth_lt c hc

def Above (d b : K) : Prop := h.toHierarchy.Above d b

variable {h}

theorem parents_of_ne (hc : c ≠ h.object) : h.toHierarchy.parents c = [h.parent c] := if_neg hc

theorem above_parent (hc : c ≠ h.object) (hb : h.Above (h.parent c) b) : h.Above c b := by
  refine Hierarchy.Above.head ?_ hb
  rw [parents_of_ne hc]
  exact List.mem_singleton_self _

theorem above_iff (hc : c ≠ h.object) : h.Above c b ↔ b = c ∨ h.Above (h.parent c) b := by
  rw [Above, Hierarchy.above_iff, parents_of_ne hc]
  simp only [List.mem_singleton, exists_eq_left]
  rfl

theorem above_object_iff : h.Above h.object b ↔ b = h.object := by
  have hnone : h.toHierarchy.parents h.object = [] := if_pos rfl
  rw [Above, Hierarchy.above_iff, hnone]
  simp

variable (h)

theorem above_object (c : K) : h.Above c h.object := by
  induction c using h.toHierarchy.induct with
  | hstep c ih =>
    by_cases hc : c = h.object
    · rw [hc]
      exact .refl _
    · rw [parents_of_ne hc] at ih
      exact above_parent hc (ih _ (List.mem_singleton_self _))

variable {h} {f : K → Option β}

theorem walk_object : h.walk f h.object = none := by rw [walk, dif_pos rfl]

theorem walk_of_some {b : β} (hc : c ≠ h.object) (hb : f c = some b) : h.walk f c = some b := by
  rw [walk, dif_neg hc, hb]

theorem walk_of_none (hc : c ≠ h.object) (hb : f c = none) :
    h.walk f c = h.walk f (h.parent c) := by
  rw [walk, dif_neg hc, hb]

theorem walk_eq_none_iff : h.walk f c = none ↔ ∀ a, h.Above c a → a ≠ h.object → f a = none := by
  induction c using h.toHierarchy.induct with
  | hstep c ih =>
    by_cases hc : c = h.object
    · subst hc
      rw [walk_object]
      refine ⟨fun _ a ha hne => absurd (above_object_iff.mp ha) hne, fun _ => rfl⟩
    · rw [parents_of_ne hc] at ih
      have hparent := ih _ (List.mem_singleton_self _)
      rcases hfc : f c with _ | b
      · rw [walk_of_none hc hfc, hparent]
        constructor
        · intro hall a ha hne
          rcases (above_iff hc).mp ha with rfl | ha
          · exact hfc
          · exact hall a ha hne
        · intro hall a ha hne
          exact hall a (above_parent hc ha) hne
      · rw [walk_of_some hc hfc]
        constructor
        · intro hsome
          contradiction
        · intro hall
          rw [hall c (.refl c) hc] at hfc
          contradiction

end JClasses
end FakeJni
