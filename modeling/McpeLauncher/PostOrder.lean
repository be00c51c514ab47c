import Mathlib.Data.List.Basic
import Mathlib.Data.List.Nodup
import Mathlib.Logic.Relation

/-! # Visiting in depth

A traversal of the graph `deps`: a vertex is taken out of `todo`, its successors are visited, and
then it is done. In `Visited deps xs todo order todo'` it starts from `xs`. -/
namespace PostOrder
open List Relation
variable {α : Type} {done : List α} {deps : α → List α}

inductive Visited [DecidableEq α] (deps : α → List α) :
    List α → List α → List α → List α → Prop
  | nil {todo : List α} : Visited deps [] todo [] todo
  | skip {x : α} {xs todo order todo' : List α} : x ∉ todo → Visited deps xs todo order todo' →
      Visited deps (x :: xs) todo order todo'
  | visit {x : α} {xs todo order₁ todo₁ order₂ todo₂ : List α} : x ∈ todo →
      Visited deps (deps x) (todo.erase x) order₁ todo₁ →
      Visited deps xs todo₁ order₂ todo₂ →
      Visited deps (x :: xs) todo (order₁ ++ x :: order₂) todo₂

section Once
variable [DecidableEq α] {deps : α → List α} {xs todo todo' order : List α}

theorem Visited.perm (h : Visited deps xs todo order todo') : todo.Perm (order ++ todo') := by
  induction h with
  | nil => exact List.Perm.refl _
  | skip _ _ ih => exact ih
  | @visit x xs todo order₁ todo₁ order₂ todo₂ hx _ _ ih₁ ih₂ =>
    have hrest : (todo.erase x).Perm (order₁ ++ (order₂ ++ todo₂)) :=
      ih₁.trans (ih₂.append_left order₁)
    refine (perm_cons_erase hx).trans ((hrest.cons x).trans ?_)
    rw [append_assoc, cons_append]
    exact perm_middle.symm

theorem Visited.subset (h : Visited deps xs todo order todo') : todo' ⊆ todo :=
  fun _ hx => h.perm.mem_iff.mpr (mem_append_right _ hx)

/-- What was to do when `x` was begun is `x`, or done since, or still to do. -/
theorem Visited.mem_cases {x y : α} (h : Visited deps xs (todo.erase x) order todo')
    (hy : y ∈ todo) : y = x ∨ y ∈ order ∨ y ∈ todo' := by
  by_cases hyx : y = x
  · exact .inl hyx
  · have hleft := h.perm.mem_iff.mp ((mem_erase_of_ne hyx).mpr hy)
    exact .inr (mem_append.mp hleft)

theorem Visited.length_le (h : Visited deps xs todo order todo') : todo'.length ≤ todo.length := by
  rw [h.perm.length_eq, length_append]
  exact Nat.le_add_left _ _

theorem Visited.nodup_rest (h : Visited deps xs todo order todo') (hnodup : todo.Nodup) :
    todo'.Nodup :=
  (nodup_append.mp (h.perm.nodup_iff.mp hnodup)).2.1

theorem Visited.not_mem (h : Visited deps xs todo order todo') (hnodup : todo.Nodup) :
    ∀ x ∈ xs, x ∉ todo' := by
  induction h with
  | nil => exact nofun
  | skip hx hrest ih =>
    intro y hy
    rcases mem_cons.mp hy with rfl | hy
    · exact fun hy' => hx (hrest.subset hy')
    · exact ih hnodup y hy
  | visit hx hinner hrest ih₁ ih₂ =>
    have hnodup₁ := hinner.nodup_rest (hnodup.erase _)
    intro y hy
    rcases mem_cons.mp hy with rfl | hy
    · exact fun hy' => hnodup.not_mem_erase (hinner.subset (hrest.subset hy'))
    · exact ih₂ hnodup₁ y hy

end Once

/-- The edges between vertices of `D`. -/
def Edge (deps : α → List α) (D : List α) (x y : α) : Prop := x ∈ D ∧ y ∈ D ∧ y ∈ deps x

def DepsFirst (deps : α → List α) (D order : List α) : Prop :=
  ∀ before x after, order = before ++ x :: after → ∀ y ∈ deps x, y ∈ D → y ∈ before

theorem DepsFirst.concat {D : List α} (h : DepsFirst deps D done) {x : α}
    (hx : ∀ y ∈ deps x, y ∈ D → y ∈ done) : DepsFirst deps D (done ++ [x]) := by
  intro before z after heq y hy hD
  rcases eq_nil_or_concat' after with rfl | ⟨after', w, rfl⟩
  · obtain ⟨rfl, hz⟩ := append_inj' heq rfl
    obtain rfl : x = z := head_eq_of_cons_eq hz
    exact hx y hy hD
  · rw [← cons_append, ← append_assoc] at heq
    obtain ⟨hdone, _⟩ := append_inj' heq rfl
    exact h before z after' hdone y hy hD

/-- **Successors come first** where there are no cycles. The vertices in `S` are begun and not done,
and lead to those visited here. -/
theorem Visited.depsFirst [DecidableEq α] {xs todo todo' order : List α} {D S : List α}
    (hacyclic : ∀ x, ¬ TransGen (Edge deps D) x x) (h : Visited deps xs todo order todo')
    (hnodup : todo.Nodup) (hdone : DepsFirst deps D done)
    (hall : ∀ y ∈ D, y ∈ done ∨ y ∈ todo ∨ y ∈ S) (htodo : todo ⊆ D)
    (hstack : ∀ s ∈ S, ∀ x ∈ xs, x ∈ D → TransGen (Edge deps D) s x) :
    DepsFirst deps D (done ++ order) := by
  induction h generalizing done S with
  | nil =>
    rw [append_nil]
    exact hdone
  | skip hx hrest ih =>
    exact ih hnodup hdone hall htodo fun s hs x hx => hstack s hs x (mem_cons_of_mem _ hx)
  | @visit x xs todo order₁ todo₁ order₂ todo₂ hx hinner hrest ih₁ ih₂ =>
    have hxD := htodo hx
    have hnodup₁ := hinner.nodup_rest (hnodup.erase x)
    -- the successors of `x`, below `x`
    have hinner_first : DepsFirst deps D (done ++ order₁) := by
      refine ih₁ (hnodup.erase x) hdone (S := x :: S) (fun y hy => ?_)
        (fun y hy => htodo (mem_of_mem_erase hy)) (fun s hs y hy hyD => ?_)
      · rcases hall y hy with hy | hy | hy
        · exact .inl hy
        · by_cases hyx : y = x
          · exact .inr (.inr (by simp [hyx]))
          · exact .inr (.inl ((mem_erase_of_ne hyx).mpr hy))
        · exact .inr (.inr (mem_cons_of_mem _ hy))
      · have hedge : Edge deps D x y := ⟨hxD, hyD, hy⟩
        rcases mem_cons.mp hs with rfl | hs
        · exact TransGen.single hedge
        · exact (hstack s hs x mem_cons_self hxD).tail hedge
    have hx_first : DepsFirst deps D (done ++ order₁ ++ [x]) := by
      refine hinner_first.concat fun y hy hyD => ?_
      have hedge : Edge deps D x y := ⟨hxD, hyD, hy⟩
      rcases hall y hyD with hy' | hy' | hy'
      · exact mem_append_left _ hy'
      · rcases hinner.mem_cases hy' with hyx | hy' | hy'
        · exact absurd (TransGen.single (hyx ▸ hedge)) (hacyclic x)
        · exact mem_append_right _ hy'
        · exact absurd hy' (hinner.not_mem (hnodup.erase x) y hy)
      · exact absurd ((hstack y hy' x mem_cons_self hxD).tail hedge) (hacyclic y)
    have hrest_first := ih₂ hnodup₁ hx_first (S := S) (fun y hy => ?_)
      (fun y hy => htodo (mem_of_mem_erase (hinner.subset hy)))
      (fun s hs y hy => hstack s hs y (mem_cons_of_mem _ hy))
    · rw [append_assoc, append_assoc] at hrest_first
      exact hrest_first
    · rcases hall y hy with hy | hy | hy
      · exact .inl (by simp [hy])
      · rcases hinner.mem_cases hy with hyx | hy | hy
        · exact .inl (by simp [hyx])
        · exact .inl (by simp [hy])
        · exact .inr (.inl hy)
      · exact .inr (.inr hy)

/-! ## Until nothing is left -/

/-- The first vertex to do is visited until there is none. -/
inductive Drained [DecidableEq α] (deps : α → List α) : List α → List α → Prop
  | nil : Drained deps [] []
  | cons {x : α} {todo order₁ todo₁ order₂ : List α} :
      Visited deps [x] (x :: todo) order₁ todo₁ → Drained deps todo₁ order₂ →
      Drained deps (x :: todo) (order₁ ++ order₂)

section Drained
variable [DecidableEq α] {deps : α → List α} {todo order : List α}

theorem Drained.perm (h : Drained deps todo order) : todo.Perm order := by
  induction h with
  | nil => exact List.Perm.refl _
  | @cons x todo order₁ todo₁ order₂ hvisit _ ih => exact hvisit.perm.trans (ih.append_left order₁)

theorem Drained.depsFirst_append {D : List α}
    (hacyclic : ∀ x, ¬ TransGen (Edge deps D) x x) (h : Drained deps todo order)
    (hnodup : todo.Nodup) (hdone : DepsFirst deps D done) (hall : ∀ y ∈ D, y ∈ done ∨ y ∈ todo)
    (htodo : todo ⊆ D) : DepsFirst deps D (done ++ order) := by
  induction h generalizing done with
  | nil =>
    rw [append_nil]
    exact hdone
  | @cons x todo order₁ todo₁ order₂ hvisit _ ih =>
    have hfirst : DepsFirst deps D (done ++ order₁) :=
      hvisit.depsFirst hacyclic hnodup hdone (S := [])
        (fun y hy => (hall y hy).imp_right .inl) htodo
        (nofun)
    rw [← append_assoc]
    refine ih (hvisit.nodup_rest hnodup) hfirst (fun y hy => ?_)
      (fun y hy => htodo (hvisit.subset hy))
    rcases hall y hy with hy | hy
    · exact .inl (mem_append_left _ hy)
    · rcases mem_append.mp (hvisit.perm.mem_iff.mp hy) with hy | hy
      · exact .inl (mem_append_right _ hy)
      · exact .inr hy

theorem Drained.depsFirst (hacyclic : ∀ x, ¬ TransGen (Edge deps todo) x x)
    (h : Drained deps todo order) (hnodup : todo.Nodup) : DepsFirst deps todo order := by
  have hnone : DepsFirst deps todo [] := by
    intro before x after heq
    exact absurd heq.symm (by simp)
  have := h.depsFirst_append hacyclic hnodup hnone (fun y hy => .inr hy) (List.Subset.refl _)
  rwa [nil_append] at this

end Drained

end PostOrder
