import Mathlib.Data.List.Basic
import Mathlib.Data.List.Count
import Mathlib.Tactic

/-! # Stacks of frames

Frames of entries, the top one first. A stack `c` covers a stack `a` if, from every frame outward,
it has at least as many entries of each kind. -/
namespace FrameStack
open List
variable {α : Type} [DecidableEq α] {frames : List (List α)} {frame : List α} {k : Nat} {x : α}

def eraseTop (x : α) : List (List α) → List (List α)
  | [] => []
  | frame :: frames => if x ∈ frame then frame.erase x :: frames else frame :: eraseTop x frames

/-- Takes an entry of the frame `k` out. -/
def eraseAt (x : α) (k : Nat) (frames : List (List α)) : List (List α) :=
  frames.modify k fun frame => frame.erase x

def push (x : α) : List (List α) → List (List α)
  | [] => []
  | frame :: frames => (frame ++ [x]) :: frames

/-- The top frame is dropped; an empty one takes the place of the last. -/
def pop (frames : List (List α)) : List (List α) :=
  match frames.tail with
  | [] => [[]]
  | rest => rest

/-- The number of entries from the frame `j` outward. -/
def outward (x : α) (j : Nat) (frames : List (List α)) : Nat := (frames.drop j).flatten.count x

structure Covers (c a : List (List α)) : Prop where
  length : a.length = c.length
  outward_le : ∀ x j, outward x j a ≤ outward x j c

theorem outward_succ (x : α) (j : Nat) (frame : List α) (frames : List (List α)) :
    outward x (j + 1) (frame :: frames) = outward x j frames := rfl

theorem outward_zero (x : α) (frame : List α) (frames : List (List α)) :
    outward x 0 (frame :: frames) = frame.count x + outward x 0 frames := by
  simp only [outward, drop_zero, flatten_cons, count_append]

theorem outward_le_zero (x : α) (j : Nat) (frames : List (List α)) :
    outward x j frames ≤ outward x 0 frames := by
  induction frames generalizing j with
  | nil => simp [outward]
  | cons frame frames ih =>
    cases j with
    | zero => exact le_rfl
    | succ j =>
      rw [outward_succ, outward_zero]
      exact (ih j).trans (Nat.le_add_left _ _)

theorem mem_flatten_iff :
    x ∈ frames.flatten ↔ 0 < outward x 0 frames := count_pos_iff.symm

theorem length_eraseTop (x : α) (frames : List (List α)) :
    (eraseTop x frames).length = frames.length := by
  induction frames with
  | nil => rfl
  | cons frame frames ih =>
    rw [eraseTop]
    split
    · rfl
    · rw [length_cons, ih, length_cons]

theorem outward_eraseTop_of_ne {y : α} (hxy : y ≠ x) (j : Nat) (frames : List (List α)) :
    outward y j (eraseTop x frames) = outward y j frames := by
  induction frames generalizing j with
  | nil => rfl
  | cons frame frames ih =>
    rw [eraseTop]
    split
    · cases j with
      | zero => rw [outward_zero, outward_zero, count_erase_of_ne hxy]
      | succ j => rfl
    · cases j with
      | zero => rw [outward_zero, outward_zero, ih]
      | succ j => exact ih j

/-- The topmost entry is missed only where all entries are. -/
theorem le_outward_eraseTop (x : α) (j : Nat) (frames : List (List α)) :
    min (outward x j frames) (outward x 0 frames - 1) ≤ outward x j (eraseTop x frames) := by
  induction frames generalizing j with
  | nil => simp [outward]
  | cons frame frames ih =>
    rw [eraseTop]
    split
    · next hx =>
      cases j with
      | zero =>
        rw [outward_zero, outward_zero, count_erase_self]
        omega
      | succ j => exact min_le_left _ _
    · next hx =>
      have hzero : frame.count x = 0 := count_eq_zero.mpr hx
      cases j with
      | zero =>
        have h0 := ih 0
        rw [outward_zero, outward_zero]
        omega
      | succ j =>
        have hj := ih j
        rw [outward_succ, outward_succ, outward_zero]
        omega

theorem outward_eraseAt_le (x y : α) (k j : Nat) (frames : List (List α)) :
    outward y j (eraseAt x k frames) ≤ outward y j frames := by
  induction frames generalizing k j with
  | nil => simp [eraseAt]
  | cons frame frames ih =>
    cases k with
    | zero =>
      show outward y j (frame.erase x :: frames) ≤ _
      cases j with
      | zero =>
        have := (erase_sublist (a := x) (l := frame)).count_le y
        rw [outward_zero, outward_zero]
        omega
      | succ j => exact le_rfl
    | succ k =>
      show outward y j (frame :: eraseAt x k frames) ≤ _
      cases j with
      | zero =>
        have := ih k 0
        rw [outward_zero, outward_zero]
        omega
      | succ j => exact ih k j

theorem outward_zero_eraseAt (hk : frames[k]? = some frame) (hx : x ∈ frame) :
    outward x 0 (eraseAt x k frames) + 1 = outward x 0 frames := by
  induction frames generalizing k with
  | nil => contradiction
  | cons top frames ih =>
    cases k with
    | zero =>
      obtain rfl := Option.some.inj hk
      have hpos := count_pos_iff.mpr hx
      show outward x 0 (top.erase x :: frames) + 1 = _
      rw [outward_zero, outward_zero, count_erase_self]
      omega
    | succ k =>
      have hrest := ih hk
      show outward x 0 (top :: eraseAt x k frames) + 1 = _
      rw [outward_zero, outward_zero]
      omega

variable {c a : List (List α)}

theorem Covers.delete (h : Covers c a) (hk : a[k]? = some frame) (hx : x ∈ frame) :
    Covers (eraseTop x c) (eraseAt x k a) where
  length := by rw [eraseAt, length_modify, h.length, length_eraseTop]
  outward_le := by
    intro y j
    have hj := (outward_eraseAt_le x y k j a).trans (h.outward_le y j)
    by_cases hyx : y = x
    · subst hyx
      have hless := outward_zero_eraseAt hk hx
      have hall := outward_le_zero y j (eraseAt y k a)
      have htotal := h.outward_le y 0
      have hmin := le_outward_eraseTop y j c
      omega
    · rw [outward_eraseTop_of_ne hyx]
      exact hj

theorem Covers.push (h : Covers c a) (x : α) : Covers (push x c) (push x a) := by
  rcases c with _ | ⟨frame, frames⟩ <;> rcases a with _ | ⟨frame', frames'⟩
  · exact h
  · exact absurd h.length (by simp)
  · exact absurd h.length (by simp)
  · refine ⟨by simpa [FrameStack.push] using h.length, ?_⟩
    intro y j
    cases j with
    | zero =>
      have h0 := h.outward_le y 0
      simp only [FrameStack.push]
      rw [outward_zero, outward_zero] at h0 ⊢
      rw [count_append, count_append]
      omega
    | succ j => exact h.outward_le y (j + 1)

theorem Covers.cons_nil (h : Covers c a) : Covers ([] :: c) ([] :: a) := by
  refine ⟨by rw [length_cons, length_cons, h.length], ?_⟩
  intro y j
  cases j with
  | zero => exact h.outward_le y 0
  | succ j => exact h.outward_le y j

theorem Covers.tail (h : Covers c a) : Covers c.tail a.tail := by
  refine ⟨by rw [length_tail, length_tail, h.length], ?_⟩
  intro y j
  have hj := h.outward_le y (j + 1)
  rwa [outward, outward, ← drop_tail, ← drop_tail] at hj

theorem Covers.pop (h : Covers c a) : Covers (pop c) (pop a) := by
  have htail := h.tail
  have hlength := htail.length
  rw [FrameStack.pop, FrameStack.pop]
  rcases hc : c.tail with _ | ⟨frame, frames⟩
  · rw [hc, length_nil, length_eq_zero_iff] at hlength
    rw [hlength]
    exact ⟨rfl, fun _ _ => le_rfl⟩
  · rcases ha : a.tail with _ | ⟨frame', frames'⟩
    · rw [hc, ha] at hlength
      contradiction
    · rw [hc, ha] at htail
      exact htail

omit [DecidableEq α] in
theorem pop_ne_nil (frames : List (List α)) : pop frames ≠ [] := by
  rw [FrameStack.pop]
  split
  · simp
  · assumption

omit [DecidableEq α] in
theorem mem_flatten_pop (hx : x ∈ (pop frames).flatten) : x ∈ frames.flatten := by
  rw [FrameStack.pop] at hx
  split at hx
  · contradiction
  · rcases frames with _ | ⟨frame, frames⟩
    · exact hx
    · exact mem_append_right _ hx

omit [DecidableEq α] in
theorem mem_flatten_push {y : α} (hy : y ∈ (push x frames).flatten) :
    y ∈ frames.flatten ∨ y = x := by
  rcases frames with _ | ⟨frame, frames⟩
  · exact .inl hy
  · simp only [push, flatten_cons, mem_append, mem_singleton] at hy ⊢
    rcases hy with (hy | hy) | hy
    · exact .inl (.inl hy)
    · exact .inr hy
    · exact .inl (.inr hy)

theorem mem_flatten_eraseTop {y : α} (hy : y ∈ (eraseTop x frames).flatten) :
    y ∈ frames.flatten := by
  induction frames with
  | nil => exact hy
  | cons frame frames ih =>
    rw [eraseTop] at hy
    split at hy
    · rw [flatten_cons, mem_append] at hy ⊢
      exact hy.imp_left mem_of_mem_erase
    · rw [flatten_cons, mem_append] at hy ⊢
      exact hy.imp_right ih

theorem Covers.mem (h : Covers c a) (hx : x ∈ a.flatten) : x ∈ c.flatten :=
  mem_flatten_iff.mpr ((mem_flatten_iff.mp hx).trans_le (h.outward_le x 0))

end FrameStack
