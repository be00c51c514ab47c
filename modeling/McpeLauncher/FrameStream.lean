import Mathlib.Data.List.Basic

/-! # Frames in a byte stream

A receiver sees the concatenation of frames in pieces. Given what has come since the last frame
ended, a test `cut` says how long the frame at the front is, or that it is not all there. `Progress`
does not depend on the pieces (`Progress.unique`). -/
namespace FrameStream
open List
variable {α : Type}

/-- `f` is found at the front of everything it is a prefix of, and no proper prefix of it looks
complete. -/
structure IsFrame (cut : List α → Option Nat) (f : List α) : Prop where
  nonempty : f ≠ []
  whole : ∀ rest, cut (f ++ rest) = some f.length
  short : ∀ p q, f = p ++ q → q ≠ [] → cut p = none

/-- The bytes `w` end before the first frame still to come does. -/
def Incomplete (w : List α) : List (List α) → Prop
  | [] => w = []
  | f :: _ => w.length < f.length

/-- After the bytes `received`, the frames `done` are complete and `w` is what
has come of the rest. -/
def Progress (frames : List (List α)) (received : List α) (done : List (List α))
    (w : List α) : Prop :=
  ∃ todo, frames = done ++ todo ∧ received = done.flatten ++ w ∧ Incomplete w todo

section Cut
variable {cut : List α → Option Nat} {w rest : List α} {todo : List (List α)}

theorem front_cases (hne : todo ≠ []) (heq : w ++ rest = todo.flatten) :
    (∃ f todo' q, todo = f :: todo' ∧ f = w ++ q ∧ q ≠ []) ∨
      ∃ f todo' w', todo = f :: todo' ∧ w = f ++ w' ∧ w' ++ rest = todo'.flatten := by
  cases todo with
  | nil => exact absurd rfl hne
  | cons f todo' =>
    rcases append_eq_append_iff.mp heq with ⟨q, hf, hq⟩ | ⟨w', hw, hrest⟩
    · cases q with
      | nil =>
        rw [append_nil] at hf
        exact .inr ⟨f, todo', [], rfl, by rw [hf, append_nil], by simpa using hq⟩
      | cons b q => exact .inl ⟨f, todo', b :: q, rfl, hf, by simp⟩
    · exact .inr ⟨f, todo', w', rfl, hw, hrest.symm⟩

/-- **The test finds exactly the first frame** on a front `w` that holds all of it. -/
theorem cut_front (hfr : ∀ f ∈ todo, IsFrame cut f) (heq : w ++ rest = todo.flatten)
    (hw : w ≠ []) :
    (cut w = none ∧ Incomplete w todo) ∨
      ∃ f todo' w', todo = f :: todo' ∧ w = f ++ w' ∧ cut w = some f.length ∧
        w' ++ rest = todo'.flatten := by
  have hne : todo ≠ [] := by
    rintro rfl
    exact hw (append_eq_nil_iff.mp heq).1
  rcases front_cases hne heq with ⟨f, todo', q, rfl, hf, hq⟩ | ⟨f, todo', w', rfl, rfl, hrest⟩
  · refine .inl ⟨(hfr f (by simp)).short w q hf hq, ?_⟩
    have : 0 < q.length := length_pos_iff.mpr hq
    simp only [Incomplete, hf, length_append]
    omega
  · exact .inr ⟨f, todo', w', rfl, rfl, (hfr f (by simp)).whole w', hrest⟩

theorem cut_of_incomplete (hfr : ∀ f ∈ todo, IsFrame cut f) (heq : w ++ rest = todo.flatten)
    (hw : w ≠ []) (hinc : Incomplete w todo) : cut w = none := by
  rcases cut_front hfr heq hw with ⟨hnone, _⟩ | ⟨f, todo', w', rfl, rfl, _, _⟩
  · exact hnone
  · simp only [Incomplete, length_append] at hinc
    omega

theorem incomplete_nil (hfr : ∀ f ∈ todo, IsFrame cut f) : Incomplete [] todo := by
  cases todo with
  | nil => rfl
  | cons f todo' => exact length_pos_iff.mpr (hfr f (by simp)).nonempty

end Cut

theorem exists_progress {received rest : List α} {frames : List (List α)}
    (h : received ++ rest = frames.flatten) :
    ∃ done todo w, frames = done ++ todo ∧ received = done.flatten ++ w ∧ Incomplete w todo ∧
      w ++ rest = todo.flatten := by
  induction frames generalizing received with
  | nil =>
    obtain ⟨rfl, rfl⟩ := append_eq_nil_iff.mp h
    exact ⟨[], [], [], rfl, rfl, rfl, rfl⟩
  | cons f frames ih =>
    rcases front_cases (cons_ne_nil f frames) h with
      ⟨f', todo, q, heq, hf, hq⟩ | ⟨f', todo, w, heq, rfl, hrest⟩
    · have hpos := length_pos_iff.mpr hq
      obtain ⟨rfl, rfl⟩ := cons.inj heq
      refine ⟨[], f :: frames, received, rfl, rfl, ?_, h⟩
      simp only [Incomplete, hf, length_append]
      omega
    · obtain ⟨rfl, rfl⟩ := cons.inj heq
      obtain ⟨done, todo', w', rfl, rfl, hinc, hw⟩ := ih hrest
      exact ⟨f :: done, todo', w', rfl, by simp, hinc, hw⟩

section Progress
variable {frames done : List (List α)} {received w : List α}

theorem Progress.complete (h : Progress frames frames.flatten done w) : done = frames ∧ w = [] := by
  obtain ⟨todo, rfl, hr, hinc⟩ := h
  rw [flatten_append, append_cancel_left_eq] at hr
  cases todo with
  | nil => exact ⟨(append_nil done).symm, hinc⟩
  | cons f todo' =>
    subst hr
    simp only [Incomplete, flatten_cons, length_append] at hinc
    omega

theorem Progress.unique {done' : List (List α)} {w' : List α}
    (h : Progress frames received done w) (h' : Progress frames received done' w') :
    done = done' ∧ w = w' := by
  obtain ⟨todo, hfr, hr, hinc⟩ := h
  obtain ⟨todo', hfr', hr', hinc'⟩ := h'
  subst hfr
  -- one list of complete frames extends the other by some frames `x`
  have key : ∀ {d x t t' : List (List α)} {u u' : List α}, x ++ t' = t →
      d.flatten ++ u = (d ++ x).flatten ++ u' → Incomplete u t → x = [] ∧ u = u' := by
    intro d x t t' u u' hx he hu
    rw [flatten_append, append_assoc, append_cancel_left_eq] at he
    cases x with
    | nil => exact ⟨rfl, by simpa using he⟩
    | cons f x =>
      subst hx
      have hlen := congrArg length he
      simp only [flatten_cons, length_append] at hlen
      simp only [cons_append, Incomplete] at hu
      omega
  rcases append_eq_append_iff.mp hfr' with ⟨x, hd, ht⟩ | ⟨x, hd, ht⟩
  · subst hd
    obtain ⟨rfl, rfl⟩ := key ht.symm (hr.symm.trans hr') hinc
    simp
  · subst hd
    obtain ⟨rfl, rfl⟩ := key ht.symm (hr'.symm.trans hr) hinc'
    simp

end Progress

end FrameStream
