import Mathlib

/-! # Who has been told what

An audience is told of the changes of a set: each member keeps the notices given since it came, `(i,
true)` for an element that is there now and `(i, false)` for one that is gone. `Informed a S` says
that every member knows the set `S`. -/
namespace Audience
variable {ι : Type} [DecidableEq ι]

def hear (known : Finset ι) (notice : ι × Bool) : Finset ι :=
  if notice.2 then insert notice.1 known else known.erase notice.1

/-- The elements one has been told are there and not been told are gone since. -/
def known (notices : List (ι × Bool)) : Finset ι := notices.foldl hear ∅

@[simp]
theorem known_nil : known ([] : List (ι × Bool)) = ∅ := rfl

theorem known_concat (notices : List (ι × Bool)) (notice : ι × Bool) :
    known (notices ++ [notice]) = hear (known notices) notice := by
  rw [known, List.foldl_append]
  rfl

theorem known_append_present (notices : List (ι × Bool)) (is : List ι) :
    known (notices ++ is.map (·, true)) = known notices ∪ is.toFinset := by
  induction is generalizing notices with
  | nil => simp
  | cons i is ih =>
    rw [List.map_cons, List.append_cons, ih, known_concat, hear, if_pos rfl, List.toFinset_cons,
      Finset.insert_union, Finset.union_insert]

end Audience

/-- Members with the notices they were given. -/
structure Audience (W ι : Type) where
  members : List W := []
  notices : W → List (ι × Bool) := fun _ => []

namespace Audience
variable {W ι : Type} [DecidableEq W]

/-- A member comes; one that is there already stays. -/
def join (a : Audience W ι) (w : W) : Audience W ι :=
  { a with members := if w ∈ a.members then a.members else w :: a.members }

/-- A member goes, and with it what it was told. -/
def leave (a : Audience W ι) (w : W) : Audience W ι where
  members := a.members.filter (· ≠ w)
  notices v := if v = w then [] else a.notices v

def tell (a : Audience W ι) (w : W) (ns : List (ι × Bool)) : Audience W ι :=
  { a with notices := fun v => if v = w then a.notices v ++ ns else a.notices v }

def tellAll (a : Audience W ι) (n : ι × Bool) : Audience W ι :=
  { a with notices := fun v => if v ∈ a.members then a.notices v ++ [n] else a.notices v }

theorem mem_join (a : Audience W ι) (w v : W) :
    v ∈ (a.join w).members ↔ v = w ∨ v ∈ a.members := by
  rw [join]
  by_cases hw : w ∈ a.members
  · simp only [if_pos hw]
    constructor
    · exact .inr
    · rintro (rfl | hv)
      · exact hw
      · exact hv
  · simp only [if_neg hw, List.mem_cons]

theorem mem_leave (a : Audience W ι) (w v : W) :
    v ∈ (a.leave w).members ↔ v ∈ a.members ∧ v ≠ w := by
  simp only [leave, List.mem_filter, decide_eq_true_eq]

variable [DecidableEq ι]

/-- Every member knows the set, and who is no member has been told nothing. -/
structure Informed (a : Audience W ι) (S : Finset ι) : Prop where
  knows : ∀ w ∈ a.members, known (a.notices w) = S
  fresh : ∀ w, w ∉ a.members → a.notices w = []

namespace Informed
variable {a : Audience W ι} {S : Finset ι}

omit [DecidableEq W] in
theorem nobody : ({} : Audience W ι).Informed S := ⟨by simp, fun _ _ => rfl⟩

theorem tellAll (h : a.Informed S) (n : ι × Bool) : (a.tellAll n).Informed (hear S n) where
  knows := by
    intro v hv
    change v ∈ a.members at hv
    simp only [Audience.tellAll, if_pos hv, known_concat, h.knows v hv]
  fresh := by
    intro v hv
    change v ∉ a.members at hv
    simp only [Audience.tellAll, if_neg hv, h.fresh v hv]

theorem tellAll_here (h : a.Informed S) (i : ι) : (a.tellAll (i, true)).Informed (insert i S) :=
  h.tellAll (i, true)

theorem tellAll_gone (h : a.Informed S) (i : ι) : (a.tellAll (i, false)).Informed (S.erase i) :=
  h.tellAll (i, false)

theorem leave (h : a.Informed S) (w : W) : (a.leave w).Informed S where
  knows := by
    intro v hv
    obtain ⟨hv, hne⟩ := (mem_leave a w v).mp hv
    simp only [Audience.leave, if_neg hne, h.knows v hv]
  fresh := by
    intro v hv
    by_cases hvw : v = w
    · simp only [Audience.leave, if_pos hvw]
    · simp only [Audience.leave, if_neg hvw]
      apply h.fresh
      intro hmem
      exact hv ((mem_leave a w v).mpr ⟨hmem, hvw⟩)

/-- A newcomer is told of everything; a member that comes again loses nothing by it. -/
theorem join_tell (h : a.Informed S) (w : W) {is : List ι} (his : is.toFinset = S) :
    ((a.join w).tell w (is.map (·, true))).Informed S where
  knows := by
    intro v hv
    by_cases hvw : v = w
    · subst hvw
      show known (if v = v then a.notices v ++ is.map (·, true) else a.notices v) = S
      rw [if_pos rfl, known_append_present, his]
      by_cases hmem : v ∈ a.members
      · rw [h.knows v hmem, Finset.union_self]
      · rw [h.fresh v hmem, known_nil, Finset.empty_union]
    · show known (if v = w then a.notices v ++ is.map (·, true) else a.notices v) = S
      rw [if_neg hvw]
      exact h.knows v (((mem_join a w v).mp hv).resolve_left hvw)
  fresh := by
    intro v hv
    obtain ⟨hvw, hmem⟩ := not_or.mp (mt (mem_join a w v).mpr hv)
    show (if v = w then a.notices v ++ is.map (·, true) else a.notices v) = []
    rw [if_neg hvw]
    exact h.fresh v hmem

theorem join (h : a.Informed S) (w : W) (hw : w ∈ a.members ∨ S = ∅) :
    (a.join w).Informed S where
  knows := by
    intro v hv
    show known (a.notices v) = S
    by_cases hmem : v ∈ a.members
    · exact h.knows v hmem
    · obtain rfl := ((mem_join a w v).mp hv).resolve_right hmem
      rw [h.fresh v hmem, hw.resolve_left hmem, known_nil]
  fresh := by
    intro v hv
    exact h.fresh v (not_or.mp (mt (mem_join a w v).mpr hv)).2

end Informed

end Audience
