import Mathlib.Data.Nat.Basic
import Mathlib.Tactic.ByContra

/-! # Upper bounds by bisection

`std::upper_bound` over a range whose elements first fail and then satisfy a condition:
the position of the first that satisfies it. -/
namespace UpperBound

/-- The search in `len` elements from `first` on. -/
def upperBound (p : Nat → Bool) (first len : Nat) : Nat :=
  if len = 0 then first
  else if p (first + len / 2) then upperBound p first (len / 2)
  else upperBound p (first + len / 2 + 1) (len - len / 2 - 1)
termination_by len

variable {p : Nat → Bool}

/-- Before the position the condition fails, and from there on it holds. -/
theorem upperBound_spec {first len : Nat}
    (hp : ∀ i j, first ≤ i → i ≤ j → j < first + len → p i = true → p j = true) :
    (first ≤ upperBound p first len ∧ upperBound p first len ≤ first + len) ∧
    (∀ i, first ≤ i → i < upperBound p first len → p i = false) ∧
    ∀ i, upperBound p first len ≤ i → i < first + len → p i = true := by
  induction len using Nat.strongRecOn generalizing first with
  | ind len ih =>
    rw [upperBound]
    split
    · refine ⟨⟨le_rfl, by omega⟩, ?_, ?_⟩
      · omega
      · omega
    · next hlen =>
      split
      · next hhalf =>
        have hleft : ∀ i j, first ≤ i → i ≤ j → j < first + len / 2 → p i = true → p j = true :=
          fun i j hi hij hj => hp i j hi hij (by omega)
        obtain ⟨⟨hlow, hhigh⟩, hbefore, hafter⟩ := ih (len / 2) (by omega) hleft
        refine ⟨⟨hlow, by omega⟩, hbefore, ?_⟩
        intro i hi hlt
        by_cases hmid : i < first + len / 2
        · exact hafter i hi hmid
        · exact hp (first + len / 2) i (by omega) (by omega) hlt hhalf
      · next hhalf =>
        have hright : ∀ i j, first + len / 2 + 1 ≤ i → i ≤ j →
            j < first + len / 2 + 1 + (len - len / 2 - 1) → p i = true → p j = true :=
          fun i j hi hij hj => hp i j (by omega) hij (by omega)
        obtain ⟨⟨hlow, hhigh⟩, hbefore, hafter⟩ := ih (len - len / 2 - 1) (by omega) hright
        refine ⟨⟨by omega, by omega⟩, ?_, ?_⟩
        · intro i hi hlt
          by_cases hmid : first + len / 2 + 1 ≤ i
          · exact hbefore i hmid hlt
          · by_contra htrue
            have hi' : p i = true := by simpa using htrue
            exact hhalf (hp i (first + len / 2) hi (by omega) (by omega) hi')
        · intro i hi hlt
          exact hafter i hi (by omega)

theorem upperBound_eq {len pos : Nat} (hpos : pos ≤ len) (hbefore : ∀ i < pos, p i = false)
    (hafter : ∀ i, pos ≤ i → i < len → p i = true) : upperBound p 0 len = pos := by
  have hp : ∀ i j, 0 ≤ i → i ≤ j → j < 0 + len → p i = true → p j = true := by
    intro i j _ hij hj hi
    have : pos ≤ i := by
      by_contra hlt
      rw [hbefore i (by omega)] at hi
      contradiction
    exact hafter j (by omega) (by omega)
  obtain ⟨⟨_, hhigh⟩, hb, ha⟩ := upperBound_spec hp
  rcases Nat.lt_trichotomy (upperBound p 0 len) pos with hlt | heq | hgt
  · have htrue := ha _ (le_rfl) (by omega)
    rw [hbefore _ hlt] at htrue
    contradiction
  · exact heq
  · have hfalse := hb pos (Nat.zero_le _) hgt
    rw [hafter pos (le_rfl) (by omega)] at hfalse
    contradiction

end UpperBound
