import Mathlib.Data.List.Basic

/-! # Texts of code words

A text of code words can be read back, if a reader takes the first word off any text that starts
with one (`Reads.collect`). -/
namespace PrefixCode
open List
variable {α β γ ε : Type}

/-- Reads `n` items off the front of a text. -/
def collect (read : List β → Except ε (γ × List β)) :
    Nat → List β → Except ε (List γ × List β)
  | 0, text => .ok ([], text)
  | n + 1, text => match read text with
    | .error e => .error e
    | .ok (item, rest) => match collect read n rest with
      | .error e => .error e
      | .ok (items, rest) => .ok (item :: items, rest)

/-- `read` takes the word of `a` off the front, whatever follows it, and gives the item
of `a`. -/
def Reads (encode : α → List β) (item : α → γ) (read : List β → Except ε (γ × List β)) : Prop :=
  ∀ a rest, read (encode a ++ rest) = .ok (item a, rest)

variable {encode : α → List β} {item : α → γ} {read : List β → Except ε (γ × List β)}

theorem Reads.collect (h : Reads encode item read) (s : List α) (rest : List β) :
    collect read s.length (s.flatMap encode ++ rest) = .ok (s.map item, rest) := by
  induction s with
  | nil => rfl
  | cons a s ih =>
    rw [flatMap_cons, append_assoc]
    simp only [length_cons, PrefixCode.collect, h a, ih, map_cons]

theorem Reads.collect_take (h : Reads encode item read) {n : Nat} {s : List α}
    (hn : n ≤ s.length) (rest : List β) :
    PrefixCode.collect read n (s.flatMap encode ++ rest) =
      .ok ((s.take n).map item, (s.drop n).flatMap encode ++ rest) := by
  have hlength : (s.take n).length = n := length_take_of_le hn
  have htaken := h.collect (s.take n) ((s.drop n).flatMap encode ++ rest)
  rw [hlength, ← append_assoc, ← flatMap_append, take_append_drop] at htaken
  exact htaken

end PrefixCode
