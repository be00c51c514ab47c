import Mathlib.Data.List.DropRight
import Mathlib.Tactic.Common

/-! # Searching and stripping texts

`find` is the place of the first occurrence of a pattern, `strip` what is left of a text when the
letters of a class are taken from its ends. -/
namespace TextSearch
open List
variable {α : Type} {text front : List α} {a : α}

section Find
variable [DecidableEq α] {pat : List α} {i : Nat}

def find (pat : List α) : List α → Option Nat
  | [] => if pat = [] then some 0 else none
  | a :: text => if pat <+: a :: text then some 0 else (find pat text).map (· + 1)

theorem find_eq_zero_iff : find pat text = some 0 ↔ pat <+: text := by
  cases text with
  | nil =>
    rw [find, prefix_nil]
    by_cases hpat : pat = []
    · simp [hpat]
    · simp [hpat]
  | cons a text =>
    rw [find]
    by_cases hpre : pat <+: a :: text
    · simp [hpre]
    · simp [hpre]

theorem exists_of_find_succ (h : find pat text = some (i + 1)) :
    ∃ a rest, text = a :: rest ∧ find pat rest = some i := by
  cases text with
  | nil =>
    rw [find] at h
    split_ifs at h
    cases h
  | cons a text =>
    refine ⟨a, text, rfl, ?_⟩
    rw [find] at h
    split_ifs at h
    · cases h
    · obtain ⟨j, hj, hsucc⟩ := Option.map_eq_some_iff.mp h
      rw [← Nat.succ.inj hsucc]
      exact hj

theorem find_le (h : find pat text = some i) : i + pat.length ≤ text.length := by
  induction i generalizing text with
  | zero =>
    have := (find_eq_zero_iff.mp h).length_le
    omega
  | succ i ih =>
    obtain ⟨a, rest, rfl, hrest⟩ := exists_of_find_succ h
    have := ih hrest
    rw [length_cons]
    omega

theorem isPrefix_drop_of_find (h : find pat text = some i) : pat <+: text.drop i := by
  induction i generalizing text with
  | zero => exact find_eq_zero_iff.mp h
  | succ i ih =>
    obtain ⟨a, rest, rfl, hrest⟩ := exists_of_find_succ h
    exact ih hrest

omit [DecidableEq α] in
theorem pair_isPrefix {b c : α} : [a, b] <+: c :: text ↔ a = c ∧ text.head? = some b := by
  rw [cons_prefix_cons]
  refine and_congr_right fun _ => ?_
  cases text with
  | nil => simp
  | cons d text => simp [cons_prefix_cons, eq_comm]

theorem find_pair {b : α} (hfront : a ∉ front) (rest : List α) :
    find [a, b] (front ++ a :: rest) =
      if rest.head? = some b then some front.length
      else (find [a, b] rest).map (· + (front.length + 1)) := by
  induction front with
  | nil =>
    rw [nil_append, find]
    by_cases hb : rest.head? = some b
    · rw [if_pos (pair_isPrefix.mpr ⟨rfl, hb⟩), if_pos hb]
      rfl
    · rw [if_neg fun h => hb (pair_isPrefix.mp h).2, if_neg hb]
      rfl
  | cons c front ih =>
    rw [mem_cons, not_or] at hfront
    rw [cons_append, find, if_neg fun h => hfront.1 (pair_isPrefix.mp h).1, ih hfront.2]
    by_cases hb : rest.head? = some b
    · rw [if_pos hb, if_pos hb]
      rfl
    · rw [if_neg hb, if_neg hb, Option.map_map]
      rfl

/-- The first of a letter is behind a front without it. -/
theorem idxOf?_append (hfront : a ∉ front) (rest : List α) :
    (front ++ a :: rest).idxOf? a = some front.length := by
  induction front with
  | nil => simp [idxOf?_cons]
  | cons c front ih =>
    rw [mem_cons, not_or] at hfront
    rw [cons_append, idxOf?_cons, if_neg (by simpa using Ne.symm hfront.1), ih hfront.2]
    rfl

theorem take_append_of_idxOf? (h : text.idxOf? a = some i) :
    text.take i ++ a :: text.drop (i + 1) = text := by
  obtain ⟨hi, hget, -⟩ := idxOf?_eq_some_iff.mp h
  rw [← hget, getElem_cons_drop, take_append_drop]

theorem not_mem_take_of_idxOf? (h : text.idxOf? a = some i) : a ∉ text.take i := by
  intro hmem
  obtain ⟨hi, -, hbefore⟩ := idxOf?_eq_some_iff.mp h
  obtain ⟨j, hj, hget⟩ := mem_iff_getElem.mp hmem
  rw [length_take] at hj
  rw [getElem_take] at hget
  exact hbefore j (by omega) hget

end Find

section Strip
variable (p : α → Bool) {back : List α}

/-- The text without the letters of the class at its ends. -/
def strip (text : List α) : List α := (text.dropWhile p).rdropWhile p

theorem dropWhile_append_of_all (hfront : ∀ a ∈ front, p a = true) (text : List α) :
    (front ++ text).dropWhile p = text.dropWhile p := by
  rw [dropWhile_append, dropWhile_eq_nil_iff.mpr hfront]
  rfl

theorem rdropWhile_append_of_all (text : List α) (hback : ∀ a ∈ back, p a = true) :
    (text ++ back).rdropWhile p = text.rdropWhile p := by
  rw [rdropWhile, reverse_append, dropWhile_append_of_all p fun a ha =>
    hback a (mem_reverse.mp ha)]
  rfl

theorem strip_append (hfront : ∀ a ∈ front, p a = true) (text : List α)
    (hback : ∀ a ∈ back, p a = true) : strip p (front ++ text ++ back) = strip p text := by
  rw [strip, append_assoc, dropWhile_append_of_all p hfront, dropWhile_append]
  by_cases hnil : text.dropWhile p = []
  · rw [strip, hnil]
    have hall := dropWhile_eq_nil_iff.mpr hback
    simp [hall]
  · have hne : (text.dropWhile p).isEmpty = false := by simpa using hnil
    rw [hne, if_neg Bool.false_ne_true, rdropWhile_append_of_all p _ hback, strip]

theorem dropWhile_eq_self_iff (text : List α) :
    text.dropWhile p = text ↔ ∀ a, text.head? = some a → p a = false := by
  cases text with
  | nil => simp
  | cons b text =>
    by_cases hb : p b = true
    · refine iff_of_false (fun h => ?_) (fun h => ?_)
      · rw [dropWhile_cons_of_pos hb] at h
        have hle : (text.dropWhile p).length ≤ text.length := (dropWhile_sublist p).length_le
        rw [h, length_cons] at hle
        omega
      · rw [h b rfl] at hb
        cases hb
    · rw [dropWhile_cons_of_neg hb]
      refine iff_of_true rfl fun a ha => ?_
      obtain rfl : b = a := Option.some.inj ha
      simpa using hb

theorem rdropWhile_eq_self_iff (text : List α) :
    text.rdropWhile p = text ↔ ∀ a, text.getLast? = some a → p a = false := by
  rw [rdropWhile, ← reverse_inj, reverse_reverse, dropWhile_eq_self_iff,
    head?_reverse]

theorem strip_eq_self_iff (text : List α) :
    strip p text = text ↔
      (∀ a, text.head? = some a → p a = false) ∧ ∀ a, text.getLast? = some a → p a = false := by
  rw [← dropWhile_eq_self_iff, ← rdropWhile_eq_self_iff, strip]
  constructor
  · intro h
    have hright := ( rdropWhile_prefix p (l := text.dropWhile p)).length_le
    have hdrop : text.dropWhile p = text := by
      refine (dropWhile_suffix p).eq_of_length_le ?_
      rw [h] at hright
      exact hright
    rw [hdrop] at h
    exact ⟨hdrop, h⟩
  · rintro ⟨hleft, hright⟩
    rw [hleft, hright]

theorem exists_strip (text : List α) :
    ∃ front back, text = front ++ strip p text ++ back ∧ (∀ a ∈ front, p a = true) ∧
      ∀ a ∈ back, p a = true := by
  refine ⟨text.takeWhile p, (text.dropWhile p).rtakeWhile p, ?_, ?_, ?_⟩
  · rw [strip, append_assoc, rdropWhile_append_rtakeWhile,
      takeWhile_append_dropWhile]
  · exact fun a ha => mem_takeWhile_imp ha
  · exact fun a ha => mem_rtakeWhile_imp ha

theorem mem_dropWhile (ha : a ∈ text) (hp : p a = false) : a ∈ text.dropWhile p := by
  rw [← takeWhile_append_dropWhile (p := p) (l := text), mem_append] at ha
  rcases ha with ha | ha
  · have := all_eq_true.mp all_takeWhile a ha
    rw [hp] at this
    cases this
  · exact ha

theorem mem_strip (ha : a ∈ text) (hp : p a = false) : a ∈ strip p text := by
  rw [strip, rdropWhile, mem_reverse]
  exact mem_dropWhile p (mem_reverse.mpr (mem_dropWhile p ha hp)) hp

end Strip

end TextSearch
