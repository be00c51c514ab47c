import Mathlib

/-! # Open files

A file as one descriptor sees it: the bytes and its place. A `write` past the end leaves a gap of
zeros. The loop over partial or failing `write`s has the effect of one, of the front its calls take
(`writeLoop_eq`). -/
namespace PosixFile
open List
variable {α : Type} {data : List α}

/-- A file and the offset of the descriptor it is used through. -/
@[ext]
structure File (α : Type) where
  content : List α
  offset : Nat

namespace File

section Write
variable [Zero α] {f : File α}

def write (f : File α) (data : List α) : File α where
  content := f.content.take f.offset ++ List.replicate (f.offset - f.content.length) 0 ++ data ++
    f.content.drop (f.offset + data.length)
  offset := f.offset + data.length

/-- `ftruncate`, which leaves the offset where it is. -/
def truncate (f : File α) (n : Nat) : File α :=
  { f with content := f.content.take n ++ List.replicate (n - f.content.length) 0 }

theorem truncate_le {n : Nat} (h : n ≤ f.content.length) :
    (f.truncate n).content = f.content.take n := by
  simp [truncate, Nat.sub_eq_zero_of_le h]

theorem write_content (h : f.offset ≤ f.content.length) (data : List α) :
    (f.write data).content =
      f.content.take f.offset ++ data ++ f.content.drop (f.offset + data.length) := by
  simp [write, Nat.sub_eq_zero_of_le h]

@[simp] theorem write_offset (f : File α) (data : List α) :
    (f.write data).offset = f.offset + data.length := rfl

theorem write_end (h : f.offset = f.content.length) (data : List α) :
    (f.write data).content = f.content ++ data := by
  rw [write_content (le_of_eq h), h, take_length,
    drop_eq_nil_of_le (Nat.le_add_right _ _), append_nil]

theorem length_write (h : f.offset + data.length ≤ f.content.length) :
    (f.write data).content.length = f.content.length := by
  rw [write_content (by omega)]
  simp only [length_append, length_take, length_drop]
  omega

theorem write_write (h : f.offset ≤ f.content.length) (a b : List α) :
    (f.write a).write b = f.write (a ++ b) := by
  have hlen : (f.content.take f.offset ++ a).length = f.offset + a.length := by simp [h]
  have hin : (f.write a).offset ≤ (f.write a).content.length := by
    rw [write_content h, write_offset, length_append, hlen]
    exact Nat.le_add_right _ _
  have hcontent : ((f.write a).write b).content = (f.write (a ++ b)).content := by
    rw [write_content hin, write_content h, write_content h, write_offset,
      take_left' hlen, drop_append, hlen, drop_eq_nil_of_le (by omega), drop_drop]
    simp only [nil_append, append_assoc, length_append]
    congr 4
    omega
  have hoffset : ((f.write a).write b).offset = (f.write (a ++ b)).offset := by simp [add_assoc]
  exact File.ext hcontent hoffset

end Write

end File

/-- How a write loop ended: the file, the number of bytes written, and whether all
of them were. -/
structure Written (α : Type) where
  file : File α
  count : Nat
  ok : Bool

/-- How many of `n` bytes are taken by calls with these results. -/
def written : Nat → List (Option Nat) → Nat
  | n, [] => n
  | n, r :: results =>
    if n = 0 then 0
    else match r with
      | none => 0
      | some k => min k n + written (n - k) results

theorem written_le (n : Nat) (results : List (Option Nat)) : written n results ≤ n := by
  induction results generalizing n with
  | nil => exact le_refl n
  | cons r results ih =>
    unfold written
    split
    · exact Nat.zero_le n
    · cases r with
      | none => exact Nat.zero_le n
      | some k =>
        have := ih (n - k)
        simp only
        omega

@[simp] theorem written_zero (results : List (Option Nat)) : written 0 results = 0 :=
  Nat.le_zero.mp (written_le 0 results)

theorem written_map_some (n : Nat) (counts : List Nat) : written n (counts.map some) = n := by
  induction counts generalizing n with
  | nil => rfl
  | cons k counts ih =>
    rw [map_cons, written]
    split
    · next hzero => exact hzero.symm
    · simp only [ih]
      omega

section WriteLoop
variable [Zero α]

/-- `results` are what the calls return, `none` for an error; later calls take all. -/
def writeLoop (f : File α) (data : List α) : List (Option Nat) → Written α
  | [] => ⟨f.write data, data.length, true⟩
  | r :: results =>
    if data = [] then ⟨f, 0, true⟩
    else match r with
      | none => ⟨f, 0, false⟩
      | some k =>
        let w := writeLoop (f.write (data.take k)) (data.drop k) results
        { w with count := (data.take k).length + w.count }

section
variable {f : File α} (h : f.offset ≤ f.content.length)
include h

theorem File.write_nil : f.write [] = f := File.ext (by rw [File.write_content h]; simp) rfl

theorem File.write_inside (data : List α) :
    (f.write data).offset ≤ (f.write data).content.length := by
  rw [File.write_content h, File.write_offset]
  simp only [length_append, length_take]
  omega

/-- **What a loop writes**: the front of the data, as long as its calls take it. -/
theorem writeLoop_eq (data : List α) (results : List (Option Nat)) :
    writeLoop f data results =
      ⟨f.write (data.take (written data.length results)), written data.length results,
        decide (written data.length results = data.length)⟩ := by
  induction results generalizing f data with
  | nil => simp [writeLoop, written]
  | cons r results ih =>
    unfold writeLoop written
    by_cases hnil : data = []
    · simp [hnil, File.write_nil h]
    · rw [if_neg hnil, if_neg (mt length_eq_zero_iff.mp hnil)]
      cases r with
      | none =>
        have hlen : ¬ 0 = data.length := fun hzero => hnil (length_eq_zero_iff.mp hzero.symm)
        simp [File.write_nil h, hlen]
      | some k =>
        have htake : data.take k ++ (data.drop k).take (written (data.length - k) results) =
            data.take (min k data.length + written (data.length - k) results) := by
          rw [take_add, ← take_eq_take_min]
          congr 2
          by_cases hk : k ≤ data.length
          · rw [min_eq_left hk]
          · rw [drop_eq_nil_of_le (by omega), drop_eq_nil_of_le (by omega)]
        have hall : (written (data.length - k) results = data.length - k) ↔
            min k data.length + written (data.length - k) results = data.length := by omega
        simp only [ih (File.write_inside h _), File.write_write h, length_drop,
          length_take, htake, hall]

end

end WriteLoop

/-- What reads of at most `size` bytes return one after another, up to the end of the file. -/
def blocks (size : Nat) : Nat → List α → List (List α)
  | 0, _ => []
  | _ + 1, [] => []
  | fuel + 1, a :: data => (a :: data).take size :: blocks size fuel ((a :: data).drop size)

theorem blocks_flatten {size : Nat} (hsize : 0 < size) {fuel : Nat} (hfuel : data.length ≤ fuel) :
    (blocks size fuel data).flatten = data := by
  induction fuel generalizing data with
  | zero => rw [eq_nil_of_length_eq_zero (by omega : data.length = 0)]; rfl
  | succ fuel ih =>
    cases data with
    | nil => rfl
    | cons a data =>
      have hdrop : ((a :: data).drop size).length ≤ fuel := by
        rw [length_drop]
        omega
      rw [blocks, flatten_cons, ih hdrop, take_append_drop]

end PosixFile
