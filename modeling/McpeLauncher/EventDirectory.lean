import McpeLauncher.Lines
import Mathlib

/-! # The directory of a batch

The files of a `MultiFileEventBatch`, by the number in their names. As long as new files get higher
numbers (`Directory.Ordered`), their order is the one of their creation. -/
namespace Cll
open List

/-- The files of the directory, by the number in their name. -/
abbrev Directory := List (Nat × List UInt8)

namespace Directory

/-- The content of a file; opening a file that is not there creates an empty
one. -/
def read (dir : Directory) (id : Nat) : List UInt8 := (dir.lookup id).getD []

def write : Directory → Nat → List UInt8 → Directory
  | [], id, content => [(id, content)]
  | (k, c) :: dir, id, content =>
    if k = id then (k, content) :: dir else (k, c) :: write dir id content

def remove (dir : Directory) (id : Nat) : Directory := dir.filter (·.1 ≠ id)

def getBatches (dir : Directory) : List Nat := (dir.map Prod.fst).insertionSort (· ≤ ·)

def events (dir : Directory) : List (List UInt8) :=
  dir.getBatches.flatMap fun id => Lines.lines 10 (dir.read id)

def bytes (dir : Directory) : List UInt8 := dir.getBatches.flatMap dir.read

def Ordered (dir : Directory) : Prop := (dir.map Prod.fst).Pairwise (· < ·)

section Files
variable {A B dir : Directory} {id : Nat} {c : List UInt8}

theorem read_of_not_mem (h : id ∉ dir.map Prod.fst) : dir.read id = [] := by
  have hnone : dir.lookup id = none := by
    rw [lookup_eq_none_iff]
    intro f hf
    exact bne_iff_ne.mpr fun heq => h (mem_map.mpr ⟨f, hf, heq.symm⟩)
  rw [read, hnone, Option.getD_none]

theorem write_of_not_mem (h : id ∉ dir.map Prod.fst) (c : List UInt8) :
    dir.write id c = dir ++ [(id, c)] := by
  induction dir with
  | nil => rfl
  | cons f dir ih =>
    simp only [map_cons, mem_cons, not_or] at h
    rw [write, if_neg (Ne.symm h.1), ih h.2, cons_append]

theorem read_mid (h : id ∉ A.map Prod.fst) : read (A ++ (id, c) :: B) id = c := by
  induction A with
  | nil => simp [read]
  | cons f A ih =>
    obtain ⟨k, content⟩ := f
    simp only [map_cons, mem_cons, not_or] at h
    simpa only [read, cons_append, lookup_cons, beq_false_of_ne h.1] using ih h.2

theorem write_mid (h : id ∉ A.map Prod.fst) (c' : List UInt8) :
    write (A ++ (id, c) :: B) id c' = A ++ (id, c') :: B := by
  induction A with
  | nil => simp [write]
  | cons f A ih =>
    simp only [map_cons, mem_cons, not_or] at h
    rw [cons_append, write, if_neg (Ne.symm h.1), ih h.2, cons_append]

theorem read_write_ne {k : Nat} (h : id ≠ k) (c : List UInt8) :
    (dir.write k c).read id = dir.read id := by
  induction dir with
  | nil => simp [write, read, lookup_cons, beq_false_of_ne h]
  | cons f dir ih =>
    obtain ⟨j, content⟩ := f
    rw [write]
    by_cases hjk : j = k
    · subst hjk
      simp only [if_true, read, lookup_cons, beq_false_of_ne h]
    · rw [if_neg hjk]
      simp only [read, lookup_cons] at ih ⊢
      by_cases hid : id = j
      · simp [hid]
      · simpa only [beq_false_of_ne hid] using ih

theorem remove_mid (hA : id ∉ A.map Prod.fst) (hB : id ∉ B.map Prod.fst) :
    remove (A ++ (id, c) :: B) id = A ++ B := by
  have hkeep : ∀ dir : Directory, id ∉ dir.map Prod.fst → dir.filter (·.1 ≠ id) = dir := by
    intro dir hdir
    refine filter_eq_self.mpr fun f hf => decide_eq_true ?_
    exact fun heq => hdir (mem_map.mpr ⟨f, hf, heq⟩)
  rw [remove, filter_append, filter_cons_of_neg (by simp), hkeep A hA, hkeep B hB]

theorem Ordered.not_mem (h : Ordered (A ++ (id, c) :: B)) :
    id ∉ A.map Prod.fst ∧ id ∉ B.map Prod.fst := by
  rw [Ordered, map_append, map_cons, pairwise_append, pairwise_cons] at h
  refine ⟨fun hmem => ?_, fun hmem => ?_⟩
  · exact lt_irrefl id (h.2.2 id hmem id (by simp))
  · exact lt_irrefl id (h.2.1.1 id hmem)

theorem Ordered.set (h : Ordered (A ++ (id, c) :: B)) (c' : List UInt8) :
    Ordered (A ++ (id, c') :: B) := by
  simpa [Ordered] using h

theorem Ordered.erase (h : Ordered (A ++ (id, c) :: B)) : Ordered (A ++ B) := by
  refine List.Pairwise.sublist ?_ h
  exact ((List.Sublist.refl A).append (sublist_cons_self _ B)).map Prod.fst

theorem Ordered.read_of_mem (h : dir.Ordered) {f : Nat × List UInt8} (hf : f ∈ dir) :
    dir.read f.1 = f.2 := by
  obtain ⟨A, B, rfl⟩ := append_of_mem hf
  exact read_mid h.not_mem.1

theorem Ordered.getBatches_eq (h : dir.Ordered) : dir.getBatches = dir.map Prod.fst :=
  List.Pairwise.insertionSort_eq (h.imp le_of_lt)

theorem Ordered.events_eq (h : dir.Ordered) :
    dir.events = dir.flatMap fun f => Lines.lines 10 f.2 := by
  rw [events, h.getBatches_eq, flatMap_map]
  exact flatMap_congr fun f hf => by rw [h.read_of_mem hf]

theorem Ordered.bytes_eq (h : dir.Ordered) : dir.bytes = dir.flatMap Prod.snd := by
  rw [bytes, h.getBatches_eq, flatMap_map]
  exact flatMap_congr fun f hf => h.read_of_mem hf

end Files

end Directory

end Cll
