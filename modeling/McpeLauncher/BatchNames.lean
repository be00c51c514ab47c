import McpeLauncher.EventDirectory
import McpeLauncher.Numerals

/-! # The names of batch files

`getBatches` finds the numbers of the files again from the names that `getBatchFileName` has made.
-/
namespace Cll
open List
namespace BatchNames

inductive DType where
  | unknown
  | fifo
  | chr
  | dir
  | blk
  | reg
  | lnk
  | sock
  deriving DecidableEq

structure Entry where
  name : List Char
  kind : DType
  deriving DecidableEq

/-- What `readdir` goes through.  Not every file system reports the types. -/
structure Listing where
  entries : List Entry
  reportsTypes : Bool
  nodup : (entries.map Entry.name).Nodup

def Listing.dType (l : Listing) (e : Entry) : DType := if l.reportsTypes then e.kind else .unknown

section Names
variable (namePrefix nameSuffix : List Char)

def batchName (id : Int) : List Char := namePrefix ++ decimal id ++ nameSuffix

def getBatchFileName (path : List Char) (id : Int) : List Char :=
  path ++ batchName namePrefix nameSuffix id

def batchId (name : List Char) : Option Int :=
  let len := name.length
  if len < namePrefix.length + nameSuffix.length || name.take namePrefix.length != namePrefix ||
      name.drop (len - nameSuffix.length) != nameSuffix then none
  else
    let e := (name.drop namePrefix.length).take (len - namePrefix.length - nameSuffix.length)
    (stoull (String.ofList e)).map toLongLong

def opendir (path : List Char) (dir : Listing) : Option Listing := if path = [] then none else dir

def getBatches (path : List Char) (dir : Listing) : List Int :=
  match opendir path dir with
  | none => []
  | some l =>
    (l.entries.filterMap fun e =>
      if l.dType e = .reg then batchId namePrefix nameSuffix e.name else none).insertionSort (· ≤ ·)

theorem batchId_append (mid : List Char) :
    batchId namePrefix nameSuffix (namePrefix ++ mid ++ nameSuffix) =
      (stoull (String.ofList mid)).map toLongLong := by
  have hsum : namePrefix.length + mid.length + nameSuffix.length - namePrefix.length -
      nameSuffix.length = mid.length := by omega
  have hfront : namePrefix.length + mid.length + nameSuffix.length - nameSuffix.length =
      (namePrefix ++ mid).length := by
    rw [length_append]
    omega
  have hpre : (namePrefix ++ mid ++ nameSuffix).take namePrefix.length = namePrefix := by
    rw [append_assoc, take_left]
  have hmid : ((namePrefix ++ mid ++ nameSuffix).drop namePrefix.length).take mid.length = mid := by
    rw [append_assoc, drop_left, take_left]
  have hlen : ¬ namePrefix.length + mid.length + nameSuffix.length <
      namePrefix.length + nameSuffix.length := by omega
  rw [batchId]
  simp only [length_append, hsum]
  simp [hlen]

theorem batchId_eq_some_iff (name : List Char) (id : Int) :
    batchId namePrefix nameSuffix name = some id ↔
      ∃ mid n, name = namePrefix ++ mid ++ nameSuffix ∧ stoull (String.ofList mid) = some n ∧
        toLongLong n = id := by
  constructor
  · intro h
    have hparts : ∃ mid, name = namePrefix ++ mid ++ nameSuffix := by
      rw [batchId] at h
      split at h
      · cases h
      · next hparts =>
        simp only [Bool.or_eq_true, decide_eq_true_eq, bne_iff_ne, ne_eq, not_or, not_not]
          at hparts
        obtain ⟨⟨hlen, hpre⟩, hsuf⟩ := hparts
        obtain ⟨back, rfl⟩ : namePrefix <+: name := prefix_iff_eq_take.mpr hpre.symm
        have hback : nameSuffix <:+ namePrefix ++ back := suffix_iff_eq_drop.mpr hsuf.symm
        rw [length_append] at hlen
        obtain ⟨mid, rfl⟩ := suffix_of_suffix_length_le hback (suffix_append _ back)
          (by omega)
        exact ⟨mid, (append_assoc _ _ _).symm⟩
    obtain ⟨mid, rfl⟩ := hparts
    rw [batchId_append] at h
    obtain ⟨n, hn, hid⟩ := Option.map_eq_some_iff.mp h
    exact ⟨mid, n, rfl, hn, hid⟩
  · rintro ⟨mid, n, rfl, hn, hid⟩
    rw [batchId_append, hn, Option.map_some, hid]

end Names

def IsLongLong (id : Int) : Prop := -2 ^ 63 ≤ id ∧ id < 2 ^ 63

theorem isLongLong_toLongLong {n : Nat} (hn : n < 2 ^ 64) : IsLongLong (toLongLong n) := by
  rw [IsLongLong, toLongLong]
  split
  · omega
  · omega

section Exact
variable (namePrefix nameSuffix path : List Char) (dir : Listing) {id : Int}

theorem batchId_batchName (h : IsLongLong id) :
    batchId namePrefix nameSuffix (batchName namePrefix nameSuffix id) = some id := by
  obtain ⟨n, hn, hid⟩ := stoull_decimal h.1 h.2
  rw [batchName, batchId_append, hn, Option.map_some, hid]

def HasBatch (id : Int) : Prop :=
  ∃ e ∈ dir.entries, e.kind = .reg ∧
    path ++ e.name = getBatchFileName namePrefix nameSuffix path id

/-- Ascending, without repetition, and the numbers of the batch files. -/
def Exact (ids : List Int) : Prop :=
  ids.Pairwise (· < ·) ∧
    ∀ id, id ∈ ids ↔ IsLongLong id ∧ HasBatch namePrefix nameSuffix path dir id

/-- What begins with a number between prefix and suffix is the number as it is
printed. -/
def OwnNames : Prop :=
  ∀ e ∈ dir.entries, e.kind = .reg → ∀ mid n, e.name = namePrefix ++ mid ++ nameSuffix →
    stoull (String.ofList mid) = some n → mid = decimal (toLongLong n)

theorem hasBatch_iff (id : Int) :
    HasBatch namePrefix nameSuffix path dir id ↔
      ∃ e ∈ dir.entries, e.kind = .reg ∧ e.name = batchName namePrefix nameSuffix id := by
  simp only [HasBatch, getBatchFileName, append_cancel_left_eq]

section Seen

def found : List Int :=
  dir.entries.filterMap fun e =>
    if e.kind = .reg then batchId namePrefix nameSuffix e.name else none

variable {namePrefix nameSuffix dir} {e : Entry}

theorem found_eq_some_iff :
    (if e.kind = .reg then batchId namePrefix nameSuffix e.name else none) = some id ↔
      e.kind = .reg ∧ batchId namePrefix nameSuffix e.name = some id := by
  by_cases hreg : e.kind = .reg
  · simp [hreg]
  · simp [hreg]

theorem mem_found :
    id ∈ found namePrefix nameSuffix dir ↔
      ∃ e ∈ dir.entries, e.kind = .reg ∧ batchId namePrefix nameSuffix e.name = some id := by
  simp only [found, mem_filterMap, found_eq_some_iff]

theorem OwnNames.name_eq (h : OwnNames namePrefix nameSuffix dir) (he : e ∈ dir.entries)
    (hreg : e.kind = .reg) (hid : batchId namePrefix nameSuffix e.name = some id) :
    e.name = batchName namePrefix nameSuffix id := by
  obtain ⟨mid, n, hname, hn, rfl⟩ := (batchId_eq_some_iff namePrefix nameSuffix _ _).mp hid
  rw [batchName, hname, h e he hreg mid n hname hn]

theorem found_nodup (h : OwnNames namePrefix nameSuffix dir) :
    (found namePrefix nameSuffix dir).Nodup := by
  have hnames := pairwise_map.mp dir.nodup
  refine pairwise_filterMap.mpr (hnames.imp_of_mem ?_)
  intro e e' he he' hne id hid id' hid' heq
  obtain ⟨hreg, hid⟩ := found_eq_some_iff.mp hid
  obtain ⟨hreg', hid'⟩ := found_eq_some_iff.mp hid'
  rw [h.name_eq he hreg hid, h.name_eq he' hreg' hid', heq] at hne
  exact hne rfl

/-- Two names that give the same number would be found twice. -/
theorem name_eq_of_nodup (h : (found namePrefix nameSuffix dir).Nodup) {e' : Entry}
    (he : e ∈ dir.entries) (he' : e' ∈ dir.entries) (hreg : e.kind = .reg) (hreg' : e'.kind = .reg)
    (hid : batchId namePrefix nameSuffix e.name = some id)
    (hid' : batchId namePrefix nameSuffix e'.name = some id) : e = e' := by
  by_contra hne
  have hsymm : Std.Symm fun a b : Entry =>
      ∀ x, (if a.kind = .reg then batchId namePrefix nameSuffix a.name else none) = some x →
        ∀ y, (if b.kind = .reg then batchId namePrefix nameSuffix b.name else none) = some y →
          x ≠ y :=
    ⟨fun a b hab x hx y hy => Ne.symm (hab y hy x hx)⟩
  have hpair := (pairwise_filterMap.mp h).forall he he' hne
  exact hpair id (found_eq_some_iff.mpr ⟨hreg, hid⟩) id (found_eq_some_iff.mpr ⟨hreg', hid'⟩) rfl

theorem exact_found_iff :
    Exact namePrefix nameSuffix path dir
      ((found namePrefix nameSuffix dir).insertionSort (· ≤ ·)) ↔
      OwnNames namePrefix nameSuffix dir := by
  have hperm := perm_insertionSort (· ≤ ·) (found namePrefix nameSuffix dir)
  constructor
  · rintro ⟨hasc, hmem⟩ e he hreg mid n hname hn
    have hid : batchId namePrefix nameSuffix e.name = some (toLongLong n) :=
      (batchId_eq_some_iff namePrefix nameSuffix _ _).mpr ⟨mid, n, hname, hn, rfl⟩
    have hin := hperm.mem_iff.mpr (mem_found.mpr ⟨e, he, hreg, hid⟩)
    obtain ⟨hlong, hhas⟩ := (hmem _).mp hin
    obtain ⟨e', he', hreg', hname'⟩ := (hasBatch_iff _ _ _ _ _).mp hhas
    have hid' := batchId_batchName namePrefix nameSuffix hlong
    rw [← hname'] at hid'
    have hnodup : (found namePrefix nameSuffix dir).Nodup :=
      hperm.nodup_iff.mp (hasc.imp fun h => ne_of_lt h)
    have heq := name_eq_of_nodup hnodup he he' hreg hreg' hid hid'
    rw [← heq, hname, batchName] at hname'
    simpa using hname'
  · intro hown
    have hsorted := pairwise_insertionSort (· ≤ ·) (found namePrefix nameSuffix dir)
    have hnodup := hperm.nodup_iff.mpr (found_nodup hown)
    refine ⟨(hsorted.and hnodup).imp fun h => lt_of_le_of_ne h.1 h.2, fun id => ?_⟩
    rw [hperm.mem_iff, mem_found, hasBatch_iff]
    constructor
    · rintro ⟨e, he, hreg, hid⟩
      obtain ⟨mid, n, -, hn, rfl⟩ := (batchId_eq_some_iff namePrefix nameSuffix _ _).mp hid
      exact ⟨isLongLong_toLongLong (stoull_lt hn), e, he, hreg, hown.name_eq he hreg hid⟩
    · rintro ⟨hlong, e, he, hreg, hname⟩
      refine ⟨e, he, hreg, ?_⟩
      rw [hname]
      exact batchId_batchName namePrefix nameSuffix hlong

end Seen

/-- **The list is exact**, where the files can be seen, exactly if every name read as a number is
one that is printed, and else if there are none. -/
theorem getBatches_exact_iff :
    Exact namePrefix nameSuffix path dir (getBatches namePrefix nameSuffix path dir) ↔
      if path ≠ [] ∧ dir.reportsTypes = true then OwnNames namePrefix nameSuffix dir
      else ∀ id, IsLongLong id → ¬ HasBatch namePrefix nameSuffix path dir id := by
  by_cases hseen : path ≠ [] ∧ dir.reportsTypes = true
  · have hlist : getBatches namePrefix nameSuffix path dir =
        (found namePrefix nameSuffix dir).insertionSort (· ≤ ·) := by
      simp only [getBatches, opendir, if_neg hseen.1, Listing.dType, hseen.2, if_true, found]
    rw [if_pos hseen, hlist, exact_found_iff]
  · have hnone : getBatches namePrefix nameSuffix path dir = [] := by
      by_cases hpath : path = []
      · simp [getBatches, opendir, hpath]
      · have htypes : dir.reportsTypes = false := by simpa [hpath] using hseen
        simp [getBatches, opendir, hpath, Listing.dType, htypes]
    rw [if_neg hseen, hnone, Exact]
    simp

end Exact

/-- A directory with one file, whose number has a leading zero. -/
def oneFile : Listing := ⟨[⟨"b01.txt".toList, .reg⟩], true, by decide⟩

def twoFiles : Listing := ⟨[⟨"b01.txt".toList, .reg⟩, ⟨"b1.txt".toList, .reg⟩], true, by decide⟩

/-- **A name with a leading zero** is taken for a batch that is not there. -/
theorem getBatches_leading_zero :
    (getBatches "b".toList ".txt".toList "d/".toList oneFile = [1] ∧
      ¬ HasBatch "b".toList ".txt".toList "d/".toList oneFile 1) ∧
    getBatches "b".toList ".txt".toList "d/".toList twoFiles = [1, 1] := by
  refine ⟨⟨by decide, ?_⟩, by decide⟩
  rw [HasBatch]
  decide

section Directory
variable (namePrefix nameSuffix : List Char) {dir : Directory}
  (hnodup : (dir.map Prod.fst).Nodup) (hids : ∀ f ∈ dir, f.1 < 2 ^ 63)

include hids in
theorem batchId_file {f : Nat × List UInt8} (hf : f ∈ dir) :
    batchId namePrefix nameSuffix (batchName namePrefix nameSuffix f.1) = some (f.1 : Int) := by
  have hlt := hids f hf
  exact batchId_batchName namePrefix nameSuffix ⟨by omega, by omega⟩

def listing : Listing where
  entries := dir.map fun f => ⟨batchName namePrefix nameSuffix f.1, .reg⟩
  reportsTypes := true
  nodup := by
    rw [List.map_map]
    refine List.pairwise_map.mpr ((List.pairwise_map.mp hnodup).imp_of_mem ?_)
    intro f g hf hg hne heq
    have hid := batchId_file namePrefix nameSuffix hids hf
    have heq : batchName namePrefix nameSuffix f.1 = batchName namePrefix nameSuffix g.1 := heq
    rw [heq, batchId_file namePrefix nameSuffix hids hg] at hid
    exact hne (Int.ofNat.inj (Option.some.inj hid)).symm

/-- **In a directory of batches all of them are found**, in ascending order. -/
theorem getBatches_directory {path : List Char} (hpath : path ≠ []) :
    getBatches namePrefix nameSuffix path (listing namePrefix nameSuffix hnodup hids) =
      dir.getBatches.map fun id : Nat => (id : Int) := by
  have hfound : found namePrefix nameSuffix (listing namePrefix nameSuffix hnodup hids) =
      (dir.map Prod.fst).map fun id : Nat => (id : Int) := by
    rw [found, listing, filterMap_map, map_map, ← filterMap_eq_map]
    refine filterMap_congr fun f hf => ?_
    exact batchId_file namePrefix nameSuffix hids hf
  have hlist : getBatches namePrefix nameSuffix path
      (listing namePrefix nameSuffix hnodup hids) =
        (found namePrefix nameSuffix (listing namePrefix nameSuffix hnodup hids)).insertionSort
          (· ≤ ·) := by
    simp only [getBatches, opendir, if_neg hpath, Listing.dType, listing, if_true, found]
  rw [hlist, hfound, Directory.getBatches]
  refine (map_insertionSort _ _ _ _ fun a _ b _ => ?_).symm
  exact Int.ofNat_le.symm

end Directory

theorem getBatches_directory_two :
    getBatches ['b'] [] ['d'] (@listing ['b'] [] [(3, []), (1, [])] (by decide) (by decide)) =
      [1, 3] :=
  (getBatches_directory ['b'] [] (by decide) (by decide) (by decide)).trans rfl

end BatchNames
end Cll
