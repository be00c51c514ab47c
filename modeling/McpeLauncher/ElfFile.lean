import Mathlib.Algebra.Group.Nat.Defs
import Mathlib.Data.List.Basic
import Mathlib.Tactic.Common

/-! # ELF files

The libraries that a file needs, for both classes and both byte orders. The dynamic segment is an
array of tags and values up to `DT_NULL`: `DT_STRTAB` and `DT_STRSZ` say where the string table is
loaded, and `DT_NEEDED` the place of a name in it. -/
namespace Elf
open List

def number (bytes : List UInt8) : Nat := bytes.foldr (fun b n => b.toNat + 256 * n) 0

inductive Encoding where
  | lsb
  | msb

def bytesAt (data : List UInt8) (offset size : Nat) : Option (List UInt8) :=
  if offset + size ≤ data.length then some ((data.drop offset).take size) else none

def field (encoding : Encoding) (data : List UInt8) (offset size : Nat) : Option Nat :=
  (bytesAt data offset size).map fun bytes =>
    match encoding with
    | .lsb => number bytes
    | .msb => number bytes.reverse

/-- The string at a place of a table, if it ends in the table. -/
def cString (table : List UInt8) (place : Nat) : Option (List UInt8) :=
  if 0 ∈ table.drop place then some ((table.drop place).takeWhile (· ≠ 0)) else none

section
variable {data : List UInt8} {offset size : Nat}

theorem bytesAt_eq_some {bytes : List UInt8} :
    bytesAt data offset size = some bytes ↔
      offset + size ≤ data.length ∧ (data.drop offset).take size = bytes := by
  rw [bytesAt]
  by_cases h : offset + size ≤ data.length
  · simp [h]
  · simp [h]

theorem length_of_fit (h : offset + size ≤ data.length) :
    ((data.drop offset).take size).length = size := by
  rw [length_take, length_drop]
  omega

theorem field_lsb (h : offset + size ≤ data.length) :
    field .lsb data offset size = some (number ((data.drop offset).take size)) := by
  rw [field, bytesAt, if_pos h]
  rfl

theorem field_lsb_eq_some {n : Nat} :
    field .lsb data offset size = some n ↔
      offset + size ≤ data.length ∧ number ((data.drop offset).take size) = n := by
  rw [field, bytesAt]
  by_cases h : offset + size ≤ data.length
  · simp [h]
  · simp [h]

end

/-- Where the fields are. -/
structure Layout where
  word : Nat
  ehdr : Nat
  phoff : Nat
  phentsize : Nat
  phnum : Nat
  phdr : Nat
  pOffset : Nat
  pVaddr : Nat
  pFilesz : Nat

def layout32 : Layout := ⟨4, 52, 28, 42, 44, 32, 4, 8, 16⟩

def layout64 : Layout := ⟨8, 64, 32, 54, 56, 56, 8, 16, 32⟩

def ptLoad : Nat := 1
def ptDynamic : Nat := 2
def dtNull : Nat := 0
def dtNeeded : Nat := 1
def dtStrtab : Nat := 5
def dtStrsz : Nat := 10

structure Segment where
  type : Nat
  offset : Nat
  vaddr : Nat
  filesz : Nat

structure Dyn where
  tag : Nat
  val : Nat
  deriving DecidableEq

def values (tag : Nat) (entries : List Dyn) : List Nat :=
  (entries.filter fun d => d.tag = tag).map Dyn.val

def live (entries : List Dyn) : List Dyn := entries.takeWhile fun d => d.tag ≠ dtNull

/-- `DT_NULL` and what is behind it. -/
def dead (entries : List Dyn) : List Dyn := entries.dropWhile fun d => d.tag ≠ dtNull

theorem values_live_append_dead (tag : Nat) (entries : List Dyn) :
    values tag (live entries) ++ values tag (dead entries) = values tag entries := by
  rw [values, values, ← map_append, ← filter_append, live, dead, takeWhile_append_dropWhile, values]

section Format
variable (l : Layout) (encoding : Encoding) (file : List UInt8)

def segmentAt (table : List UInt8) (offset : Nat) : Option Segment := do
  let type ← field encoding table offset 4
  let pOffset ← field encoding table (offset + l.pOffset) l.word
  let vaddr ← field encoding table (offset + l.pVaddr) l.word
  let filesz ← field encoding table (offset + l.pFilesz) l.word
  return ⟨type, pOffset, vaddr, filesz⟩

/-- The program headers; the header is there, and says their size in the class. -/
def segments : Option (List Segment) := do
  let phoff ← field encoding file l.phoff l.word
  let phentsize ← field encoding file l.phentsize 2
  let phnum ← field encoding file l.phnum 2
  let table ← bytesAt file phoff (l.phdr * phnum)
  if file.length < l.ehdr ∨ phentsize ≠ l.phdr then none
  else (List.range phnum).mapM fun i => segmentAt l encoding table (l.phdr * i)

def dynAt (table : List UInt8) (offset : Nat) : Option Dyn := do
  let tag ← field encoding table offset l.word
  let val ← field encoding table (offset + l.word) l.word
  return ⟨tag, val⟩

/-- The entries of a segment, as many as fit. -/
def entries (segment : Segment) : Option (List Dyn) := do
  let table ← bytesAt file segment.offset (2 * l.word * (segment.filesz / (2 * l.word)))
  (List.range (segment.filesz / (2 * l.word))).mapM fun i => dynAt l encoding table (2 * l.word * i)

/-- The bytes at an address, in the segment that is loaded there. -/
def loaded (segments : List Segment) (address size : Nat) : Option (List UInt8) := do
  let segment ← segments.find? fun s =>
    s.type = ptLoad ∧ s.vaddr ≤ address ∧ address + size ≤ s.vaddr + s.filesz
  bytesAt file (segment.offset + (address - segment.vaddr)) size

/-- The string table of some entries, of which the last one that counts is `DT_NULL`. -/
def stringTable (segments : List Segment) (entries : List Dyn) : Option (List UInt8) :=
  if (live entries).length = entries.length then none
  else
    match values dtStrtab (live entries), values dtStrsz (live entries) with
    | [address], [size] => loaded file segments address size
    | _, _ => none

/-- A dynamic segment with its entries and the string table. -/
structure DynamicSegment where
  segment : Segment
  entries : List Dyn
  table : List UInt8

def dynamicOf : Option (Option DynamicSegment) := do
  let all ← segments l encoding file
  match all.filter fun s => s.type = ptDynamic with
  | [] => some none
  | [segment] => do
    let entries ← entries l encoding file segment
    let table ← stringTable file all entries
    return some ⟨segment, entries, table⟩
  | _ => none

def DynamicSegment.names (d : DynamicSegment) : Option (List (List UInt8)) :=
  (values dtNeeded (live d.entries)).mapM (cString d.table)

/-- The names that a file of a class needs; one without a dynamic segment needs none. -/
def neededOf : Option (List (List UInt8)) := do
  let dynamic ← dynamicOf l encoding file
  dynamic.elim (some []) DynamicSegment.names

end Format

variable {all : List Segment}

theorem segments_eq_some {l : Layout} {encoding : Encoding} {file : List UInt8}
    (h : segments l encoding file = some all) :
    ∃ phoff phentsize phnum table, field encoding file l.phoff l.word = some phoff ∧
      field encoding file l.phentsize 2 = some phentsize ∧
      field encoding file l.phnum 2 = some phnum ∧
      bytesAt file phoff (l.phdr * phnum) = some table ∧
      l.ehdr ≤ file.length ∧ phentsize = l.phdr ∧
      (range phnum).mapM (fun i => segmentAt l encoding table (l.phdr * i)) = some all := by
  simp only [segments, Option.bind_eq_bind, Option.bind_eq_some_iff] at h
  obtain ⟨phoff, hphoff, phentsize, hphentsize, phnum, hphnum, table, htable, h⟩ := h
  by_cases hheader : file.length < l.ehdr ∨ phentsize ≠ l.phdr
  · rw [if_pos hheader] at h
    cases h
  · rw [if_neg hheader] at h
    obtain ⟨hlength, hsize⟩ := not_or.mp hheader
    exact ⟨phoff, phentsize, phnum, table, hphoff, hphentsize, hphnum, htable,
      Nat.le_of_not_lt hlength, Classical.not_not.mp hsize, h⟩

theorem filter_of_dynamicOf {l : Layout} {encoding : Encoding} {file : List UInt8}
    {dynamic : Option DynamicSegment} (h : dynamicOf l encoding file = some dynamic) :
    ∃ all, segments l encoding file = some all ∧
      all.filter (fun s => s.type = ptDynamic) = (dynamic.map DynamicSegment.segment).toList ∧
      ∀ d, dynamic = some d → entries l encoding file d.segment = some d.entries := by
  rw [dynamicOf, Option.bind_eq_bind, Option.bind_eq_some_iff] at h
  obtain ⟨all, hall, h⟩ := h
  refine ⟨all, hall, ?_⟩
  rcases hfilter : all.filter fun s => s.type = ptDynamic with _ | ⟨segment, _ | ⟨_, _⟩⟩
  · rw [hfilter] at h
    obtain rfl := Option.some.inj h
    exact ⟨hfilter, fun d hd => by cases hd⟩
  · simp only [hfilter, Option.bind_eq_bind, Option.bind_eq_some_iff] at h
    obtain ⟨dyns, hdyns, table, -, h⟩ := h
    obtain rfl := Option.some.inj h
    refine ⟨hfilter, fun d hd => ?_⟩
    obtain rfl := Option.some.inj hd
    exact hdyns
  · rw [hfilter] at h
    cases h

/-! ## Files of 32 bits with the lowest byte first -/

section Lsb32
variable {file table : List UInt8} {offset : Nat}

theorem mapM_eq_some_of_forall {α β : Type*} {l : List α} {f : α → Option β} {g : α → β}
    (h : ∀ a ∈ l, f a = some (g a)) : l.mapM f = some (l.map g) := by
  induction l with
  | nil => rfl
  | cons a l ih =>
    have hhead := h a mem_cons_self
    have htail := ih fun b hb => h b (mem_cons_of_mem a hb)
    rw [mapM_cons, hhead, htail]
    rfl

/-- A table is read record by record. -/
theorem eq_map_records {α : Type*} {size num : Nat} {get : Nat → Option α} {item : Nat → α}
    {all : List α} (hlength : table.length = size * num)
    (hget : ∀ offset, offset + size ≤ table.length → get offset = some (item offset))
    (h : (range num).mapM (fun i => get (size * i)) = some all) :
    all = (range num).map fun i => item (size * i) := by
  apply Option.some.inj
  rw [← h]
  apply mapM_eq_some_of_forall
  intro i hi
  apply hget
  rw [hlength, ← Nat.mul_succ]
  exact Nat.mul_le_mul_left size (mem_range.mp hi)

def segment32 (table : List UInt8) (offset : Nat) : Segment :=
  ⟨number ((table.drop offset).take 4), number ((table.drop (offset + 4)).take 4),
    number ((table.drop (offset + 8)).take 4), number ((table.drop (offset + 16)).take 4)⟩

theorem segmentAt_layout32 (h : offset + 20 ≤ table.length) :
    segmentAt layout32 .lsb table offset = some (segment32 table offset) := by
  have htype : field .lsb table offset 4 = _ := field_lsb (by omega)
  have hoffset : field .lsb table (offset + 4) 4 = _ := field_lsb (by omega)
  have hvaddr : field .lsb table (offset + 8) 4 = _ := field_lsb (by omega)
  have hfilesz : field .lsb table (offset + 16) 4 = _ := field_lsb (by omega)
  simp only [segmentAt, layout32, htype, hoffset, hvaddr, hfilesz]
  rfl

def dyn32 (table : List UInt8) (offset : Nat) : Dyn :=
  ⟨number ((table.drop offset).take 4), number ((table.drop (offset + 4)).take 4)⟩

theorem dynAt_layout32 (h : offset + 8 ≤ table.length) :
    dynAt layout32 .lsb table offset = some (dyn32 table offset) := by
  have htag : field .lsb table offset 4 = _ := field_lsb (by omega)
  have hval : field .lsb table (offset + 4) 4 = _ := field_lsb (by omega)
  simp only [dynAt, layout32, htag, hval]
  rfl

theorem segments_layout32 {phoff phnum : Nat} (hphoff : phoff = number ((file.drop 28).take 4))
    (hphnum : phnum = number ((file.drop 44).take 2)) (h : segments layout32 .lsb file = some all) :
    52 ≤ file.length ∧ number ((file.drop 42).take 2) = 32 ∧
      phoff + 32 * phnum ≤ file.length ∧
      all = (range phnum).map fun i =>
        segment32 ((file.drop phoff).take (32 * phnum)) (32 * i) := by
  obtain ⟨off, size, num, table, hoff, hsize, hnum, htable, hlength, hphdr, h⟩ := segments_eq_some h
  obtain ⟨-, rfl⟩ := field_lsb_eq_some.mp hoff
  obtain ⟨-, rfl⟩ := field_lsb_eq_some.mp hsize
  obtain ⟨-, rfl⟩ := field_lsb_eq_some.mp hnum
  obtain ⟨hfit, rfl⟩ := bytesAt_eq_some.mp htable
  subst hphoff hphnum
  refine ⟨hlength, hphdr, hfit, ?_⟩
  refine eq_map_records (length_of_fit hfit) (fun _ hoff => ?_) h
  exact segmentAt_layout32 (Nat.le_trans (Nat.add_le_add_left (by decide) _) hoff)

theorem entries_layout32 {segment : Segment} {dyns : List Dyn}
    (h : entries layout32 .lsb file segment = some dyns) :
    segment.offset + 8 * (segment.filesz / 8) ≤ file.length ∧
      dyns = (range (segment.filesz / 8)).map fun i =>
        dyn32 ((file.drop segment.offset).take (8 * (segment.filesz / 8))) (8 * i) := by
  rw [entries, Option.bind_eq_bind, Option.bind_eq_some_iff] at h
  obtain ⟨table, htable, h⟩ := h
  obtain ⟨hfit, rfl⟩ := bytesAt_eq_some.mp htable
  refine ⟨hfit, ?_⟩
  exact eq_map_records (length_of_fit hfit) (fun _ => dynAt_layout32) h

end Lsb32

def ident (file : List UInt8) : Option (Layout × Encoding) :=
  match file with
  | 0x7f :: 0x45 :: 0x4c :: 0x46 :: class_ :: data :: 1 :: _ =>
    match class_, data with
    | 1, 1 => some (layout32, .lsb)
    | 1, 2 => some (layout32, .msb)
    | 2, 1 => some (layout64, .lsb)
    | 2, 2 => some (layout64, .msb)
    | _, _ => none
  | _ => none

/-- **The names a well-formed file needs**, in order. -/
def neededNames (file : List UInt8) : Option (List (List UInt8)) := do
  let (l, encoding) ← ident file
  neededOf l encoding file

theorem neededNames_eq {file : List UInt8} {l : Layout} {encoding : Encoding}
    (h : ident file = some (l, encoding)) : neededNames file = neededOf l encoding file := by
  rw [neededNames, h]
  rfl

end Elf
