import Mathlib
import McpeLauncher.ElfFile
import McpeLauncher.WordSize

/-! # The dependencies of a mod

`ModLoader::getModDependencies` reads the names of the libraries a mod needs. It checks no sizes:
arrays may not fit on the stack, a small program header is read beyond the array, and a name may lie
behind the string table. -/
namespace ModDependencies
open Elf List

/-! ## Reading the file -/

/-- The names; a message in the log; a read outside of a buffer; arrays that do not fit on the
stack. -/
inductive Outcome where
  | returned (names : List (List UInt8))
  | failed (message : String)
  | outside
  | stackOverflow
  deriving DecidableEq

section Code
variable (word : WordSize)

/-- `fseek(file, (long) offset, SEEK_SET)`: a negative offset leaves the position as it is. -/
def fseek (position offset : Nat) : Nat := if offset < 2 ^ (word.bits - 1) then offset else position

/-- Whether `fread` reads all of the items. -/
def freadAll (file : List UInt8) (position size count : Nat) : Bool :=
  count = 0 || 0 < size && position + size * count ≤ file.length

/-- A field of a buffer, in the byte order of the machine. -/
def load (buffer : List UInt8) (offset size : Nat) : Option Nat := field .lsb buffer offset size

/-- The offset of the last header with `PT_DYNAMIC`; outside of the array it is none. -/
def findDynamic (phdr : List UInt8) (phentsize phnum : Nat) : Option (Option Nat) :=
  (List.range phnum).foldlM (fun dynamicEntry i =>
    (load phdr (phentsize * i) 4).map fun type =>
      if type = ptDynamic then some (phentsize * i) else dynamicEntry) none

/-- `dynamicData`, as many entries as the buffer has. -/
def dynamicData (buffer : List UInt8) : List Dyn :=
  (List.range (buffer.length / 8)).map fun i =>
    ⟨number ((buffer.drop (8 * i)).take 4), number ((buffer.drop (8 * i + 4)).take 4)⟩

def lastValue (tag : Nat) (entries : List Dyn) : Nat := (values tag entries).getLast?.getD 0

/-- The part behind the dynamic entries: the string table and the names. -/
def readNames (file : List UInt8) (position : Nat) (entries : List Dyn) : Outcome :=
  let strtabOff := lastValue dtStrtab entries
  let strtabSize := lastValue dtStrsz entries
  if strtabOff = 0 ∨ strtabSize = 0 then
    .failed "getModDependencies: couldn't find strtab"
  else
    let position := fseek word position strtabOff
    if freadAll file position 1 strtabSize = false then
      .failed "getModDependencies: failed to read strtab"
    else
      match (values dtNeeded entries).mapM (cString ((file.drop position).take strtabSize)) with
      | none => .outside
      | some names => .returned names

/-- The part behind the search; `stack` is what is left of it. -/
def readDynamic (stack : Nat) (file : List UInt8) (position filesz offset : Nat) : Outcome :=
  let dynamicDataCount := filesz / 8
  if stack < 8 * dynamicDataCount then .stackOverflow
  else
    let position := fseek word position offset
    if freadAll file position 8 dynamicDataCount = false then
      .failed "getModDependencies: failed to read PT_DYNAMIC"
    else
      readNames word file (position + 8 * dynamicDataCount)
        (dynamicData ((file.drop position).take (8 * dynamicDataCount)))

/-- The fields of `Elf32_Ehdr` that are used. -/
def ePhoff (file : List UInt8) : Nat := number ((file.drop 28).take 4)

def ePhentsize (file : List UInt8) : Nat := number ((file.drop 42).take 2)

def ePhnum (file : List UInt8) : Nat := number ((file.drop 44).take 2)

/-- The part behind the program headers, `phdr`; the position is behind them, too. -/
def readSegments (stack : Nat) (file phdr : List UInt8) (position : Nat) : Outcome :=
  match findDynamic phdr (ePhentsize file) (ePhnum file) with
  | none => .outside
  | some none => .failed "getModDependencies: couldn't find PT_DYNAMIC"
  | some (some entry) =>
    match load phdr (entry + 16) 4, load phdr (entry + 4) 4 with
    | some filesz, some offset => readDynamic word stack file position filesz offset
    | _, _ => .outside

def readHeaders (stack : Nat) (file : List UInt8) : Outcome :=
  let size := ePhentsize file * ePhnum file
  if 2 ^ 31 ≤ size ∨ stack < size then .stackOverflow
  else
    let position := fseek word 52 (ePhoff file)
    if freadAll file position (ePhentsize file) (ePhnum file) = false then
      .failed "getModDependencies: failed to read phnum"
    else
      readSegments word (stack - size) file ((file.drop position).take size) (position + size)

/-- For a file that may not be there, with so many bytes left on the stack. -/
def getModDependencies (stack : Nat) (file : Option (List UInt8)) : Outcome :=
  match file with
  | none => .failed "getModDependencies: failed to open mod"
  | some file =>
    if file.length < 52 then .failed "getModDependencies: failed to read header"
    else readHeaders word stack file

end Code

/-- The names that are returned, if the call ends without a fault. -/
def Outcome.names : Outcome → Option (List (List UInt8))
  | .returned names => some names
  | .failed _ => some []
  | .outside => none
  | .stackOverflow => none

/-! ## What is found in a file -/

section View
variable (word : WordSize) (file : List UInt8)

def headersAt : Nat := fseek word 52 (ePhoff file)

def headerCount : Nat :=
  if 52 ≤ file.length ∧ freadAll file (headersAt word file) (ePhentsize file) (ePhnum file) then
    ePhnum file
  else 0

def headersSize : Nat := ePhentsize file * headerCount word file

def headers : List UInt8 := (file.drop (headersAt word file)).take (headersSize word file)

def dynamicEntry : Option Nat :=
  ((List.range (headerCount word file)).filter fun i =>
    load (headers word file) (ePhentsize file * i) 4 = some ptDynamic).getLast?.map
      (ePhentsize file * ·)

def pOffset (entry : Nat) : Nat := number (((headers word file).drop (entry + 4)).take 4)

def pFilesz (entry : Nat) : Nat := number (((headers word file).drop (entry + 16)).take 4)

def dynamicAt (entry : Nat) : Nat :=
  fseek word (headersAt word file + headersSize word file) (pOffset word file entry)

def entriesOf (entry : Nat) : List Dyn :=
  if freadAll file (dynamicAt word file entry) 8 (pFilesz word file entry / 8) then
    dynamicData ((file.drop (dynamicAt word file entry)).take (8 * (pFilesz word file entry / 8)))
  else []

/-- The string table that some entries lead to, read from a position on. -/
def strtabOf (position : Nat) (entries : List Dyn) : Option (List UInt8) :=
  let strtabOff := lastValue dtStrtab entries
  let strtabSize := lastValue dtStrsz entries
  if strtabOff ≠ 0 ∧ strtabSize ≠ 0 ∧
      freadAll file (fseek word position strtabOff) 1 strtabSize then
    some ((file.drop (fseek word position strtabOff)).take strtabSize)
  else none

/-- The string table, and the places of the names in it. -/
def found : Option (List UInt8 × List Nat) := do
  let entry ← dynamicEntry word file
  let entries := entriesOf word file entry
  let table ← strtabOf word file
    (dynamicAt word file entry + 8 * (pFilesz word file entry / 8)) entries
  return (table, values dtNeeded entries)

def stringAt (table : List UInt8) (place : Nat) : List UInt8 := (table.drop place).takeWhile (· ≠ 0)

def foundNames : List (List UInt8) :=
  (found word file).elim [] fun (table, places) => places.map (stringAt table)

/-- **The fields keep within their bounds**: arrays fit on the stack, headers have the fields that
are read, and names end inside of the string table. -/
structure Bounded (stack : Nat) : Prop where
  headers_fit : 52 ≤ file.length →
    ePhentsize file * ePhnum file < 2 ^ 31 ∧ ePhentsize file * ePhnum file ≤ stack
  types : 0 < headerCount word file → 4 ≤ ePhentsize file
  fields : ∀ entry, dynamicEntry word file = some entry → entry + 20 ≤ headersSize word file
  dynamic_fits : ∀ entry, dynamicEntry word file = some entry →
    headersSize word file + 8 * (pFilesz word file entry / 8) ≤ stack
  names_end : ∀ table places, found word file = some (table, places) →
    ∀ place ∈ places, 0 ∈ table.drop place

end View

/-! ## The names at the end -/

theorem mapM_cString_eq_some {table : List UInt8} {places : List Nat}
    {names : List (List UInt8)} :
    places.mapM (cString table) = some names ↔
      (∀ place ∈ places, 0 ∈ table.drop place) ∧ places.map (stringAt table) = names := by
  induction places generalizing names with
  | nil => simp [eq_comm]
  | cons place places ih =>
    rw [mapM_cons, forall_mem_cons, map_cons]
    by_cases hend : 0 ∈ table.drop place
    · have hcString : cString table place = some (stringAt table place) := by
        rw [cString, if_pos hend, stringAt]
      rw [hcString, Option.bind_eq_bind, Option.bind_some, Option.bind_eq_bind,
        Option.bind_eq_some_iff]
      constructor
      · rintro ⟨rest, hrest, hnames⟩
        obtain ⟨hall, rfl⟩ := ih.mp hrest
        exact ⟨⟨hend, hall⟩, Option.some.inj hnames⟩
      · rintro ⟨⟨-, hall⟩, hnames⟩
        exact ⟨_, ih.mpr ⟨hall, rfl⟩, congrArg some hnames⟩
    · have hcString : cString table place = none := by rw [cString, if_neg hend]
      rw [hcString]
      exact iff_of_false (fun h => by cases h) fun h => hend h.1.1

section Stages
variable {word : WordSize} {stack : Nat} {file : List UInt8} {names : List (List UInt8)}
  {d : DynamicSegment} {buffer phdr : List UInt8} {position size offset phentsize : Nat}
  {message : String}

/-- The names end inside of the table, if there is one. -/
def NamesEnd (table : Option (List UInt8)) (places : List Nat) : Prop :=
  ∀ t, table = some t → ∀ place ∈ places, 0 ∈ t.drop place

def namesIn (table : Option (List UInt8)) (places : List Nat) : List (List UInt8) :=
  table.elim [] fun t => places.map (stringAt t)

theorem names_failed {places : List Nat} :
    (Outcome.failed message).names = some names ↔
      NamesEnd none places ∧ namesIn none places = names := by
  refine ⟨fun h => ⟨fun t ht => ?_, Option.some.inj h⟩, fun h => congrArg some h.2⟩
  cases ht

theorem names_readNames {entries : List Dyn} :
    (readNames word file position entries).names = some names ↔
      NamesEnd (strtabOf word file position entries) (values dtNeeded entries) ∧
        namesIn (strtabOf word file position entries) (values dtNeeded entries) = names := by
  rw [readNames, strtabOf]
  by_cases hzero : lastValue dtStrtab entries = 0 ∨ lastValue dtStrsz entries = 0
  · rw [if_pos hzero, if_neg fun h => hzero.elim h.1 h.2.1]
    exact names_failed
  rw [if_neg hzero]
  obtain ⟨hoff, hsize⟩ := not_or.mp hzero
  by_cases hread : freadAll file (fseek word position (lastValue dtStrtab entries)) 1
      (lastValue dtStrsz entries) = true
  · rw [if_neg (by simp [hread]), if_pos ⟨hoff, hsize, hread⟩]
    have hnames := @mapM_cString_eq_some
      ((file.drop (fseek word position (lastValue dtStrtab entries))).take
        (lastValue dtStrsz entries)) (values dtNeeded entries) names
    have hend (table : List UInt8) (places : List Nat) :
        NamesEnd (some table) places ↔ ∀ place ∈ places, 0 ∈ table.drop place :=
      ⟨fun h => h table rfl, fun h t ht => Option.some.inj ht ▸ h⟩
    rw [hend]
    refine Iff.trans ?_ hnames
    rcases (values dtNeeded entries).mapM (cString _) with _ | read
    · exact iff_of_false (fun h => by cases h) fun h => by cases h
    · exact Iff.rfl
  · rw [if_pos (Bool.eq_false_iff.mpr hread), if_neg fun h => hread h.2.2]
    exact names_failed

theorem strtabOf_nil (position : Nat) : strtabOf word file position [] = none := by
  rw [strtabOf, if_neg fun h => h.1 rfl]

theorem names_readDynamic {position filesz offset : Nat} {entries : List Dyn}
    (hentries : entries = if freadAll file (fseek word position offset) 8 (filesz / 8) then
      dynamicData ((file.drop (fseek word position offset)).take (8 * (filesz / 8))) else []) :
    (readDynamic word stack file position filesz offset).names = some names ↔
      8 * (filesz / 8) ≤ stack ∧
        NamesEnd (strtabOf word file (fseek word position offset + 8 * (filesz / 8)) entries)
          (values dtNeeded entries) ∧
        namesIn (strtabOf word file (fseek word position offset + 8 * (filesz / 8)) entries)
          (values dtNeeded entries) = names := by
  rw [readDynamic]
  by_cases hstack : stack < 8 * (filesz / 8)
  · rw [if_pos hstack]
    exact iff_of_false (fun h => by cases h) fun h => by omega
  rw [if_neg hstack, and_iff_right (Nat.le_of_not_lt hstack)]
  by_cases hread : freadAll file (fseek word position offset) 8 (filesz / 8) = true
  · rw [if_neg (by simp [hread]), hentries, if_pos hread]
    exact names_readNames
  · rw [if_pos (Bool.eq_false_iff.mpr hread), hentries, if_neg hread, strtabOf_nil]
    exact names_failed

/-! ## The program headers -/

theorem load_eq (h : offset + size ≤ buffer.length) :
    load buffer offset size = some (number ((buffer.drop offset).take size)) := by
  rw [load, field_lsb h]

theorem load_eq_none (h : ¬ offset + size ≤ buffer.length) : load buffer offset size = none := by
  rw [load, field, bytesAt, if_neg h]
  rfl

theorem findDynamic_eq {phnum : Nat} (hsize : 4 ≤ phentsize)
    (hlength : phentsize * phnum ≤ phdr.length) :
    findDynamic phdr phentsize phnum =
      some (((range phnum).filter fun i =>
        load phdr (phentsize * i) 4 = some ptDynamic).getLast?.map (phentsize * ·)) := by
  rw [findDynamic]
  induction phnum with
  | zero => rfl
  | succ n ih =>
    have hlast : phentsize * n + 4 ≤ phdr.length := by
      rw [Nat.mul_succ] at hlength
      omega
    rw [range_succ, foldlM_append, ih (by rw [Nat.mul_succ] at hlength; omega), filter_append]
    rw [Option.bind_eq_bind, Option.bind_some, foldlM_cons, load_eq hlast, Option.map_some,
      Option.bind_eq_bind, Option.bind_some, foldlM_nil]
    by_cases htype : number ((phdr.drop (phentsize * n)).take 4) = ptDynamic
    · rw [if_pos htype, filter_cons_of_pos (by simp [load_eq hlast, htype]),
        filter_nil, getLast?_concat]
      rfl
    · rw [if_neg htype, filter_cons_of_neg (by simp [load_eq hlast, htype]), filter_nil, append_nil]
      rfl

theorem findDynamic_none {phnum : Nat} (hsize : phentsize < 4) (hpos : 0 < phnum)
    (hlength : phdr.length ≤ phentsize * phnum) : findDynamic phdr phentsize phnum = none := by
  obtain ⟨n, rfl⟩ := Nat.exists_eq_succ_of_ne_zero (ne_of_gt hpos)
  have hlast : load phdr (phentsize * n) 4 = none := by
    apply load_eq_none
    rw [Nat.mul_succ] at hlength
    omega
  rw [findDynamic, range_succ, foldlM_append, Option.bind_eq_bind, Option.bind_eq_none_iff]
  intro dynamicEntry _
  rw [foldlM_cons, hlast]
  rfl

theorem freadAll_iff {count : Nat} :
    freadAll file position size count = true ↔
      count = 0 ∨ 0 < size ∧ position + size * count ≤ file.length := by
  simp [freadAll]

theorem length_take_drop {count : Nat} (h : freadAll file position size count = true) :
    ((file.drop position).take (size * count)).length = size * count := by
  rcases freadAll_iff.mp h with rfl | ⟨-, hle⟩
  · rw [Nat.mul_zero, take_zero, length_nil]
  · exact length_of_fit hle

theorem dynamicEntry_of_not_read (h : headerCount word file = 0) :
    dynamicEntry word file = none := by
  rw [dynamicEntry, h]
  rfl

theorem found_none (h : dynamicEntry word file = none) : found word file = none := by
  rw [found, h]
  rfl

theorem names_of_none (h : dynamicEntry word file = none) (hfit : 52 ≤ file.length →
      ePhentsize file * ePhnum file < 2 ^ 31 ∧ ePhentsize file * ePhnum file ≤ stack)
    (htypes : 0 < headerCount word file → 4 ≤ ePhentsize file) :
    (Outcome.failed message).names = some names ↔
      Bounded word file stack ∧ foundNames word file = names := by
  have hbounded : Bounded word file stack := by
    refine ⟨hfit, htypes, fun entry hentry => ?_, fun entry hentry => ?_, fun t places hf => ?_⟩
    · rw [h] at hentry
      cases hentry
    · rw [h] at hentry
      cases hentry
    · rw [found_none h] at hf
      cases hf
  rw [foundNames, found_none h]
  exact ⟨fun h => ⟨hbounded, Option.some.inj h⟩, fun h => congrArg some h.2⟩

section
variable {entry : Nat} (h : dynamicEntry word file = some entry)
include h

theorem found_eq :
    found word file =
      (strtabOf word file (dynamicAt word file entry + 8 * (pFilesz word file entry / 8))
        (entriesOf word file entry)).map (·, values dtNeeded (entriesOf word file entry)) := by
  rw [found, h, Option.bind_eq_bind, Option.bind_some]
  exact Option.map_eq_bind.symm

theorem bounded_of_some (hfit : 52 ≤ file.length →
      ePhentsize file * ePhnum file < 2 ^ 31 ∧ ePhentsize file * ePhnum file ≤ stack)
    (htypes : 0 < headerCount word file → 4 ≤ ePhentsize file) :
    Bounded word file stack ↔
      entry + 20 ≤ headersSize word file ∧
      headersSize word file + 8 * (pFilesz word file entry / 8) ≤ stack ∧
      NamesEnd (strtabOf word file (dynamicAt word file entry + 8 * (pFilesz word file entry / 8))
        (entriesOf word file entry)) (values dtNeeded (entriesOf word file entry)) := by
  constructor
  · intro hb
    refine ⟨hb.fields entry h, hb.dynamic_fits entry h, fun table htable => ?_⟩
    apply hb.names_end table
    rw [found_eq h, htable]
    rfl
  · rintro ⟨hfields, hdynamic, hend⟩
    refine ⟨hfit, htypes, fun e he => ?_, fun e he => ?_, fun table places hfound => ?_⟩
    · obtain rfl : entry = e := Option.some.inj (h.symm.trans he)
      exact hfields
    · obtain rfl : entry = e := Option.some.inj (h.symm.trans he)
      exact hdynamic
    · rw [found_eq h] at hfound
      obtain ⟨t, ht, hpair⟩ := Option.map_eq_some_iff.mp hfound
      obtain ⟨rfl, rfl⟩ := Prod.mk.inj hpair
      exact hend t ht

theorem foundNames_eq :
    foundNames word file =
      namesIn (strtabOf word file
        (dynamicAt word file entry + 8 * (pFilesz word file entry / 8))
        (entriesOf word file entry)) (values dtNeeded (entriesOf word file entry)) := by
  rw [foundNames, found_eq h]
  rcases strtabOf word file _ (entriesOf word file entry) with _ | table
  · rfl
  · rfl

end

section
variable (hlength : 52 ≤ file.length)
  (hread : freadAll file (headersAt word file) (ePhentsize file) (ePhnum file) = true)
include hlength hread

theorem headers_of_read :
    headerCount word file = ePhnum file ∧
      headersSize word file = ePhentsize file * ePhnum file ∧
      (headers word file).length = ePhentsize file * ePhnum file := by
  have hcount : headerCount word file = ePhnum file := by rw [headerCount, if_pos ⟨hlength, hread⟩]
  have hsize : headersSize word file = ePhentsize file * ePhnum file := by rw [headersSize, hcount]
  refine ⟨hcount, hsize, ?_⟩
  rw [headers, hsize, length_take_drop hread]

theorem findDynamic_headers (htypes : 0 < headerCount word file → 4 ≤ ePhentsize file) :
    findDynamic (headers word file) (ePhentsize file) (ePhnum file) =
      some (dynamicEntry word file) := by
  obtain ⟨hcount, -, hlen⟩ := headers_of_read hlength hread
  rw [dynamicEntry, hcount]
  rcases Nat.eq_zero_or_pos (ePhnum file) with hzero | hpos
  · rw [hzero]
    rfl
  · exact findDynamic_eq (htypes (by rw [hcount]; exact hpos)) (le_of_eq hlen.symm)

theorem names_readSegments
    (hfit : ePhentsize file * ePhnum file < 2 ^ 31 ∧ ePhentsize file * ePhnum file ≤ stack)
    (htypes : 0 < headerCount word file → 4 ≤ ePhentsize file) :
    (readSegments word (stack - headersSize word file) file (headers word file)
      (headersAt word file + headersSize word file)).names = some names ↔
      Bounded word file stack ∧ foundNames word file = names := by
  obtain ⟨-, hsize, hlen⟩ := headers_of_read hlength hread
  rw [readSegments, findDynamic_headers hlength hread htypes]
  rcases hentry : dynamicEntry word file with _ | entry
  · exact names_of_none hentry (fun _ => hfit) htypes
  rw [bounded_of_some hentry (fun _ => hfit) htypes, foundNames_eq hentry]
  by_cases hfields : entry + 20 ≤ headersSize word file
  · have hfilesz : load (headers word file) (entry + 16) 4 = some (pFilesz word file entry) :=
      load_eq (by omega)
    have hoffset : load (headers word file) (entry + 4) 4 = some (pOffset word file entry) :=
      load_eq (by omega)
    simp only [hfilesz, hoffset]
    have hdynamic := @names_readDynamic word (stack - headersSize word file) file names _ _ _
      (entriesOf word file entry) rfl
    rw [hdynamic, and_iff_right hfields, and_assoc]
    refine and_congr_left fun _ => ?_
    omega
  · have hlast : ¬ entry + 16 + 4 ≤ (headers word file).length := by omega
    simp only [load_eq_none hlast]
    exact iff_of_false (fun h => by cases h) fun h => hfields h.1.1

end

/-- **What comes of the headers**: a call without a fault is one where the fields keep within
their bounds, and it returns the names that are found. -/
theorem names_readHeaders (hlength : 52 ≤ file.length) :
    (readHeaders word stack file).names = some names ↔
      Bounded word file stack ∧ foundNames word file = names := by
  rw [readHeaders]
  by_cases hfit : 2 ^ 31 ≤ ePhentsize file * ePhnum file ∨ stack < ePhentsize file * ePhnum file
  · rw [if_pos hfit]
    refine iff_of_false (fun h => by cases h) fun h => ?_
    have := h.1.headers_fit hlength
    omega
  rw [if_neg hfit]
  have hfits : ePhentsize file * ePhnum file < 2 ^ 31 ∧ ePhentsize file * ePhnum file ≤ stack := by
    omega
  have hposition : fseek word 52 (ePhoff file) = headersAt word file := rfl
  by_cases hread : freadAll file (headersAt word file) (ePhentsize file) (ePhnum file) = true
  · obtain ⟨hcount, hsize, hlen⟩ := headers_of_read hlength hread
    rw [hposition, if_neg (by simp [hread]), ← hsize, ← headers]
    by_cases htypes : 0 < headerCount word file → 4 ≤ ePhentsize file
    · exact names_readSegments hlength hread hfits htypes
    · obtain ⟨hpos, hsmall⟩ := Classical.not_imp.mp htypes
      rw [readSegments, findDynamic_none (Nat.lt_of_not_le hsmall) (hcount ▸ hpos)
        (le_of_eq hlen)]
      exact iff_of_false (fun h => by cases h) fun h => htypes h.1.types
  · have hcount : headerCount word file = 0 := by rw [headerCount, if_neg fun h => hread h.2]
    rw [hposition, if_pos (Bool.eq_false_iff.mpr hread)]
    exact names_of_none (dynamicEntry_of_not_read hcount) (fun _ => hfits) (by omega)

theorem names_getModDependencies :
    (getModDependencies word stack (some file)).names = some names ↔
      Bounded word file stack ∧ foundNames word file = names := by
  rw [getModDependencies]
  by_cases hlength : file.length < 52
  · have hcount : headerCount word file = 0 := by rw [headerCount, if_neg fun h => by omega]
    rw [if_pos hlength]
    exact names_of_none (dynamicEntry_of_not_read hcount) (fun _ => by omega) (by omega)
  · rw [if_neg hlength, names_readHeaders (Nat.le_of_not_lt hlength)]

/-! ## Files that are read as what they are -/

/-- A file of 32 bits with the lowest byte first, and with positions that `fseek` takes. -/
structure Native (word : WordSize) (file : List UInt8) : Prop where
  format : ident file = some (layout32, .lsb)
  length : file.length < 2 ^ (word.bits - 1)

theorem Native.fseek_eq (h : Native word file) (hle : offset ≤ file.length) :
    fseek word position offset = offset := by
  rw [fseek, if_pos (lt_of_le_of_lt hle h.length)]

theorem Native.headers_eq (h : Native word file) {all : List Segment}
    (hall : segments layout32 .lsb file = some all) :
    ePhentsize file = 32 ∧ (headers word file).length = 32 * headerCount word file ∧
      all = (range (headerCount word file)).map fun i =>
        segment32 (headers word file) (32 * i) := by
  obtain ⟨hlength, hsize, hfit, hmap⟩ := segments_layout32 rfl rfl hall
  change ePhentsize file = 32 at hsize
  change ePhoff file + 32 * ePhnum file ≤ file.length at hfit
  have hat : headersAt word file = ePhoff file := h.fseek_eq (by omega)
  have hread : freadAll file (headersAt word file) (ePhentsize file) (ePhnum file) = true := by
    rw [hat, hsize, freadAll_iff]
    exact .inr ⟨by decide, hfit⟩
  obtain ⟨hcount, hheaders, hlen⟩ := headers_of_read hlength hread
  refine ⟨hsize, by rw [hlen, hcount, hsize], ?_⟩
  rw [hmap, headers, hat, hheaders, hcount, hsize]
  rfl

theorem Native.dynamicEntry_eq (h : Native word file) {dynamic : Option DynamicSegment}
    (hdynamic : dynamicOf layout32 .lsb file = some dynamic) :
    (dynamicEntry word file).map (segment32 (headers word file)) =
      dynamic.map DynamicSegment.segment := by
  obtain ⟨all, hall, hfilter, -⟩ := filter_of_dynamicOf hdynamic
  obtain ⟨hsize, hlen, rfl⟩ := h.headers_eq hall
  have htypes : ((range (headerCount word file)).filter fun i =>
      load (headers word file) (ePhentsize file * i) 4 = some ptDynamic) =
      (range (headerCount word file)).filter fun i =>
        (segment32 (headers word file) (32 * i)).type = ptDynamic := by
    apply filter_congr
    intro i hi
    have hlt := mem_range.mp hi
    rw [hsize, load_eq (by omega)]
    exact decide_eq_decide.mpr Option.some_inj
  rw [filter_map] at hfilter
  have hlast := congrArg getLast? hfilter
  rw [dynamicEntry, htypes, hsize, Option.map_map]
  rw [getLast?_map] at hlast
  refine Eq.trans hlast ?_
  rcases dynamic with _ | d
  · rfl
  · rfl

theorem Native.entriesOf_eq (h : Native word file) {entry : Nat}
    (hdynamic : dynamicOf layout32 .lsb file = some (some d))
    (hentry : segment32 (headers word file) entry = d.segment) :
    entriesOf word file entry = d.entries ∧ dynamicAt word file entry = d.segment.offset ∧
      pFilesz word file entry = d.segment.filesz := by
  obtain ⟨_, -, -, hentries⟩ := filter_of_dynamicOf hdynamic
  obtain ⟨hfit, hmap⟩ := entries_layout32 (hentries d rfl)
  have hfilesz : pFilesz word file entry = d.segment.filesz := congrArg Segment.filesz hentry
  have hoffset : pOffset word file entry = d.segment.offset := congrArg Segment.offset hentry
  have hat : dynamicAt word file entry = d.segment.offset := by
    rw [dynamicAt, hoffset, h.fseek_eq (by omega)]
  refine ⟨?_, hat, hfilesz⟩
  have hread : freadAll file d.segment.offset 8 (d.segment.filesz / 8) = true :=
    freadAll_iff.mpr (.inr ⟨by decide, hfit⟩)
  rw [entriesOf, hat, hfilesz, if_pos hread, dynamicData, length_take_drop hread,
    Nat.mul_div_cancel_left _ (by decide), hmap]
  rfl

/-- No name from behind `DT_NULL`, and the string table where its address, taken as an offset,
points; or nothing is read or needed. -/
def ReadsRight (word : WordSize) (file : List UInt8) (d : DynamicSegment) : Prop :=
  match strtabOf word file (d.segment.offset + 8 * (d.segment.filesz / 8)) d.entries with
  | none => values dtNeeded (live d.entries) = []
  | some table =>
    values dtNeeded (dead d.entries) = [] ∧
      ∀ place ∈ values dtNeeded (live d.entries), stringAt table place = stringAt d.table place

theorem map_append_eq_map_iff {α β : Type*} {l m : List α} {f g : α → β} :
    (l ++ m).map f = l.map g ↔ m = [] ∧ ∀ a ∈ l, f a = g a := by
  constructor
  · intro h
    have hlength := congrArg length h
    simp only [length_map, length_append, Nat.add_eq_left] at hlength
    obtain rfl := length_eq_zero_iff.mp hlength
    rw [append_nil] at h
    exact ⟨rfl, map_inj_left.mp h⟩
  · rintro ⟨rfl, h⟩
    rw [append_nil]
    exact map_congr_left h

theorem readsRight_iff (hnames : d.names = some names) :
    namesIn (strtabOf word file (d.segment.offset + 8 * (d.segment.filesz / 8)) d.entries)
      (values dtNeeded d.entries) = names ↔ ReadsRight word file d := by
  obtain ⟨-, rfl⟩ := mapM_cString_eq_some.mp hnames
  rw [ReadsRight, ← values_live_append_dead]
  rcases strtabOf word file _ d.entries with _ | table
  · exact eq_comm.trans map_eq_nil_iff
  · exact map_append_eq_map_iff

/-- **The names of a file that is read as what it is** are found exactly if what is read for its
dynamic segment is what it says. -/
theorem Native.foundNames_iff (h : Native word file) (hneeded : neededNames file = some names) :
    foundNames word file = names ↔
      ∀ d, dynamicOf layout32 .lsb file = some (some d) → ReadsRight word file d := by
  rw [neededNames_eq h.format, neededOf, Option.bind_eq_bind, Option.bind_eq_some_iff] at hneeded
  obtain ⟨dynamic, hdynamic, hnames⟩ := hneeded
  have hentry := h.dynamicEntry_eq hdynamic
  rw [hdynamic]
  rcases dynamic with _ | d
  · rw [Option.map_none, Option.map_eq_none_iff] at hentry
    rw [foundNames, found_none hentry]
    exact iff_of_true (Option.some.inj hnames) fun d hd => by cases hd
  · obtain ⟨entry, hsome, hsegment⟩ := Option.map_eq_some_iff.mp hentry
    obtain ⟨hentries, hat, hfilesz⟩ := h.entriesOf_eq hdynamic hsegment
    rw [foundNames_eq hsome, hentries, hat, hfilesz, readsRight_iff hnames]
    constructor
    · intro hright e he
      obtain rfl := Option.some.inj (Option.some.inj he)
      exact hright
    · intro hright
      exact hright d rfl

/-- **What is read is what a well-formed file says.** Another kind of file is read as one, which has
to need the same. -/
structure Legible (word : WordSize) (file : List UInt8) (names : List (List UInt8)) : Prop where
  native : Native word file →
    ∀ d, dynamicOf layout32 .lsb file = some (some d) → ReadsRight word file d
  foreign : ¬ Native word file →
    (found word file).elim (names = []) fun (table, places) =>
      List.Forall₂ (fun place name => stringAt table place = name) places names

theorem legible_iff (hneeded : neededNames file = some names) :
    Legible word file names ↔ foundNames word file = names := by
  have hforeign : ((found word file).elim (names = []) fun (table, places) =>
      List.Forall₂ (fun place name => stringAt table place = name) places names) ↔
      foundNames word file = names := by
    rw [foundNames]
    rcases found word file with _ | ⟨table, places⟩
    · exact eq_comm
    · change List.Forall₂ _ places names ↔ places.map (stringAt table) = names
      rw [← forall₂_map_left_iff, forall₂_eq_eq_eq]
  constructor
  · intro h
    by_cases hnative : Native word file
    · exact (hnative.foundNames_iff hneeded).mpr (h.native hnative)
    · exact hforeign.mp (h.foreign hnative)
  · intro h
    exact ⟨fun hnative => (hnative.foundNames_iff hneeded).mp h, fun _ => hforeign.mpr h⟩

/-- **Dependency scanning** reads inside of its buffers and returns what a well-formed file needs
exactly if the fields keep within their bounds and such a file is legible. -/
theorem mod_dependencies_iff (word : WordSize) (stack : Nat) (file : List UInt8) :
    (∃ ns, (getModDependencies word stack (some file)).names = some ns ∧
      ∀ names, neededNames file = some names → ns = names) ↔
    Bounded word file stack ∧
      ∀ names, neededNames file = some names → Legible word file names := by
  constructor
  · rintro ⟨ns, hnames, hright⟩
    obtain ⟨hbounded, rfl⟩ := names_getModDependencies.mp hnames
    exact ⟨hbounded, fun names hneeded => (legible_iff hneeded).mpr (hright names hneeded)⟩
  · rintro ⟨hbounded, hlegible⟩
    refine ⟨foundNames word file, names_getModDependencies.mpr ⟨hbounded, rfl⟩, ?_⟩
    intro names hneeded
    exact (legible_iff hneeded).mp (hlegible names hneeded)

/-- A header that says there is one program header of one byte. -/
def tinyHeader : List UInt8 := List.replicate 42 0 ++ [1, 0, 1, 0] ++ List.replicate 6 0

/-- A file that is loaded at 0x1000 and needs `a`. -/
def loadedHigh : List UInt8 :=
  [0x7f, 0x45, 0x4c, 0x46, 1, 1, 1] ++ List.replicate 21 0 ++
    [52, 0, 0, 0] ++ List.replicate 10 0 ++ [32, 0, 2, 0] ++ List.replicate 6 0 ++
  [1, 0, 0, 0, 0, 0, 0, 0, 0, 0x10, 0, 0, 0, 0, 0, 0, 151, 0, 0, 0] ++ List.replicate 12 0 ++
  [2, 0, 0, 0, 116, 0, 0, 0, 116, 0x10, 0, 0, 0, 0, 0, 0, 32, 0, 0, 0] ++ List.replicate 12 0 ++
  [1, 0, 0, 0, 1, 0, 0, 0, 5, 0, 0, 0, 148, 0x10, 0, 0, 10, 0, 0, 0, 3, 0, 0, 0] ++
    List.replicate 8 0 ++
  [0, 0x61, 0]

/-- The type of a program header is read behind an array of one byte; and a well-formed file at the
wrong place. -/
theorem mod_dependencies_outside :
    getModDependencies .w32 8388608 (some tinyHeader) = .outside ∧
    (¬ ∃ ns, (getModDependencies .w32 8388608 (some tinyHeader)).names = some ns ∧
      ∀ names, neededNames tinyHeader = some names → ns = names) ∧
    neededNames loadedHigh = some [[0x61]] ∧
    (getModDependencies .w32 8388608 (some loadedHigh)).names = some [] ∧
    ¬ ∃ ns, (getModDependencies .w32 8388608 (some loadedHigh)).names = some ns ∧
      ∀ names, neededNames loadedHigh = some names → ns = names := by
  have houtside : getModDependencies .w32 8388608 (some tinyHeader) = .outside := by decide +kernel
  have hneeded : neededNames loadedHigh = some [[0x61]] := by decide +kernel
  have hlost : (getModDependencies .w32 8388608 (some loadedHigh)).names = some [] := by
    decide +kernel
  refine ⟨houtside, ?_, hneeded, hlost, ?_⟩
  · rintro ⟨ns, hnames, -⟩
    cases hnames
  · rintro ⟨ns, hnames, hright⟩
    rw [hlost] at hnames
    have hwrong := Option.some.inj hnames
    rw [hright _ hneeded] at hwrong
    cases hwrong

end Stages

end ModDependencies
