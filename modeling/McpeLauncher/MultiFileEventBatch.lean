import McpeLauncher.EventDirectory
import McpeLauncher.FileEventBatch

/-! # A batch in numbered files

`MultiFileEventBatch`: events go into the file with the highest number until it is full, and come
out of the one with the lowest. Every operation keeps the `Layout` of the files, and a list that is
out stays the front of the file that its acknowledgement goes to (`Listed.rotate`). -/
namespace Cll
open List Directory Lines FileEventBatch

/-- `MultiFileEventBatch`.  The number beside the oldest batch is the one in its
path. -/
structure MultiFileEventBatch where
  fileMaxEvents : Nat
  fileMaxSize : Nat
  oldestBatch : Option (Nat × FileEventBatch)
  oldBatches : List Nat
  newestBatch : FileEventBatch
  newestBatchId : Nat

namespace MultiFileEventBatch

structure EventList where
  wrapped : VectorBatchedEventList
  hasMoreFiles : Bool

def EventList.hasMoreEvents (l : EventList) : Bool := l.hasMoreFiles || l.wrapped.moreEvents

def openBatch (fileMaxEvents fileMaxSize : Nat) (dir : Directory) (id : Nat) (write : Bool) :
    FileEventBatch × Directory :=
  let (ev, content) := FileEventBatch.construct true (dir.read id)
  let ev := ev.setLimit fileMaxEvents fileMaxSize
  (if write then ev else ev.setFinalized, dir.write id content)

def construct (fileMaxEvents fileMaxSize : Nat) (dir : Directory) :
    MultiFileEventBatch × Directory :=
  let newestBatchId := dir.getBatches.getLast?.getD 0
  let (newestBatch, dir') := openBatch fileMaxEvents fileMaxSize dir newestBatchId true
  (⟨fileMaxEvents, fileMaxSize, none, dir.getBatches.dropLast, newestBatch, newestBatchId⟩, dir')

/-- The first old batch with events, and the batches after it; those without events are deleted. -/
def checkLoop (fileMaxEvents fileMaxSize : Nat) :
    List Nat → Directory → Option (Nat × FileEventBatch) × List Nat × Directory
  | [], dir => (none, [], dir)
  | fr :: oldBatches, dir =>
    let (ev, dir) := openBatch fileMaxEvents fileMaxSize dir fr false
    if ev.hasEvents then (some (fr, ev), oldBatches, dir)
    else checkLoop fileMaxEvents fileMaxSize oldBatches (dir.remove fr)

def checkOldestBatch (m : MultiFileEventBatch) (dir : Directory) :
    MultiFileEventBatch × Directory :=
  match m.oldestBatch with
  | some _ => (m, dir)
  | none =>
    let (oldestBatch, oldBatches, dir) := checkLoop m.fileMaxEvents m.fileMaxSize m.oldBatches dir
    ({ m with oldestBatch := oldestBatch, oldBatches := oldBatches }, dir)

def rotate (m : MultiFileEventBatch) (dir : Directory) : MultiFileEventBatch × Directory :=
  let finished := m.newestBatch.setFinalized
  let m :=
    if m.oldestBatch.isNone && m.oldBatches.isEmpty then
      { m with oldestBatch := some (m.newestBatchId, finished) }
    else { m with oldBatches := m.oldBatches ++ [m.newestBatchId] }
  let newestBatchId := m.newestBatchId + 1
  let (newestBatch, dir) := openBatch m.fileMaxEvents m.fileMaxSize dir newestBatchId true
  ({ m with newestBatch := newestBatch, newestBatchId := newestBatchId }, dir)

/-- The batch once an event of this size can be added, if it can be at all. -/
def rotated (m : MultiFileEventBatch) (dir : Directory) (size : Nat) :
    MultiFileEventBatch × Directory :=
  if !m.newestBatch.canAddEvent size then m.rotate dir else (m, dir)

/-- `addEvent`; `results` are what `write` returns. -/
def addEvent (m : MultiFileEventBatch) (dir : Directory) (e : Event)
    (results : List (Option Nat)) : Bool × MultiFileEventBatch × Directory :=
  let data := e.line
  let (m, dir) := m.rotated dir data.length
  let (ok, newestBatch, content) := m.newestBatch.addEvent (dir.read m.newestBatchId) data results
  (ok, { m with newestBatch := newestBatch }, dir.write m.newestBatchId content)

/-- The part of `getEventsForUpload` after `checkOldestBatch`. -/
def listEvents (m : MultiFileEventBatch) (dir : Directory) (maxCount maxSize : Nat) :
    Option EventList × MultiFileEventBatch :=
  match m.oldestBatch with
  | some (id, ev) =>
    let (ret, ev) := ev.getEventsForUpload (dir.read id) maxCount maxSize
    (ret.map fun l => ⟨l, true⟩, { m with oldestBatch := some (id, ev) })
  | none =>
    let (ret, ev) := m.newestBatch.getEventsForUpload (dir.read m.newestBatchId) maxCount maxSize
    (ret.map fun l => ⟨l, false⟩, { m with newestBatch := ev })

def getEventsForUpload (m : MultiFileEventBatch) (dir : Directory) (maxCount maxSize : Nat) :
    Option EventList × MultiFileEventBatch × Directory :=
  let (m, dir) := m.checkOldestBatch dir
  let (ret, m) := m.listEvents dir maxCount maxSize
  (ret, m, dir)

/-- `onEventsUploaded`; `rounds` are what the calls of the copy loop return. -/
def onEventsUploaded (m : MultiFileEventBatch) (dir : Directory) (events : EventList)
    (rounds : List FileEventBatch.ShiftRound) : MultiFileEventBatch × Directory :=
  match m.oldestBatch with
  | some (id, ev) =>
    let (ev, content) := ev.onEventsUploaded (dir.read id) events.wrapped rounds
    ({ m with oldestBatch := if ev.hasEvents then some (id, ev) else none },
      content.elim (dir.remove id) (dir.write id))
  | none =>
    let (ev, content) :=
      m.newestBatch.onEventsUploaded (dir.read m.newestBatchId) events.wrapped rounds
    ({ m with newestBatch := ev },
      content.elim (dir.remove m.newestBatchId) (dir.write m.newestBatchId))

def hasEvents (m : MultiFileEventBatch) : Bool :=
  !m.oldBatches.isEmpty || m.oldestBatch.isSome || m.newestBatch.hasEvents

def setFileLimits (m : MultiFileEventBatch) (maxEvents maxSize : Nat) : MultiFileEventBatch :=
  { m with
    fileMaxSize := maxSize
    fileMaxEvents := maxEvents
    oldestBatch := m.oldestBatch.map fun (id, ev) => (id, ev.setLimit maxEvents maxSize)
    newestBatch := m.newestBatch.setLimit maxEvents maxSize }

/-- `onEventsUploaded` when the calls of the copy loop succeed. -/
abbrev acknowledged (m : MultiFileEventBatch) (dir : Directory) (events : EventList)
    (rounds : List (Nat × List Nat)) : MultiFileEventBatch × Directory :=
  m.onEventsUploaded dir events (rounds.map FileEventBatch.ShiftRound.clean)

/-! ## How object and directory fit together -/

/-- The file of the oldest batch, if there is one. -/
inductive Front : Option (Nat × FileEventBatch) → Directory → Prop
  | none : Front none []
  | some {id ev content} : ev.Represents content (Lines.lines 10 content) →
      ev.finalized = true → Front (some (id, ev)) [(id, content)]

/-- The files of the oldest batch, those waiting, and the newest; they consist of whole lines. -/
structure Layout (m : MultiFileEventBatch) (dir front olds : Directory) (newest : List UInt8) :
    Prop where
  dir_eq : dir = front ++ (olds ++ [(m.newestBatchId, newest)])
  ordered : dir.Ordered
  front_eq : Front m.oldestBatch front
  olds_eq : olds.map Prod.fst = m.oldBatches
  whole : ∀ f ∈ olds, f.2 = (Lines.lines 10 f.2).flatten
  newest_eq : m.newestBatch.Represents newest (Lines.lines 10 newest)
  newest_open : m.newestBatch.finalized = false

/-- Object and directory fit together, and the files hold the lines `ls`. -/
def Represents (m : MultiFileEventBatch) (dir : Directory) (ls : List (List UInt8)) : Prop :=
  (∃ front olds newest, Layout m dir front olds newest) ∧ dir.events = ls

/-- The list is one of the batch that an acknowledgement goes to. -/
def Listed (l : EventList) (m : MultiFileEventBatch) (dir : Directory) : Prop :=
  match m.oldestBatch with
  | some (id, ev) => FileEventBatch.Listed l.wrapped ev (Lines.lines 10 (dir.read id))
  | none => m.oldBatches = [] ∧
      FileEventBatch.Listed l.wrapped m.newestBatch (Lines.lines 10 (dir.read m.newestBatchId))

section Listed
variable {m : MultiFileEventBatch} {dir : Directory} {l : EventList}

theorem listed_oldest {id : Nat} {ev : FileEventBatch} (hsome : m.oldestBatch = some (id, ev)) :
    Listed l m dir ↔ FileEventBatch.Listed l.wrapped ev (lines 10 (dir.read id)) := by
  rw [Listed, hsome]

theorem listed_newest (hnone : m.oldestBatch = none) :
    Listed l m dir ↔ m.oldBatches = [] ∧
      FileEventBatch.Listed l.wrapped m.newestBatch
        (lines 10 (dir.read m.newestBatchId)) := by
  rw [Listed, hnone]

end Listed

section Front
variable {oldestBatch : Option (Nat × FileEventBatch)} {front : Directory}
  (h : Front oldestBatch front)
include h

theorem Front.whole : ∀ f ∈ front, f.2 = (lines 10 f.2).flatten := by
  cases h with
  | none => exact nofun
  | some hev _ =>
    intro f hf
    rw [mem_singleton.mp hf]
    exact hev.content_eq

theorem Front.setLimit (maxEvents maxSize : Nat) :
    Front (oldestBatch.map fun (id, ev) => (id, ev.setLimit maxEvents maxSize)) front := by
  cases h with
  | none => exact .none
  | some hev hfin => exact .some (hev.setLimit maxEvents maxSize) hfin

end Front

section Layout
variable {m : MultiFileEventBatch} {dir front olds : Directory} {newest : List UInt8}
  (h : Layout m dir front olds newest)
include h

theorem Layout.front_eq_nil (hnone : m.oldestBatch = none) : front = [] := by
  have hfront := h.front_eq
  rw [hnone] at hfront
  cases hfront
  rfl

theorem Layout.newest_not_mem : m.newestBatchId ∉ (front ++ olds).map Prod.fst := by
  have hord := h.ordered
  rw [h.dir_eq, ← append_assoc] at hord
  exact hord.not_mem.1

theorem Layout.read_newest : dir.read m.newestBatchId = newest := by
  rw [h.dir_eq, ← append_assoc]
  exact read_mid h.newest_not_mem

theorem Layout.write_newest (content : List UInt8) :
    dir.write m.newestBatchId content = front ++ (olds ++ [(m.newestBatchId, content)]) := by
  rw [h.dir_eq, ← append_assoc, write_mid h.newest_not_mem, append_assoc]

theorem Layout.whole_all : ∀ f ∈ dir, f.2 = (lines 10 f.2).flatten := by
  intro f hf
  rw [h.dir_eq, mem_append, mem_append, mem_singleton] at hf
  rcases hf with hf | hf | rfl
  · exact h.front_eq.whole f hf
  · exact h.whole f hf
  · exact h.newest_eq.content_eq

theorem Layout.events_eq : dir.events = (front ++ olds).flatMap (fun f => lines 10 f.2) ++
      lines 10 newest := by
  rw [h.ordered.events_eq, h.dir_eq]
  simp

end Layout

section Opening
variable {A B dir : Directory} {id : Nat} {c : List UInt8} (fileMaxEvents fileMaxSize : Nat)

theorem openBatch_spec (dir : Directory) (id : Nat) (write : Bool) :
    ∃ ev, openBatch fileMaxEvents fileMaxSize dir id write =
        (ev, dir.write id (lines 10 (dir.read id)).flatten) ∧
      ev.Represents (lines 10 (dir.read id)).flatten (lines 10 (dir.read id)) ∧
      ev.finalized = !write := by
  have hopened := FileEventBatch.construct_represents (dir.read id)
  have hcontent := hopened.content_eq
  rw [hcontent] at hopened
  have hfin := construct_defaults (dir.read id)
  cases write with
  | true =>
    refine ⟨_, ?_, hopened.setLimit fileMaxEvents fileMaxSize, hfin⟩
    simp only [openBatch, if_true, hcontent]
  | false =>
    refine ⟨_, ?_, (hopened.setLimit fileMaxEvents fileMaxSize).setFinalized, rfl⟩
    simp only [openBatch, Bool.false_eq_true, if_false, hcontent]

theorem openBatch_mid (hA : id ∉ A.map Prod.fst) (hc : c = (lines 10 c).flatten)
    (write : Bool) :
    ∃ ev, openBatch fileMaxEvents fileMaxSize (A ++ (id, c) :: B) id write =
        (ev, A ++ (id, c) :: B) ∧
      ev.Represents c (lines 10 c) ∧ ev.finalized = !write := by
  obtain ⟨ev, hopen, hev, hfin⟩ := openBatch_spec fileMaxEvents fileMaxSize (A ++ (id, c) :: B) id
    write
  rw [read_mid hA, ← hc] at hopen hev
  rw [write_mid hA] at hopen
  exact ⟨ev, hopen, hev, hfin⟩

theorem openBatch_new (hid : id ∉ dir.map Prod.fst) (write : Bool) :
    ∃ ev, openBatch fileMaxEvents fileMaxSize dir id write = (ev, dir ++ [(id, [])]) ∧
      ev.Represents [] (lines 10 []) ∧ ev.finalized = !write := by
  obtain ⟨ev, hopen, hev, hfin⟩ := openBatch_spec fileMaxEvents fileMaxSize dir id write
  rw [read_of_not_mem hid] at hopen hev
  rw [write_of_not_mem hid] at hopen
  exact ⟨ev, hopen, hev, hfin⟩

theorem construct_layout (hord : dir.Ordered)
    (hwhole : ∀ f ∈ dir, f.2 = (lines 10 f.2).flatten) :
    (∃ newest, Layout (construct fileMaxEvents fileMaxSize dir).1
        (construct fileMaxEvents fileMaxSize dir).2 [] dir.dropLast newest) ∧
      (construct fileMaxEvents fileMaxSize dir).2.events = dir.events := by
  rcases eq_nil_or_concat' dir with rfl | ⟨olds, ⟨id, newest⟩, rfl⟩
  · obtain ⟨ev, hopen, hev, hfin⟩ := openBatch_new fileMaxEvents fileMaxSize
      (show 0 ∉ map Prod.fst ([] : Directory) by simp) true
    have hbatches : getBatches [] = [] := rfl
    simp only [construct, hbatches, getLast?_nil, Option.getD_none, hopen, dropLast_nil]
    exact ⟨⟨[], rfl, by simp [Ordered], .none, rfl, by simp, hev, hfin⟩, rfl⟩
  · obtain ⟨ev, hopen, hev, hfin⟩ := openBatch_mid fileMaxEvents fileMaxSize (B := [])
      hord.not_mem.1 (hwhole (id, newest) (by simp)) true
    have hbatches : getBatches (olds ++ [(id, newest)]) = olds.map Prod.fst ++ [id] := by
      rw [hord.getBatches_eq, map_append]
      rfl
    simp only [construct, hbatches, getLast?_concat, Option.getD_some, hopen, dropLast_concat]
    exact ⟨⟨newest, rfl, hord, .none, rfl, fun f hf => hwhole f (by simp [hf]), hev, hfin⟩,
      trivial⟩

/-- **The object is found again from the directory.** -/
theorem construct_represents (hord : dir.Ordered)
    (hwhole : ∀ f ∈ dir, f.2 = (lines 10 f.2).flatten) :
    (construct fileMaxEvents fileMaxSize dir).1.Represents
      (construct fileMaxEvents fileMaxSize dir).2 dir.events := by
  obtain ⟨⟨newest, hlayout⟩, hevents⟩ := construct_layout fileMaxEvents fileMaxSize hord hwhole
  exact ⟨⟨[], dir.dropLast, newest, hlayout⟩, hevents⟩

end Opening

/-! ### The oldest batch -/

def hasLines (f : Nat × List UInt8) : Bool := !(lines 10 f.2).isEmpty

/-- The loop removes files without events from the front, and no others. -/
theorem checkLoop_spec (fileMaxEvents fileMaxSize newestBatchId : Nat) (newest : List UInt8)
    {olds : Directory} (hord : Ordered (olds ++ [(newestBatchId, newest)]))
    (hwhole : ∀ f ∈ olds, f.2 = (lines 10 f.2).flatten) :
    ∃ oldestBatch front olds',
      checkLoop fileMaxEvents fileMaxSize (olds.map Prod.fst) (olds ++ [(newestBatchId, newest)]) =
        (oldestBatch, olds'.map Prod.fst, front ++ (olds' ++ [(newestBatchId, newest)])) ∧
      Front oldestBatch front ∧ (oldestBatch = none → olds' = []) ∧
      Ordered (front ++ (olds' ++ [(newestBatchId, newest)])) ∧
      (∀ f ∈ olds', f.2 = (lines 10 f.2).flatten) ∧
      (front ++ olds').flatMap (fun f => lines 10 f.2) =
        olds.flatMap (fun f => lines 10 f.2) ∧ front ++ olds' ⊆ olds ∧
      olds.find? hasLines = front.head? := by
  induction olds with
  | nil => exact ⟨none, [], [], rfl, .none, fun _ => rfl, hord, by simp, rfl, by simp, rfl⟩
  | cons f olds ih =>
    obtain ⟨fr, c⟩ := f
    have hwhole' : ∀ f ∈ olds, f.2 = (lines 10 f.2).flatten :=
      fun f hf => hwhole f (mem_cons_of_mem _ hf)
    have hc : c = (lines 10 c).flatten := hwhole (fr, c) mem_cons_self
    have hfr : fr ∉ map Prod.fst ([] : Directory) := not_mem_nil
    obtain ⟨ev, hopen, hev, hfin⟩ := openBatch_mid fileMaxEvents fileMaxSize
      (B := olds ++ [(newestBatchId, newest)]) hfr hc false
    rw [nil_append] at hopen
    simp only [map_cons, cons_append, checkLoop, hopen]
    by_cases hhas : ev.hasEvents = true
    · rw [if_pos hhas]
      have hne : lines 10 c ≠ [] := hev.hasEvents_iff.mp hhas
      exact ⟨_, [(fr, c)], olds, rfl, .some hev hfin, by simp, hord, hwhole', rfl,
        List.Subset.refl _, by simp [hasLines, hne]⟩
    · rw [if_neg hhas]
      have hempty : lines 10 c = [] := not_not.mp fun hne => hhas (hev.hasEvents_iff.mpr hne)
      have hrm : remove ((fr, c) :: (olds ++ [(newestBatchId, newest)])) fr =
          olds ++ [(newestBatchId, newest)] :=
        remove_mid hfr (Ordered.not_mem (A := []) hord).2
      obtain ⟨oldestBatch, front, olds', hloop, hfront, hnone, hord', hwhole'', hlines, hsub,
        hfound⟩ := ih (Ordered.erase (A := []) hord) hwhole'
      refine ⟨oldestBatch, front, olds', by rw [hrm, hloop], hfront, hnone, hord', hwhole'', ?_,
        subset_cons_of_subset _ hsub, ?_⟩
      · rw [hlines, flatMap_cons, hempty, nil_append]
      · rw [← hfound, find?_cons_of_neg (by simp [hasLines, hempty])]

section Operations
variable {m : MultiFileEventBatch} {dir front olds : Directory} {newest : List UInt8}
  {id maxCount maxSize : Nat} {ev : FileEventBatch} {l : EventList}

theorem checkOldestBatch_some {f : Nat × FileEventBatch} (hsome : m.oldestBatch = some f) :
    m.checkOldestBatch dir = (m, dir) := by
  rw [checkOldestBatch, hsome]

theorem Listed.checkOldestBatch (hl : Listed l m dir) : m.checkOldestBatch dir = (m, dir) := by
  rcases hold : m.oldestBatch with _ | f
  · obtain ⟨hempty, _⟩ := (listed_newest hold).mp hl
    rw [MultiFileEventBatch.checkOldestBatch, hold]
    simp only [hempty, checkLoop, ← hold]
    rw [← hempty]
  · exact checkOldestBatch_some hold

theorem listEvents_oldest (hsome : m.oldestBatch = some (id, ev)) (maxCount maxSize : Nat) :
    let listed := ev.getEventsForUpload (dir.read id) maxCount maxSize
    m.listEvents dir maxCount maxSize =
      (listed.1.map fun l => ⟨l, true⟩, { m with oldestBatch := some (id, listed.2) }) := by
  rw [listEvents, hsome]

theorem Listed.setFileLimits (hl : Listed l m dir) (maxEvents maxSize : Nat) :
    Listed l (m.setFileLimits maxEvents maxSize) dir := by
  rcases hold : m.oldestBatch with _ | ⟨id, ev⟩
  · obtain ⟨hempty, hl⟩ := (listed_newest hold).mp hl
    refine (listed_newest ?_).mpr ⟨hempty, hl.of_streamAtEnd rfl⟩
    rw [MultiFileEventBatch.setFileLimits, hold, Option.map_none]
  · have hset : (m.setFileLimits maxEvents maxSize).oldestBatch =
        some (id, ev.setLimit maxEvents maxSize) := by
      rw [MultiFileEventBatch.setFileLimits, hold, Option.map_some]
    exact (listed_oldest hset).mpr (((listed_oldest hold).mp hl).of_streamAtEnd rfl)

variable (h : Layout m dir front olds newest)
include h

/-- Afterwards, files wait only behind an open one. -/
theorem Layout.checkOldestBatch :
    ∃ front' olds',
      Layout (m.checkOldestBatch dir).1 (m.checkOldestBatch dir).2 front' olds' newest ∧
      (m.checkOldestBatch dir).2.events = dir.events ∧
      ((m.checkOldestBatch dir).1.oldestBatch = none →
        (m.checkOldestBatch dir).1.oldBatches = []) ∧ front' ++ olds' ⊆ front ++ olds ∧
      (m.oldestBatch = none → olds.find? hasLines = front'.head?) := by
  rcases hold : m.oldestBatch with _ | f
  · have hdir := h.dir_eq
    have hord := h.ordered
    rw [h.front_eq_nil hold, nil_append] at hdir
    rw [hdir] at hord
    obtain ⟨oldestBatch, front', olds', hloop, hfront, hempty, hord', hwhole, hlines, hsub,
      hfound⟩ := checkLoop_spec m.fileMaxEvents m.fileMaxSize m.newestBatchId newest hord h.whole
    rw [h.olds_eq, ← hdir] at hloop
    simp only [MultiFileEventBatch.checkOldestBatch, hold, hloop]
    have hlayout : Layout { m with oldestBatch := oldestBatch, oldBatches := olds'.map Prod.fst }
        (front' ++ (olds' ++ [(m.newestBatchId, newest)])) front' olds' newest :=
      ⟨rfl, hord', hfront, rfl, hwhole, h.newest_eq, h.newest_open⟩
    refine ⟨front', olds', hlayout, ?_, fun hn => by simp [hempty hn],
      subset_append_of_subset_right _ hsub, fun _ => hfound⟩
    rw [hlayout.events_eq, h.events_eq, hlines, h.front_eq_nil hold, nil_append]
  · rw [checkOldestBatch_some hold]
    exact ⟨front, olds, h, rfl, fun hnone => absurd (hold.symm.trans hnone) (by simp),
      List.Subset.refl _, nofun⟩

theorem Layout.oldest (hsome : m.oldestBatch = some (id, ev)) :
    front = [(id, dir.read id)] ∧ ev.finalized = true ∧
      ev.Represents (dir.read id) (lines 10 (dir.read id)) := by
  have hfront := h.front_eq
  have hdir := h.dir_eq
  rw [hsome] at hfront
  cases hfront with
  | @some _ _ content hev hfin =>
    have hread : dir.read id = content := by
      rw [hdir]
      exact read_mid (A := []) not_mem_nil
    rw [hread]
    exact ⟨rfl, hfin, hev⟩

theorem Layout.listEvents_newest (hnone : m.oldestBatch = none) (maxCount maxSize : Nat) :
    m.listEvents dir maxCount maxSize =
      ((m.newestBatch.getEventsForUpload newest maxCount maxSize).1.map fun l => ⟨l, false⟩,
        { m with
          newestBatch := (m.newestBatch.getEventsForUpload newest maxCount maxSize).2 }) := by
  rw [MultiFileEventBatch.listEvents, hnone, h.read_newest]

theorem Layout.listEvents (maxCount maxSize : Nat) :
    Layout (m.listEvents dir maxCount maxSize).2 dir front olds newest := by
  rcases hold : m.oldestBatch with _ | ⟨id, ev⟩
  · rw [h.listEvents_newest hold]
    refine ⟨h.dir_eq, h.ordered, h.front_eq, h.olds_eq, h.whole, ?_, ?_⟩
    · exact h.newest_eq.getEventsForUpload maxCount maxSize
    · exact (getEventsForUpload_finalized _ _).trans h.newest_open
  · obtain ⟨hfront, hfin, hev⟩ := h.oldest hold
    rw [listEvents_oldest hold]
    refine ⟨h.dir_eq, h.ordered, ?_, h.olds_eq, h.whole, h.newest_eq, h.newest_open⟩
    rw [hfront]
    refine .some (hev.getEventsForUpload maxCount maxSize) ?_
    rw [getEventsForUpload_finalized, hfin]

theorem Layout.listed (hempty : m.oldestBatch = none → m.oldBatches = [])
    (hl : (m.listEvents dir maxCount maxSize).1 = some l) :
    Listed l (m.listEvents dir maxCount maxSize).2 dir := by
  rcases hold : m.oldestBatch with _ | ⟨id, ev⟩
  · rw [h.listEvents_newest hold] at hl ⊢
    obtain ⟨w, hw, rfl⟩ := Option.map_eq_some_iff.mp hl
    refine (listed_newest (by rw [hold])).mpr ⟨hempty hold, ?_⟩
    rw [h.read_newest]
    exact h.newest_eq.listed hw
  · obtain ⟨_, _, hev⟩ := h.oldest hold
    rw [listEvents_oldest hold] at hl ⊢
    obtain ⟨w, hw, rfl⟩ := Option.map_eq_some_iff.mp hl
    exact (listed_oldest rfl).mpr (hev.listed hw)

theorem Layout.listEvents_none (hnone : (m.listEvents dir maxCount maxSize).1 = none) :
    (m.listEvents dir maxCount maxSize).2 = m := by
  rcases hold : m.oldestBatch with _ | ⟨id, ev⟩
  · rw [h.listEvents_newest hold] at hnone ⊢
    rw [getEventsForUpload_none (Option.map_eq_none_iff.mp hnone)]
  · rw [listEvents_oldest hold] at hnone ⊢
    rw [getEventsForUpload_none (Option.map_eq_none_iff.mp hnone), ← hold]

theorem Listed.getEventsForUpload (hl : Listed l m dir)
    (hnone : (m.getEventsForUpload dir maxCount maxSize).1 = none) :
    Listed l (m.getEventsForUpload dir maxCount maxSize).2.1
      (m.getEventsForUpload dir maxCount maxSize).2.2 := by
  simp only [MultiFileEventBatch.getEventsForUpload, hl.checkOldestBatch] at hnone ⊢
  rw [h.listEvents_none hnone]
  exact hl

theorem Layout.lt_next : ∀ k ∈ dir.map Prod.fst, k < m.newestBatchId + 1 := by
  intro k hk
  have hord := h.ordered
  rw [h.dir_eq, ← append_assoc, Ordered, map_append, pairwise_append] at hord
  rw [h.dir_eq, ← append_assoc, map_append, mem_append] at hk
  rcases hk with hk | hk
  · exact Nat.lt_succ_of_lt (hord.2.2 k hk _ (by simp))
  · simp only [map_cons, map_nil, mem_singleton] at hk
    omega

/-- Rotation: the full file becomes the oldest batch, or waits with the others,
and a new file is created behind it. -/
theorem Layout.rotate_eq :
    ∃ ev, ev.Represents [] (lines 10 []) ∧ ev.finalized = false ∧
      m.rotate dir =
        (if m.oldestBatch = none ∧ m.oldBatches = [] then
          { m with oldestBatch := some (m.newestBatchId, m.newestBatch.setFinalized),
                   newestBatch := ev, newestBatchId := m.newestBatchId + 1 }
        else
          { m with oldBatches := m.oldBatches ++ [m.newestBatchId],
                   newestBatch := ev, newestBatchId := m.newestBatchId + 1 },
        dir ++ [(m.newestBatchId + 1, [])]) := by
  obtain ⟨ev, hopen, hev, hfin⟩ := openBatch_new m.fileMaxEvents m.fileMaxSize
    (fun hmem => lt_irrefl _ (h.lt_next _ hmem)) true
  refine ⟨ev, hev, hfin, ?_⟩
  by_cases hfirst : m.oldestBatch = none ∧ m.oldBatches = []
  · have hcond : (m.oldestBatch.isNone && m.oldBatches.isEmpty) = true := by simp [hfirst]
    simp only [MultiFileEventBatch.rotate, if_pos hcond, if_pos hfirst, hopen]
  · have hcond : (m.oldestBatch.isNone && m.oldBatches.isEmpty) ≠ true := by simpa using hfirst
    simp only [MultiFileEventBatch.rotate, if_neg hcond, if_neg hfirst, hopen]

theorem Layout.rotate :
    ∃ front' olds', Layout (m.rotate dir).1 (m.rotate dir).2 front' olds' [] ∧
      (m.rotate dir).2.events = dir.events ∧
      front' ++ olds' = front ++ olds ++ [(m.newestBatchId, newest)] := by
  obtain ⟨ev, hev, hopen, heq⟩ := h.rotate_eq
  have hord : Ordered (dir ++ [(m.newestBatchId + 1, [])]) := by
    rw [Ordered, map_append, pairwise_append]
    refine ⟨h.ordered, by simp, fun k hk k' hk' => ?_⟩
    simp only [map_cons, map_nil, mem_singleton] at hk'
    rw [hk']
    exact h.lt_next k hk
  have hevents : events (dir ++ [(m.newestBatchId + 1, [])]) = dir.events := by
    rw [hord.events_eq, h.ordered.events_eq, flatMap_append]
    simp [lines, Lines.split]
  rw [heq]
  by_cases hfirst : m.oldestBatch = none ∧ m.oldBatches = []
  · rw [if_pos hfirst]
    have holds : olds = [] := by simpa [hfirst.2] using h.olds_eq
    have hdir : dir = [(m.newestBatchId, newest)] := by
      rw [h.dir_eq, h.front_eq_nil hfirst.1, holds, nil_append, nil_append]
    refine ⟨[(m.newestBatchId, newest)], [], ⟨?_, hord, ?_, ?_, by simp, hev, hopen⟩, hevents, ?_⟩
    · rw [hdir, nil_append]
    · exact .some h.newest_eq.setFinalized rfl
    · exact hfirst.2.symm
    · rw [h.front_eq_nil hfirst.1, holds]
      rfl
  · rw [if_neg hfirst]
    refine ⟨front, olds ++ [(m.newestBatchId, newest)],
      ⟨?_, hord, h.front_eq, ?_, ?_, hev, hopen⟩, hevents, (append_assoc _ _ _).symm⟩
    · rw [h.dir_eq]
      simp
    · rw [map_append, h.olds_eq]
      rfl
    · intro f hf
      rcases mem_append.mp hf with hf | hf
      · exact h.whole f hf
      · rw [mem_singleton.mp hf]
        exact h.newest_eq.content_eq

theorem Layout.oldest_ne_newest (hsome : m.oldestBatch = some (id, ev)) : id ≠ m.newestBatchId := by
  intro heq
  have hnot := h.newest_not_mem
  rw [(h.oldest hsome).1, ← heq] at hnot
  exact hnot (by simp)

theorem Listed.rotate (hl : Listed l m dir) : Listed l (m.rotate dir).1 (m.rotate dir).2 := by
  obtain ⟨ev, _, _, heq⟩ := h.rotate_eq
  have hnext : m.newestBatchId + 1 ∉ dir.map Prod.fst :=
    fun hmem => lt_irrefl _ (h.lt_next _ hmem)
  rw [heq, ← write_of_not_mem hnext]
  rcases hold : m.oldestBatch with _ | ⟨id, old⟩
  · -- the list is of the newest file, which is now the oldest batch
    obtain ⟨hempty, hl⟩ := (listed_newest hold).mp hl
    rw [if_pos ⟨rfl, hempty⟩]
    refine (listed_oldest rfl).mpr ?_
    rw [read_write_ne (ne_of_lt (Nat.lt_succ_self _))]
    exact hl.of_streamAtEnd rfl
  · have hlt : id < m.newestBatchId + 1 := by
      refine h.lt_next id ?_
      rw [h.dir_eq, (h.oldest hold).1]
      simp
    refine (listed_oldest rfl).mpr ?_
    rw [read_write_ne (ne_of_lt hlt)]
    exact (listed_oldest hold).mp hl

theorem Layout.rotated (size : Nat) :
    ∃ front' olds' newest',
      Layout (m.rotated dir size).1 (m.rotated dir size).2 front' olds' newest' ∧
        (m.rotated dir size).2.events = dir.events ∧
        ∀ f ∈ front' ++ olds', f ∈ front ++ olds ∨
          m.newestBatch.canAddEvent size = false ∧ f = (m.newestBatchId, newest) := by
  rw [MultiFileEventBatch.rotated]
  split
  · next hfull =>
    obtain ⟨front', olds', h', hevents, hfiles⟩ := h.rotate
    refine ⟨front', olds', [], h', hevents, fun f hf => ?_⟩
    rw [hfiles, mem_append, mem_singleton] at hf
    exact hf.imp_right fun hf => ⟨by simpa using hfull, hf⟩
  · exact ⟨front, olds, newest, h, rfl, fun f hf => .inl hf⟩

theorem Listed.rotated (hl : Listed l m dir) (size : Nat) :
    Listed l (m.rotated dir size).1 (m.rotated dir size).2 := by
  rw [MultiFileEventBatch.rotated]
  split
  · exact hl.rotate h
  · exact hl

theorem Layout.append (e : Event) (counts : List Nat) :
    ∃ ok ev content,
      m.newestBatch.addEvent (dir.read m.newestBatchId) e.line (counts.map some) =
        (ok, ev, content) ∧
      Layout { m with newestBatch := ev } (dir.write m.newestBatchId content) front olds content ∧
      (dir.write m.newestBatchId content).events =
        (if ok then dir.events ++ [e.line] else dir.events) ∧
      ∀ l : EventList, FileEventBatch.Listed l.wrapped m.newestBatch (lines 10 newest) →
        FileEventBatch.Listed l.wrapped ev (lines 10 content) := by
  obtain ⟨ok, ev, content, hadd, hev, hfin, hlisted⟩ := h.newest_eq.addEvent_cases e counts
  have hlines := hev.lines_eq
  rw [← hlines] at hev hlisted
  have hord : Ordered (front ++ (olds ++ [(m.newestBatchId, content)])) := by
    have hord := h.ordered
    rw [h.dir_eq, ← append_assoc] at hord
    rw [← append_assoc]
    exact hord.set content
  have hlayout : Layout { m with newestBatch := ev } (dir.write m.newestBatchId content) front olds
      content := by
    rw [h.write_newest]
    exact ⟨rfl, hord, h.front_eq, h.olds_eq, h.whole, hev, hfin.trans h.newest_open⟩
  refine ⟨ok, ev, content, ?_, hlayout, ?_, fun l => hlisted l.wrapped⟩
  · rw [h.read_newest, hadd]
  · rw [hlayout.events_eq, h.events_eq, hlines]
    cases ok <;> simp

theorem Listed.addEvent (hl : Listed l m dir) (e : Event) (counts : List Nat) :
    Listed l (m.addEvent dir e (counts.map some)).2.1
      (m.addEvent dir e (counts.map some)).2.2 := by
  obtain ⟨front', olds', newest', h', _⟩ := h.rotated e.line.length
  have hl' := hl.rotated h e.line.length
  obtain ⟨ok, ev, content, hadd, hlayout, _, hkeep⟩ := h'.append e counts
  simp only [MultiFileEventBatch.addEvent, hadd]
  rcases hold : (m.rotated dir e.line.length).1.oldestBatch with _ | ⟨id, old⟩
  · obtain ⟨hempty, hnew⟩ := (listed_newest hold).mp hl'
    rw [h'.read_newest] at hnew
    refine (listed_newest rfl).mpr ⟨hempty, ?_⟩
    rw [hlayout.read_newest]
    exact hkeep l hnew
  · refine (listed_oldest rfl).mpr ?_
    rw [read_write_ne (h'.oldest_ne_newest hold)]
    exact (listed_oldest hold).mp hl'

/-! ### Removing what was uploaded -/

theorem Layout.dir_oldest (hsome : m.oldestBatch = some (id, ev)) :
    dir = (id, dir.read id) :: (olds ++ [(m.newestBatchId, newest)]) := by
  nth_rewrite 1 [h.dir_eq, (h.oldest hsome).1]
  rfl

/-- The oldest file is removed; the next one is opened when a list is asked for. -/
theorem Layout.remove_oldest (hsome : m.oldestBatch = some (id, ev)) :
    Layout { m with oldestBatch := none } (dir.remove id) [] olds newest := by
  have hdir := h.dir_oldest hsome
  have hord := h.ordered
  rw [hdir] at hord
  have hrm : dir.remove id = olds ++ [(m.newestBatchId, newest)] := by
    rw [hdir]
    exact remove_mid (A := []) not_mem_nil (Ordered.not_mem (A := []) hord).2
  refine ⟨hrm, ?_, .none, h.olds_eq, h.whole, h.newest_eq, h.newest_open⟩
  rw [hrm]
  exact Ordered.erase (A := []) hord

theorem Layout.write_oldest (hsome : m.oldestBatch = some (id, ev)) {ev' : FileEventBatch}
    {content : List UInt8} (hev' : ev'.Represents content (lines 10 content))
    (hfin' : ev'.finalized = true) :
    Layout { m with oldestBatch := some (id, ev') } (dir.write id content) [(id, content)] olds
      newest := by
  have hdir := h.dir_oldest hsome
  have hord := h.ordered
  rw [hdir] at hord
  have hwrite : dir.write id content = (id, content) :: (olds ++ [(m.newestBatchId, newest)]) := by
    rw [hdir]
    exact write_mid (A := []) not_mem_nil _
  refine ⟨hwrite, ?_, .some hev' hfin', h.olds_eq, h.whole, h.newest_eq, h.newest_open⟩
  rw [hwrite]
  exact Ordered.set (A := []) hord _

section Acknowledgement
variable {done rest : List (List UInt8)} (hdata : l.wrapped.data = done.flatten)
  (hcount : l.wrapped.events = done.length) (rounds : List (Nat × List Nat))
include hdata hcount

theorem Layout.onEventsUploaded_oldest (hsome : m.oldestBatch = some (id, ev))
    (hlines : lines 10 (dir.read id) = done ++ rest)
    (hfresh : rest = [] → ev.streamAtEnd = false) :
    ∃ front', Layout (m.acknowledged dir l rounds).1 (m.acknowledged dir l rounds).2 front' olds
        newest ∧
      (∀ f ∈ front', lines 10 f.2 ≠ []) ∧
      dir.events = done ++ (m.acknowledged dir l rounds).2.events := by
  obtain ⟨hfront, hfin, hev⟩ := h.oldest hsome
  rw [hlines] at hev
  have hevents : dir.events = done ++
      (rest ++ (olds.flatMap (fun f => lines 10 f.2) ++ lines 10 newest)) := by
    rw [h.events_eq, hfront, singleton_append, flatMap_cons, hlines]
    simp only [append_assoc]
  by_cases hnil : rest = []
  · subst hnil
    obtain ⟨ev', hack, hno, _⟩ := hev.onEventsUploaded_all (by rw [hdata, append_nil]) hfin
      (rounds.map ShiftRound.clean)
    have hlayout := h.remove_oldest hsome
    simp only [acknowledged, MultiFileEventBatch.onEventsUploaded, hsome, hack, hno,
      Option.elim_none]
    refine ⟨[], hlayout, by simp, ?_⟩
    rw [hevents, hlayout.events_eq]
    rfl
  · obtain ⟨ev', hack, hev', hfin'⟩ := hev.onEventsUploaded hdata hcount hfresh (.inl hnil) rounds
    have hrest := hev'.lines_eq
    have hlayout := h.write_oldest hsome (by rw [hrest]; exact hev') (hfin'.trans hfin)
    simp only [acknowledged, MultiFileEventBatch.onEventsUploaded, hsome, hack,
      hev'.hasEvents_iff.mpr hnil, if_true, Option.elim_some]
    refine ⟨_, hlayout, by simpa [hrest] using hnil, ?_⟩
    rw [hevents, hlayout.events_eq, singleton_append, flatMap_cons, hrest, append_assoc]

theorem Layout.onEventsUploaded_newest (hnone : m.oldestBatch = none) (hempty : m.oldBatches = [])
    (hlines : lines 10 newest = done ++ rest)
    (hfresh : rest = [] → m.newestBatch.streamAtEnd = false) :
    Layout (m.acknowledged dir l rounds).1 (m.acknowledged dir l rounds).2 [] [] rest.flatten ∧
      dir.events = done ++ (m.acknowledged dir l rounds).2.events := by
  have holds : olds = [] := by simpa [hempty] using h.olds_eq
  have hfront := h.front_eq_nil hnone
  subst holds hfront
  have hnew := h.newest_eq
  rw [hlines] at hnew
  obtain ⟨ev, hack, hev, hfin⟩ :=
    hnew.onEventsUploaded hdata hcount hfresh (.inr h.newest_open) rounds
  have hrest := hev.lines_eq
  have hlayout : Layout { m with newestBatch := ev, oldestBatch := none }
      (dir.write m.newestBatchId rest.flatten) [] [] rest.flatten := by
    rw [h.write_newest]
    exact ⟨rfl, by simp [Ordered], .none, h.olds_eq, h.whole,
      by rw [hrest]; exact hev, hfin.trans h.newest_open⟩
  simp only [acknowledged, MultiFileEventBatch.onEventsUploaded, hnone, h.read_newest, hack,
    Option.elim_some]
  refine ⟨hlayout, ?_⟩
  rw [h.events_eq, hlayout.events_eq, hlines, hrest]
  rfl

end Acknowledgement

theorem Layout.onEventsUploaded (hl : Listed l m dir) (rounds : List (Nat × List Nat)) :
    ∃ done front' newest', l.wrapped.data = done.flatten ∧ l.wrapped.events = done.length ∧
      Layout (m.acknowledged dir l rounds).1 (m.acknowledged dir l rounds).2 front' olds newest' ∧
      (∀ f ∈ front', lines 10 f.2 ≠ []) ∧
      dir.events = done ++ (m.acknowledged dir l rounds).2.events := by
  rcases hold : m.oldestBatch with _ | ⟨id, ev⟩
  · obtain ⟨hempty, done, rest, hlines, hdata, hcount, hfresh⟩ := (listed_newest hold).mp hl
    rw [h.read_newest] at hlines
    obtain ⟨hlayout, hevents⟩ :=
      h.onEventsUploaded_newest hdata hcount rounds hold hempty hlines hfresh
    have holds : olds = [] := by simpa [hempty] using h.olds_eq
    rw [holds]
    exact ⟨done, [], _, hdata, hcount, hlayout, by simp, hevents⟩
  · obtain ⟨done, rest, hlines, hdata, hcount, hfresh⟩ := (listed_oldest hold).mp hl
    obtain ⟨front', hlayout, htidy, hevents⟩ :=
      h.onEventsUploaded_oldest hdata hcount rounds hold hlines hfresh
    exact ⟨done, front', newest, hdata, hcount, hlayout, htidy, hevents⟩

end Operations

/-! ### What the batch represents -/

section Represents
variable {m : MultiFileEventBatch} {dir : Directory} {ls : List (List UInt8)} {l : EventList}
  (h : m.Represents dir ls)
include h

theorem Represents.isLine : ∀ l ∈ ls, IsLine 10 l := by
  obtain ⟨⟨front, olds, newest, h⟩, rfl⟩ := h
  intro l hl
  rw [h.ordered.events_eq] at hl
  obtain ⟨f, _, hf⟩ := mem_flatMap.mp hl
  exact (lines_spec 10 f.2).1 l hf

theorem Represents.getEventsForUpload (maxCount maxSize : Nat) :
    (m.getEventsForUpload dir maxCount maxSize).2.1.Represents
      (m.getEventsForUpload dir maxCount maxSize).2.2 ls := by
  obtain ⟨⟨front, olds, newest, h⟩, rfl⟩ := h
  obtain ⟨front', olds', h', hevents, _, _⟩ := h.checkOldestBatch
  exact ⟨⟨front', olds', newest, h'.listEvents maxCount maxSize⟩, hevents⟩

theorem Represents.listed {maxCount maxSize : Nat}
    (hl : (m.getEventsForUpload dir maxCount maxSize).1 = some l) :
    Listed l (m.getEventsForUpload dir maxCount maxSize).2.1
      (m.getEventsForUpload dir maxCount maxSize).2.2 := by
  obtain ⟨⟨front, olds, newest, h⟩, _⟩ := h
  obtain ⟨front', olds', h', _, hempty, _⟩ := h.checkOldestBatch
  exact h'.listed hempty hl

theorem Represents.addEvent (e : Event) (counts : List Nat) :
    (m.addEvent dir e (counts.map some)).2.1.Represents (m.addEvent dir e (counts.map some)).2.2
      (if (m.addEvent dir e (counts.map some)).1 then ls ++ [e.line] else ls) := by
  obtain ⟨⟨front, olds, newest, h⟩, rfl⟩ := h
  obtain ⟨front', olds', newest', h', hevents, _⟩ := h.rotated e.line.length
  obtain ⟨ok, ev, content, hadd, hlayout, hadded, _⟩ := h'.append e counts
  simp only [MultiFileEventBatch.addEvent, hadd]
  exact ⟨⟨_, _, _, hlayout⟩, by rw [hadded, hevents]⟩

/-- **An acknowledgement removes the events of the list** from the front. -/
theorem Represents.onEventsUploaded (hl : Listed l m dir) (rounds : List (Nat × List Nat)) :
    ∃ done rest, ls = done ++ rest ∧ l.wrapped.data = done.flatten ∧
      l.wrapped.events = done.length ∧
      (m.acknowledged dir l rounds).1.Represents (m.acknowledged dir l rounds).2 rest := by
  obtain ⟨⟨front, olds, newest, h⟩, rfl⟩ := h
  obtain ⟨done, front', newest', hdata, hcount, hlayout, _, hevents⟩ := h.onEventsUploaded hl rounds
  exact ⟨done, _, hevents, hdata, hcount, ⟨front', olds, newest', hlayout⟩, rfl⟩

theorem Represents.setFileLimits (maxEvents maxSize : Nat) :
    (m.setFileLimits maxEvents maxSize).Represents dir ls := by
  obtain ⟨⟨front, olds, newest, h⟩, hls⟩ := h
  refine ⟨⟨front, olds, newest, h.dir_eq, h.ordered, ?_, h.olds_eq, h.whole,
    h.newest_eq.setLimit maxEvents maxSize, h.newest_open⟩, hls⟩
  exact h.front_eq.setLimit maxEvents maxSize

theorem Represents.bytes_eq : dir.bytes = ls.flatten := by
  obtain ⟨⟨front, olds, newest, h⟩, rfl⟩ := h
  rw [h.ordered.bytes_eq, h.ordered.events_eq, flatten_flatMap_lines 10 h.whole_all]

theorem Represents.reopen (fileMaxEvents fileMaxSize : Nat) :
    (construct fileMaxEvents fileMaxSize dir).1.Represents
      (construct fileMaxEvents fileMaxSize dir).2 ls := by
  obtain ⟨⟨front, olds, newest, h⟩, rfl⟩ := h
  exact construct_represents fileMaxEvents fileMaxSize h.ordered h.whole_all

end Represents

def eventBatch : EventBatch (MultiFileEventBatch × Directory) EventList where
  addEvent e s := s.1.addEvent s.2 e []
  getEventsForUpload maxCount maxSize s := s.1.getEventsForUpload s.2 maxCount maxSize
  onEventsUploaded l s := s.1.onEventsUploaded s.2 l []
  hasEvents s := s.1.hasEvents
  getData l := l.wrapped.data
  getEventCount l := l.wrapped.events
  hasMoreEvents l := l.hasMoreEvents

theorem eventBatch_isQueue :
    eventBatch.IsQueue (fun s ls => s.1.Represents s.2 ls) (fun l s => Listed l s.1 s.2) where
  isLine h := h.isLine
  addEvent e h := h.addEvent e []
  listed_addEvent e h hl := by
    obtain ⟨⟨_, _, _, hlayout⟩, _⟩ := h
    exact hl.addEvent hlayout e []
  getEventsForUpload maxCount maxSize h := h.getEventsForUpload maxCount maxSize
  listed _ _ h hl := h.listed hl
  listed_of_none _ _ h hnone hl := by
    obtain ⟨⟨_, _, _, hlayout⟩, _⟩ := h
    exact hl.getEventsForUpload hlayout hnone
  onEventsUploaded h hl := h.onEventsUploaded hl []

end MultiFileEventBatch

end Cll
