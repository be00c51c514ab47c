import McpeLauncher.EventBatch
import McpeLauncher.PosixFile

/-! # A batch in one file

`FileEventBatch`: the events are the lines of a file, read and written through one descriptor. Their
number and length are kept in counters, and `streamAtEnd` is whether the descriptor stands at the
end. -/
namespace Cll
open PosixFile List Lines File

/-- `FileEventBatch`, without the path.  `fd` is the offset of the descriptor, and
`none` for `fd < 0`. -/
structure FileEventBatch where
  fd : Option Nat
  fileSize : Nat := 0
  eventCount : Nat := 0
  streamAtEnd : Bool := false
  finalized : Bool := false
  maxCount : Nat := 0
  maxSize : Nat := 0
  deriving DecidableEq

namespace FileEventBatch

def seekToEndAndGetFileSize (b : FileEventBatch) (content : List UInt8) : FileEventBatch :=
  match b.fd with
  | none => { b with streamAtEnd := true, fileSize := 0 }
  | some _ =>
    { b with fd := some content.length, streamAtEnd := true, fileSize := content.length }

/-- The loop over the blocks read: the place, the end of the last line and the number of lines. -/
def countLoop : List (List UInt8) → (o lastNewline eventCount : Nat) → Nat × Nat
  | [], _, lastNewline, eventCount => (lastNewline, eventCount)
  | buf :: bufs, o, lastNewline, eventCount =>
    let found := Lines.scan 10 0 buf o lastNewline eventCount
    countLoop bufs (o + buf.length) found.1 found.2

def countEventsInFile (b : FileEventBatch) (content : List UInt8) :
    FileEventBatch × List UInt8 :=
  match b.fd with
  | none => ({ b with eventCount := 0 }, content)
  | some _ =>
    let (lastNewline, eventCount) := countLoop (blocks (16 * 1024) content.length content) 0 0 0
    -- the last read found the end, and `ftruncate` does not move the descriptor
    let f : File UInt8 := ⟨content, content.length⟩
    let b := { b with fd := some f.offset, streamAtEnd := false, eventCount := eventCount }
    if lastNewline ≠ b.fileSize then
      ({ b with fileSize := lastNewline }, (f.truncate lastNewline).content)
    else (b, content)

/-- `opened` is whether `open` succeeded; a file it creates has no content. -/
def construct (opened : Bool) (content : List UInt8) : FileEventBatch × List UInt8 :=
  countEventsInFile
    (seekToEndAndGetFileSize { fd := if opened then some 0 else none } content) content

def setLimit (b : FileEventBatch) (maxCount maxSize : Nat) : FileEventBatch :=
  { b with maxCount := maxCount, maxSize := maxSize }

def setFinalized (b : FileEventBatch) : FileEventBatch := { b with finalized := true }

def canAddEventInt (b : FileEventBatch) (eventSize : Nat) : Bool :=
  (b.maxSize == 0 || decide (b.fileSize + eventSize ≤ b.maxSize)) &&
    (b.maxCount == 0 || decide (b.eventCount + 1 ≤ b.maxCount))

def canAddEvent (b : FileEventBatch) (eventSize : Nat) : Bool :=
  !b.finalized && b.canAddEventInt eventSize

/-- `addEvent(std::string const&)`; `results` are what `write` returns. -/
def addEvent (b : FileEventBatch) (content data : List UInt8) (results : List (Option Nat)) :
    Bool × FileEventBatch × List UInt8 :=
  if b.fd = none then (false, b, content)
  else if b.finalized then (false, b, content)
  else if !b.canAddEventInt data.length then (false, b, content)
  else
    let b := if b.streamAtEnd then b else b.seekToEndAndGetFileSize content
    let w := writeLoop ⟨content, b.fd.getD 0⟩ data results
    if w.ok then
      (true, { b with fd := some w.file.offset, fileSize := b.fileSize + w.count,
                      eventCount := b.eventCount + 1 }, w.file.content)
    else
      -- a part of the event is cut off again
      let f := if 0 < w.count then w.file.truncate b.fileSize else w.file
      (false, { b with fd := some f.offset }, f.content)

def getEventsForUpload (b : FileEventBatch) (content : List UInt8) (maxCount maxSize : Nat) :
    Option VectorBatchedEventList × FileEventBatch :=
  if b.fd = none ∨ b.fileSize = 0 ∨ maxCount = 0 then (none, b)
  else
    let maxSize := min (min maxSize (1024 * 1024)) b.fileSize
    let data := content.take maxSize
    let (n, events) := Lines.scan 10 maxCount data 0 0 0
    (some ⟨data.take n, events, decide (n < b.fileSize)⟩,
      { b with fd := some data.length, streamAtEnd := false })

/-- The bytes `read` gives in a round of the copy loop, or none for an error, and the results of the
`write`s. -/
structure ShiftRound where
  read : Option Nat
  writes : List (Option Nat)

def bufSize : Nat := 1024 * 1024

/-- The file written through `fd`, the offset of `fdIn`, and the number of bytes written. -/
structure Shift where
  file : File UInt8
  inPos : Nat
  n : Nat

/-- `read(fdIn, buf, bufSize)`: at least one byte where there is one. -/
def Shift.readIn (s : Shift) : Option Nat → List UInt8
  | none => []
  | some k => (s.file.content.drop s.inPos).take (min bufSize (max 1 k))

/-- The copy loop. A failing write leaves the rest of its block out; rounds after `rounds` move
whole blocks. -/
def shiftLoop : Nat → List ShiftRound → Shift → Shift
  | 0, _, s => s
  | fuel + 1, rounds, s =>
    let round := rounds.headD ⟨some bufSize, []⟩
    let buf := s.readIn round.read
    if buf = [] then s
    else
      let w := writeLoop s.file buf round.writes
      shiftLoop fuel rounds.tail ⟨w.file, s.inPos + buf.length, s.n + w.count⟩

/-- `onEventsUploaded`, with `none` for a file that is removed. -/
def onEventsUploaded (b : FileEventBatch) (content : List UInt8)
    (events : VectorBatchedEventList) (rounds : List ShiftRound) :
    FileEventBatch × Option (List UInt8) :=
  match b.fd with
  | none => (b, some content)
  | some offset =>
    if b.fileSize = events.data.length then
      let b := { b with fileSize := 0, eventCount := 0 }
      if b.finalized then ({ b with fd := none }, none)
      else (b, some ((⟨content, offset⟩ : File UInt8).truncate 0).content)
    else
      let s := shiftLoop (content.length + 1) rounds ⟨⟨content, 0⟩, events.data.length, 0⟩
      ({ b with fd := some s.file.offset, fileSize := s.n,
                eventCount := b.eventCount - events.events },
        some (s.file.truncate s.n).content)

def hasEvents (b : FileEventBatch) : Bool := b.fileSize != 0

/-- The file consists of the lines `ls`, and the object's counters and flag are
right about it. -/
structure Represents (b : FileEventBatch) (content : List UInt8) (ls : List (List UInt8)) :
    Prop where
  isLine : ∀ l ∈ ls, Lines.IsLine 10 l
  content_eq : content = ls.flatten
  fileSize_eq : b.fileSize = content.length
  eventCount_eq : b.eventCount = ls.length
  fd_eq : ∃ offset, b.fd = some offset ∧ (b.streamAtEnd → offset = content.length)

namespace Represents
variable {b : FileEventBatch} {content : List UInt8} {ls : List (List UInt8)}

section
variable (h : b.Represents content ls)
include h

theorem setLimit (maxCount maxSize : Nat) : (b.setLimit maxCount maxSize).Represents content ls :=
  ⟨h.isLine, h.content_eq, h.fileSize_eq, h.eventCount_eq, h.fd_eq⟩

theorem setFinalized : b.setFinalized.Represents content ls :=
  ⟨h.isLine, h.content_eq, h.fileSize_eq, h.eventCount_eq, h.fd_eq⟩

theorem fd_ne : b.fd ≠ none := by
  obtain ⟨offset, hfd, _⟩ := h.fd_eq
  simp [hfd]

theorem lines_eq : lines 10 content = ls := by
  rw [h.content_eq, lines_flatten 10 h.isLine]

theorem fileSize_eq_zero : b.fileSize = 0 ↔ ls = [] := by
  rw [h.fileSize_eq, h.content_eq, length_eq_zero_iff]
  exact flatten_eq_nil 10 h.isLine

theorem hasEvents_iff : b.hasEvents ↔ ls ≠ [] := by
  rw [hasEvents, bne_iff_ne, ne_eq, h.fileSize_eq_zero]

end

end Represents

theorem countLoop_eq (bufs : List (List UInt8)) (o lastNewline eventCount : Nat) :
    countLoop bufs o lastNewline eventCount =
      scan 10 0 bufs.flatten o lastNewline eventCount := by
  induction bufs generalizing o lastNewline eventCount with
  | nil => rfl
  | cons buf bufs ih => rw [countLoop, ih, flatten_cons, scan_zero_append]

theorem countLoop_blocks (content : List UInt8) :
    countLoop (blocks (16 * 1024) content.length content) 0 0 0 =
      ((lines 10 content).flatten.length, (lines 10 content).length) := by
  obtain ⟨hlines, t, ht, hcontent⟩ := lines_spec 10 content
  obtain ⟨k, _, hk, _, hscan⟩ := scan_lines 10 hlines ht (Nat.eq_zero_or_pos 0) 0
  have hall : k = (lines 10 content).length := by omega
  rw [← hcontent, hall, take_length, zero_add, zero_add] at hscan
  rw [countLoop_eq, blocks_flatten (by decide) (le_rfl), hscan]

/-- **Opening keeps the complete lines** and cuts off what follows the last of
them. -/
theorem construct_represents (content : List UInt8) :
    (construct true content).1.Represents (construct true content).2
      (lines 10 content) := by
  obtain ⟨hlines, t, _, hcontent⟩ := lines_spec 10 content
  have hlen := congrArg length hcontent
  rw [length_append] at hlen
  have hle : (lines 10 content).flatten.length ≤ content.length := by omega
  have hfront : content.take (lines 10 content).flatten.length =
      (lines 10 content).flatten := by
    have := congrArg (take (lines 10 content).flatten.length) hcontent
    rwa [take_left] at this
  simp only [construct, seekToEndAndGetFileSize, if_true, countEventsInFile, countLoop_blocks]
  split
  · refine ⟨hlines, ?_, ?_, rfl, content.length, rfl, by simp⟩
    · rw [truncate_le hle, hfront]
    · rw [truncate_le hle, length_take]
      exact (min_eq_left hle).symm
  · next hsize =>
    have hnil : t = [] := eq_nil_of_length_eq_zero (by have := not_not.mp hsize; omega)
    refine ⟨hlines, ?_, rfl, rfl, content.length, rfl, by simp⟩
    rw [hnil, append_nil] at hcontent
    exact hcontent

theorem construct_defaults (content : List UInt8) :
    (construct true content).1.finalized = false := by
  simp only [construct, seekToEndAndGetFileSize, if_true, countEventsInFile]
  split <;> rfl

section Adding
variable {b : FileEventBatch} {content data : List UInt8} {ls : List (List UInt8)}

theorem addEvent_of_not_canAddEvent (hcan : b.canAddEvent data.length = false)
    (results : List (Option Nat)) : b.addEvent content data results = (false, b, content) := by
  unfold addEvent
  by_cases hfd : b.fd = none
  · rw [if_pos hfd]
  · by_cases hfin : b.finalized = true
    · rw [if_neg hfd, if_pos hfin]
    · have hint : b.canAddEventInt data.length = false := by simpa [canAddEvent, hfin] using hcan
      rw [if_neg hfd, if_neg hfin, if_pos (by simp [hint])]

/-- **What adding does** where the event fits: it is appended if all is written, and else the file
is as before, with the descriptor behind what was written. -/
theorem Represents.addEvent_eq (h : b.Represents content ls)
    (hcan : b.canAddEvent data.length = true) (results : List (Option Nat)) :
    b.addEvent content data results =
      if written data.length results = data.length then
        (true, { b with fd := some (content.length + data.length), streamAtEnd := true,
                        fileSize := content.length + data.length,
                        eventCount := b.eventCount + 1 }, content ++ data)
      else
        (false, { b with fd := some (content.length + written data.length results),
                         streamAtEnd := true, fileSize := content.length }, content) := by
  obtain ⟨hfin, hint⟩ : b.finalized = false ∧ b.canAddEventInt data.length = true := by
    simpa [canAddEvent] using hcan
  obtain ⟨offset, hfd, hend⟩ := h.fd_eq
  -- the descriptor is moved to the end if it is not known to be there
  have hsought : (if b.streamAtEnd then b else b.seekToEndAndGetFileSize content) =
      { b with fd := some content.length, streamAtEnd := true, fileSize := content.length } := by
    by_cases hat : b.streamAtEnd = true
    · rw [if_pos hat, ← hend hat, ← hfd, hend hat, ← h.fileSize_eq, ← hat]
    · rw [if_neg hat, seekToEndAndGetFileSize, hfd]
  have hwrite := writeLoop_eq (f := ⟨content, content.length⟩) (le_rfl) data results
  rw [FileEventBatch.addEvent, if_neg h.fd_ne, if_neg (by simp [hfin]), if_neg (by simp [hint])]
  simp only [hsought, Option.getD_some, hwrite]
  by_cases hall : written data.length results = data.length
  · simp only [hall, decide_true, if_true, take_length, write_offset,
      write_end (f := ⟨content, content.length⟩) rfl]
  · have hfront : written data.length results ≤ data.length := written_le _ _
    simp only [hall, decide_false, Bool.false_eq_true, if_false]
    split
    · rw [truncate_le]
      · simp [truncate, write_end (f := ⟨content, content.length⟩) rfl, hfront]
      · simp [write_end (f := ⟨content, content.length⟩) rfl]
    · next hzero =>
      have hzero : written data.length results = 0 := by omega
      simp [hzero, write_end (f := ⟨content, content.length⟩) rfl]

theorem Represents.addEvent (h : b.Represents content ls) (hline : IsLine 10 data)
    (hcan : b.canAddEvent data.length = true) (counts : List Nat) :
    ∃ b', b.addEvent content data (counts.map some) = (true, b', content ++ data) ∧
      b'.Represents (content ++ data) (ls ++ [data]) ∧ b'.finalized = b.finalized ∧
      b'.maxSize = b.maxSize ∧ b'.maxCount = b.maxCount := by
  refine ⟨{ b with fd := some (content.length + data.length), streamAtEnd := true,
                   fileSize := content.length + data.length, eventCount := b.eventCount + 1 },
    ?_, ⟨?_, ?_, ?_, ?_, _, rfl, ?_⟩, rfl, rfl, rfl⟩
  · rw [h.addEvent_eq hcan, if_pos (written_map_some _ counts)]
  · intro l hl
    rcases mem_append.mp hl with hl | hl
    · exact h.isLine l hl
    · rw [mem_singleton.mp hl]
      exact hline
  · rw [h.content_eq]
    simp
  · rw [length_append]
  · rw [h.eventCount_eq, length_append, length_singleton]
  · intro _
    rw [length_append]

end Adding

/-- The list is the first events of the file; if it is all, the descriptor is not taken to be at the
end. -/
def Listed (events : VectorBatchedEventList) (b : FileEventBatch) (ls : List (List UInt8)) :
    Prop :=
  ∃ done rest, ls = done ++ rest ∧ events.data = done.flatten ∧
    events.events = done.length ∧ (rest = [] → b.streamAtEnd = false)

variable {events : VectorBatchedEventList}

section Listing
variable {b : FileEventBatch} {content : List UInt8} {ls : List (List UInt8)}
  {maxCount maxSize : Nat}

theorem Listed.of_streamAtEnd {b' : FileEventBatch} (hl : Listed events b ls)
    (heq : b'.streamAtEnd = b.streamAtEnd) : Listed events b' ls := by
  obtain ⟨done, rest, hls, hdata, hcount, hfresh⟩ := hl
  exact ⟨done, rest, hls, hdata, hcount, fun hnil => heq.trans (hfresh hnil)⟩

theorem Listed.concat (hl : Listed events b ls) (b' : FileEventBatch) (data : List UInt8) :
    Listed events b' (ls ++ [data]) := by
  obtain ⟨done, rest, hls, hdata, hcount, _⟩ := hl
  refine ⟨done, rest ++ [data], ?_, hdata, hcount, fun hnil => ?_⟩
  · rw [hls, append_assoc]
  · simp at hnil

theorem Represents.addEvent_cases (h : b.Represents content ls) (e : Event) (counts : List Nat) :
    ∃ ok b' content', b.addEvent content e.line (counts.map some) = (ok, b', content') ∧
      b'.Represents content' (if ok then ls ++ [e.line] else ls) ∧ b'.finalized = b.finalized ∧
      ∀ events, Listed events b ls → Listed events b' (if ok then ls ++ [e.line] else ls) := by
  by_cases hcan : b.canAddEvent e.line.length = true
  · obtain ⟨b', hadd, hb', hfin, _⟩ := h.addEvent e.line_isLine hcan counts
    exact ⟨true, b', _, hadd, hb', hfin, fun events hl => hl.concat b' e.line⟩
  · have hadd : b.addEvent content e.line (counts.map some) = (false, b, content) :=
      addEvent_of_not_canAddEvent (Bool.eq_false_iff.mpr hcan) _
    exact ⟨false, b, content, hadd, h, rfl, fun events hl => hl⟩

theorem getEventsForUpload_none (hnone : (b.getEventsForUpload content maxCount maxSize).1 = none) :
    (b.getEventsForUpload content maxCount maxSize).2 = b := by
  rw [getEventsForUpload] at hnone ⊢
  split
  · rfl
  · next hgo =>
    rw [if_neg hgo] at hnone
    exact absurd hnone (by simp)

theorem Represents.ne_nil (h : b.Represents content ls)
    (hsome : (b.getEventsForUpload content maxCount maxSize).1 = some events) : content ≠ [] := by
  rintro rfl
  have hsize : b.fileSize = 0 := h.fileSize_eq
  rw [FileEventBatch.getEventsForUpload, if_pos (.inr (.inl hsize))] at hsome
  exact absurd hsome (by simp)

theorem Represents.getEventsForUpload (h : b.Represents content ls) (maxCount maxSize : Nat) :
    (b.getEventsForUpload content maxCount maxSize).2.Represents content ls := by
  rw [FileEventBatch.getEventsForUpload]
  split
  · exact h
  · exact ⟨h.isLine, h.content_eq, h.fileSize_eq, h.eventCount_eq, _, rfl, by simp⟩

theorem getEventsForUpload_finalized (maxCount maxSize : Nat) :
    (b.getEventsForUpload content maxCount maxSize).2.finalized = b.finalized := by
  rw [getEventsForUpload]
  split <;> rfl

section
variable (h : b.Represents content ls) {maxCount maxSize : Nat} {events : VectorBatchedEventList}
  (hsome : (b.getEventsForUpload content maxCount maxSize).1 = some events)
include h hsome

/-- Whole events from the front of the file within the limits, and no fewer than these allow. -/
theorem Represents.listed_spec :
    (b.getEventsForUpload content maxCount maxSize).2.streamAtEnd = false ∧ ∃ k ≤ ls.length,
      events = ⟨(ls.take k).flatten, k, decide ((ls.take k).flatten.length < content.length)⟩ ∧
      k ≤ maxCount ∧ (ls.take k).flatten.length ≤ min maxSize (1024 * 1024) ∧
      (k = maxCount ∨ ∀ l, ls[k]? = some l →
        min (min maxSize (1024 * 1024)) content.length < ((ls.take k).flatten ++ l).length) := by
  rw [FileEventBatch.getEventsForUpload] at hsome ⊢
  split
  · next hstop =>
    rw [if_pos hstop] at hsome
    exact absurd hsome (by simp)
  · next hgo =>
    rw [if_neg hgo] at hsome
    simp only [not_or] at hgo
    rw [h.fileSize_eq] at hsome
    set size := min (min maxSize (1024 * 1024)) content.length with hsize
    have hcut : content.take size ++ content.drop size = ls.flatten := by
      rw [take_append_drop, h.content_eq]
    obtain ⟨k, hk, hscan, htake, hstop⟩ := scan_front 10 h.isLine hcut maxCount
    have hlen := congrArg length htake
    rw [length_take, length_take] at hlen
    simp only [hscan, htake, Option.some.injEq] at hsome
    refine ⟨rfl, k, hk, hsome.symm, ?_, by omega, ?_⟩
    · rcases hstop with ⟨_, rfl⟩ | ⟨hzero | hle, _⟩
      · exact le_rfl
      · exact absurd hzero hgo.2.2
      · exact hle
    · refine hstop.imp And.right fun hlong l hl => ?_
      have hless := hlong.2 l hl
      rw [length_take] at hless
      omega

/-- **What is listed are whole events**, the first ones of the file. -/
theorem Represents.listed : Listed events (b.getEventsForUpload content maxCount maxSize).2 ls := by
  obtain ⟨hfresh, k, hk, rfl, _⟩ := h.listed_spec hsome
  exact ⟨ls.take k, ls.drop k, (take_append_drop k ls).symm, rfl,
    by rw [length_take, min_eq_left hk], fun _ => hfresh⟩

end

theorem Represents.getEventsForUpload_eq_none (h : b.Represents content ls) (hcount : 0 < maxCount)
    (maxSize : Nat) : (b.getEventsForUpload content maxCount maxSize).1 = none ↔ ls = [] := by
  rw [← h.fileSize_eq_zero, FileEventBatch.getEventsForUpload]
  by_cases hempty : b.fileSize = 0
  · rw [if_pos (.inr (.inl hempty))]
    exact ⟨fun _ => hempty, fun _ => rfl⟩
  · rw [if_neg (by simp [h.fd_ne, hempty, ne_of_gt hcount])]
    exact ⟨fun hnone => absurd hnone (by simp), fun h => absurd h hempty⟩

/-- The events that fit, of which a mebibyte is read at most. -/
theorem Represents.getEventsForUpload_eq (h : b.Represents content ls) (maxCount maxSize : Nat) :
    (b.getEventsForUpload content maxCount maxSize).1 =
      if ls = [] ∨ maxCount = 0 then none
      else
        let n := fitting maxCount (min maxSize (1024 * 1024)) ls
        some ⟨(ls.take n).flatten, n, decide (n < ls.length)⟩ := by
  by_cases hcount : maxCount = 0
  · rw [FileEventBatch.getEventsForUpload, if_pos (.inr (.inr hcount)), if_pos (.inr hcount)]
  have hnone := h.getEventsForUpload_eq_none (Nat.pos_of_ne_zero hcount) maxSize
  by_cases hnil : ls = []
  · rw [if_pos (.inl hnil), hnone.mpr hnil]
  · rw [if_neg (not_or.mpr ⟨hnil, hcount⟩)]
    obtain ⟨l, hl⟩ := Option.ne_none_iff_exists'.mp fun hno => hnil (hnone.mp hno)
    obtain ⟨_, k, hk, rfl, hle, hsize, hstop⟩ := h.listed_spec hl
    have hsplit : content.length = (ls.take k).flatten.length + (ls.drop k).flatten.length := by
      rw [h.content_eq, ← length_append, ← flatten_append, take_append_drop]
    have hfit : k = fitting maxCount (min maxSize (1024 * 1024)) ls := by
      refine eq_fitting hk hle hsize (hstop.imp_right fun hlong d hd => ?_)
      have hline : d.length ≤ (ls.drop k).flatten.length :=
        ((singleton_sublist.mpr (mem_of_getElem? (i := 0) (by simpa using hd))).flatten.length_le
          ).trans' (by simp)
      have hless := hlong d hd
      rw [length_append] at hless ⊢
      omega
    -- bytes remain exactly if lines do, since no line is empty
    have hmore : (ls.take k).flatten.length < content.length ↔ k < ls.length := by
      rw [hsplit, Nat.lt_add_right_iff_pos, length_pos_iff, ne_eq,
        flatten_eq_nil 10 fun d hd => h.isLine d (mem_of_mem_drop hd), drop_eq_nil_iff, not_le]
    simp only [hl, ← hfit, hmore]

end Listing

/-! ### Removing what was uploaded -/

/-- A round in which no call fails. -/
def ShiftRound.clean (counts : Nat × List Nat) : ShiftRound := ⟨some counts.1, counts.2.map some⟩

/-- No call of the copy loop fails as long as some of `n` bytes are left to move. -/
def faultless : Nat → List ShiftRound → Bool
  | _, [] => true
  | n, ⟨none, _⟩ :: _ => n == 0
  | n, ⟨some k, writes⟩ :: rounds =>
    let m := min n (min bufSize (max 1 k))
    written m writes == m && faultless (n - m) rounds

theorem faultless_zero (rounds : List ShiftRound) : faultless 0 rounds = true := by
  induction rounds with
  | nil => rfl
  | cons round rounds ih =>
    rcases round with ⟨_ | k, writes⟩
    · rfl
    · simp [faultless, ih]

theorem faultless_clean (n : Nat) (rounds : List (Nat × List Nat)) :
    faultless n (rounds.map ShiftRound.clean) = true := by
  induction rounds generalizing n with
  | nil => rfl
  | cons round rounds ih => simp [ShiftRound.clean, faultless, written_map_some, ih]

theorem faultless_headD (n : Nat) (rounds : List ShiftRound) :
    faultless n rounds =
      match (rounds.headD ⟨some bufSize, []⟩).read with
      | none => n == 0
      | some k =>
        let m := min n (min bufSize (max 1 k))
        written m (rounds.headD ⟨some bufSize, []⟩).writes == m &&
          faultless (n - m) rounds.tail := by
  rcases rounds with _ | ⟨⟨_ | k, writes⟩, rounds⟩
  · simp [faultless, written]
  · rfl
  · rfl

/-- The copy loop has moved `s.n` bytes of `content` down by `size`; what it has yet to read is in
place. -/
structure Shifting (content : List UInt8) (size : Nat) (s : Shift) : Prop where
  length_eq : s.file.content.length = content.length
  offset_eq : s.file.offset = s.n
  inPos_eq : s.inPos = size + s.n
  inPos_le : s.inPos ≤ content.length
  moved : s.file.content.take s.n = (content.drop size).take s.n
  unread : s.file.content.drop s.inPos = content.drop s.inPos

section Removing
variable {content : List UInt8} {size : Nat} {s : Shift} {b : FileEventBatch}
  {rounds : List ShiftRound}

theorem readIn_eq_nil (k : Nat) : s.readIn (some k) = [] ↔ s.file.content.length ≤ s.inPos := by
  have hpos : min bufSize (max 1 k) ≠ 0 := by
    have : bufSize = 1048576 := rfl
    omega
  rw [Shift.readIn, take_eq_nil_iff, drop_eq_nil_iff]
  simp [hpos]

theorem Shifting.step (h : Shifting content size s) (k : Nat) :
    Shifting content size ⟨s.file.write (s.readIn (some k)),
      s.inPos + (s.readIn (some k)).length, s.n + (s.readIn (some k)).length⟩ := by
  obtain ⟨m, hm⟩ : ∃ m, s.readIn (some k) = (content.drop s.inPos).take m := by
    exact ⟨_, by rw [Shift.readIn, h.unread]⟩
  have hn : s.n ≤ s.inPos := by rw [h.inPos_eq]; exact Nat.le_add_left _ _
  have hle := h.inPos_le
  have hoff : s.file.offset ≤ s.file.content.length := by
    rw [h.offset_eq, h.length_eq]
    omega
  have hlen : (s.readIn (some k)).length ≤ content.length - s.inPos := by
    rw [hm, length_take, length_drop]
    omega
  have hfront : (s.file.content.take s.n).length = s.n := by
    rw [length_take, h.length_eq]
    omega
  refine ⟨?_, ?_, ?_, ?_, ?_, ?_⟩
  · simp only [write_content hoff, h.offset_eq, length_append, hfront, length_drop,
      h.length_eq]
    omega
  · simp only [write_offset, h.offset_eq]
  · rw [h.inPos_eq, add_assoc]
  · change s.inPos + _ ≤ _
    omega
  · have hread : s.readIn (some k) =
        (content.drop s.inPos).take (s.readIn (some k)).length := by
      rw [hm, length_take, length_drop, take_eq_take_iff, length_drop]
      omega
    simp only [write_content hoff, h.offset_eq]
    rw [take_append_of_le_length (by simp [hfront]), take_of_length_le (by simp [hfront]),
      h.moved, take_add, drop_drop, ← h.inPos_eq, ← hread]
  · have hrest := congrArg (drop (s.readIn (some k)).length) h.unread
    rw [drop_drop, drop_drop] at hrest
    simp only [write_content hoff, h.offset_eq]
    rw [drop_append, drop_eq_nil_of_le (by simp [hfront]; omega), nil_append,
      drop_drop, length_append, hfront, ← hrest]
    congr 1
    omega

theorem length_readIn (k : Nat) : (s.readIn (some k)).length =
    min (s.file.content.length - s.inPos) (min bufSize (max 1 k)) := by
  rw [Shift.readIn, length_take, length_drop, min_comm]

/-- **However the blocks are read and written**, the loop moves all that follows
the first `size` bytes. -/
theorem Shifting.loop (h : Shifting content size s) {fuel : Nat}
    (hfuel : content.length < s.inPos + fuel)
    (hok : faultless (content.length - s.inPos) rounds = true) :
    Shifting content size (shiftLoop fuel rounds s) ∧
      (shiftLoop fuel rounds s).inPos = content.length := by
  induction fuel generalizing s rounds with
  | zero => exact absurd hfuel (Nat.not_lt.mpr h.inPos_le)
  | succ fuel ih =>
    have hoff : s.file.offset ≤ s.file.content.length := by
      have := h.inPos_le
      rw [h.offset_eq, h.length_eq]
      rw [h.inPos_eq] at this
      omega
    rw [faultless_headD] at hok
    rw [shiftLoop]
    rcases hread : (rounds.headD ⟨some bufSize, []⟩).read with _ | k
    · rw [hread] at hok
      have hle := h.inPos_le
      have hend : content.length - s.inPos = 0 := by simpa using hok
      simp only [Shift.readIn, if_true]
      exact ⟨h, by omega⟩
    · rw [hread] at hok
      have hlen := length_readIn (s := s) k
      rw [h.length_eq] at hlen
      simp only [← hlen, Bool.and_eq_true, beq_iff_eq] at hok
      simp only [writeLoop_eq hoff, hok.1, take_length]
      split
      · next hnil =>
        rw [readIn_eq_nil, h.length_eq] at hnil
        exact ⟨h, le_antisymm h.inPos_le hnil⟩
      · next hne =>
        have hpos := length_pos_iff.mpr hne
        refine ih (h.step k) (by simp only; omega) ?_
        simp only [← Nat.sub_sub]
        exact hok.2

theorem shiftLoop_total (hsize : size ≤ content.length)
    (hok : faultless (content.length - size) rounds = true) :
    ∃ s, shiftLoop (content.length + 1) rounds ⟨⟨content, 0⟩, size, 0⟩ = s ∧
      s.n = (content.drop size).length ∧ s.file.offset = s.n ∧
      (s.file.truncate s.n).content = content.drop size := by
  have hstart : Shifting content size ⟨⟨content, 0⟩, size, 0⟩ := ⟨rfl, rfl, rfl, hsize, rfl, rfl⟩
  obtain ⟨hdone, hend⟩ :=
    hstart.loop (show content.length < size + (content.length + 1) by omega) hok
  refine ⟨_, rfl, ?_, hdone.offset_eq, ?_⟩
  · have := hdone.inPos_eq
    rw [length_drop]
    omega
  · have hn := hdone.inPos_eq
    rw [truncate_le (by rw [hdone.length_eq]; omega), hdone.moved,
      take_of_length_le (by rw [length_drop]; omega)]

theorem onEventsUploaded_whole {offset : Nat} (hfd : b.fd = some offset)
    (hsize : b.fileSize = events.data.length) (hopen : b.finalized = false) (content : List UInt8)
    (rounds : List ShiftRound) :
    b.onEventsUploaded content events rounds =
      ({ b with fileSize := 0, eventCount := 0 }, some []) := by
  simp [FileEventBatch.onEventsUploaded, hfd, if_pos hsize, hopen, truncate]

theorem Represents.onEventsUploaded_all {ls : List (List UInt8)} (h : b.Represents content ls)
    (hdata : events.data = ls.flatten) (hfin : b.finalized = true) (rounds : List ShiftRound) :
    ∃ b', b.onEventsUploaded content events rounds = (b', none) ∧ b'.hasEvents = false ∧
      b'.fd = none ∧ b'.eventCount = 0 := by
  obtain ⟨offset, hfd, _⟩ := h.fd_eq
  have hsize : b.fileSize = events.data.length := by rw [h.fileSize_eq, h.content_eq, hdata]
  refine ⟨{ b with fileSize := 0, eventCount := 0, fd := none }, ?_, rfl, rfl, rfl⟩
  simp only [FileEventBatch.onEventsUploaded, hfd, if_pos hsize, hfin, if_true]

section
variable {b : FileEventBatch} {done rest : List (List UInt8)} {events : VectorBatchedEventList}
  (h : b.Represents content (done ++ rest)) (hdata : events.data = done.flatten)
  (hcount : events.events = done.length) (hfresh : rest = [] → b.streamAtEnd = false)
  (hkeep : rest ≠ [] ∨ b.finalized = false)
include h hdata hcount hfresh hkeep

/-- **Exactly the events of the list are removed**, and the rest moves to the
front. -/
theorem Represents.onEventsUploaded_faultless
    (hok : faultless (content.length - events.data.length) rounds = true) :
    ∃ b', b.onEventsUploaded content events rounds = (b', some rest.flatten) ∧
      b'.Represents rest.flatten rest ∧ b'.finalized = b.finalized := by
  obtain ⟨offset, hfd, _⟩ := h.fd_eq
  have hrest : ∀ l ∈ rest, IsLine 10 l := fun l hl => h.isLine l (by simp [hl])
  have hcontent : content = done.flatten ++ rest.flatten := by rw [h.content_eq, flatten_append]
  by_cases hnil : rest = []
  · subst hnil
    have hfin : b.finalized = false := hkeep.resolve_left (fun hne => hne rfl)
    have hsize : b.fileSize = events.data.length := by
      rw [h.fileSize_eq, hcontent, hdata, flatten_nil, append_nil]
    refine ⟨{ b with fileSize := 0, eventCount := 0 }, ?_, ?_, rfl⟩
    · exact onEventsUploaded_whole hfd hsize hfin content rounds
    · refine ⟨by simp, rfl, rfl, rfl, offset, hfd, fun hat => ?_⟩
      rw [hfresh rfl] at hat
      exact absurd hat (by simp)
  · have hpos : rest.flatten.length ≠ 0 := by
      rw [ne_eq, length_eq_zero_iff, flatten_eq_nil 10 hrest]
      exact hnil
    have hsize : b.fileSize ≠ events.data.length := by
      rw [h.fileSize_eq, hcontent, hdata, length_append]
      omega
    obtain ⟨s, hs, hn, hoff, hcut⟩ := shiftLoop_total
      (show events.data.length ≤ content.length by rw [hcontent, hdata]; simp) hok
    have hdrop : content.drop events.data.length = rest.flatten := by
      rw [hcontent, hdata, drop_left]
    rw [hdrop] at hn hcut
    refine ⟨{ b with fd := some s.file.offset, fileSize := s.n,
                     eventCount := b.eventCount - events.events }, ?_, ?_, rfl⟩
    · simp only [FileEventBatch.onEventsUploaded, hfd, if_neg hsize, hs, hcut]
    · refine ⟨hrest, rfl, hn, ?_, s.n, by rw [← hoff], fun _ => hn⟩
      change b.eventCount - events.events = rest.length
      rw [h.eventCount_eq, hcount, length_append]
      omega

theorem Represents.onEventsUploaded (rounds : List (Nat × List Nat)) :
    ∃ b', b.onEventsUploaded content events (rounds.map ShiftRound.clean) =
        (b', some rest.flatten) ∧
      b'.Represents rest.flatten rest ∧ b'.finalized = b.finalized :=
  h.onEventsUploaded_faultless hdata hcount hfresh hkeep (faultless_clean _ rounds)

end

end Removing

/-! ## The interface -/

def eventBatch : EventBatch (FileEventBatch × List UInt8) VectorBatchedEventList where
  addEvent e s := s.1.addEvent s.2 e.line []
  getEventsForUpload maxCount maxSize s :=
    let (ret, b) := s.1.getEventsForUpload s.2 maxCount maxSize
    (ret, b, s.2)
  onEventsUploaded l s :=
    let (b, content) := s.1.onEventsUploaded s.2 l []
    (b, content.getD [])
  hasEvents s := s.1.hasEvents
  getData l := l.data
  getEventCount l := l.events
  hasMoreEvents l := l.moreEvents

/-- **One file is a queue**, as long as it is not finalized. -/
theorem file_isQueue :
    eventBatch.IsQueue (fun s ls => s.1.Represents s.2 ls ∧ s.1.finalized = false)
      (fun l s => Listed l s.1 (lines 10 s.2)) where
  isLine h := h.1.isLine
  addEvent := by
    rintro ⟨b, content⟩ ls e ⟨h, hopen⟩
    obtain ⟨ok, b', content', hadd, hb', hfin, _⟩ := h.addEvent_cases e []
    have heq : eventBatch.addEvent e (b, content) = (ok, b', content') := hadd
    rw [heq]
    exact ⟨hb', hfin.trans hopen⟩
  listed_addEvent := by
    rintro ⟨b, content⟩ ls l e ⟨h, _⟩ hl
    obtain ⟨ok, b', content', hadd, hb', _, hlisted⟩ := h.addEvent_cases e []
    have heq : eventBatch.addEvent e (b, content) = (ok, b', content') := hadd
    rw [h.lines_eq] at hl
    rw [heq, hb'.lines_eq]
    exact hlisted l hl
  getEventsForUpload maxCount maxSize h :=
    ⟨h.1.getEventsForUpload maxCount maxSize, (getEventsForUpload_finalized _ _).trans h.2⟩
  listed := by
    rintro ⟨b, content⟩ ls l maxCount maxSize ⟨h, _⟩ hl
    simp only [eventBatch, h.lines_eq] at hl ⊢
    exact h.listed hl
  listed_of_none := by
    rintro ⟨b, content⟩ ls l maxCount maxSize _ hnone hl
    simp only [eventBatch] at hnone ⊢
    rw [getEventsForUpload_none hnone]
    exact hl
  onEventsUploaded := by
    rintro ⟨b, content⟩ ls l ⟨h, hopen⟩ hl
    simp only [h.lines_eq] at hl
    obtain ⟨done, rest, rfl, hdata, hcount, hfresh⟩ := hl
    obtain ⟨b', hack, hb', hfin⟩ := h.onEventsUploaded hdata hcount hfresh (.inr hopen) []
    refine ⟨done, rest, rfl, hdata, hcount, ?_⟩
    simp only [eventBatch, map_nil] at hack ⊢
    rw [hack]
    exact ⟨hb', hfin.trans hopen⟩

end FileEventBatch

end Cll
