import McpeLauncher.BufferedEventBatch
import McpeLauncher.FileEventRuns

/-! # Failing calls on one file

What becomes of the file when a call fails: while an event is added (`failed_add_iff`), and while
`onEventsUploaded` moves the rest of the file to its front (`acknowledged_kept_iff`). -/
namespace Cll
open List
namespace FileEventBatch
open BufferedEventBatch (firstEvent secondEvent)
open PosixFile

/-! ## A failed add -/

variable {b : FileEventBatch} {ls : List (List UInt8)} {content : List UInt8} {offset : Nat}

theorem addEvent_atEnd {data : List UInt8} (hfd : b.fd = some offset) (hat : b.streamAtEnd = true)
    (hcan : b.canAddEvent data.length = true) (content : List UInt8) :
    b.addEvent content data [] =
      (true, { b with fd := some (offset + data.length), fileSize := b.fileSize + data.length,
                      eventCount := b.eventCount + 1 },
        (File.write ⟨content, offset⟩ data).content) := by
  obtain ⟨hfin, hint⟩ : b.finalized = false ∧ b.canAddEventInt data.length = true := by
    simpa [canAddEvent] using hcan
  rw [FileEventBatch.addEvent, if_neg (by simp [hfd]), if_neg (by simp [hfin]),
    if_neg (by simp [hint])]
  simp only [hat, if_true, hfd, Option.getD_some, writeLoop, File.write_offset]

namespace Run

/-- In every run from here on the counters are right, and an added event comes right behind. -/
def Resumes (s : Run) : Prop :=
  ∀ ops : List Op,
    let t := ops.foldl Run.step s
    t.Exact ∧ ∀ (e : Event) (counts : List Nat) (t' : Run),
      t.addEvent e (counts.map some) = (true, t') → t'.content = t.content ++ e.line

/-- The descriptor stands behind the `n` bytes that were written, which are cut off again. -/
def failed (s : Run) (content : List UInt8) (n : Nat) : Run :=
  { s with batch := { s.batch with fd := some (content.length + n), streamAtEnd := true,
                                   fileSize := content.length } }

section Add
variable {s : Run} {content : List UInt8} {e : Event} {results : List (Option Nat)} {n : Nat}

theorem Inv.resumes (h : s.Inv) : s.Resumes := by
  intro ops t
  have ht : t.Inv := h.run ops
  refine ⟨ht.exact, fun e counts t' hadd => ?_⟩
  rcases ht with ⟨content, ht⟩ | ht
  · rcases ht.addEvent e counts with hno | ⟨s', hyes, hs'⟩
    · exact absurd (congrArg Prod.fst (hno.symm.trans hadd)) (by simp)
    · obtain rfl : s' = t' := congrArg Prod.snd (hyes.symm.trans hadd)
      rw [hs'.content_eq, ht.content_eq]
  · rw [addEvent_closed ht] at hadd
    exact absurd (congrArg Prod.fst hadd) (by simp)

theorem Open.addEvent_failed (h : s.Open content)
    (hcan : s.batch.canAddEvent e.line.length = true)
    (hfail : (s.addEvent e results).1 = false) :
    (s.addEvent e results).2 = s.failed content (written e.line.length results) := by
  rw [h.addEvent_eq, h.represents.addEvent_eq hcan] at hfail ⊢
  by_cases hall : written e.line.length results = e.line.length
  · rw [if_pos hall] at hfail
    exact absurd hfail (by simp)
  · rw [if_neg hall, failed, h.file]

/-- Where nothing was written, and no list of the whole file is out, the state is as
good as before. -/
theorem Open.failed (h : s.Open content)
    (hpart : ∀ l, s.outstanding = some l → l.data ≠ content) :
    (s.failed content 0).Open content := by
  refine ⟨h.file, ?_, fun l hl => ?_, h.ne_nil⟩
  · exact ⟨h.represents.isLine, h.represents.content_eq, rfl, h.represents.eventCount_eq,
      content.length, rfl, fun _ => rfl⟩
  · obtain ⟨done, rest, hlines, hdata, hcount, _⟩ := h.listed l hl
    refine ⟨done, rest, hlines, hdata, hcount, fun hnil => absurd ?_ (hpart l hl)⟩
    rw [h.represents.content_eq, hlines, hnil, append_nil, hdata]

/-- A descriptor that stands behind the end leaves a gap, which the counter does not
count. -/
theorem offset_eq_of_exact (hfile : s.file = some content) (hfd : s.batch.fd = some offset)
    (hat : s.batch.streamAtEnd = true) (hopen : s.batch.finalized = false)
    (hle : content.length ≤ offset)
    (hexact : ((s.step (.setLimit 0 0)).step (.addEvent e [])).Exact) :
    offset = s.batch.fileSize := by
  have hcan : (s.batch.setLimit 0 0).canAddEvent e.line.length = true := by
    simp [canAddEvent, setLimit, hopen, canAddEventInt]
  have hadd := addEvent_atEnd (b := s.batch.setLimit 0 0) hfd hat hcan content
  have hgap : (File.write ⟨content, offset⟩ e.line).content.length =
      offset + e.line.length := by
    have hend : content.length ≤ offset + e.line.length := Nat.le_add_right_of_le hle
    simp only [File.write, drop_eq_nil_of_le hend, take_of_length_le hle,
      length_append, length_replicate, length_nil]
    omega
  have hsize := hexact.fileSize
  simp only [step, Run.addEvent, Run.content, hfile, Option.getD_some, map_nil, hadd,
    Option.map_some, hgap] at hsize
  change s.batch.fileSize + _ = _ at hsize
  omega

theorem Open.failed_written (h : s.Open content) (hopen : s.batch.finalized = false) (e : Event)
    (hgood : (s.failed content n).Resumes) : n = 0 := by
  have hoff := offset_eq_of_exact (s := s.failed content n) (e := e) h.file rfl rfl hopen
    (Nat.le_add_right _ _) (hgood [.setLimit 0 0, .addEvent e []]).1
  have hsize : (s.failed content n).batch.fileSize = content.length := rfl
  omega

/-- An acknowledgement of the whole file empties it, and leaves the descriptor where it
is. -/
theorem Open.failed_whole (h : s.Open content) (hopen : s.batch.finalized = false) (e : Event)
    (hgood : (s.failed content n).Resumes) {l : VectorBatchedEventList}
    (hl : s.outstanding = some l) : l.data ≠ content := by
  intro hwhole
  have hsize : (s.failed content n).batch.fileSize = l.data.length := by rw [hwhole]; rfl
  have hack := onEventsUploaded_whole (b := (s.failed content n).batch) rfl hsize hopen content []
  let emptied : Run :=
    ⟨{ (s.failed content n).batch with fileSize := 0, eventCount := 0 }, some [], none⟩
  have hstep : (s.failed content n).step (.onEventsUploaded []) = emptied := by
    have hout : (s.failed content n).outstanding = some l := hl
    have hfile : (s.failed content n).file = some content := h.file
    simp only [step, hout, Run.content, hfile, Option.getD_some, map_nil, hack,
      Option.bind_some, emptied]
  have hexact := (hgood [.onEventsUploaded [], .setLimit 0 0, .addEvent e []]).1
  rw [foldl_cons, hstep] at hexact
  have hoff : content.length + n = 0 :=
    offset_eq_of_exact (s := emptied) rfl rfl rfl hopen (Nat.zero_le _) hexact
  exact h.ne_nil l hl (eq_nil_of_length_eq_zero (by omega))

end Add

end Run

/-- **A failed add changes nothing, and later ones go on after it**, exactly if no byte was written
and no list of the whole file is out, or nothing was to be written. -/
theorem failed_add_iff {s : Run} (h : s.Inv) (e : Event) (results : List (Option Nat))
    (hfail : (s.addEvent e results).1 = false) :
    (s.addEvent e results).2.file = s.file ∧
      ((s.addEvent e results).2.Resumes ↔
        (s.batch.fd ≠ none → s.batch.canAddEvent e.line.length = true →
          written e.line.length results = 0 ∧
            ∀ l, s.outstanding = some l → l.data ≠ s.content)) := by
  have hbefore : s.Resumes := h.resumes
  rcases h with ⟨content, h⟩ | h
  · rw [h.content_eq]
    by_cases hcan : s.batch.canAddEvent e.line.length = true
    · have hopen : s.batch.finalized = false := by
        simpa using And.left (Bool.and_eq_true_iff.mp hcan)
      rw [h.addEvent_failed hcan hfail]
      refine ⟨rfl, fun hgood _ _ => ?_, fun hcond => ?_⟩
      · exact ⟨h.failed_written hopen e hgood, fun l hl => h.failed_whole hopen e hgood hl⟩
      · obtain ⟨hnone, hpart⟩ := hcond h.represents.fd_ne hcan
        rw [hnone]
        exact Run.Inv.resumes (.inl ⟨content, h.failed hpart⟩)
    · have hadd : s.addEvent e results = (false, s) := by
        rw [h.addEvent_eq, addEvent_of_not_canAddEvent (Bool.eq_false_iff.mpr hcan), ← h.file]
      rw [hadd]
      exact ⟨rfl, fun _ _ hyes => absurd hyes hcan, fun _ => hbefore⟩
  · have hadd := Run.addEvent_closed h e results
    rw [hadd]
    exact ⟨rfl, fun _ hfd => absurd h.fd hfd, fun _ => hbefore⟩

theorem failed_add_unwritten :
    ((Run.start []).addEvent firstEvent [none]).2.file = some [] ∧
      ((Run.start []).addEvent firstEvent [none]).2.Resumes := by
  obtain ⟨hfile, hgood⟩ := failed_add_iff (.inl ⟨_, Run.start_open []⟩) firstEvent [none] rfl
  exact ⟨hfile, hgood.mpr fun _ _ => ⟨rfl, fun l hl => absurd hl (by simp [Run.start])⟩⟩

/-- **One byte is written before the call fails**: it is cut off, and the next event is written
behind a zero in its place. -/
theorem failed_add_gap :
    let s := ((Run.start []).addEvent firstEvent [some 1, none]).2
    let t := (s.addEvent firstEvent []).2
    s.file = some [] ∧ t.file = some (0 :: firstEvent.line) ∧ t.batch.fileSize = 4 ∧
      ¬ s.Resumes := by
  intro s t
  have hfile : t.file = some (0 :: firstEvent.line) := by decide
  have hsize : t.batch.fileSize = 4 := by decide
  refine ⟨by decide, hfile, hsize, fun hgood => ?_⟩
  have hexact := (hgood [.addEvent firstEvent []]).1.fileSize
  change t.batch.fileSize = t.content.length at hexact
  exact absurd hexact (by decide)

/-! ## A failed acknowledgement -/

/-- The copy loop writes behind where it reads, inside a file of `size` bytes. -/
structure Behind (size : Nat) (s : Shift) : Prop where
  length_eq : s.file.content.length = size
  offset_eq : s.file.offset = s.n
  n_le : s.n ≤ s.inPos
  inPos_le : s.inPos ≤ size

section Shift
variable {size : Nat} {s : Shift}

theorem Behind.step (h : Behind size s) {buf : List UInt8} {c : Nat} (hc : c ≤ buf.length)
    (hbuf : buf.length ≤ size - s.inPos) :
    Behind size ⟨s.file.write (buf.take c), s.inPos + buf.length, s.n + c⟩ := by
  have hn := h.n_le
  have hin := h.inPos_le
  refine ⟨?_, ?_, ?_, ?_⟩
  · rw [← h.length_eq]
    refine File.length_write ?_
    rw [h.offset_eq, h.length_eq, length_take]
    omega
  · rw [File.write_offset, h.offset_eq, length_take, min_eq_left hc]
  · change s.n + c ≤ s.inPos + buf.length
    omega
  · change s.inPos + buf.length ≤ size
    omega

/-- **The loop moves no more than what is left**, and all of it exactly if no call
fails. -/
theorem Behind.loop (h : Behind size s) {fuel : Nat} (hfuel : size < s.inPos + fuel)
    (rounds : List ShiftRound) :
    Behind size (shiftLoop fuel rounds s) ∧
      (shiftLoop fuel rounds s).n ≤ s.n + (size - s.inPos) ∧
      ((shiftLoop fuel rounds s).n = s.n + (size - s.inPos) ↔
        faultless (size - s.inPos) rounds = true) := by
  induction fuel generalizing s rounds with
  | zero => exact absurd hfuel (Nat.not_lt.mpr h.inPos_le)
  | succ fuel ih =>
    have hoff : s.file.offset ≤ s.file.content.length := by
      have hn := h.n_le
      have hin := h.inPos_le
      rw [h.offset_eq, h.length_eq]
      omega
    rw [faultless_headD, shiftLoop]
    rcases hread : (rounds.headD ⟨some bufSize, []⟩).read with _ | k
    · simp only [Shift.readIn, if_true, beq_iff_eq]
      exact ⟨h, by omega, by omega⟩
    · have hlen := length_readIn (s := s) k
      rw [h.length_eq] at hlen
      simp only [← hlen, writeLoop_eq hoff, Bool.and_eq_true, beq_iff_eq]
      split
      · next hnil =>
        rw [readIn_eq_nil, h.length_eq] at hnil
        have hend : size - s.inPos = 0 := by omega
        have hnone : (s.readIn (some k)).length = 0 := by omega
        refine ⟨h, by omega, ?_⟩
        simp [hend, hnone, faultless_zero]
      · next hne =>
        have hpos := length_pos_iff.mpr hne
        have hc := written_le (s.readIn (some k)).length (rounds.headD ⟨some bufSize, []⟩).writes
        obtain ⟨hbehind, hle, hiff⟩ := ih (h.step hc (by omega)) (by simp only; omega) rounds.tail
        simp only [← Nat.sub_sub] at hle hiff
        refine ⟨hbehind, by omega, ?_⟩
        -- what is left after this round is moved, and this round has moved its block
        constructor
        · intro heq
          have hall : written (s.readIn (some k)).length
              (rounds.headD ⟨some bufSize, []⟩).writes = (s.readIn (some k)).length := by omega
          exact ⟨hall, hiff.mp (by omega)⟩
        · rintro ⟨hall, hrest⟩
          have := hiff.mpr hrest
          omega

end Shift

theorem flatten_length_le_of_subperm (h : List.Subperm ls (Lines.lines 10 content)) :
    ls.flatten.length ≤ content.length := by
  obtain ⟨_, t, _, hcontent⟩ := Lines.lines_spec 10 content
  obtain ⟨ls', hperm, hsub⟩ := h
  calc ls.flatten.length = ls'.flatten.length := hperm.flatten.length_eq.symm
    _ ≤ (Lines.lines 10 content).flatten.length := hsub.flatten.length_le
    _ ≤ content.length := by
      nth_rewrite 2 [hcontent]
      simp

theorem Represents.length_onEventsUploaded (h : b.Represents content ls)
    {events : VectorBatchedEventList} (hlt : events.data.length < content.length)
    (rounds : List ShiftRound) :
    ((b.onEventsUploaded content events rounds).2.getD []).length ≤
        content.length - events.data.length ∧
      (((b.onEventsUploaded content events rounds).2.getD []).length =
          content.length - events.data.length ↔
        faultless (content.length - events.data.length) rounds = true) := by
  obtain ⟨offset, hfd, _⟩ := h.fd_eq
  have hsize : b.fileSize ≠ events.data.length := by
    rw [h.fileSize_eq]
    omega
  have hstart : Behind content.length ⟨⟨content, 0⟩, events.data.length, 0⟩ :=
    ⟨rfl, rfl, Nat.zero_le _, by simp only; omega⟩
  obtain ⟨hbehind, hle, hiff⟩ := hstart.loop
    (show content.length < events.data.length + (content.length + 1) by omega) rounds
  have hn := le_trans hbehind.n_le hbehind.inPos_le
  simp only [zero_add] at hle hiff
  simp only [FileEventBatch.onEventsUploaded, hfd, if_neg hsize, Option.getD_some]
  rw [File.truncate_le (by rw [hbehind.length_eq]; exact hn), length_take,
    hbehind.length_eq, min_eq_left hn]
  exact ⟨hle, hiff⟩

/-- **Acknowledging a list keeps the other events** exactly if no call of the copy loop
fails while some of them are still to be moved. -/
theorem acknowledged_kept_iff {b : FileEventBatch} {content : List UInt8}
    {ls : List (List UInt8)} (h : b.Represents content ls) {events : VectorBatchedEventList}
    (hl : Listed events b ls) (rounds : List ShiftRound) :
    List.Subperm (ls.drop events.events)
        (Lines.lines 10 ((b.onEventsUploaded content events rounds).2.getD [])) ↔
      faultless (content.length - events.data.length) rounds = true := by
  obtain ⟨done, rest, rfl, hdata, hcount, hfresh⟩ := hl
  rw [hcount, drop_left]
  have hcontent : content = done.flatten ++ rest.flatten := by rw [h.content_eq, flatten_append]
  have hleft : content.length - events.data.length = rest.flatten.length := by
    rw [hcontent, hdata, length_append, Nat.add_sub_cancel_left]
  by_cases hnil : rest = []
  · rw [hleft, hnil]
    exact ⟨fun _ => faultless_zero rounds, fun _ => nil_subperm⟩
  · constructor
    · intro hkept
      have hpos : rest.flatten.length ≠ 0 := by
        rw [ne_eq, length_eq_zero_iff,
          Lines.flatten_eq_nil 10 fun l hl => h.isLine l (by simp [hl])]
        exact hnil
      -- the file has no more bytes than the lines that are to be kept in it
      have hmoved := flatten_length_le_of_subperm hkept
      obtain ⟨hle, hiff⟩ := h.length_onEventsUploaded
        (show events.data.length < content.length by omega) rounds
      exact hiff.mp (by omega)
    · intro hok
      obtain ⟨b', hack, hb', _⟩ :=
        h.onEventsUploaded_faultless hdata hcount hfresh (.inl hnil) hok
      rw [hack, Option.getD_some, hb'.lines_eq]

def listOfOne : Run :=
  (Run.start (firstEvent.line ++ secondEvent.line)).step (.getEventsForUpload 1 100)

theorem listOfOne_open : listOfOne.Open (firstEvent.line ++ secondEvent.line) :=
  (Run.start_open (firstEvent.line ++ secondEvent.line)).getEventsForUpload 1 100

theorem listOfOne_outstanding : listOfOne.outstanding = some ⟨firstEvent.line, 1, true⟩ := by decide

theorem acknowledged_kept_pieces :
    List.Subperm [secondEvent.line]
      (Lines.lines 10 ((listOfOne.batch.onEventsUploaded (firstEvent.line ++ secondEvent.line)
        ⟨firstEvent.line, 1, true⟩ [⟨some 3, [some 2, some 1]⟩]).2.getD [])) :=
  (acknowledged_kept_iff listOfOne_open.represents
    (listOfOne_open.listed _ listOfOne_outstanding) _).mpr (by decide)

/-- **The `write` of the second event fails**: the first is acknowledged, and the file is
empty. -/
theorem acknowledged_lost :
    let file := (listOfOne.batch.onEventsUploaded (firstEvent.line ++ secondEvent.line)
      ⟨firstEvent.line, 1, true⟩ [⟨some 4, [none]⟩]).2
    file = some [] ∧ ¬ List.Subperm [secondEvent.line] (Lines.lines 10 (file.getD [])) := by
  intro file
  have hfile : file = some [] := by decide
  refine ⟨hfile, fun hkept => ?_⟩
  exact absurd hkept.length_le (by decide)

end FileEventBatch

end Cll
