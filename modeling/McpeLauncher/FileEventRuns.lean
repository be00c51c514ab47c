import McpeLauncher.FileEventBatch
import McpeLauncher.Runs

/-! # Runs of one file

A `FileEventBatch` on a file of any content: events are added and listed, lists acknowledged, the
limits change, and the batch may be finalized, after which its file goes with the last event. -/
namespace Cll
namespace FileEventBatch

/-- The object and its file, which is none once it is removed, with the list that is
out. -/
structure Run where
  batch : FileEventBatch
  file : Option (List UInt8)
  outstanding : Option VectorBatchedEventList

/-- The operations of a run, with the way the calls cut the data. -/
inductive Op where
  | addEvent (e : Event) (counts : List Nat)
  | getEventsForUpload (maxCount maxSize : Nat)
  | onEventsUploaded (rounds : List (Nat × List Nat))
  | setLimit (maxCount maxSize : Nat)
  | setFinalized

namespace Run

def start (content : List UInt8) : Run :=
  let (batch, content) := construct true content
  ⟨batch, some content, none⟩

def content (s : Run) : List UInt8 := s.file.getD []

/-- `addEvent` of an event; `results` are what `write` returns. -/
def addEvent (s : Run) (e : Event) (results : List (Option Nat)) : Bool × Run :=
  let (ok, batch, content) := s.batch.addEvent s.content e.line results
  -- a file that was removed is not written to
  (ok, { s with batch := batch, file := s.file.map fun _ => content })

def step (s : Run) : Op → Run
  | .addEvent e counts => (s.addEvent e (counts.map some)).2
  | .getEventsForUpload maxCount maxSize =>
    let (ret, batch) := s.batch.getEventsForUpload s.content maxCount maxSize
    { s with batch := batch, outstanding := ret.or s.outstanding }
  | .onEventsUploaded rounds =>
    match s.outstanding with
    | none => s
    | some l =>
      let (batch, content) := s.batch.onEventsUploaded s.content l (rounds.map ShiftRound.clean)
      ⟨batch, s.file.bind fun _ => content, none⟩
  | .setLimit maxCount maxSize => { s with batch := s.batch.setLimit maxCount maxSize }
  | .setFinalized => { s with batch := s.batch.setFinalized }

/-! ## What the counters say -/

/-- The counters are right, and the file consists of whole lines. -/
structure Exact (s : Run) : Prop where
  fileSize : s.batch.fileSize = s.content.length
  eventCount : s.batch.eventCount = (Lines.lines 10 s.content).length
  newline : s.content = [] ∨ s.content.getLast? = some 10

/-- The file is within the limits; zero is no limit. -/
def Within (s : Run) : Prop :=
  (s.batch.maxSize = 0 ∨ s.content.length ≤ s.batch.maxSize) ∧
    (s.batch.maxCount = 0 ∨ (Lines.lines 10 s.content).length ≤ s.batch.maxCount)

/-- The file is there, with this content, and the list that is out is its front. -/
structure Open (s : Run) (content : List UInt8) : Prop where
  file : s.file = some content
  represents : s.batch.Represents content (Lines.lines 10 content)
  listed : ∀ l, s.outstanding = some l → Listed l s.batch (Lines.lines 10 content)
  ne_nil : ∀ l, s.outstanding = some l → content ≠ []

structure Closed (s : Run) : Prop where
  file : s.file = none
  fd : s.batch.fd = none
  fileSize : s.batch.fileSize = 0
  eventCount : s.batch.eventCount = 0

def Inv (s : Run) : Prop := (∃ content, s.Open content) ∨ s.Closed

section Open
variable {s : Run} {content : List UInt8}

theorem Open.content_eq (h : s.Open content) : s.content = content := by
  rw [Run.content, h.file, Option.getD_some]

theorem Closed.content_eq (h : s.Closed) : s.content = [] := by
  rw [Run.content, h.file, Option.getD_none]

theorem Inv.exact (h : s.Inv) : s.Exact := by
  rcases h with ⟨content, h⟩ | h
  · rw [← h.content_eq] at h
    refine ⟨h.represents.fileSize_eq, h.represents.eventCount_eq, ?_⟩
    by_cases hnil : Lines.lines 10 s.content = []
    · left
      rw [h.represents.content_eq, hnil, List.flatten_nil]
    · right
      rw [h.represents.content_eq]
      exact Lines.getLast?_flatten 10 h.represents.isLine hnil
  · refine ⟨?_, ?_, .inl h.content_eq⟩
    · rw [h.content_eq, h.fileSize, List.length_nil]
    · rw [h.content_eq, h.eventCount]
      rfl

theorem start_open (content : List UInt8) : (start content).Open (start content).content := by
  have h := construct_represents content
  have hlines : Lines.lines 10 (construct true content).2 = Lines.lines 10 content := h.lines_eq
  rw [← hlines] at h
  exact ⟨rfl, h, by simp [start], by simp [start]⟩

theorem start_content (content : List UInt8) :
    ∃ cut, content = (start content).content ++ cut ∧ 10 ∉ cut := by
  obtain ⟨_, cut, hcut, hcontent⟩ := Lines.lines_spec 10 content
  refine ⟨cut, ?_, hcut⟩
  have h : (start content).content = (Lines.lines 10 content).flatten :=
    (construct_represents content).content_eq
  rw [h]
  exact hcontent

theorem addEvent_closed (h : s.Closed) (e : Event) (results : List (Option Nat)) :
    s.addEvent e results = (false, s) := by
  have hadd : s.batch.addEvent s.content e.line results = (false, s.batch, s.content) := if_pos h.fd
  simp only [addEvent, hadd, h.file, Option.map_none]
  rw [← h.file]

theorem Open.addEvent_eq (h : s.Open content) (e : Event) (results : List (Option Nat)) :
    s.addEvent e results =
      ((s.batch.addEvent content e.line results).1,
        { s with batch := (s.batch.addEvent content e.line results).2.1
                 file := some (s.batch.addEvent content e.line results).2.2 }) := by
  simp only [addEvent, h.content_eq, h.file, Option.map_some]

theorem Open.addEvent (h : s.Open content) (e : Event) (counts : List Nat) :
    s.addEvent e (counts.map some) = (false, s) ∨
      ∃ s', s.addEvent e (counts.map some) = (true, s') ∧ s'.Open (content ++ e.line) := by
  by_cases hcan : s.batch.canAddEvent e.line.length = true
  · obtain ⟨b', hadd, hb', _⟩ := h.represents.addEvent e.line_isLine hcan counts
    refine .inr ⟨{ s with batch := b', file := some (content ++ e.line) }, ?_, rfl, ?_, ?_, ?_⟩
    · rw [h.addEvent_eq, hadd]
    · rw [hb'.lines_eq]
      exact hb'
    · intro l hl
      rw [hb'.lines_eq]
      exact (h.listed l hl).concat b' e.line
    · intro l hl
      exact List.append_ne_nil_of_left_ne_nil (h.ne_nil l hl) _
  · have hadd : s.batch.addEvent content e.line (counts.map some) = (false, s.batch, content) :=
      addEvent_of_not_canAddEvent (Bool.eq_false_iff.mpr hcan) _
    left
    rw [h.addEvent_eq, hadd, ← h.file]

theorem Open.addEvent_within (h : s.Open content) (e : Event) (counts : List Nat) {s' : Run}
    (hadd : s.addEvent e (counts.map some) = (true, s')) : s'.Within := by
  have hcan : s.batch.canAddEvent e.line.length = true := by
    by_contra hno
    rw [h.addEvent_eq, addEvent_of_not_canAddEvent (Bool.eq_false_iff.mpr hno)] at hadd
    exact absurd (congrArg Prod.fst hadd) (by simp)
  obtain ⟨b', hb, hb', _, hmaxSize, hmaxCount⟩ := h.represents.addEvent e.line_isLine hcan counts
  rw [h.addEvent_eq, hb] at hadd
  obtain rfl : _ = s' := congrArg Prod.snd hadd
  have hint := And.right (Bool.and_eq_true_iff.mp hcan)
  simp only [canAddEventInt, Bool.and_eq_true, Bool.or_eq_true, beq_iff_eq, decide_eq_true_eq,
    h.represents.fileSize_eq, h.represents.eventCount_eq] at hint
  simp only [Within, Run.content, Option.getD_some, hb'.lines_eq, List.length_append,
    List.length_singleton, hmaxSize, hmaxCount]
  exact hint

/-! ## The other operations -/

theorem Open.getEventsForUpload (h : s.Open content) (maxCount maxSize : Nat) :
    (s.step (.getEventsForUpload maxCount maxSize)).Open content := by
  refine ⟨h.file, ?_, fun l hl => ?_, fun l hl => ?_⟩
  · simp only [step, h.content_eq]
    exact h.represents.getEventsForUpload maxCount maxSize
  · simp only [step, h.content_eq] at hl ⊢
    rcases Option.or_eq_some_iff.mp hl with hnew | ⟨hnone, hold⟩
    · exact h.represents.listed hnew
    · rw [getEventsForUpload_none hnone]
      exact h.listed l hold
  · simp only [step, h.content_eq] at hl
    rcases Option.or_eq_some_iff.mp hl with hnew | ⟨_, hold⟩
    · exact h.represents.ne_nil hnew
    · exact h.ne_nil l hold

theorem Open.onEventsUploaded (h : s.Open content) (rounds : List (Nat × List Nat)) :
    (s.step (.onEventsUploaded rounds)).Inv := by
  rcases hout : s.outstanding with _ | l
  · simp only [step, hout]
    exact .inl ⟨content, h⟩
  · obtain ⟨done, rest, hlines, hdata, hcount, hfresh⟩ := h.listed l hout
    have hrep := h.represents
    rw [hlines] at hrep
    by_cases hkeep : rest ≠ [] ∨ s.batch.finalized = false
    · obtain ⟨b', hack, hb', _⟩ := hrep.onEventsUploaded hdata hcount hfresh hkeep rounds
      simp only [step, hout, h.content_eq, hack, h.file, Option.bind_some]
      refine .inl ⟨rest.flatten, rfl, ?_, by simp, by simp⟩
      rw [hb'.lines_eq]
      exact hb'
    · simp only [not_or, not_not, Bool.not_eq_false] at hkeep
      obtain ⟨rfl, hfin⟩ := hkeep
      rw [List.append_nil] at hrep
      obtain ⟨b', hack, hno, hfd, hzero⟩ := hrep.onEventsUploaded_all hdata hfin
        (rounds.map ShiftRound.clean)
      simp only [step, hout, h.content_eq, hack, h.file, Option.bind_some]
      exact .inr ⟨rfl, hfd, by simpa [hasEvents] using hno, hzero⟩

theorem Closed.step (h : s.Closed) (op : Op) : (s.step op).Closed := by
  cases op with
  | addEvent e counts =>
    rw [Run.step, addEvent_closed h]
    exact h
  | getEventsForUpload maxCount maxSize =>
    have hget : s.batch.getEventsForUpload s.content maxCount maxSize = (none, s.batch) :=
      if_pos (.inl h.fd)
    simp only [Run.step, hget]
    exact ⟨h.file, h.fd, h.fileSize, h.eventCount⟩
  | onEventsUploaded rounds =>
    rcases hout : s.outstanding with _ | l
    · simp only [Run.step, hout]
      exact h
    · have hack : s.batch.onEventsUploaded s.content l (rounds.map ShiftRound.clean) =
          (s.batch, some s.content) := by
        rw [FileEventBatch.onEventsUploaded, h.fd]
      simp only [Run.step, hout, hack, h.file, Option.bind_none]
      exact ⟨rfl, h.fd, h.fileSize, h.eventCount⟩
  | setLimit maxCount maxSize => exact ⟨h.file, h.fd, h.fileSize, h.eventCount⟩
  | setFinalized => exact ⟨h.file, h.fd, h.fileSize, h.eventCount⟩

theorem Inv.step (h : s.Inv) (op : Op) : (s.step op).Inv := by
  rcases h with ⟨content, h⟩ | h
  · cases op with
    | addEvent e counts =>
      rcases h.addEvent e counts with hno | ⟨s', hyes, hs'⟩
      · rw [Run.step, hno]
        exact .inl ⟨content, h⟩
      · rw [Run.step, hyes]
        exact .inl ⟨_, hs'⟩
    | getEventsForUpload maxCount maxSize =>
      exact .inl ⟨content, h.getEventsForUpload maxCount maxSize⟩
    | onEventsUploaded rounds => exact h.onEventsUploaded rounds
    | setLimit maxCount maxSize =>
      exact .inl ⟨content, h.file, h.represents.setLimit maxCount maxSize,
        fun l hl => (h.listed l hl).of_streamAtEnd rfl, h.ne_nil⟩
    | setFinalized =>
      exact .inl ⟨content, h.file, h.represents.setFinalized,
        fun l hl => (h.listed l hl).of_streamAtEnd rfl, h.ne_nil⟩
  · exact .inr (h.step op)

theorem Inv.run (h : s.Inv) (ops : List Op) : (ops.foldl Run.step s).Inv :=
  Runs.invariant_all Inv (fun _ op h => h.step op) h ops

end Open

end Run

/-- **The counters keep in step with the file.** Opening cuts off what follows the last newline; an
event is refused, or the file is within its limits. -/
theorem file_counters (content : List UInt8) :
    (∃ cut, content = (Run.start content).content ++ cut ∧ 10 ∉ cut) ∧
      ∀ ops : List Op,
        let s := ops.foldl Run.step (Run.start content)
        s.Exact ∧ ∀ (e : Event) (counts : List Nat),
          s.addEvent e (counts.map some) = (false, s) ∨
            ∃ s', s.addEvent e (counts.map some) = (true, s') ∧ s'.Within := by
  refine ⟨Run.start_content content, ?_⟩
  intro ops s
  have hs : s.Inv := Run.Inv.run (.inl ⟨_, Run.start_open content⟩) ops
  refine ⟨hs.exact, fun e counts => ?_⟩
  rcases hs with ⟨content', h⟩ | h
  · rcases h.addEvent e counts with hno | ⟨s', hyes, _⟩
    · exact .inl hno
    · exact .inr ⟨s', hyes, h.addEvent_within e counts hyes⟩
  · exact .inl (Run.addEvent_closed h e _)

end FileEventBatch

end Cll
