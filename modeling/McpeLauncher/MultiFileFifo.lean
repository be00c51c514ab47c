import McpeLauncher.MultiFileEventBatch
import McpeLauncher.Runs

/-! # The numbered files are a queue

Runs of a `MultiFileEventBatch` over one directory, also with new objects. What was acknowledged
followed by what the files hold is what was added (`multiFile_fifo`). -/
namespace Cll
namespace MultiFileEventBatch

/-- The list that is out, the data acknowledged, and the events whose `addEvent` returned true. -/
structure Run where
  batch : MultiFileEventBatch
  dir : Directory
  outstanding : Option EventList := none
  acknowledged : List (List UInt8) := []
  added : List Event := []

/-- With the way the write loops cut the data. Building the object anew ends the old object's list.
-/
inductive Op where
  | addEvent (e : Event) (counts : List Nat)
  | getEventsForUpload (maxCount maxSize : Nat)
  | onEventsUploaded (rounds : List (Nat × List Nat))
  | setFileLimits (maxEvents maxSize : Nat)
  | reopen (fileMaxEvents fileMaxSize : Nat)

def Run.start (fileMaxEvents fileMaxSize : Nat) : Run :=
  let (batch, dir) := construct fileMaxEvents fileMaxSize []
  { batch := batch, dir := dir }

def Run.step (s : Run) : Op → Run
  | .addEvent e counts =>
    let (ok, batch, dir) := s.batch.addEvent s.dir e (counts.map some)
    { s with batch := batch, dir := dir, added := if ok then s.added ++ [e] else s.added }
  | .getEventsForUpload maxCount maxSize =>
    let (ret, batch, dir) := s.batch.getEventsForUpload s.dir maxCount maxSize
    { s with batch := batch, dir := dir, outstanding := ret.or s.outstanding }
  | .onEventsUploaded rounds =>
    match s.outstanding with
    | none => s
    | some l =>
      let (batch, dir) :=
        s.batch.onEventsUploaded s.dir l (rounds.map FileEventBatch.ShiftRound.clean)
      { s with batch := batch, dir := dir, outstanding := none,
               acknowledged := s.acknowledged ++ [l.wrapped.data] }
  | .setFileLimits maxEvents maxSize =>
    { s with batch := s.batch.setFileLimits maxEvents maxSize }
  | .reopen fileMaxEvents fileMaxSize =>
    let (batch, dir) := construct fileMaxEvents fileMaxSize s.dir
    { s with batch := batch, dir := dir, outstanding := none }

/-- Files `ls` follow what was acknowledged, and the list that is out is the front
of them. -/
structure Run.Fifo (s : Run) (ls : List (List UInt8)) : Prop where
  represents : s.batch.Represents s.dir ls
  listed : ∀ l, s.outstanding = some l → Listed l s.batch s.dir
  whole : ∀ d ∈ s.acknowledged, d = (Lines.lines 10 d).flatten
  conserved : s.acknowledged.flatMap (Lines.lines 10) ++ ls = s.added.map Event.line

section Steps
variable {s : Run} {ls : List (List UInt8)}

theorem Run.Fifo.addEvent (h : s.Fifo ls) (e : Event) (counts : List Nat) :
    ∃ ls', (s.step (.addEvent e counts)).Fifo ls' := by
  obtain ⟨⟨_, _, _, hlayout⟩, _⟩ := h.represents
  refine ⟨_, h.represents.addEvent e counts, fun l hl => ?_, h.whole, ?_⟩
  · exact (h.listed l hl).addEvent hlayout e counts
  · simp only [Run.step]
    split
    · rw [← List.append_assoc, h.conserved, List.map_append]
      rfl
    · exact h.conserved

theorem Run.Fifo.getEventsForUpload (h : s.Fifo ls) (maxCount maxSize : Nat) :
    (s.step (.getEventsForUpload maxCount maxSize)).Fifo ls := by
  obtain ⟨⟨_, _, _, hlayout⟩, _⟩ := h.represents
  refine ⟨h.represents.getEventsForUpload maxCount maxSize, fun l hl => ?_, h.whole, h.conserved⟩
  rcases Option.or_eq_some_iff.mp hl with hnew | ⟨hnone, hold⟩
  · exact h.represents.listed hnew
  · exact (h.listed l hold).getEventsForUpload hlayout hnone

theorem Run.Fifo.onEventsUploaded (h : s.Fifo ls) (rounds : List (Nat × List Nat)) :
    ∃ ls', (s.step (.onEventsUploaded rounds)).Fifo ls' := by
  simp only [Run.step]
  split
  · exact ⟨ls, h⟩
  · next l hl =>
    obtain ⟨done, rest, hls, hdata, _, hrep⟩ := h.represents.onEventsUploaded (h.listed l hl) rounds
    have hlines : Lines.lines 10 l.wrapped.data = done := by
      rw [hdata]
      exact Lines.lines_flatten 10 fun d hd => h.represents.isLine d (by simp [hls, hd])
    refine ⟨rest, hrep, by simp, fun d hd => ?_, ?_⟩
    · rcases List.mem_append.mp hd with hd | hd
      · exact h.whole d hd
      · rw [List.mem_singleton.mp hd, hlines, hdata]
    · have hcons := h.conserved
      rw [hls] at hcons
      simpa [hlines] using hcons

theorem Run.Fifo.step (h : s.Fifo ls) (op : Op) : ∃ ls', (s.step op).Fifo ls' := by
  cases op with
  | addEvent e counts => exact h.addEvent e counts
  | getEventsForUpload maxCount maxSize => exact ⟨ls, h.getEventsForUpload maxCount maxSize⟩
  | onEventsUploaded rounds => exact h.onEventsUploaded rounds
  | setFileLimits maxEvents maxSize =>
    exact ⟨ls, h.represents.setFileLimits maxEvents maxSize,
      fun l hl => (h.listed l hl).setFileLimits maxEvents maxSize, h.whole, h.conserved⟩
  | reopen fileMaxEvents fileMaxSize =>
    exact ⟨ls, h.represents.reopen fileMaxEvents fileMaxSize, by simp [Run.step], h.whole,
      h.conserved⟩

end Steps

theorem Run.start_fifo (fileMaxEvents fileMaxSize : Nat) :
    (Run.start fileMaxEvents fileMaxSize).Fifo [] := by
  refine ⟨?_, by simp [Run.start], by simp [Run.start], by simp [Run.start]⟩
  exact construct_represents fileMaxEvents fileMaxSize (by simp [Directory.Ordered]) (by simp)

/-- **The files are a queue.** The events acknowledged followed by those in the files, the oldest
first, are the events added; and there are no other bytes. -/
theorem multiFile_fifo (fileMaxEvents fileMaxSize : Nat) (ops : List Op) :
    let s := ops.foldl Run.step (Run.start fileMaxEvents fileMaxSize)
    s.acknowledged.flatMap (Lines.lines 10) ++ s.dir.events = s.added.map Event.line ∧
      s.acknowledged.flatten ++ s.dir.bytes = (s.added.map Event.line).flatten := by
  intro s
  obtain ⟨ls, h⟩ : ∃ ls, s.Fifo ls := by
    refine Runs.invariant_all (fun s => ∃ ls, Run.Fifo s ls) ?_
      ⟨[], Run.start_fifo fileMaxEvents fileMaxSize⟩ ops
    rintro s op ⟨ls, h⟩
    exact h.step op
  have hevents : s.dir.events = ls := h.represents.2
  have hacked : s.acknowledged.flatten = (s.acknowledged.flatMap (Lines.lines 10)).flatten := by
    rw [Lines.flatten_flatMap_lines 10 h.whole, List.flatMap_id']
  refine ⟨by rw [hevents, h.conserved], ?_⟩
  rw [← h.conserved, List.flatten_append, hacked, h.represents.bytes_eq]

end MultiFileEventBatch

end Cll
