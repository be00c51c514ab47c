import McpeLauncher.MultiFileFifo
import McpeLauncher.UploadBatches

/-! # The numbered files do not get stuck

A file without events in front of the others would hide them. Only the newest file is ever empty
(`Tidy`), unless an event is larger than a whole file may be: `addEvent` then starts a new file also
where the newest is empty. -/
namespace Cll
namespace MultiFileEventBatch
open BufferedEventBatch (firstEvent)

/-! ## Adding and opening keep the files tidy -/

section Tidy
variable {s : MultiFileEventBatch × Directory} {ls : List (List UInt8)}

theorem Tidy.addEvent (h : Tidy s ls) (e : Event) (counts : List Nat)
    (hroom : s.1.newestBatch.canAddEvent e.line.length = true ∨
      s.1.newestBatch.hasEvents = true) :
    Tidy (s.1.addEvent s.2 e (counts.map some)).2
      (s.1.addEvent s.2 e (counts.map some)).2.2.events := by
  obtain ⟨⟨front, olds, newest, h, htidy⟩, _⟩ := h
  obtain ⟨front', olds', newest', h', _, hfiles⟩ := h.rotated e.line.length
  obtain ⟨ok, ev, content, hadd, hlayout, _, _⟩ := h'.append e counts
  simp only [MultiFileEventBatch.addEvent, hadd]
  refine ⟨⟨front', olds', content, hlayout, fun f hf => ?_⟩, rfl⟩
  rcases hfiles f hf with hf | ⟨hfull, rfl⟩
  · exact htidy f hf
  · rcases hroom with hroom | hroom
    · rw [hfull] at hroom
      cases hroom
    · exact h.newest_eq.hasEvents_iff.mp hroom

theorem Tidy.reopen (h : Tidy s ls) (fileMaxEvents fileMaxSize : Nat) :
    Tidy (construct fileMaxEvents fileMaxSize s.2) ls := by
  obtain ⟨⟨front, olds, newest, h, htidy⟩, rfl⟩ := h
  obtain ⟨⟨newest', h'⟩, hevents⟩ :=
    construct_layout fileMaxEvents fileMaxSize h.ordered h.whole_all
  refine ⟨⟨[], _, newest', h', fun f hf => htidy f ?_⟩, hevents⟩
  rwa [h.dir_eq, ← List.append_assoc, List.dropLast_concat] at hf

theorem Tidy.lists (h : Tidy s ls) {d : List UInt8} (hd : ls.head? = some d)
    {maxCount maxSize : Nat} (hcount : 0 < maxCount)
    (hfits : d.length ≤ min maxSize (1024 * 1024)) :
    ∃ l, (s.1.getEventsForUpload s.2 maxCount maxSize).1 = some l ∧ 0 < l.wrapped.events := by
  have hne : ls ≠ [] := by
    rintro rfl
    cases hd
  obtain ⟨l, hl⟩ := h.exists_list hne hcount maxSize
  have hevents : l.wrapped.events =
      Lines.fitting maxCount (min maxSize (1024 * 1024)) (s.1.firstEvents s.2) :=
    congrArg VectorBatchedEventList.events (eventBatch_listsFrom.view_eq h.represents hl)
  obtain ⟨d', rest, hfirst⟩ := List.exists_cons_of_ne_nil (h.first_ne_nil hne)
  -- the file that is listed starts with the first event of all
  obtain ⟨more, hmore⟩ : s.1.firstEvents s.2 <+: ls := eventBatch_listsFrom.front h.represents
  rw [← hmore, hfirst] at hd
  obtain rfl : d' = d := Option.some.inj hd
  refine ⟨l, hl, ?_⟩
  rw [hevents, hfirst, Lines.fitting_pos]
  exact ⟨hcount, hfits⟩

end Tidy

/-- A new file is started behind one that holds events. -/
def Run.Sound (s : Run) : Op → Prop
  | .addEvent e _ => s.batch.newestBatch.canAddEvent e.line.length = true ∨
      s.batch.newestBatch.hasEvents = true
  | _ => True

instance (s : Run) : (op : Op) → Decidable (s.Sound op)
  | .addEvent e _ => inferInstanceAs (Decidable (s.batch.newestBatch.canAddEvent e.line.length =
      true ∨ s.batch.newestBatch.hasEvents = true))
  | .getEventsForUpload .. | .onEventsUploaded .. | .setFileLimits .. | .reopen .. =>
    .isTrue trivial

/-- No file but the newest is empty, and the list that is out is one of the first
file. -/
structure Run.Clear (s : Run) : Prop where
  tidy : Tidy (s.batch, s.dir) s.dir.events
  listed : ∀ l, s.outstanding = some l → Listed l s.batch s.dir

theorem Run.start_clear (fileMaxEvents fileMaxSize : Nat) :
    (Run.start fileMaxEvents fileMaxSize).Clear := by
  have hempty : Directory.Ordered [] := by simp [Directory.Ordered]
  obtain ⟨⟨newest, h⟩, _⟩ := construct_layout fileMaxEvents fileMaxSize hempty (by simp)
  exact ⟨⟨⟨[], [], newest, h, by simp⟩, rfl⟩, by simp [Run.start]⟩

section Steps
variable {s : Run}

theorem Run.Clear.onEventsUploaded (h : s.Clear) (rounds : List (Nat × List Nat)) :
    (s.step (.onEventsUploaded rounds)).Clear := by
  simp only [Run.step]
  split
  · exact h
  · next l hl =>
    obtain ⟨_, rest, _, _, _, htidy⟩ := h.tidy.onEventsUploaded (h.listed l hl) rounds
    exact ⟨⟨htidy.1, rfl⟩, by simp⟩

theorem Run.Clear.step (h : s.Clear) {op : Op} (hop : s.Sound op) : (s.step op).Clear := by
  obtain ⟨front, olds, newest, hlayout, _⟩ := h.tidy.1
  cases op with
  | addEvent e counts =>
    exact ⟨h.tidy.addEvent e counts hop, fun l hl => (h.listed l hl).addEvent hlayout e counts⟩
  | getEventsForUpload maxCount maxSize =>
    refine ⟨⟨(h.tidy.getEventsForUpload maxCount maxSize).1, rfl⟩, fun l hl => ?_⟩
    rcases Option.or_eq_some_iff.mp hl with hnew | ⟨hnone, hold⟩
    · exact h.tidy.represents.listed hnew
    · exact (h.listed l hold).getEventsForUpload hlayout hnone
  | onEventsUploaded rounds => exact h.onEventsUploaded rounds
  | setFileLimits maxEvents maxSize =>
    exact ⟨h.tidy.setFileLimits maxEvents maxSize,
      fun l hl => (h.listed l hl).setFileLimits maxEvents maxSize⟩
  | reopen fileMaxEvents fileMaxSize =>
    exact ⟨⟨(h.tidy.reopen fileMaxEvents fileMaxSize).1, rfl⟩, by simp [Run.step]⟩

end Steps

/-- The object knows of its events, and lists the first unless it is longer than the read buffer. -/
def Run.Lists (s : Run) : Prop :=
  (s.batch.hasEvents = true ↔ s.dir.events ≠ []) ∧
    ∀ d, s.dir.events.head? = some d → d.length ≤ 1024 * 1024 →
      ∃ l, (s.batch.getEventsForUpload s.dir 1 sizeMax).1 = some l ∧ 0 < l.wrapped.events

theorem Run.Clear.lists {s : Run} (h : s.Clear) : s.Lists := by
  refine ⟨eventBatch_drains.hasEvents h.tidy, fun d hd hfits => ?_⟩
  refine h.tidy.lists hd Nat.one_pos (Nat.le_min.mpr ⟨?_, hfits⟩)
  exact hfits.trans (by decide)

/-- **The files do not get stuck** where a new file is only started behind one with events: every
state knows whether it stores events and lists the first of them. -/
theorem multiFile_lists (fileMaxEvents fileMaxSize : Nat) {ops : List Op}
    (hops : Runs.Along Run.step Run.Sound (Run.start fileMaxEvents fileMaxSize) ops) :
    (ops.foldl Run.step (Run.start fileMaxEvents fileMaxSize)).Lists := by
  have hclear : (ops.foldl Run.step (Run.start fileMaxEvents fileMaxSize)).Clear :=
    Runs.invariant Run.Clear (fun _ _ h hop => h.step hop)
      (Run.start_clear fileMaxEvents fileMaxSize) hops
  exact hclear.lists

def wide : Event := ⟨[123, 32, 125], by decide⟩

theorem multiFile_lists_small :
    (([.addEvent firstEvent [], .addEvent firstEvent [], .getEventsForUpload 1 100,
      .onEventsUploaded [], .reopen 0 4, .addEvent firstEvent []] : List Op).foldl
        Run.step (Run.start 0 4)).Lists :=
  multiFile_lists 0 4 (by decide)

/-- **An event too large for a file blocks those after it.** It is refused, yet `hasEvents` is true
from then on; the event stored next is never listed. -/
theorem oversized_gets_stuck :
    let refused := (Run.start 0 4).step (.addEvent wide [])
    let stored := refused.step (.addEvent firstEvent [])
    (refused.batch.hasEvents = true ∧ refused.dir.events = []) ∧
      stored.dir.events = [firstEvent.line] ∧
      (stored.batch.getEventsForUpload stored.dir 1 sizeMax).1.isNone = true ∧
      ¬ refused.Lists ∧ ¬ stored.Lists := by
  intro refused stored
  have hrefused : refused.batch.hasEvents = true ∧ refused.dir.events = [] := by decide
  have hstored : stored.dir.events = [firstEvent.line] := by decide
  have hnull : (stored.batch.getEventsForUpload stored.dir 1 sizeMax).1.isNone = true := by decide
  refine ⟨hrefused, hstored, hnull, fun h => h.1.mp hrefused.1 hrefused.2, fun h => ?_⟩
  obtain ⟨l, hl, _⟩ := h.2 firstEvent.line (by rw [hstored]; rfl) (by decide)
  rw [hl] at hnull
  cases hnull

end MultiFileEventBatch

end Cll
