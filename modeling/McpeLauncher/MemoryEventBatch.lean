import McpeLauncher.EventBatch

/-! # A batch in memory

`MemoryEventBatch` serialises events when they are listed, and an acknowledgement removes a number
of events from the front, whichever they are. -/
namespace Cll
open List
open Lines (fitting fitting_le)

structure MemoryEventBatch where
  items : List Event
  limit : Nat
  deriving DecidableEq

namespace MemoryEventBatch

def lines (m : MemoryEventBatch) : List (List UInt8) := m.items.map Event.line

def addEvent (m : MemoryEventBatch) (e : Event) : Bool × MemoryEventBatch :=
  if m.limit ≤ m.items.length then (false, m) else (true, { m with items := m.items ++ [e] })

def hasEvents (m : MemoryEventBatch) : Bool := !m.items.isEmpty

/-- The loop of `getEventsForUpload`: `ret` is the data so far and `count` the
number of events in it. -/
def listLoop (maxCount maxSize : Nat) :
    List Event → (ret : List UInt8) → (count : Nat) → List UInt8 × Nat
  | [], ret, count => (ret, count)
  | i :: items, ret, count =>
    if maxSize < ret.length + i.text.length + 2 then (ret, count)
    else if count + 1 = maxCount then (ret ++ i.line, count + 1)
    else listLoop maxCount maxSize items (ret ++ i.line) (count + 1)

def getEventsForUpload (m : MemoryEventBatch) (maxCount maxSize : Nat) :
    Option VectorBatchedEventList :=
  if maxCount = 0 ∨ maxSize = 0 ∨ m.items = [] then none
  else
    let (ret, count) := listLoop maxCount maxSize m.items [] 0
    some ⟨ret, count, decide (count < m.items.length)⟩

/-- Erasing more events than there are is undefined in the source; here it erases all. -/
def onEventsUploaded (m : MemoryEventBatch) (events : VectorBatchedEventList) :
    MemoryEventBatch :=
  { m with items := m.items.drop events.events }

def transferAllEvents (m : MemoryEventBatch) : List Event × MemoryEventBatch :=
  (m.items, { m with items := [] })

/-! ## What is listed -/

theorem listLoop_eq {maxCount maxSize : Nat} (items : List Event) {ret : List UInt8} {count : Nat}
    (hcount : count < maxCount) (hsize : ret.length ≤ maxSize) :
    listLoop maxCount maxSize items ret count =
      let n := fitting (maxCount - count) (maxSize - ret.length) (items.map Event.line)
      (ret ++ ((items.map Event.line).take n).flatten, count + n) := by
  induction items generalizing ret count with
  | nil => simp [listLoop, fitting]
  | cons i items ih =>
    obtain ⟨left, hleft⟩ : ∃ left, maxCount - count = left + 1 := ⟨maxCount - count - 1, by omega⟩
    have hline : i.line.length = i.text.length + 2 := by simp [Event.line]
    rw [listLoop, map_cons, hleft, fitting]
    by_cases hlong : maxSize < ret.length + i.text.length + 2
    · rw [if_pos hlong, if_neg (by omega)]
      simp
    · have hret : (ret ++ i.line).length ≤ maxSize := by
        rw [length_append]
        omega
      have hfits : i.line.length ≤ maxSize - ret.length := by omega
      rw [if_neg hlong, if_pos hfits]
      by_cases hlast : count + 1 = maxCount
      · have hzero : left = 0 := by omega
        rw [if_pos hlast, hzero]
        cases items <;> simp [fitting]
      · have hrest : maxCount - (count + 1) = left := by omega
        have hbytes : maxSize - (ret ++ i.line).length = maxSize - ret.length - i.line.length := by
          rw [length_append, Nat.sub_add_eq]
        rw [if_neg hlast, ih (by omega) hret, hrest, hbytes]
        simp only [take_succ_cons, flatten_cons, append_assoc]
        rw [Nat.add_assoc, Nat.add_comm 1]

/-- The events that fit, unless there are none or the limits allow none. -/
theorem getEventsForUpload_eq (m : MemoryEventBatch) (maxCount maxSize : Nat) :
    m.getEventsForUpload maxCount maxSize =
      if m.lines = [] ∨ maxCount = 0 ∨ maxSize = 0 then none
      else
        let n := fitting maxCount maxSize m.lines
        some ⟨(m.lines.take n).flatten, n, decide (n < m.lines.length)⟩ := by
  have hlines : m.lines = [] ↔ m.items = [] := map_eq_nil_iff
  rw [getEventsForUpload]
  by_cases hstop : maxCount = 0 ∨ maxSize = 0 ∨ m.items = []
  · rw [if_pos hstop, if_pos (by rw [hlines]; tauto)]
  · have hgo : ¬ (m.lines = [] ∨ maxCount = 0 ∨ maxSize = 0) := by
      rw [hlines]
      tauto
    simp only [not_or] at hstop
    rw [if_neg hgo, if_neg (by tauto),
      listLoop_eq m.items (Nat.pos_of_ne_zero hstop.1) (Nat.zero_le maxSize)]
    simp [lines]

section
variable {m : MemoryEventBatch} {maxCount maxSize : Nat} {l : VectorBatchedEventList}
  (hl : m.getEventsForUpload maxCount maxSize = some l)
include hl

theorem listed_spec :
    ∃ done rest, m.lines = done ++ rest ∧
      l = ⟨done.flatten, done.length, decide (done.length < m.lines.length)⟩ ∧
      done.length ≤ maxCount ∧ done.flatten.length ≤ maxSize := by
  rw [getEventsForUpload_eq] at hl
  split at hl
  · exact absurd hl (by simp)
  · obtain ⟨hlength, hcount, hsize⟩ := fitting_le maxCount maxSize m.lines
    refine ⟨_, _, (take_append_drop (fitting maxCount maxSize m.lines) m.lines).symm, ?_, ?_, hsize⟩
    · rw [length_take, Nat.min_eq_left hlength]
      exact (Option.some.inj hl).symm
    · rwa [length_take, Nat.min_eq_left hlength]

theorem getEventsForUpload_spec :
    ∃ done, done <+: m.lines ∧ l.data = done.flatten ∧ l.events = done.length := by
  obtain ⟨done, rest, hlines, rfl, _⟩ := listed_spec hl
  exact ⟨done, ⟨rest, hlines.symm⟩, rfl, rfl⟩

end

variable {m : MemoryEventBatch} {l : VectorBatchedEventList}

theorem lines_onEventsUploaded {done : List (List UInt8)} (hdone : done <+: m.lines)
    (hcount : l.events = done.length) : m.lines = done ++ (m.onEventsUploaded l).lines := by
  obtain ⟨rest, hrest⟩ := hdone
  rw [onEventsUploaded, lines, lines, map_drop, hcount]
  change m.lines = done ++ m.lines.drop done.length
  rw [← hrest, drop_left]

theorem lines_addEvent (m : MemoryEventBatch) (e : Event) :
    (m.addEvent e).2.lines = if (m.addEvent e).1 then m.lines ++ [e.line] else m.lines := by
  rw [addEvent]
  split
  · rfl
  · simp [lines]

theorem lines_isLine (m : MemoryEventBatch) : ∀ d ∈ m.lines, Lines.IsLine 10 d := by
  intro d hd
  obtain ⟨e, _, rfl⟩ := mem_map.mp hd
  exact e.line_isLine

def eventBatch : EventBatch MemoryEventBatch VectorBatchedEventList where
  addEvent e m := m.addEvent e
  getEventsForUpload maxCount maxSize m := (m.getEventsForUpload maxCount maxSize, m)
  onEventsUploaded l m := m.onEventsUploaded l
  hasEvents m := m.hasEvents
  getData l := l.data
  getEventCount l := l.events
  hasMoreEvents l := l.moreEvents

/-- As long as its events are not transferred away, the vector is a queue. -/
theorem eventBatch_isQueue :
    eventBatch.IsQueue (fun m ls => m.lines = ls)
      (fun l m => ∃ done, done <+: m.lines ∧ l.data = done.flatten ∧ l.events = done.length) where
  isLine := by
    rintro m _ rfl
    exact m.lines_isLine
  addEvent := by
    rintro m _ e rfl
    exact m.lines_addEvent e
  listed_addEvent := by
    rintro m _ l e rfl ⟨done, hfront, hl⟩
    refine ⟨done, hfront.trans ?_, hl⟩
    change m.lines <+: (m.addEvent e).2.lines
    rw [lines_addEvent]
    split
    · exact prefix_append _ _
    · exact prefix_refl _
  getEventsForUpload _ _ h := h
  listed _ _ _ hl := getEventsForUpload_spec hl
  listed_of_none _ _ _ _ hl := hl
  onEventsUploaded := by
    rintro m _ l rfl ⟨done, hfront, hdata, hcount⟩
    exact ⟨done, _, lines_onEventsUploaded hfront hcount, hdata, hcount, rfl⟩

end MemoryEventBatch

end Cll
