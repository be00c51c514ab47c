import McpeLauncher.Lines

/-! # Event batches

The interface `EventBatch` of cll-telemetry, a queue with one list at a time handed out for upload;
`onEventsUploaded` removes the events of that list, whatever was added in between. -/
namespace Cll

/-- The text `dump` makes of an event, in which a newline is escaped. -/
structure Event where
  text : List UInt8
  no_newline : 10 ∉ text
  deriving DecidableEq

def Event.line (e : Event) : List UInt8 := e.text ++ [13, 10]

theorem Event.line_isLine (e : Event) : Lines.IsLine 10 e.line := by
  refine ⟨e.text ++ [13], ?_, by simp [line]⟩
  simp only [List.mem_append, List.mem_singleton, not_or]
  exact ⟨e.no_newline, by decide⟩

structure VectorBatchedEventList where
  data : List UInt8
  events : Nat
  moreEvents : Bool
  deriving DecidableEq

/-- `EventBatch`, with states `σ` and lists `ℓ`, and the getters of its lists. -/
structure EventBatch (σ ℓ : Type) where
  addEvent : Event → σ → Bool × σ
  getEventsForUpload : (maxCount maxSize : Nat) → σ → Option ℓ × σ
  onEventsUploaded : ℓ → σ → σ
  hasEvents : σ → Bool
  getData : ℓ → List UInt8
  getEventCount : ℓ → Nat
  hasMoreEvents : ℓ → Bool

/-- In state `s` the batch has the lines `ls`, oldest first (`Represents s ls`), and `l` was handed
out and not acknowledged (`Listed l s`). -/
structure EventBatch.IsQueue {σ ℓ : Type} (B : EventBatch σ ℓ)
    (Represents : σ → List (List UInt8) → Prop) (Listed : ℓ → σ → Prop) : Prop where
  isLine {s ls} : Represents s ls → ∀ l ∈ ls, Lines.IsLine 10 l
  /-- An added event is the last one; a refused one is not there. -/
  addEvent {s ls} (e) : Represents s ls →
    Represents (B.addEvent e s).2 (if (B.addEvent e s).1 then ls ++ [e.line] else ls)
  /-- Adding leaves the list that is out a list. -/
  listed_addEvent {s ls l} (e) : Represents s ls → Listed l s → Listed l (B.addEvent e s).2
  /-- Listing removes nothing. -/
  getEventsForUpload {s ls} (maxCount maxSize) : Represents s ls →
    Represents (B.getEventsForUpload maxCount maxSize s).2 ls
  listed {s ls l} (maxCount maxSize) : Represents s ls →
    (B.getEventsForUpload maxCount maxSize s).1 = some l →
      Listed l (B.getEventsForUpload maxCount maxSize s).2
  listed_of_none {s ls l} (maxCount maxSize) : Represents s ls →
    (B.getEventsForUpload maxCount maxSize s).1 = none → Listed l s →
      Listed l (B.getEventsForUpload maxCount maxSize s).2
  /-- A list holds the first events, and acknowledging it removes these. -/
  onEventsUploaded {s ls l} : Represents s ls → Listed l s →
    ∃ done rest, ls = done ++ rest ∧ B.getData l = done.flatten ∧
      B.getEventCount l = done.length ∧ Represents (B.onEventsUploaded l s) rest

end Cll
