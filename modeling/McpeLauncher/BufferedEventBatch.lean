import McpeLauncher.MemoryEventBatch
import McpeLauncher.MultiFileEventBatch
import McpeLauncher.Runs

/-! # A batch with a buffer in memory

`BufferedEventBatch` puts a `MemoryEventBatch` in front of another batch; when memory is full, or on
`flush`, its events are forwarded, also those of a list that is out. -/
namespace Cll
open List MemoryEventBatch

inductive BufferedEventList (ℓ : Type) where
  /-- `Type::Wrapped` -/
  | wrapped (l : ℓ) (hasMemoryEvents : Bool)
  /-- `Type::Memory`, with the pointer, which may be null -/
  | memory (l : Option VectorBatchedEventList)
  /-- `Type::Merged` -/
  | merged (l : ℓ) (mem : VectorBatchedEventList)

structure BufferedEventBatch (σ : Type) where
  wrapped : σ
  mem : MemoryEventBatch

def subSize (a b : Nat) : Nat := (a + 2 ^ 64 - b) % 2 ^ 64

namespace BufferedEventBatch

section Operations
variable {σ ℓ : Type} (B : EventBatch σ ℓ)

/-- `getData`, with `none` where it goes through a null pointer. -/
def getData : BufferedEventList ℓ → Option (List UInt8)
  | .wrapped l _ => some (B.getData l)
  | .memory l => l.map VectorBatchedEventList.data
  | .merged l mem => some (B.getData l ++ mem.data)

/-- The loop of `flushInternal`; an event that is refused is dropped, with a warning. -/
def forward (w : σ) : List Event → σ
  | [] => w
  | item :: items => forward (B.addEvent item w).2 items

def flushInternal (b : BufferedEventBatch σ) : BufferedEventBatch σ :=
  let (items, mem) := b.mem.transferAllEvents
  ⟨forward B b.wrapped items, mem⟩

def addEvent (b : BufferedEventBatch σ) (e : Event) : Bool × BufferedEventBatch σ :=
  let (ok, mem) := b.mem.addEvent e
  if !ok then
    let b := b.flushInternal B
    let (ok, mem) := b.mem.addEvent e
    (ok, { b with mem := mem })
  else (true, { b with mem := mem })

def getEventsForUpload (b : BufferedEventBatch σ) (maxCount maxSize : Nat) :
    BufferedEventList ℓ × BufferedEventBatch σ :=
  if B.hasEvents b.wrapped then
    let (ret, wrapped) := B.getEventsForUpload maxCount maxSize b.wrapped
    let b := { b with wrapped := wrapped }
    match ret with
    | some ret =>
      let retMem :=
        if !B.hasMoreEvents ret && b.mem.hasEvents then
          b.mem.getEventsForUpload (subSize maxCount (B.getEventCount ret))
            (subSize maxSize (B.getData ret).length)
        else none
      match retMem with
      | some retMem => (.merged ret retMem, b)
      | none => (.wrapped ret b.mem.hasEvents, b)
    | none => (.memory (b.mem.getEventsForUpload maxCount maxSize), b)
  else (.memory (b.mem.getEventsForUpload maxCount maxSize), b)

/-- `onEventsUploaded`, with `none` where it goes through a null pointer. -/
def onEventsUploaded (b : BufferedEventBatch σ) :
    BufferedEventList ℓ → Option (BufferedEventBatch σ)
  | .wrapped l _ => some { b with wrapped := B.onEventsUploaded l b.wrapped }
  | .memory l => l.map fun l => { b with mem := b.mem.onEventsUploaded l }
  | .merged l mem => some ⟨B.onEventsUploaded l b.wrapped, b.mem.onEventsUploaded mem⟩

end Operations

/-- A buffered batch with the list that is out, whether a flush has moved memory events since,
whether a null pointer was used, and the events acknowledged and added. -/
structure Run (σ ℓ : Type) where
  batch : BufferedEventBatch σ
  outstanding : Option (BufferedEventList ℓ) := none
  moved : Bool := false
  crashed : Bool := false
  acknowledged : List (List UInt8) := []
  added : List Event := []

inductive Op where
  | addEvent (e : Event)
  | flush
  | getEventsForUpload (maxCount maxSize : Nat)
  | onEventsUploaded

section Runs
variable {σ ℓ : Type} (B : EventBatch σ ℓ)

def Run.start (w : σ) (bufferedItemCount : Nat) : Run σ ℓ :=
  { batch := ⟨w, [], bufferedItemCount⟩ }

def Run.flushes (s : Run σ ℓ) : Op → Bool
  | .addEvent _ => decide (s.batch.mem.limit ≤ s.batch.mem.items.length)
  | .flush => true
  | _ => false

def listedEvents (l : BufferedEventList ℓ) : List (List UInt8) :=
  Lines.lines 10 ((getData B l).getD [])

def Run.step (s : Run σ ℓ) (op : Op) : Run σ ℓ :=
  let moved := s.moved || (s.flushes op && s.batch.mem.hasEvents)
  match op with
  | .addEvent e =>
    let (ok, batch) := s.batch.addEvent B e
    { s with batch := batch, moved := moved, added := if ok then s.added ++ [e] else s.added }
  | .flush => { s with batch := s.batch.flushInternal B, moved := moved }
  | .getEventsForUpload maxCount maxSize =>
    let (ret, batch) := s.batch.getEventsForUpload B maxCount maxSize
    { s with batch := batch, outstanding := some ret, moved := false }
  | .onEventsUploaded =>
    match s.outstanding with
    | none => s
    | some l => match s.batch.onEventsUploaded B l with
      | none => { s with crashed := true }
      | some batch =>
        { s with batch := batch, outstanding := none,
                 acknowledged := s.acknowledged ++ listedEvents B l }

/-! ## What is kept -/

/-- The wrapped batch takes all of the events, one after another. -/
def Accepts (w : σ) : List Event → Prop
  | [] => True
  | item :: items => (B.addEvent item w).1 = true ∧ Accepts (B.addEvent item w).2 items

def memoryCount : BufferedEventList ℓ → Nat
  | .wrapped _ _ => 0
  | .memory l => (l.map VectorBatchedEventList.events).getD 0
  | .merged _ mem => mem.events

/-- The wrapped batch takes flushed events; the pointer of an acknowledged list is not null, and its
memory events were not moved. -/
def Run.Sound (s : Run σ ℓ) : Op → Prop
  | .onEventsUploaded => ∀ l, s.outstanding = some l →
      getData B l ≠ none ∧ (memoryCount l = 0 ∨ s.moved = false)
  | op => s.flushes op = true → Accepts B s.batch.wrapped s.batch.mem.items

variable (Represents : σ → List (List UInt8) → Prop) (Listed : ℓ → σ → Prop)

/-- Acknowledged and stored events are, up to order, the first ones and those added; the list that
is out is stored. -/
def Run.Conserved (ls₀ : List (List UInt8)) (s : Run σ ℓ) : Prop :=
  s.crashed = false ∧ ∃ ls, Represents s.batch.wrapped ls ∧
    (s.acknowledged ++ (ls ++ s.batch.mem.lines)).Perm (ls₀ ++ s.added.map Event.line) ∧
    ∀ l, s.outstanding = some l → List.Subperm (listedEvents B l) (ls ++ s.batch.mem.lines)

/-- The memory events of a list are stored behind the wrapped batch's first `n` events, and first in
memory unless they were moved. -/
def MemoryPart (mem : VectorBatchedEventList) (n : Nat) (ls lines : List (List UInt8))
    (moved : Bool) : Prop :=
  ∃ done : List (List UInt8), (∀ d ∈ done, Lines.IsLine 10 d) ∧ mem.data = done.flatten ∧
    mem.events = done.length ∧ List.Subperm done (ls.drop n ++ lines) ∧
    (moved = false → done <+: lines)

def Tracked (b : BufferedEventBatch σ) (ls : List (List UInt8)) (moved : Bool) :
    BufferedEventList ℓ → Prop
  | .wrapped l _ => Listed l b.wrapped
  | .memory l => ∀ mem, l = some mem → MemoryPart mem 0 ls b.mem.lines moved
  | .merged l mem => Listed l b.wrapped ∧
      MemoryPart mem (B.getEventCount l) ls b.mem.lines moved

structure Run.Inv (ls₀ : List (List UInt8)) (s : Run σ ℓ) (ls : List (List UInt8)) : Prop where
  running : s.crashed = false
  represents : Represents s.batch.wrapped ls
  conserved : (s.acknowledged ++ (ls ++ s.batch.mem.lines)).Perm (ls₀ ++ s.added.map Event.line)
  tracked : ∀ l, s.outstanding = some l → Tracked B Listed s.batch ls s.moved l

end Runs

section Steps
variable {σ ℓ : Type} {B : EventBatch σ ℓ} {Represents : σ → List (List UInt8) → Prop}
  {Listed : ℓ → σ → Prop} {b : BufferedEventBatch σ} {ls : List (List UInt8)} {moved' moved : Bool}
  {l : BufferedEventList ℓ} {m : MemoryEventBatch} {mem : VectorBatchedEventList}

section
variable {mem : VectorBatchedEventList} {n : Nat} {lines : List (List UInt8)} {moved : Bool}
  (h : MemoryPart mem n ls lines moved)
include h

theorem MemoryPart.concat (x : List UInt8) : MemoryPart mem n ls (lines ++ [x]) moved := by
  obtain ⟨done, hline, hdata, hcount, hstored, hfront⟩ := h
  refine ⟨done, hline, hdata, hcount, hstored.trans ?_, fun hm => (hfront hm).trans ?_⟩
  · rw [← append_assoc]
    exact (sublist_append_left _ _).subperm
  · exact prefix_append _ _

/-- A flush moves them, if there are any, to the end of the wrapped batch. -/
theorem MemoryPart.flush (hn : n ≤ ls.length)
    (hmoved : moved' = false → moved = false ∧ lines = []) :
    MemoryPart mem n (ls ++ lines) [] moved' := by
  obtain ⟨done, hline, hdata, hcount, hstored, hfront⟩ := h
  refine ⟨done, hline, hdata, hcount, ?_, fun hm => ?_⟩
  · rwa [drop_append_of_le_length hn, append_nil]
  · obtain ⟨hm, hnil⟩ := hmoved hm
    rw [← hnil]
    exact hfront hm

end

theorem MemoryPart.listed {maxCount maxSize : Nat} {l : VectorBatchedEventList}
    (hl : m.getEventsForUpload maxCount maxSize = some l) (n : Nat) (ls : List (List UInt8)) :
    MemoryPart l n ls m.lines false := by
  obtain ⟨done, hfront, hdata, hcount⟩ := getEventsForUpload_spec hl
  refine ⟨done, fun d hd => m.lines_isLine d (hfront.subset hd), hdata, hcount, ?_, fun _ => hfront⟩
  exact (hfront.sublist.trans (sublist_append_right _ _)).subperm

theorem MemoryPart.onEventsUploaded {n : Nat} (h : MemoryPart mem n ls m.lines moved)
    (hok : mem.events = 0 ∨ moved = false) :
    m.lines = Lines.lines 10 mem.data ++ (m.onEventsUploaded mem).lines := by
  obtain ⟨done, hline, hdata, hcount, _, hfront⟩ := h
  have hpre : done <+: m.lines := by
    rcases hok with hzero | hmoved
    · rw [eq_nil_of_length_eq_zero (hcount.symm.trans hzero)]
      exact nil_prefix
    · exact hfront hmoved
  rw [hdata, Lines.lines_flatten 10 hline]
  exact lines_onEventsUploaded hpre hcount

theorem forward_spec (hB : B.IsQueue Represents Listed) {w : σ} (hw : Represents w ls)
    {items : List Event} (hok : Accepts B w items) :
    Represents (forward B w items) (ls ++ items.map Event.line) ∧
      ∀ l, Listed l w → Listed l (forward B w items) := by
  induction items generalizing w ls with
  | nil => exact ⟨by simpa [forward] using hw, fun l hl => hl⟩
  | cons item items ih =>
    obtain ⟨htaken, hrest⟩ := hok
    have hstep := hB.addEvent item hw
    rw [if_pos htaken] at hstep
    obtain ⟨hrep, hlisted⟩ := ih hstep hrest
    refine ⟨?_, fun l hl => hlisted l (hB.listed_addEvent item hw hl)⟩
    rw [append_assoc, singleton_append] at hrep
    exact hrep

theorem Tracked.flush (hB : B.IsQueue Represents Listed) (hw : Represents b.wrapped ls)
    (hok : Accepts B b.wrapped b.mem.items) (h : Tracked B Listed b ls moved l)
    (hmoved : moved' = false → moved = false ∧ b.mem.lines = []) :
    Tracked B Listed (b.flushInternal B) (ls ++ b.mem.lines) moved' l := by
  obtain ⟨_, hlisted⟩ := forward_spec hB hw hok
  cases l with
  | wrapped l _ => exact hlisted l h
  | memory l => exact fun mem hmem => (h mem hmem).flush (Nat.zero_le _) hmoved
  | merged l mem =>
    obtain ⟨hl, hpart⟩ := h
    obtain ⟨done, rest, hls, _, hcount, _⟩ := hB.onEventsUploaded hw hl
    refine ⟨hlisted l hl, hpart.flush ?_ hmoved⟩
    rw [hcount, hls, length_append]
    exact Nat.le_add_right _ _

theorem lines_eq_nil_of_not_hasEvents (h : m.hasEvents = false) : m.lines = [] := by
  have hnil : m.items = [] := by simpa [hasEvents] using h
  rw [lines, hnil, map_nil]

variable {s : Run σ ℓ} {ls₀ : List (List UInt8)}

theorem Run.Inv.flush (hB : B.IsQueue Represents Listed) (h : s.Inv B Represents Listed ls₀ ls)
    (hok : Accepts B s.batch.wrapped s.batch.mem.items) :
    Run.Inv B Represents Listed ls₀ (s.step B .flush) (ls ++ s.batch.mem.lines) := by
  obtain ⟨hrep, _⟩ := forward_spec hB h.represents hok
  refine ⟨h.running, hrep, ?_, fun l hl => ?_⟩
  · have hempty : (s.batch.flushInternal B).mem.lines = [] := rfl
    simp only [Run.step, hempty, append_nil]
    exact h.conserved
  · refine (h.tracked l hl).flush hB h.represents hok fun hmoved => ?_
    obtain ⟨hbefore, hnone⟩ := Bool.or_eq_false_iff.mp hmoved
    exact ⟨hbefore, lines_eq_nil_of_not_hasEvents hnone⟩

theorem Tracked.addEvent (h : Tracked B Listed b ls moved l) (e : Event) :
    Tracked B Listed { b with mem := (b.mem.addEvent e).2 } ls moved l := by
  have hpart : ∀ {mem : VectorBatchedEventList} {n : Nat},
      MemoryPart mem n ls b.mem.lines moved →
        MemoryPart mem n ls (b.mem.addEvent e).2.lines moved := by
    intro mem n hmem
    rw [lines_addEvent]
    split
    · exact hmem.concat e.line
    · exact hmem
  cases l with
  | wrapped l _ => exact h
  | memory l => exact fun mem hmem => hpart (h mem hmem)
  | merged l mem => exact ⟨h.1, hpart h.2⟩

/-- The part of `addEvent` after a flush, or without one. -/
def Run.put (s : Run σ ℓ) (e : Event) : Run σ ℓ :=
  { s with batch := { s.batch with mem := (s.batch.mem.addEvent e).2 },
           added := if (s.batch.mem.addEvent e).1 then s.added ++ [e] else s.added }

theorem Run.Inv.put (h : s.Inv B Represents Listed ls₀ ls) (e : Event) :
    Run.Inv B Represents Listed ls₀ (s.put e) ls := by
  refine ⟨h.running, h.represents, ?_, fun l hl => (h.tracked l hl).addEvent e⟩
  simp only [Run.put, lines_addEvent]
  split
  · rw [map_append, ← append_assoc, ← append_assoc, ← append_assoc, append_assoc s.acknowledged]
    exact h.conserved.append_right [e.line]
  · exact h.conserved

theorem step_addEvent (s : Run σ ℓ) (e : Event) :
    s.step B (.addEvent e) =
      if s.flushes (.addEvent e) then (s.step B .flush).put e else s.put e := by
  by_cases hfull : s.batch.mem.limit ≤ s.batch.mem.items.length
  · have hadd : s.batch.mem.addEvent e = (false, s.batch.mem) := if_pos hfull
    simp [Run.step, Run.put, BufferedEventBatch.addEvent, hadd, Run.flushes, hfull]
  · have hadd : s.batch.mem.addEvent e =
        (true, { s.batch.mem with items := s.batch.mem.items ++ [e] }) := if_neg hfull
    simp [Run.step, Run.put, BufferedEventBatch.addEvent, hadd, Run.flushes, hfull]

/-- The wrapped batch's list, with the memory if it has no more; or the memory alone, if it has
nothing. -/
theorem getEventsForUpload_cases (B : EventBatch σ ℓ) (b : BufferedEventBatch σ)
    (maxCount maxSize : Nat) :
    (∃ l w, B.getEventsForUpload maxCount maxSize b.wrapped = (some l, w) ∧
      (b.getEventsForUpload B maxCount maxSize = (.wrapped l b.mem.hasEvents, ⟨w, b.mem⟩) ∨
        ∃ mem, B.hasMoreEvents l = false ∧
          b.mem.getEventsForUpload (subSize maxCount (B.getEventCount l))
            (subSize maxSize (B.getData l).length) = some mem ∧
          b.getEventsForUpload B maxCount maxSize = (.merged l mem, ⟨w, b.mem⟩))) ∨
    ∃ w, (B.hasEvents b.wrapped = false ∧ w = b.wrapped ∨
        B.getEventsForUpload maxCount maxSize b.wrapped = (none, w)) ∧
      b.getEventsForUpload B maxCount maxSize =
        (.memory (b.mem.getEventsForUpload maxCount maxSize), ⟨w, b.mem⟩) := by
  rw [BufferedEventBatch.getEventsForUpload]
  by_cases hhas : B.hasEvents b.wrapped = true
  · rw [if_pos hhas]
    rcases hget : B.getEventsForUpload maxCount maxSize b.wrapped with ⟨_ | l, w⟩
    · exact .inr ⟨w, .inr rfl, rfl⟩
    · refine .inl ⟨l, w, rfl, ?_⟩
      dsimp only
      split
      · next mem hmem =>
        split at hmem
        · next hrest =>
          simp only [Bool.and_eq_true, Bool.not_eq_true'] at hrest
          exact .inr ⟨mem, hrest.1, hmem, rfl⟩
        · exact absurd hmem (by simp)
      · exact .inl rfl
  · rw [if_neg hhas]
    exact .inr ⟨b.wrapped, .inl ⟨Bool.eq_false_iff.mpr hhas, rfl⟩, rfl⟩

section
variable (hB : B.IsQueue Represents Listed)
include hB

theorem getEventsForUpload_tracked (hw : Represents b.wrapped ls) (maxCount maxSize : Nat) :
    Represents (b.getEventsForUpload B maxCount maxSize).2.wrapped ls ∧
      (b.getEventsForUpload B maxCount maxSize).2.mem = b.mem ∧
      Tracked B Listed (b.getEventsForUpload B maxCount maxSize).2 ls false
        (b.getEventsForUpload B maxCount maxSize).1 := by
  have hrep := hB.getEventsForUpload maxCount maxSize hw
  have hlisted := fun l => hB.listed (l := l) maxCount maxSize hw
  rcases getEventsForUpload_cases B b maxCount maxSize with
    ⟨l, w, hget, hlist | ⟨mem, _, hmem, hlist⟩⟩ | ⟨w, hnone, hlist⟩
  · rw [hget] at hrep hlisted
    rw [hlist]
    exact ⟨hrep, rfl, hlisted l rfl⟩
  · rw [hget] at hrep hlisted
    rw [hlist]
    exact ⟨hrep, rfl, hlisted l rfl, MemoryPart.listed hmem _ ls⟩
  · have hw' : Represents w ls := by
      rcases hnone with ⟨_, rfl⟩ | hget
      · exact hw
      · rwa [hget] at hrep
    rw [hlist]
    exact ⟨hw', rfl, fun mem hmem => MemoryPart.listed hmem 0 ls⟩

theorem Run.Inv.getEventsForUpload (h : s.Inv B Represents Listed ls₀ ls) (maxCount maxSize : Nat) :
    Run.Inv B Represents Listed ls₀ (s.step B (.getEventsForUpload maxCount maxSize)) ls := by
  obtain ⟨hrep, hmem, htracked⟩ := getEventsForUpload_tracked hB h.represents maxCount maxSize
  refine ⟨h.running, hrep, ?_, fun l hl => ?_⟩
  · simp only [Run.step, hmem]
    exact h.conserved
  · simp only [Run.step, Option.some.injEq] at hl
    subst hl
    exact htracked

/-! ### The events of a list -/

theorem listedEvents_wrapped (hw : Represents b.wrapped ls) {l : ℓ} (hl : Listed l b.wrapped)
    (hasMemoryEvents : Bool) :
    ∃ first rest, ls = first ++ rest ∧ listedEvents B (.wrapped l hasMemoryEvents) = first ∧
      Represents (B.onEventsUploaded l b.wrapped) rest := by
  obtain ⟨first, rest, hls, hfirst, _, hrep⟩ := hB.onEventsUploaded hw hl
  refine ⟨first, rest, hls, ?_, hrep⟩
  simp only [listedEvents, getData, Option.getD_some, hfirst]
  exact Lines.lines_flatten 10 fun d hd => hB.isLine hw d (by simp [hls, hd])

theorem listedEvents_merged (hw : Represents b.wrapped ls) {l : ℓ} (hl : Listed l b.wrapped)
    {done : List (List UInt8)} (hline : ∀ d ∈ done, Lines.IsLine 10 d)
    (hdata : mem.data = done.flatten) :
    ∃ first rest, ls = first ++ rest ∧ B.getEventCount l = first.length ∧
      listedEvents B (.merged l mem) = first ++ done ∧
      Represents (B.onEventsUploaded l b.wrapped) rest := by
  obtain ⟨first, rest, hls, hfirst, hcount, hrep⟩ := hB.onEventsUploaded hw hl
  refine ⟨first, rest, hls, hcount, ?_, hrep⟩
  simp only [listedEvents, getData, Option.getD_some, hfirst, hdata, ← flatten_append]
  refine Lines.lines_flatten 10 fun d hd => ?_
  rcases mem_append.mp hd with hd | hd
  · exact hB.isLine hw d (by simp [hls, hd])
  · exact hline d hd

end

section
variable (hB : B.IsQueue Represents Listed) (hw : Represents b.wrapped ls) {moved : Bool}
  {l : BufferedEventList ℓ} (h : Tracked B Listed b ls moved l)
include hB hw h

theorem Tracked.subperm : List.Subperm (listedEvents B l) (ls ++ b.mem.lines) := by
  cases l with
  | wrapped l hasMemoryEvents =>
    obtain ⟨first, rest, hls, hlisted, _⟩ := listedEvents_wrapped hB hw h hasMemoryEvents
    rw [hlisted, hls, append_assoc]
    exact (sublist_append_left _ _).subperm
  | memory l =>
    cases l with
    | none => exact nil_subperm
    | some mem =>
      obtain ⟨done, hline, hdata, _, hstored, _⟩ := h mem rfl
      simp only [listedEvents, getData, Option.map_some, Option.getD_some, hdata,
        Lines.lines_flatten 10 hline]
      exact hstored
  | merged l mem =>
    obtain ⟨hl, done, hline, hdata, _, hstored, _⟩ := h
    obtain ⟨first, rest, hls, hcount, hlisted, _⟩ := listedEvents_merged hB hw hl hline hdata
    rw [hcount, hls, drop_left] at hstored
    rw [hlisted, hls, append_assoc]
    exact (subperm_append_left first).mpr hstored

/-- **Exactly the events of the list are removed** from the two batches. -/
theorem Tracked.onEventsUploaded (hdata : getData B l ≠ none)
    (hok : memoryCount l = 0 ∨ moved = false) :
    ∃ b' first done rest, b.onEventsUploaded B l = some b' ∧ listedEvents B l = first ++ done ∧
      ls = first ++ rest ∧ b.mem.lines = done ++ b'.mem.lines ∧ Represents b'.wrapped rest := by
  cases l with
  | wrapped l hasMemoryEvents =>
    obtain ⟨first, rest, hls, hlisted, hrep⟩ := listedEvents_wrapped hB hw h hasMemoryEvents
    exact ⟨_, first, [], rest, rfl, by rw [append_nil, hlisted], hls, rfl, hrep⟩
  | memory l =>
    cases l with
    | none => exact absurd rfl hdata
    | some mem =>
      have hmem := (h mem rfl).onEventsUploaded hok
      exact ⟨_, [], Lines.lines 10 mem.data, ls, rfl, rfl, rfl, hmem, hw⟩
  | merged l mem =>
    obtain ⟨hl, hpart⟩ := h
    have hmem := hpart.onEventsUploaded hok
    obtain ⟨done, hline, hdata, _, _, _⟩ := hpart
    rw [hdata, Lines.lines_flatten 10 hline] at hmem
    obtain ⟨first, rest, hls, _, hlisted, hrep⟩ := listedEvents_merged hB hw hl hline hdata
    exact ⟨_, first, done, rest, rfl, hlisted, hls, hmem, hrep⟩

end

theorem Run.Inv.onEventsUploaded (hB : B.IsQueue Represents Listed)
    (h : s.Inv B Represents Listed ls₀ ls) (hok : s.Sound B .onEventsUploaded) :
    ∃ ls', Run.Inv B Represents Listed ls₀ (s.step B .onEventsUploaded) ls' := by
  simp only [Run.step]
  split
  · exact ⟨ls, h⟩
  · next l hl =>
    obtain ⟨hdata, hcount⟩ := hok l hl
    obtain ⟨b', first, done, rest, hack, hlisted, hls, hmem, hrep⟩ :=
      (h.tracked l hl).onEventsUploaded hB h.represents hdata hcount
    rw [hack]
    refine ⟨rest, h.running, hrep, ?_, by simp⟩
    have hcons := h.conserved
    rw [hls, hmem] at hcons
    simp only [hlisted]
    refine List.Perm.trans ?_ hcons
    simp only [append_assoc]
    exact ((perm_append_comm_assoc done rest _).append_left first).append_left _

theorem Run.Inv.step (hB : B.IsQueue Represents Listed) (h : s.Inv B Represents Listed ls₀ ls)
    {op : Op} (hok : s.Sound B op) : ∃ ls', Run.Inv B Represents Listed ls₀ (s.step B op) ls' := by
  cases op with
  | addEvent e =>
    rw [step_addEvent]
    split
    · next hfull => exact ⟨_, (h.flush hB (hok hfull)).put e⟩
    · exact ⟨ls, h.put e⟩
  | flush => exact ⟨_, h.flush hB (hok rfl)⟩
  | getEventsForUpload maxCount maxSize => exact ⟨ls, h.getEventsForUpload hB maxCount maxSize⟩
  | onEventsUploaded => exact h.onEventsUploaded hB hok

/-- **A buffered batch removes exactly what was listed**, where forwarded events are taken and no
acknowledged list has a null pointer or moved events. -/
theorem buffered_conserved (hB : B.IsQueue Represents Listed) {w : σ} (hw : Represents w ls₀)
    (bufferedItemCount : Nat) {ops : List Op}
    (hops : Runs.Along (Run.step B) (Run.Sound B) (Run.start w bufferedItemCount) ops) :
    Run.Conserved B Represents ls₀ (ops.foldl (Run.step B) (Run.start w bufferedItemCount)) := by
  have hstart : Run.Inv B Represents Listed ls₀ (Run.start w bufferedItemCount) ls₀ :=
    ⟨rfl, hw, by simp [Run.start, lines], by simp [Run.start]⟩
  have hstep : ∀ (s : Run σ ℓ) (op : Op), (∃ ls, s.Inv B Represents Listed ls₀ ls) →
      s.Sound B op → ∃ ls, (s.step B op).Inv B Represents Listed ls₀ ls := by
    rintro s op ⟨ls, h⟩ hok
    exact h.step hB hok
  obtain ⟨ls, h⟩ := Runs.invariant (fun s => ∃ ls, Run.Inv B Represents Listed ls₀ s ls) hstep
    ⟨ls₀, hstart⟩ hops
  exact ⟨h.running, ls, h.represents, h.conserved,
    fun l hl => (h.tracked l hl).subperm hB h.represents⟩

end Steps

def firstEvent : Event := ⟨[123, 125], by decide⟩

def secondEvent : Event := ⟨[91, 93], by decide⟩

/-- A buffer for one event in front of files without limits, in an empty
directory. -/
def bufferOfOne : Run (MultiFileEventBatch × Directory) MultiFileEventBatch.EventList :=
  Run.start (MultiFileEventBatch.construct 0 0 []) 1

theorem buffered_conserved_merged :
    Run.Conserved MultiFileEventBatch.eventBatch (fun s ls => s.1.Represents s.2 ls) []
      ([.addEvent firstEvent, .flush, .addEvent secondEvent, .getEventsForUpload 10 100,
        .onEventsUploaded].foldl (Run.step MultiFileEventBatch.eventBatch) bufferOfOne) := by
  refine buffered_conserved MultiFileEventBatch.eventBatch_isQueue
    (MultiFileEventBatch.construct_represents 0 0 (by simp [Directory.Ordered]) (by simp)) 1 ?_
  refine ⟨fun hfull => ?_, fun _ => ⟨by decide, trivial⟩, fun hfull => ?_, fun hfull => ?_, ?_,
    trivial⟩
  · exact absurd hfull (by decide)
  · exact absurd hfull (by decide)
  · exact absurd hfull (by decide)
  · intro l hl
    cases hl
    exact ⟨Option.some_ne_none _, .inr rfl⟩

/-- **A full buffer is flushed between the list and its acknowledgement**: the second event is gone,
and the first is still there. -/
theorem buffered_flush_between :
    let s := [.addEvent firstEvent, .getEventsForUpload 10 100, .addEvent secondEvent,
      .onEventsUploaded].foldl (Run.step MultiFileEventBatch.eventBatch) bufferOfOne
    s.added = [firstEvent, secondEvent] ∧ s.acknowledged = [firstEvent.line] ∧
      s.batch.wrapped.2.events = [firstEvent.line] ∧ s.batch.mem.items = [] ∧
      ¬ s.Conserved MultiFileEventBatch.eventBatch (fun s ls => s.1.Represents s.2 ls) [] := by
  intro s
  have hfacts : s.added = [firstEvent, secondEvent] ∧ s.acknowledged = [firstEvent.line] ∧
      s.batch.wrapped.2.events = [firstEvent.line] ∧ s.batch.mem.items = [] := by decide
  obtain ⟨hadded, hacked, hfile, hmem⟩ := hfacts
  refine ⟨hadded, hacked, hfile, hmem, ?_⟩
  rintro ⟨_, ls, ⟨_, hls⟩, hperm, _⟩
  rw [← hls, hfile, hacked, hadded, lines, hmem] at hperm
  exact absurd (hperm.mem_iff.mpr (show secondEvent.line ∈ _ by decide)) (by decide)

end BufferedEventBatch

end Cll
