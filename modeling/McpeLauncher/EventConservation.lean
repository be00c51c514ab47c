import McpeLauncher.UploadLoops

/-! # Where an event goes

A run of the event manager: `add` from any thread, the two upload tasks, and new configurations, in
any order. A request and its acknowledgement are two steps, and so is moving each realtime event to
disk. -/
namespace Cll
open List MultiFileEventBatch EventUploader EventFlags

/-! ## Batches on disk -/

/-- What the manager needs of a batch on disk. `Calm l s`: adding an event leaves the list `l`,
which is out, alone. -/
structure StorageBatch.IsStorage {σ ℓ : Type} (S : StorageBatch σ ℓ)
    (Holds : σ → List (List UInt8) → Prop) (Out Calm : ℓ → σ → Prop) : Prop where
  isStore : S.toUploadBatch.IsStore Holds Out
  setFileLimits {s ls} (maxEvents maxSize) : Holds s ls →
    Holds (S.setFileLimits maxEvents maxSize s) ls
  out_setFileLimits {s l} (maxEvents maxSize) : Out l s →
    Out l (S.setFileLimits maxEvents maxSize s)
  /-- An event that is taken is stored; events that are given up are warned about. -/
  addEvent {s ls} (e) : Holds s ls → ∃ ls', Holds (S.addEvent e s).2 ls' ∧
    (ls ++ if (S.addEvent e s).1 then [e.line] else []).Perm
      (ls' ++ (S.warned e s).map Event.line)
  out_addEvent {s ls l} (e) : Holds s ls → Out l s → Calm l s → Out l (S.addEvent e s).2

variable {ls : List (List UInt8)} {ℓ : Type}

theorem StorageBatch.IsStorage.mem_addEvent {σ : Type} {S : StorageBatch σ ℓ}
    {Holds : σ → List (List UInt8) → Prop} {Out Calm : ℓ → σ → Prop}
    (hS : S.IsStorage Holds Out Calm) (e : Event) {s : σ} (h : Holds s ls) :
    ∃ ls', Holds (S.addEvent e s).2 ls' ∧
      (ls ++ if (S.addEvent e s).1 then [e.line] else []).Perm
        (ls' ++ (S.warned e s).map Event.line) ∧ ∀ d ∈ ls', d ∈ ls ∨ d = e.line := by
  obtain ⟨ls', hls', hperm⟩ := hS.addEvent e h
  refine ⟨ls', hls', hperm, fun d hd => ?_⟩
  rcases mem_append.mp (hperm.mem_iff.mpr (mem_append_left _ hd)) with hd | hd
  · exact .inl hd
  · split at hd
    · exact .inr (mem_singleton.mp hd)
    · exact absurd hd (by simp)

theorem MultiFileEventBatch.storageBatch_isStorage :
    storageBatch.IsStorage (fun s ls => s.1.Represents s.2 ls)
      (fun l s => Listed l s.1 s.2) (fun _ _ => True) where
  isStore := eventBatch_isQueue.isStore
  setFileLimits maxEvents maxSize h := h.setFileLimits maxEvents maxSize
  out_setFileLimits maxEvents maxSize h := h.setFileLimits maxEvents maxSize
  addEvent := by
    intro s ls e h
    refine ⟨_, eventBatch_isQueue.addEvent e h, ?_⟩
    have hwarned : storageBatch.warned e s = [] := rfl
    rw [hwarned, map_nil, append_nil]
    refine .of_eq ?_
    change (ls ++ if (eventBatch.addEvent e s).1 = true then [e.line] else []) =
      if (eventBatch.addEvent e s).1 = true then ls ++ [e.line] else ls
    split
    · rfl
    · exact append_nil _
  out_addEvent e h hl _ := eventBatch_isQueue.listed_addEvent e h hl

namespace BufferedEventBatch

section Storage
variable {σ ℓ : Type} {B : EventBatch σ ℓ} {Represents : σ → List (List UInt8) → Prop}
  {Listed : ℓ → σ → Prop} {b : BufferedEventBatch σ} {ls : List (List UInt8)} {m : MemoryEventBatch}
  {mem : VectorBatchedEventList}

/-- A flush forwards the events, apart from those it warns about. -/
theorem forward_account (hB : B.IsQueue Represents Listed) {w : σ} (hw : Represents w ls)
    (items : List Event) :
    (∃ ls', Represents (forward B w items) ls' ∧
      (ls ++ items.map Event.line).Perm (ls' ++ (unforwarded B w items).map Event.line)) ∧
      ∀ l, Listed l w → Listed l (forward B w items) := by
  induction items generalizing w ls with
  | nil => exact ⟨⟨ls, hw, List.Perm.refl _⟩, fun l hl => hl⟩
  | cons item items ih =>
    have hstep := hB.addEvent item hw
    obtain ⟨⟨ls', hls', hperm⟩, hlisted⟩ := ih hstep
    refine ⟨⟨ls', hls', ?_⟩, fun l hl => hlisted l (hB.listed_addEvent item hw hl)⟩
    simp only [unforwarded]
    split at hperm
    · next htaken =>
      rw [if_pos htaken]
      simpa using hperm
    · next htaken =>
      rw [if_neg htaken, map_cons, map_cons]
      refine perm_middle.trans ?_
      exact (hperm.cons item.line).trans perm_middle.symm

theorem Out.addMemory (h : MemoryEventBatch.Out mem m) (e : Event) :
    MemoryEventBatch.Out mem (m.addEvent e).2 := by
  obtain ⟨done, hfront, hl⟩ := h
  refine ⟨done, hfront.trans ?_, hl⟩
  rw [MemoryEventBatch.lines_addEvent]
  split
  · exact prefix_append _ _
  · exact prefix_refl _

theorem Out.ofNoEvents (h : MemoryEventBatch.Out mem m) (hevents : mem.events = 0)
    (m' : MemoryEventBatch) : MemoryEventBatch.Out mem m' := by
  obtain ⟨done, _, hdata, hcount⟩ := h
  have hdone : done = [] := eq_nil_of_length_eq_zero (hcount.symm.trans hevents)
  exact ⟨done, hdone ▸ nil_prefix, hdata, hcount⟩

/-- The list has no events of the buffer, or the buffer is not full. -/
def Calm (l : BufferedEventList ℓ) (b : BufferedEventBatch σ) : Prop :=
  memoryCount l = 0 ∨ b.mem.items.length < b.mem.limit

theorem addEvent_full {e : Event} (hfull : b.mem.limit ≤ b.mem.items.length) :
    b.addEvent B e =
      ((MemoryEventBatch.addEvent ⟨[], b.mem.limit⟩ e).1,
        ⟨forward B b.wrapped b.mem.items, (MemoryEventBatch.addEvent ⟨[], b.mem.limit⟩ e).2⟩) := by
  have hadd : b.mem.addEvent e = (false, b.mem) := if_pos hfull
  simp only [BufferedEventBatch.addEvent, hadd, Bool.not_false, if_true, flushInternal,
    MemoryEventBatch.transferAllEvents]

theorem addEvent_notFull {e : Event} (hfull : ¬ b.mem.limit ≤ b.mem.items.length) :
    b.addEvent B e = (true, { b with mem := (b.mem.addEvent e).2 }) := by
  have hadd : b.mem.addEvent e = (true, { b.mem with items := b.mem.items ++ [e] }) := if_neg hfull
  simp only [BufferedEventBatch.addEvent, hadd, Bool.not_true, Bool.false_eq_true, if_false]

end Storage

section Addition
variable {b : BufferedEventBatch (MultiFileEventBatch × Directory)} {ls : List (List UInt8)}
  (h : Holds (fun s ls => s.1.Represents s.2 ls) b ls) (e : Event)
include h

/-- An addition to a full buffer forwards the buffer first. -/
theorem Holds.addEvent :
    ∃ ls', Holds (fun s ls => s.1.Represents s.2 ls) (storageBatch.addEvent e b).2 ls' ∧
      (ls ++ if (storageBatch.addEvent e b).1 then [e.line] else []).Perm
        (ls' ++ (storageBatch.warned e b).map Event.line) := by
  obtain ⟨wrapped, hw, rfl⟩ := h
  by_cases hfull : b.mem.limit ≤ b.mem.items.length
  · obtain ⟨⟨ls', hls', hperm⟩, _⟩ :=
      forward_account eventBatch_isQueue hw b.mem.items
    have hadd : storageBatch.addEvent e b = _ := addEvent_full hfull
    have hwarned : storageBatch.warned e b =
        unforwarded eventBatch b.wrapped b.mem.items := if_pos hfull
    rw [hadd, hwarned]
    refine ⟨_, ⟨ls', hls', rfl⟩, ?_⟩
    rw [MemoryEventBatch.lines_addEvent]
    have hnew : MemoryEventBatch.lines ⟨[], b.mem.limit⟩ = [] := rfl
    refine (hperm.append_right _).trans ?_
    rw [append_assoc, append_assoc]
    exact perm_append_comm.append_left ls'
  · have hadd : storageBatch.addEvent e b = _ := addEvent_notFull hfull
    have hmem : b.mem.addEvent e = (true, { b.mem with items := b.mem.items ++ [e] }) :=
      if_neg hfull
    have hwarned : storageBatch.warned e b = [] := if_neg hfull
    rw [hadd, hwarned]
    refine ⟨_, ⟨wrapped, hw, rfl⟩, .of_eq ?_⟩
    rw [MemoryEventBatch.lines_addEvent, hmem]
    simp

/-- A list stays one unless the buffer is forwarded under it. -/
theorem Out.addEvent {l : BufferedEventList EventList}
    (hl : Out (fun l s => Listed l s.1 s.2) l b) (hcalm : Calm l b) :
    Out (fun l s => Listed l s.1 s.2) l (storageBatch.addEvent e b).2 := by
  obtain ⟨wrapped, hw, rfl⟩ := h
  by_cases hfull : b.mem.limit ≤ b.mem.items.length
  · have hzero : memoryCount l = 0 := hcalm.resolve_right (Nat.not_lt.mpr hfull)
    obtain ⟨_, hlisted⟩ := forward_account eventBatch_isQueue hw b.mem.items
    have hadd : storageBatch.addEvent e b = _ := addEvent_full hfull
    rw [hadd]
    cases l with
    | wrapped l _ => exact hlisted l hl
    | memory l =>
      obtain ⟨mem, rfl, hout⟩ := hl
      exact ⟨mem, rfl, Out.ofNoEvents hout hzero _⟩
    | merged l mem => exact ⟨hlisted l hl.1, Out.ofNoEvents hl.2 hzero _⟩
  · have hadd : storageBatch.addEvent e b = _ := addEvent_notFull hfull
    rw [hadd]
    cases l with
    | wrapped l _ => exact hl
    | memory l =>
      obtain ⟨mem, rfl, hout⟩ := hl
      exact ⟨mem, rfl, Out.addMemory hout e⟩
    | merged l mem => exact ⟨hl.1, Out.addMemory hl.2 e⟩

end Addition

theorem storageBatch_isStorage :
    storageBatch.IsStorage (Holds fun s ls => s.1.Represents s.2 ls)
      (Out fun l s => Listed l s.1 s.2) Calm where
  isStore := uploadBatch_isStore eventBatch_isQueue.isStore
  setFileLimits := by
    rintro b _ maxEvents maxSize ⟨wrapped, hw, rfl⟩
    exact ⟨wrapped, hw.setFileLimits maxEvents maxSize, rfl⟩
  out_setFileLimits := by
    rintro b l maxEvents maxSize hl
    cases l with
    | wrapped l _ => exact Listed.setFileLimits hl maxEvents maxSize
    | memory l => exact hl
    | merged l mem => exact ⟨hl.1.setFileLimits maxEvents maxSize, hl.2⟩
  addEvent e h := h.addEvent e
  out_addEvent e h hl hcalm := Out.addEvent h e hl hcalm

end BufferedEventBatch

/-- What the main task has posted with success and is still to acknowledge. -/
inductive MainPhase (ℓn ℓc : Type) where
  | idle
  | uploadedNormal (l : ℓn)
  | uploadedCritical (l : ℓc)

/-- The realtime task has posted a list; its upload has failed; or it moves these events to disk. -/
inductive RealtimePhase where
  | idle
  | uploaded (l : VectorBatchedEventList)
  | failed
  | fallingBack (events : List Event)

/-- The manager, the requests made, the events acknowledged, and those added, as logged and as
serialised. -/
structure ManagerRun (ν κ ℓn ℓc ε : Type) extends ManagerState ν κ ε where
  main : MainPhase ℓn ℓc
  realtime : RealtimePhase
  log : List Exchange
  uploaded : List (List UInt8)
  added : List (LoggedEvent × Event)

inductive ManagerOp where
  | add (event : LoggedEvent)
  | updateConfig
  /-- the next step of the main task -/
  | main (fuel : Nat)
  /-- the next step of the realtime task -/
  | realtime (fuel : Nat)

namespace ManagerRun
open EventManager

section Step
variable {ν κ ℓn ℓc ε : Type} (lib : EventJson) (N : StorageBatch ν ℓn) (K : StorageBatch κ ℓc)
  (w : Platform ε)

def start (m : EventManager ν κ) (e : ε) : ManagerRun ν κ ℓn ℓc ε :=
  ⟨⟨m, e, []⟩, .idle, .idle, [], [], []⟩

def postCritical (fuel : Nat) (s : ManagerRun ν κ ℓn ℓc ε) : ManagerRun ν κ ℓn ℓc ε :=
  let r := EventUploader.postEvents K.toUploadBatch w.uploader s.manager.uploaderMaxEvents
    s.manager.uploaderMaxSize fuel s.manager.criticalStorageBatch s.env
  { s with
    manager := { s.manager with criticalStorageBatch := r.batch }
    env := r.env
    reported := s.reported ++ r.dropped.flatMap (Lines.lines 10)
    log := s.log ++ r.log
    main := r.uploaded.elim .idle .uploadedCritical }

def postNormal (fuel : Nat) (s : ManagerRun ν κ ℓn ℓc ε) : ManagerRun ν κ ℓn ℓc ε :=
  let r := EventUploader.postEvents N.toUploadBatch w.uploader s.manager.uploaderMaxEvents
    s.manager.uploaderMaxSize fuel s.manager.normalStorageBatch s.env
  { s with
    manager := { s.manager with normalStorageBatch := r.batch }
    env := r.env
    reported := s.reported ++ r.dropped.flatMap (Lines.lines 10)
    log := s.log ++ r.log
    main := r.uploaded.elim .idle .uploadedNormal }

def mainStep (fuel : Nat) (s : ManagerRun ν κ ℓn ℓc ε) : ManagerRun ν κ ℓn ℓc ε :=
  match s.main with
  | .idle =>
    if K.hasEvents s.manager.criticalStorageBatch then s.postCritical K w fuel
    else if N.hasEvents s.manager.normalStorageBatch then s.postNormal N w fuel
    else s
  | .uploadedNormal l =>
    { s with
      manager := { s.manager with
        normalStorageBatch := N.onEventsUploaded l s.manager.normalStorageBatch }
      main := .idle
      uploaded := s.uploaded ++ Lines.lines 10 (N.getData l) }
  | .uploadedCritical l =>
    { s with
      manager := { s.manager with
        criticalStorageBatch := K.onEventsUploaded l s.manager.criticalStorageBatch }
      main := .idle
      uploaded := s.uploaded ++ Lines.lines 10 (K.getData l) }

def postRealtime (fuel : Nat) (s : ManagerRun ν κ ℓn ℓc ε) : ManagerRun ν κ ℓn ℓc ε :=
  let r := EventUploader.postEvents MemoryEventBatch.eventBatch.plain w.uploader
    s.manager.uploaderMaxEvents s.manager.uploaderMaxSize fuel s.manager.realtimeMemoryBatch s.env
  let phase : RealtimePhase := match r.outcome with
    | .returned .success => r.uploaded.elim .idle .uploaded
    | .returned _ => .failed
    -- an exception leaves the task
    | _ => .idle
  { s with
    manager := { s.manager with realtimeMemoryBatch := r.batch }
    env := r.env
    reported := s.reported ++ r.dropped.flatMap (Lines.lines 10)
    log := s.log ++ r.log
    realtime := phase }

def realtimeStep (fuel : Nat) (s : ManagerRun ν κ ℓn ℓc ε) : ManagerRun ν κ ℓn ℓc ε :=
  match s.realtime with
  | .idle => if s.manager.realtimeMemoryBatch.hasEvents then s.postRealtime w fuel else s
  | .uploaded l =>
    { s with
      manager := { s.manager with
        realtimeMemoryBatch := s.manager.realtimeMemoryBatch.onEventsUploaded l }
      realtime := .idle
      uploaded := s.uploaded ++ Lines.lines 10 l.data }
  | .failed =>
    let (items, s') := transferRealtime s.toManagerState
    { s with toManagerState := s', realtime := .fallingBack items }
  | .fallingBack (ev :: items) =>
    { s with toManagerState := fallBack lib N K ev s.toManagerState
             realtime := .fallingBack items }
  | .fallingBack [] =>
    { s with env := w.requestRun .mainUploadTask true s.env, realtime := .idle }

def step (s : ManagerRun ν κ ℓn ℓc ε) : ManagerOp → ManagerRun ν κ ℓn ℓc ε
  | .add event =>
    let (ev, _) := serialize lib event s.toManagerState
    { s with toManagerState := EventManager.add lib N K w event s.toManagerState
             added := s.added ++ [(event, ev)] }
  | .updateConfig => { s with toManagerState := updateConfigIfNeeded N K w s.toManagerState }
  | .main fuel => s.mainStep N K w fuel
  | .realtime fuel => s.realtimeStep lib N K w fuel

/-- The `addEvent` on disk that a step makes: whether it is the critical one, and the event. -/
def storing (s : ManagerRun ν κ ℓn ℓc ε) : ManagerOp → Option (Bool × Event)
  | .add event =>
    let (ev, _) := serialize lib event s.toManagerState
    if eventFlagSet event.flags EventFlags.latencyRealtime &&
        (s.manager.realtimeMemoryBatch.addEvent ev).1 then none
    else some (eventFlagSet event.flags EventFlags.persistenceCritical, ev)
  | .realtime _ => match s.realtime with
    | .fallingBack (ev :: _) =>
      some (eventFlagSet (ev.flags lib) EventFlags.persistenceCritical, ev)
    | _ => none
  | _ => none

variable (CalmN : ℓn → ν → Prop) (CalmK : ℓc → κ → Prop)

/-- Adding to the batch leaves the list that is being uploaded alone. -/
def Quiet (s : ManagerRun ν κ ℓn ℓc ε) (critical : Bool) : Prop :=
  match s.main with
  | .idle => True
  | .uploadedNormal l => critical = false → CalmN l s.manager.normalStorageBatch
  | .uploadedCritical l => critical = true → CalmK l s.manager.criticalStorageBatch

/-- Adding to a batch on disk leaves the list that is out alone; and an event that falls back is
taken. -/
def Sound (s : ManagerRun ν κ ℓn ℓc ε) (op : ManagerOp) : Prop :=
  ∀ critical ev, s.storing lib op = some (critical, ev) →
    s.Quiet CalmN CalmK critical ∧
      (∀ fuel, op = .realtime fuel → (storeEvent N K critical ev s.toManagerState).1 = true)

/-! ## What is kept -/

/-- The events on their way from the realtime queue to disk. -/
def moving (s : ManagerRun ν κ ℓn ℓc ε) : List Event :=
  match s.realtime with
  | .fallingBack items => items
  | _ => []

/-- All the places an event can be in, where the batches on disk hold `lsN` and
`lsK`. -/
def places (s : ManagerRun ν κ ℓn ℓc ε) (lsN lsK : List (List UInt8)) : List (List UInt8) :=
  s.uploaded ++ (s.manager.realtimeMemoryBatch.lines ++ (s.moving.map Event.line ++
    (lsN ++ (lsK ++ s.reported))))

end Step

/-- Whether the flags of a stored event select the critical batch. -/
def lineCritical (lib : EventJson) (line : List UInt8) : Bool :=
  eventFlagSet (flagsOfText lib (line.take (line.length - 2))) EventFlags.persistenceCritical

theorem lineCritical_line (lib : EventJson) (ev : Event) :
    lineCritical lib ev.line = eventFlagSet (ev.flags lib) persistenceCritical := by
  have htext : ev.line.take (ev.line.length - 2) = ev.text := by simp [Event.line]
  rw [lineCritical, htext, Event.flags]

section Invariant
variable {ν κ ℓn ℓc ε : Type} (lib : EventJson) (N : StorageBatch ν ℓn) (K : StorageBatch κ ℓc)
  (w : Platform ε) (HoldsN : ν → List (List UInt8) → Prop) (HoldsK : κ → List (List UInt8) → Prop)
  (OutN : ℓn → ν → Prop) (OutK : ℓc → κ → Prop)

def Posted (u : EventUploader ε) (log : List Exchange) (l : VectorBatchedEventList) : Prop :=
  ∃ x ∈ log, x.Answered 200 ∧ u.Carries x l

def MainOut (s : ManagerRun ν κ ℓn ℓc ε) : Prop :=
  match s.main with
  | .idle => True
  | .uploadedNormal l => OutN l s.manager.normalStorageBatch ∧ Posted w.uploader s.log (N.view l)
  | .uploadedCritical l =>
    OutK l s.manager.criticalStorageBatch ∧ Posted w.uploader s.log (K.view l)

def RealtimeOut (s : ManagerRun ν κ ℓn ℓc ε) : Prop :=
  ∀ l, s.realtime = .uploaded l →
    MemoryEventBatch.Out l s.manager.realtimeMemoryBatch ∧ Posted w.uploader s.log l

/-- Where the events are, if the run began with `lsN₀`, `lsK₀` and `lsR₀`. -/
structure Conserved (lsN₀ lsK₀ lsR₀ : List (List UInt8)) (s : ManagerRun ν κ ℓn ℓc ε)
    (lsN lsK : List (List UInt8)) : Prop where
  normal : HoldsN s.manager.normalStorageBatch lsN
  critical : HoldsK s.manager.criticalStorageBatch lsK
  /-- Every event is in one place. -/
  conserved : (s.places lsN lsK).Perm
    (lsN₀ ++ (lsK₀ ++ (lsR₀ ++ s.added.map fun a => a.2.line)))
  /-- What was uploaded was in a request that was answered with 200. -/
  delivered : ∀ d ∈ s.uploaded, w.uploader.Delivered s.log d
  routedNormal : ∀ d ∈ lsN, d ∈ lsN₀ ∨ lineCritical lib d = false
  routedCritical : ∀ d ∈ lsK, d ∈ lsK₀ ∨ lineCritical lib d = true
  /-- The flags are those the event was added with. -/
  flags : ∀ a ∈ s.added, lineCritical lib a.2.line =
    eventFlagSet a.1.flags EventFlags.persistenceCritical

structure Inv (lsN₀ lsK₀ lsR₀ : List (List UInt8)) (s : ManagerRun ν κ ℓn ℓc ε)
    (lsN lsK : List (List UInt8)) : Prop
    extends Conserved lib w HoldsN HoldsK lsN₀ lsK₀ lsR₀ s lsN lsK where
  mainOut : s.MainOut N K w OutN OutK
  realtimeOut : s.RealtimeOut w

end Invariant

section Steps
variable {ν κ ℓn ℓc ε : Type} {lib : EventJson} {N : StorageBatch ν ℓn} {K : StorageBatch κ ℓc}
  {w : Platform ε} {HoldsN : ν → List (List UInt8) → Prop} {HoldsK : κ → List (List UInt8) → Prop}
  {OutN CalmN : ℓn → ν → Prop} {OutK CalmK : ℓc → κ → Prop}
  {lsN₀ lsK₀ lsR₀ lsN lsK : List (List UInt8)} {s : ManagerRun ν κ ℓn ℓc ε} {critical : Bool}
  {ev : Event} {u : EventUploader ε} {log more : List Exchange} {d : List UInt8}
  {s' : ManagerRun ν κ ℓn ℓc ε} {l : VectorBatchedEventList}

/-- The invariant goes on to hold, whatever the batches hold then. -/
abbrev Inv.Kept (_ : Inv lib N K w HoldsN HoldsK OutN OutK lsN₀ lsK₀ lsR₀ s lsN lsK)
    (s' : ManagerRun ν κ ℓn ℓc ε) : Prop :=
  ∃ lsN lsK, Inv lib N K w HoldsN HoldsK OutN OutK lsN₀ lsK₀ lsR₀ s' lsN lsK

theorem Posted.mono (h : Posted u log l) (more : List Exchange) : Posted u (log ++ more) l := by
  obtain ⟨x, hx, hfacts⟩ := h
  exact ⟨x, mem_append_left _ hx, hfacts⟩

theorem delivered_mono (h : u.Delivered log d) (more : List Exchange) :
    u.Delivered (log ++ more) d := by
  obtain ⟨x, hx, hfacts⟩ := h
  exact ⟨x, mem_append_left _ hx, hfacts⟩

theorem Posted.delivered (h : Posted u log l) (hd : d ∈ Lines.lines 10 l.data) :
    u.Delivered log d := by
  obtain ⟨x, hx, hcode, hcarry⟩ := h
  refine ⟨x, hx, hcode, ?_, ?_⟩
  · rw [hcarry.1]
    exact hcarry
  · rw [hcarry.1]
    exact hd

theorem acknowledged {σ : Type} {B : UploadBatch σ ℓ} {Holds : σ → List (List UInt8) → Prop}
    {Out : ℓ → σ → Prop} (hB : B.IsStore Holds Out) {b : σ} {l : ℓ} (h : Holds b ls)
    (hl : Out l b) :
    ∃ rest, ls.Perm (Lines.lines 10 (B.getData l) ++ rest) ∧
      Holds (B.onEventsUploaded l b) rest := by
  obtain ⟨done, rest, hperm, hdata, _, hrest, _⟩ := hB.onEventsUploaded h hl
  refine ⟨rest, ?_, hrest⟩
  rw [lines_of_data hB h hperm hdata]
  exact hperm

theorem storeEvent_spec (hN : N.IsStorage HoldsN OutN CalmN) (hK : K.IsStorage HoldsK OutK CalmK)
    (critical : Bool) (ev : Event) {s : ManagerState ν κ ε}
    (hnormal : HoldsN s.manager.normalStorageBatch lsN)
    (hcritical : HoldsK s.manager.criticalStorageBatch lsK) :
    ∃ b c warned lsN' lsK', (storeEvent N K critical ev s).2 =
        { s with manager := { s.manager with normalStorageBatch := b, criticalStorageBatch := c }
                 reported := s.reported ++ warned } ∧
      HoldsN b lsN' ∧ HoldsK c lsK' ∧
      (lsN ++ (lsK ++ if (storeEvent N K critical ev s).1 then [ev.line] else [])).Perm
        (lsN' ++ (lsK' ++ warned)) ∧
      (∀ d ∈ lsN', d ∈ lsN ∨ critical = false ∧ d = ev.line) ∧
      (∀ d ∈ lsK', d ∈ lsK ∨ critical = true ∧ d = ev.line) ∧
      (∀ l, OutN l s.manager.normalStorageBatch →
        (critical = false → CalmN l s.manager.normalStorageBatch) → OutN l b) ∧
      (∀ l, OutK l s.manager.criticalStorageBatch →
        (critical = true → CalmK l s.manager.criticalStorageBatch) → OutK l c) := by
  cases critical with
  | true =>
    obtain ⟨lsK', hlsK', hperm, hmem⟩ := hK.mem_addEvent ev hcritical
    exact ⟨s.manager.normalStorageBatch, (K.addEvent ev s.manager.criticalStorageBatch).2,
      (K.warned ev s.manager.criticalStorageBatch).map Event.line, lsN, lsK', rfl, hnormal, hlsK',
      hperm.append_left lsN, fun d hd => .inl hd, fun d hd => (hmem d hd).imp_right (⟨rfl, ·⟩),
      fun l hl _ => hl, fun l hl hcalm => hK.out_addEvent ev hcritical hl (hcalm rfl)⟩
  | false =>
    obtain ⟨lsN', hlsN', hperm, hmem⟩ := hN.mem_addEvent ev hnormal
    refine ⟨(N.addEvent ev s.manager.normalStorageBatch).2, s.manager.criticalStorageBatch,
      (N.warned ev s.manager.normalStorageBatch).map Event.line, lsN', lsK, rfl, hlsN', hcritical,
      ?_, fun d hd => (hmem d hd).imp_right (⟨rfl, ·⟩), fun d hd => .inl hd,
      fun l hl hcalm => hN.out_addEvent ev hnormal hl (hcalm rfl), fun l hl _ => hl⟩
    refine (perm_append_comm_assoc _ _ _).trans ?_
    refine (hperm.append_left lsK).trans ?_
    exact perm_append_comm_assoc _ _ _

theorem Conserved.routed_stored (h : Conserved lib w HoldsN HoldsK lsN₀ lsK₀ lsR₀ s lsN lsK)
    (hflags : lineCritical lib ev.line = critical) {lsN' lsK' : List (List UInt8)}
    (hrouteN : ∀ d ∈ lsN', d ∈ lsN ∨ critical = false ∧ d = ev.line)
    (hrouteK : ∀ d ∈ lsK', d ∈ lsK ∨ critical = true ∧ d = ev.line) :
    (∀ d ∈ lsN', d ∈ lsN₀ ∨ lineCritical lib d = false) ∧
      ∀ d ∈ lsK', d ∈ lsK₀ ∨ lineCritical lib d = true := by
  constructor
  · intro d hd
    rcases hrouteN d hd with hd | ⟨hcritical, rfl⟩
    · exact h.routedNormal d hd
    · exact .inr (hflags.trans hcritical)
  · intro d hd
    rcases hrouteK d hd with hd | ⟨hcritical, rfl⟩
    · exact h.routedCritical d hd
    · exact .inr (hflags.trans hcritical)

theorem addToStorage_eq (critical realtime : Bool) (ev : Event) (s : ManagerState ν κ ε) :
    ∃ e, addToStorage N K w critical realtime ev s =
      { (storeEvent N K critical ev s).2 with
        env := e
        reported := (storeEvent N K critical ev s).2.reported ++
          if (storeEvent N K critical ev s).1 then [] else [ev.line] } := by
  rw [addToStorage]
  rcases storeEvent N K critical ev s with ⟨_ | _, s'⟩
  · exact ⟨s'.env, rfl⟩
  · refine ⟨w.requestRun .mainUploadTask realtime s'.env, ?_⟩
    simp only [if_true, append_nil]

variable (lib N K w) in
theorem add_cases (s : ManagerRun ν κ ℓn ℓc ε) (event : LoggedEvent) :
    let ev := (serialize lib event s.toManagerState).1
    let critical := eventFlagSet event.flags persistenceCritical
    ((s.manager.realtimeMemoryBatch.addEvent ev).1 = true ∧ ∃ z e,
      EventManager.add lib N K w event s.toManagerState =
        { s.toManagerState with
          manager := { s.manager with
            serializer := z
            realtimeMemoryBatch := (s.manager.realtimeMemoryBatch.addEvent ev).2 }
          env := e }) ∨
    (s.storing lib (.add event) = some (critical, ev) ∧ ∃ z e,
      let r := storeEvent N K critical ev
        { s.toManagerState with manager := { s.manager with serializer := z } }
      EventManager.add lib N K w event s.toManagerState =
        { r.2 with env := e, reported := r.2.reported ++ if r.1 then [] else [ev.line] }) := by
  intro ev critical
  let s₁ := (serialize lib event s.toManagerState).2
  by_cases hrealtime : eventFlagSet event.flags latencyRealtime = true
  · rcases hadd : s₁.manager.realtimeMemoryBatch.addEvent ev with ⟨_ | _, batch⟩
    · have hstore : EventManager.add lib N K w event s.toManagerState =
          addToStorage N K w critical true ev s₁ := by
        simp only [EventManager.add, hrealtime, if_true, s₁, ev, critical] at hadd ⊢
        rw [hadd]
      refine .inr ⟨?_, s₁.manager.serializer, ?_⟩
      · have hrefused : (s.manager.realtimeMemoryBatch.addEvent ev).1 = false :=
          congrArg Prod.fst hadd
        simp only [storing, hrealtime, Bool.true_and]
        exact if_neg (by simpa using hrefused)
      · rw [hstore]
        exact addToStorage_eq critical true ev s₁
    · have htaken : s.manager.realtimeMemoryBatch.addEvent ev = (true, batch) := hadd
      refine .inl ⟨by rw [htaken], s₁.manager.serializer,
        w.requestRun .realtimeUploadTask false s₁.env, ?_⟩
      rw [htaken]
      simp only [EventManager.add, hrealtime, if_true, s₁, ev] at hadd ⊢
      rw [hadd]
      rfl
  · have hstore : EventManager.add lib N K w event s.toManagerState =
        addToStorage N K w critical false ev s₁ := by
      simp only [EventManager.add, hrealtime, Bool.false_eq_true, if_false, s₁, ev, critical]
    refine .inr ⟨?_, s₁.manager.serializer, ?_⟩
    · simp only [storing, hrealtime, Bool.false_and, Bool.false_eq_true, if_false]
      rfl
    · rw [hstore]
      exact addToStorage_eq critical false ev s₁

variable (lib) in
theorem flags_serialize (event : LoggedEvent) (s : ManagerState ν κ ε) :
    lineCritical lib (serialize lib event s).1.line =
      eventFlagSet event.flags persistenceCritical := by
  rw [lineCritical_line]
  exact congrArg (eventFlagSet · _) (flags_envelope lib s.manager.serializer event)

theorem MainOut.map (h : s.MainOut N K w OutN OutK) (hmain : s'.main = s.main)
    (hN : ∀ l, s.main = .uploadedNormal l → OutN l s.manager.normalStorageBatch →
      OutN l s'.manager.normalStorageBatch)
    (hK : ∀ l, s.main = .uploadedCritical l → OutK l s.manager.criticalStorageBatch →
      OutK l s'.manager.criticalStorageBatch)
    (hlog : ∀ v, Posted w.uploader s.log v → Posted w.uploader s'.log v) :
    s'.MainOut N K w OutN OutK := by
  rw [MainOut] at h ⊢
  rw [hmain]
  rcases hphase : s.main with _ | l | l
  · trivial
  · rw [hphase] at h
    exact ⟨hN l hphase h.1, hlog _ h.2⟩
  · rw [hphase] at h
    exact ⟨hK l hphase h.1, hlog _ h.2⟩

theorem MainOut.of_stored (h : s.MainOut N K w OutN OutK) (hquiet : s.Quiet CalmN CalmK critical)
    (hmain : s'.main = s.main) (hlog : s'.log = s.log)
    (hN : ∀ l, OutN l s.manager.normalStorageBatch →
      (critical = false → CalmN l s.manager.normalStorageBatch) →
        OutN l s'.manager.normalStorageBatch) (hK : ∀ l, OutK l s.manager.criticalStorageBatch →
      (critical = true → CalmK l s.manager.criticalStorageBatch) →
        OutK l s'.manager.criticalStorageBatch) : s'.MainOut N K w OutN OutK := by
  rw [Quiet] at hquiet
  refine h.map hmain (fun l hl hout => ?_) (fun l hl hout => ?_) fun _ => hlog ▸ id
  · rw [hl] at hquiet
    exact hN l hout hquiet
  · rw [hl] at hquiet
    exact hK l hout hquiet

theorem Conserved.moved (h : Conserved lib w HoldsN HoldsK lsN₀ lsK₀ lsR₀ s lsN lsK)
    {lsN' lsK' : List (List UInt8)} (hnormal : HoldsN s'.manager.normalStorageBatch lsN')
    (hsubN : lsN' ⊆ lsN) (hcritical : HoldsK s'.manager.criticalStorageBatch lsK')
    (hsubK : lsK' ⊆ lsK) (hadded : s'.added = s.added)
    (hcount : ∀ d, (s'.places lsN' lsK').count d = (s.places lsN lsK).count d)
    (hdelivered : ∀ d ∈ s'.uploaded, w.uploader.Delivered s'.log d) :
    Conserved lib w HoldsN HoldsK lsN₀ lsK₀ lsR₀ s' lsN' lsK' := by
  refine ⟨hnormal, hcritical, ?_, hdelivered, fun d hd => h.routedNormal d (hsubN hd),
    fun d hd => h.routedCritical d (hsubK hd), ?_⟩
  · rw [hadded]
    exact (perm_iff_count.mpr hcount).trans h.conserved
  · rw [hadded]
    exact h.flags

section Step
variable (hN : N.IsStorage HoldsN OutN CalmN) (hK : K.IsStorage HoldsK OutK CalmK)
  (h : Inv lib N K w HoldsN HoldsK OutN OutK lsN₀ lsK₀ lsR₀ s lsN lsK)
include hN hK h

theorem Inv.add (event : LoggedEvent) (hok : s.Sound lib N K CalmN CalmK (.add event)) :
    h.Kept (s.step lib N K w (.add event)) := by
  have hflags := flags_serialize lib event s.toManagerState
  have hadded : ∀ a ∈ s.added ++ [(event, (serialize lib event s.toManagerState).1)],
      lineCritical lib a.2.line = eventFlagSet a.1.flags persistenceCritical := by
    intro a ha
    rcases mem_append.mp ha with ha | ha
    · exact h.flags a ha
    · rw [mem_singleton.mp ha]
      exact hflags
  have hstep : s.step lib N K w (.add event) =
      { s with
        toManagerState := EventManager.add lib N K w event s.toManagerState
        added := s.added ++ [(event, (serialize lib event s.toManagerState).1)] } := rfl
  rw [hstep]
  rcases add_cases lib N K w s event with ⟨htaken, z, e, heq⟩ | ⟨hstoring, z, e, heq⟩
  · rw [heq]
    refine ⟨lsN, lsK, ⟨h.normal, h.critical, ?_, h.delivered, h.routedNormal, h.routedCritical,
      hadded⟩, h.mainOut, fun l hl => ?_⟩
    · refine perm_iff_count.mpr fun d => ?_
      have hcount := h.conserved.count_eq d
      simp only [places, moving, MemoryEventBatch.lines_addEvent, htaken, if_true, map_append,
        count_append, map_cons, map_nil] at hcount ⊢
      omega
    · obtain ⟨hout, hposted⟩ := h.realtimeOut l hl
      exact ⟨BufferedEventBatch.Out.addMemory hout _, hposted⟩
  · obtain ⟨hquiet, _⟩ := hok _ _ hstoring
    obtain ⟨b, c, warned, lsN', lsK', hstore, hb, hc, hperm, hrouteN, hrouteK, houtN, houtK⟩ :=
      storeEvent_spec (s := { s.toManagerState with manager := { s.manager with serializer := z } })
        hN hK (eventFlagSet event.flags persistenceCritical)
        (serialize lib event s.toManagerState).1 h.normal h.critical
    obtain ⟨hroutedN, hroutedK⟩ := h.routed_stored hflags hrouteN hrouteK
    rw [heq, hstore]
    refine ⟨lsN', lsK', ⟨hb, hc, ?_, h.delivered, hroutedN, hroutedK, hadded⟩, ?_, h.realtimeOut⟩
    · refine perm_iff_count.mpr fun d => ?_
      have hcount := h.conserved.count_eq d
      have hcount' := hperm.count_eq d
      simp only [places, moving, map_append, count_append, map_cons, map_nil]
        at hcount hcount' ⊢
      split at hcount'
      · next htaken =>
        rw [if_pos htaken, count_nil]
        omega
      · next hrefused =>
        rw [if_neg hrefused]
        rw [count_nil] at hcount'
        omega
    · exact h.mainOut.of_stored hquiet rfl rfl houtN houtK

theorem Inv.updateConfig : h.Kept (s.step lib N K w .updateConfig) := by
  rcases updateConfigIfNeeded_cases (N := N) (K := K) (w := w) s.toManagerState with
    ⟨e, heq⟩ | ⟨maxEvents, maxSize, e, _, heq⟩
  · have hstep : s.step lib N K w .updateConfig = { s with env := e } :=
      congrArg (fun t => ({ s with toManagerState := t } : ManagerRun ν κ ℓn ℓc ε)) heq
    rw [hstep]
    exact ⟨lsN, lsK, ⟨h.normal, h.critical, h.conserved, h.delivered, h.routedNormal,
      h.routedCritical, h.flags⟩, h.mainOut, h.realtimeOut⟩
  · have hstep : s.step lib N K w .updateConfig =
        { s with manager := onConfigurationUpdated N K maxEvents maxSize s.manager, env := e } :=
      congrArg (fun t => ({ s with toManagerState := t } : ManagerRun ν κ ℓn ℓc ε)) heq
    rw [hstep]
    refine ⟨lsN, lsK, ⟨hN.setFileLimits _ _ h.normal, hK.setFileLimits _ _ h.critical,
      h.conserved, h.delivered, h.routedNormal, h.routedCritical, h.flags⟩, ?_, h.realtimeOut⟩
    exact h.mainOut.map rfl (fun _ _ => hN.out_setFileLimits _ _)
      (fun _ _ => hK.out_setFileLimits _ _) fun _ => id

end Step

/-! ### The main task -/

/-- A request leaves the events that were not dropped, and a list to acknowledge if it was answered
with 200. -/
theorem posted {σ : Type} {B : UploadBatch σ ℓ} {Holds : σ → List (List UInt8) → Prop}
    {Out : ℓ → σ → Prop} (hB : B.IsStore Holds Out) (u : EventUploader ε) {b : σ} (h : Holds b ls)
    (maxCount maxSize fuel : Nat) (e : ε) (log : List Exchange) :
    let r := postEvents B u maxCount maxSize fuel b e
    ∃ rest, Holds r.batch rest ∧ rest ⊆ ls ∧
      (∀ d, ls.count d = (r.dropped.flatMap (Lines.lines 10)).count d + rest.count d) ∧
      ∀ l, r.uploaded = some l → Out l r.batch ∧ Posted u (log ++ r.log) (B.view l) := by
  obtain ⟨rest, hls, hrest, hout⟩ :=
    postEvents_accounts hB u maxCount maxSize fuel h e
  refine ⟨rest, hrest, fun d hd => ?_, fun d => ?_, fun l hl => ?_⟩
  · rw [hls]
    exact mem_append_right _ hd
  · nth_rewrite 1 [hls]
    exact count_append
  · obtain ⟨hl, x, hx, hfacts⟩ := hout l hl
    exact ⟨hl, x, mem_append_right _ hx, hfacts⟩

theorem MainOut.mono (h : s.MainOut N K w OutN OutK) (hphase : s'.main = s.main)
    (hnormal : s'.manager.normalStorageBatch = s.manager.normalStorageBatch)
    (hcritical : s'.manager.criticalStorageBatch = s.manager.criticalStorageBatch)
    (hlog : s'.log = s.log ++ more) : s'.MainOut N K w OutN OutK :=
  h.map hphase (fun _ _ => hnormal ▸ id) (fun _ _ => hcritical ▸ id)
    fun _ hposted => hlog ▸ hposted.mono more

theorem RealtimeOut.mono (h : s.RealtimeOut w) (hphase : s'.realtime = s.realtime)
    (hmem : s'.manager.realtimeMemoryBatch = s.manager.realtimeMemoryBatch)
    (hlog : s'.log = s.log ++ more) : s'.RealtimeOut w := by
  intro l hl
  rw [hphase] at hl
  obtain ⟨hout, hposted⟩ := h l hl
  rw [hmem, hlog]
  exact ⟨hout, hposted.mono more⟩

section Step
variable (h : Inv lib N K w HoldsN HoldsK OutN OutK lsN₀ lsK₀ lsR₀ s lsN lsK)
include h

theorem Inv.postCritical (hK : K.IsStorage HoldsK OutK CalmK) (fuel : Nat) :
    h.Kept (s.postCritical K w fuel) := by
  obtain ⟨rest, hrest, hsub, hcount, hout⟩ := posted hK.isStore w.uploader h.critical
    s.manager.uploaderMaxEvents s.manager.uploaderMaxSize fuel s.env s.log
  refine ⟨lsN, rest, h.moved h.normal (fun _ => id) hrest hsub rfl (fun d => ?_)
    fun d hd => delivered_mono (h.delivered d hd) _, ?_, h.realtimeOut.mono rfl rfl rfl⟩
  · have hcount := hcount d
    simp only [ManagerRun.postCritical, places, moving, count_append] at hcount ⊢
    omega
  · simp only [MainOut, ManagerRun.postCritical]
    rcases huploaded : (postEvents K.toUploadBatch w.uploader
      s.manager.uploaderMaxEvents s.manager.uploaderMaxSize fuel s.manager.criticalStorageBatch
      s.env).uploaded with _ | l
    · trivial
    · exact hout l huploaded

theorem Inv.postNormal (hN : N.IsStorage HoldsN OutN CalmN) (fuel : Nat) :
    h.Kept (s.postNormal N w fuel) := by
  obtain ⟨rest, hrest, hsub, hcount, hout⟩ := posted hN.isStore w.uploader h.normal
    s.manager.uploaderMaxEvents s.manager.uploaderMaxSize fuel s.env s.log
  refine ⟨rest, lsK, h.moved hrest hsub h.critical (fun _ => id) rfl (fun d => ?_)
    fun d hd => delivered_mono (h.delivered d hd) _, ?_, h.realtimeOut.mono rfl rfl rfl⟩
  · have hcount := hcount d
    simp only [ManagerRun.postNormal, places, moving, count_append] at hcount ⊢
    omega
  · simp only [MainOut, ManagerRun.postNormal]
    rcases huploaded : (postEvents N.toUploadBatch w.uploader
      s.manager.uploaderMaxEvents s.manager.uploaderMaxSize fuel s.manager.normalStorageBatch
      s.env).uploaded with _ | l
    · trivial
    · exact hout l huploaded

theorem Inv.acknowledgeNormal (hN : N.IsStorage HoldsN OutN CalmN) {l : ℓn}
    (hphase : s.main = .uploadedNormal l) (fuel : Nat) :
    h.Kept (s.mainStep N K w fuel) := by
  have hout := h.mainOut
  rw [MainOut, hphase] at hout
  obtain ⟨hl, hposted⟩ := hout
  obtain ⟨rest, hperm, hrest⟩ := acknowledged hN.isStore h.normal hl
  have hsub : rest ⊆ lsN := fun d hd => hperm.mem_iff.mpr (mem_append_right _ hd)
  rw [ManagerRun.mainStep, hphase]
  refine ⟨rest, lsK, h.moved hrest hsub h.critical (fun _ => id) rfl (fun d => ?_)
    (forall_mem_append.mpr ⟨h.delivered, fun _ => hposted.delivered⟩), trivial, h.realtimeOut⟩
  have hcount := hperm.count_eq d
  simp only [places, moving, count_append] at hcount ⊢
  omega

theorem Inv.acknowledgeCritical (hK : K.IsStorage HoldsK OutK CalmK) {l : ℓc}
    (hphase : s.main = .uploadedCritical l) (fuel : Nat) :
    h.Kept (s.mainStep N K w fuel) := by
  have hout := h.mainOut
  rw [MainOut, hphase] at hout
  obtain ⟨hl, hposted⟩ := hout
  obtain ⟨rest, hperm, hrest⟩ := acknowledged hK.isStore h.critical hl
  have hsub : rest ⊆ lsK := fun d hd => hperm.mem_iff.mpr (mem_append_right _ hd)
  rw [ManagerRun.mainStep, hphase]
  refine ⟨lsN, rest, h.moved h.normal (fun _ => id) hrest hsub rfl (fun d => ?_)
    (forall_mem_append.mpr ⟨h.delivered, fun _ => hposted.delivered⟩), trivial, h.realtimeOut⟩
  have hcount := hperm.count_eq d
  simp only [places, moving, count_append] at hcount ⊢
  omega

theorem Inv.mainStep (hN : N.IsStorage HoldsN OutN CalmN) (hK : K.IsStorage HoldsK OutK CalmK)
    (fuel : Nat) :
    h.Kept (s.mainStep N K w fuel) := by
  rcases hphase : s.main with _ | l | l
  · rw [ManagerRun.mainStep, hphase]
    simp only
    split
    · exact h.postCritical hK fuel
    · split
      · exact h.postNormal hN fuel
      · exact ⟨lsN, lsK, h⟩
  · exact h.acknowledgeNormal hN hphase fuel
  · exact h.acknowledgeCritical hK hphase fuel

/-! ### The realtime task -/

omit h in
/-- After a request no events are being moved, and a list is to be acknowledged only after a
success. -/
theorem postRealtime_phase (s : ManagerRun ν κ ℓn ℓc ε) (fuel : Nat) :
    (s.postRealtime w fuel).moving = [] ∧
      ∀ l, (s.postRealtime w fuel).realtime = .uploaded l →
        (postEvents MemoryEventBatch.eventBatch.plain w.uploader
          s.manager.uploaderMaxEvents s.manager.uploaderMaxSize fuel s.manager.realtimeMemoryBatch
          s.env).uploaded = some l := by
  simp only [postRealtime, moving]
  generalize postEvents MemoryEventBatch.eventBatch.plain w.uploader
    s.manager.uploaderMaxEvents s.manager.uploaderMaxSize fuel s.manager.realtimeMemoryBatch
    s.env = r
  rcases r.outcome with (_ | _ | _) | _ | _ | _
  · rcases r.uploaded with _ | l
    · exact ⟨rfl, fun _ h => RealtimePhase.noConfusion h⟩
    · refine ⟨rfl, fun l' h => ?_⟩
      rw [RealtimePhase.uploaded.inj h]
  all_goals exact ⟨rfl, fun _ h => RealtimePhase.noConfusion h⟩

theorem Inv.postRealtime (hidle : s.moving = []) (fuel : Nat) :
    h.Kept (s.postRealtime w fuel) := by
  obtain ⟨rest, hrest, _, hcount, hout⟩ := posted MemoryEventBatch.eventBatch_isQueue.isStore
    w.uploader (b := s.manager.realtimeMemoryBatch) rfl
    s.manager.uploaderMaxEvents s.manager.uploaderMaxSize fuel s.env s.log
  obtain ⟨hmoving, hphase⟩ := postRealtime_phase (w := w) s fuel
  refine ⟨lsN, lsK, h.moved h.normal (fun _ => id) h.critical (fun _ => id) rfl
    (fun d => ?_) fun d hd => delivered_mono (h.delivered d hd) _, h.mainOut.mono rfl rfl rfl rfl,
    fun l hl => hout l (hphase l hl)⟩
  have hcount := hcount d
  rw [← hrest] at hcount
  simp only [places, hidle, hmoving, count_append]
  simp only [ManagerRun.postRealtime, count_append] at hcount ⊢
  omega

theorem Inv.acknowledgeRealtime (hphase : s.realtime = .uploaded l) (fuel : Nat) :
    h.Kept (s.realtimeStep lib N K w fuel) := by
  obtain ⟨hl, hposted⟩ := h.realtimeOut l hphase
  obtain ⟨rest, hperm, hrest⟩ := acknowledged MemoryEventBatch.eventBatch_isQueue.isStore
    (b := s.manager.realtimeMemoryBatch) rfl hl
  subst hrest
  simp only [ManagerRun.realtimeStep, hphase]
  refine ⟨lsN, lsK, h.moved h.normal (fun _ => id) h.critical (fun _ => id) rfl
    (fun d => ?_) (forall_mem_append.mpr ⟨h.delivered, fun _ => hposted.delivered⟩), h.mainOut,
    fun l hl => RealtimePhase.noConfusion hl⟩
  have hcount := hperm.count_eq d
  simp only [hphase, places, moving, count_append] at hcount ⊢
  change _ = count d (Lines.lines 10 l.data) +
    count d (s.manager.realtimeMemoryBatch.onEventsUploaded l).lines at hcount
  omega

variable (hN : N.IsStorage HoldsN OutN CalmN) (hK : K.IsStorage HoldsK OutK CalmK)
include hN hK

theorem Inv.fallBack {items : List Event} (hphase : s.realtime = .fallingBack (ev :: items))
    (fuel : Nat) (hok : s.Sound lib N K CalmN CalmK (.realtime fuel)) :
    h.Kept (s.realtimeStep lib N K w fuel) := by
  have hstoring : s.storing lib (.realtime fuel) =
      some (eventFlagSet (ev.flags lib) persistenceCritical, ev) := by
    simp only [storing, hphase]
  obtain ⟨hquiet, htaken⟩ := hok _ _ hstoring
  obtain ⟨b, c, warned, lsN', lsK', hstore, hb, hc, hperm, hrouteN, hrouteK, houtN, houtK⟩ :=
    storeEvent_spec hN hK (eventFlagSet (ev.flags lib) persistenceCritical) ev
      h.normal h.critical
  obtain ⟨hroutedN, hroutedK⟩ := h.routed_stored (lineCritical_line lib ev) hrouteN hrouteK
  simp only [ManagerRun.realtimeStep, hphase, EventManager.fallBack, hstore]
  refine ⟨lsN', lsK', ⟨hb, hc, ?_, h.delivered, hroutedN, hroutedK, h.flags⟩, ?_,
    fun l hl => RealtimePhase.noConfusion hl⟩
  · refine perm_iff_count.mpr fun d => ?_
    have hbefore := h.conserved.count_eq d
    have hcount := hperm.count_eq d
    rw [htaken fuel rfl] at hcount
    simp only [hphase, places, moving, map_cons, count_append, if_true,
      count_cons, count_nil] at hbefore hcount ⊢
    omega
  · exact h.mainOut.of_stored hquiet rfl rfl houtN houtK

theorem Inv.realtimeStep (fuel : Nat) (hok : s.Sound lib N K CalmN CalmK (.realtime fuel)) :
    h.Kept (s.realtimeStep lib N K w fuel) := by
  rcases hphase : s.realtime with _ | l | _ | (_ | ⟨ev, items⟩)
  · have hidle : s.moving = [] := by simp only [moving, hphase]
    simp only [ManagerRun.realtimeStep, hphase]
    split
    · exact h.postRealtime hidle fuel
    · exact ⟨lsN, lsK, h⟩
  · exact h.acknowledgeRealtime hphase fuel
  · simp only [ManagerRun.realtimeStep, hphase]
    refine ⟨lsN, lsK, h.moved h.normal (fun _ => id) h.critical (fun _ => id) rfl
      (fun d => ?_) h.delivered, h.mainOut, fun l hl => RealtimePhase.noConfusion hl⟩
    simp only [hphase, places, moving, transferRealtime, MemoryEventBatch.transferAllEvents,
      MemoryEventBatch.lines, count_append, map_nil, count_nil]
    omega
  · simp only [ManagerRun.realtimeStep, hphase]
    refine ⟨lsN, lsK, h.moved h.normal (fun _ => id) h.critical (fun _ => id) rfl
      (fun d => ?_) h.delivered, h.mainOut, fun l hl => RealtimePhase.noConfusion hl⟩
    simp only [hphase, places, moving]
  · exact h.fallBack hN hK hphase fuel hok

theorem Inv.step (op : ManagerOp) (hok : s.Sound lib N K CalmN CalmK op) :
    h.Kept (s.step lib N K w op) := by
  cases op with
  | add event => exact h.add hN hK event hok
  | updateConfig => exact h.updateConfig hN hK
  | main fuel => exact h.mainStep hN hK fuel
  | realtime fuel => exact h.realtimeStep hN hK fuel hok

end Step

end Steps

end ManagerRun

section Conservation
variable {ν κ ℓn ℓc ε : Type} {N : StorageBatch ν ℓn} {K : StorageBatch κ ℓc}
  {HoldsN : ν → List (List UInt8) → Prop} {HoldsK : κ → List (List UInt8) → Prop}
  {OutN CalmN : ℓn → ν → Prop} {OutK CalmK : ℓc → κ → Prop}

open ManagerRun

/-- **Every event is in one place**, in the batch its flags select if on disk, where events that
fall back are taken and lists are not disturbed during their upload. -/
theorem events_conserved (lib : EventJson) (w : Platform ε) (hN : N.IsStorage HoldsN OutN CalmN)
    (hK : K.IsStorage HoldsK OutK CalmK) {m : EventManager ν κ} {lsN₀ lsK₀ : List (List UInt8)}
    (hnormal : HoldsN m.normalStorageBatch lsN₀) (hcritical : HoldsK m.criticalStorageBatch lsK₀)
    (e : ε) (ops : List ManagerOp)
    (hsound : Runs.Along (step lib N K w) (Sound lib N K CalmN CalmK)
      (start m e) ops) :
    ∃ lsN lsK, Conserved lib w HoldsN HoldsK lsN₀ lsK₀ m.realtimeMemoryBatch.lines
      (ops.foldl (step lib N K w) (start m e)) lsN lsK := by
  let Inv (s : ManagerRun ν κ ℓn ℓc ε) : Prop := ∃ lsN lsK,
    s.Inv lib N K w HoldsN HoldsK OutN OutK lsN₀ lsK₀ m.realtimeMemoryBatch.lines lsN lsK
  have hstart : Inv (start m e) := by
    refine ⟨lsN₀, lsK₀, ⟨hnormal, hcritical, ?_, nofun,
      fun d hd => .inl hd, fun d hd => .inl hd, nofun⟩,
      trivial, fun l hl => RealtimePhase.noConfusion hl⟩
    refine perm_iff_count.mpr fun d => ?_
    simp only [places, moving, start, count_append,
      map_nil, count_nil]
    omega
  have hstep : ∀ s op, Inv s → s.Sound lib N K CalmN CalmK op →
      Inv (s.step lib N K w op) := by
    rintro s op ⟨lsN, lsK, h⟩ hok
    exact h.step hN hK op hok
  obtain ⟨lsN, lsK, h⟩ := Runs.invariant Inv hstep hstart hsound
  exact ⟨lsN, lsK, h.toConserved⟩

end Conservation

theorem ManagerRun.Sound.of_storing {ν κ ℓn ℓc ε : Type} {lib : EventJson} {N : StorageBatch ν ℓn}
    {K : StorageBatch κ ℓc} {CalmN : ℓn → ν → Prop} {CalmK : ℓc → κ → Prop}
    {s : ManagerRun ν κ ℓn ℓc ε} {op : ManagerOp} (h : s.storing lib op = none) :
    s.Sound lib N K CalmN CalmK op := by
  intro critical ev hstoring
  rw [h] at hstoring
  exact absurd hstoring (by simp)

def realtimeEvent : LoggedEvent := ⟨"event", .null, 514, "2020-01-01T00:00:00.000Z"⟩

def criticalEvent : LoggedEvent := ⟨"event", .null, 2, "2020-01-01T00:00:00.000Z"⟩

/-- A manager with empty directories and room for events of `maxSize` bytes. -/
def EventManager.ofNone (maxSize : Int32) :=
  EventManager.construct (.construct 0 "Linux" "5.0") 500 maxSize [] []

theorem EventManager.ofNone_represents (maxSize : Int32) :
    (EventManager.ofNone maxSize).criticalStorageBatch.1.Represents
      (EventManager.ofNone maxSize).criticalStorageBatch.2 [] :=
  construct_represents _ _ (by simp [Directory.Ordered]) (by simp)

/-- A critical event is uploaded from disk while another is put into the realtime queue
and uploaded from there. -/
theorem events_conserved_run :
    ∃ lsN lsK, ManagerRun.Conserved .flagsOnly .ofOk
      (BufferedEventBatch.Holds fun s ls => s.1.Represents s.2 ls)
      (fun s ls => s.1.Represents s.2 ls) [] [] []
      ([.add criticalEvent, .main 1, .add realtimeEvent, .main 1, .realtime 1, .realtime 1].foldl
        (ManagerRun.step .flagsOnly BufferedEventBatch.storageBatch
          storageBatch .ofOk)
        (ManagerRun.start (EventManager.ofNone 6400) ())) lsN lsK := by
  refine events_conserved .flagsOnly .ofOk BufferedEventBatch.storageBatch_isStorage
    MultiFileEventBatch.storageBatch_isStorage (m := EventManager.ofNone 6400)
    ⟨[], EventManager.ofNone_represents 6400, rfl⟩ (EventManager.ofNone_represents 6400) () _ ?_
  refine ⟨fun critical ev _ => ⟨trivial, fun _ h => ManagerOp.noConfusion h⟩, .of_storing rfl,
    .of_storing (by decide), .of_storing rfl, .of_storing (by decide), .of_storing (by decide),
    trivial⟩

def Platform.ofError : Platform Unit :=
  { Platform.ofOk with
    uploader := { EventUploader.ofOk with send := fun _ e => (some ⟨500, []⟩, e) } }

/-- **An event is lost without a word**: its upload fails, and the files, to which it falls back,
refuse it as too long. -/
theorem events_lost :
    let s := [.add realtimeEvent, .realtime 1, .realtime 1, .realtime 1, .realtime 1].foldl
      (ManagerRun.step .flagsOnly BufferedEventBatch.storageBatch
        storageBatch .ofError)
      (ManagerRun.start (EventManager.ofNone 4) ())
    s.added.length = 1 ∧
      s.places (s.manager.normalStorageBatch.wrapped.2.events ++
        s.manager.normalStorageBatch.mem.lines) s.manager.criticalStorageBatch.2.events = [] ∧
      ¬ ∃ lsN lsK, ManagerRun.Conserved .flagsOnly .ofError
        (BufferedEventBatch.Holds fun s ls => s.1.Represents s.2 ls)
        (fun s ls => s.1.Represents s.2 ls) [] [] [] s lsN lsK := by
  intro s
  have hadded : s.added.length = 1 := by decide
  have hplaces : s.places (s.manager.normalStorageBatch.wrapped.2.events ++
      s.manager.normalStorageBatch.mem.lines) s.manager.criticalStorageBatch.2.events = [] := by
    decide
  refine ⟨hadded, hplaces, ?_⟩
  rintro ⟨lsN, lsK, h⟩
  obtain ⟨wrapped, ⟨_, hwrapped⟩, hlsN⟩ := h.normal
  obtain ⟨_, hlsK⟩ := h.critical
  have hlength := h.conserved.length_eq
  rw [hlsN, ← hwrapped, ← hlsK, hplaces] at hlength
  exact absurd hlength (by decide)

end Cll
