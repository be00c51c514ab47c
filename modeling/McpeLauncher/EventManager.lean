import McpeLauncher.IpcMessage
import McpeLauncher.UploadBatches

/-! # The event manager

`EventManager` of cll-telemetry wraps an event into an envelope and puts it into a batch: with
`LatencyRealtime` into one in memory; if that is full, and for other events, into one of two on
disk, as `PersistenceCritical` says. -/
namespace Cll
open List
open SimpleIpc (Json JsonLibrary)

/-- `EventFlags`, an enumeration over `int` whose values are combined. -/
abbrev EventFlags := Int32

namespace EventFlags

def persistenceNormal : EventFlags := 1
def persistenceCritical : EventFlags := 2
def latencyNormal : EventFlags := 256
def latencyRealtime : EventFlags := 512

end EventFlags

def eventFlagSet (a b : EventFlags) : Bool := a &&& b != 0

/-- An event as the program logs it, with its time as a text. -/
structure LoggedEvent where
  name : String
  data : Json
  flags : EventFlags
  time : String

/-- `EventSerializer`; an extension is its name with its `build`. -/
structure EventSerializer where
  iKey : String
  epoch : Int64
  seqNum : UInt64
  os : String
  osVer : String
  appId : String
  appVer : String
  extensions : List (String × (LoggedEvent → Json))

namespace EventSerializer

def construct (epoch : Int64) (os osVer : String) : EventSerializer where
  iKey := ""
  epoch := epoch
  seqNum := 0
  os := os
  osVer := osVer
  appId := ""
  appVer := ""
  extensions := []

/-- A member that is left out where its text is empty. -/
def setNonEmpty (key text : String) (ms : List (String × Json)) : List (String × Json) :=
  if text = "" then ms else Json.setMember key (.string text) ms

def envelope (z : EventSerializer) (ev : LoggedEvent) : List (String × Json) :=
  let ms := Json.setMember "ver" (.string "2.1") []
  let ms := Json.setMember "name" (.string ev.name) ms
  let ms := Json.setMember "data" ev.data ms
  let ms := Json.setMember "time" (.string ev.time) ms
  -- the bits of `100.0`
  let ms := Json.setMember "popSample" (.float 0x4059000000000000) ms
  let ms := Json.setMember "epoch" (.string (toString z.epoch.toInt)) ms
  let ms := Json.setMember "seqNum" (.integer z.seqNum.toNat) ms
  let ms := Json.setMember "iKey" (.string z.iKey) ms
  let ms := Json.setMember "flags" (.integer ev.flags.toInt) ms
  let ms := setNonEmpty "os" z.os ms
  let ms := setNonEmpty "osVer" z.osVer ms
  let ms := setNonEmpty "appId" z.appId ms
  let ms := setNonEmpty "appVer" z.appVer ms
  if z.extensions.isEmpty then ms
  else
    let ext := z.extensions.foldl (fun ext e => Json.setMember e.1 (e.2 ev) ext) []
    Json.setMember "ext" (.object ext) ms

def createEnvelopeFor (z : EventSerializer) (ev : LoggedEvent) : Json × EventSerializer :=
  (.object (z.envelope ev), { z with seqNum := z.seqNum + 1 })

theorem lookup_setNonEmpty_ne {key key' : String} (h : key' ≠ key) (text : String)
    (ms : List (String × Json)) : (setNonEmpty key text ms).lookup key' = ms.lookup key' := by
  rw [setNonEmpty]
  split
  · rfl
  · exact Json.lookup_setMember_ne h _ _

theorem lookup_flags_envelope (z : EventSerializer) (ev : LoggedEvent) :
    (z.envelope ev).lookup "flags" = some (.integer ev.flags.toInt) := by
  have hflags : ∀ ms : List (String × Json),
      (setNonEmpty "appVer" z.appVer (setNonEmpty "appId" z.appId (setNonEmpty "osVer" z.osVer
        (setNonEmpty "os" z.os (Json.setMember "flags" (.integer ev.flags.toInt) ms))))).lookup
          "flags" = some (.integer ev.flags.toInt) := by
    intro ms
    rw [lookup_setNonEmpty_ne (by decide), lookup_setNonEmpty_ne (by decide),
      lookup_setNonEmpty_ne (by decide), lookup_setNonEmpty_ne (by decide),
      Json.lookup_setMember_self]
  simp only [envelope]
  split
  · exact hflags _
  · rw [Json.lookup_setMember_ne (by decide)]
    exact hflags _

end EventSerializer

/-- The JSON library, which reads the flags of an object back from its text. -/
structure EventJson extends JsonLibrary where
  flags_dump : ∀ ms i, ms.lookup "flags" = some (.integer i) →
    ∃ v, parse (dump (.object ms)) = .ok v ∧ v.find "flags" = some (.integer i)

namespace EventJson

/-! A library that keeps nothing but the flags shows that there is one. -/

def writeInt : Int → List UInt8
  | .ofNat n => 43 :: (Nat.digits 2 n).map fun d => if d = 0 then 48 else 49
  | .negSucc n => 45 :: (Nat.digits 2 n).map fun d => if d = 0 then 48 else 49

def readDigits (text : List UInt8) : Nat :=
  Nat.ofDigits 2 (text.map fun b => if b = 48 then 0 else 1)

def readInt : List UInt8 → Option Int
  | 43 :: digits => some (.ofNat (readDigits digits))
  | 45 :: digits => some (.negSucc (readDigits digits))
  | _ => none

theorem readDigits_digits (n : Nat) :
    readDigits ((Nat.digits 2 n).map fun d => if d = 0 then 48 else 49) = n := by
  have hdigits : ∀ d ∈ Nat.digits 2 n,
      (if (if d = 0 then (48 : UInt8) else 49) = 48 then 0 else 1) = d := by
    intro d hd
    have hlt := Nat.digits_lt_base Nat.one_lt_two hd
    interval_cases d
    · rfl
    · rfl
  have hread : ((Nat.digits 2 n).map fun d => if d = 0 then (48 : UInt8) else 49).map
      (fun b => if b = 48 then 0 else 1) = Nat.digits 2 n := by
    rw [map_map]
    exact (map_congr_left hdigits).trans (map_id' _)
  rw [readDigits, hread, Nat.ofDigits_digits]

theorem readInt_writeInt (i : Int) : readInt (writeInt i) = some i := by
  cases i with
  | ofNat n => exact congrArg (fun k => some (Int.ofNat k)) (readDigits_digits n)
  | negSucc n => exact congrArg (fun k => some (Int.negSucc k)) (readDigits_digits n)

theorem writeInt_clean (i : Int) : ∀ b ∈ writeInt i, b ≠ 10 ∧ b ≠ 0 := by
  have hdigits : ∀ n : Nat, ∀ b ∈ (Nat.digits 2 n).map fun d => if d = 0 then (48 : UInt8) else 49,
      b ≠ 10 ∧ b ≠ 0 := by
    intro n b hb
    obtain ⟨d, _, rfl⟩ := mem_map.mp hb
    split
    · decide
    · decide
  intro b hb
  cases i with
  | ofNat n =>
    rcases mem_cons.mp hb with rfl | hb
    · decide
    · exact hdigits n b hb
  | negSucc n =>
    rcases mem_cons.mp hb with rfl | hb
    · decide
    · exact hdigits n b hb

theorem writeInt_ne_nil (i : Int) : writeInt i ≠ [] := by
  cases i with
  | ofNat n => exact cons_ne_nil _ _
  | negSucc n => exact cons_ne_nil _ _

def flagsValue (v : Json) : Int :=
  match v.find "flags" with
  | some (.integer i) => i
  | _ => 0

def flagsOnly : EventJson where
  dump v := writeInt (flagsValue v)
  parse text := match readInt (text.rdropWhile (· = 10)) with
    | some i => .ok (.object [("flags", .integer i)])
    | none => .error .parse
  toCbor _ := [0]
  fromCbor _ := .error .parse
  dump_clean v := writeInt_clean _
  dump_ne_nil v := writeInt_ne_nil _
  parse_newline text := by rw [List.rdropWhile_concat_pos _ _ _ (by decide)]
  toCbor_ne_nil _ := List.cons_ne_nil _ _
  toCbor_length _ := by decide
  flags_dump ms i h := by
    have hvalue : flagsValue (.object ms) = i := by simp [flagsValue, Json.find, h]
    have hdrop : (writeInt i).rdropWhile (· = 10) = writeInt i := by
      refine List.rdropWhile_eq_self_iff.mpr fun hl hlast => ?_
      exact (writeInt_clean i _ (List.getLast_mem hl)).1 (of_decide_eq_true hlast)
    refine ⟨.object [("flags", .integer i)], ?_, by simp [Json.find]⟩
    simp only [hvalue, hdrop, readInt_writeInt]

end EventJson

def Event.ofJson (lib : EventJson) (v : Json) : Event :=
  ⟨lib.dump v, fun h => (lib.dump_clean v 10 h).1 rfl⟩

/-- `value("flags", 0)` of the envelope with this text, which always has an integer there. -/
def flagsOfText (lib : EventJson) (text : List UInt8) : EventFlags :=
  match lib.parse text with
  | .ok v => (((v.find "flags").getD (.integer 0)).getInt32).toOption.getD 0
  | .error _ => 0

def Event.flags (lib : EventJson) (ev : Event) : EventFlags := flagsOfText lib ev.text

theorem flags_envelope (lib : EventJson) (z : EventSerializer) (ev : LoggedEvent) :
    (Event.ofJson lib (z.createEnvelopeFor ev).1).flags lib = ev.flags := by
  obtain ⟨v, hparse, hflags⟩ := lib.flags_dump _ _ (z.lookup_flags_envelope ev)
  simp only [Event.flags, Event.ofJson, EventSerializer.createEnvelopeFor, flagsOfText, hparse,
    hflags, Option.getD_some, Json.getInt32, Json.getArithmetic]
  exact Int32.ofInt_toInt ev.flags

/-- A batch on disk. `warned` are the events that adding one could not forward to the files. -/
structure StorageBatch (σ ℓ : Type) extends UploadBatch σ ℓ where
  setFileLimits : (maxEvents maxSize : Nat) → σ → σ
  warned : Event → σ → List Event

def MultiFileEventBatch.storageBatch :
    StorageBatch (MultiFileEventBatch × Directory) MultiFileEventBatch.EventList :=
  { MultiFileEventBatch.eventBatch.plain with
    setFileLimits := fun maxEvents maxSize s => (s.1.setFileLimits maxEvents maxSize, s.2)
    warned := fun _ _ => [] }

/-- The events that `flushInternal` cannot forward. -/
def BufferedEventBatch.unforwarded {σ ℓ : Type} (B : EventBatch σ ℓ) (w : σ) :
    List Event → List Event
  | [] => []
  | item :: items =>
    let (taken, w) := B.addEvent item w
    if taken then unforwarded B w items else item :: unforwarded B w items

def BufferedEventBatch.storageBatch :
    StorageBatch (BufferedEventBatch (MultiFileEventBatch × Directory))
      (BufferedEventList MultiFileEventBatch.EventList) :=
  { BufferedEventBatch.uploadBatch MultiFileEventBatch.eventBatch with
    setFileLimits := fun maxEvents maxSize b =>
      { b with wrapped := (b.wrapped.1.setFileLimits maxEvents maxSize, b.wrapped.2) }
    warned := fun _ b =>
      if b.mem.limit ≤ b.mem.items.length then
        BufferedEventBatch.unforwarded MultiFileEventBatch.eventBatch b.wrapped b.mem.items
      else [] }

def toSize (n : Int32) : Nat := (n.toInt % 2 ^ 64).toNat

/-- With the batches for normal and for critical events in states `ν` and `κ`. -/
structure EventManager (ν κ : Type) where
  serializer : EventSerializer
  uploaderMaxEvents : Nat
  uploaderMaxSize : Nat
  normalStorageBatch : ν
  criticalStorageBatch : κ
  realtimeMemoryBatch : MemoryEventBatch

/-- With the limits of the configuration and the two directories of event files. -/
def EventManager.construct (serializer : EventSerializer) (maxEvents maxSize : Int32)
    (normal crit : Directory) :
    EventManager (BufferedEventBatch (MultiFileEventBatch × Directory))
      (MultiFileEventBatch × Directory) where
  serializer := serializer
  uploaderMaxEvents := toSize maxEvents
  uploaderMaxSize := toSize maxSize
  normalStorageBatch :=
    ⟨MultiFileEventBatch.construct (toSize maxEvents) (toSize maxSize) normal, ⟨[], 50⟩⟩
  criticalStorageBatch := MultiFileEventBatch.construct (toSize maxEvents) (toSize maxSize) crit
  realtimeMemoryBatch := ⟨[], 50⟩

inductive UploadTask where
  | mainUploadTask
  | realtimeUploadTask

/-- The world outside. `downloadConfigs` gives new `getMaxEventsPerPost` and
`getMaxEventSizeInBytes`; `sleep` takes milliseconds. -/
structure Platform (ε : Type) where
  uploader : EventUploader ε
  downloadConfigs : ε → Option (Int32 × Int32) × ε
  isStopping : ε → Bool × ε
  sleep : Int → ε → ε
  requestRun : UploadTask → (immediate : Bool) → ε → ε

/-- The manager, the world outside, and the events that the log reports as
dropped. -/
structure ManagerState (ν κ ε : Type) where
  manager : EventManager ν κ
  env : ε
  reported : List (List UInt8)

namespace EventManager

section Operations
variable {ν κ ℓn ℓc ε : Type} (lib : EventJson) (N : StorageBatch ν ℓn) (K : StorageBatch κ ℓc)
  (w : Platform ε)

def onConfigurationUpdated (maxEvents maxSize : Int32) (m : EventManager ν κ) :
    EventManager ν κ :=
  { m with
    normalStorageBatch := N.setFileLimits (toSize maxEvents) (toSize maxSize) m.normalStorageBatch
    criticalStorageBatch :=
      K.setFileLimits (toSize maxEvents) (toSize maxSize) m.criticalStorageBatch
    uploaderMaxSize := toSize maxSize
    uploaderMaxEvents := toSize maxEvents }

def updateConfigIfNeeded (s : ManagerState ν κ ε) : ManagerState ν κ ε :=
  match w.downloadConfigs s.env with
  | (none, e) => { s with env := e }
  | (some (maxEvents, maxSize), e) =>
    { s with manager := onConfigurationUpdated N K maxEvents maxSize s.manager, env := e }

/-- `addEvent` on one of the batches on disk, and what the log then reports. -/
def storeEvent (critical : Bool) (ev : Event) (s : ManagerState ν κ ε) :
    Bool × ManagerState ν κ ε :=
  if critical then
    let (added, batch) := K.addEvent ev s.manager.criticalStorageBatch
    let warned := K.warned ev s.manager.criticalStorageBatch
    (added, { s with manager := { s.manager with criticalStorageBatch := batch }
                     reported := s.reported ++ warned.map Event.line })
  else
    let (added, batch) := N.addEvent ev s.manager.normalStorageBatch
    let warned := N.warned ev s.manager.normalStorageBatch
    (added, { s with manager := { s.manager with normalStorageBatch := batch }
                     reported := s.reported ++ warned.map Event.line })

/-- The envelope for an event, which takes a number. -/
def serialize (event : LoggedEvent) (s : ManagerState ν κ ε) : Event × ManagerState ν κ ε :=
  let (serialized, serializer) := s.manager.serializer.createEnvelopeFor event
  (Event.ofJson lib serialized, { s with manager := { s.manager with serializer := serializer } })

/-- `add` after the realtime batch did not take the event, or was not asked. -/
def addToStorage (critical realtime : Bool) (ev : Event) (s : ManagerState ν κ ε) :
    ManagerState ν κ ε :=
  let (added, s) := storeEvent N K critical ev s
  if added then { s with env := w.requestRun .mainUploadTask realtime s.env }
  -- "Event dropped"
  else { s with reported := s.reported ++ [ev.line] }

def add (event : LoggedEvent) (s : ManagerState ν κ ε) : ManagerState ν κ ε :=
  let (ev, s) := serialize lib event s
  let critical := eventFlagSet event.flags EventFlags.persistenceCritical
  if eventFlagSet event.flags EventFlags.latencyRealtime then
    match s.manager.realtimeMemoryBatch.addEvent ev with
    | (true, batch) =>
      { s with manager := { s.manager with realtimeMemoryBatch := batch }
               env := w.requestRun .realtimeUploadTask false s.env }
    | (false, _) => addToStorage N K w critical true ev s
  else addToStorage N K w critical false ev s

/-- The main task: the time of the next backoff, in milliseconds. -/
structure Backoff (ν κ ε : Type) extends ManagerState ν κ ε where
  nextBackoffTime : Int

def baseBackoffTime : Int := 5000

/-- The rest of a round of `uploadTasks`, with the status of the upload. -/
def backOff (outcome : UploadOutcome) (s : Backoff ν κ ε) : Runs.Next (Backoff ν κ ε) :=
  match outcome with
  | .returned .success => .again { s with nextBackoffTime := baseBackoffTime }
  | .returned (.errorRateLimit retryAfter) =>
    .again { s with env := w.sleep (1000 * retryAfter) s.env, nextBackoffTime := baseBackoffTime }
  | .returned .errorGeneric =>
    .again { s with env := w.sleep s.nextBackoffTime s.env
                    nextBackoffTime := 2 * s.nextBackoffTime }
  | _ => .failed s

def sendCritical (fuel : Nat) (s : ManagerState ν κ ε) : UploadOutcome × ManagerState ν κ ε :=
  let r := EventUploader.sendEvents K.toUploadBatch w.uploader s.manager.uploaderMaxEvents
    s.manager.uploaderMaxSize fuel s.manager.criticalStorageBatch s.env
  (r.outcome, ⟨{ s.manager with criticalStorageBatch := r.batch }, r.env,
    s.reported ++ r.dropped.flatMap (Lines.lines 10)⟩)

def sendNormal (fuel : Nat) (s : ManagerState ν κ ε) : UploadOutcome × ManagerState ν κ ε :=
  let r := EventUploader.sendEvents N.toUploadBatch w.uploader s.manager.uploaderMaxEvents
    s.manager.uploaderMaxSize fuel s.manager.normalStorageBatch s.env
  (r.outcome, ⟨{ s.manager with normalStorageBatch := r.batch }, r.env,
    s.reported ++ r.dropped.flatMap (Lines.lines 10)⟩)

def uploadTasksRound (fuel : Nat) (s : Backoff ν κ ε) : Runs.Next (Backoff ν κ ε) :=
  let (stopping, e) := w.isStopping s.env
  let s := { s with env := e }
  if !stopping && (N.hasEvents s.manager.normalStorageBatch ||
      K.hasEvents s.manager.criticalStorageBatch) then
    let s := { s with toManagerState := updateConfigIfNeeded N K w s.toManagerState }
    if K.hasEvents s.manager.criticalStorageBatch then
      let (outcome, s') := sendCritical K w fuel s.toManagerState
      backOff w outcome { s with toManagerState := s' }
    else if N.hasEvents s.manager.normalStorageBatch then
      let (outcome, s') := sendNormal N w fuel s.toManagerState
      backOff w outcome { s with toManagerState := s' }
    else .done s
  else .done s

def uploadTasks (rounds fuel : Nat) (s : ManagerState ν κ ε) :
    Runs.Next (Backoff ν κ ε) × Nat :=
  Runs.runLoop (uploadTasksRound N K w fuel) rounds
    ⟨updateConfigIfNeeded N K w s, baseBackoffTime⟩

/-- One event that falls back to the batches on disk. -/
def fallBack (ev : Event) (s : ManagerState ν κ ε) : ManagerState ν κ ε :=
  -- what `addEvent` returns is not looked at
  (storeEvent N K (eventFlagSet (ev.flags lib) EventFlags.persistenceCritical) ev s).2

def transferRealtime (s : ManagerState ν κ ε) : List Event × ManagerState ν κ ε :=
  let (items, batch) := s.manager.realtimeMemoryBatch.transferAllEvents
  (items, { s with manager := { s.manager with realtimeMemoryBatch := batch } })

def sendRealtime (fuel : Nat) (s : ManagerState ν κ ε) : UploadOutcome × ManagerState ν κ ε :=
  let r := EventUploader.sendEvents MemoryEventBatch.eventBatch.plain w.uploader
    s.manager.uploaderMaxEvents s.manager.uploaderMaxSize fuel s.manager.realtimeMemoryBatch s.env
  (r.outcome, ⟨{ s.manager with realtimeMemoryBatch := r.batch }, r.env,
    s.reported ++ r.dropped.flatMap (Lines.lines 10)⟩)

def uploadRealtimeTasksRound (fuel : Nat) (s : ManagerState ν κ ε) :
    Runs.Next (ManagerState ν κ ε) :=
  if s.manager.realtimeMemoryBatch.hasEvents then
    let s := updateConfigIfNeeded N K w s
    match sendRealtime w fuel s with
    | (.returned .success, s) => .again s
    | (.returned _, s) =>
      let (items, s) := transferRealtime s
      let s := items.foldl (fun s ev => fallBack lib N K ev s) s
      .again { s with env := w.requestRun .mainUploadTask true s.env }
    | (_, s) => .failed s
  else .done s

def uploadRealtimeTasks (rounds fuel : Nat) (s : ManagerState ν κ ε) :
    Runs.Next (ManagerState ν κ ε) × Nat :=
  Runs.runLoop (uploadRealtimeTasksRound lib N K w fuel) rounds s

end Operations

end EventManager

end Cll
