import McpeLauncher.FakeInputQueue
import McpeLauncher.Runs

/-! # Handing input events to the game (`fake_inputqueue.cpp`)

`getEvent` gives the game the address of the event at the front of a deque, and `finishEvent`
compares an address with both fronts. In between the launcher may add events, which leaves the front
of each deque where it is. -/
namespace McpeLauncherClient
open List

/-- An element of a deque and its address. -/
structure Stored (ε : Type) where
  addr : Nat
  event : ε

/-- `FakeInputQueue` with the addresses of its elements. -/
structure StoredQueue where
  keyEvents : List (Stored FakeKeyEvent)
  motionEvents : List (Stored FakeMotionEvent)

namespace StoredQueue

def empty : StoredQueue := ⟨[], []⟩

/-- `addEvent(FakeKeyEvent)`, which stores the event at `addr`. -/
def addKeyEvent (q : StoredQueue) (addr : Nat) (event : FakeKeyEvent) : StoredQueue :=
  { q with keyEvents := q.keyEvents ++ [⟨addr, event⟩] }

def addMotionEvent (q : StoredQueue) (addr : Nat) (event : FakeMotionEvent) : StoredQueue :=
  { q with motionEvents := q.motionEvents ++ [⟨addr, event⟩] }

/-- `getEvent`: the address in `*event` and what is there, or `none` for -1. -/
def getEvent (q : StoredQueue) : Option (Nat × FakeInputEvent) :=
  match q.keyEvents, q.motionEvents with
  -- a key event goes first, also before motion events added earlier
  | front :: _, _ => some (front.addr, .key front.event)
  | [], front :: _ => some (front.addr, .motion front.event)
  | [], [] => none

def atFront {ε : Type} (events : List (Stored ε)) (event : Nat) : Bool :=
  match events with
  | [] => false
  | front :: _ => front.addr == event

/-- `finishEvent`, with `none` for its exception. -/
def finishEvent (q : StoredQueue) (event : Nat) : Option StoredQueue :=
  if atFront q.keyEvents event then some { q with keyEvents := q.keyEvents.tail }
  else if atFront q.motionEvents event then some { q with motionEvents := q.motionEvents.tail }
  else none

def contents (q : StoredQueue) : FakeInputQueue where
  keyEvents := q.keyEvents.map Stored.event
  motionEvents := q.motionEvents.map Stored.event

def addrs (q : StoredQueue) : List Nat :=
  q.keyEvents.map Stored.addr ++ q.motionEvents.map Stored.addr

/-- `q'` is `q` without the event at `addr`, which is `event` and at the front of its deque. -/
inductive Pops (addr : Nat) : FakeInputEvent → StoredQueue → StoredQueue → Prop
  | key (event : FakeKeyEvent) (keys : List (Stored FakeKeyEvent))
      (motions : List (Stored FakeMotionEvent)) :
      Pops addr (.key event) ⟨⟨addr, event⟩ :: keys, motions⟩ ⟨keys, motions⟩
  | motion (event : FakeMotionEvent) (keys : List (Stored FakeKeyEvent))
      (motions : List (Stored FakeMotionEvent)) :
      Pops addr (.motion event) ⟨keys, ⟨addr, event⟩ :: motions⟩ ⟨keys, motions⟩

variable {q q' : StoredQueue} {addr : Nat} {event : FakeInputEvent}

theorem pops_of_getEvent (h : q.getEvent = some (addr, event)) : ∃ q', Pops addr event q q' := by
  obtain ⟨keys, motions⟩ := q
  cases keys with
  | cons front keys =>
    cases h
    exact ⟨_, .key _ _ _⟩
  | nil =>
    cases motions with
    | cons front motions =>
      cases h
      exact ⟨_, .motion _ _ _⟩
    | nil => cases h

/-- **`finishEvent` of an event at a front pops that event**, since the front of the other deque has
another address. -/
theorem Pops.finishEvent_eq (h : Pops addr event q q') (hdistinct : q.addrs.Nodup) :
    q.finishEvent addr = some q' := by
  cases h with
  | key event keys motions => exact if_pos (beq_self_eq_true addr)
  | motion event keys motions =>
    have hother : atFront keys addr = false := by
      cases keys with
      | nil => rfl
      | cons front keys =>
        refine beq_false_of_ne fun heq => ?_
        refine (nodup_append.mp hdistinct).2.2 front.addr mem_cons_self addr
          mem_cons_self heq
    rw [finishEvent, hother]
    exact if_pos (beq_self_eq_true addr)

theorem Pops.addKeyEvent (h : Pops addr event q q') (a : Nat) (e : FakeKeyEvent) :
    Pops addr event (q.addKeyEvent a e) (q'.addKeyEvent a e) := by
  cases h with
  | key event keys motions => exact .key _ _ _
  | motion event keys motions => exact .motion _ _ _

theorem Pops.addMotionEvent (h : Pops addr event q q') (a : Nat) (e : FakeMotionEvent) :
    Pops addr event (q.addMotionEvent a e) (q'.addMotionEvent a e) := by
  cases h with
  | key event keys motions => exact .key _ _ _
  | motion event keys motions => exact .motion _ _ _

theorem Pops.addrs_sublist (h : Pops addr event q q') : q'.addrs.Sublist q.addrs := by
  cases h with
  | key event keys motions => exact sublist_cons_self _ _
  | motion event keys motions => exact (sublist_cons_self _ _).append_left _

theorem contents_addKeyEvent (q : StoredQueue) (a : Nat) (e : FakeKeyEvent) :
    (q.addKeyEvent a e).contents = q.contents.addKeyEvent e := by
  simp [contents, addKeyEvent, FakeInputQueue.addKeyEvent]

theorem contents_addMotionEvent (q : StoredQueue) (a : Nat) (e : FakeMotionEvent) :
    (q.addMotionEvent a e).contents = q.contents.addMotionEvent e := by
  simp [contents, addMotionEvent, FakeInputQueue.addMotionEvent]

end StoredQueue

/-! ## The launcher and the game -/

/-- The queue, the event given and not finished, the events added and finished, and whether
`finishEvent` has thrown. -/
structure InputSession where
  queue : StoredQueue
  got : Option (Nat × FakeInputEvent)
  addedKeys : List FakeKeyEvent
  addedMotions : List FakeMotionEvent
  doneKeys : List FakeKeyEvent
  doneMotions : List FakeMotionEvent
  threw : Bool

/-- What the launcher and the game do; the game finishes the event of its last `getEvent`. -/
inductive InputStep where
  | addKey (addr : Nat) (event : FakeKeyEvent)
  | addMotion (addr : Nat) (event : FakeMotionEvent)
  | getEvent
  | finishEvent

namespace InputSession

def start : InputSession := ⟨.empty, none, [], [], [], [], false⟩

/-- The game is done with `event`, and the queue is `q`. -/
def finish (s : InputSession) (q : StoredQueue) : FakeInputEvent → InputSession
  | .key event => { s with queue := q, got := none, doneKeys := s.doneKeys ++ [event] }
  | .motion event => { s with queue := q, got := none, doneMotions := s.doneMotions ++ [event] }

def step (s : InputSession) : InputStep → InputSession
  | .addKey addr event =>
    { s with queue := s.queue.addKeyEvent addr event, addedKeys := s.addedKeys ++ [event] }
  | .addMotion addr event =>
    { s with queue := s.queue.addMotionEvent addr event, addedMotions := s.addedMotions ++ [event] }
  | .getEvent => { s with got := s.queue.getEvent }
  | .finishEvent =>
    match s.got with
    | none => s
    | some (addr, event) =>
      match s.queue.finishEvent addr with
      | some q => s.finish q event
      | none => { s with threw := true }

/-- An element is stored where no other is, and the game finishes the event it was given. -/
def Allowed (s : InputSession) : InputStep → Prop
  | .addKey addr _ => addr ∉ s.queue.addrs
  | .addMotion addr _ => addr ∉ s.queue.addrs
  | .getEvent => True
  | .finishEvent => s.got ≠ none

/-- The event given is at the front of its deque; events finished and queued are those added. -/
structure Inv (s : InputSession) : Prop where
  distinct : s.queue.addrs.Nodup
  front : ∀ addr event, s.got = some (addr, event) → ∃ q, StoredQueue.Pops addr event s.queue q
  keys : s.doneKeys ++ s.queue.contents.keyEvents = s.addedKeys
  motions : s.doneMotions ++ s.queue.contents.motionEvents = s.addedMotions
  returned : s.threw = false

theorem inv_start : start.Inv := ⟨nodup_nil, nofun, rfl, rfl, rfl⟩

variable {s : InputSession} {addr : Nat}

open StoredQueue

theorem Inv.addKey (hs : s.Inv) (hnew : addr ∉ s.queue.addrs) (event : FakeKeyEvent) :
    (s.step (.addKey addr event)).Inv where
  distinct := by
    have hperm : (s.queue.addKeyEvent addr event).addrs.Perm (addr :: s.queue.addrs) := by
      simp only [addrs, addKeyEvent, map_append, map_cons,
        map_nil, append_assoc, singleton_append]
      exact perm_middle
    exact hperm.nodup_iff.mpr (nodup_cons.mpr ⟨hnew, hs.distinct⟩)
  front a e hgot := by
    obtain ⟨q, hpops⟩ := hs.front a e hgot
    exact ⟨_, hpops.addKeyEvent addr event⟩
  keys := by
    show s.doneKeys ++ (s.queue.addKeyEvent addr event).contents.keyEvents = s.addedKeys ++ [event]
    rw [contents_addKeyEvent, ← hs.keys, append_assoc]
    rfl
  motions := hs.motions
  returned := hs.returned

theorem Inv.addMotion (hs : s.Inv) (hnew : addr ∉ s.queue.addrs) (event : FakeMotionEvent) :
    (s.step (.addMotion addr event)).Inv where
  distinct := by
    have hperm : (s.queue.addMotionEvent addr event).addrs.Perm (addr :: s.queue.addrs) := by
      simp only [addrs, addMotionEvent, map_append, map_cons, map_nil]
      rw [← append_assoc]
      exact perm_append_singleton _ _
    exact hperm.nodup_iff.mpr (nodup_cons.mpr ⟨hnew, hs.distinct⟩)
  front a e hgot := by
    obtain ⟨q, hpops⟩ := hs.front a e hgot
    exact ⟨_, hpops.addMotionEvent addr event⟩
  keys := hs.keys
  motions := by
    show s.doneMotions ++ (s.queue.addMotionEvent addr event).contents.motionEvents =
      s.addedMotions ++ [event]
    rw [contents_addMotionEvent, ← hs.motions, append_assoc]
    rfl
  returned := hs.returned

theorem Inv.finish (hs : s.Inv) {event : FakeInputEvent} {q : StoredQueue}
    (hpops : Pops addr event s.queue q) : (s.finish q event).Inv := by
  have hdistinct := hs.distinct.sublist hpops.addrs_sublist
  -- the event moves from the front of its deque to the end of those finished
  have hkeys := hs.keys
  have hmotions := hs.motions
  generalize s.queue = queue at hpops hkeys hmotions
  cases hpops with
  | key event keys motions =>
    exact ⟨hdistinct, nofun, (append_assoc s.doneKeys [event] _).trans hkeys, hmotions, hs.returned⟩
  | motion event keys motions =>
    exact ⟨hdistinct, nofun, hkeys, (append_assoc s.doneMotions [event] _).trans hmotions,
      hs.returned⟩

theorem Inv.step (hs : s.Inv) {a : InputStep} (ha : s.Allowed a) : (s.step a).Inv := by
  cases a with
  | addKey addr event => exact hs.addKey ha event
  | addMotion addr event => exact hs.addMotion ha event
  | getEvent => exact { hs with front := fun addr event h => pops_of_getEvent h }
  | finishEvent =>
    obtain ⟨⟨addr, event⟩, hgot⟩ := Option.ne_none_iff_exists'.mp ha
    obtain ⟨q, hpops⟩ := hs.front addr event hgot
    rw [InputSession.step, hgot]
    dsimp only
    rw [hpops.finishEvent_eq hs.distinct]
    exact hs.finish hpops

end InputSession

open InputSession

/-- **Input events are delivered in order, each once**, in every interleaving. -/
theorem events_delivered_in_order (run : List InputStep)
    (hrun : Runs.Along step Allowed .start run) :
    let s := run.foldl step .start
    s.threw = false ∧
      (∀ addr event, s.got = some (addr, event) →
        ∃ q, s.queue.finishEvent addr = some q ∧ StoredQueue.Pops addr event s.queue q) ∧
      s.doneKeys ++ s.queue.contents.keyEvents = s.addedKeys ∧
      s.doneMotions ++ s.queue.contents.motionEvents = s.addedMotions := by
  intro s
  have hs : s.Inv :=
    Runs.invariant Inv (fun _ _ hs ha => hs.step ha) inv_start hrun
  refine ⟨hs.returned, fun addr event hgot => ?_, hs.keys, hs.motions⟩
  obtain ⟨q, hpops⟩ := hs.front addr event hgot
  exact ⟨q, hpops.finishEvent_eq hs.distinct, hpops⟩

def sampleMotion : FakeMotionEvent := ⟨0x1002, 0, 0, 0, 1, 2, none⟩

def sampleKey : FakeKeyEvent := ⟨0x101, 0, 0, 29⟩

/-- A key event is added while the game has a motion event, which is still the one it finishes. -/
theorem events_delivered_sample :
    let run := [InputStep.addMotion 8 sampleMotion, .getEvent, .addKey 16 sampleKey, .finishEvent,
      .addMotion 8 sampleMotion, .getEvent, .finishEvent]
    let s := run.foldl step .start
    s.threw = false ∧ s.doneKeys = [sampleKey] ∧ s.doneMotions = [sampleMotion] := by
  intro run s
  have hrun : Runs.Along step Allowed .start run :=
    ⟨nofun, trivial, show (16 : Nat) ∉ [8] by decide, nofun, show (8 : Nat) ∉ [16] by decide,
      trivial, nofun, trivial⟩
  obtain ⟨hret, _, _⟩ := events_delivered_in_order run hrun
  exact ⟨hret, rfl, rfl⟩

end McpeLauncherClient
