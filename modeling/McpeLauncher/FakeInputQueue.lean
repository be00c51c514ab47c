import Mathlib

/-! # The input queue of the game

`FakeInputQueue` holds the key and motion events that the game asks for.  Coordinates and
axis values are rationals here. -/
namespace McpeLauncherClient

structure FakeKeyEvent where
  source : Int
  deviceId : Int
  action : Int
  keyCode : Int

/-- Where the source looks a gamepad up in `axisFunction`, this is the gamepad. Touches have none.
-/
structure FakeMotionEvent where
  source : Int
  deviceId : Int
  action : Int
  pointerId : Int
  x : ℚ
  y : ℚ
  axisFunction : Option Int

inductive FakeInputEvent where
  | key (event : FakeKeyEvent)
  | motion (event : FakeMotionEvent)

structure FakeInputQueue where
  keyEvents : List FakeKeyEvent := []
  motionEvents : List FakeMotionEvent := []

namespace FakeInputQueue

def hasEvents (q : FakeInputQueue) : Bool := !q.keyEvents.isEmpty || !q.motionEvents.isEmpty

def addKeyEvent (q : FakeInputQueue) (event : FakeKeyEvent) : FakeInputQueue :=
  { q with keyEvents := q.keyEvents ++ [event] }

def addMotionEvent (q : FakeInputQueue) (event : FakeMotionEvent) : FakeInputQueue :=
  { q with motionEvents := q.motionEvents ++ [event] }

def takeEvent (q : FakeInputQueue) : Option (FakeInputEvent × FakeInputQueue) :=
  match q.keyEvents, q.motionEvents with
  | event :: keyEvents, _ => some (.key event, { q with keyEvents })
  | [], event :: motionEvents => some (.motion event, { q with motionEvents })
  | [], [] => none

end FakeInputQueue

end McpeLauncherClient
