import McpeLauncher.FakeInputQueue
import McpeLauncher.GamepadMapping

/-! # Gamepads on the way to the game

`WindowCallbacks` keeps the buttons and axes of every gamepad that its window reports. A button
goes into the input queue as a key event. -/
namespace McpeLauncherClient
open Function

/-- `GamepadButtonId`, without `UNKNOWN`, for which the callbacks throw. -/
abbrev GamepadButtonId := Gamepad.GamepadButton

abbrev GamepadAxisId := Gamepad.GamepadAxis

structure GamepadData where
  axis : GamepadAxisId → ℚ := fun _ => 0
  button : GamepadButtonId → Bool := fun _ => false

/-- `WindowCallbacks`, as far as gamepads go, with the queue that it refers to. -/
structure WindowCallbacks where
  gamepads : Int → Option GamepadData := fun _ => none
  needsQueueGamepadInput : Bool := true
  inputQueue : FakeInputQueue := {}

def isDpad : GamepadButtonId → Bool
  | .dpadUp | .dpadDown | .dpadLeft | .dpadRight => true
  | _ => false

/-- The `AMOTION_EVENT_AXIS_*` that a gamepad has. -/
inductive MotionAxis where
  | x | y | rx | ry | gas | brake | hatX | hatY
  deriving DecidableEq

def motionAxis : Int → Option MotionAxis
  | 0 => some .x
  | 1 => some .y
  | 12 => some .rx
  | 13 => some .ry
  | 22 => some .gas
  | 23 => some .brake
  | 15 => some .hatX
  | 16 => some .hatY
  | _ => none

/-- A pair of d-pad buttons as an axis. -/
def hatValue (negative positive : Bool) : ℚ := if negative then -1 else if positive then 1 else 0

def GamepadData.motionValue (gp : GamepadData) : MotionAxis → ℚ
  | .x => gp.axis .leftX
  | .y => gp.axis .leftY
  | .rx => gp.axis .rightX
  | .ry => gp.axis .rightY
  | .gas => gp.axis .leftTrigger
  | .brake => gp.axis .rightTrigger
  | .hatX => hatValue (gp.button .dpadLeft) (gp.button .dpadRight)
  | .hatY => hatValue (gp.button .dpadUp) (gp.button .dpadDown)

def mapGamepadToAndroidKey : GamepadButtonId → Int
  | .a => 96
  | .b => 97
  | .x => 99
  | .y => 100
  | .lb => 102
  | .rb => 103
  | .back => 109
  | .start => 108
  | .guide => 110
  | .leftStick => 106
  | .rightStick => 107
  | .dpadUp => 19
  | .dpadRight => 22
  | .dpadDown => 20
  | .dpadLeft => 21

def sourceGamepad : Int := 0x401

def actionMove : Int := 2

def keyAction (pressed : Bool) : Int := if pressed then 0 else 1

namespace WindowCallbacks

/-- What the `axisFunction` of an event of the gamepad gives now. -/
def axisFunction (w : WindowCallbacks) (gamepad : Int) (axis : Int) : ℚ :=
  match w.gamepads gamepad with
  | none => 0
  | some gp => match motionAxis axis with
    | none => 0
    | some axis => gp.motionValue axis

def markRequeueGamepadInput (w : WindowCallbacks) : WindowCallbacks :=
  { w with needsQueueGamepadInput := true }

def queueGamepadAxisInputIfNeeded (w : WindowCallbacks) (gamepad : Int) : WindowCallbacks :=
  if !w.needsQueueGamepadInput then w
  else
    { w with
      inputQueue := w.inputQueue.addMotionEvent
        ⟨sourceGamepad, gamepad, actionMove, 0, 0, 0, some gamepad⟩
      needsQueueGamepadInput := false }

/-- `onGamepadState`; a gamepad that is there already keeps its data. -/
def onGamepadState (w : WindowCallbacks) (gamepad : Int) (connected : Bool) : WindowCallbacks :=
  if connected then
    { w with
      gamepads := Function.update w.gamepads gamepad (some ((w.gamepads gamepad).getD {})) }
  else { w with gamepads := Function.update w.gamepads gamepad none }

def onGamepadButton (w : WindowCallbacks) (gamepad : Int) (btn : GamepadButtonId)
    (pressed : Bool) : WindowCallbacks :=
  match w.gamepads gamepad with
  | none => w
  | some gp =>
    if gp.button btn = pressed then w
    else
      let gp := { gp with button := Function.update gp.button btn pressed }
      let w := { w with gamepads := Function.update w.gamepads gamepad (some gp) }
      if isDpad btn then w.queueGamepadAxisInputIfNeeded gamepad
      else
        { w with
          inputQueue := w.inputQueue.addKeyEvent
            ⟨sourceGamepad, gamepad, keyAction pressed, mapGamepadToAndroidKey btn⟩ }

def onGamepadAxis (w : WindowCallbacks) (gamepad : Int) (ax : GamepadAxisId) (value : ℚ) :
    WindowCallbacks :=
  match w.gamepads gamepad with
  | none => w
  | some gp =>
    let gp := { gp with axis := Function.update gp.axis ax value }
    let w := { w with gamepads := Function.update w.gamepads gamepad (some gp) }
    w.queueGamepadAxisInputIfNeeded gamepad

end WindowCallbacks

/-- What the window reports of its gamepads. -/
inductive GamepadCall where
  | state (gamepad : Int) (connected : Bool)
  | button (gamepad : Int) (btn : GamepadButtonId) (pressed : Bool)
  | axis (gamepad : Int) (ax : GamepadAxisId) (value : ℚ)

namespace WindowCallbacks

def call (w : WindowCallbacks) : GamepadCall → WindowCallbacks
  | .state gamepad connected => w.onGamepadState gamepad connected
  | .button gamepad btn pressed => w.onGamepadButton gamepad btn pressed
  | .axis gamepad ax value => w.onGamepadAxis gamepad ax value

end WindowCallbacks

/-- The gamepad whose axes or d-pad a call is about. -/
def GamepadCall.moves : GamepadCall → Option Int
  | .state _ _ => none
  | .button gamepad btn _ => if isDpad btn then some gamepad else none
  | .axis gamepad _ _ => some gamepad

namespace WindowCallbacks

/-- The connected gamepad whose axes or d-pad a call changes. -/
def moved (w : WindowCallbacks) : GamepadCall → Option Int
  | .state _ _ => none
  | .button gamepad btn pressed => match w.gamepads gamepad with
    | none => none
    | some gp => if gp.button btn ≠ pressed ∧ isDpad btn then some gamepad else none
  | .axis gamepad _ _ => (w.gamepads gamepad).map fun _ => gamepad

/-- The gamepads that have changed since they were connected. -/
def changes (w : WindowCallbacks) (changed : List Int) : GamepadCall → List Int
  | .state gamepad connected =>
    if (w.gamepads gamepad).isSome = connected then changed else changed.filter (· ≠ gamepad)
  | c => (w.moved c).toList ++ changed

/-- A motion event of the gamepad is in the queue. -/
def HasMotionOf (w : WindowCallbacks) (gamepad : Int) : Prop :=
  ∃ e ∈ w.inputQueue.motionEvents, e.axisFunction = some gamepad

/-! ## What a call does -/

variable {btn : GamepadButtonId} {c : GamepadCall} {gp : GamepadData} {gamepad : Int}
  {w : WindowCallbacks}

theorem axisFunction_congr {w' : WindowCallbacks} (h : w'.gamepads gamepad = w.gamepads gamepad) :
    w'.axisFunction gamepad = w.axisFunction gamepad := by
  funext axis
  rw [axisFunction, axisFunction, h]

theorem queueGamepadAxisInputIfNeeded_has
    (h : w.needsQueueGamepadInput = false → w.HasMotionOf gamepad) :
    (w.queueGamepadAxisInputIfNeeded gamepad).HasMotionOf gamepad := by
  rw [queueGamepadAxisInputIfNeeded]
  rcases hneeds : w.needsQueueGamepadInput with _ | _
  · exact h hneeds
  · exact ⟨_, List.mem_append_right _ (List.mem_singleton_self _), rfl⟩

theorem queueGamepadAxisInputIfNeeded_keeps {other : Int} (h : w.HasMotionOf other) :
    (w.queueGamepadAxisInputIfNeeded gamepad).HasMotionOf other := by
  obtain ⟨e, he, hother⟩ := h
  rw [queueGamepadAxisInputIfNeeded]
  split
  · exact ⟨e, he, hother⟩
  · exact ⟨e, List.mem_append_left _ he, hother⟩

@[simp]
theorem gamepads_queueGamepadAxisInputIfNeeded (w : WindowCallbacks) (gamepad : Int) :
    (w.queueGamepadAxisInputIfNeeded gamepad).gamepads = w.gamepads := by
  rw [queueGamepadAxisInputIfNeeded]
  split <;> rfl

theorem moves_of_moved (h : w.moved c = some gamepad) : c.moves = some gamepad := by
  cases c with
  | state g connected => exact absurd h (by simp [moved])
  | button g btn pressed =>
    rw [moved] at h
    split at h
    · exact absurd h (by simp)
    · rw [Option.ite_none_right_eq_some] at h
      rw [GamepadCall.moves, if_pos h.1.2, h.2]
  | axis g ax value =>
    obtain ⟨_, _, rfl⟩ := Option.map_eq_some_iff.mp h
    rfl

theorem call_of_moved (h : w.moved c = some gamepad) :
    ∃ gp, w.call c = { w with
      gamepads := update w.gamepads gamepad (some gp) }.queueGamepadAxisInputIfNeeded
        gamepad := by
  cases c with
  | state g connected => exact absurd h (by simp [moved])
  | button g btn pressed =>
    rw [moved] at h
    rw [call, onGamepadButton]
    rcases hgp : w.gamepads g with _ | gp
    · simp [hgp] at h
    · simp only [hgp, Option.ite_none_right_eq_some, Option.some.injEq] at h
      obtain ⟨⟨hne, hdpad⟩, rfl⟩ := h
      refine ⟨{ gp with button := update gp.button btn pressed }, ?_⟩
      simp only [if_neg hne, if_pos hdpad]
  | axis g ax value =>
    rw [call, onGamepadAxis]
    obtain ⟨gp, hgp, rfl⟩ := Option.map_eq_some_iff.mp h
    exact ⟨_, by rw [hgp]⟩

theorem motionValue_button (hbtn : isDpad btn = false) (pressed : Bool) (axis : MotionAxis) :
    { gp with button := update gp.button btn pressed }.motionValue axis =
      gp.motionValue axis := by
  cases btn <;> first | exact absurd hbtn (by decide) | (cases axis <;> rfl)

theorem axisFunction_button (hgp : w.gamepads gamepad = some gp) (hbtn : isDpad btn = false)
    (pressed : Bool) (q : FakeInputQueue) (other : Int) :
    axisFunction { w with
      gamepads := update w.gamepads gamepad
        (some { gp with button := update gp.button btn pressed })
      inputQueue := q } other = w.axisFunction other := by
  by_cases hother : other = gamepad
  · subst hother
    funext axis
    simp only [axisFunction, update_self, hgp, motionValue_button hbtn]
  · apply axisFunction_congr
    exact update_of_ne hother _ _

theorem onGamepadState_same {connected : Bool} (h : (w.gamepads gamepad).isSome = connected) :
    w.onGamepadState gamepad connected = w := by
  rw [onGamepadState]
  rcases hgp : w.gamepads gamepad with _ | gp
  · obtain rfl : connected = false := by simpa [hgp] using h.symm
    rw [if_neg Bool.false_ne_true, ← hgp, update_eq_self]
  · obtain rfl : connected = true := by simpa [hgp] using h.symm
    rw [if_pos rfl, Option.getD_some, ← hgp, update_eq_self]

/-- A call that changes no gamepad queues no motion event, and leaves the axes of those
that have changed as they are. -/
theorem call_of_not_moved (h : w.moved c = none) :
    (w.call c).inputQueue.motionEvents = w.inputQueue.motionEvents ∧
    (w.call c).needsQueueGamepadInput = w.needsQueueGamepadInput ∧
    ∀ changed, ∀ g ∈ w.changes changed c,
      g ∈ changed ∧ (w.call c).axisFunction g = w.axisFunction g := by
  cases c with
  | state gamepad connected =>
    rw [call]
    by_cases hsame : (w.gamepads gamepad).isSome = connected
    · rw [onGamepadState_same hsame]
      refine ⟨rfl, rfl, ?_⟩
      intro changed g hg
      rw [changes, if_pos hsame] at hg
      exact ⟨hg, rfl⟩
    · refine ⟨by rw [onGamepadState]; split <;> rfl, by rw [onGamepadState]; split <;> rfl, ?_⟩
      intro changed g hg
      rw [changes, if_neg hsame] at hg
      obtain ⟨hg, hne⟩ := List.mem_filter.mp hg
      refine ⟨hg, axisFunction_congr ?_⟩
      rw [onGamepadState]
      split <;> exact update_of_ne (by simpa using hne) _ _
  | button gamepad btn pressed =>
    simp only [changes, h, Option.toList_none, List.nil_append]
    rw [call, onGamepadButton]
    rcases hgp : w.gamepads gamepad with _ | gp
    · exact ⟨rfl, rfl, fun _ _ hg => ⟨hg, rfl⟩⟩
    · by_cases hsame : gp.button btn = pressed
      · dsimp only
        rw [if_pos hsame]
        exact ⟨rfl, rfl, fun _ _ hg => ⟨hg, rfl⟩⟩
      · have hdpad : isDpad btn = false := by simpa [moved, hgp, hsame] using h
        dsimp only
        rw [if_neg hsame, if_neg (by rw [hdpad]; exact Bool.false_ne_true)]
        exact ⟨rfl, rfl, fun _ g hg => ⟨hg, axisFunction_button hgp hdpad pressed _ g⟩⟩
  | axis gamepad ax value =>
    have hgp : w.gamepads gamepad = none := Option.map_eq_none_iff.mp h
    simp only [changes, h, Option.toList_none, List.nil_append]
    rw [call, onGamepadAxis, hgp]
    exact ⟨rfl, rfl, fun _ _ hg => ⟨hg, rfl⟩⟩

end WindowCallbacks

end McpeLauncherClient
