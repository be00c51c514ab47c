import Mathlib

/-! # Mappings of joysticks to gamepads

Where a button, axis or hat of a joystick goes. Axis values are rationals; a NaN is `none`. -/
namespace Gamepad

inductive GamepadButton where
  | a | b | x | y | lb | rb | back | start | guide | leftStick | rightStick
  | dpadUp | dpadRight | dpadDown | dpadLeft
  deriving DecidableEq

inductive GamepadAxis where
  | leftX | leftY | rightX | rightY | leftTrigger | rightTrigger
  deriving DecidableEq

/-- An axis of the joystick, or the half of it between `min` and `max`. -/
structure AxisFrom where
  id : Int
  min : ℚ
  max : ℚ

/-- An axis, with the values that an input at rest and one at its end are mapped to. -/
structure AxisTo where
  id : GamepadAxis
  min : ℚ
  max : ℚ

inductive MapFrom where
  | button (id : Int)
  | axis (d : AxisFrom)
  | hat (id : Int) (mask : BitVec 32)

inductive MapTo where
  | button (id : GamepadButton)
  | axis (d : AxisTo)

structure Mapping where
  mapFrom : MapFrom
  mapTo : MapTo

def isAxisActive (d : AxisFrom) (value : ℚ) : Bool :=
  if d.min < d.max then value ≥ (d.min + d.max) / 2 else value ≤ (d.min + d.max) / 2

/-- The position in the joystick's range, carried over to the gamepad's; outside it is a NaN, and so
is `0 / 0`. -/
def getAxisTransformedValue (a : AxisFrom) (d : AxisTo) (value : ℚ) : Option ℚ :=
  if value < min a.min a.max ∨ value > max a.min a.max then none
  else if a.max = a.min then none
  else
    let value := (value - a.min) / (a.max - a.min)
    some (d.min + value * (d.max - d.min))

end Gamepad
