import McpeLauncher.Audience
import McpeLauncher.GamepadManager

/-! # The joystick manager of the windows without GLFW

`LinuxGamepadJoystickManager` passes gamepads on to its windows. Devices are enumerated when it is
first used; afterwards the focused window polls for them. -/
namespace GameWindow
open Runs IdTable Gamepad

/-- A gamepad is its joystick and its index; the windows come with the calls of their
`onGamepadState`. -/
structure LinuxGamepadJoystickManager (W J : Type) where
  initialized : Bool := false
  windows : Audience W Nat := {}
  focusedWindow : Option W := none
  gamepads : List (J × Nat) := []
  gamepadManager : GamepadManager J := {}

namespace LinuxGamepadJoystickManager
variable {W J : Type} [DecidableEq W] [DecidableEq J]

/-- `onGamepadState`.  A mapping that is missing changes no id. -/
def onGamepadState (m : LinuxGamepadJoystickManager W J) (gp : J × Nat) (connected : Bool) :
    LinuxGamepadJoystickManager W J :=
  { m with
    gamepads := if connected then gp :: m.gamepads else m.gamepads.filter (· ≠ gp)
    windows := m.windows.tellAll (gp.2, connected) }

/-- The gamepad manager handles a device and calls back with its gamepad. -/
def onDevice (m : LinuxGamepadJoystickManager W J) :
    DeviceEvent J → LinuxGamepadJoystickManager W J
  | .connected js =>
    let (gpi, gamepadManager) := m.gamepadManager.onJoystickConnected js
    { m with gamepadManager }.onGamepadState (js, gpi) true
  | .disconnected js =>
    match m.gamepadManager.onJoystickDisconnected js with
    | (none, gamepadManager) => { m with gamepadManager }
    | (some gpi, gamepadManager) => { m with gamepadManager }.onGamepadState (js, gpi) false

/-- `initialize`, where `devices` are those that the enumeration finds. -/
def initializeOnce (m : LinuxGamepadJoystickManager W J) (devices : List J) :
    LinuxGamepadJoystickManager W J :=
  if m.initialized then m
  else (devices.map DeviceEvent.connected).foldl onDevice { m with initialized := true }

/-- `update`; `polled` is what has happened to devices since the last poll. -/
def update (m : LinuxGamepadJoystickManager W J) (devices : List J) (polled : List (DeviceEvent J))
    (window : W) : LinuxGamepadJoystickManager W J :=
  if m.focusedWindow = some window then polled.foldl onDevice (m.initializeOnce devices) else m

/-- `addWindow`; the first window only warns of missing mappings besides. -/
def addWindow (m : LinuxGamepadJoystickManager W J) (devices : List J) (window : W) :
    LinuxGamepadJoystickManager W J :=
  let m := m.initializeOnce devices
  { m with
    windows := (m.windows.join window).tell window (m.gamepads.map fun gp => (gp.2, true)) }

/-- `removeWindow` is called by the destructor of the window. -/
def removeWindow (m : LinuxGamepadJoystickManager W J) (window : W) :
    LinuxGamepadJoystickManager W J :=
  { m with windows := m.windows.leave window }

def onWindowFocused (m : LinuxGamepadJoystickManager W J) (window : W) (focused : Bool) :
    LinuxGamepadJoystickManager W J :=
  if focused then { m with focusedWindow := some window }
  else if m.focusedWindow = some window then { m with focusedWindow := none }
  else m

end LinuxGamepadJoystickManager

/-- What the windows call, with what the devices have done by then. -/
inductive LinuxCall (W J : Type) where
  | update (devices : List J) (polled : List (DeviceEvent J)) (window : W)
  | addWindow (devices : List J) (window : W)
  | removeWindow (window : W)
  | onWindowFocused (window : W) (focused : Bool)

namespace LinuxGamepadJoystickManager
variable {W J : Type} [DecidableEq W] [DecidableEq J]

def step (m : LinuxGamepadJoystickManager W J) :
    LinuxCall W J → LinuxGamepadJoystickManager W J
  | .update devices polled window => m.update devices polled window
  | .addWindow devices window => m.addWindow devices window
  | .removeWindow window => m.removeWindow window
  | .onWindowFocused window focused => m.onWindowFocused window focused

def enumerated (m : LinuxGamepadJoystickManager W J) (devices : List J) : List (DeviceEvent J) :=
  if m.initialized then [] else devices.map DeviceEvent.connected

def handled (m : LinuxGamepadJoystickManager W J) : LinuxCall W J → List (DeviceEvent J)
  | .update devices polled window =>
    if m.focusedWindow = some window then m.enumerated devices ++ polled else []
  | .addWindow devices _ => m.enumerated devices
  | _ => []

/-- What is handled is sent by a `JoystickManager`. -/
def Sent (m : LinuxGamepadJoystickManager W J) (c : LinuxCall W J) : Prop :=
  Along GamepadManager.step GamepadManager.Sent m.gamepadManager (m.handled c)

/-- Besides, no id is given twice. -/
def LowIdFree (m : LinuxGamepadJoystickManager W J) (c : LinuxCall W J) : Prop :=
  Along GamepadManager.step (fun m e => m.Sent e ∧ m.LowIdFree e) m.gamepadManager (m.handled c)

instance (m : LinuxGamepadJoystickManager W J) : DecidablePred m.Sent :=
  fun c => inferInstanceAs (Decidable (Along _ _ _ (m.handled c)))

instance (m : LinuxGamepadJoystickManager W J) : DecidablePred m.LowIdFree :=
  fun c => inferInstanceAs (Decidable (Along _ _ _ (m.handled c)))

theorem gamepadManager_onDevice (m : LinuxGamepadJoystickManager W J) (e : DeviceEvent J) :
    (m.onDevice e).gamepadManager = m.gamepadManager.step e := by
  cases e with
  | connected js => rfl
  | disconnected js =>
    rw [onDevice]
    split <;> simp_all [GamepadManager.step, onGamepadState]

theorem initializeOnce_eq (m : LinuxGamepadJoystickManager W J) (devices : List J) :
    m.initializeOnce devices =
      (m.enumerated devices).foldl onDevice { m with initialized := true } := by
  rw [initializeOnce, enumerated]
  by_cases hinit : m.initialized
  · cases m
    simp_all
  · rw [if_neg hinit, if_neg hinit]

def connectedIds (m : LinuxGamepadJoystickManager W J) : Finset Nat := (ids m.gamepads).toFinset

/-- The windows know the gamepads. -/
structure Told (m : LinuxGamepadJoystickManager W J) : Prop where
  gamepads : m.gamepads = m.gamepadManager.gamepads
  inv : m.gamepadManager.Inv
  informed : m.windows.Informed m.connectedIds

namespace Told
variable {m : LinuxGamepadJoystickManager W J}

omit [DecidableEq W] [DecidableEq J] in
theorem start : Told ({} : LinuxGamepadJoystickManager W J) :=
  ⟨rfl, GamepadManager.Inv.start, Audience.Informed.nobody⟩

omit [DecidableEq W] [DecidableEq J] in
theorem initialized (h : m.Told) : { m with initialized := true }.Told :=
  ⟨h.gamepads, h.inv, h.informed⟩

theorem onDevice (h : m.Told) {e : DeviceEvent J} (hsent : m.gamepadManager.Sent e)
    (hlow : m.gamepadManager.LowIdFree e) : (m.onDevice e).Told := by
  have hinv : (m.onDevice e).gamepadManager.Inv := by
    rw [gamepadManager_onDevice]
    exact h.inv.step hsent hlow
  cases e with
  | connected js =>
    have heq := GamepadManager.onJoystickConnected_eq h.inv.taken hsent
    have hgamepads : (m.onDevice (.connected js)).gamepads =
        (js, m.gamepadManager.takenGamepadLowId) :: m.gamepads := by
      rw [LinuxGamepadJoystickManager.onDevice, heq]
      rfl
    refine ⟨?_, hinv, ?_⟩
    · rw [hgamepads, gamepadManager_onDevice, GamepadManager.step, heq, h.gamepads]
    · rw [connectedIds, hgamepads, LinuxGamepadJoystickManager.onDevice, heq]
      simp only [List.map_cons, List.toFinset_cons]
      exact h.informed.tellAll_here _
  | disconnected js =>
    rcases hlookup : m.gamepadManager.gamepads.lookup js with _ | gpi
    · exact absurd hsent (lookup_eq_none.mp hlookup)
    · have heq := GamepadManager.onJoystickDisconnected_eq hlookup
      have hmem : (js, gpi) ∈ m.gamepads := h.gamepads ▸ mem_of_lookup hlookup
      have hsound : Sound m.gamepads := h.gamepads ▸ h.inv.sound
      have hgamepads : (m.onDevice (.disconnected js)).gamepads = without m.gamepads js := by
        rw [LinuxGamepadJoystickManager.onDevice, heq, ← hsound.filter_ne_eq_without hmem]
        rfl
      refine ⟨?_, hinv, ?_⟩
      · rw [hgamepads, gamepadManager_onDevice, GamepadManager.step, heq, h.gamepads]
      · rw [connectedIds, hgamepads, hsound.toFinset_ids_without hmem,
          LinuxGamepadJoystickManager.onDevice, heq]
        exact h.informed.tellAll_gone gpi

theorem onDevices (h : m.Told) {events : List (DeviceEvent J)}
    (hevents : Along GamepadManager.step (fun m e => m.Sent e ∧ m.LowIdFree e) m.gamepadManager
      events) : (events.foldl LinuxGamepadJoystickManager.onDevice m).Told := by
  induction events generalizing m with
  | nil => exact h
  | cons e events ih =>
    obtain ⟨⟨hsent, hlow⟩, hrest⟩ := hevents
    apply ih (h.onDevice hsent hlow)
    rw [gamepadManager_onDevice]
    exact hrest

theorem addWindow (h : m.Told) (devices : List J) (window : W)
    (hlow : m.LowIdFree (.addWindow devices window)) : (m.addWindow devices window).Told := by
  have hinit : (m.initializeOnce devices).Told := by
    rw [initializeOnce_eq]
    exact h.initialized.onDevices hlow
  refine ⟨hinit.gamepads, hinit.inv, ?_⟩
  have hids : (ids (m.initializeOnce devices).gamepads).toFinset =
      (m.initializeOnce devices).connectedIds := rfl
  have htold := hinit.informed.join_tell window hids
  rw [List.map_map] at htold
  exact htold

theorem update (h : m.Told) (devices : List J) (polled : List (DeviceEvent J)) (window : W)
    (hlow : m.LowIdFree (.update devices polled window)) :
    (m.update devices polled window).Told := by
  rw [LinuxGamepadJoystickManager.update]
  by_cases hfocus : m.focusedWindow = some window
  · rw [if_pos hfocus, initializeOnce_eq, ← List.foldl_append]
    simp only [LowIdFree, handled, if_pos hfocus] at hlow
    exact h.initialized.onDevices hlow
  · rw [if_neg hfocus]
    exact h

theorem step (h : m.Told) (c : LinuxCall W J) (hlow : m.LowIdFree c) : (m.step c).Told := by
  cases c with
  | update devices polled window => exact h.update devices polled window hlow
  | addWindow devices window => exact h.addWindow devices window hlow
  | removeWindow window => exact ⟨h.gamepads, h.inv, h.informed.leave window⟩
  | onWindowFocused window focused =>
    rw [LinuxGamepadJoystickManager.step, onWindowFocused]
    split
    · exact ⟨h.gamepads, h.inv, h.informed⟩
    · split
      · exact ⟨h.gamepads, h.inv, h.informed⟩
      · exact h

end Told

/-- The windows know the gamepads after every run in which no id is given twice. -/
theorem told_of_along {calls : List (LinuxCall W J)}
    (h : Along step LowIdFree ({} : LinuxGamepadJoystickManager W J) calls) :
    (calls.foldl step ({} : LinuxGamepadJoystickManager W J)).Told :=
  invariant Told (fun _ c hm hc => hm.step c hc) Told.start h

end LinuxGamepadJoystickManager

end GameWindow
