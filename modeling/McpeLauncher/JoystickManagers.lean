import McpeLauncher.GlfwJoystickManager
import McpeLauncher.LinuxGamepadJoystickManager

/-! # Gamepads, their ids and the windows

What both joystick managers keep up: the ids of the gamepads are distinct and as small as they can
be, and every window knows them, up to a condition that the manager does not see to. -/
namespace GameWindow
open Runs IdTable Gamepad LinuxGamepadJoystickManager Audience

/-- **The ids of connected gamepads are distinct, and a new one is the least not in use**: for GLFW
always, for linux-gamepad exactly as long as no id in use is skipped when a gamepad is connected. -/
theorem gamepad_ids_unique {W J : Type} [DecidableEq W] [DecidableEq J]
    {manager : GLFWJoystickManager W} (hreached : manager.Reached) {events : List (DeviceEvent J)}
    (hsent : Along GamepadManager.step GamepadManager.Sent {} events) :
    ((ids manager.connectedJoysticks).Nodup ∧
      ∀ glfw joystick action userId, joystick ∉ keys manager.connectedJoysticks →
        (joystick, userId) ∈
          (manager.glfwJoystickCallback glfw joystick action).connectedJoysticks →
        IsLeast {i | i ∉ ids manager.connectedJoysticks} userId) ∧
    (Along GamepadManager.step GamepadManager.Lawful {} events ↔
      Along Assigned.step Assigned.NoSkip {} events) := by
  have hnumbered := hreached.numbered
  refine ⟨⟨hnumbered.sound.ids_nodup, ?_⟩, GamepadManager.lawful_iff hsent⟩
  intro glfw joystick action userId hnew hmem
  rw [GLFWJoystickManager.callback_new hnew hmem]
  exact hnumbered.isLeast

theorem gamepad_ids_unique_replaced :
    let manager : GLFWJoystickManager Nat := {}
    let events : List (DeviceEvent Nat) := [.connected 0, .connected 1, .disconnected 0,
      .connected 2]
    (ids manager.connectedJoysticks).Nodup ∧
      Along GamepadManager.step GamepadManager.Lawful {} events := by
  intro manager events
  have hsent : Along GamepadManager.step GamepadManager.Sent {} events := by decide
  obtain ⟨⟨hids, _⟩, hlawful⟩ := gamepad_ids_unique (W := Nat) .start hsent
  exact ⟨hids, hlawful.mpr (by decide)⟩

/-- Of three gamepads the first is replaced; the next one gets the id of the second. -/
theorem gamepad_id_given_twice :
    let events : List (DeviceEvent Nat) := [.connected 0, .connected 1, .connected 2,
      .disconnected 0, .connected 3, .connected 4]
    Along GamepadManager.step GamepadManager.Sent {} events ∧
      (events.foldl GamepadManager.step {}).gamepads = [(4, 1), (3, 0), (2, 2), (1, 1)] := by
  decide

/-- **Every window knows the connected gamepads**: for GLFW if no window is added to none while
joysticks are registered, for linux-gamepad if no id is given twice. -/
theorem windows_know_gamepads {W J : Type} [DecidableEq W] [DecidableEq J]
    {glfwCalls : List (GlfwCall W)}
    (hglfw : Along GLFWJoystickManager.step GLFWJoystickManager.FirstWindowAlone {} glfwCalls)
    {linuxCalls : List (LinuxCall W J)}
    (hlinux : Along step LowIdFree {}
      linuxCalls) :
    (let m := glfwCalls.foldl GLFWJoystickManager.step {}
     ∀ w ∈ m.windows.members, known (m.windows.notices w) = m.connectedIds) ∧
    let m := linuxCalls.foldl step {}
    ∀ w ∈ m.windows.members, known (m.windows.notices w) = m.connectedIds := by
  constructor
  · exact (GLFWJoystickManager.told_of_along hglfw).informed.knows
  · exact (told_of_along hlinux).informed.knows

theorem windows_know_gamepads_two :
    (let m : GLFWJoystickManager Nat := [.addWindow (.gamepads [1]) 0,
        .callback (.gamepads [0, 1]) 0 .connected, .addWindow (.gamepads [0, 1]) 1,
        .callback (.gamepads [0]) 1 .disconnected].foldl GLFWJoystickManager.step {}
     ∀ w ∈ m.windows.members, known (m.windows.notices w) = m.connectedIds) ∧
    let m : LinuxGamepadJoystickManager Nat Nat := [.addWindow [1] 0, .onWindowFocused 0 true,
      .update [] [.connected 0] 0, .addWindow [] 1, .update [] [.disconnected 1] 0].foldl
        step {}
    ∀ w ∈ m.windows.members, known (m.windows.notices w) = m.connectedIds :=
  windows_know_gamepads (by decide) (by decide)

/-- GLFW: a window that replaces the only one. linux-gamepad: of two gamepads with one id the older
one goes. -/
theorem window_misses_gamepad :
    (let m : GLFWJoystickManager Nat := [.addWindow (.gamepads [0]) 0, .removeWindow 0,
        .addWindow (.gamepads [0]) 1].foldl GLFWJoystickManager.step {}
     1 ∈ m.windows.members ∧ known (m.windows.notices 1) = ∅ ∧ m.connectedIds = {0}) ∧
    let calls : List (LinuxCall Nat Nat) := [.addWindow [0, 1, 2] 0, .onWindowFocused 0 true,
      .update [] [.disconnected 0, .connected 3, .connected 4, .disconnected 1] 0]
    let m := calls.foldl step {}
    Along step Sent {} calls ∧
      0 ∈ m.windows.members ∧ known (m.windows.notices 0) = {0, 2} ∧
      m.connectedIds = {0, 1, 2} := by
  decide

end GameWindow
