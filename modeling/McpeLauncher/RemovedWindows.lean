import McpeLauncher.GlfwJoystickManager
import McpeLauncher.LinuxGamepadJoystickManager
import McpeLauncher.GamepadViews

/-! # Gamepad events for windows that are gone

Both joystick managers report buttons and axes to the window in a field which `removeWindow` does
not look at: a window that had the focus when it was removed is still reported to. -/
namespace GameWindow
open Runs IdTable Gamepad List

/-! ## The focus -/

inductive WindowEvent (W : Type) where
  | added (window : W)
  | removed (window : W)
  | focused (window : W) (focused : Bool)

/-- The window with the focus, and the windows that were removed and not added since. -/
structure Focus (W : Type) where
  focusedWindow : Option W := none
  gone : List W := []

namespace Focus
variable {W : Type} [DecidableEq W]

def after (f : Focus W) : Option (WindowEvent W) → Focus W
  | none => f
  | some (.added window) => { f with gone := f.gone.filter (· ≠ window) }
  | some (.removed window) => { f with gone := window :: f.gone }
  | some (.focused window true) => { f with focusedWindow := some window }
  | some (.focused window false) =>
    { f with focusedWindow := if f.focusedWindow = some window then none else f.focusedWindow }

omit [DecidableEq W] in
/-- The focus is with no window that is gone. -/
def Clear (f : Focus W) : Prop := ∀ window ∈ f.gone, f.focusedWindow ≠ some window

omit [DecidableEq W] in
/-- No window is removed while it has the focus, or gets it while it is gone. -/
def Keeps (f : Focus W) : Option (WindowEvent W) → Prop
  | some (.removed window) => f.focusedWindow ≠ some window
  | some (.focused window true) => window ∉ f.gone
  | _ => True

instance (f : Focus W) : DecidablePred f.Keeps
  | some (.removed window) => inferInstanceAs (Decidable (f.focusedWindow ≠ some window))
  | some (.focused window true) => inferInstanceAs (Decidable (window ∉ f.gone))
  | none | some (.added _) | some (.focused _ false) => inferInstanceAs (Decidable True)

theorem Clear.after {f : Focus W} (h : f.Clear) {e : Option (WindowEvent W)} (he : f.Keeps e) :
    (f.after e).Clear := by
  rcases e with _ | ⟨window⟩ | ⟨window⟩ | ⟨window, _ | _⟩
  · exact h
  · intro w hw
    exact h w (mem_of_mem_filter hw)
  · intro w hw
    rcases mem_cons.mp hw with rfl | hw
    · exact he
    · exact h w hw
  · intro w hw hfocus
    simp only [Focus.after] at hfocus
    split at hfocus
    · cases hfocus
    · exact h w hw hfocus
  · intro w hw hfocus
    cases hfocus
    exact he hw

/-- A machine that drives the focus keeps it clear. -/
theorem clear_of_along {S C : Type} {step : S → C → S} {focus : S → Focus W}
    {event : C → Option (WindowEvent W)}
    (hdrives : ∀ s c, focus (step s c) = (focus s).after (event c)) {s : S}
    (hs : (focus s).Clear) {calls : List C}
    (h : Along step (fun s c => (focus s).Keeps (event c)) s calls) :
    (focus (calls.foldl step s)).Clear := by
  refine invariant (fun s => (focus s).Clear) (fun s c hclear hc => ?_) hs h
  rw [hdrives]
  exact hclear.after hc

end Focus

/-! ## GLFW -/

inductive GamepadButtonId where
  | a | b | x | y | lb | rb | back | start | guide | leftStick | rightStick
  | dpadUp | dpadRight | dpadDown | dpadLeft
  | unknown
  deriving DecidableEq

inductive GamepadAxisId where
  | leftX | leftY | rightX | rightY | leftTrigger | rightTrigger
  | unknown
  deriving DecidableEq

/-- A call of `onGamepadButton` or `onGamepadAxis` of a window. -/
inductive GamepadEvent (F : Type) where
  | button (gamepad : Nat) (button : GamepadButtonId) (pressed : Bool)
  | axis (gamepad : Nat) (axis : GamepadAxisId) (value : F)
  deriving DecidableEq

structure GamepadState (F : Type) where
  buttons : Nat → UInt8
  axes : Nat → F

def mapButtonId (id : Nat) : GamepadButtonId :=
  [.a, .b, .x, .y, .lb, .rb, .back, .start, .guide, .leftStick, .rightStick, .dpadUp, .dpadRight,
    .dpadDown, .dpadLeft].getD id .unknown

def mapAxisId (id : Nat) : GamepadAxisId :=
  [.leftX, .leftY, .rightX, .rightY, .leftTrigger, .rightTrigger].getD id .unknown

def gamepadButtons : Nat := 15

def gamepadAxes : Nat := 6

/-- What `update` calls for one joystick: the buttons that changed, and all axes. -/
def joystickEvents {F : Type} (userId : Nat) (oldButtonStates : Nat → UInt8)
    (state : GamepadState F) : List (GamepadEvent F) :=
  ((List.range gamepadButtons).filter fun i => state.buttons i ≠ oldButtonStates i).map
      (fun i => .button userId (mapButtonId i) (state.buttons i ≠ 0)) ++
    (List.range gamepadAxes).map fun i => .axis userId (mapAxisId i) (state.axes i)

/-- The manager with the `oldButtonStates` of its joysticks, and the windows that are gone. -/
structure GlfwSession (W : Type) where
  manager : GLFWJoystickManager W := {}
  oldButtonStates : Nat → Nat → UInt8 := fun _ _ => 0
  gone : List W := []

/-- A callback, with what the memory of new joysticks holds, or an `update`, with the states of the
joysticks. -/
inductive GlfwInput (W F : Type) where
  | call (c : GlfwCall W) (memory : Nat → Nat → UInt8)
  | update (window : W) (states : Nat → GamepadState F)
  | updateFocused (states : Nat → GamepadState F)

def GlfwCall.windowEvent {W : Type} : GlfwCall W → Option (WindowEvent W)
  | .callback _ _ _ => none
  | .addWindow _ window => some (.added window)
  | .removeWindow window => some (.removed window)
  | .onWindowFocused window focused => some (.focused window focused)

def GlfwInput.windowEvent {W F : Type} : GlfwInput W F → Option (WindowEvent W)
  | .call c _ => c.windowEvent
  | _ => none

namespace GlfwSession
variable {W F : Type}

def focus (s : GlfwSession W) : Focus W := ⟨s.manager.focusedWindow, s.gone⟩

/-- The `memcpy` at the end of each round of `update`. -/
def remember (s : GlfwSession W) (states : Nat → GamepadState F) : GlfwSession W :=
  { s with
    oldButtonStates := fun j =>
      if j ∈ keys s.manager.connectedJoysticks then (states j).buttons else s.oldButtonStates j }

def events (s : GlfwSession W) (states : Nat → GamepadState F) : List (GamepadEvent F) :=
  s.manager.connectedJoysticks.flatMap fun j =>
    joystickEvents j.2 (s.oldButtonStates j.1) (states j.1)

variable [DecidableEq W]

def step (s : GlfwSession W) : GlfwInput W F → GlfwSession W
  | .call c memory =>
    { manager := s.manager.step c
      oldButtonStates := fun j =>
        if j ∈ keys s.manager.connectedJoysticks then s.oldButtonStates j else memory j
      gone := (s.focus.after c.windowEvent).gone }
  | .update window states => if s.manager.focusedWindow = some window then s.remember states else s
  | .updateFocused states => s.remember states

/-- The events that are delivered, with the window; `none` is the null pointer. -/
def deliveries (s : GlfwSession W) : GlfwInput W F → List (Option W × GamepadEvent F)
  | .call _ _ => []
  | .update window states =>
    if s.manager.focusedWindow = some window then (s.events states).map (some window, ·) else []
  | .updateFocused states => (s.events states).map (s.manager.focusedWindow, ·)

theorem delivered_to_focused {s : GlfwSession W} {c : GlfwInput W F}
    {d : Option W × GamepadEvent F} (hd : d ∈ s.deliveries c) :
    d.1 = s.manager.focusedWindow := by
  cases c with
  | call c memory => cases hd
  | update window states =>
    rw [deliveries] at hd
    split at hd
    · next hfocus =>
      obtain ⟨e, -, rfl⟩ := mem_map.mp hd
      exact hfocus.symm
    · cases hd
  | updateFocused states =>
    obtain ⟨e, -, rfl⟩ := mem_map.mp hd
    rfl

end GlfwSession

namespace GLFWJoystickManager
variable {W : Type} [DecidableEq W]

theorem focusedWindow_callback (m : GLFWJoystickManager W) (glfw : Glfw) (joystick : Nat)
    (action : JoystickAction) :
    (m.glfwJoystickCallback glfw joystick action).focusedWindow = m.focusedWindow := by
  rcases m.callback_cases glfw joystick action with heq | ⟨-, heq⟩ | ⟨_, -, heq⟩
  · rw [heq]
  · rw [heq, register]
  · rw [heq, unregister]

theorem focusedWindow_addWindow (m : GLFWJoystickManager W) (glfw : Glfw) (window : W) :
    (m.addWindow glfw window).focusedWindow = m.focusedWindow := by
  rw [addWindow]
  split
  · have hinsert : (m.insertWindow window).focusedWindow = m.focusedWindow := rfl
    refine askJoysticks_induction (fun n => n.focusedWindow = m.focusedWindow) glfw ?_ hinsert _
    intro n joystick action hn
    rw [focusedWindow_callback, hn]
  · rfl

theorem focusedWindow_step (m : GLFWJoystickManager W) (c : GlfwCall W) (gone : List W) :
    (m.step c).focusedWindow =
      ((⟨m.focusedWindow, gone⟩ : Focus W).after c.windowEvent).focusedWindow := by
  cases c with
  | callback glfw joystick action => exact m.focusedWindow_callback glfw joystick action
  | addWindow glfw window => exact m.focusedWindow_addWindow glfw window
  | removeWindow window => rfl
  | onWindowFocused window focused =>
    rw [step, onWindowFocused]
    cases focused with
    | true => rfl
    | false =>
      rw [if_neg Bool.false_ne_true]
      simp only [GlfwCall.windowEvent, Focus.after]
      split <;> rfl

end GLFWJoystickManager

theorem GlfwSession.focus_step {W F : Type} [DecidableEq W] (s : GlfwSession W)
    (c : GlfwInput W F) : (s.step c).focus = s.focus.after c.windowEvent := by
  cases c with
  | call c memory =>
    rw [focus, step, s.manager.focusedWindow_step c s.gone]
    rfl
  | update window states =>
    rw [step]
    split <;> rfl
  | updateFocused states => rfl

/-! ## linux-gamepad -/

/-- What a poll finds: a device that came or went, or a report of a gamepad. -/
inductive Polled (J : Type) where
  | device (e : DeviceEvent J)
  | report (js : J) (r : Report)

def Polled.device? {J : Type} : Polled J → Option (DeviceEvent J)
  | .device e => some e
  | .report _ _ => none

/-- The manager, and the windows that are gone. -/
structure LinuxSession (W J : Type) where
  manager : LinuxGamepadJoystickManager W J := {}
  gone : List W := []

/-- The calls of the windows; what a poll finds now has the reports in it. -/
inductive LinuxInput (W J : Type) where
  | update (devices : List J) (polled : List (Polled J)) (window : W)
  | addWindow (devices : List J) (window : W)
  | removeWindow (window : W)
  | onWindowFocused (window : W) (focused : Bool)

namespace LinuxInput
variable {W J : Type}

def call : LinuxInput W J → LinuxCall W J
  | .update devices polled window => .update devices (polled.filterMap Polled.device?) window
  | .addWindow devices window => .addWindow devices window
  | .removeWindow window => .removeWindow window
  | .onWindowFocused window focused => .onWindowFocused window focused

def windowEvent : LinuxInput W J → Option (WindowEvent W)
  | .update _ _ _ => none
  | .addWindow _ window => some (.added window)
  | .removeWindow window => some (.removed window)
  | .onWindowFocused window focused => some (.focused window focused)

end LinuxInput

namespace LinuxGamepadJoystickManager
variable {W J : Type} [DecidableEq W] [DecidableEq J]

omit [DecidableEq W] in
/-- `onGamepadButton` and `onGamepadAxis`, for a gamepad that the gamepad manager has. -/
def onReport (m : LinuxGamepadJoystickManager W J) (js : J) (r : Report) :
    List (W × Nat × Report) :=
  match m.focusedWindow, m.gamepadManager.gamepads.lookup js with
  | some window, some gpi => [(window, gpi, r)]
  | _, _ => []

/-- What is delivered in a poll, one thing after the other. -/
def pollDeliveries (m : LinuxGamepadJoystickManager W J) :
    List (Polled J) → List (W × Nat × Report)
  | [] => []
  | .device e :: polled => (m.onDevice e).pollDeliveries polled
  | .report js r :: polled => m.onReport js r ++ m.pollDeliveries polled

variable (m : LinuxGamepadJoystickManager W J)

@[simp]
theorem focusedWindow_onDevice (e : DeviceEvent J) :
    (m.onDevice e).focusedWindow = m.focusedWindow := by
  cases e with
  | connected js => rfl
  | disconnected js =>
    rw [onDevice]
    split <;> rfl

theorem focusedWindow_devices
    (devices : List (DeviceEvent J)) :
    (devices.foldl onDevice m).focusedWindow = m.focusedWindow :=
  invariant_all (fun n : LinuxGamepadJoystickManager W J => n.focusedWindow = m.focusedWindow)
    (fun n e hn => by rw [focusedWindow_onDevice, hn]) rfl devices

theorem focusedWindow_initializeOnce (devices : List J) :
    (m.initializeOnce devices).focusedWindow = m.focusedWindow := by
  rw [initializeOnce]
  split
  · rfl
  · exact focusedWindow_devices _ _

theorem pollDelivered_to_focused {m : LinuxGamepadJoystickManager W J} {polled : List (Polled J)}
    {d : W × Nat × Report} (hd : d ∈ m.pollDeliveries polled) :
    m.focusedWindow = some d.1 := by
  induction polled generalizing m with
  | nil => cases hd
  | cons p polled ih =>
    cases p with
    | device e =>
      rw [← m.focusedWindow_onDevice e]
      exact ih hd
    | report js r =>
      rcases mem_append.mp hd with hd | hd
      · rw [onReport] at hd
        split at hd
        · next window gpi hfocus _ =>
          rw [mem_singleton.mp hd, hfocus]
        · cases hd
      · exact ih hd

theorem focusedWindow_step (c : LinuxInput W J)
    (gone : List W) : (m.step c.call).focusedWindow =
      ((⟨m.focusedWindow, gone⟩ : Focus W).after c.windowEvent).focusedWindow := by
  cases c with
  | update devices polled window =>
    simp only [LinuxInput.call, step, update]
    split
    · rw [focusedWindow_devices, focusedWindow_initializeOnce]
      rfl
    · rfl
  | addWindow devices window => exact m.focusedWindow_initializeOnce devices
  | removeWindow window => rfl
  | onWindowFocused window focused =>
    simp only [LinuxInput.call, step, onWindowFocused]
    cases focused with
    | true => rfl
    | false =>
      rw [if_neg Bool.false_ne_true]
      simp only [LinuxInput.windowEvent, Focus.after]
      split <;> rfl

end LinuxGamepadJoystickManager

namespace LinuxSession
variable {W J : Type}

def focus (s : LinuxSession W J) : Focus W := ⟨s.manager.focusedWindow, s.gone⟩

variable [DecidableEq W] [DecidableEq J]

def step (s : LinuxSession W J) (c : LinuxInput W J) : LinuxSession W J where
  manager := s.manager.step c.call
  gone := (s.focus.after c.windowEvent).gone

/-- The events that are delivered, with the window and the index of the gamepad. -/
def deliveries (s : LinuxSession W J) : LinuxInput W J → List (W × Nat × Report)
  | .update devices polled window =>
    if s.manager.focusedWindow = some window then
      (s.manager.initializeOnce devices).pollDeliveries polled
    else []
  | _ => []

theorem focus_step (s : LinuxSession W J) (c : LinuxInput W J) :
    (s.step c).focus = s.focus.after c.windowEvent := by
  rw [focus, step, s.manager.focusedWindow_step c s.gone]
  rfl

theorem delivered_to_focused {s : LinuxSession W J} {c : LinuxInput W J} {d : W × Nat × Report}
    (hd : d ∈ s.deliveries c) : s.manager.focusedWindow = some d.1 := by
  cases c with
  | update devices polled window =>
    rw [deliveries] at hd
    split at hd
    · rw [← s.manager.focusedWindow_initializeOnce devices]
      exact LinuxGamepadJoystickManager.pollDelivered_to_focused hd
    · cases hd
  | _ => cases hd

end LinuxSession

/-! ## Both managers -/

/-- **A window that was removed gets no event before it is added again**, in any run in which no
window is removed while it has the focus or gets the focus while it is gone. -/
theorem removed_window_silent {W J F : Type} [DecidableEq W] [DecidableEq J]
    {glfwInputs : List (GlfwInput W F)} {linuxInputs : List (LinuxInput W J)}
    (hglfw : Along GlfwSession.step (fun s c => s.focus.Keeps c.windowEvent) {} glfwInputs)
    (hlinux : Along LinuxSession.step (fun s c => s.focus.Keeps c.windowEvent) {} linuxInputs) :
    (∀ front c, front ++ [c] <+: glfwInputs →
      let s : GlfwSession W := front.foldl GlfwSession.step {}
      ∀ d ∈ s.deliveries c, ∀ window ∈ s.gone, d.1 ≠ some window) ∧
    (∀ front c, front ++ [c] <+: linuxInputs →
      let s : LinuxSession W J := front.foldl LinuxSession.step {}
      ∀ d ∈ s.deliveries c, d.1 ∉ s.gone) := by
  constructor
  · rintro front c ⟨rest, rfl⟩ s d hd window hgone
    rw [append_assoc] at hglfw
    have hclear : s.focus.Clear := Focus.clear_of_along GlfwSession.focus_step
      (nofun) (along_append.mp hglfw).1
    rw [GlfwSession.delivered_to_focused hd]
    exact hclear window hgone
  · rintro front c ⟨rest, rfl⟩ s d hd hgone
    rw [append_assoc] at hlinux
    have hclear : s.focus.Clear := Focus.clear_of_along LinuxSession.focus_step
      (nofun) (along_append.mp hlinux).1
    exact hclear d.1 hgone (LinuxSession.delivered_to_focused hd)

def atRest : GamepadState Int := ⟨fun _ => 0, fun _ => 0⟩

theorem removed_window_silent_unfocused :
    let glfwInputs : List (GlfwInput Nat Int) :=
      [.call (.addWindow (.gamepads [0]) 7) fun _ _ => 0,
        .call (.onWindowFocused 7 true) fun _ _ => 0, .update 7 fun _ => atRest,
        .call (.onWindowFocused 7 false) fun _ _ => 0,
        .call (.removeWindow 7) fun _ _ => 0, .update 7 fun _ => atRest]
    let linuxInputs : List (LinuxInput Nat Nat) :=
      [.addWindow [0] 7, .onWindowFocused 7 true, .update [] [.report 0 (.button .a true)] 7,
        .onWindowFocused 7 false, .removeWindow 7]
    (∀ front c, front ++ [c] <+: glfwInputs →
      let s : GlfwSession Nat := front.foldl GlfwSession.step {}
      ∀ d ∈ s.deliveries c, ∀ window ∈ s.gone, d.1 ≠ some window) ∧
    (∀ front c, front ++ [c] <+: linuxInputs →
      let s : LinuxSession Nat Nat := front.foldl LinuxSession.step {}
      ∀ d ∈ s.deliveries c, d.1 ∉ s.gone) := by
  apply removed_window_silent
  · decide +kernel
  · decide +kernel

/-- The window with the focus is removed, and is the one that the next events go to. -/
theorem removed_window_events :
    let glfw : GlfwSession Nat := ([.call (.addWindow (.gamepads [0]) 7) fun _ _ => 0,
        .call (.onWindowFocused 7 true) fun _ _ => 0,
        .call (.removeWindow 7) fun _ _ => 0] : List (GlfwInput Nat Int)).foldl GlfwSession.step {}
    let linux : LinuxSession Nat Nat := ([.addWindow [0] 7, .onWindowFocused 7 true,
        .removeWindow 7] : List (LinuxInput Nat Nat)).foldl LinuxSession.step {}
    (7 ∈ glfw.gone ∧
        (some 7, .axis 0 .leftX 0) ∈ glfw.deliveries (.updateFocused fun _ => atRest)) ∧
      7 ∈ linux.gone ∧
        linux.deliveries (.update [] [.report 0 (.button .a true)] 7) =
          [(7, 0, .button .a true)] := by
  exact ⟨by decide +kernel, by decide +kernel, rfl⟩

end GameWindow
