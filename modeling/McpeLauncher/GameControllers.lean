import McpeLauncher.Audience
import McpeLauncher.WindowCallbacks

/-! # The game's list of controllers

`WindowCallbacks::onGamepadState` passes changes on to `JniSupport::setGameControllerConnected`.
Both branches there ask for a gamepad that is connected, so with both callbacks only arrivals are
told. -/
namespace McpeLauncherClient
open WindowCallbacks List

/-- Which of the two native methods were found, and what the game was told. -/
structure JniSupport where
  addedMethod : Bool
  removedMethod : Bool
  notices : List (Int × Bool) := []

namespace JniSupport

def deviceAdded (j : JniSupport) (devId : Int) : JniSupport :=
  { j with notices := j.notices ++ [(devId, true)] }

def deviceRemoved (j : JniSupport) (devId : Int) : JniSupport :=
  { j with notices := j.notices ++ [(devId, false)] }

def setGameControllerConnected (j : JniSupport) (devId : Int) (connected : Bool) : JniSupport :=
  if connected && j.addedMethod then j.deviceAdded devId
  else if connected && j.removedMethod then j.deviceRemoved devId
  else j

/-- The device ids that were reported as added and not as removed since. -/
def reported (j : JniSupport) : Finset Int := Audience.known j.notices

end JniSupport

/-- The window callbacks with the `jniSupport` they refer to. -/
structure GameControllers where
  callbacks : WindowCallbacks := {}
  jniSupport : JniSupport

namespace GameControllers

/-- A call of the window; only a change of the state reaches `jniSupport`. -/
def call (s : GameControllers) (c : GamepadCall) : GameControllers where
  callbacks := s.callbacks.call c
  jniSupport := match c with
    | .state gamepad connected => s.jniSupport.setGameControllerConnected gamepad connected
    | _ => s.jniSupport

def start : GameControllers := { jniSupport := { addedMethod := true, removedMethod := true } }

def run (calls : List GamepadCall) : GameControllers := calls.foldl call start

def Connected (s : GameControllers) (gamepad : Int) : Prop :=
  (s.callbacks.gamepads gamepad).isSome = true

instance (s : GameControllers) (gamepad : Int) : Decidable (s.Connected gamepad) :=
  inferInstanceAs (Decidable (_ = true))

theorem run_concat (calls : List GamepadCall) (c : GamepadCall) :
    run (calls ++ [c]) = (run calls).call c := by
  rw [run, foldl_append]
  rfl

variable {gamepad : Int}

theorem isSome_update {gamepads : Int → Option GamepadData} (h : (gamepads gamepad).isSome = true)
    (gp : GamepadData) (other : Int) :
    (Function.update gamepads gamepad (some gp) other).isSome = (gamepads other).isSome := by
  by_cases hother : other = gamepad
  · rw [hother, Function.update_self, h]
    rfl
  · rw [Function.update_of_ne hother]

theorem isSome_button (w : WindowCallbacks) (gamepad : Int) (btn : GamepadButtonId)
    (pressed : Bool) (other : Int) :
    ((w.onGamepadButton gamepad btn pressed).gamepads other).isSome =
      (w.gamepads other).isSome := by
  rw [onGamepadButton]
  rcases hgp : w.gamepads gamepad with _ | gp
  · rfl
  · have hsome : (w.gamepads gamepad).isSome = true := by rw [hgp]; rfl
    dsimp only
    split
    · rfl
    · split
      · rw [gamepads_queueGamepadAxisInputIfNeeded]
        exact isSome_update hsome _ other
      · exact isSome_update hsome _ other

theorem isSome_axis (w : WindowCallbacks) (gamepad : Int) (ax : GamepadAxisId) (value : ℚ)
    (other : Int) :
    ((w.onGamepadAxis gamepad ax value).gamepads other).isSome = (w.gamepads other).isSome := by
  rw [onGamepadAxis]
  rcases hgp : w.gamepads gamepad with _ | gp
  · rfl
  · have hsome : (w.gamepads gamepad).isSome = true := by rw [hgp]; rfl
    rw [gamepads_queueGamepadAxisInputIfNeeded]
    exact isSome_update hsome _ other

/-- What a call says about a gamepad. -/
def notice : GamepadCall → Option (Int × Bool)
  | .state gamepad connected => some (gamepad, connected)
  | _ => none

/-- The gamepads that the calls say are connected. -/
def connected (calls : List GamepadCall) : Finset Int := Audience.known (calls.filterMap notice)

theorem connected_concat (calls : List GamepadCall) (c : GamepadCall) :
    connected (calls ++ [c]) =
      (notice c).elim (connected calls) (Audience.hear (connected calls)) := by
  rw [connected, filterMap_append]
  rcases hc : notice c with _ | n
  · simp [hc, connected]
  · simp [hc, connected, Audience.known_concat]

/-- The callbacks have a gamepad exactly if the calls say that it is connected. -/
theorem connected_iff (calls : List GamepadCall) :
    (run calls).Connected gamepad ↔ gamepad ∈ connected calls := by
  induction calls using reverseRecOn with
  | nil => exact iff_of_false (by simp [Connected, run, start]) (by simp [connected])
  | append_singleton calls c ih =>
    rw [run_concat, connected_concat]
    cases c with
    | state g there =>
      by_cases hg : gamepad = g
      · subst hg
        cases there <;> simp [Connected, call, WindowCallbacks.call, onGamepadState, notice,
          Audience.hear]
      · rw [Connected] at ih
        cases there <;> simp [Connected, call, WindowCallbacks.call, onGamepadState, notice,
          Audience.hear, hg, ih]
    | button g btn pressed =>
      exact (iff_of_eq (congrArg (· = true) (isSome_button _ g btn pressed gamepad))).trans ih
    | axis g ax value =>
      exact (iff_of_eq (congrArg (· = true) (isSome_axis _ g ax value gamepad))).trans ih

theorem state_of_connected {calls : List GamepadCall} (h : gamepad ∈ connected calls) :
    .state gamepad true ∈ calls := by
  induction calls using reverseRecOn with
  | nil => exact absurd h (by simp [connected])
  | append_singleton calls c ih =>
    rw [mem_append, mem_singleton]
    rw [connected_concat] at h
    rcases c with ⟨g, _ | _⟩ | _ | _
    · exact .inl (ih (Finset.mem_of_mem_erase h))
    · rcases Finset.mem_insert.mp h with rfl | h
      · exact .inr rfl
      · exact .inl (ih h)
    · exact .inl (ih h)
    · exact .inl (ih h)

/-- A game with both callbacks is told of every arrival and of nothing else. -/
theorem reported_run (calls : List GamepadCall) :
    (run calls).jniSupport.addedMethod = true ∧
      ∀ gamepad, gamepad ∈ (run calls).jniSupport.reported ↔ .state gamepad true ∈ calls := by
  induction calls using reverseRecOn with
  | nil => exact ⟨rfl, by simp [run, start, JniSupport.reported]⟩
  | append_singleton calls c ih =>
    obtain ⟨hadded, hreported⟩ := ih
    rw [run_concat]
    have hsame : (∀ gamepad, c ≠ .state gamepad true) →
        ∀ gamepad, gamepad ∈ (run calls).jniSupport.reported ↔
          .state gamepad true ∈ calls ++ [c] := by
      intro hc gamepad
      rw [hreported, mem_append, mem_singleton, or_iff_left (Ne.symm (hc gamepad))]
    cases c with
    | button g btn pressed => exact ⟨hadded, hsame (by simp)⟩
    | axis g ax value => exact ⟨hadded, hsame (by simp)⟩
    | state g connected =>
      cases connected with
      | false =>
        have hnothing : ((run calls).call (.state g false)).jniSupport =
            (run calls).jniSupport := by
          simp [call, JniSupport.setGameControllerConnected]
        exact ⟨hadded, hsame (by simp)⟩
      | true =>
        have htold : ((run calls).call (.state g true)).jniSupport =
            (run calls).jniSupport.deviceAdded g := by
          simp [call, JniSupport.setGameControllerConnected, hadded]
        rw [htold]
        refine ⟨hadded, fun gamepad => ?_⟩
        rw [JniSupport.reported, JniSupport.deviceAdded, Audience.known_concat, Audience.hear,
          if_pos rfl, Finset.mem_insert]
        show gamepad = g ∨ gamepad ∈ (run calls).jniSupport.reported ↔ _
        rw [hreported, mem_append, mem_singleton, GamepadCall.state.injEq, or_comm]
        simp

/-- **The game's list is right exactly when** every gamepad that was ever connected is connected
now, by what the window has said; and these are the gamepads that the callbacks have. -/
theorem reported_eq_connected_iff (calls : List GamepadCall) :
    ((run calls).jniSupport.reported = connected calls ↔
      ∀ gamepad, .state gamepad true ∈ calls → gamepad ∈ connected calls) ∧
    ∀ gamepad, (run calls).Connected gamepad ↔ gamepad ∈ connected calls := by
  have hreported := (reported_run calls).2
  refine ⟨?_, fun _ => connected_iff calls⟩
  constructor
  · intro h gamepad hmem
    rw [← h]
    exact (hreported gamepad).mpr hmem
  · intro h
    ext gamepad
    rw [hreported]
    exact ⟨h gamepad, state_of_connected⟩

/-- A gamepad that comes and goes stays in the list. -/
theorem removed_gamepad_still_reported :
    0 ∈ (run [.state 0 true, .state 0 false]).jniSupport.reported ∧
      0 ∉ connected [.state 0 true, .state 0 false] ∧
      ¬ (run [.state 0 true, .state 0 false]).Connected 0 := by
  decide

end GameControllers
end McpeLauncherClient
