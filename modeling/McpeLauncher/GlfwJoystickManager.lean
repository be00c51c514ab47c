import McpeLauncher.Audience
import McpeLauncher.IdTable
import McpeLauncher.Runs

/-! # The joystick manager of the GLFW windows

`GLFWJoystickManager` numbers the joysticks that GLFW reports and tells its windows of them; those
that are there from the start are asked for when the first window is added. -/
namespace GameWindow
open Runs IdTable List

/-- `GLFW_CONNECTED` and `GLFW_DISCONNECTED`. -/
inductive JoystickAction where
  | connected
  | disconnected

/-- What GLFW answers, and whether `handleMissingGamePadMapping` could give a mapping. -/
structure Glfw where
  joystickPresent : Nat → Bool
  joystickIsGamepad : Nat → Bool
  handleMissingGamePadMapping : Nat → Bool

/-- Gamepads at some of the joysticks, and nothing at the others. -/
def Glfw.gamepads (joysticks : List Nat) : Glfw where
  joystickPresent i := i ∈ joysticks
  joystickIsGamepad i := i ∈ joysticks
  handleMissingGamePadMapping _ := false

/-- The windows come with the calls of their `onGamepadState`; of a `JoystickInfo` only the user id
is here. -/
structure GLFWJoystickManager (W : Type) where
  windows : Audience W Nat := {}
  focusedWindow : Option W := none
  connectedJoysticks : List (Nat × Nat) := []
  userIds : List Nat := []

namespace GLFWJoystickManager
variable {W : Type}

/-- The loop counts up to the first id that is not taken. -/
def nextUnassignedUserId (m : GLFWJoystickManager W) : Nat := leastFree m.userIds

variable [DecidableEq W]

/-- A new joystick gets an id, and the windows are told. -/
def register (m : GLFWJoystickManager W) (joystick : Nat) : GLFWJoystickManager W :=
  let userId := m.nextUnassignedUserId
  { m with
    userIds := userId :: m.userIds
    connectedJoysticks := (joystick, userId) :: m.connectedJoysticks
    windows := m.windows.tellAll (userId, true) }

def unregister (m : GLFWJoystickManager W) (joystick userId : Nat) : GLFWJoystickManager W :=
  { m with
    userIds := m.userIds.filter (· ≠ userId)
    connectedJoysticks := without m.connectedJoysticks joystick
    windows := m.windows.tellAll (userId, false) }

def glfwJoystickCallback (m : GLFWJoystickManager W) (glfw : Glfw) (joystick : Nat) :
    JoystickAction → GLFWJoystickManager W
  | .connected =>
    if !glfw.joystickIsGamepad joystick &&
        (m.windows.members.isEmpty || !glfw.handleMissingGamePadMapping joystick) then m
    else if (m.connectedJoysticks.lookup joystick).isSome then m
    else m.register joystick
  | .disconnected =>
    match m.connectedJoysticks.lookup joystick with
    | none => m
    | some userId => m.unregister joystick userId

/-- The loop of `addWindow` over the first `count` joysticks. -/
def askJoysticks (m : GLFWJoystickManager W) (glfw : Glfw) (count : Nat) : GLFWJoystickManager W :=
  (List.range count).foldl (fun m i =>
    if glfw.joystickPresent i then m.glfwJoystickCallback glfw i .connected else m) m

def joystickCount : Nat := 16

def insertWindow (m : GLFWJoystickManager W) (window : W) : GLFWJoystickManager W :=
  { m with windows := m.windows.join window }

def addWindow (m : GLFWJoystickManager W) (glfw : Glfw) (window : W) : GLFWJoystickManager W :=
  let m := m.insertWindow window
  if m.windows.members.length = 1 then m.askJoysticks glfw joystickCount
  else
    { m with
      windows := m.windows.tell window (m.connectedJoysticks.map fun j => (j.2, true)) }

/-- `removeWindow` is called by the destructor of the window. -/
def removeWindow (m : GLFWJoystickManager W) (window : W) : GLFWJoystickManager W :=
  { m with windows := m.windows.leave window }

def onWindowFocused (m : GLFWJoystickManager W) (window : W) (focused : Bool) :
    GLFWJoystickManager W :=
  if focused then { m with focusedWindow := some window }
  else if m.focusedWindow = some window then { m with focusedWindow := none }
  else m

end GLFWJoystickManager

/-- What GLFW and the windows call. -/
inductive GlfwCall (W : Type) where
  | callback (glfw : Glfw) (joystick : Nat) (action : JoystickAction)
  | addWindow (glfw : Glfw) (window : W)
  | removeWindow (window : W)
  | onWindowFocused (window : W) (focused : Bool)

namespace GLFWJoystickManager
variable {W : Type} [DecidableEq W] {joystick userId : Nat}

def step (m : GLFWJoystickManager W) : GlfwCall W → GLFWJoystickManager W
  | .callback glfw joystick action => m.glfwJoystickCallback glfw joystick action
  | .addWindow glfw window => m.addWindow glfw window
  | .removeWindow window => m.removeWindow window
  | .onWindowFocused window focused => m.onWindowFocused window focused

/-- After any calls, and within `addWindow`, after some joysticks were asked for. -/
inductive Reached : GLFWJoystickManager W → Prop
  | start : Reached {}
  | call {m} (c : GlfwCall W) : Reached m → Reached (m.step c)
  | asking {m} (glfw : Glfw) (window : W) (count : Nat) :
      Reached m → Reached ((m.insertWindow window).askJoysticks glfw count)

/-- A window that is added to none finds no joystick registered. -/
def FirstWindowAlone (m : GLFWJoystickManager W) : GlfwCall W → Prop
  | .addWindow _ _ => m.windows.members = [] → m.connectedJoysticks = []
  | _ => True

instance (m : GLFWJoystickManager W) : DecidablePred m.FirstWindowAlone
  | .addWindow _ _ =>
    inferInstanceAs (Decidable (m.windows.members = [] → m.connectedJoysticks = []))
  | .callback _ _ _ | .removeWindow _ | .onWindowFocused _ _ => inferInstanceAs (Decidable True)

theorem onWindowFocused_eq (m : GLFWJoystickManager W) (window : W) (focused : Bool) :
    ∃ focusedWindow, m.onWindowFocused window focused = { m with focusedWindow } := by
  rw [onWindowFocused]
  split
  · exact ⟨some window, rfl⟩
  · split
    · exact ⟨none, rfl⟩
    · exact ⟨m.focusedWindow, rfl⟩

theorem callback_cases (m : GLFWJoystickManager W) (glfw : Glfw) (joystick : Nat)
    (action : JoystickAction) :
    m.glfwJoystickCallback glfw joystick action = m ∨
    (joystick ∉ keys m.connectedJoysticks ∧
      m.glfwJoystickCallback glfw joystick action = m.register joystick) ∨
    ∃ userId, (joystick, userId) ∈ m.connectedJoysticks ∧
      m.glfwJoystickCallback glfw joystick action = m.unregister joystick userId := by
  cases action with
  | connected =>
    rw [glfwJoystickCallback]
    split
    · exact .inl rfl
    · rcases hlookup : m.connectedJoysticks.lookup joystick with _ | userId
      · exact .inr (.inl ⟨lookup_eq_none.mp hlookup, rfl⟩)
      · exact .inl rfl
  | disconnected =>
    rw [glfwJoystickCallback]
    rcases hlookup : m.connectedJoysticks.lookup joystick with _ | userId
    · exact .inl rfl
    · exact .inr (.inr ⟨userId, mem_of_lookup hlookup, rfl⟩)

variable {m : GLFWJoystickManager W}

theorem askJoysticks_induction (P : GLFWJoystickManager W → Prop) (glfw : Glfw)
    (hcallback : ∀ m joystick action, P m → P (m.glfwJoystickCallback glfw joystick action))
    (hm : P m) (count : Nat) : P (m.askJoysticks glfw count) := by
  refine invariant_all P ?_ hm (range count)
  intro m i hm
  split
  · exact hcallback m i .connected hm
  · exact hm

/-- The ids taken are those of the registered joysticks. -/
structure Numbered (m : GLFWJoystickManager W) : Prop where
  sound : Sound m.connectedJoysticks
  userIds : ∀ i, i ∈ m.userIds ↔ i ∈ ids m.connectedJoysticks

namespace Numbered

omit [DecidableEq W] in
theorem start : Numbered ({} : GLFWJoystickManager W) := ⟨Sound.nil, by simp⟩

variable {m : GLFWJoystickManager W}

omit [DecidableEq W] in
theorem isLeast (h : m.Numbered) :
    IsLeast {i | i ∉ ids m.connectedJoysticks} m.nextUnassignedUserId := by
  have hleast := leastFree_isLeast m.userIds
  simp only [h.userIds] at hleast
  exact hleast

theorem register (h : m.Numbered) (hnew : joystick ∉ keys m.connectedJoysticks) :
    (m.register joystick).Numbered where
  sound := h.sound.cons hnew h.isLeast.1
  userIds := by
    intro i
    simp only [GLFWJoystickManager.register, mem_cons, map_cons, h.userIds]

theorem unregister (h : m.Numbered) (hmem : (joystick, userId) ∈ m.connectedJoysticks) :
    (m.unregister joystick userId).Numbered where
  sound := h.sound.without joystick
  userIds := by
    intro i
    simp only [GLFWJoystickManager.unregister, mem_filter, h.userIds,
      h.sound.mem_ids_without hmem, decide_eq_true_eq]

theorem callback (h : m.Numbered) (glfw : Glfw) (joystick : Nat) (action : JoystickAction) :
    (m.glfwJoystickCallback glfw joystick action).Numbered := by
  rcases m.callback_cases glfw joystick action with heq | ⟨hnew, heq⟩ | ⟨userId, hmem, heq⟩
  · rw [heq]
    exact h
  · rw [heq]
    exact h.register hnew
  · rw [heq]
    exact h.unregister hmem

theorem insertWindow (h : m.Numbered) (window : W) : (m.insertWindow window).Numbered :=
  ⟨h.sound, h.userIds⟩

theorem askJoysticks (h : m.Numbered) (glfw : Glfw) (count : Nat) :
    (m.askJoysticks glfw count).Numbered :=
  askJoysticks_induction Numbered glfw (fun _ joystick action h => h.callback glfw joystick action)
    h count

theorem step (h : m.Numbered) (c : GlfwCall W) : (m.step c).Numbered := by
  cases c with
  | callback glfw joystick action => exact h.callback glfw joystick action
  | addWindow glfw window =>
    rw [GLFWJoystickManager.step, addWindow]
    split
    · exact (h.insertWindow window).askJoysticks glfw joystickCount
    · exact ⟨h.sound, h.userIds⟩
  | removeWindow window => exact ⟨h.sound, h.userIds⟩
  | onWindowFocused window focused =>
    obtain ⟨_, hfocus⟩ := m.onWindowFocused_eq window focused
    rw [GLFWJoystickManager.step, hfocus]
    exact ⟨h.sound, h.userIds⟩

end Numbered

theorem Reached.numbered (h : m.Reached) : m.Numbered := by
  induction h with
  | start => exact Numbered.start
  | call c _ ih => exact ih.step c
  | asking glfw window count _ ih => exact (ih.insertWindow window).askJoysticks glfw count

theorem callback_new {glfw : Glfw} {action : JoystickAction}
    (hnew : joystick ∉ keys m.connectedJoysticks)
    (hmem : (joystick, userId) ∈ (m.glfwJoystickCallback glfw joystick action).connectedJoysticks) :
    userId = m.nextUnassignedUserId := by
  have hbefore : ∀ i, (joystick, i) ∉ m.connectedJoysticks := fun i hi => hnew (mem_map_of_mem hi)
  rcases m.callback_cases glfw joystick action with heq | ⟨_, heq⟩ | ⟨i, hi, _⟩
  · rw [heq] at hmem
    exact absurd hmem (hbefore userId)
  · rw [heq, register] at hmem
    rcases mem_cons.mp hmem with hfirst | hrest
    · exact congrArg Prod.snd hfirst
    · exact absurd hrest (hbefore userId)
  · exact absurd hi (hbefore i)

def connectedIds (m : GLFWJoystickManager W) : Finset Nat := (ids m.connectedJoysticks).toFinset

/-- The windows know the joysticks. -/
structure Told (m : GLFWJoystickManager W) : Prop where
  numbered : m.Numbered
  informed : m.windows.Informed m.connectedIds

namespace Told
variable {m : GLFWJoystickManager W}

omit [DecidableEq W] in
theorem start : Told ({} : GLFWJoystickManager W) := ⟨Numbered.start, Audience.Informed.nobody⟩

theorem callback (h : m.Told) (glfw : Glfw) (joystick : Nat) (action : JoystickAction) :
    (m.glfwJoystickCallback glfw joystick action).Told := by
  refine ⟨h.numbered.callback glfw joystick action, ?_⟩
  rcases m.callback_cases glfw joystick action with heq | ⟨_, heq⟩ | ⟨userId, hmem, heq⟩
  · rw [heq]
    exact h.informed
  · rw [heq]
    rw [connectedIds, GLFWJoystickManager.register]
    simp only [map_cons, toFinset_cons]
    exact h.informed.tellAll_here _
  · rw [heq, connectedIds, GLFWJoystickManager.unregister,
      h.numbered.sound.toFinset_ids_without hmem]
    exact h.informed.tellAll_gone userId

/-- **A window that is added learns of the joysticks**, unless it is the first one and
there are joysticks registered already. -/
theorem addWindow (h : m.Told) (glfw : Glfw) (window : W)
    (halone : m.windows.members = [] → m.connectedJoysticks = []) :
    (m.addWindow glfw window).Told := by
  rw [GLFWJoystickManager.addWindow]
  by_cases hfirst : (m.insertWindow window).windows.members.length = 1
  · rw [if_pos hfirst]
    -- the only member was there before, or nobody was
    have hinsert : (m.insertWindow window).Told := by
      refine ⟨h.numbered.insertWindow window, h.informed.join window ?_⟩
      by_cases hmem : window ∈ m.windows.members
      · exact .inl hmem
      · right
        have hempty : m.windows.members = [] := by
          simpa [insertWindow, Audience.join, if_neg hmem] using hfirst
        simp [connectedIds, halone hempty]
    exact askJoysticks_induction Told glfw
      (fun _ joystick action h => h.callback glfw joystick action) hinsert joystickCount
  · rw [if_neg hfirst]
    refine ⟨⟨h.numbered.sound, h.numbered.userIds⟩, ?_⟩
    have hids : (ids m.connectedJoysticks).toFinset = m.connectedIds := rfl
    have htold := h.informed.join_tell window hids
    rw [map_map] at htold
    exact htold

theorem step (h : m.Told) (c : GlfwCall W) (hc : m.FirstWindowAlone c) : (m.step c).Told := by
  cases c with
  | callback glfw joystick action => exact h.callback glfw joystick action
  | addWindow glfw window => exact h.addWindow glfw window hc
  | removeWindow window => exact ⟨h.numbered.step (.removeWindow window), h.informed.leave window⟩
  | onWindowFocused window focused =>
    obtain ⟨_, hfocus⟩ := m.onWindowFocused_eq window focused
    rw [GLFWJoystickManager.step, hfocus]
    exact ⟨⟨h.numbered.sound, h.numbered.userIds⟩, h.informed⟩

end Told

/-- The windows know the joysticks after every run in which no window is added to none
while joysticks are registered. -/
theorem told_of_along {calls : List (GlfwCall W)}
    (h : Along step FirstWindowAlone ({} : GLFWJoystickManager W) calls) :
    (calls.foldl step ({} : GLFWJoystickManager W)).Told :=
  invariant Told (fun _ c hm hc => hm.step c hc) Told.start h

end GLFWJoystickManager

end GameWindow
