import McpeLauncher.Runs
import McpeLauncher.WindowCallbacks

/-! # The looper and the game

`FakeLooper::pollAll` hands on what is in the input queue, and only with an empty queue asks the
window for news, which come in through `WindowCallbacks`. -/
namespace McpeLauncherClient
open Runs List WindowCallbacks

/-- The id of the Android event, that of the input queue, or `ALOOPER_POLL_TIMEOUT`. -/
inductive PollResult where
  | androidEvent
  | inputEntry
  | timeout
  deriving DecidableEq

/-- Whether an input queue is attached, and the callbacks of the window, which hold it. -/
structure FakeLooper where
  inputEntry : Bool := true
  associatedWindowCallbacks : WindowCallbacks := {}

namespace FakeLooper

/-- `androidReady`: there is something to read for Android; `news` is what the window reports. -/
def pollAll (l : FakeLooper) (androidReady : Bool) (news : List GamepadCall) :
    PollResult × FakeLooper :=
  if androidReady then (.androidEvent, l)
  else if l.inputEntry && l.associatedWindowCallbacks.inputQueue.hasEvents then (.inputEntry, l)
  else
    let w := news.foldl WindowCallbacks.call l.associatedWindowCallbacks
    (.timeout, { l with associatedWindowCallbacks := w.markRequeueGamepadInput })

end FakeLooper

/-- `read` are the motion events taken, with the axes as the game saw them; `changed` are the
gamepads that have moved. -/
structure GameInput where
  looper : FakeLooper := {}
  read : List (Int × (Int → ℚ)) := []
  changed : List Int := []

inductive GameAction where
  | pollAll (androidReady : Bool) (news : List GamepadCall)
  | takeEvent

namespace GameInput

abbrev callbacks (s : GameInput) : WindowCallbacks := s.looper.associatedWindowCallbacks

/-- What has changed when the window has reported its news. -/
def changedBy (w : WindowCallbacks) (changed : List Int) (news : List GamepadCall) :
    WindowCallbacks × List Int :=
  news.foldl (fun s c => (s.1.call c, s.1.changes s.2 c)) (w, changed)

/-- The axes of a motion event are read when it is taken. -/
def readEvent (w : WindowCallbacks) : FakeInputEvent → List (Int × (Int → ℚ))
  | .key _ => []
  | .motion e => (e.axisFunction.map fun gamepad => (gamepad, w.axisFunction gamepad)).toList

def step (s : GameInput) : GameAction → GameInput
  | .pollAll androidReady news =>
    let (result, looper) := s.looper.pollAll androidReady news
    { s with
      looper
      changed := if result = .timeout then (changedBy s.callbacks s.changed news).2 else s.changed }
  | .takeEvent => match s.callbacks.inputQueue.takeEvent with
    | none => s
    | some (event, inputQueue) =>
      { s with
        read := s.read ++ readEvent s.callbacks event
        looper := { s.looper with
          associatedWindowCallbacks := { s.callbacks with inputQueue } } }

/-- The axes of the gamepad as the game saw them last. -/
def lastRead (s : GameInput) (gamepad : Int) : Option (Int → ℚ) :=
  (s.read.filterMap fun r => if r.1 = gamepad then some r.2 else none).getLast?

/-- All news of one round about axes and d-pads are about one gamepad. -/
def OneGamepad (_ : GameInput) : GameAction → Prop
  | .pollAll _ news => ∃ gamepad, ∀ c ∈ news, ∀ g ∈ c.moves, g = gamepad
  | .takeEvent => True

/-! ## No change is lost -/

/-- Every gamepad that has changed has an event in the queue, or was read as it is. -/
def Covered (w : WindowCallbacks) (s : GameInput) (changed : List Int) : Prop :=
  ∀ g ∈ changed, w.HasMotionOf g ∨ s.lastRead g = some (w.axisFunction g)

variable {s : GameInput} {gamepad : Int} {news : List GamepadCall} {changed : List Int}
  {w : WindowCallbacks}

/-- Within a round all that move are one gamepad, and with the flag down it has its
event. -/
theorem covered_call (hcovered : Covered w s changed)
    (hflag : w.needsQueueGamepadInput = false → w.HasMotionOf gamepad) {c : GamepadCall}
    (hc : ∀ g ∈ c.moves, g = gamepad) :
    Covered (w.call c) s (w.changes changed c) ∧
      ((w.call c).needsQueueGamepadInput = false → (w.call c).HasMotionOf gamepad) := by
  rcases hmoved : w.moved c with _ | g
  · obtain ⟨hmotion, hneeds, hchanged⟩ := call_of_not_moved hmoved
    have hhas : ∀ g, (w.call c).HasMotionOf g ↔ w.HasMotionOf g := by
      intro g
      rw [HasMotionOf, hmotion]
      rfl
    rw [hneeds, hhas]
    refine ⟨?_, hflag⟩
    intro g hg
    obtain ⟨hg, haxis⟩ := hchanged changed g hg
    rw [hhas, haxis]
    exact hcovered g hg
  · obtain rfl := hc g (moves_of_moved hmoved)
    obtain ⟨gp, hcall⟩ := call_of_moved hmoved
    have hhas : (w.call c).HasMotionOf g := by
      rw [hcall]
      exact queueGamepadAxisInputIfNeeded_has hflag
    refine ⟨?_, fun _ => hhas⟩
    intro h hh
    by_cases hhg : h = g
    · exact .inl (hhg ▸ hhas)
    · -- the others keep their events and their axes
      have hh : h ∈ changed := by
        cases c with
        | state g' connected => exact absurd hmoved (by simp [moved])
        | button g' btn pressed => simpa [changes, hmoved, hhg] using hh
        | axis g' ax value => simpa [changes, hmoved, hhg] using hh
      rw [hcall]
      rcases hcovered h hh with hmotion | hread
      · exact .inl (queueGamepadAxisInputIfNeeded_keeps hmotion)
      · right
        rw [hread]
        refine congrArg some (axisFunction_congr ?_).symm
        rw [gamepads_queueGamepadAxisInputIfNeeded]
        exact Function.update_of_ne hhg _ _

theorem covered_news (hnews : ∀ c ∈ news, ∀ g ∈ c.moves, g = gamepad)
    (hcovered : Covered w s changed)
    (hflag : w.needsQueueGamepadInput = false → w.HasMotionOf gamepad) :
    Covered (news.foldl call w) s (changedBy w changed news).2 := by
  induction news generalizing w changed with
  | nil => exact hcovered
  | cons c news ih =>
    obtain ⟨hcovered, hflag⟩ := covered_call hcovered hflag (hnews c mem_cons_self)
    exact ih (fun c hc => hnews c (mem_cons_of_mem _ hc)) hcovered hflag

/-- Between two actions of the game a motion event may be queued. -/
structure Inv (s : GameInput) : Prop where
  needs : s.callbacks.needsQueueGamepadInput = true
  covered : Covered s.callbacks s s.changed

theorem Inv.pollAll (h : s.Inv) (androidReady : Bool)
    (hone : s.OneGamepad (.pollAll androidReady news)) :
    (s.step (.pollAll androidReady news)).Inv := by
  obtain ⟨gamepad, hnews⟩ := hone
  simp only [step, FakeLooper.pollAll]
  by_cases hready : androidReady
  · simp only [if_pos hready]
    exact ⟨h.needs, h.covered⟩
  · by_cases hinput : s.looper.inputEntry &&
        s.looper.associatedWindowCallbacks.inputQueue.hasEvents
    · simp only [if_neg hready, if_pos hinput]
      exact ⟨h.needs, h.covered⟩
    · simp only [if_neg hready, if_neg hinput]
      refine ⟨rfl, covered_news hnews h.covered fun hneeds => ?_⟩
      exact absurd (h.needs.symm.trans hneeds) (by simp)

theorem lastRead_concat (s : GameInput) (looper : FakeLooper) (gamepad : Int) (axes : Int → ℚ)
    (g : Int) :
    lastRead { s with looper, read := s.read ++ [(gamepad, axes)] } g =
      if gamepad = g then some axes else s.lastRead g := by
  rw [lastRead, filterMap_append]
  by_cases hg : gamepad = g
  · simp [hg]
  · simp [hg, lastRead]

theorem Inv.takeEvent (h : s.Inv) : (s.step .takeEvent).Inv := by
  rw [step, FakeInputQueue.takeEvent]
  rcases hkeys : s.callbacks.inputQueue.keyEvents with _ | ⟨key, keys⟩
  · rcases hmotions : s.callbacks.inputQueue.motionEvents with _ | ⟨e, motions⟩
    · exact h
    · refine ⟨h.needs, ?_⟩
      intro g hg
      -- the event taken is the one of `g`, or that one is behind it
      have hbehind : s.callbacks.HasMotionOf g → e.axisFunction = some g ∨
          ∃ e ∈ motions, e.axisFunction = some g := by
        rintro ⟨e', he', hfor⟩
        rw [hmotions] at he'
        rcases mem_cons.mp he' with rfl | he'
        · exact .inl hfor
        · exact .inr ⟨e', he', hfor⟩
      rcases haxis : e.axisFunction with _ | gamepad
      · simp only [readEvent, haxis, Option.map_none, Option.toList_none, append_nil]
        rcases h.covered g hg with hmotion | hread
        · exact .inl ((hbehind hmotion).resolve_left (by simp [haxis]))
        · exact .inr hread
      · simp only [readEvent, haxis, Option.map_some, Option.toList_some]
        rw [lastRead_concat]
        by_cases hgamepad : gamepad = g
        · rw [if_pos hgamepad, hgamepad]
          exact .inr rfl
        · rw [if_neg hgamepad]
          rcases h.covered g hg with hmotion | hread
          · exact .inl ((hbehind hmotion).resolve_left (by simp [haxis, hgamepad]))
          · exact .inr hread
  · refine ⟨h.needs, ?_⟩
    intro g hg
    simp only [readEvent, append_nil]
    exact h.covered g hg

theorem Inv.step (h : s.Inv) {a : GameAction} (hone : s.OneGamepad a) : (s.step a).Inv := by
  cases a with
  | pollAll androidReady news => exact h.pollAll androidReady hone
  | takeEvent => exact h.takeEvent

/-- **No movement is lost where one gamepad moves in a round.** When all motion events are taken,
the game has read every gamepad that has moved as it is. -/
theorem gamepad_movement_arrives (gamepads : Int → Option GamepadData) (inputEntry : Bool)
    {actions : List GameAction}
    (hone : Along step OneGamepad { looper := ⟨inputEntry, { gamepads }⟩ } actions) :
    let s := actions.foldl step { looper := ⟨inputEntry, { gamepads }⟩ }
    s.callbacks.inputQueue.motionEvents = [] →
      ∀ g ∈ s.changed, s.lastRead g = some (s.callbacks.axisFunction g) := by
  intro s hempty g hg
  have hinv : s.Inv := invariant Inv (fun _ _ h hok => h.step hok)
    ⟨rfl, nofun⟩ hone
  apply (hinv.covered g hg).resolve_left
  rintro ⟨e, he, _⟩
  rw [hempty] at he
  exact absurd he not_mem_nil

def two : Int → Option GamepadData := fun g => if g = 0 ∨ g = 1 then some {} else none

theorem gamepad_movement_arrives_apart :
    let s := [GameAction.pollAll false [.axis 0 .leftX 1, .button 0 .dpadUp true], .takeEvent,
      .pollAll false [.axis 1 .leftY (1 / 2)], .takeEvent].foldl step
        { looper := ⟨true, { gamepads := two }⟩ }
    s.changed = [1, 0, 0] ∧ ∀ g ∈ s.changed, s.lastRead g = some (s.callbacks.axisFunction g) := by
  refine ⟨by decide, gamepad_movement_arrives two true ?_ rfl⟩
  exact ⟨⟨0, by simp [GamepadCall.moves, isDpad]⟩, trivial, ⟨1, by simp [GamepadCall.moves]⟩,
    trivial, trivial⟩

/-- Of two gamepads that move in one round the second never gets a motion event. -/
theorem gamepad_movement_lost :
    let s := [GameAction.pollAll false [.axis 0 .leftX 1, .axis 1 .leftX 1], .takeEvent,
      .pollAll false []].foldl step { looper := ⟨true, { gamepads := two }⟩ }
    s.callbacks.inputQueue.hasEvents = false ∧ 1 ∈ s.changed ∧ s.lastRead 1 = none ∧
      s.callbacks.axisFunction 1 0 = 1 := by
  decide

end GameInput

end McpeLauncherClient
