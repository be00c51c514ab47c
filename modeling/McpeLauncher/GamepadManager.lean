import McpeLauncher.IdTable
import McpeLauncher.Runs

/-! # The ids of gamepads

`GamepadManager` of linux-gamepad keeps a set of taken ids, and a mark below which all ids are
taken. The set stays empty, so that the mark alone decides. A gamepad gets the least free id exactly
as long as that id, in the history of the devices, is not above the one behind the id given last
(`lawful_iff`). -/
namespace Gamepad
open Runs IdTable

/-- The set is kept in ascending order. `gamepads` are the joysticks with a gamepad, and its index.
-/
structure GamepadManager (J : Type) where
  takenGamepadIds : List Nat := []
  takenGamepadLowId : Nat := 0
  gamepads : List (J × Nat) := []

namespace GamepadManager
variable {J : Type}

/-- The loop of `takeGamepadId` over the ids from the mark on; `next` is `p + 1`. -/
def takeLoop (next : Nat) : List Nat → Nat
  | [] => next
  | id :: ids => if id = next then takeLoop (id + 1) ids else next

def takeGamepadId (m : GamepadManager J) : Nat × GamepadManager J :=
  let next := takeLoop m.takenGamepadLowId
    (m.takenGamepadIds.dropWhile (· < m.takenGamepadLowId))
  (next, if next = m.takenGamepadLowId then
      { m with takenGamepadLowId := m.takenGamepadLowId + 1 }
    else m)

def putGamepadIdBack (m : GamepadManager J) (i : Nat) : GamepadManager J :=
  { m with
    takenGamepadLowId := if i < m.takenGamepadLowId then i else m.takenGamepadLowId
    takenGamepadIds := m.takenGamepadIds.filter (· ≠ i) }

variable [DecidableEq J]

/-- `onJoystickConnected`, with the index of the new gamepad. -/
def onJoystickConnected (m : GamepadManager J) (js : J) : Nat × GamepadManager J :=
  let (gpi, m) := m.takeGamepadId
  (gpi, { m with gamepads := (js, gpi) :: without m.gamepads js })

/-- With the index of the gamepad that goes; a joystick without one is a null pointer. -/
def onJoystickDisconnected (m : GamepadManager J) (js : J) : Option Nat × GamepadManager J :=
  match m.gamepads.lookup js with
  | none => (none, m)
  | some gpi =>
    let m := m.putGamepadIdBack gpi
    (some gpi, { m with gamepads := without m.gamepads js })

end GamepadManager

/-- What a `JoystickManager` reports. -/
inductive DeviceEvent (J : Type) where
  | connected (js : J)
  | disconnected (js : J)

namespace GamepadManager
variable {J : Type} [DecidableEq J] {m : GamepadManager J} {js : J}

def step (m : GamepadManager J) : DeviceEvent J → GamepadManager J
  | .connected js => (m.onJoystickConnected js).2
  | .disconnected js => (m.onJoystickDisconnected js).2

/-- A new joystick for each device that is added, and removals of joysticks there are. -/
def Sent (m : GamepadManager J) : DeviceEvent J → Prop
  | .connected js => js ∉ keys m.gamepads
  | .disconnected js => js ∈ keys m.gamepads

/-- The mark is no id in use when a gamepad is connected. -/
def LowIdFree (m : GamepadManager J) : DeviceEvent J → Prop
  | .connected _ => m.takenGamepadLowId ∉ ids m.gamepads
  | .disconnected _ => True

instance (m : GamepadManager J) : DecidablePred m.Sent
  | .connected js => inferInstanceAs (Decidable (js ∉ keys m.gamepads))
  | .disconnected js => inferInstanceAs (Decidable (js ∈ keys m.gamepads))

instance (m : GamepadManager J) : DecidablePred m.LowIdFree
  | .connected _ => inferInstanceAs (Decidable (m.takenGamepadLowId ∉ ids m.gamepads))
  | .disconnected _ => inferInstanceAs (Decidable True)

/-! ## The mark decides -/

/-- The set of taken ids is empty, and the ids below the mark are in use. -/
structure Inv (m : GamepadManager J) : Prop where
  taken : m.takenGamepadIds = []
  sound : Sound m.gamepads
  filled : FilledBelow m.takenGamepadLowId (ids m.gamepads)

omit [DecidableEq J] in
theorem Inv.start : Inv ({} : GamepadManager J) := ⟨rfl, Sound.nil, FilledBelow.zero _⟩

omit [DecidableEq J] in
theorem takeGamepadId_of_nil (h : m.takenGamepadIds = []) :
    m.takeGamepadId =
      (m.takenGamepadLowId, { m with takenGamepadLowId := m.takenGamepadLowId + 1 }) := by
  simp [takeGamepadId, h, takeLoop]

theorem onJoystickConnected_eq (h : m.takenGamepadIds = []) (hjs : js ∉ keys m.gamepads) :
    m.onJoystickConnected js =
      (m.takenGamepadLowId, { m with
        takenGamepadLowId := m.takenGamepadLowId + 1
        gamepads := (js, m.takenGamepadLowId) :: m.gamepads }) := by
  simp only [onJoystickConnected, takeGamepadId_of_nil h, without_of_notMem hjs]

theorem onJoystickDisconnected_eq {gpi : Nat} (h : m.gamepads.lookup js = some gpi) :
    m.onJoystickDisconnected js =
      (some gpi, { m.putGamepadIdBack gpi with gamepads := without m.gamepads js }) := by
  simp only [onJoystickDisconnected, h]
  rfl

omit [DecidableEq J] in
theorem putGamepadIdBack_low_le (m : GamepadManager J) (i : Nat) :
    (m.putGamepadIdBack i).takenGamepadLowId ≤ m.takenGamepadLowId ∧
      (m.putGamepadIdBack i).takenGamepadLowId ≤ i := by
  simp only [putGamepadIdBack]
  split <;> omega

namespace Inv
variable {m : GamepadManager J} (h : m.Inv)
include h

theorem connected (hjs : js ∉ keys m.gamepads) (hlow : m.takenGamepadLowId ∉ ids m.gamepads) :
    (m.onJoystickConnected js).2.Inv := by
  rw [onJoystickConnected_eq h.taken hjs]
  refine ⟨h.taken, h.sound.cons hjs hlow, ?_⟩
  intro i hi
  rcases Nat.lt_succ_iff_lt_or_eq.mp hi with hlt | rfl
  · exact List.mem_cons_of_mem _ (h.filled i hlt)
  · exact List.mem_cons_self

theorem disconnected (js : J) : (m.onJoystickDisconnected js).2.Inv := by
  rcases hlookup : m.gamepads.lookup js with _ | gpi
  · rw [onJoystickDisconnected, hlookup]
    exact h
  · rw [onJoystickDisconnected_eq hlookup]
    refine ⟨by simp [putGamepadIdBack, h.taken], h.sound.without js, ?_⟩
    -- the mark is not above the id that is freed, and the ids below it stay
    intro i hi
    have hlow := putGamepadIdBack_low_le m gpi
    change i < (m.putGamepadIdBack gpi).takenGamepadLowId at hi
    apply (h.sound.mem_ids_without (mem_of_lookup hlookup) i).mpr
    exact ⟨h.filled i (by omega), by omega⟩

theorem step {e : DeviceEvent J} (hsent : m.Sent e) (hlow : m.LowIdFree e) : (m.step e).Inv := by
  cases e with
  | connected js => exact h.connected hsent hlow
  | disconnected js => exact h.disconnected js

end Inv

end GamepadManager

/-! ## The history of the devices -/

/-- The gamepads with their ids as the law gives them, and the number behind the id given last. -/
structure Assigned (J : Type) where
  gamepads : List (J × Nat) := []
  next : Nat := 0

namespace Assigned
variable {J : Type} [DecidableEq J]

/-- A gamepad gets the least id that is not in use. -/
def step (s : Assigned J) : DeviceEvent J → Assigned J
  | .connected js =>
    let i := leastFree (ids s.gamepads)
    ⟨(js, i) :: s.gamepads, i + 1⟩
  | .disconnected js => { s with gamepads := without s.gamepads js }

/-- Between the id given last and the least one that is free, no id is in use. -/
def NoSkip (s : Assigned J) : DeviceEvent J → Prop
  | .connected _ => leastFree (ids s.gamepads) ≤ s.next
  | .disconnected _ => True

instance (s : Assigned J) : DecidablePred s.NoSkip
  | .connected _ => inferInstanceAs (Decidable (_ ≤ _))
  | .disconnected _ => inferInstanceAs (Decidable True)

end Assigned

namespace GamepadManager
variable {J : Type} [DecidableEq J] {m : GamepadManager J} {s : Assigned J} {js : J}

/-- The ids are distinct after the event, and a new gamepad has the least that was not in use. -/
def Lawful (m : GamepadManager J) (e : DeviceEvent J) : Prop :=
  (ids (m.step e).gamepads).Nodup ∧ ∀ js, e = .connected js →
    ∃ i, IsLeast {i | i ∉ ids m.gamepads} i ∧ (m.step e).gamepads = (js, i) :: m.gamepads

/-- The manager follows the law so far; its mark is behind the id given last, or was freed since. -/
structure Follows (m : GamepadManager J) (s : Assigned J) : Prop extends Inv m where
  same : m.gamepads = s.gamepads
  mark : m.takenGamepadLowId = s.next ∨
    m.takenGamepadLowId < s.next ∧ m.takenGamepadLowId ∉ ids s.gamepads

namespace Follows
variable (h : m.Follows s)
include h

omit [DecidableEq J] in
/-- The mark is the least free id exactly if no id is skipped. -/
theorem mark_free_iff :
    m.takenGamepadLowId ∉ ids m.gamepads ↔ leastFree (ids s.gamepads) ≤ s.next := by
  have hleast := leastFree_isLeast (ids s.gamepads)
  rw [h.same]
  constructor
  · intro hfree
    have hle := hleast.2 hfree
    rcases h.mark with heq | ⟨hlt, _⟩ <;> omega
  · intro hle
    rcases h.mark with heq | ⟨_, hfree⟩
    · -- all ids below the mark are in use
      have hfilled := h.filled
      rw [h.same] at hfilled
      have hge : ¬ leastFree (ids s.gamepads) < m.takenGamepadLowId := fun hlt =>
        hleast.1 (hfilled _ hlt)
      have heq' : leastFree (ids s.gamepads) = m.takenGamepadLowId := by omega
      exact heq' ▸ hleast.1
    · exact hfree

theorem lawful_iff {e : DeviceEvent J} (hsent : m.Sent e) : m.Lawful e ↔ s.NoSkip e := by
  cases e with
  | connected js =>
    rw [Assigned.NoSkip, ← h.mark_free_iff, Lawful, step, onJoystickConnected_eq h.taken hsent]
    constructor
    · rintro ⟨_, hleast⟩
      obtain ⟨i, hi, heq⟩ := hleast js rfl
      -- the id of the new gamepad is the mark
      obtain rfl : _ = i := congrArg Prod.snd (List.cons.inj heq).1
      exact hi.1
    · intro hfree
      refine ⟨List.nodup_cons.mpr ⟨hfree, h.sound.ids_nodup⟩, fun js' heq => ?_⟩
      cases heq
      exact ⟨_, h.filled.isLeast hfree, rfl⟩
  | disconnected js => exact iff_of_true ⟨(h.disconnected js).sound.ids_nodup, nofun⟩ trivial

theorem step {e : DeviceEvent J} (hsent : m.Sent e) (hlaw : m.Lawful e) :
    (m.step e).Follows (s.step e) := by
  have hskip := (h.lawful_iff hsent).mp hlaw
  cases e with
  | connected js =>
    have hfree := h.mark_free_iff.mpr hskip
    have hmark : m.takenGamepadLowId = leastFree (ids s.gamepads) :=
      (h.filled.isLeast hfree).unique (h.same ▸ leastFree_isLeast _)
    refine ⟨h.connected hsent hfree, ?_, .inl ?_⟩
    · rw [GamepadManager.step, onJoystickConnected_eq h.taken hsent, Assigned.step, ← hmark, h.same]
    · rw [GamepadManager.step, onJoystickConnected_eq h.taken hsent, Assigned.step, ← hmark]
  | disconnected js =>
    obtain ⟨gpi, hlookup⟩ := Option.ne_none_iff_exists'.mp fun hnone =>
      lookup_eq_none.mp hnone hsent
    have hinv := h.disconnected js
    have hids := h.sound.mem_ids_without (mem_of_lookup hlookup)
    have hmark := h.mark
    refine ⟨hinv, ?_, ?_⟩
    · rw [GamepadManager.step, onJoystickDisconnected_eq hlookup, Assigned.step, h.same]
    · rw [GamepadManager.step, onJoystickDisconnected_eq hlookup, Assigned.step]
      rw [h.same] at hids
      simp only [putGamepadIdBack, hids]
      split
      · exact .inr ⟨by omega, fun hmem => hmem.2 rfl⟩
      · exact hmark.imp_right fun hlt => ⟨hlt.1, fun hmem => hlt.2 hmem.1⟩

end Follows

/-- **The law holds along a run exactly if no id is skipped in its history.** -/
theorem lawful_iff {events : List (DeviceEvent J)} (hsent : Along step Sent {} events) :
    Along step Lawful ({} : GamepadManager J) events ↔
      Along Assigned.step Assigned.NoSkip {} events := by
  refine along_iff Follows ?_ ?_ ⟨.start, rfl, .inl rfl⟩ hsent
  · exact fun _ _ _ h hsent => h.lawful_iff hsent
  · exact fun _ _ _ h hsent hlaw => h.step hsent hlaw

end GamepadManager

end Gamepad
