import McpeLauncher.GamepadMapping
import McpeLauncher.Runs

/-! # Two views of a gamepad

`Gamepad::getButton` and `getAxis` go through the mapping and read the joystick; `GamepadManager`
reports changes, going through the entries for the input that has changed only. -/
namespace Gamepad
open Runs List Function

/-- What a joystick answers: `Joystick::getButton`, `getAxis` and `getHat`. -/
structure Joystick where
  getButton : Int → Bool
  getAxis : Int → ℚ
  getHat : Int → BitVec 32

inductive JoystickEvent where
  | button (id : Int) (state : Bool)
  | axis (id : Int) (value : ℚ)
  | hat (id : Int) (value : BitVec 32)

/-- A joystick reports an event when it has the new value. -/
def Joystick.after (js : Joystick) : JoystickEvent → Joystick
  | .button id state => { js with getButton := Function.update js.getButton id state }
  | .axis id value => { js with getAxis := Function.update js.getAxis id value }
  | .hat id value => { js with getHat := Function.update js.getHat id value }

/-- The test of `Gamepad::getButton` on an entry. -/
def MapFrom.isActive (js : Joystick) : MapFrom → Bool
  | .button id => js.getButton id
  | .axis d => isAxisActive d (js.getAxis d.id)
  | .hat id mask => js.getHat id &&& mask ≠ 0

/-- What `Gamepad::getAxis` returns at an entry, if it does not go on. -/
def MapFrom.axisValue (js : Joystick) (d : AxisTo) : MapFrom → Option ℚ
  | .button id => if js.getButton id then some d.max else none
  | .axis a => getAxisTransformedValue a d (js.getAxis a.id)
  | .hat id mask => if js.getHat id &&& mask ≠ 0 then some d.max else none

def getButton (mappings : List Mapping) (js : Joystick) (index : GamepadButton) : Bool :=
  mappings.any fun map => match map.mapTo with
    | .button id => id = index && map.mapFrom.isActive js
    | .axis _ => false

def getAxis (mappings : List Mapping) (js : Joystick) (index : GamepadAxis) : ℚ :=
  (mappings.findSome? fun map => match map.mapTo with
    | .axis d => if d.id = index then map.mapFrom.axisValue js d else none
    | .button _ => none).getD 0

/-! ## The reported view -/

/-- A call of `onGamepadButton` or `onGamepadAxis`. -/
inductive Report where
  | button (id : GamepadButton) (pressed : Bool)
  | axis (id : GamepadAxis) (value : ℚ)

def MapTo.reportState (state : Bool) : MapTo → Report
  | .button id => .button id state
  | .axis d => .axis d.id (if state then d.max else d.min)

def MapTo.reportAxis (a : AxisFrom) (value : ℚ) : MapTo → Option Report
  | .button id => some (.button id (isAxisActive a value))
  | .axis d => (getAxisTransformedValue a d value).map (.axis d.id)

/-- What the loops of `onJoystickButton`, `onJoystickAxis` and `onJoystickHat` do at an
entry. -/
def Mapping.report (map : Mapping) : JoystickEvent → Option Report
  | .button button state => match map.mapFrom with
    | .button id => if id = button then some (map.mapTo.reportState state) else none
    | _ => none
  | .axis axis value => match map.mapFrom with
    | .axis d => if d.id = axis then map.mapTo.reportAxis d value else none
    | _ => none
  | .hat hat value => match map.mapFrom with
    | .hat id mask => if id = hat then some (map.mapTo.reportState (value &&& mask ≠ 0)) else none
    | _ => none

def onJoystickButton (mappings : List Mapping) (button : Int) (state : Bool) : List Report :=
  mappings.filterMap (·.report (.button button state))

def onJoystickAxis (mappings : List Mapping) (axis : Int) (value : ℚ) : List Report :=
  mappings.filterMap (·.report (.axis axis value))

def onJoystickHat (mappings : List Mapping) (hat : Int) (value : BitVec 32) : List Report :=
  mappings.filterMap (·.report (.hat hat value))

def onJoystick (mappings : List Mapping) : JoystickEvent → List Report
  | .button id state => onJoystickButton mappings id state
  | .axis id value => onJoystickAxis mappings id value
  | .hat id value => onJoystickHat mappings id value

def Report.button? (index : GamepadButton) : Report → Option Bool
  | .button id pressed => if id = index then some pressed else none
  | .axis _ _ => none

def Report.axis? (index : GamepadAxis) : Report → Option ℚ
  | .axis id value => if id = index then some value else none
  | .button _ _ => none

def lastButton (reports : List Report) (index : GamepadButton) : Option Bool :=
  (reports.filterMap (Report.button? index)).getLast?

def lastAxis (reports : List Report) (index : GamepadAxis) : Option ℚ :=
  (reports.filterMap (Report.axis? index)).getLast?

def reports (mappings : List Mapping) (events : List JoystickEvent) : List Report :=
  events.flatMap (onJoystick mappings)

/-! ## Entries for one target -/

def Mapping.isForButton (index : GamepadButton) (map : Mapping) : Bool :=
  match map.mapTo with
  | .button id => id = index
  | .axis _ => false

def Mapping.isForAxis (index : GamepadAxis) (map : Mapping) : Bool :=
  match map.mapTo with
  | .axis d => d.id = index
  | .button _ => false

theorem onJoystick_eq (mappings : List Mapping) (e : JoystickEvent) :
    onJoystick mappings e = mappings.filterMap (·.report e) := by
  cases e <;> rfl

variable {d : AxisTo} {index : GamepadAxis} {e : JoystickEvent} {events : List JoystickEvent}
  {mappings : List Mapping} {map : Mapping} {isFor : Mapping → Bool} {r : Report} {β : Type}
  {value : ℚ} {pick : Report → Option β}

theorem filterMap_eq_filter {α : Type} {f : α → Option β} {p : α → Bool}
    (h : ∀ a, p a = false → f a = none) (l : List α) :
    l.filterMap f = (l.filter p).filterMap f := by
  rw [filterMap_filter]
  apply filterMap_congr
  intro a _
  rcases ha : p a with _ | _
  · rw [h a ha]
    rfl
  · rfl

theorem filterMap_reports
    (hpick : ∀ map e r, isFor map = false → map.report e = some r → pick r = none)
    (mappings : List Mapping) (events : List JoystickEvent) :
    (reports mappings events).filterMap pick =
      events.flatMap fun e => (mappings.filter isFor).filterMap fun map =>
        (map.report e).bind pick := by
  rw [reports, filterMap_flatMap]
  refine congrArg (events.flatMap ·) (funext fun e => ?_)
  rw [onJoystick_eq, filterMap_filterMap]
  apply filterMap_eq_filter
  intro map hfor
  rw [Option.bind_eq_none_iff]
  intro r hr
  exact hpick map e r hfor hr

theorem eq_nil_or_singleton {α : Type} {l : List α} (h : l.length ≤ 1) : l = [] ∨ ∃ a, l = [a] := by
  rcases Nat.le_one_iff_eq_zero_or_eq_one.mp h with hzero | hone
  · exact .inl (length_eq_zero_iff.mp hzero)
  · exact .inr (length_eq_one_iff.mp hone)

/-- **One entry, one view.** A target with one entry at most is reported as `view` sees it. -/
theorem last_of_single (view : Joystick → β)
    (hpick : ∀ map e r, isFor map = false → map.report e = some r → pick r = none)
    (hone : (mappings.filter isFor).length ≤ 1)
    (hview : ∀ map, mappings.filter isFor = [map] → ∀ js, ∀ e ∈ events,
      (∀ v, (map.report e).bind pick = some v → view (js.after e) = v) ∧
      ((map.report e).bind pick = none → view (js.after e) = view js)) (js : Joystick) {v : β}
    (hlast : ((reports mappings events).filterMap pick).getLast? = some v) :
    view (events.foldl Joystick.after js) = v := by
  rw [filterMap_reports hpick] at hlast
  rcases eq_nil_or_singleton hone with hnil | ⟨map, hmap⟩
  · rw [hnil] at hlast
    simp only [filterMap_nil, flatMap_eq_nil_iff.mpr fun _ _ => rfl] at hlast
    exact absurd hlast (by simp)
  · apply last_report (fun js e he => (hview map hmap js e he).1)
      (fun js e he => (hview map hmap js e he).2) js
    rw [hmap] at hlast
    rw [filterMap_eq_flatMap_toList]
    exact hlast

def Report.IsFor (r : Report) : MapTo → Prop
  | .button id => ∃ pressed, r = .button id pressed
  | .axis d => ∃ value, r = .axis d.id value

theorem MapTo.reportState_isFor (state : Bool) (mapTo : MapTo) :
    (mapTo.reportState state).IsFor mapTo := by
  cases mapTo with
  | button id => exact ⟨state, rfl⟩
  | axis d => exact ⟨_, rfl⟩

theorem MapTo.reportAxis_isFor {a : AxisFrom} {mapTo : MapTo}
    (hr : mapTo.reportAxis a value = some r) : r.IsFor mapTo := by
  cases mapTo with
  | button id => exact ⟨_, (Option.some.inj hr).symm⟩
  | axis d =>
    obtain ⟨v, _, hv⟩ := Option.map_eq_some_iff.mp hr
    exact ⟨v, hv.symm⟩

theorem Mapping.report_isFor (hr : map.report e = some r) : r.IsFor map.mapTo := by
  cases e <;> rw [report] at hr <;> split at hr <;> try contradiction
  all_goals
    rw [Option.ite_none_right_eq_some] at hr
    obtain ⟨_, hr⟩ := hr
  · exact Option.some.inj hr ▸ map.mapTo.reportState_isFor _
  · exact MapTo.reportAxis_isFor hr
  · exact Option.some.inj hr ▸ map.mapTo.reportState_isFor _

theorem button?_report {index : GamepadButton} (map : Mapping) (e : JoystickEvent) (r : Report)
    (hfor : map.isForButton index = false) (hr : map.report e = some r) :
    r.button? index = none := by
  have hr := Mapping.report_isFor hr
  rw [Mapping.isForButton] at hfor
  rcases hto : map.mapTo with id | d
  · rw [hto] at hr hfor
    obtain ⟨pressed, rfl⟩ := hr
    rw [Report.button?, if_neg (by simpa using hfor)]
  · rw [hto] at hr
    obtain ⟨value, rfl⟩ := hr
    rfl

theorem getButton_eq (mappings : List Mapping) (js : Joystick) (index : GamepadButton) :
    getButton mappings js index =
      (mappings.filter (Mapping.isForButton index)).any fun map => map.mapFrom.isActive js := by
  rw [getButton, any_filter]
  congr 1
  funext map
  rw [Mapping.isForButton]
  cases map.mapTo <;> rfl

/-- What an event says about an input. -/
def MapFrom.activeAt : MapFrom → JoystickEvent → Option Bool
  | .button id, .button id' state => if id = id' then some state else none
  | .axis d, .axis id' value => if d.id = id' then some (isAxisActive d value) else none
  | .hat id mask, .hat id' value => if id = id' then some (value &&& mask ≠ 0) else none
  | _, _ => none

theorem MapFrom.isActive_after (mapFrom : MapFrom) (js : Joystick) (e : JoystickEvent) :
    mapFrom.isActive (js.after e) = (mapFrom.activeAt e).getD (mapFrom.isActive js) := by
  cases e <;> cases mapFrom <;> try rfl
  all_goals
    simp only [isActive, activeAt, Joystick.after, update_apply]
    split <;> rfl

theorem Mapping.report_button {id : GamepadButton} (hto : map.mapTo = .button id)
    (e : JoystickEvent) : map.report e = (map.mapFrom.activeAt e).map (Report.button id) := by
  obtain ⟨mapFrom, mapTo⟩ := map
  obtain rfl : mapTo = _ := hto
  cases e <;> cases mapFrom <;> try rfl
  all_goals
    simp only [report, MapFrom.activeAt, MapTo.reportState, MapTo.reportAxis]
    split <;> rfl

theorem lastButton_eq {index : GamepadButton}
    (hone : (mappings.filter (Mapping.isForButton index)).length ≤ 1) (js : Joystick)
    {pressed : Bool} (hlast : lastButton (reports mappings events) index = some pressed) :
    getButton mappings (events.foldl Joystick.after js) index = pressed := by
  refine last_of_single (getButton mappings · index) button?_report hone ?_ js hlast
  intro map hmap js e _
  obtain ⟨_, hfor⟩ : map ∈ mappings ∧ map.isForButton index := by
    rw [← mem_filter, hmap]
    exact mem_singleton_self map
  have hto : map.mapTo = .button index := by
    rw [Mapping.isForButton] at hfor
    rcases hto : map.mapTo with id | d
    · simpa [hto] using hfor
    · simp [hto] at hfor
  have hreport : (map.report e).bind (Report.button? index) = map.mapFrom.activeAt e := by
    rw [Mapping.report_button hto]
    cases map.mapFrom.activeAt e <;> simp [Report.button?]
  have hview : ∀ js, getButton mappings js index = map.mapFrom.isActive js := by
    intro js
    rw [getButton_eq, hmap, any_cons, any_nil, Bool.or_false]
  rw [hreport, hview, hview, MapFrom.isActive_after]
  constructor
  · intro v hv
    rw [hv, Option.getD_some]
  · intro hnone
    rw [hnone, Option.getD_none]

/-- Zero where a button or hat is at rest, and a range that holds the axis' value. -/
def Mapping.Covers (map : Mapping) (e : JoystickEvent) : Prop :=
  match map.mapTo, map.mapFrom with
  | .button _, _ => True
  | .axis d, .axis a => ∀ value, e = .axis a.id value → getAxisTransformedValue a d value ≠ none
  | .axis d, _ => d.min = 0

theorem axis?_report (map : Mapping) (e : JoystickEvent) (r : Report)
    (hfor : map.isForAxis index = false) (hr : map.report e = some r) : r.axis? index = none := by
  have hr := Mapping.report_isFor hr
  rw [Mapping.isForAxis] at hfor
  rcases hto : map.mapTo with id | d
  · rw [hto] at hr
    obtain ⟨pressed, rfl⟩ := hr
    rfl
  · rw [hto] at hr hfor
    obtain ⟨value, rfl⟩ := hr
    rw [Report.axis?, if_neg (by simpa using hfor)]

/-- What an event says about the value of an entry for an axis. -/
def MapFrom.valueAt (d : AxisTo) : MapFrom → JoystickEvent → Option (Option ℚ)
  | .button id, .button id' state =>
    if id = id' then some (if state then some d.max else none) else none
  | .axis a, .axis id' value =>
    if a.id = id' then some (getAxisTransformedValue a d value) else none
  | .hat id mask, .hat id' value =>
    if id = id' then some (if value &&& mask ≠ 0 then some d.max else none) else none
  | _, _ => none

theorem MapFrom.axisValue_after (d : AxisTo) (mapFrom : MapFrom) (js : Joystick)
    (e : JoystickEvent) :
    mapFrom.axisValue (js.after e) d = (mapFrom.valueAt d e).getD (mapFrom.axisValue js d) := by
  cases e <;> cases mapFrom <;> try rfl
  all_goals
    simp only [axisValue, valueAt, Joystick.after, update_apply]
    split <;> rfl

theorem reportState_axis (hrest : d.min = 0) (state : Bool) :
    (MapTo.axis d).reportState state =
      Report.axis d.id ((if state then some d.max else none).getD 0) := by
  cases state with
  | false => rw [MapTo.reportState, hrest]; rfl
  | true => rfl

theorem Mapping.report_axis (hto : map.mapTo = .axis d) (hcovers : map.Covers e) :
    map.report e = (map.mapFrom.valueAt d e).map fun v => Report.axis d.id (v.getD 0) := by
  obtain ⟨mapFrom, mapTo⟩ := map
  obtain rfl : mapTo = _ := hto
  cases e <;> cases mapFrom <;> try rfl
  case button.button id' state id =>
    rw [report, MapFrom.valueAt]
    by_cases hid : id = id'
    · simp only [if_pos hid, Option.map_some, reportState_axis hcovers]
    · simp only [if_neg hid, Option.map_none]
  case axis.axis id' value a =>
    rw [report, MapFrom.valueAt]
    by_cases hid : a.id = id'
    · -- the value is in the range, so it is no NaN
      obtain ⟨v, hv⟩ := Option.ne_none_iff_exists'.mp (hcovers value (by rw [hid]))
      simp only [if_pos hid, MapTo.reportAxis, hv, Option.map_some, Option.getD_some]
    · simp only [if_neg hid, Option.map_none]
  case hat.hat id' value id mask =>
    rw [report, MapFrom.valueAt]
    by_cases hid : id = id'
    · simp only [if_pos hid, Option.map_some, reportState_axis hcovers, decide_eq_true_eq]
    · simp only [if_neg hid, Option.map_none]

theorem getAxis_eq (hmap : mappings.filter (Mapping.isForAxis index) = [map])
    (hto : map.mapTo = .axis d) (hid : d.id = index) (js : Joystick) :
    getAxis mappings js index = (map.mapFrom.axisValue js d).getD 0 := by
  rw [getAxis, ← head?_filterMap]
  rw [filterMap_eq_filter (p := Mapping.isForAxis index), hmap]
  · simp only [filterMap_cons, filterMap_nil, hto, if_pos hid]
    cases map.mapFrom.axisValue js d <;> rfl
  · intro map hfor
    rw [Mapping.isForAxis] at hfor
    split
    · simp_all
    · rfl

theorem lastAxis_eq (hone : (mappings.filter (Mapping.isForAxis index)).length ≤ 1)
    (hcovers : ∀ map ∈ mappings, map.isForAxis index → ∀ e ∈ events, map.Covers e) (js : Joystick)
    (hlast : lastAxis (reports mappings events) index = some value) :
    getAxis mappings (events.foldl Joystick.after js) index = value := by
  refine last_of_single (getAxis mappings · index) axis?_report hone ?_ js hlast
  intro map hmap js e he
  obtain ⟨hmem, hfor⟩ : map ∈ mappings ∧ map.isForAxis index := by
    rw [← mem_filter, hmap]
    exact mem_singleton_self map
  obtain ⟨d, hto, hid⟩ : ∃ d, map.mapTo = .axis d ∧ d.id = index := by
    rw [Mapping.isForAxis] at hfor
    rcases hto : map.mapTo with id | d
    · simp [hto] at hfor
    · exact ⟨d, rfl, by simpa [hto] using hfor⟩
  have hreport : (map.report e).bind (Report.axis? index) =
      (map.mapFrom.valueAt d e).map (·.getD 0) := by
    rw [Mapping.report_axis hto (hcovers map hmem hfor e he)]
    cases map.mapFrom.valueAt d e <;> simp [Report.axis?, hid]
  rw [hreport, getAxis_eq hmap hto hid, getAxis_eq hmap hto hid, MapFrom.axisValue_after]
  constructor
  · intro v hv
    obtain ⟨w, hw, rfl⟩ := Option.map_eq_some_iff.mp hv
    rw [hw, Option.getD_some]
  · intro hnone
    rw [Option.map_eq_none_iff.mp hnone, Option.getD_none]

/-- **The two views agree** on every button with one entry at most, and on every axis with
one entry at most that covers the events. -/
theorem gamepad_views_agree (mappings : List Mapping) (js : Joystick)
    (events : List JoystickEvent) :
    (∀ index, (mappings.filter (Mapping.isForButton index)).length ≤ 1 →
      ∀ pressed, lastButton (reports mappings events) index = some pressed →
        getButton mappings (events.foldl Joystick.after js) index = pressed) ∧
    ∀ index, (mappings.filter (Mapping.isForAxis index)).length ≤ 1 →
      (∀ map ∈ mappings, map.isForAxis index → ∀ e ∈ events, map.Covers e) →
      ∀ value, lastAxis (reports mappings events) index = some value →
        getAxis mappings (events.foldl Joystick.after js) index = value := by
  constructor
  · intro index hone pressed hlast
    exact lastButton_eq hone js hlast
  · intro index hone hcovers value hlast
    exact lastAxis_eq hone hcovers js hlast

def Joystick.atRest : Joystick where
  getButton _ := false
  getAxis _ := 0
  getHat _ := 0

theorem gamepad_views_agree_stick :
    let mappings : List Mapping :=
      [⟨.button 0, .button .a⟩, ⟨.axis ⟨0, -1, 1⟩, .axis ⟨.leftX, -1, 1⟩⟩]
    let events : List JoystickEvent := [.button 0 true, .axis 0 (1 / 2)]
    (lastButton (reports mappings events) .a = some true ∧
      getButton mappings (events.foldl Joystick.after .atRest) .a = true) ∧
    lastAxis (reports mappings events) .leftX = some (1 / 2) ∧
      getAxis mappings (events.foldl Joystick.after .atRest) .leftX = 1 / 2 := by
  intro mappings events
  have hbutton : lastButton (reports mappings events) .a = some true := by decide +kernel
  have haxis : lastAxis (reports mappings events) .leftX = some (1 / 2) := by decide +kernel
  obtain ⟨hbuttons, haxes⟩ := gamepad_views_agree mappings .atRest events
  refine ⟨⟨hbutton, hbuttons .a (by decide) true hbutton⟩, haxis,
    haxes .leftX (by decide) ?_ (1 / 2) haxis⟩
  simp only [mappings, forall_mem_cons]
  refine ⟨by simp [Mapping.isForAxis], fun _ e he value hvalue => ?_, by simp⟩
  have hhalf : value = 1 / 2 := by simpa [events, hvalue] using he
  rw [hhalf]
  decide +kernel

/-- Two buttons for one, of which one is let go; half an axis that is pulled the other way;
and a button for a stick that is let go. -/
theorem gamepad_views_differ :
    (let mappings : List Mapping := [⟨.button 0, .button .a⟩, ⟨.button 1, .button .a⟩]
     let events : List JoystickEvent := [.button 0 true, .button 1 true, .button 0 false]
     lastButton (reports mappings events) .a = some false ∧
      getButton mappings (events.foldl Joystick.after .atRest) .a = true) ∧
    (let mappings : List Mapping := [⟨.axis ⟨0, 0, 1⟩, .axis ⟨.leftX, 0, 1⟩⟩]
     let events : List JoystickEvent := [.axis 0 1, .axis 0 (-1 / 2)]
     lastAxis (reports mappings events) .leftX = some 1 ∧
      getAxis mappings (events.foldl Joystick.after .atRest) .leftX = 0) ∧
    let mappings : List Mapping := [⟨.button 0, .axis ⟨.leftX, -1, 1⟩⟩]
    let events : List JoystickEvent := [.button 0 true, .button 0 false]
    lastAxis (reports mappings events) .leftX = some (-1) ∧
      getAxis mappings (events.foldl Joystick.after .atRest) .leftX = 0 := by
  decide +kernel

end Gamepad
