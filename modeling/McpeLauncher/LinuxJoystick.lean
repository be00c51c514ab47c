import Mathlib
import McpeLauncher.Numbering
import McpeLauncher.Runs

/-! # Joysticks of linux-gamepad

A `LinuxJoystick` numbers the buttons, axes and hats of its device. A code is tested modulo the
number of codes, but one below `BTN_JOYSTICK` is written behind the table. -/
namespace Gamepad
open Numbering List

def keyCnt : Nat := 768

def btnJoystick : Nat := 288

def absCnt : Nat := 64

/-! ## The numbers of the buttons -/

/-- The assignments `buttons[i] = nextId++`, with `KEY_CNT` as `len`. -/
def buttonWrites (keys : BitVec keyCnt) : List (Nat × Nat) :=
  number (fun i => keys.getLsbD (i % keyCnt)) (List.range' btnJoystick keyCnt) 0

/-- `buttons` after the loop, as far as the assignments are inside of it. -/
def buttonTable (keys : BitVec keyCnt) : Nat → Int :=
  assign (fun _ => -1)
    (((buttonWrites keys).filter fun w => w.1 < keyCnt).map fun w => (w.1, (w.2 : Int)))

/-- The key codes from the joystick buttons on, and then those below. -/
def scanOrder : List Nat := List.range' btnJoystick (keyCnt - btnJoystick) ++ List.range btnJoystick

def presentCodes (keys : BitVec keyCnt) : List Nat := scanOrder.filter fun c => keys.getLsbD c

/-- The present codes have the numbers from 0 on, in order, and the others none. -/
structure Numbered (keys : BitVec keyCnt) : Prop where
  inside : ∀ w ∈ buttonWrites keys, w.1 < keyCnt
  present : (presentCodes keys).map (buttonTable keys) =
    (List.range (presentCodes keys).length).map Int.ofNat
  absent : ∀ code < keyCnt, keys.getLsbD code = false → buttonTable keys code = -1

section Buttons
variable (keys : BitVec keyCnt) {code : Nat}

theorem filter_joystick_range :
    (range' btnJoystick (keyCnt - btnJoystick)).filter (fun i => keys.getLsbD (i % keyCnt)) =
      (range' btnJoystick (keyCnt - btnJoystick)).filter fun c => keys.getLsbD c := by
  refine filter_congr fun i hi => ?_
  rw [mem_range'_1] at hi
  have hlt : i < keyCnt := by omega
  rw [Nat.mod_eq_of_lt hlt]

theorem mem_presentCodes : code ∈ presentCodes keys ↔ code < keyCnt ∧ keys.getLsbD code = true := by
  rw [presentCodes, mem_filter, scanOrder, mem_append, mem_range'_1, mem_range]
  refine and_congr_left fun _ => ?_
  simp only [btnJoystick, keyCnt]
  omega

theorem nodup_presentCodes : (presentCodes keys).Nodup := by
  refine Nodup.filter _ (nodup_append.mpr ⟨nodup_range', nodup_range, ?_⟩)
  intro a ha b hb
  rw [mem_range'_1] at ha
  rw [mem_range] at hb
  omega

variable {keys}

/-- Without codes below the joystick buttons the second part of the loop does nothing. -/
theorem map_fst_buttonWrites (h : ∀ code < btnJoystick, keys.getLsbD code = false) :
    (buttonWrites keys).map Prod.fst = presentCodes keys := by
  have hsplit : range' btnJoystick keyCnt =
      range' btnJoystick (keyCnt - btnJoystick) ++ range' keyCnt btnJoystick := by
    rw [show keyCnt = keyCnt - btnJoystick + btnJoystick from rfl, ← range'_append_1]
    rfl
  have hwrapped : (range' keyCnt btnJoystick).filter
      (fun i => keys.getLsbD (i % keyCnt)) = [] := by
    refine filter_eq_nil_iff.mpr fun i hi => ?_
    rw [mem_range'_1] at hi
    have hmod : i % keyCnt < btnJoystick := by
      simp only [btnJoystick, keyCnt] at hi ⊢
      omega
    simp [h _ hmod]
  have hlow : (range btnJoystick).filter (fun c => keys.getLsbD c) = [] := by
    refine filter_eq_nil_iff.mpr fun c hc => ?_
    simp [h c (mem_range.mp hc)]
  rw [buttonWrites, map_fst_number, hsplit, filter_append, hwrapped, filter_joystick_range,
    presentCodes, scanOrder, filter_append, hlow]

theorem mem_buttonWrites_wrapped (hcode : code < btnJoystick) (h : keys.getLsbD code = true) :
    ∃ n, (keyCnt + code, n) ∈ buttonWrites keys := by
  have hmod : (keyCnt + code) % keyCnt = code := by
    simp only [btnJoystick, keyCnt] at hcode ⊢
    omega
  have hmem : keyCnt + code ∈ range' btnJoystick keyCnt := by
    rw [mem_range'_1]
    simp only [btnJoystick, keyCnt] at hcode ⊢
    omega
  obtain ⟨n, hn⟩ := lookup_number (fun i => keys.getLsbD (i % keyCnt)) 0 hmem (by rw [hmod, h])
  exact ⟨n, mem_of_lookup hn⟩

end Buttons

/-- **The buttons are numbered exactly if no code below the joystick buttons is present.** -/
theorem buttons_numbered_iff (keys : BitVec keyCnt) :
    Numbered keys ↔ ∀ code < btnJoystick, keys.getLsbD code = false := by
  constructor
  · intro h code hcode
    by_contra hpresent
    obtain ⟨n, hn⟩ := mem_buttonWrites_wrapped hcode (Bool.not_eq_false _ ▸ hpresent)
    have := h.inside _ hn
    omega
  · intro h
    have hfst := map_fst_buttonWrites h
    have hinside : ∀ w ∈ buttonWrites keys, w.1 < keyCnt := by
      intro w hw
      have hmem : w.1 ∈ presentCodes keys := hfst ▸ mem_map_of_mem hw
      exact ((mem_presentCodes keys).mp hmem).1
    have htable : buttonTable keys =
        assign (fun _ => -1) ((buttonWrites keys).map fun w => (w.1, (w.2 : Int))) := by
      rw [buttonTable, filter_eq_self.mpr fun w hw => by simpa using hinside w hw]
    have hcodes : ((buttonWrites keys).map fun w => (w.1, (w.2 : Int))).map Prod.fst =
        presentCodes keys := by
      rw [map_map, ← hfst]
      rfl
    refine ⟨hinside, ?_, ?_⟩
    · have hmap := map_assign (fun _ => (-1 : Int)) (hcodes ▸ nodup_presentCodes keys)
      rw [hcodes, ← htable] at hmap
      rw [hmap, map_map, ← hfst, length_map, buttonWrites, length_number,
        range_eq_range', ← map_snd_number, map_map]
      rfl
    · intro code _ habsent
      rw [htable, assign_of_not_mem]
      rw [hcodes, mem_presentCodes, habsent]
      simp

/-- A device with the one key 158, a back key. -/
def backKey : BitVec keyCnt := BitVec.ofNat keyCnt (2 ^ 158)

/-- Its key is written behind the table. -/
theorem buttons_not_numbered :
    backKey.getLsbD 158 = true ∧ buttonWrites backKey = [(926, 0)] ∧
      buttonTable backKey 158 = -1 ∧ ¬ Numbered backKey := by
  have hwrites : buttonWrites backKey = [(926, 0)] := by decide +kernel
  refine ⟨by decide +kernel, hwrites, by decide +kernel, fun h => ?_⟩
  have hinside := h.inside (926, 0) (by rw [hwrites]; exact mem_singleton_self _)
  exact absurd hinside (by decide)

structure AxisInfo where
  index : Int
  min : Int32
  max : Int32
  flat : Int32
  fuzz : Int32

structure AbsInfo where
  minimum : Int32
  maximum : Int32
  flat : Int32
  fuzz : Int32

/-- The bits of `EVIOCGBIT`, and `libevdev_get_abs_info`, which knows every axis there is. -/
structure Device where
  keys : BitVec keyCnt
  abs : BitVec absCnt
  absInfo : Nat → Option AbsInfo
  known : ∀ i, abs.getLsbD i = true → (absInfo i).isSome = true

/-- What is passed to the `LinuxJoystickManager`. -/
inductive JoystickReport (F : Type) where
  | button (index : Int) (value : Bool)
  | hat (index : Int) (value : BitVec 32)
  | axis (index : Int) (value : F)

structure LinuxJoystick (F : Type) where
  buttons : Nat → Int
  axis : Nat → AxisInfo
  buttonValues : Nat → Bool
  axisValues : Nat → F
  hatValues : Nat → BitVec 32
  reports : List (JoystickReport F)

/-- The operations of `float` that are used. -/
structure FloatOps (F : Type) where
  ofInt : Int32 → F
  div : F → F → F
  neg : F → F
  lt : F → F → Bool

def isHat (code : Nat) : Bool := 16 ≤ code && code ≤ 23

namespace Device
variable (d : Device)

def isAxis (i : Nat) : Bool := d.abs.getLsbD i && (d.absInfo i).isSome && !isHat i

def axisIds : List (Nat × Nat) := number d.isAxis (List.range absCnt) 0

/-- `axis` after the first loop; `memory` is what stands there before. -/
def firstAxis (memory : Nat → AxisInfo) (i : Nat) : AxisInfo :=
  if d.abs.getLsbD i then
    match d.absInfo i with
    | none => memory i
    | some absinfo =>
      { index := if isHat i then 0 else (d.axisIds.lookup i).elim (-1) Int.ofNat
        min := absinfo.minimum
        max := absinfo.maximum
        flat := absinfo.flat
        fuzz := absinfo.fuzz }
  else { memory i with index := -1 }

/-- The hats that take the next number, by the codes of their first axes. -/
def hatIds (memory : Nat → AxisInfo) : List (Nat × Nat) :=
  number (fun i => (d.firstAxis memory i).index ≠ -1 || (d.firstAxis memory (i + 1)).index ≠ -1)
    [16, 18, 20, 22] 0

def axis (memory : Nat → AxisInfo) (i : Nat) : AxisInfo :=
  if isHat i then
    match (d.hatIds memory).lookup (i - i % 2) with
    | none => d.firstAxis memory i
    | some id => { d.firstAxis memory i with index := id }
  else d.firstAxis memory i

end Device

/-- What is written behind `buttons` lands in `axis`, which is filled afterwards; `axis` and
`hatValues` are not initialized. -/
def newLinuxJoystick {F : Type} (fl : FloatOps F) (d : Device) (memory : Nat → AxisInfo)
    (hats : Nat → BitVec 32) : LinuxJoystick F where
  buttons := buttonTable d.keys
  axis := d.axis memory
  buttonValues _ := false
  axisValues _ := fl.ofInt 0
  hatValues := hats
  reports := []

structure InputEvent where
  type : Nat
  code : Nat
  value : Int32
  deriving DecidableEq

def evKey : Nat := 1

def evAbs : Nat := 3

/-- The bits of a hat that an axis of it moves: up and down, or left and right. -/
def hatMask (code : Nat) : BitVec 32 := if code % 2 = 1 then 0b0101 else 0b1010

def hatBit (code : Nat) (value : Int32) : BitVec 32 :=
  if value = 0 then 0
  else if code % 2 = 1 then (if value > 0 then 4 else 1)
  else (if value > 0 then 2 else 8)

def axisValue {F : Type} (fl : FloatOps F) (a : AxisInfo) (value : Int32) : F :=
  let mid := (a.min + a.max) / 2
  let iv := value - mid
  let v :=
    if iv ≥ 0 then fl.div (fl.ofInt iv) (fl.ofInt (a.max - mid))
    else fl.div (fl.neg (fl.ofInt iv)) (fl.ofInt (a.min - mid))
  let v := if iv.abs < a.flat then fl.ofInt 0 else v
  let v := if fl.lt v (fl.ofInt (-1)) then fl.ofInt (-1) else v
  if fl.lt (fl.ofInt 1) v then fl.ofInt 1 else v

namespace LinuxJoystick
variable {F : Type} (fl : FloatOps F) (j : LinuxJoystick F)

def onKey (code : Nat) (value : Int32) : LinuxJoystick F :=
  if code ≥ keyCnt then j
  else
    let btn := j.buttons code
    if btn = -1 then j
    else
      let v : Bool := value ≠ 0
      { j with
        buttons := Function.update j.buttons btn.toNat (if v then 1 else 0)
        reports := j.reports ++ [.button btn v] }

def onHat (code : Nat) (value : Int32) : LinuxJoystick F :=
  let index := (j.axis code).index
  if index = -1 then j
  else
    let v := (j.hatValues index.toNat &&& ~~~hatMask code) ||| hatBit code value
    { j with
      hatValues := Function.update j.hatValues index.toNat v
      reports := j.reports ++ [.hat index v] }

def onAxis (code : Nat) (value : Int32) : LinuxJoystick F :=
  if code ≥ absCnt then j
  else
    let a := j.axis code
    if a.index = -1 then j
    else
      let v := axisValue fl a value
      { j with
        axisValues := Function.update j.axisValues a.index.toNat v
        reports := j.reports ++ [.axis a.index v] }

def handle (e : InputEvent) : LinuxJoystick F :=
  if e.type = evKey then j.onKey e.code e.value
  else if e.type = evAbs then
    if isHat e.code then j.onHat e.code e.value else j.onAxis fl e.code e.value
  else j

/-- `poll`, with the events that are read before `libevdev_next_event` fails. -/
def poll (events : List InputEvent) : LinuxJoystick F := events.foldl (handle fl) j

def getButton (index : Nat) : Bool := if index ≥ keyCnt then false else j.buttonValues index

def getAxis (index : Nat) : F := if index ≥ absCnt then fl.ofInt 0 else j.axisValues index

/-- There are four hats. -/
def getHat (index : Nat) : BitVec 32 := if index ≥ 4 then 0 else j.hatValues index

end LinuxJoystick

end Gamepad
