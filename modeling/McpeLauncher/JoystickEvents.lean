import McpeLauncher.LinuxJoystick

/-! # A joystick follows its events

After any events an axis has the value of its last one, and so have the directions of a hat. An
event of a button writes into the table of numbers, at the number of the button as if that were a
key code. -/
namespace Gamepad
open Numbering Runs List Function LinuxJoystick

/-! ## Numbers are given once -/

/-- Every number is -1 or an index into the values, and no two axes or hats have the same. -/
structure WellNumbered {F : Type} (j : LinuxJoystick F) : Prop where
  button : ∀ code, j.buttons code = -1 ∨ ∃ n : Nat, n < keyCnt ∧ j.buttons code = n
  axis : ∀ code < absCnt, isHat code = false →
    (j.axis code).index = -1 ∨ ∃ n : Nat, n < absCnt ∧ (j.axis code).index = n
  axis_inj : ∀ c < absCnt, ∀ c' < absCnt, isHat c = false → isHat c' = false → ∀ n : Nat,
    (j.axis c).index = n → (j.axis c').index = n → c = c'
  hat : ∀ code, isHat code = true →
    (j.axis code).index = -1 ∨ ∃ n : Nat, n < 4 ∧ (j.axis code).index = n
  hat_inj : ∀ c c', isHat c = true → isHat c' = true → ∀ n : Nat,
    (j.axis c).index = n → (j.axis c').index = n → c - c % 2 = c' - c' % 2

theorem buttonTable_cases (keys : BitVec keyCnt) (code : Nat) :
    buttonTable keys code = -1 ∨ ∃ n : Nat, n < keyCnt ∧ buttonTable keys code = n := by
  rcases assign_cases (fun _ => (-1 : Int))
    (((buttonWrites keys).filter fun w => w.1 < keyCnt).map fun w => (w.1, (w.2 : Int))) code
    with hnone | hmem
  · exact .inl hnone
  · obtain ⟨w, hw, heq⟩ := mem_map.mp hmem
    have hlt := (number_lt (mem_of_mem_filter hw)).2
    have hle := length_filter_le (fun i => keys.getLsbD (i % keyCnt))
      (range' btnJoystick keyCnt)
    rw [length_range'] at hle
    refine .inr ⟨w.2, by omega, ?_⟩
    exact (congrArg Prod.snd heq).symm

variable {n code : Nat} {F : Type}

namespace Device
variable (d : Device) (memory : Nat → AxisInfo)

theorem firstAxis_index (i : Nat) (hhat : isHat i = false) :
    (d.firstAxis memory i).index = -1 ∨
      ∃ n : Nat, (i, n) ∈ d.axisIds ∧ (d.firstAxis memory i).index = n := by
  rw [firstAxis]
  by_cases hbit : d.abs.getLsbD i = true
  · obtain ⟨absinfo, hinfo⟩ := Option.isSome_iff_exists.mp (d.known i hbit)
    rw [if_pos hbit]
    simp only [hinfo, hhat, if_neg Bool.false_ne_true]
    rcases hlookup : d.axisIds.lookup i with _ | n
    · exact .inl rfl
    · exact .inr ⟨n, mem_of_lookup hlookup, rfl⟩
  · rw [if_neg hbit]
    exact .inl rfl

theorem axisIds_lt {i : Nat} (h : (i, n) ∈ d.axisIds) : n < absCnt := by
  have hlt := (number_lt h).2
  have hle := length_filter_le d.isAxis (range absCnt)
  rw [length_range] at hle
  omega

theorem hatIds_lt {i : Nat} (h : (i, n) ∈ d.hatIds memory) : n < 4 := by
  have hlt := (number_lt h).2
  have hle := length_filter_le
    (fun i => (d.firstAxis memory i).index ≠ -1 || (d.firstAxis memory (i + 1)).index ≠ -1)
    [16, 18, 20, 22]
  rw [zero_add] at hlt
  exact lt_of_lt_of_le hlt hle

theorem axis_index_hat (i : Nat) (hhat : isHat i = true) :
    (d.axis memory i).index = -1 ∨
      ∃ n : Nat, (i - i % 2, n) ∈ d.hatIds memory ∧ (d.axis memory i).index = n := by
  rw [axis, if_pos hhat]
  rcases hlookup : (d.hatIds memory).lookup (i - i % 2) with _ | n
  · refine .inl ?_
    have hmem : i - i % 2 ∈ [16, 18, 20, 22] := by
      rw [isHat, Bool.and_eq_true, decide_eq_true_iff, decide_eq_true_iff] at hhat
      simp only [mem_cons, not_mem_nil, or_false]
      omega
    by_contra hindex
    have hpresent : ((d.firstAxis memory (i - i % 2)).index ≠ -1 ||
        (d.firstAxis memory (i - i % 2 + 1)).index ≠ -1) = true := by
      rw [Bool.or_eq_true, decide_eq_true_iff, decide_eq_true_iff]
      rcases Nat.mod_two_eq_zero_or_one i with heven | hodd
      · refine .inl ?_
        rw [heven, Nat.sub_zero]
        exact hindex
      · refine .inr ?_
        have hi : i - i % 2 + 1 = i := by omega
        rw [hi]
        exact hindex
    obtain ⟨n, hn⟩ := lookup_number
      (fun i => (d.firstAxis memory i).index ≠ -1 || (d.firstAxis memory (i + 1)).index ≠ -1)
      0 hmem hpresent
    exact absurd (hlookup.symm.trans hn) (by simp)
  · exact .inr ⟨n, mem_of_lookup hlookup, rfl⟩

end Device

theorem wellNumbered_new (fl : FloatOps F) (d : Device) (memory : Nat → AxisInfo)
    (hats : Nat → BitVec 32) : WellNumbered (newLinuxJoystick fl d memory hats) := by
  have haxis : ∀ i, isHat i = false → d.axis memory i = d.firstAxis memory i := by
    intro i hi
    rw [Device.axis, hi, if_neg Bool.false_ne_true]
  -- the assignment that a number comes from
  have hfrom : ∀ i, isHat i = false → ∀ n : Nat, (d.axis memory i).index = n →
      (i, n) ∈ d.axisIds := by
    intro i hi n hn
    rw [haxis i hi] at hn
    rcases d.firstAxis_index memory i hi with hnone | ⟨m, hm, heq⟩
    · omega
    · obtain rfl : m = n := by omega
      exact hm
  have hfromHat : ∀ i, isHat i = true → ∀ n : Nat, (d.axis memory i).index = n →
      (i - i % 2, n) ∈ d.hatIds memory := by
    intro i hi n hn
    rcases d.axis_index_hat memory i hi with hnone | ⟨m, hm, heq⟩
    · omega
    · obtain rfl : m = n := by omega
      exact hm
  refine ⟨buttonTable_cases d.keys, ?_, ?_, ?_, ?_⟩
  · intro code _ hhat
    rw [show (newLinuxJoystick fl d memory hats).axis = d.axis memory from rfl, haxis code hhat]
    rcases d.firstAxis_index memory code hhat with hnone | ⟨n, hn, heq⟩
    · exact .inl hnone
    · exact .inr ⟨n, d.axisIds_lt hn, heq⟩
  · intro c _ c' _ hc hc' n hn hn'
    exact number_inj (hfrom c hc n hn) (hfrom c' hc' n hn')
  · intro code hhat
    rcases d.axis_index_hat memory code hhat with hnone | ⟨n, hn, heq⟩
    · exact .inl hnone
    · exact .inr ⟨n, d.hatIds_lt memory hn, heq⟩
  · intro c c' hc hc' n hn hn'
    exact number_inj (hfromHat c hc n hn) (hfromHat c' hc' n hn')

/-! ## What an event changes -/

namespace LinuxJoystick
variable {F : Type} {fl : FloatOps F} {j start : LinuxJoystick F} {e : InputEvent}

theorem handle_key (he : e.type = evKey) : j.handle fl e = j.onKey e.code e.value := by
  rw [handle, if_pos he]

theorem handle_abs (he : e.type = evAbs) :
    j.handle fl e =
      if isHat e.code then j.onHat e.code e.value else j.onAxis fl e.code e.value := by
  have hkey : e.type ≠ evKey := by
    rw [he]
    decide
  rw [handle, if_neg hkey, if_pos he]

theorem onKey_values (code : Nat) (value : Int32) :
    (j.onKey code value).axisValues = j.axisValues ∧
      (j.onKey code value).hatValues = j.hatValues := by
  simp only [onKey]
  split_ifs <;> exact ⟨rfl, rfl⟩

theorem onHat_axisValues (code : Nat) (value : Int32) :
    (j.onHat code value).axisValues = j.axisValues := by
  simp only [onHat]
  split_ifs <;> rfl

theorem onAxis_hatValues (code : Nat) (value : Int32) :
    (j.onAxis fl code value).hatValues = j.hatValues := by
  simp only [onAxis]
  split_ifs <;> rfl

theorem handle_axis (e : InputEvent) : (j.handle fl e).axis = j.axis := by
  simp only [handle, onKey, onHat, onAxis]
  split_ifs <;> rfl

theorem handle_buttonValues (e : InputEvent) : (j.handle fl e).buttonValues = j.buttonValues := by
  simp only [handle, onKey, onHat, onAxis]
  split_ifs <;> rfl

theorem handle_buttons_of_ne (he : e.type ≠ evKey) : (j.handle fl e).buttons = j.buttons := by
  simp only [handle, onHat, onAxis, if_neg he]
  split_ifs <;> rfl

theorem handle_buttons (he : e.type = evKey) (hcode : e.code < keyCnt) (hn : j.buttons e.code = n) :
    (j.handle fl e).buttons = update j.buttons n (if e.value ≠ 0 then 1 else 0) := by
  have hne : (n : Int) ≠ -1 := by omega
  rw [handle_key he]
  simp only [onKey, if_neg (Nat.not_le.mpr hcode), hn, if_neg hne, Int.toNat_natCast,
    decide_eq_true_eq]

theorem handle_buttons_of_none (h : e.code < keyCnt → j.buttons e.code = -1) :
    (j.handle fl e).buttons = j.buttons := by
  by_cases he : e.type = evKey
  · rw [handle_key he, onKey]
    by_cases hcode : e.code ≥ keyCnt
    · rw [if_pos hcode]
    · rw [if_neg hcode, if_pos (h (Nat.lt_of_not_le hcode))]
  · exact handle_buttons_of_ne he

def MovesAxis (j : LinuxJoystick F) (e : InputEvent) (n : Nat) : Prop :=
  e.type = evAbs ∧ isHat e.code = false ∧ e.code < absCnt ∧ (j.axis e.code).index = n

theorem handle_axisValues_of_moves (h : j.MovesAxis e n) :
    (j.handle fl e).axisValues n = axisValue fl (j.axis e.code) e.value := by
  obtain ⟨htype, hhat, hcode, hn⟩ := h
  have hne : (n : Int) ≠ -1 := by omega
  rw [handle_abs htype, hhat, if_neg Bool.false_ne_true]
  simp only [onAxis, if_neg (Nat.not_le.mpr hcode), hn, if_neg hne, Int.toNat_natCast, update_self]

theorem handle_axisValues_of_not (hj : WellNumbered start) (haxis : j.axis = start.axis)
    (h : ¬ j.MovesAxis e n) : (j.handle fl e).axisValues n = j.axisValues n := by
  by_cases hkey : e.type = evKey
  · rw [handle_key hkey, (onKey_values e.code e.value).1]
  by_cases htype : e.type = evAbs
  · rw [handle_abs htype]
    by_cases hhat : isHat e.code = true
    · rw [if_pos hhat, onHat_axisValues]
    · rw [if_neg hhat, onAxis]
      have hhat : isHat e.code = false := by simpa using hhat
      by_cases hcode : e.code ≥ absCnt
      · rw [if_pos hcode]
      · have hcode := Nat.lt_of_not_le hcode
        rw [if_neg (Nat.not_le.mpr hcode)]
        rcases haxis ▸ hj.axis e.code hcode hhat with hnone | ⟨m, -, hm⟩
        · rw [if_pos hnone]
        · have hne : (m : Int) ≠ -1 := by omega
          have hother : n ≠ m := by
            rintro rfl
            exact h ⟨htype, hhat, hcode, hm⟩
          simp only [hm, if_neg hne, Int.toNat_natCast, update_of_ne hother]
  · rw [handle, if_neg hkey, if_neg htype]

def MovesHat (j : LinuxJoystick F) (e : InputEvent) (n : Nat) : Prop :=
  e.type = evAbs ∧ isHat e.code = true ∧ (j.axis e.code).index = n

theorem handle_hatValues_of_moves (h : j.MovesHat e n) :
    (j.handle fl e).hatValues n =
      (j.hatValues n &&& ~~~hatMask e.code) ||| hatBit e.code e.value := by
  obtain ⟨htype, hhat, hn⟩ := h
  have hne : (n : Int) ≠ -1 := by omega
  rw [handle_abs htype, if_pos hhat]
  simp only [onHat, hn, if_neg hne, Int.toNat_natCast, update_self]

theorem handle_hatValues_of_not (hj : WellNumbered start) (haxis : j.axis = start.axis)
    (h : ¬ j.MovesHat e n) : (j.handle fl e).hatValues n = j.hatValues n := by
  by_cases hkey : e.type = evKey
  · rw [handle_key hkey, (onKey_values e.code e.value).2]
  by_cases htype : e.type = evAbs
  · rw [handle_abs htype]
    by_cases hhat : isHat e.code = true
    · rw [if_pos hhat, onHat]
      rcases haxis ▸ hj.hat e.code hhat with hnone | ⟨m, -, hm⟩
      · rw [if_pos hnone]
      · have hne : (m : Int) ≠ -1 := by omega
        have hother : n ≠ m := by
          rintro rfl
          exact h ⟨htype, hhat, hm⟩
        simp only [hm, if_neg hne, Int.toNat_natCast, update_of_ne hother]
    · rw [if_neg hhat, onAxis_hatValues]
  · rw [handle, if_neg hkey, if_neg htype]

end LinuxJoystick

/-- The value of the last event of a kind with a code. -/
def lastValue (type code : Nat) (events : List InputEvent) : Option Int32 :=
  (events.filterMap fun e => if e.type = type ∧ e.code = code then some e.value else none).getLast?

theorem lastValue_concat (type code : Nat) (events : List InputEvent) (e : InputEvent) :
    lastValue type code (events ++ [e]) =
      if e.type = type ∧ e.code = code then some e.value else lastValue type code events := by
  rw [lastValue, filterMap_append]
  by_cases h : e.type = type ∧ e.code = code
  · simp [h]
  · simp [h, lastValue]

/-- The values are those of the last events, and the table is the same. -/
structure Follows {F : Type} (fl : FloatOps F) (start : LinuxJoystick F)
    (events : List InputEvent) (j : LinuxJoystick F) : Prop where
  table : ∀ code < keyCnt, j.buttons code = start.buttons code
  button : ∀ code < keyCnt, ∀ n : Nat, start.buttons code = n →
    j.getButton n = (lastValue evKey code events).elim (start.getButton n) (· ≠ 0)
  axis : ∀ code < absCnt, isHat code = false → ∀ n : Nat, (start.axis code).index = n →
    j.getAxis fl n =
      (lastValue evAbs code events).elim (start.getAxis fl n) (axisValue fl (start.axis code))
  hat : ∀ code, isHat code = true → ∀ n : Nat, (start.axis code).index = n →
    j.getHat n &&& hatMask code =
      (lastValue evAbs code events).elim (start.getHat n &&& hatMask code) (hatBit code)
  hatRest : ∀ n, j.getHat n &&& ~~~0b1111 = start.getHat n &&& ~~~0b1111

/-- The event is none of a button, or a release that stores a zero where there is one. -/
def Harmless {F : Type} (start : LinuxJoystick F) (e : InputEvent) : Prop :=
  e.type = evKey → e.code < keyCnt → ∀ n : Nat, start.buttons e.code = n →
    e.value = 0 ∧ start.buttons n = 0

theorem hatMove_and (v m b k : BitVec 32) :
    ((v &&& ~~~m) ||| b) &&& k = (v &&& (~~~m &&& k)) ||| (b &&& k) := by
  rw [BitVec.and_or_distrib_right, BitVec.and_assoc]

theorem hatBit_and_hatMask (code code' : Nat) (value : Int32) :
    hatBit code value &&& hatMask code' =
      if code % 2 = code' % 2 then hatBit code value else 0#32 := by
  rw [hatBit, hatMask]
  split_ifs
  all_goals first | decide | omega

theorem hatMove_own (v : BitVec 32) (code : Nat) (value : Int32) :
    ((v &&& ~~~hatMask code) ||| hatBit code value) &&& hatMask code = hatBit code value := by
  have hclear : ~~~hatMask code &&& hatMask code = 0#32 := by
    rw [hatMask]
    split_ifs <;> decide
  rw [hatMove_and, hclear, hatBit_and_hatMask, if_pos rfl, BitVec.and_zero, BitVec.zero_or]

theorem hatMove_other (v k : BitVec 32) (code : Nat) (value : Int32)
    (hk : ~~~hatMask code &&& k = k) (hbit : hatBit code value &&& k = 0#32) :
    ((v &&& ~~~hatMask code) ||| hatBit code value) &&& k = v &&& k := by
  rw [hatMove_and, hk, hbit, BitVec.or_zero]

theorem hatMove_partner (v : BitVec 32) {code' : Nat} (h : code % 2 ≠ code' % 2) (value : Int32) :
    ((v &&& ~~~hatMask code) ||| hatBit code value) &&& hatMask code' = v &&& hatMask code' := by
  apply hatMove_other
  · rw [hatMask, hatMask]
    split_ifs
    all_goals first | decide | omega
  · rw [hatBit_and_hatMask, if_neg h]

theorem hatMove_rest (v : BitVec 32) (code : Nat) (value : Int32) :
    ((v &&& ~~~hatMask code) ||| hatBit code value) &&& ~~~0b1111 = v &&& ~~~0b1111 := by
  apply hatMove_other
  · rw [hatMask]
    split_ifs <;> decide
  · rw [hatBit]
    split_ifs <;> decide

section Step
open LinuxJoystick
variable {F : Type} {fl : FloatOps F} {start j : LinuxJoystick F} {events : List InputEvent}
variable {e : InputEvent}

/-- What holds along the events: besides the values, `axis` and `buttonValues` never
change. -/
structure Tracked (fl : FloatOps F) (start : LinuxJoystick F) (events : List InputEvent)
    (j : LinuxJoystick F) : Prop where
  follows : Follows fl start events j
  axis : j.axis = start.axis
  buttonValues : j.buttonValues = start.buttonValues

theorem Tracked.init : Tracked fl start [] start where
  follows := ⟨fun _ _ => rfl, fun _ _ _ _ => rfl, fun _ _ _ _ _ => rfl, fun _ _ _ _ => rfl,
    fun _ => rfl⟩
  axis := rfl
  buttonValues := rfl

section
variable (h : Tracked fl start events j) (hstart : WellNumbered start)
include h hstart

theorem Tracked.table_step (he : Harmless start e) : (j.handle fl e).buttons = j.buttons := by
  by_cases hkey : e.type = evKey
  · by_cases hcode : e.code < keyCnt
    · have htable := h.follows.table e.code hcode
      rcases hstart.button e.code with hnone | ⟨n, hn, hindex⟩
      · exact handle_buttons_of_none fun _ => htable.trans hnone
      · obtain ⟨hvalue, hzero⟩ := he hkey hcode n hindex
        rw [handle_buttons hkey hcode (htable.trans hindex), hvalue,
          if_neg (by simp), ← hzero, ← h.follows.table n hn, update_eq_self]
    · exact handle_buttons_of_none fun hlt => absurd hlt hcode
  · exact handle_buttons_of_ne hkey

theorem Tracked.axis_step (hcode : code < absCnt) (hhat : isHat code = false)
    (hn : (start.axis code).index = n) :
    (j.handle fl e).getAxis fl n = (lastValue evAbs code (events ++ [e])).elim
      (start.getAxis fl n) (axisValue fl (start.axis code)) := by
  have hlt : ¬ n ≥ absCnt := by
    rcases hstart.axis code hcode hhat with hnone | ⟨m, hm, heq⟩
    · omega
    · omega
  rw [lastValue_concat]
  by_cases hmoves : j.MovesAxis e n
  · -- the number is that of one axis
    obtain ⟨htype, hhat', hcode', hindex⟩ := hmoves
    have hsame : e.code = code := hstart.axis_inj _ hcode' _ hcode hhat' hhat n (h.axis ▸ hindex) hn
    rw [if_pos ⟨htype, hsame⟩, LinuxJoystick.getAxis, if_neg hlt,
      handle_axisValues_of_moves ⟨htype, hhat', hcode', hindex⟩, h.axis, hsame]
    rfl
  · have hother : ¬ (e.type = evAbs ∧ e.code = code) := by
      rintro ⟨htype, rfl⟩
      exact hmoves ⟨htype, hhat, hcode, h.axis ▸ hn⟩
    rw [if_neg hother, ← h.follows.axis code hcode hhat n hn,
      LinuxJoystick.getAxis, LinuxJoystick.getAxis, handle_axisValues_of_not hstart h.axis hmoves]

theorem Tracked.hat_step (hhat : isHat code = true) (hn : (start.axis code).index = n) :
    (j.handle fl e).getHat n &&& hatMask code = (lastValue evAbs code (events ++ [e])).elim
      (start.getHat n &&& hatMask code) (hatBit code) := by
  have hlt : ¬ n ≥ 4 := by
    rcases hstart.hat code hhat with hnone | ⟨m, hm, heq⟩
    · omega
    · omega
  have hbefore := h.follows.hat code hhat n hn
  rw [getHat, if_neg hlt] at hbefore ⊢
  rw [lastValue_concat]
  by_cases hmoves : j.MovesHat e n
  · rw [handle_hatValues_of_moves hmoves]
    obtain ⟨htype, hhat', hindex⟩ := hmoves
    by_cases hsame : e.code = code
    · rw [if_pos ⟨htype, hsame⟩, hsame, hatMove_own]
      rfl
    · -- the other axis of the hat
      have hpair := hstart.hat_inj _ _ hhat' hhat n (h.axis ▸ hindex) hn
      rw [if_neg fun hboth => hsame hboth.2, hatMove_partner _ (by omega), hbefore]
  · have hother : ¬ (e.type = evAbs ∧ e.code = code) := by
      rintro ⟨htype, rfl⟩
      exact hmoves ⟨htype, hhat, h.axis ▸ hn⟩
    rw [if_neg hother, handle_hatValues_of_not hstart h.axis hmoves, hbefore]

theorem Tracked.hatRest_step (n : Nat) :
    (j.handle fl e).getHat n &&& ~~~0b1111 = start.getHat n &&& ~~~0b1111 := by
  rw [← h.follows.hatRest n, getHat, getHat]
  by_cases hlt : n ≥ 4
  · rw [if_pos hlt, if_pos hlt]
  · rw [if_neg hlt, if_neg hlt]
    by_cases hmoves : j.MovesHat e n
    · rw [handle_hatValues_of_moves hmoves, hatMove_rest]
    · rw [handle_hatValues_of_not hstart h.axis hmoves]

end

variable (hbuttons : ∀ n, start.buttonValues n = false)
include hbuttons

theorem Tracked.getButton_step (h : Tracked fl start events j) (n : Nat) :
    (j.handle fl e).getButton n = false ∧ start.getButton n = false := by
  rw [LinuxJoystick.getButton, LinuxJoystick.getButton, handle_buttonValues,
    h.buttonValues, hbuttons n, ite_self]
  exact ⟨rfl, rfl⟩

theorem Tracked.step (h : Tracked fl start events j) (hstart : WellNumbered start)
    (he : Harmless start e) : Tracked fl start (events ++ [e]) (j.handle fl e) := by
  refine ⟨⟨?_, ?_, ?_, ?_, h.hatRest_step hstart⟩, ?_, ?_⟩
  · intro code hcode
    rw [h.table_step hstart he, h.follows.table code hcode]
  · intro code hcode n hn
    obtain ⟨hafter, hbefore⟩ := h.getButton_step (e := e) hbuttons n
    have hlast := h.follows.button code hcode n hn
    have hnow : j.getButton n = false := by
      rw [LinuxJoystick.getButton, h.buttonValues, hbuttons n, ite_self]
    rw [hafter, lastValue_concat]
    by_cases hsame : e.type = evKey ∧ e.code = code
    · obtain ⟨hkey, rfl⟩ := hsame
      rw [if_pos ⟨hkey, rfl⟩, (he hkey hcode n hn).1]
      rfl
    · rw [if_neg hsame, ← hlast, hnow]
  · exact fun code hcode hhat n hn => h.axis_step hstart hcode hhat hn
  · exact fun code hhat n hn => h.hat_step hstart hhat hn
  · rw [handle_axis, h.axis]
  · rw [handle_buttonValues, h.buttonValues]

theorem Tracked.harmless (h : Tracked fl start events j) (hstart : WellNumbered start)
    (hafter : Follows fl start (events ++ [e]) (j.handle fl e)) : Harmless start e := by
  intro hkey hcode n hn
  have hlt : n < keyCnt := by
    rcases hstart.button e.code with hnone | ⟨m, hm, heq⟩
    · omega
    · omega
  have hbutton := hafter.button e.code hcode n hn
  rw [(h.getButton_step (e := e) hbuttons n).1, lastValue_concat, if_pos ⟨hkey, rfl⟩] at hbutton
  have hvalue : e.value = 0 := by simpa using hbutton
  refine ⟨hvalue, ?_⟩
  rw [← hafter.table n hlt, handle_buttons hkey hcode
    ((h.follows.table e.code hcode).trans hn), update_self, hvalue]
  simp

end Step

/-- A joystick together with the events it has seen. -/
def handleSeen {F : Type} (fl : FloatOps F) (s : LinuxJoystick F × List InputEvent)
    (e : InputEvent) : LinuxJoystick F × List InputEvent := (s.1.handle fl e, s.2 ++ [e])

theorem foldl_handleSeen (fl : FloatOps F) (events : List InputEvent)
    (s : LinuxJoystick F × List InputEvent) :
    events.foldl (handleSeen fl) s =
      (events.foldl (handle fl) s.1, s.2 ++ events) := by
  induction events generalizing s with
  | nil => simp
  | cons e events ih => simp [handleSeen, ih]

/-- **A joystick follows its events exactly as long as none of a button does harm**, in
whatever batches `poll` reads them. -/
theorem poll_follows_iff {F : Type} (fl : FloatOps F) (d : Device) (memory : Nat → AxisInfo)
    (hats : Nat → BitVec 32) (events : List InputEvent) :
    (∀ batches : List (List InputEvent), batches.flatten <+: events →
      Follows fl (newLinuxJoystick fl d memory hats) batches.flatten
        (batches.foldl (poll fl) (newLinuxJoystick fl d memory hats))) ↔
      ∀ e ∈ events, Harmless (newLinuxJoystick fl d memory hats) e := by
  have hstart := wellNumbered_new fl d memory hats
  generalize hnew : newLinuxJoystick fl d memory hats = start at hstart
  have hbuttons : ∀ n, start.buttonValues n = false := by
    rw [← hnew]
    exact fun _ => rfl
  have hfront : (∀ front, front <+: events → Follows fl start
      (front.foldl (handleSeen fl) (start, [])).2 (front.foldl (handleSeen fl) (start, [])).1) ↔
      Along (handleSeen fl) (fun _ e => Harmless start e) (start, []) events :=
    forall_front_iff (fun s : LinuxJoystick F × List InputEvent => Tracked fl start s.2 s.1)
      (fun s => Follows fl start s.2 s.1) (fun s h => h.follows)
      (fun s e h he => h.step hbuttons hstart he)
      (fun s e h hafter => h.harmless hbuttons hstart hafter) Tracked.init events
  rw [along_const_iff] at hfront
  rw [← hfront]
  simp only [foldl_handleSeen, nil_append]
  constructor
  · intro h front hfront
    have := h [front] (by simpa using hfront)
    simpa [poll] using this
  · intro h batches hbatches
    have := h batches.flatten hbatches
    rwa [foldl_flatten] at this

def oneButton : Device := ⟨BitVec.ofNat keyCnt (2 ^ 304), 0, fun _ => none, fun i h => by simp at h⟩

/-- No value of an axis is looked at. -/
def noFloats : FloatOps Unit := ⟨fun _ => (), fun _ _ => (), fun _ => (), fun _ _ => false⟩

def oneButtonJoystick : LinuxJoystick Unit :=
  newLinuxJoystick noFloats oneButton (fun _ => ⟨0, 0, 0, 0, 0⟩) fun _ => 0

/-- The one button is pressed: it does not read as pressed, and the key code 0 has got a
number. -/
theorem poll_button_lost :
    oneButtonJoystick.buttons 304 = 0 ∧
      lastValue evKey 304 [⟨evKey, 304, 1⟩] = some 1 ∧
      (oneButtonJoystick.poll noFloats [⟨evKey, 304, 1⟩]).getButton 0 = false ∧
      oneButtonJoystick.buttons 0 = -1 ∧
      (oneButtonJoystick.poll noFloats [⟨evKey, 304, 1⟩]).buttons 0 = 1 ∧
      ¬ Follows noFloats oneButtonJoystick [⟨evKey, 304, 1⟩]
        (oneButtonJoystick.poll noFloats [⟨evKey, 304, 1⟩]) := by
  refine ⟨by decide +kernel, by decide +kernel, by decide +kernel, by decide +kernel,
    by decide +kernel, fun h => ?_⟩
  exact absurd (h.table 0 (by decide)) (by decide +kernel)

end Gamepad
