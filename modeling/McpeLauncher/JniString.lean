import Mathlib
import McpeLauncher.PrefixCode

/-! # JNI strings of libjnivm

A `jnivm::String` is modified UTF-8: every 16-bit unit is written as one, two or three bytes, and
the unit 0 as two. A pointer is the rest of the string; the byte behind it is 0, and reading further
is out of bounds. -/
namespace Jnivm
open PrefixCode List

abbrev JChar := BitVec 16

abbrev Byte := BitVec 8

/-- What the string functions throw, or a read behind the terminator. -/
inductive StringFault where
  | utfDataFormatError
  | endOfString
  | outOfBounds
  deriving DecidableEq

def byteAt (cur : List Byte) (k : Nat) : Except StringFault Byte :=
  match (cur ++ [0])[k]? with
  | some b => .ok b
  | none => .error .outOfBounds

def checkContinuation (cur : List Byte) (k : Nat) : Except StringFault Unit :=
  match byteAt cur k with
  | .error e => .error e
  | .ok b => if b &&& 0b11000000 ≠ 0b10000000 then .error .utfDataFormatError else .ok ()

def utfToJCharLength (cur : List Byte) : Except StringFault Nat :=
  match byteAt cur 0 with
  | .error e => .error e
  | .ok b =>
    if b &&& 0b10000000 = 0 then .ok 1
    else if b &&& 0b11100000 = 0b11000000 then
      match checkContinuation cur 1 with
      | .error e => .error e
      | .ok () => .ok 2
    else if b &&& 0b11110000 = 0b11100000 then
      match checkContinuation cur 1 with
      | .error e => .error e
      | .ok () => match checkContinuation cur 2 with
        | .error e => .error e
        | .ok () => .ok 3
    else .error .utfDataFormatError

/-- The unit at `cur` for each of the sizes; a single byte is a signed `char`. -/
def unitAt (cur : List Byte) : Nat → Except StringFault JChar
  | 1 => (byteAt cur 0).map fun b => b.signExtend 16
  | 2 => do
    let b₀ ← byteAt cur 0
    let b₁ ← byteAt cur 1
    return ((b₀ &&& 0x1F).setWidth 16 <<< 6) ||| (b₁ &&& 0x3F).setWidth 16
  | 3 => do
    let b₀ ← byteAt cur 0
    let b₁ ← byteAt cur 1
    let b₂ ← byteAt cur 2
    return ((b₀ &&& 0x0F).setWidth 16 <<< 12) ||| ((b₁ &&& 0x3F).setWidth 16 <<< 6) |||
      (b₂ &&& 0x3F).setWidth 16
  | _ => .error .utfDataFormatError

def utfToJChar (cur : List Byte) : Except StringFault (JChar × Nat) :=
  match utfToJCharLength cur with
  | .error e => .error e
  | .ok size => (unitAt cur size).map fun c => (c, size)

def jCharToUTFLength (c : JChar) : Nat :=
  if c = 0 then 2
  else if c &&& (0b10000000 - 1) = c then 1
  else if c &&& ((1 <<< (5 + 6)) - 1) = c then 2
  else 3

/-- The last byte of a unit with several. -/
def trailByte (c : JChar) : Byte := (0b10000000 ||| (c &&& 0x3F)).setWidth 8

def utfBytes (c : JChar) : Nat → List Byte
  | 1 => [c.setWidth 8]
  | 2 => [(0b11000000 ||| ((c >>> 6) &&& 0x1F)).setWidth 8, trailByte c]
  | 3 => [(0b11100000 ||| ((c >>> 12) &&& 0x0F)).setWidth 8, trailByte (c >>> 6), trailByte c]
  | _ => []

/-- `JCharToUTF(c, cur, len)`: what it writes. -/
def jCharToUTF (c : JChar) (len : Nat) : Except StringFault (List Byte) :=
  if len < jCharToUTFLength c then .error .endOfString else .ok (utfBytes c (jCharToUTFLength c))

/-- `NewString`: the bytes of the string; the buffer `out` has three. -/
def newString : List JChar → Except StringFault (List Byte)
  | [] => .ok []
  | c :: str => do
    let out ← jCharToUTF c 3
    let ss ← newString str
    return out ++ ss

def newStringUTF (str : List Byte) : List Byte := str.takeWhile (· ≠ 0)

def passUnit (cur : List Byte) : Except StringFault (Unit × List Byte) :=
  (utfToJCharLength cur).map fun size => ((), cur.drop size)

def readUnit (cur : List Byte) : Except StringFault (JChar × List Byte) :=
  (utfToJChar cur).map fun (c, size) => (c, cur.drop size)

def copyUnit (cur : List Byte) : Except StringFault (List Byte × List Byte) :=
  (utfToJCharLength cur).map fun size => (cur.take size, cur.drop size)

variable {c : JChar} {cur : List Byte} {s : List JChar} {start : Nat}

theorem utfToJCharLength_pos {size : Nat} (h : utfToJCharLength cur = .ok size) : 0 < size := by
  unfold utfToJCharLength at h
  repeat' split at h
  all_goals first
    | contradiction
    | (obtain rfl := Except.ok.inj h; omega)

def lengthLoop (cur : List Byte) (length : Nat) : Except StringFault Nat :=
  if _hend : cur = [] then .ok length
  else
    match _hsize : utfToJCharLength cur with
    | .error e => .error e
    | .ok size => lengthLoop (cur.drop size) (length + 1)
termination_by cur.length
decreasing_by
  have := utfToJCharLength_pos _hsize
  have := length_pos_iff.mpr _hend
  rw [length_drop]
  omega

def getStringLength (str : List Byte) : Except StringFault Nat := lengthLoop str 0

def getStringRegion (str : List Byte) (start length : Nat) : Except StringFault (List JChar) := do
  let (_, cur) ← collect passUnit start str
  let (buf, _) ← collect readUnit length cur
  return buf

/-- `GetStringUTFRegion`: the bytes in `buf`, up to the terminator it writes. -/
def getStringUTFRegion (str : List Byte) (start len : Nat) : Except StringFault (List Byte) := do
  let (_, cur) ← collect passUnit start str
  let (buf, _) ← collect copyUnit len cur
  return buf.flatten ++ [0]

/-! ## Reading a unit back -/

def utf (c : JChar) : List Byte := utfBytes c (jCharToUTFLength c)

@[simp] theorem byteAt_cons_zero (b : Byte) (cur : List Byte) : byteAt (b :: cur) 0 = .ok b := rfl

@[simp] theorem byteAt_cons_succ (b : Byte) (cur : List Byte) (k : Nat) :
    byteAt (b :: cur) (k + 1) = byteAt cur k := rfl

theorem trailByte_continuation (c : JChar) : trailByte c &&& 0b11000000 = 0b10000000 := by
  ext i hi
  simp only [trailByte]
  interval_cases i <;> simp

theorem checkContinuation_of_byteAt {k : Nat} (h : byteAt cur k = .ok (trailByte c)) :
    checkContinuation cur k = .ok () := by
  rw [checkContinuation, h]
  exact if_neg (not_not.mpr (trailByte_continuation c))

theorem jCharToUTFLength_cases (c : JChar) :
    (jCharToUTFLength c = 1 ∧ c ≠ 0 ∧ c &&& 0x7F = c) ∨
    (jCharToUTFLength c = 2 ∧ c &&& 0x7FF = c) ∨ jCharToUTFLength c = 3 := by
  unfold jCharToUTFLength
  by_cases hzero : c = 0
  · right; left
    rw [if_pos hzero, hzero]
    exact ⟨rfl, rfl⟩
  · rw [if_neg hzero]
    by_cases hone : c &&& (0b10000000 - 1) = c
    · left
      rw [if_pos hone]
      exact ⟨rfl, hzero, hone⟩
    · right
      rw [if_neg hone]
      by_cases htwo : c &&& ((1 <<< (5 + 6)) - 1) = c
      · left
        rw [if_pos htwo]
        exact ⟨rfl, htwo⟩
      · right
        rw [if_neg htwo]

theorem signExtend_setWidth (hc : c &&& 0x7F = c) : (c.setWidth 8).signExtend 16 = c := by
  rw [← hc]
  ext i hi
  interval_cases i <;> simp [BitVec.getElem_signExtend]

theorem trailByte_payload (c : JChar) : (trailByte c &&& 0x3F).setWidth 16 = c &&& 0x3F := by
  ext i hi
  simp only [trailByte]
  interval_cases i <;> simp

theorem threeBytes_payload (c : JChar) :
    ((0b11100000 ||| ((c >>> 12) &&& 0x0F)).setWidth 8 &&& (0x0F : Byte)).setWidth 16 =
      (c >>> 12) &&& 0x0F := by
  ext i hi
  interval_cases i <;> simp

theorem groups_join (c : JChar) :
    (((c >>> 12) &&& 0x0F) <<< 12) ||| (((c >>> 6) &&& 0x3F) <<< 6) ||| (c &&& 0x3F) = c := by
  ext i hi
  interval_cases i <;> simp

theorem utfToJChar_one (hc : c &&& 0x7F = c) (rest : List Byte) :
    utfToJChar (utfBytes c 1 ++ rest) = .ok (c, 1) := by
  have hlow : c.setWidth 8 &&& 0b10000000 = (0 : Byte) := by
    rw [← hc]
    ext i hi
    interval_cases i <;> simp
  simp only [utfToJChar, utfToJCharLength, utfBytes, cons_append, byteAt_cons_zero, hlow,
    if_true, unitAt, Except.map, signExtend_setWidth hc]

theorem utfToJChar_two (hc : c &&& 0x7FF = c) (rest : List Byte) :
    utfToJChar (utfBytes c 2 ++ rest) = .ok (c, 2) := by
  have hhigh : (0b11000000 ||| ((c >>> 6) &&& 0x1F)).setWidth 8 &&& 0b10000000 ≠ (0 : Byte) := by
    intro h
    have := congrArg (fun b : Byte => b[7]) h
    simp at this
  have hlead : (0b11000000 ||| ((c >>> 6) &&& 0x1F)).setWidth 8 &&& 0b11100000 =
      (0b11000000 : Byte) := by
    ext i hi
    interval_cases i <;> simp
  have hunit : (((0b11000000 ||| ((c >>> 6) &&& 0x1F)).setWidth 8 &&& (0x1F : Byte)).setWidth 16
      <<< 6) ||| (trailByte c &&& 0x3F).setWidth 16 = c := by
    rw [trailByte_payload, ← hc]
    ext i hi
    interval_cases i <;> simp
  have htrail : ∀ b : Byte, checkContinuation (b :: trailByte c :: rest) 1 = .ok () :=
    fun b => checkContinuation_of_byteAt rfl
  simp only [utfToJChar, utfToJCharLength, utfBytes, cons_append, nil_append,
    byteAt_cons_zero, byteAt_cons_succ, if_neg hhigh, if_pos hlead, htrail, unitAt]
  exact congrArg (fun c => Except.ok (c, 2)) hunit

theorem utfToJChar_three (c : JChar) (rest : List Byte) :
    utfToJChar (utfBytes c 3 ++ rest) = .ok (c, 3) := by
  have hhigh : (0b11100000 ||| ((c >>> 12) &&& 0x0F)).setWidth 8 &&& 0b10000000 ≠ (0 : Byte) := by
    intro h
    have := congrArg (fun b : Byte => b[7]) h
    simp at this
  have htwo : (0b11100000 ||| ((c >>> 12) &&& 0x0F)).setWidth 8 &&& 0b11100000 ≠
      (0b11000000 : Byte) := by
    intro h
    have := congrArg (fun b : Byte => b[5]) h
    simp at this
  have hlead : (0b11100000 ||| ((c >>> 12) &&& 0x0F)).setWidth 8 &&& 0b11110000 =
      (0b11100000 : Byte) := by
    ext i hi
    interval_cases i <;> simp
  have hunit : (((0b11100000 ||| ((c >>> 12) &&& 0x0F)).setWidth 8 &&& (0x0F : Byte)).setWidth 16
      <<< 12) ||| ((trailByte (c >>> 6) &&& 0x3F).setWidth 16 <<< 6) |||
      (trailByte c &&& 0x3F).setWidth 16 = c := by
    rw [trailByte_payload, trailByte_payload, threeBytes_payload, groups_join]
  have hfirst : ∀ b : Byte,
      checkContinuation (b :: trailByte (c >>> 6) :: trailByte c :: rest) 1 = .ok () :=
    fun b => checkContinuation_of_byteAt rfl
  have hsecond : ∀ b : Byte,
      checkContinuation (b :: trailByte (c >>> 6) :: trailByte c :: rest) 2 = .ok () :=
    fun b => checkContinuation_of_byteAt rfl
  simp only [utfToJChar, utfToJCharLength, utfBytes, cons_append, nil_append,
    byteAt_cons_zero, byteAt_cons_succ, if_neg hhigh, if_neg htwo, if_pos hlead, hfirst, hsecond,
    unitAt]
  exact congrArg (fun c => Except.ok (c, 3)) hunit

/-- **A unit is read back**, whatever follows it. -/
theorem utfToJChar_utf (c : JChar) (rest : List Byte) :
    utfToJChar (utf c ++ rest) = .ok (c, (utf c).length) := by
  rcases jCharToUTFLength_cases c with ⟨h, _, hc⟩ | ⟨h, hc⟩ | h
  · rw [utf, h]
    exact utfToJChar_one hc rest
  · rw [utf, h]
    exact utfToJChar_two hc rest
  · rw [utf, h]
    exact utfToJChar_three c rest

theorem utfToJCharLength_utf (c : JChar) (rest : List Byte) :
    utfToJCharLength (utf c ++ rest) = .ok (utf c).length := by
  have h := utfToJChar_utf c rest
  rw [utfToJChar] at h
  split at h
  · contradiction
  · next size hsize =>
    rw [hsize]
    rcases hunit : unitAt (utf c ++ rest) size with e | unit
    · rw [hunit] at h
      contradiction
    · rw [hunit] at h
      exact congrArg Except.ok (congrArg Prod.snd (Except.ok.inj h))

theorem passUnit_reads : Reads utf (fun _ => ()) passUnit := by
  intro c rest
  rw [passUnit, utfToJCharLength_utf]
  simp [Except.map]

theorem readUnit_reads : Reads utf id readUnit := by
  intro c rest
  rw [readUnit, utfToJChar_utf]
  simp [Except.map]

theorem copyUnit_reads : Reads utf utf copyUnit := by
  intro c rest
  rw [copyUnit, utfToJCharLength_utf]
  simp [Except.map]

theorem jCharToUTF_eq (c : JChar) : jCharToUTF c 3 = .ok (utf c) := by
  have hsize : jCharToUTFLength c ≤ 3 := by
    rcases jCharToUTFLength_cases c with ⟨h, _⟩ | ⟨h, _⟩ | h
    all_goals omega
  exact if_neg (Nat.not_lt.mpr hsize)

theorem newString_eq (s : List JChar) : newString s = .ok (s.flatMap utf) := by
  induction s with
  | nil => rfl
  | cons c s ih =>
    rw [newString, jCharToUTF_eq, ih]
    rfl

theorem lengthLoop_flatMap (s : List JChar) (length : Nat) :
    lengthLoop (s.flatMap utf) length = .ok (length + s.length) := by
  induction s generalizing length with
  | nil =>
    rw [flatMap_nil, lengthLoop, dif_pos rfl]
    rfl
  | cons c s ih =>
    have hsize := utfToJCharLength_utf c (s.flatMap utf)
    have hne : utf c ++ s.flatMap utf ≠ [] := by
      intro h
      have hpos := utfToJCharLength_pos hsize
      rw [(append_eq_nil_iff.mp h).1] at hpos
      exact absurd hpos (lt_irrefl 0)
    rw [flatMap_cons, lengthLoop, dif_neg hne]
    split
    · next e he => rw [hsize] at he; contradiction
    · next size hok =>
      obtain rfl := Except.ok.inj (hsize.symm.trans hok)
      rw [drop_left, ih, length_cons]
      congr 1
      omega

theorem getStringLength_flatMap (s : List JChar) :
    getStringLength (s.flatMap utf) = .ok s.length := by
  rw [getStringLength, lengthLoop_flatMap, zero_add]

/-- Both regions first go to the unit at `start`. -/
theorem collect_start (h : start ≤ s.length) :
    ∃ units, collect passUnit start (s.flatMap utf) =
      .ok (units, (s.drop start).flatMap utf) := by
  have hpass := passUnit_reads.collect_take h []
  rw [append_nil, append_nil] at hpass
  exact ⟨_, hpass⟩

theorem getStringRegion_flatMap {len : Nat} (h : start + len ≤ s.length) :
    getStringRegion (s.flatMap utf) start len = .ok ((s.drop start).take len) := by
  obtain ⟨_, hstart⟩ := collect_start (show start ≤ s.length by omega)
  have hlen : len ≤ (s.drop start).length := by
    rw [length_drop]
    omega
  have hread := readUnit_reads.collect_take hlen []
  rw [append_nil, map_id] at hread
  rw [getStringRegion, hstart]
  show (collect readUnit len ((s.drop start).flatMap utf) >>= _) = _
  rw [hread]
  rfl

theorem getStringUTFRegion_flatMap {len : Nat} (h : start + len ≤ s.length) :
    getStringUTFRegion (s.flatMap utf) start len =
      .ok (((s.drop start).take len).flatMap utf ++ [0]) := by
  obtain ⟨_, hstart⟩ := collect_start (show start ≤ s.length by omega)
  have hlen : len ≤ (s.drop start).length := by
    rw [length_drop]
    omega
  have hcopy := copyUnit_reads.collect_take hlen []
  rw [append_nil] at hcopy
  rw [getStringUTFRegion, hstart]
  show (collect copyUnit len ((s.drop start).flatMap utf) >>= _) = _
  rw [hcopy]
  rfl

theorem zero_notMem_utf (c : JChar) : 0 ∉ utf c := by
  have htrail : ∀ c : JChar, trailByte c ≠ 0 := by
    intro c h
    have := congrArg (fun b : Byte => b[7]) h
    simp [trailByte] at this
  rcases jCharToUTFLength_cases c with ⟨h, hne, hc⟩ | ⟨h, hc⟩ | h
  · rw [utf, h, utfBytes, mem_singleton]
    intro hzero
    have hunit := signExtend_setWidth hc
    rw [← hzero] at hunit
    exact hne hunit.symm
  · rw [utf, h, utfBytes]
    simp only [mem_cons, not_mem_nil, or_false, not_or]
    refine ⟨fun hzero => ?_, fun hzero => htrail c hzero.symm⟩
    have := congrArg (fun b : Byte => b[7]) hzero
    simp at this
  · rw [utf, h, utfBytes]
    simp only [mem_cons, not_mem_nil, or_false, not_or]
    refine ⟨fun hzero => ?_, fun hzero => htrail _ hzero.symm, fun hzero => htrail c hzero.symm⟩
    have := congrArg (fun b : Byte => b[7]) hzero
    simp at this

theorem newStringUTF_flatMap (s : List JChar) (rest : List Byte) :
    newStringUTF (s.flatMap utf ++ 0 :: rest) = s.flatMap utf := by
  have hall : ∀ b ∈ s.flatMap utf, b ≠ 0 := by
    intro b hb hzero
    obtain ⟨c, _, hc⟩ := mem_flatMap.mp hb
    exact zero_notMem_utf c (hzero ▸ hc)
  rw [newStringUTF, takeWhile_append_of_pos (by simpa using hall)]
  simp

/-- **Strings are made of the units they were made from**: their number, every region of
them, and every region as text. -/
theorem newString_roundtrip (s : List JChar) {start len : Nat} (hrange : start + len ≤ s.length) :
    ∃ str, newString s = .ok str ∧ getStringLength str = .ok s.length ∧
      getStringRegion str start len = .ok ((s.drop start).take len) ∧
      ∃ buf, getStringUTFRegion str start len = .ok buf ∧
        getStringLength (newStringUTF buf) = .ok len ∧
        getStringRegion (newStringUTF buf) 0 len = .ok ((s.drop start).take len) := by
  have hlen : ((s.drop start).take len).length = len := by
    rw [length_take, length_drop]
    omega
  refine ⟨_, newString_eq s, getStringLength_flatMap s, getStringRegion_flatMap hrange, _,
    getStringUTFRegion_flatMap hrange, ?_, ?_⟩
  · rw [newStringUTF_flatMap, getStringLength_flatMap, hlen]
  · have hall : 0 + len ≤ ((s.drop start).take len).length := by omega
    rw [newStringUTF_flatMap, getStringRegion_flatMap hall, drop_zero, take_take, min_self]

theorem newString_roundtrip_surrogate :
    let s : List JChar := [0, 0xD83D, 0x41]
    ∃ str, newString s = .ok str ∧ getStringLength str = .ok s.length ∧
      getStringRegion str 0 2 = .ok [0, 0xD83D] ∧
      ∃ buf, getStringUTFRegion str 0 2 = .ok buf ∧
        getStringLength (newStringUTF buf) = .ok 2 ∧
        getStringRegion (newStringUTF buf) 0 2 = .ok [0, 0xD83D] :=
  @newString_roundtrip [0, 0xD83D, 0x41] 0 2 (by decide)

end Jnivm
