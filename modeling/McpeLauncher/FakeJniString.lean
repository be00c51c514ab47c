import Mathlib

/-! # JNI strings of fake-jni

A `JString` is an array of 16-bit units with a second length, which counts bytes. A byte nothing has
been copied into keeps what the memory held (`Junk`), and operations on a `JInt` wrap (`jint`). -/
namespace FakeJni
open List

abbrev JChar := BitVec 16

abbrev Byte := BitVec 8

/-- What the string functions throw, or an access outside of an array. -/
inductive StringError where
  | outOfRange (what : String)
  | runtimeError (what : String)
  | badArrayNewLength
  | outOfBounds
  deriving DecidableEq

def jint (x : Int) : Int := x.bmod (2 ^ 32)

def sizeT (x : Int) : Nat := (x % 2 ^ 64).toNat

def IsJInt (x : Int) : Prop := -2 ^ 31 ≤ x ∧ x < 2 ^ 31

theorem jint_def (x : Int) :
    jint x = if x % 2 ^ 32 < 2 ^ 31 then x % 2 ^ 32 else x % 2 ^ 32 - 2 ^ 32 := rfl

theorem jint_isJInt (x : Int) : IsJInt (jint x) := by
  rw [jint_def]
  constructor <;> split <;> omega

variable {x start len : Int} {b : List Byte} {i : Nat}

theorem IsJInt.jint_eq (h : IsJInt x) : jint x = x := by
  obtain ⟨hlo, hhi⟩ := h
  rw [jint_def]
  split <;> omega

theorem jint_wrap (hlo : 2 ^ 31 ≤ x) (hhi : x < 2 ^ 32) : jint x = x - 2 ^ 32 := by
  rw [jint_def]
  split <;> omega

theorem sizeT_of_nonneg (h : 0 ≤ x) (hx : IsJInt x) : sizeT x = x.toNat := by
  obtain ⟨_, hhi⟩ := hx
  unfold sizeT
  omega

/-! ## Bytes of a unit -/

def loByte (u : JChar) : Byte := u.setWidth 8

def hiByte (u : JChar) : Byte := (u >>> 8).setWidth 8

/-- The unit two bytes of memory make; the lower one comes first. -/
def unitOf (lo hi : Byte) : JChar := hi ++ lo

theorem unitOf_toNat (lo hi : Byte) : (unitOf lo hi).toNat = hi.toNat * 256 + lo.toNat := by
  unfold unitOf
  rw [BitVec.toNat_append, ← Nat.shiftLeft_add_eq_or_of_lt lo.isLt, Nat.shiftLeft_eq]

theorem hiByte_toNat (u : JChar) : (hiByte u).toNat = u.toNat / 256 := by
  unfold hiByte
  rw [BitVec.toNat_setWidth, BitVec.toNat_ushiftRight, Nat.shiftRight_eq_div_pow]
  omega

theorem unitOf_bytes (u : JChar) : unitOf (loByte u) (hiByte u) = u := by
  apply BitVec.eq_of_toNat_eq
  rw [unitOf_toNat, hiByte_toNat, loByte, BitVec.toNat_setWidth]
  omega

theorem hiByte_unitOf (lo hi : Byte) : hiByte (unitOf lo hi) = hi := by
  apply BitVec.eq_of_toNat_eq
  rw [hiByte_toNat, unitOf_toNat]
  omega

def bytesOf : List JChar → List Byte
  | [] => []
  | u :: us => loByte u :: hiByte u :: bytesOf us

def unitsOf : List Byte → List JChar
  | lo :: hi :: rest => unitOf lo hi :: unitsOf rest
  | _ => []

def unitAt (mem : List Byte) (i : Nat) : Option JChar :=
  match mem[2 * i]?, mem[2 * i + 1]? with
  | some lo, some hi => some (unitOf lo hi)
  | _, _ => none

theorem bytesOf_length (s : List JChar) : (bytesOf s).length = 2 * s.length := by
  induction s with
  | nil => rfl
  | cons u us ih =>
    simp only [bytesOf, length_cons, ih]
    omega

theorem bytesOf_getElem? (s : List JChar) (i : Nat) :
    (bytesOf s)[2 * i]? = s[i]?.map loByte ∧ (bytesOf s)[2 * i + 1]? = s[i]?.map hiByte := by
  induction s generalizing i with
  | nil => exact ⟨rfl, rfl⟩
  | cons u us ih =>
    cases i with
    | zero => exact ⟨rfl, rfl⟩
    | succ i => exact ih i

theorem unitsOf_getElem? (mem : List Byte) (i : Nat) : (unitsOf mem)[i]? = unitAt mem i := by
  induction mem using unitsOf.induct generalizing i with
  | case1 lo hi rest ih =>
    cases i with
    | zero => rfl
    | succ i => exact ih i
  | case2 mem hmem =>
    have hshort : mem.length ≤ 1 := by
      rcases mem with _ | ⟨lo, _ | ⟨hi, rest⟩⟩
      · exact Nat.zero_le _
      · exact le_rfl
      · exact absurd rfl (hmem lo hi rest)
    have hnone : mem[2 * i + 1]? = none := getElem?_eq_none (by omega)
    rw [unitsOf, unitAt, hnone]
    · cases mem[2 * i]? <;> rfl
    · exact hmem

abbrev Junk := Nat → Byte

def newBytes (junk : Junk) (n : Nat) : List Byte := (List.range n).map junk

theorem newBytes_length (junk : Junk) (n : Nat) : (newBytes junk n).length = n := by
  rw [newBytes, length_map, length_range]

theorem newBytes_getElem? (junk : Junk) {n j : Nat} (h : j < n) :
    (newBytes junk n)[j]? = some (junk j) := by
  rw [newBytes, getElem?_map, getElem?_range h]
  rfl

def memcpy (dst src : List Byte) (n : Nat) : Except StringError (List Byte) :=
  if n ≤ dst.length ∧ n ≤ src.length then .ok (src.take n ++ dst.drop n)
  else .error .outOfBounds

theorem memcpy_ok (dst src : List Byte) (n : Nat) (hdst : n ≤ dst.length)
    (hsrc : n ≤ src.length) : memcpy dst src n = .ok (src.take n ++ dst.drop n) :=
  if_pos ⟨hdst, hsrc⟩

theorem memcpy_all {dst src : List Byte} {n : Nat} (hdst : dst.length = n)
    (hsrc : src.length = n) : memcpy dst src n = .ok src := by
  rw [memcpy_ok _ _ _ (by omega) (by omega), take_of_length_le (by omega),
    drop_of_length_le (by omega), append_nil]

section Copied
variable (dst src : List Byte) {n j : Nat}

theorem copied_inside (h : j < n) (hsrc : n ≤ src.length) :
    (src.take n ++ dst.drop n)[j]? = src[j]? := by
  rw [getElem?_append_left (by rw [length_take]; omega), getElem?_take_of_lt h]

theorem copied_outside (h : n ≤ j) (hsrc : n ≤ src.length) :
    (src.take n ++ dst.drop n)[j]? = dst[j]? := by
  have htake : (src.take n).length = n := by rw [length_take]; omega
  rw [getElem?_append_right (by omega), htake, getElem?_drop]
  congr 1
  omega

end Copied

/-- `JArrayImpl<JChar>`: the number of units, and the memory of the array. -/
structure JCharArray where
  size : Int
  array : List Byte

/-- `JArrayImpl(size)`; the array is not initialised. -/
def JCharArray.ofSize (junk : Junk) (size : Int) : Except StringError JCharArray :=
  if size < 0 then .error (.outOfRange "FATAL: Arrays cannot have a negative size!")
  else .ok ⟨size, newBytes junk (2 * size.toNat)⟩

/-- The array of a `JString`, and its length in bytes. -/
structure JString extends JCharArray where
  length : Int

/-- `JString(size)`: room for `size` bytes, in units rounded up. -/
def JString.ofSize (junk : Junk) (size : Int) : Except StringError JString :=
  (JCharArray.ofSize junk (-(-size / 2))).map fun a => { a with length := size }

def JString.ofUnits (junk : Junk) (str : List JChar) (size : Int) : Except StringError JString :=
  (JString.ofSize junk (jint (size * 2))).bind fun s =>
    -- the size counts units, and `memcpy` takes it for bytes
    (memcpy s.array (bytesOf str) (sizeT size)).map fun mem => { s with array := mem }

def strlen (str : List Byte) : Nat := (str.takeWhile (· ≠ 0)).length

/-- `JString(str)` for a C string; a null pointer is the empty one. -/
def JString.ofCStr (junk : Junk) (str : Option (List Byte)) : Except StringError JString :=
  (JString.ofSize junk ((str.map fun s => jint (strlen s)).getD 0)).bind fun s =>
    (memcpy s.array (str.getD []) (sizeT s.length)).map fun mem => { s with array := mem }

def newString (junk : Junk) (chars : List JChar) (size : Int) : Except StringError JString :=
  JString.ofUnits junk chars size

def newStringUTF (junk : Junk) (cStr : Option (List Byte)) : Except StringError JString :=
  JString.ofCStr junk cStr

def getStringLength (str : JString) : Int := str.length

def getStringUTFLength (str : JString) : Int := str.length

def getStringChars (junk : Junk) (str : JString) : Except StringError (List JChar) :=
  (memcpy (newBytes junk (2 * str.size.toNat)) str.array (sizeT str.length)).map unitsOf

/-- `getStringUTFChars`, in memory of its own and with the terminator. -/
def getStringUTFChars (junk : Junk) (str : JString) : Except StringError (List Byte) :=
  if jint (str.length + 1) < 0 then .error .badArrayNewLength
  else (memcpy (newBytes junk (jint (str.length + 1)).toNat) str.array (sizeT str.length)).map
    fun mem => mem.set str.length.toNat 0

/-- The check and the loop of the region functions: where `buf` is written, and the element read,
`none` for one outside. -/
def getRegion {α : Type} (what : String) (data : Int → Option α) (slen start len : Int) :
    Except StringError (List (Int × Option α)) :=
  if 0 > len ∨ jint (start + len) > slen then .error (.runtimeError what)
  -- `buf` is indexed like the string: the first element goes to `buf[start]`
  else .ok ((List.range (jint (start + len) - start).toNat).map
    fun k : Nat => (start + k, data (start + k)))

def JString.unit (str : JString) (i : Int) : Option JChar :=
  if 0 ≤ i then unitAt str.array i.toNat else none

def JString.byte (str : JString) (i : Int) : Option Byte :=
  if 0 ≤ i then str.array[i.toNat]? else none

def getStringRegion (str : JString) (start len : Int) :
    Except StringError (List (Int × Option JChar)) :=
  getRegion "FATAL: Invalid string region requested!" str.unit str.length start len

def getStringUTFRegion (str : JString) (start len : Int) :
    Except StringError (List (Int × Option Byte)) :=
  getRegion "FATAL: Invalid UTF string region requested!" str.byte str.length start len

/-- `s[start .. start+len)` at `buf[0 .. len)`, and nothing for a region that is not one of `s`. -/
def RegionRight {α : Type} (s : List α) (start len : Int)
    (out : Except StringError (List (Int × Option α))) : Prop :=
  if 0 ≤ start ∧ 0 ≤ len ∧ start + len ≤ s.length then
    out = .ok ((List.range len.toNat).map fun k : Nat => ((k : Int), s[start.toNat + k]?))
  else ∀ writes, out = .ok writes → writes = []

section Regions
variable {α : Type} {what : String} {data : Int → Option α} {s : List α} {slen start len : Int}

theorem getRegion_ok (hlen : 0 ≤ len) (hend : start + len ≤ slen) (hstart : IsJInt start)
    (hslen : IsJInt slen) :
    getRegion what data slen start len =
      .ok ((range len.toNat).map fun k : Nat => (start + k, data (start + k))) := by
  have hsum : jint (start + len) = start + len := by
    refine IsJInt.jint_eq ⟨?_, ?_⟩
    · exact le_trans hstart.1 (by omega)
    · exact lt_of_le_of_lt hend hslen.2
  rw [getRegion, hsum, if_neg (by omega), show start + len - start = len by omega]

/-- Behind the end nothing is read: the check throws, or the overflow of its sum keeps the loop
from running. -/
theorem getRegion_behind (hend : slen < start + len) (hslen : 0 ≤ slen) (hstart : IsJInt start)
    (hlen : IsJInt len) {writes : List (Int × Option α)}
    (h : getRegion what data slen start len = .ok writes) : writes = [] := by
  have hstart' := hstart.2
  have hlen' := hlen.2
  rw [getRegion] at h
  split at h
  · exact absurd h nofun
  · rename_i hcheck
    by_cases hover : start + len < 2 ^ 31
    · rw [IsJInt.jint_eq ⟨by omega, hover⟩] at hcheck
      omega
    · rw [jint_wrap (by omega) (by omega)] at h
      have hnone : (start + len - 2 ^ 32 - start).toNat = 0 := by omega
      rw [hnone] at h
      injection h with h
      exact h.symm

/-- **Which regions are right.** `buf` is written at the offsets of the string, so a nonempty region
has to start at 0; and the check is against `slen`. -/
theorem getRegion_right_iff (hs : s.length ≤ slen) (hslen : IsJInt slen) (hstart : IsJInt start)
    (hlen : IsJInt len) :
    RegionRight s start len (getRegion what data slen start len) ↔
      if 0 ≤ start ∧ 0 ≤ len ∧ start + len ≤ s.length then
        len = 0 ∨ (start = 0 ∧ ∀ k < len.toNat, data (k : Nat) = s[k]?)
      else len ≤ 0 ∨ slen < start + len := by
  unfold RegionRight
  split
  case isTrue hin =>
    obtain ⟨hstart0, hlen0, hend⟩ := hin
    rw [getRegion_ok hlen0 (by omega) hstart hslen]
    constructor
    · intro h
      injection h with h
      rcases Nat.eq_zero_or_pos len.toNat with hzero | hpos
      · exact .inl (by omega)
      · -- the first write is at `buf[start]` and has to be at `buf[0]`
        have hall := map_inj_left.mp h
        have hfirst := hall 0 (mem_range.mpr hpos)
        injection hfirst with hfirst _
        have hzero : start = 0 := by omega
        refine .inr ⟨hzero, fun k hk => ?_⟩
        have hk' := hall k (mem_range.mpr hk)
        injection hk' with _ hk'
        rw [hzero] at hk'
        simpa using hk'
    · rintro (hzero | ⟨hzero, hall⟩)
      · rw [hzero]
        rfl
      · subst hzero
        congr 1
        refine map_congr_left fun k hk => ?_
        have hk' := hall k (mem_range.mp hk)
        simpa using hk'
  case isFalse hout =>
    constructor
    · intro h
      by_contra hcopied
      push Not at hcopied
      have hnil := h _ (getRegion_ok (by omega) hcopied.2 hstart hslen)
      have hlength := congrArg length hnil
      rw [length_map, length_range, length_nil] at hlength
      omega
    · rintro (hneg | hend) writes h
      · by_cases hzero : len = 0
        · subst hzero
          rw [getRegion] at h
          split at h
          · exact absurd h nofun
          · rw [Int.add_zero, hstart.jint_eq, Int.sub_self] at h
            injection h with h
            exact h.symm
        · rw [getRegion, if_pos (.inl (by omega))] at h
          exact absurd h nofun
      · exact getRegion_behind hend (by omega) hstart hlen h

end Regions

/-! ## Strings made from units -/

/-- The array of a string made from `s`: half of its bytes, and what the memory held. -/
def copiedUnits (junk : Junk) (s : List JChar) : List Byte :=
  (bytesOf s).take s.length ++ (newBytes junk (2 * s.length)).drop s.length

theorem copiedUnits_length (junk : Junk) (s : List JChar) :
    (copiedUnits junk s).length = 2 * s.length := by
  rw [copiedUnits, length_append, length_take, length_drop, bytesOf_length,
    newBytes_length]
  omega

theorem newString_ok (junk : Junk) {s : List JChar} (hs : s.length < 2 ^ 30) :
    newString junk s s.length =
      .ok ⟨⟨s.length, copiedUnits junk s⟩, 2 * s.length⟩ := by
  have hint : jint ((s.length : Int) * 2) = 2 * s.length := by
    rw [IsJInt.jint_eq ⟨by omega, by omega⟩, mul_comm]
  have hsize : sizeT (s.length : Int) = s.length := by
    rw [sizeT_of_nonneg (by omega) ⟨by omega, by omega⟩, Int.toNat_natCast]
  have hceil : -(-(2 * (s.length : Int)) / 2) = s.length := by omega
  have hcopy := memcpy_ok (newBytes junk (2 * s.length)) (bytesOf s) s.length
    (by rw [newBytes_length]; omega) (by rw [bytesOf_length]; omega)
  rw [newString, JString.ofUnits, hint, JString.ofSize, hceil, JCharArray.ofSize,
    if_neg (by omega), Int.toNat_natCast, hsize]
  simp only [Except.map, Except.bind, hcopy]
  rfl

theorem newString_long (junk : Junk) {s : List JChar} (hlo : 2 ^ 30 ≤ s.length)
    (hhi : s.length < 2 ^ 31) :
    newString junk s s.length =
      .error (.outOfRange "FATAL: Arrays cannot have a negative size!") := by
  have hint : jint ((s.length : Int) * 2) = s.length * 2 - 2 ^ 32 := jint_wrap (by omega) (by omega)
  have hneg : -(-((s.length : Int) * 2 - 2 ^ 32) / 2) < 0 := by omega
  rw [newString, JString.ofUnits, hint, JString.ofSize, JCharArray.ofSize, if_pos hneg]
  rfl

theorem copiedUnits_right (junk : Junk) {s : List JChar} (h : 2 * i + 2 ≤ s.length) :
    unitAt (copiedUnits junk s) i = s[i]? := by
  have hbytes := bytesOf_length s
  rw [unitAt, copiedUnits, copied_inside _ _ (by omega) (by omega),
    copied_inside _ _ (by omega) (by omega), (bytesOf_getElem? s i).1, (bytesOf_getElem? s i).2]
  cases s[i]? with
  | none => rfl
  | some u => exact congrArg some (unitOf_bytes u)

theorem not_ne_self (b : Byte) : ~~~b ≠ b := by
  intro h
  have hnat := congrArg BitVec.toNat h
  rw [BitVec.toNat_not] at hnat
  omega

section
variable {s : List JChar}

theorem copiedUnits_wrong (hi : i < s.length) (h : s.length < 2 * i + 2) :
    ∃ junk, unitAt (copiedUnits junk s) i ≠ s[i]? := by
  refine ⟨fun _ => ~~~hiByte s[i], fun heq => ?_⟩
  have hbytes := bytesOf_length s
  have hhi : (copiedUnits (fun _ => ~~~hiByte s[i]) s)[2 * i + 1]? = some (~~~hiByte s[i]) := by
    rw [copiedUnits, copied_outside _ _ (by omega) (by omega), newBytes_getElem? _ (by omega)]
  rw [unitAt, hhi, getElem?_eq_getElem hi] at heq
  split at heq
  · rename_i lo hi' _ hhi'
    injection heq with heq
    injection hhi' with hhi'
    refine not_ne_self (hiByte s[i]) ?_
    rw [hhi', ← heq, hiByte_unitOf]
  · exact absurd heq nofun

theorem copiedUnits_right_iff (hi : i < s.length) :
    (∀ junk, unitAt (copiedUnits junk s) i = s[i]?) ↔ 2 * i + 2 ≤ s.length := by
  constructor
  · intro h
    by_contra hshort
    obtain ⟨junk, hne⟩ := copiedUnits_wrong hi (by omega)
    exact hne (h junk)
  · exact fun h junk => copiedUnits_right junk h

theorem getStringLength_iff (hs : s.length < 2 ^ 31) :
    (∀ junk, (newString junk s s.length).map getStringLength = .ok (s.length : Int)) ↔
      s = [] := by
  constructor
  · intro h
    have h0 := h fun _ => 0
    by_cases hlong : s.length < 2 ^ 30
    · rw [newString_ok _ hlong] at h0
      injection h0 with h0
      have hdouble : 2 * (s.length : Int) = s.length := h0
      exact length_eq_zero_iff.mp (by omega)
    · rw [newString_long _ (by omega) hs] at h0
      exact absurd h0 nofun
  · rintro rfl junk
    rfl

theorem getStringChars_eq (junk junk' : Junk) (hs : s.length < 2 ^ 30) :
    (newString junk s s.length).bind (getStringChars junk') =
      .ok (unitsOf (copiedUnits junk s)) := by
  have hsize : sizeT (2 * (s.length : Int)) = 2 * s.length := by
    rw [sizeT_of_nonneg (by omega) ⟨by omega, by omega⟩]
    omega
  rw [newString_ok junk hs]
  simp only [Except.bind, getStringChars]
  rw [hsize, memcpy_all (by rw [newBytes_length, Int.toNat_natCast]) (copiedUnits_length junk s)]
  rfl

theorem getStringChars_iff (hs : s.length < 2 ^ 31) :
    (∀ junk junk', (newString junk s s.length).bind (getStringChars junk') = .ok s) ↔
      s = [] := by
  constructor
  · intro h
    by_contra hne
    have hpos := length_pos_iff.mpr hne
    by_cases hlong : s.length < 2 ^ 30
    · -- the last unit lies in the half that was not copied
      obtain ⟨junk, hwrong⟩ := copiedUnits_wrong (Nat.sub_one_lt_of_lt hpos) (by omega)
      have h0 := h junk junk
      rw [getStringChars_eq junk junk hlong] at h0
      injection h0 with h0
      exact hwrong (by rw [← unitsOf_getElem?, h0])
    · have h0 := h (fun _ => 0) (fun _ => 0)
      rw [newString_long _ (by omega) hs] at h0
      exact absurd h0 nofun
  · rintro rfl junk junk'
    rfl

theorem getStringRegion_right_iff (junk : Junk) (hs : s.length < 2 ^ 30) (hstart : IsJInt start)
    (hlen : IsJInt len) :
    (∃ str, newString junk s s.length = .ok str ∧
        RegionRight s start len (getStringRegion str start len)) ↔
      if 0 ≤ start ∧ 0 ≤ len ∧ start + len ≤ s.length then
        len = 0 ∨ (start = 0 ∧ ∀ k < len.toNat, unitAt (copiedUnits junk s) k = s[k]?)
      else len ≤ 0 ∨ 2 * s.length < start + len := by
  have hslen : IsJInt (2 * (s.length : Int)) := ⟨by omega, by omega⟩
  have hle : (s.length : Int) ≤ 2 * s.length := by omega
  rw [newString_ok junk hs]
  simp only [Except.ok.injEq, exists_eq_left']
  exact getRegion_right_iff hle hslen hstart hlen

theorem getStringRegion_iff (hs : s.length < 2 ^ 31) (hstart : IsJInt start) (hlen : IsJInt len) :
    (∀ junk, ∃ str, newString junk s s.length = .ok str ∧
        RegionRight s start len (getStringRegion str start len)) ↔
      s.length < 2 ^ 30 ∧
        if 0 ≤ start ∧ 0 ≤ len ∧ start + len ≤ s.length then
          len = 0 ∨ (start = 0 ∧ 2 * len ≤ s.length)
        else len ≤ 0 ∨ 2 * s.length < start + len := by
  by_cases hshort : s.length < 2 ^ 30
  case neg =>
    refine ⟨fun h => ?_, fun h => absurd h.1 hshort⟩
    obtain ⟨str, hstr, _⟩ := h fun _ => 0
    rw [newString_long _ (by omega) hs] at hstr
    exact absurd hstr nofun
  case pos =>
    simp only [getStringRegion_right_iff _ hshort hstart hlen, hshort, true_and]
    split
    · constructor
      · intro h
        by_cases hzero : len = 0
        · exact .inl hzero
        · have hall : ∀ junk, start = 0 ∧
              ∀ k < len.toNat, unitAt (copiedUnits junk s) k = s[k]? :=
            fun junk => (h junk).resolve_left hzero
          -- the last unit of the region has to be in the half that was copied
          have hlast := (copiedUnits_right_iff (by omega)).mp
            fun junk => (hall junk).2 (len.toNat - 1) (by omega)
          exact .inr ⟨(hall fun _ => 0).1, by omega⟩
      · rintro (hzero | ⟨hzero, hhalf⟩) junk
        · exact .inl hzero
        · exact .inr ⟨hzero, fun k hk => copiedUnits_right junk (by omega)⟩
    · exact forall_const _

end

/-! ## Strings made from bytes -/

theorem strlen_eq (hb : 0 ∉ b) (rest : List Byte) : strlen (b ++ 0 :: rest) = b.length := by
  unfold strlen
  have hall : ∀ x ∈ b, decide (x ≠ 0) = true := by
    intro x hx
    rw [decide_eq_true_iff]
    rintro rfl
    exact hb hx
  rw [takeWhile_append_of_pos hall, takeWhile_cons_of_neg (by decide), append_nil]

theorem newStringUTF_ok (junk : Junk) (hb : 0 ∉ b) (hlen : b.length < 2 ^ 31) (rest : List Byte) :
    ∃ str pad, newStringUTF junk (some (b ++ 0 :: rest)) = .ok str ∧ str.length = b.length ∧
      str.array = b ++ pad := by
  have hint : jint (b.length : Int) = b.length := IsJInt.jint_eq ⟨by omega, by omega⟩
  have hsize : sizeT (b.length : Int) = b.length := by
    rw [sizeT_of_nonneg (by omega) ⟨by omega, by omega⟩, Int.toNat_natCast]
  have hroom : b.length ≤ 2 * (-(-(b.length : Int) / 2)).toNat := by omega
  have hcopy := memcpy_ok (newBytes junk (2 * (-(-(b.length : Int) / 2)).toNat))
    (b ++ 0 :: rest) b.length (by rw [newBytes_length]; exact hroom)
    (by rw [length_append]; omega)
  rw [take_left' rfl] at hcopy
  refine ⟨⟨⟨-(-(b.length : Int) / 2), b ++ _⟩, b.length⟩,
    (newBytes junk (2 * (-(-(b.length : Int) / 2)).toNat)).drop b.length, ?_, rfl, rfl⟩
  rw [newStringUTF, JString.ofCStr, Option.map_some, Option.getD_some, strlen_eq hb, hint,
    JString.ofSize, JCharArray.ofSize, if_neg (by omega)]
  simp only [Except.map, Except.bind, Option.getD_some, hsize, hcopy]

variable {str : JString}

theorem getStringUTFChars_length {junk : Junk} {v : List Byte}
    (h : getStringUTFChars junk str = .ok v) : (v.length : Int) = jint (str.length + 1) := by
  rw [getStringUTFChars] at h
  split at h
  · exact absurd h nofun
  · rw [memcpy] at h
    split at h
    · rename_i hroom
      rw [newBytes_length] at hroom
      injection h with h
      rw [← h, length_set, length_append, length_take, length_drop, newBytes_length]
      omega
    · exact absurd h nofun

theorem getStringUTFChars_ok (junk : Junk) {pad : List Byte} (hlength : str.length = b.length)
    (harray : str.array = b ++ pad) (hb : b.length + 1 < 2 ^ 31) :
    getStringUTFChars junk str = .ok (b ++ [0]) := by
  have hint : jint ((b.length : Int) + 1) = b.length + 1 := IsJInt.jint_eq ⟨by omega, by omega⟩
  have hsize : sizeT (b.length : Int) = b.length := by
    rw [sizeT_of_nonneg (by omega) ⟨by omega, by omega⟩, Int.toNat_natCast]
  have hnat : ((b.length : Int) + 1).toNat = b.length + 1 := by omega
  -- the one byte that is not copied is the one set to 0
  obtain ⟨x, hx⟩ : ∃ x, (newBytes junk (b.length + 1)).drop b.length = [x] := by
    refine length_eq_one_iff.mp ?_
    rw [length_drop, newBytes_length]
    omega
  have hcopy := memcpy_ok (newBytes junk (b.length + 1)) (b ++ pad) b.length
    (by rw [newBytes_length]; omega) (by rw [length_append]; omega)
  rw [take_left' rfl, hx] at hcopy
  rw [getStringUTFChars, hlength, harray, hint, if_neg (by omega), hnat, hsize, hcopy]
  simp [Except.map]

theorem getStringUTFChars_iff (hb : 0 ∉ b) (rest : List Byte) :
    (∀ junk junk', (newStringUTF junk (some (b ++ 0 :: rest))).bind (getStringUTFChars junk') =
        .ok (b ++ [0])) ↔
      b.length + 1 < 2 ^ 31 := by
  constructor
  · intro h
    have h0 := h (fun _ => 0) (fun _ => 0)
    cases hstr : newStringUTF (fun _ => 0) (some (b ++ 0 :: rest)) with
    | error e =>
      rw [hstr] at h0
      exact absurd h0 nofun
    | ok str =>
      rw [hstr] at h0
      have hlength := getStringUTFChars_length h0
      have hlt := (jint_isJInt (str.length + 1)).2
      rw [length_append, length_singleton] at hlength
      omega
  · intro hlt junk junk'
    obtain ⟨str, pad, hstr, hlength, harray⟩ := newStringUTF_ok junk hb (by omega) rest
    rw [hstr]
    exact getStringUTFChars_ok junk' hlength harray hlt

/-- **Which strings come back.** Of a string made from units only the empty one; a region is right
when it is empty or in the first half from the start on. A text comes back if it fits an `int`. -/
theorem jni_strings_iff (s : List JChar) (hs : s.length < 2 ^ 31) (start len : Int)
    (hstart : IsJInt start) (hlen : IsJInt len) (b rest : List Byte) (hb : 0 ∉ b) :
    ((∀ junk, (newString junk s s.length).map getStringLength = .ok (s.length : Int)) ↔
        s = []) ∧
      ((∀ junk junk', (newString junk s s.length).bind (getStringChars junk') = .ok s) ↔
        s = []) ∧
      ((∀ junk, ∃ str, newString junk s s.length = .ok str ∧
          RegionRight s start len (getStringRegion str start len)) ↔
        s.length < 2 ^ 30 ∧
          if 0 ≤ start ∧ 0 ≤ len ∧ start + len ≤ s.length then
            len = 0 ∨ (start = 0 ∧ 2 * len ≤ s.length)
          else len ≤ 0 ∨ 2 * s.length < start + len) ∧
      ((∀ junk junk', (newStringUTF junk (some (b ++ 0 :: rest))).bind
          (getStringUTFChars junk') = .ok (b ++ [0])) ↔ b.length + 1 < 2 ^ 31) :=
  ⟨getStringLength_iff hs, getStringChars_iff hs, getStringRegion_iff hs hstart hlen,
    getStringUTFChars_iff hb rest⟩

theorem jni_strings_sample :
    ((∀ junk, ∃ str, newString junk [0x41] 1 = .ok str ∧
        RegionRight [0x41] 1 0 (getStringRegion str 1 0)) ∧
      ∀ junk junk', (newStringUTF junk (some [0x68, 0x69, 0])).bind (getStringUTFChars junk') =
        .ok [0x68, 0x69, 0]) := by
  obtain ⟨_, _, hregion, hutf⟩ := jni_strings_iff [0x41] (by decide) 1 0 ⟨by decide, by decide⟩
    ⟨by decide, by decide⟩ [0x68, 0x69] [] (by decide)
  exact ⟨hregion.mpr (by decide), hutf.mpr (by decide)⟩

/-- The string of the unit `A` has the length 2; its own region is not copied whole, and the one at
1, which it does not have, goes to `buf[1]`. -/
theorem jni_string_of_one_unit :
    (newString (fun _ => 0xFF) [0x41] 1).map getStringLength = .ok 2 ∧
      (newString (fun _ => 0xFF) [0x41] 1).bind (getStringChars fun _ => 0) = .ok [0xFF41] ∧
      (newString (fun _ => 0xFF) [0x41] 1).bind (getStringRegion · 0 1) =
        .ok [(0, some 0xFF41)] ∧
      (newString (fun _ => 0xFF) [0x41] 1).bind (getStringRegion · 1 1) = .ok [(1, none)] :=
  ⟨rfl, rfl, rfl, rfl⟩

/-- **Which bytes of a text come back.** The length is right; a nonempty region of it is copied to
where it should be only from the start on, and one that starts before it is not refused. -/
theorem getStringUTFRegion_iff (junk : Junk) (b rest : List Byte) (hb : 0 ∉ b)
    (hshort : b.length < 2 ^ 31) (start len : Int) (hstart : IsJInt start) (hlen : IsJInt len) :
    ∃ str, newStringUTF junk (some (b ++ 0 :: rest)) = .ok str ∧
      getStringUTFLength str = b.length ∧
      (RegionRight b start len (getStringUTFRegion str start len) ↔
        len ≤ 0 ∨ start = 0 ∨ b.length < start + len) := by
  obtain ⟨str, pad, hstr, hlength, harray⟩ := newStringUTF_ok junk hb hshort rest
  have hbytes : ∀ k < b.length, str.byte k = b[k]? := fun k hk => by
    rw [JString.byte, if_pos (Int.natCast_nonneg k), harray, Int.toNat_natCast,
      getElem?_append_left hk]
  refine ⟨str, hstr, hlength, ?_⟩
  rw [getStringUTFRegion, hlength,
    getRegion_right_iff (le_refl _) ⟨by omega, by omega⟩ hstart hlen]
  split
  · rw [and_iff_left_of_imp fun hzero k hk => hbytes k (by omega)]
    omega
  · omega

theorem getStringUTFRegion_front :
    ∃ str, newStringUTF (fun _ => 0) (some [0x68, 0x69, 0]) = .ok str ∧
      RegionRight [0x68, 0x69] 0 1 (getStringUTFRegion str 0 1) := by
  obtain ⟨str, hstr, -, hregion⟩ := getStringUTFRegion_iff (fun _ => 0) [0x68, 0x69] []
    (by decide) (by decide) 0 1 ⟨by decide, by decide⟩ ⟨by decide, by decide⟩
  exact ⟨str, hstr, hregion.mpr (.inr (.inl rfl))⟩

end FakeJni
