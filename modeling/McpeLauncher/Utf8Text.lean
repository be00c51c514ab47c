import Mathlib

/-! # Texts of UTF-8 characters

A character is a first byte, which says how many bytes follow, and these. A text is read back in one
way only (`bytes_inj`). -/
namespace Utf8Text
open List

def isContinuation (b : UInt8) : Bool := b &&& 0b11000000 == 0b10000000

def extraBytes (lead : UInt8) : Option Nat :=
  if lead < 0x80 then some 0
  else if lead < 0xc0 then none
  else if lead < 0xe0 then some 1
  else if lead < 0xf0 then some 2
  else if lead < 0xf8 then some 3
  else none

@[ext]
structure Utf8Char where
  lead : UInt8
  rest : List UInt8
  size : extraBytes lead = some rest.length
  continues : ∀ b ∈ rest, isContinuation b = true

def Utf8Char.bytes (c : Utf8Char) : List UInt8 := c.lead :: c.rest

def bytes (text : List Utf8Char) : List UInt8 := text.flatMap Utf8Char.bytes

@[simp] theorem bytes_nil : bytes [] = [] := rfl

@[simp] theorem bytes_cons (c : Utf8Char) (text : List Utf8Char) :
    bytes (c :: text) = c.lead :: (c.rest ++ bytes text) := rfl

@[simp] theorem bytes_append (text text' : List Utf8Char) :
    bytes (text ++ text') = bytes text ++ bytes text' := flatMap_append

theorem forall_byte {p : UInt8 → Prop} (h : ∀ n < 256, p (UInt8.ofNat n)) (b : UInt8) : p b := by
  have := h b.toNat b.toNat_lt
  rwa [UInt8.ofNat_toNat] at this

theorem not_isContinuation_lead (c : Utf8Char) : isContinuation c.lead = false := by
  have hbyte : ∀ b : UInt8, (extraBytes b).isSome = true → isContinuation b = false :=
    forall_byte (by decide +kernel)
  exact hbyte c.lead (by rw [c.size]; rfl)

variable {text : List Utf8Char}

theorem bytes_inj {text' : List Utf8Char} (h : bytes text = bytes text') : text = text' := by
  induction text generalizing text' with
  | nil =>
    cases text' with
    | nil => rfl
    | cons c' text' => simp at h
  | cons c text ih =>
    cases text' with
    | nil => simp at h
    | cons c' text' =>
      obtain ⟨hlead, hrest⟩ := cons.inj h
      have hsize : c.rest.length = c'.rest.length := by
        have := c.size.symm.trans ((congrArg extraBytes hlead).trans c'.size)
        exact Option.some.inj this
      obtain ⟨hchar, htext⟩ := append_inj hrest hsize
      rw [Utf8Char.ext hlead hchar, ih htext]

theorem bytes_append_inj {front back front' back' : List Utf8Char}
    (h : bytes front ++ bytes back = bytes front' ++ bytes back')
    (hlength : (bytes front).length = (bytes front').length) : front = front' ∧ back = back' := by
  obtain ⟨hfront, hback⟩ := append_inj h hlength
  exact ⟨bytes_inj hfront, bytes_inj hback⟩

theorem length_bytes_take_lt {i j : Nat} (hij : i < j) (hj : j ≤ text.length) :
    (bytes (text.take i)).length < (bytes (text.take j)).length := by
  obtain ⟨k, rfl⟩ := Nat.exists_eq_add_of_lt hij
  have hi : i < text.length := by omega
  have hsplit : text.take (i + k + 1) = text.take i ++ text[i] :: (text.drop (i + 1)).take k := by
    rw [add_assoc, take_add, drop_eq_getElem_cons hi, take_succ_cons]
  rw [hsplit, bytes_append, bytes_cons, length_append, length_cons]
  omega

theorem length_bytes_take_inj {i j : Nat} (hi : i ≤ text.length) (hj : j ≤ text.length)
    (h : (bytes (text.take i)).length = (bytes (text.take j)).length) : i = j := by
  rcases Nat.lt_trichotomy i j with hlt | heq | hlt
  · have := length_bytes_take_lt hlt hj
    omega
  · exact heq
  · have := length_bytes_take_lt hlt hi
    omega

theorem bytes_slice (text : List Utf8Char) {i j : Nat} (hij : i ≤ j) :
    ((bytes text).drop (bytes (text.take i)).length).take
        ((bytes (text.take j)).length - (bytes (text.take i)).length) =
      bytes ((text.drop i).take (j - i)) := by
  have htext : bytes text = bytes (text.take i) ++ bytes (text.drop i) := by
    rw [← bytes_append, take_append_drop]
  have hfront : text.take j = text.take i ++ (text.drop i).take (j - i) := by
    rw [← take_add, Nat.add_sub_cancel' hij]
  have hrest : bytes (text.drop i) =
      bytes ((text.drop i).take (j - i)) ++ bytes ((text.drop i).drop (j - i)) := by
    rw [← bytes_append, take_append_drop]
  rw [hfront, bytes_append, length_append, Nat.add_sub_cancel_left, htext, drop_left,
    hrest, take_left]

end Utf8Text
