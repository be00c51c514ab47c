import Mathlib.Data.BitVec
import Mathlib.Data.List.GetD
import Mathlib.Tactic.Common

/-! # Byte memory

Memory as a function of the address, with stores of several bytes and words of four, the lowest
first. Addresses wrap. -/
namespace ByteMemory
open List BitVec
variable {w : Nat}

abbrev Memory (w : Nat) := BitVec w → BitVec 8

def store (mem : Memory w) (a : BitVec w) (bytes : List (BitVec 8)) : Memory w :=
  fun x => bytes.getD (x - a).toNat (mem x)

def word (mem : Memory w) (a : BitVec w) : BitVec 32 :=
  mem (a + 3) ++ mem (a + 2) ++ mem (a + 1) ++ mem a

def wordBytes (v : BitVec 32) : List (BitVec 8) :=
  [v.extractLsb' 0 8, v.extractLsb' 8 8, v.extractLsb' 16 8, v.extractLsb' 24 8]

@[simp] theorem length_wordBytes (v : BitVec 32) : (wordBytes v).length = 4 := rfl

theorem append_bytes (v : BitVec 32) :
    (v.extractLsb' 24 8 ++ v.extractLsb' 16 8 ++ v.extractLsb' 8 8 ++ v.extractLsb' 0 8 :
      BitVec 32) = v := by
  apply eq_of_getLsbD_eq
  grind

theorem wordBytes_append (a b c d : BitVec 8) : wordBytes (d ++ c ++ b ++ a) = [a, b, c, d] := by
  have hbyte {k : Nat} {x : BitVec 8}
      (h : ∀ i < 8, (d ++ c ++ b ++ a).getLsbD (k + i) = x.getLsbD i) :
      (d ++ c ++ b ++ a).extractLsb' k 8 = x := by
    apply eq_of_getLsbD_eq
    intro i hi
    rw [getLsbD_extractLsb', h i hi]
    simp [hi]
  have ha : (d ++ c ++ b ++ a).extractLsb' 0 8 = a := hbyte fun i hi => by grind
  have hb : (d ++ c ++ b ++ a).extractLsb' 8 8 = b := hbyte fun i hi => by grind
  have hc : (d ++ c ++ b ++ a).extractLsb' 16 8 = c := hbyte fun i hi => by grind
  have hd : (d ++ c ++ b ++ a).extractLsb' 24 8 = d := hbyte fun i hi => by grind
  rw [wordBytes, ha, hb, hc, hd]

section Store
variable (mem : Memory w) (a : BitVec w) {b : BitVec 8} {bytes : List (BitVec 8)}

theorem store_of_le {x : BitVec w} (h : bytes.length ≤ (x - a).toNat) :
    store mem a bytes x = mem x :=
  getD_eq_default _ _ h

theorem store_add {i : Nat} (hi : i < bytes.length) (hw : bytes.length ≤ 2 ^ w) :
    store mem a bytes (a + BitVec.ofNat w i) = bytes[i] := by
  have hoff : (a + BitVec.ofNat w i - a).toNat = i := by
    rw [add_sub_cancel_left, toNat_ofNat]
    exact Nat.mod_eq_of_lt (by omega)
  rw [store, hoff, getD_eq_getElem _ _ hi]

theorem store_cons_self : store mem a (b :: bytes) a = b := by
  rw [store, sub_self]
  rfl

theorem store_singleton_eq_iff : store mem a [b] = mem ↔ mem a = b := by
  constructor
  · intro h
    have hself : store mem a [b] a = b := store_cons_self mem a
    rwa [h] at hself
  · intro h
    funext x
    by_cases hx : x = a
    · rw [hx, store_cons_self, h]
    · refine store_of_le mem a ?_
      have hne : x - a ≠ 0 := sub_ne_zero.mpr hx
      exact Nat.pos_of_ne_zero fun h0 => hne (eq_of_toNat_eq h0)

theorem store_append (front back : List (BitVec 8)) (hw : front.length + back.length < 2 ^ w) :
    store (store mem a front) (a + BitVec.ofNat w front.length) back =
      store mem a (front ++ back) := by
  funext x
  have hk := (x - a).isLt
  have hfront : front.length % 2 ^ w = front.length := Nat.mod_eq_of_lt (by omega)
  have hoff : (x - (a + BitVec.ofNat w front.length)).toNat =
      (2 ^ w - front.length + (x - a).toNat) % 2 ^ w := by
    rw [← sub_sub, BitVec.toNat_sub, BitVec.toNat_ofNat, hfront]
  rw [store, store, store, hoff]
  generalize (x - a).toNat = k at hk ⊢
  by_cases hlt : k < front.length
  · rw [Nat.mod_eq_of_lt (by omega), getD_eq_default back _ (by omega), getD_append _ _ _ _ hlt]
  · have hback : (2 ^ w - front.length + k) % 2 ^ w = k - front.length := by
      rw [show 2 ^ w - front.length + k = k - front.length + 2 ^ w by omega, Nat.add_mod_right,
        Nat.mod_eq_of_lt (by omega)]
    rw [hback, getD_append_right _ _ _ _ (by omega), getD_eq_default front _ (by omega)]

theorem word_store (front back : List (BitVec 8)) (v : BitVec 32)
    (hw : front.length + 4 + back.length ≤ 2 ^ w) :
    word (store mem a (front ++ wordBytes v ++ back)) (a + BitVec.ofNat w front.length) = v := by
  have hbyte (i : Nat) (hi : i < 4) :
      store mem a (front ++ wordBytes v ++ back) (a + BitVec.ofNat w front.length +
        BitVec.ofNat w i) = (wordBytes v).get ⟨i, hi⟩ := by
    have hlength : (front ++ wordBytes v ++ back).length = front.length + 4 + back.length := by
      rw [length_append, length_append]
      rfl
    rw [add_assoc, ← ofNat_add, store_add _ _ (by omega) (by omega),
      getElem_append_left (by rw [length_append]; exact Nat.add_lt_add_left hi _),
      getElem_append_right (Nat.le_add_right _ _)]
    simp only [Nat.add_sub_cancel_left]
    rfl
  have h0 : store mem a (front ++ wordBytes v ++ back) (a + BitVec.ofNat w front.length) =
      v.extractLsb' 0 8 := by
    rw [← add_zero (a + BitVec.ofNat w front.length)]
    exact hbyte 0 (by decide)
  have h1 : store mem a (front ++ wordBytes v ++ back) (a + BitVec.ofNat w front.length + 1) =
      v.extractLsb' 8 8 := hbyte 1 (by decide)
  have h2 : store mem a (front ++ wordBytes v ++ back) (a + BitVec.ofNat w front.length + 2) =
      v.extractLsb' 16 8 := hbyte 2 (by decide)
  have h3 : store mem a (front ++ wordBytes v ++ back) (a + BitVec.ofNat w front.length + 3) =
      v.extractLsb' 24 8 := hbyte 3 (by decide)
  rw [word, h0, h1, h2, h3]
  exact append_bytes v

end Store

end ByteMemory
