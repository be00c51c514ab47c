import Mathlib

/-! # Variable-length integers (`common/encoding/varint.cpp`)

Seven bits a byte, lowest first, with bit 7 set on every byte but the last. `varint_roundtrip_iff`
says which values come back. -/
namespace SimpleIpc
open List

/-- The `do … while (i > 0)` loop of `encode_unsigned`: bit 7 is set on every
byte. -/
def encodeLoop (i : Nat) : List UInt8 :=
  (UInt8.ofNat i ||| 0x80) :: if i >>> 7 > 0 then encodeLoop (i >>> 7) else []
termination_by i
decreasing_by
  rw [Nat.shiftRight_eq_div_pow] at *
  omega

def encodeUnsigned (i : Nat) : List UInt8 := (encodeLoop i).modifyLast (· &&& 0x7F)

/-- `(b & 127) << (o * 7)` on `int`: 32 bits wide, the count modulo 32 as the hardware does, and
then sign-extended. -/
def shiftedGroup (b : UInt8) (o : Nat) : BitVec 64 :=
  (BitVec.ofNat 32 (b &&& 127).toNat <<< (o * 7 % 32)).signExtend 64

/-- The loop of `try_decode_unsigned` from offset `o` on: the value and the
number of bytes it took. -/
def decodeLoop (tmp : BitVec 64) (o : Nat) : List UInt8 → Option (BitVec 64 × Nat)
  | [] => none
  | b :: rest =>
    let tmp := tmp ||| shiftedGroup b o
    if b >>> 7 = 0 then some (tmp, o + 1) else decodeLoop tmp (o + 1) rest

/-- `varint::try_decode_unsigned` on the `ins` bytes `inp`; `none` is its `false`. -/
def tryDecodeUnsigned (inp : List UInt8) : Option (BitVec 64 × Nat) := decodeLoop 0 0 (inp.take 9)

theorem toNat_or_high (b : UInt8) : (b ||| 0x80).toNat = b.toNat % 128 + 128 := by
  have h : ∀ i : Fin 256, i.val ||| 128 = i.val % 128 + 128 := by decide +kernel
  exact h ⟨b.toNat, b.toNat_lt⟩

theorem toNat_and_low (b : UInt8) : (b &&& 0x7F).toNat = b.toNat % 128 := by
  exact Nat.and_two_pow_sub_one_eq_mod b.toNat 7

theorem high_clear_iff (b : UInt8) : b >>> 7 = 0 ↔ b.toNat < 128 := by
  rw [← UInt8.toNat_inj, UInt8.toNat_shiftRight]
  simp only [UInt8.reduceToNat, Nat.reduceMod, Nat.shiftRight_eq_div_pow]
  omega

/-! ## The encoder as a recursion -/

theorem encodeLoop_eq (i : Nat) :
    encodeLoop i = (UInt8.ofNat i ||| 0x80) :: if i < 128 then [] else encodeLoop (i / 128) := by
  rw [encodeLoop, show i >>> 7 = i / 128 from Nat.shiftRight_eq_div_pow i 7]
  by_cases h : i < 128
  · rw [if_neg (by omega), if_pos h]
  · rw [if_pos (by omega), if_neg h]

theorem encodeLoop_ne_nil (i : Nat) : encodeLoop i ≠ [] := by
  rw [encodeLoop_eq]
  exact cons_ne_nil _ _

theorem encodeUnsigned_eq (i : Nat) :
    encodeUnsigned i =
      if i < 128 then [(UInt8.ofNat i ||| 0x80) &&& 0x7F]
      else (UInt8.ofNat i ||| 0x80) :: encodeUnsigned (i / 128) := by
  unfold encodeUnsigned
  rw [encodeLoop_eq i]
  by_cases h : i < 128
  · rw [if_pos h, if_pos h]
    exact modifyLast_concat _ _ []
  · rw [if_neg h, if_neg h]
    exact modifyLast_append_of_right_ne_nil _ [_] _ (encodeLoop_ne_nil _)

theorem encodeUnsigned_ne_nil (i : Nat) : encodeUnsigned i ≠ [] := by
  rw [encodeUnsigned_eq]
  split <;> simp

theorem encodeUnsigned_length_le (k : Nat) : ∀ i, i < 128 ^ (k + 1) →
    (encodeUnsigned i).length ≤ k + 1 := by
  induction k with
  | zero =>
    intro i hi
    rw [encodeUnsigned_eq, if_pos (by simpa using hi)]
    simp
  | succ k ih =>
    intro i hi
    rw [encodeUnsigned_eq]
    split
    · simp
    · have := ih (i / 128) (by rw [Nat.div_lt_iff_lt_mul (by decide), ← pow_succ]; exact hi)
      simp only [length_cons]
      omega

variable {x : BitVec 64} {p inp : List UInt8} {o v : Nat}

theorem encodeUnsigned_high {i : Nat} {q : List UInt8} (h : encodeUnsigned i = p ++ q)
    (hq : q ≠ []) :
    ∀ b ∈ p, 128 ≤ b.toNat := by
  induction i using Nat.strongRecOn generalizing p with
  | ind i ih =>
    cases p with
    | nil => simp
    | cons c p =>
      rw [encodeUnsigned_eq] at h
      split at h
      · have := (append_eq_nil_iff.mp (cons.inj h).2.symm).2
        exact absurd this hq
      · obtain ⟨rfl, htail⟩ := cons.inj h
        intro b hb
        rcases mem_cons.mp hb with rfl | hb
        · rw [toNat_or_high]
          omega
        · exact ih (i / 128) (by omega) htail b hb

/-! ## Decoding what was encoded -/

theorem decodeLoop_high (h : ∀ b ∈ p, 128 ≤ b.toNat) (tmp : BitVec 64) (o : Nat) :
    decodeLoop tmp o p = none := by
  induction p generalizing tmp o with
  | nil => rfl
  | cons b p ih =>
    have hb := h b (by simp)
    rw [decodeLoop, if_neg (by rw [high_clear_iff]; omega)]
    exact ih (fun c hc => h c (by simp [hc])) _ _

theorem shiftedGroup_eq {b : UInt8} {g : Nat} (hg : b.toNat % 128 = g) (ho : 7 * o < 32)
    (hfit : g * 2 ^ (7 * o) < 2 ^ 31) : shiftedGroup b o = BitVec.ofNat 64 (g * 2 ^ (7 * o)) := by
  subst hg
  have hval : (BitVec.ofNat 32 (b.toNat % 128) <<< (7 * o)).toNat =
      b.toNat % 128 * 2 ^ (7 * o) := by
    rw [BitVec.toNat_shiftLeft, BitVec.toNat_ofNat, Nat.shiftLeft_eq,
      Nat.mod_eq_of_lt (show b.toNat % 128 < 2 ^ 32 by omega), Nat.mod_eq_of_lt (by omega)]
  have hmsb : (BitVec.ofNat 32 (b.toNat % 128) <<< (7 * o)).msb = false := by
    rw [BitVec.msb_eq_false_iff_two_mul_lt, hval]
    omega
  unfold shiftedGroup
  rw [toNat_and_low, mul_comm o 7, Nat.mod_eq_of_lt ho,
    BitVec.signExtend_eq_setWidth_of_msb_false hmsb]
  apply BitVec.eq_of_toNat_eq
  rw [BitVec.toNat_setWidth, hval, BitVec.toNat_ofNat]

/-- Groups do not overlap, so or-ing the next one in adds it. -/
theorem or_group {a g s : Nat} (ha : a < 2 ^ s) (hfit : g * 2 ^ s + a < 2 ^ 64) :
    BitVec.ofNat 64 a ||| BitVec.ofNat 64 (g * 2 ^ s) = BitVec.ofNat 64 (g * 2 ^ s + a) := by
  apply BitVec.eq_of_toNat_eq
  rw [BitVec.toNat_or, BitVec.toNat_ofNat, BitVec.toNat_ofNat, BitVec.toNat_ofNat,
    Nat.mod_eq_of_lt (by omega), Nat.mod_eq_of_lt (by omega), Nat.mod_eq_of_lt hfit,
    Nat.or_comm, mul_comm, Nat.two_pow_add_eq_or_of_lt ha]

theorem group_weight (o : Nat) : 2 ^ (7 * (o + 1)) = 128 * 2 ^ (7 * o) := by
  rw [mul_add, pow_add]
  omega

theorem group_split (v o : Nat) :
    v / 128 * 2 ^ (7 * (o + 1)) + v % 128 * 2 ^ (7 * o) = v * 2 ^ (7 * o) := by
  rw [group_weight, ← mul_assoc, ← add_mul, mul_comm (v / 128), Nat.div_add_mod]

theorem group_lt {a : Nat} (ha : a < 2 ^ (7 * o)) (v : Nat) :
    v % 128 * 2 ^ (7 * o) + a < 2 ^ (7 * (o + 1)) := by
  have hgroup : (v % 128 + 1) * 2 ^ (7 * o) ≤ 128 * 2 ^ (7 * o) :=
    Nat.mul_le_mul_right _ (Nat.mod_lt v (by decide))
  rw [add_mul] at hgroup
  rw [group_weight]
  omega

/-- A further group leaves room below bit 31, so the count stays below 32. -/
theorem group_room (hv : 128 ≤ v) (hfit : v * 2 ^ (7 * o) < 2 ^ 31) : 7 * (o + 1) < 32 := by
  have hone : 1 * 2 ^ (7 * (o + 1)) ≤ v / 128 * 2 ^ (7 * (o + 1)) :=
    Nat.mul_le_mul_right _ (by omega)
  have hsplit := group_split v o
  have hpow : 2 ^ (7 * (o + 1)) < 2 ^ 31 := by omega
  have := (Nat.pow_lt_pow_iff_right (by decide : 1 < 2)).mp hpow
  omega

theorem decodeLoop_encode (v : Nat) (rest : List UInt8) : ∀ a o : Nat, 7 * o < 32 →
    a < 2 ^ (7 * o) → v * 2 ^ (7 * o) + a < 2 ^ 31 →
    decodeLoop (BitVec.ofNat 64 a) o (encodeUnsigned v ++ rest) =
      some (BitVec.ofNat 64 (v * 2 ^ (7 * o) + a), o + (encodeUnsigned v).length) := by
  induction v using Nat.strongRecOn with
  | ind v ih =>
    intro a o ho ha hfit
    have hbyte : (UInt8.ofNat v).toNat % 128 = v % 128 := by
      rw [UInt8.toNat_ofNat']
      omega
    have hgle : v % 128 * 2 ^ (7 * o) ≤ v * 2 ^ (7 * o) := Nat.mul_le_mul_right _ (Nat.mod_le v 128)
    have hor : BitVec.ofNat 64 a ||| BitVec.ofNat 64 (v % 128 * 2 ^ (7 * o)) =
        BitVec.ofNat 64 (v % 128 * 2 ^ (7 * o) + a) := or_group ha (by omega)
    rw [encodeUnsigned_eq]
    by_cases hv : v < 128
    · have hlow : ((UInt8.ofNat v ||| 0x80) &&& 0x7F).toNat = v % 128 := by
        rw [toNat_and_low, toNat_or_high]
        omega
      have hclear : ((UInt8.ofNat v ||| 0x80) &&& 0x7F) >>> 7 = 0 := by
        rw [high_clear_iff, hlow]
        omega
      rw [if_pos hv, singleton_append, decodeLoop, if_pos hclear,
        shiftedGroup_eq (g := v % 128) (by omega) ho (by omega), hor, Nat.mod_eq_of_lt hv]
      rfl
    · have hhigh : (UInt8.ofNat v ||| 0x80).toNat = v % 128 + 128 := by rw [toNat_or_high, hbyte]
      have hset : ¬ (UInt8.ofNat v ||| 0x80) >>> 7 = 0 := by
        rw [high_clear_iff, hhigh]
        omega
      have hsplit := group_split v o
      rw [if_neg hv, cons_append, decodeLoop, if_neg hset,
        shiftedGroup_eq (g := v % 128) (by omega) ho (by omega), hor,
        ih (v / 128) (by omega) _ (o + 1) (group_room (Nat.not_lt.mp hv) (by omega))
          (group_lt ha v) (by omega), length_cons]
      congr 2
      · congr 1
        omega
      · omega

/-- **What `encode_unsigned` writes is read back**, whatever follows it, for every
value below `2 ^ 31`. -/
theorem tryDecodeUnsigned_encode (hv : v < 2 ^ 31) (rest : List UInt8) :
    tryDecodeUnsigned (encodeUnsigned v ++ rest) =
      some (BitVec.ofNat 64 v, (encodeUnsigned v).length) := by
  have hlen := encodeUnsigned_length_le 4 v (by omega)
  have h := decodeLoop_encode v (rest.take (9 - (encodeUnsigned v).length)) 0 0 (by decide)
    (by decide) (by simpa using hv)
  unfold tryDecodeUnsigned
  rw [take_append, take_of_length_le (by omega)]
  simpa using h

/-- Whatever the shifts make of the value, the loop ends with the last byte
`encode_unsigned` wrote. -/
theorem decodeLoop_length (v : Nat) (rest : List UInt8) : ∀ (tmp : BitVec 64) (o : Nat),
    ∃ x, decodeLoop tmp o (encodeUnsigned v ++ rest) =
      some (x, o + (encodeUnsigned v).length) := by
  induction v using Nat.strongRecOn with
  | ind v ih =>
    intro tmp o
    rw [encodeUnsigned_eq]
    by_cases hv : v < 128
    · have hclear : ((UInt8.ofNat v ||| 0x80) &&& 0x7F) >>> 7 = 0 := by
        rw [high_clear_iff, toNat_and_low]
        omega
      rw [if_pos hv, singleton_append, decodeLoop, if_pos hclear]
      exact ⟨_, rfl⟩
    · have hset : ¬ (UInt8.ofNat v ||| 0x80) >>> 7 = 0 := by
        rw [high_clear_iff, toNat_or_high]
        omega
      obtain ⟨x, hx⟩ := ih (v / 128) (by omega) (tmp ||| shiftedGroup (UInt8.ofNat v ||| 0x80) o)
        (o + 1)
      rw [if_neg hv, cons_append, decodeLoop, if_neg hset, hx, length_cons]
      exact ⟨x, by congr 2; omega⟩

theorem tryDecodeUnsigned_length (hv : v < 2 ^ 63) (rest : List UInt8) :
    ∃ x, tryDecodeUnsigned (encodeUnsigned v ++ rest) =
      some (x, (encodeUnsigned v).length) := by
  have hlen := encodeUnsigned_length_le 8 v (by omega)
  unfold tryDecodeUnsigned
  rw [take_append, take_of_length_le (by omega)]
  simpa using decodeLoop_length v (rest.take (9 - (encodeUnsigned v).length)) 0 0

theorem tryDecodeUnsigned_short {q : List UInt8} (h : encodeUnsigned v = p ++ q) (hq : q ≠ []) :
    tryDecodeUnsigned p = none :=
  decodeLoop_high (fun b hb => encodeUnsigned_high h hq b (mem_of_mem_take hb)) 0 0

/-! ## Values the decoder does not give back -/

/-- The accumulator never holds more than 32 bits and their sign. -/
theorem decodeLoop_signExtend {y : BitVec 32} {n : Nat}
    (h : decodeLoop (y.signExtend 64) o inp = some (x, n)) :
    ∃ z : BitVec 32, x = z.signExtend 64 := by
  induction inp generalizing y o with
  | nil => cases h
  | cons b inp ih =>
    have hor : y.signExtend 64 ||| shiftedGroup b o =
        (y ||| BitVec.ofNat 32 (b &&& 127).toNat <<< (o * 7 % 32)).signExtend 64 :=
      BitVec.signExtend_or.symm
    rw [decodeLoop, hor] at h
    split at h
    · cases h
      exact ⟨_, rfl⟩
    · exact ih h

/-- So what is decoded is below `2 ^ 31`, or at least `2 ^ 64 - 2 ^ 31`. -/
theorem tryDecodeUnsigned_range {n : Nat} (h : tryDecodeUnsigned inp = some (x, n)) :
    x.toNat < 2 ^ 31 ∨ 2 ^ 64 - 2 ^ 31 ≤ x.toNat := by
  obtain ⟨z, rfl⟩ := decodeLoop_signExtend (y := 0) h
  rw [BitVec.toNat_signExtend]
  by_cases hmsb : z.msb
  · have := BitVec.msb_eq_true_iff_two_mul_ge.mp hmsb
    rw [if_pos hmsb, BitVec.toNat_setWidth]
    omega
  · have := BitVec.msb_eq_false_iff_two_mul_lt.mp (by simpa using hmsb)
    rw [if_neg hmsb, BitVec.toNat_setWidth]
    omega

theorem lt_of_encodeUnsigned_length (i : Nat) : i < 128 ^ (encodeUnsigned i).length := by
  induction i using Nat.strongRecOn with
  | ind i ih =>
    rw [encodeUnsigned_eq]
    split
    · simpa
    · have := ih (i / 128) (by omega)
      rw [length_cons, pow_succ]
      omega

theorem tryDecodeUnsigned_long (hv : 2 ^ 63 ≤ v) (rest : List UInt8) :
    tryDecodeUnsigned (encodeUnsigned v ++ rest) = none := by
  have hlen : 9 < (encodeUnsigned v).length := by
    by_contra hle
    have hpow : 128 ^ (encodeUnsigned v).length ≤ 128 ^ 9 :=
      Nat.pow_le_pow_right (by decide) (by omega)
    have := lt_of_encodeUnsigned_length v
    omega
  have hsplit : encodeUnsigned v = (encodeUnsigned v).take 9 ++ (encodeUnsigned v).drop 9 :=
    (take_append_drop 9 _).symm
  unfold tryDecodeUnsigned
  rw [take_append_of_le_length (by omega)]
  refine decodeLoop_high (encodeUnsigned_high hsplit ?_) 0 0
  rw [Ne, drop_eq_nil_iff]
  omega

/-- **The round trip of `varint`.** At most ten bytes are written, no proper prefix of them decodes,
and they decode to the value, whatever follows, exactly for the values below `2 ^ 31`. -/
theorem varint_roundtrip_iff (v : BitVec 64) :
    (encodeUnsigned v.toNat).length ≤ 10 ∧
      (∀ p q, encodeUnsigned v.toNat = p ++ q → q ≠ [] → tryDecodeUnsigned p = none) ∧
      ((∀ rest, tryDecodeUnsigned (encodeUnsigned v.toNat ++ rest) =
        some (v, (encodeUnsigned v.toNat).length)) ↔ v.toNat < 2 ^ 31) := by
  refine ⟨encodeUnsigned_length_le 9 _ (by omega), fun p q h hq => tryDecodeUnsigned_short h hq,
    ?_, ?_⟩
  · intro h
    by_contra hlarge
    rcases tryDecodeUnsigned_range (h []) with hsmall | hneg
    · exact hlarge hsmall
    · have hnone := tryDecodeUnsigned_long (show 2 ^ 63 ≤ v.toNat by omega) []
      rw [h []] at hnone
      cases hnone
  · intro hsmall rest
    rw [tryDecodeUnsigned_encode hsmall, BitVec.ofNat_toNat, BitVec.setWidth_eq]

/-- The value `2 ^ 31` is written in five bytes, and read back with its sign spread. -/
theorem varint_sign_spread :
    encodeUnsigned (2 ^ 31) = [0x80, 0x80, 0x80, 0x80, 0x08] ∧
      tryDecodeUnsigned [0x80, 0x80, 0x80, 0x80, 0x08] = some (0xFFFFFFFF80000000, 5) := by
  refine ⟨by decide +kernel, by decide⟩

end SimpleIpc
