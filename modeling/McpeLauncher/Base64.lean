import Mathlib.Tactic.IntervalCases

/-! # Base64

`Base64::encode` and `Base64::decode`, the decoder with every index it reads: one beyond the
terminator or the table of 256 ends it with `Stop.outside`. A byte from 128 on stands for another
entry where `char` is signed. `scan` is the decoder's walk (`decode_eq_scan`). -/
namespace Base64
open List

def table : List UInt8 :=
  "ABCDEFGHIJKLMNOPQRSTUVWXYZabcdefghijklmnopqrstuvwxyz0123456789+/".toList.map
    fun c => UInt8.ofNat c.toNat

def reverseTable : List UInt8 :=
  ((List.range 64).foldl (fun t i => t.set (table.getD i 0).toNat (UInt8.ofNat i))
    (List.replicate 256 255)).set '='.toNat 64

/-- `reverseTable[c]`.  A `char` from 128 on is a negative index where `char` is
signed. -/
def reverseEntry (charSigned : Bool) (c : UInt8) : Option UInt8 :=
  if charSigned && 128 ≤ c then none else reverseTable[c.toNat]?

theorem length_table : table.length = 64 := by decide

theorem length_reverseTable : reverseTable.length = 256 := by decide +kernel

theorem reverseEntry_eq_none_iff (charSigned : Bool) (c : UInt8) :
    reverseEntry charSigned c = none ↔ charSigned = true ∧ 128 ≤ c := by
  have hindex : c.toNat < reverseTable.length := by
    rw [length_reverseTable]
    exact c.toNat_lt
  by_cases hc : charSigned = true ∧ 128 ≤ c
  · simp [reverseEntry, hc]
  · rw [reverseEntry, if_neg (by simpa using hc), getElem?_eq_getElem hindex]
    exact iff_of_false (by simp) hc

def encodeBlock (input : List UInt8) (i : Nat) : List UInt8 :=
  let i0 := input.getD (i * 3) 0
  let i1 := if i * 3 + 1 < input.length then input.getD (i * 3 + 1) 0 else 0
  let i2 := if i * 3 + 2 < input.length then input.getD (i * 3 + 2) 0 else 0
  let n0 := (i0 >>> 2) &&& 0x3f
  let n1 := ((i0 &&& 3) <<< 4) ||| ((i1 >>> 4) &&& 0xf)
  let n2 := ((i1 &&& 0xf) <<< 2) ||| ((i2 >>> 6) &&& 3)
  let n3 := i2 &&& 0x3f
  [table.getD n0.toNat 0, table.getD n1.toNat 0,
    if i * 3 + 1 < input.length then table.getD n2.toNat 0 else 61,
    if i * 3 + 2 < input.length then table.getD n3.toNat 0 else 61]

def encode (input : List UInt8) : List UInt8 :=
  (List.range ((input.length + 2) / 3)).flatMap (encodeBlock input)

inductive DecodeError where
  | padding
  | character (p : Nat)
  | unexpectedEnd
  deriving DecidableEq

def DecodeError.what : DecodeError → String
  | .padding => "Invalid '=' character"
  | .character p => "Invalid character at " ++ toString p
  | .unexpectedEnd => "Unexpected end of input"

/-- An exception, or a read outside the string or the table. -/
inductive Stop where
  | threw (e : DecodeError)
  | outside
  deriving DecidableEq

/-- `input[p]`; behind the last character stands the terminator. -/
def charAt (input : List UInt8) (p : Nat) : Option UInt8 :=
  if p = input.length then some 0 else input[p]?

/-- `strchr`, which finds the terminator too. -/
def strchr (chars : List UInt8) (c : UInt8) : Bool := chars.contains c || c == 0

/-- Whether a value may not stand at place `n` of a group, after `prev`. -/
def misplaced (n : Nat) (prev v : UInt8) : Bool :=
  (v == 64 && n < 2) || (n == 3 && prev == 64 && v != 64)

variable {p n p' : Nat} {prev v : UInt8} {i : UInt8 × UInt8 × UInt8 × UInt8}

theorem charAt_le {input : List UInt8} {c : UInt8} (h : charAt input p = some c) :
    p ≤ input.length := by
  rw [charAt] at h
  by_cases hp : p = input.length
  · omega
  · rw [if_neg hp] at h
    exact le_of_lt (List.getElem?_eq_some_iff.mp h).1

theorem bind_eq_ok {ε α β : Type} {x : Except ε α} {f : α → Except ε β} {b : β}
    (h : x.bind f = .ok b) : ∃ a, x = .ok a ∧ f a = .ok b := by
  cases x with
  | error e => cases h
  | ok a => exact ⟨a, rfl, h⟩

theorem bind_bind {ε α β γ : Type} (x : Except ε α) (f : α → Except ε β) (g : β → Except ε γ) :
    (x.bind f).bind g = x.bind fun a => (f a).bind g := bind_assoc x f g

theorem bind_congr_ok {ε α β : Type} {x : Except ε α} {f g : α → Except ε β}
    (h : ∀ a, x = .ok a → f a = g a) : x.bind f = x.bind g := by
  cases x with
  | error e => rfl
  | ok a => exact h a rfl

section Decode
variable (charSigned : Bool) (skip input : List UInt8)

/-- The character at position `p`: an exception, the value at place `n` of a group, or nothing, if
it is skipped. -/
def examine (n : Nat) (prev : UInt8) (p : Nat) (c : UInt8) : Except Stop (Option UInt8) :=
  match reverseEntry charSigned c with
  | none => .error .outside
  | some v =>
    if v ≠ 255 then
      if misplaced n prev v then .error (.threw .padding) else .ok (some v)
    else if strchr skip c then .ok none
    else .error (.threw (.character p))

/-- The loop that reads the value at place `n` of a group; `prev` is the one before. -/
def readChar (n : Nat) (prev : UInt8) (p : Nat) : Except Stop (UInt8 × Nat) :=
  match _hc : charAt input p with
  | none => .error .outside
  | some c =>
    match examine charSigned skip n prev p c with
    | .error e => .error e
    | .ok (some v) => .ok (v, p + 1)
    | .ok none =>
      if p + 1 = input.length then .error (.threw .unexpectedEnd)
      else readChar n prev (p + 1)
termination_by input.length + 1 - p
decreasing_by
  have := charAt_le _hc
  omega

def readGroup (p : Nat) : Except Stop ((UInt8 × UInt8 × UInt8 × UInt8) × Nat) := do
  let (i0, p) ← readChar charSigned skip input 0 0 p
  let (i1, p) ← readChar charSigned skip input 1 i0 p
  let (i2, p) ← readChar charSigned skip input 2 i1 p
  let (i3, p) ← readChar charSigned skip input 3 i2 p
  return ((i0, i1, i2, i3), p)

def groupBytes (i0 i1 i2 i3 : UInt8) : List UInt8 :=
  [(i0 <<< 2) ||| ((i1 >>> 4) &&& 3)] ++
    (if i2 ≠ 64 then [((i1 &&& 0xf) <<< 4) ||| ((i2 >>> 2) &&& 0xf)] else []) ++
    (if i2 ≠ 64 ∧ i3 ≠ 64 then [((i2 &&& 3) <<< 6) ||| i3] else [])

variable {charSigned skip input}

theorem readChar_of_none (hc : charAt input p = none) :
    readChar charSigned skip input n prev p = .error .outside := by
  rw [readChar]
  split
  · rfl
  · next c hc' =>
    rw [hc] at hc'
    cases hc'

theorem readChar_of_some {c : UInt8} (hc : charAt input p = some c) :
    readChar charSigned skip input n prev p =
      match examine charSigned skip n prev p c with
      | .error e => .error e
      | .ok (some v) => .ok (v, p + 1)
      | .ok none =>
        if p + 1 = input.length then .error (.threw .unexpectedEnd)
        else readChar charSigned skip input n prev (p + 1) := by
  rw [readChar]
  split
  · next hc' =>
    rw [hc] at hc'
    cases hc'
  · next c' hc' =>
    obtain rfl : c = c' := Option.some.inj (hc.symm.trans hc')
    rfl

theorem readChar_lt (h : readChar charSigned skip input n prev p = .ok (v, p')) : p < p' := by
  fun_induction readChar charSigned skip input n prev p with
  | case1 => cases h
  | case2 => cases h
  | case3 p c hc v' hv =>
    cases h
    exact Nat.lt_succ_self p
  | case4 => cases h
  | case5 p c hc hskip hend ih => exact lt_trans (Nat.lt_succ_self p) (ih h)

theorem readGroup_eq (p : Nat) :
    readGroup charSigned skip input p =
      (readChar charSigned skip input 0 0 p).bind fun r0 =>
      (readChar charSigned skip input 1 r0.1 r0.2).bind fun r1 =>
      (readChar charSigned skip input 2 r1.1 r1.2).bind fun r2 =>
      (readChar charSigned skip input 3 r2.1 r2.2).bind fun r3 =>
        .ok ((r0.1, r1.1, r2.1, r3.1), r3.2) := rfl

theorem readGroup_lt (h : readGroup charSigned skip input p = .ok (i, p')) : p < p' := by
  obtain ⟨⟨i0, p0⟩, h0, h⟩ := bind_eq_ok h
  obtain ⟨⟨i1, p1⟩, h1, h⟩ := bind_eq_ok h
  obtain ⟨⟨i2, p2⟩, h2, h⟩ := bind_eq_ok h
  obtain ⟨⟨i3, p3⟩, h3, h⟩ := bind_eq_ok h
  obtain rfl : p3 = p' := (Prod.mk.inj (Except.ok.inj h)).2
  have hlt0 := readChar_lt h0
  have hlt1 := readChar_lt h1
  have hlt2 := readChar_lt h2
  have hlt3 := readChar_lt h3
  omega

variable (charSigned skip input)

def decodeLoop (p : Nat) (output : List UInt8) : Except Stop (List UInt8) :=
  if p < input.length then
    match _hg : readGroup charSigned skip input p with
    | .error e => .error e
    | .ok ((i0, i1, i2, i3), p') => decodeLoop p' (output ++ groupBytes i0 i1 i2 i3)
  else .ok output
termination_by input.length - p
decreasing_by
  have := readGroup_lt _hg
  omega

def decode : Except Stop (List UInt8) := decodeLoop charSigned skip input 0 []

end Decode

/-! ## Along the characters -/

section Scan
variable (charSigned : Bool) (skip : List UInt8)

/-- With the fourth value a group is complete. -/
def put (vals : List UInt8) (next : List UInt8 → Except Stop (List UInt8)) :
    Except Stop (List UInt8) :=
  match vals with
  | [i0, i1, i2, i3] => (groupBytes i0 i1 i2 i3 ++ ·) <$> next []
  | vals => next vals

/-- The rest of the input, from position `p` on, when `vals` are the values of the group begun. -/
def scan (vals : List UInt8) (p : Nat) : List UInt8 → Except Stop (List UInt8)
  | [] => if vals = [] then .ok [] else .error .outside
  | c :: rest =>
    match examine charSigned skip vals.length (vals.getLast?.getD 0) p c with
    | .error e => .error e
    | .ok (some v) => put (vals ++ [v]) fun vals => scan vals (p + 1) rest
    | .ok none => if rest = [] then .error (.threw .unexpectedEnd) else scan vals (p + 1) rest

variable {charSigned skip}

/-- The terminator is no value and is skipped, and the next read is beyond it. -/
theorem readChar_end (input : List UInt8) (n : Nat) (prev : UInt8) :
    readChar charSigned skip input n prev input.length = .error .outside := by
  have hzero : reverseEntry charSigned 0 = some 255 := by cases charSigned <;> decide +kernel
  have hskip : examine charSigned skip n prev input.length 0 = .ok none := by
    simp [examine, hzero, strchr]
  have hbeyond : charAt input (input.length + 1) = none := by simp [charAt]
  rw [readChar_of_some (c := 0) (by simp [charAt]), hskip]
  simp only [Nat.succ_ne_self, if_false]
  exact readChar_of_none hbeyond

theorem scan_drop (input vals : List UInt8) (p : Nat) (hp : p ≤ input.length)
    (hpos : p = input.length → vals ≠ []) :
    scan charSigned skip vals p (input.drop p) =
      (readChar charSigned skip input vals.length (vals.getLast?.getD 0) p).bind fun r =>
        put (vals ++ [r.1]) fun vals => scan charSigned skip vals r.2 (input.drop r.2) := by
  induction hleft : input.length - p generalizing p with
  | zero =>
    obtain rfl : p = input.length := by omega
    rw [readChar_end, drop_length, scan, if_neg (hpos rfl)]
    rfl
  | succ left ih =>
    have hlt : p < input.length := by omega
    have hc : charAt input p = some input[p] := by
      rw [charAt, if_neg (ne_of_lt hlt), getElem?_eq_getElem hlt]
    rw [drop_eq_getElem_cons hlt, scan, readChar_of_some hc]
    rcases examine charSigned skip vals.length (vals.getLast?.getD 0) p input[p] with e | _ | v
    · rfl
    · by_cases hend : p + 1 = input.length
      · simp only [hend, drop_length, if_true]
        rfl
      · have hmore : input.drop (p + 1) ≠ [] := by
          rw [ne_eq, drop_eq_nil_iff]
          omega
        simp only [if_neg hend, if_neg hmore]
        exact ih (p + 1) (by omega) (by omega) (by omega)
    · rfl

section
variable {input : List UInt8} {p : Nat}

theorem readChar_le (h : readChar charSigned skip input n prev p = .ok (v, p')) :
    p' ≤ input.length := by
  fun_induction readChar charSigned skip input n prev p with
  | case1 => cases h
  | case2 => cases h
  | case3 p c hc v' hv =>
    cases h
    have hle := charAt_le hc
    by_cases hp : p = input.length
    · subst hp
      have := @readChar_end charSigned skip input n prev
      rw [readChar_of_some hc, hv] at this
      cases this
    · omega
  | case4 => cases h
  | case5 p c hc hskip hend ih => exact ih h

theorem scan_concat (vals : List UInt8) (i : UInt8) (hp : p ≤ input.length) :
    scan charSigned skip (vals ++ [i]) p (input.drop p) =
      (readChar charSigned skip input (vals.length + 1) i p).bind fun r =>
        put (vals ++ [i, r.1]) fun vals => scan charSigned skip vals r.2 (input.drop r.2) := by
  rw [scan_drop input (vals ++ [i]) p hp (by simp)]
  simp

theorem scan_group (hp : p < input.length) :
    scan charSigned skip [] p (input.drop p) =
      (readGroup charSigned skip input p).bind fun r =>
        (groupBytes r.1.1 r.1.2.1 r.1.2.2.1 r.1.2.2.2 ++ ·) <$>
          scan charSigned skip [] r.2 (input.drop r.2) := by
  rw [readGroup_eq, scan_drop input [] p (le_of_lt hp) (by omega)]
  simp only [bind_bind]
  refine bind_congr_ok fun ⟨i0, p0⟩ h0 => ?_
  refine (scan_concat [] i0 (readChar_le h0)).trans (bind_congr_ok fun ⟨i1, p1⟩ h1 => ?_)
  refine (scan_concat [i0] i1 (readChar_le h1)).trans (bind_congr_ok fun ⟨i2, p2⟩ h2 => ?_)
  exact scan_concat [i0, i1] i2 (readChar_le h2)

theorem readGroup_le (h : readGroup charSigned skip input p = .ok (i, p')) : p' ≤ input.length := by
  obtain ⟨⟨i0, p0⟩, _, h⟩ := bind_eq_ok h
  obtain ⟨⟨i1, p1⟩, _, h⟩ := bind_eq_ok h
  obtain ⟨⟨i2, p2⟩, _, h⟩ := bind_eq_ok h
  obtain ⟨⟨i3, p3⟩, h3, h⟩ := bind_eq_ok h
  obtain rfl : p3 = p' := (Prod.mk.inj (Except.ok.inj h)).2
  exact readChar_le h3

end

theorem decodeLoop_eq (input : List UInt8) (p : Nat) (hp : p ≤ input.length)
    (output : List UInt8) :
    decodeLoop charSigned skip input p output =
      (output ++ ·) <$> scan charSigned skip [] p (input.drop p) := by
  fun_induction decodeLoop charSigned skip input p output with
  | case1 p output hlt e hg =>
    rw [scan_group hlt, hg]
    rfl
  | case2 p output hlt i0 i1 i2 i3 p' hg ih =>
    rw [ih (readGroup_le hg), scan_group hlt, hg]
    show _ = (output ++ ·) <$> (groupBytes i0 i1 i2 i3 ++ ·) <$> _
    rw [← LawfulFunctor.comp_map]
    congr 1
    funext rest
    exact append_assoc output _ rest
  | case3 p output hlt =>
    obtain rfl : p = input.length := by omega
    rw [drop_length]
    show _ = Except.ok (output ++ [])
    rw [append_nil]

/-- **The decoder walks over the characters of its input.** -/
theorem decode_eq_scan (input : List UInt8) :
    decode charSigned skip input = scan charSigned skip [] 0 input := by
  rw [decode, decodeLoop_eq input 0 (Nat.zero_le _) []]
  exact id_map _

end Scan

/-! ## The round trip -/

section RoundTrip
variable {charSigned : Bool} {skip : List UInt8}

def charOf (v : UInt8) : UInt8 := (table ++ [61]).getD v.toNat 0

theorem reverseEntry_charOf (hv : v ≤ 64) : reverseEntry charSigned (charOf v) = some v := by
  have hall : ∀ n < 65, ((table ++ [61]).getD n 0).toNat < 128 ∧
      reverseTable[((table ++ [61]).getD n 0).toNat]? = some (UInt8.ofNat n) := by decide +kernel
  obtain ⟨hascii, hentry⟩ := hall v.toNat (Nat.lt_succ_of_le (UInt8.le_iff_toNat_le.mp hv))
  have hindex : ¬ (128 : UInt8) ≤ charOf v := by
    rw [UInt8.not_le, UInt8.lt_iff_toNat_lt]
    exact hascii
  rw [reverseEntry, decide_eq_false hindex, Bool.and_false, if_neg Bool.false_ne_true, charOf,
    hentry, UInt8.ofNat_toNat]

theorem charOf_of_lt (hv : v < 64) : charOf v = table.getD v.toNat 0 := by
  have hlt : v.toNat < table.length := by exact UInt8.lt_iff_toNat_lt.mp hv
  rw [charOf, getD_eq_getElem?_getD, getElem?_append_left hlt, getD_eq_getElem?_getD]

theorem ne_pad (hv : v < 64) : v ≠ 64 := by
  rintro rfl
  exact absurd hv (by decide)

theorem charOf_pad : charOf 64 = 61 := by decide

theorem scan_charOf {vals : List UInt8} (hv : v ≤ 64)
    (hplace : misplaced vals.length (vals.getLast?.getD 0) v = false) (p : Nat)
    (rest : List UInt8) :
    scan charSigned skip vals p (charOf v :: rest) =
      put (vals ++ [v]) fun vals => scan charSigned skip vals (p + 1) rest := by
  have hv255 : v ≠ 255 := fun h => absurd hv (by rw [h]; decide)
  rw [scan, examine, reverseEntry_charOf hv]
  simp [hv255, hplace]

theorem scan_quad {v0 v1 v2 v3 : UInt8} (h0 : v0 < 64) (h1 : v1 < 64) (h2 : v2 ≤ 64)
    (h3 : v3 ≤ 64) (hpad : v2 = 64 → v3 = 64) (p : Nat) (rest : List UInt8) :
    scan charSigned skip [] p (charOf v0 :: charOf v1 :: charOf v2 :: charOf v3 :: rest) =
      (groupBytes v0 v1 v2 v3 ++ ·) <$> scan charSigned skip [] (p + 4) rest := by
  rw [scan_charOf (UInt8.le_of_lt h0) (by simp [misplaced, ne_pad h0])]
  show scan charSigned skip [v0] _ _ = _
  rw [scan_charOf (UInt8.le_of_lt h1) (by simp [misplaced, ne_pad h1])]
  show scan charSigned skip [v0, v1] _ _ = _
  rw [scan_charOf h2 (by simp [misplaced])]
  show scan charSigned skip [v0, v1, v2] _ _ = _
  rw [scan_charOf h3 (by simpa [misplaced] using hpad)]
  rfl

def sextets (a b c : UInt8) : UInt8 × UInt8 × UInt8 × UInt8 :=
  ((a >>> 2) &&& 0x3f, ((a &&& 3) <<< 4) ||| ((b >>> 4) &&& 0xf),
    ((b &&& 0xf) <<< 2) ||| ((c >>> 6) &&& 3), c &&& 0x3f)

theorem encodeBlock_cons (a b c : UInt8) (rest : List UInt8) (i : Nat) :
    encodeBlock (a :: b :: c :: rest) (i + 1) = encodeBlock rest i := by
  have hget (k : Nat) : (a :: b :: c :: rest).getD (k + 3) 0 = rest.getD k 0 := rfl
  have hlt (k : Nat) : k + 3 < (a :: b :: c :: rest).length ↔ k < rest.length :=
    Nat.add_lt_add_iff_right
  have h0 : (i + 1) * 3 = i * 3 + 3 := Nat.succ_mul i 3
  have h1 : i * 3 + 3 + 1 = i * 3 + 1 + 3 := by omega
  have h2 : i * 3 + 3 + 2 = i * 3 + 2 + 3 := by omega
  simp only [encodeBlock, h0, h1, h2, hget, hlt]

section Blocks
variable (a b c : UInt8)

theorem encode_one :
    encode [a] = [table.getD (sextets a 0 0).1.toNat 0, table.getD (sextets a 0 0).2.1.toNat 0,
      61, 61] := by
  simp [encode, range_succ, encodeBlock, sextets]

theorem encode_two :
    encode [a, b] = [table.getD (sextets a b 0).1.toNat 0, table.getD (sextets a b 0).2.1.toNat 0,
      table.getD (sextets a b 0).2.2.1.toNat 0, 61] := by
  simp [encode, range_succ, encodeBlock, sextets]

theorem encode_cons (rest : List UInt8) :
    encode (a :: b :: c :: rest) =
      table.getD (sextets a b c).1.toNat 0 :: table.getD (sextets a b c).2.1.toNat 0 ::
        table.getD (sextets a b c).2.2.1.toNat 0 :: table.getD (sextets a b c).2.2.2.toNat 0 ::
          encode rest := by
  have hcount : ((a :: b :: c :: rest).length + 2) / 3 = (rest.length + 2) / 3 + 1 := by
    simp only [length_cons]
    omega
  have hfirst : encodeBlock (a :: b :: c :: rest) 0 =
      [table.getD (sextets a b c).1.toNat 0, table.getD (sextets a b c).2.1.toNat 0,
        table.getD (sextets a b c).2.2.1.toNat 0, table.getD (sextets a b c).2.2.2.toNat 0] := by
    simp [encodeBlock, sextets]
  rw [encode, hcount, range_succ_eq_map, flatMap_cons, flatMap_map, hfirst]
  simp only [Nat.succ_eq_add_one, encodeBlock_cons]
  rfl

theorem lt_of_and_eq (h : v &&& 0x3f = v) : v < 64 := by
  rw [← h, UInt8.lt_iff_toNat_lt, UInt8.toNat_and]
  exact lt_of_le_of_lt Nat.and_le_right (by decide)

theorem eq_of_bits {a b : UInt8} (h : ∀ i < 8, a.toBitVec.getLsbD i = b.toBitVec.getLsbD i) :
    a = b :=
  UInt8.eq_of_toBitVec_eq (BitVec.eq_of_getLsbD_eq h)

theorem sextets_lt :
    (sextets a b c).1 < 64 ∧ (sextets a b c).2.1 < 64 ∧ (sextets a b c).2.2.1 < 64 ∧
      (sextets a b c).2.2.2 < 64 := by
  refine ⟨lt_of_and_eq ?_, lt_of_and_eq ?_, lt_of_and_eq ?_, lt_of_and_eq ?_⟩ <;>
  · refine eq_of_bits fun i hi => ?_
    interval_cases i <;> simp [sextets]

theorem sextets_first : ((sextets a b c).1 <<< 2) ||| (((sextets a b c).2.1 >>> 4) &&& 3) = a := by
  refine eq_of_bits fun i hi => ?_
  interval_cases i <;> simp [sextets]

theorem sextets_second :
    (((sextets a b c).2.1 &&& 0xf) <<< 4) ||| (((sextets a b c).2.2.1 >>> 2) &&& 0xf) = b := by
  refine eq_of_bits fun i hi => ?_
  interval_cases i <;> simp [sextets]

theorem sextets_third : (((sextets a b c).2.2.1 &&& 3) <<< 6) ||| (sextets a b c).2.2.2 = c := by
  refine eq_of_bits fun i hi => ?_
  interval_cases i <;> simp [sextets]

theorem groupBytes_one : groupBytes (sextets a 0 0).1 (sextets a 0 0).2.1 64 64 = [a] := by
  rw [groupBytes, if_neg (fun h => h rfl), if_neg (fun h => h.1 rfl), sextets_first]
  rfl

theorem groupBytes_two :
    groupBytes (sextets a b 0).1 (sextets a b 0).2.1 (sextets a b 0).2.2.1 64 = [a, b] := by
  obtain ⟨-, -, h2, -⟩ := sextets_lt a b 0
  rw [groupBytes, if_pos (ne_pad h2), if_neg (fun h => h.2 rfl), sextets_first, sextets_second]
  rfl

theorem groupBytes_three :
    groupBytes (sextets a b c).1 (sextets a b c).2.1 (sextets a b c).2.2.1 (sextets a b c).2.2.2 =
      [a, b, c] := by
  obtain ⟨-, -, h2, h3⟩ := sextets_lt a b c
  rw [groupBytes, if_pos (ne_pad h2), if_pos ⟨ne_pad h2, ne_pad h3⟩, sextets_first,
    sextets_second, sextets_third]
  rfl

end Blocks

theorem scan_encode (x : List UInt8) (p : Nat) : scan charSigned skip [] p (encode x) = .ok x := by
  induction hlen : x.length using Nat.strongRecOn generalizing x p with
  | ind len ih =>
    rcases x with _ | ⟨a, _ | ⟨b, _ | ⟨c, rest⟩⟩⟩
    · rfl
    · obtain ⟨h0, h1, -, -⟩ := sextets_lt a 0 0
      rw [encode_one, ← charOf_of_lt h0, ← charOf_of_lt h1, ← charOf_pad,
        scan_quad h0 h1 (UInt8.le_refl _) (UInt8.le_refl _) (fun _ => rfl),
        groupBytes_one]
      rfl
    · obtain ⟨h0, h1, h2, -⟩ := sextets_lt a b 0
      rw [encode_two, ← charOf_of_lt h0, ← charOf_of_lt h1, ← charOf_of_lt h2, ← charOf_pad,
        scan_quad h0 h1 (UInt8.le_of_lt h2) (UInt8.le_refl _) (fun _ => rfl),
        groupBytes_two]
      rfl
    · obtain ⟨h0, h1, h2, h3⟩ := sextets_lt a b c
      rw [encode_cons, ← charOf_of_lt h0, ← charOf_of_lt h1, ← charOf_of_lt h2, ← charOf_of_lt h3,
        scan_quad h0 h1 (UInt8.le_of_lt h2) (UInt8.le_of_lt h3)
          (fun h => absurd h (ne_pad h2)),
        ih rest.length (by simp only [length_cons] at hlen; omega) rest _ rfl, groupBytes_three]
      rfl

theorem length_encode (x : List UInt8) : (encode x).length = 4 * ((x.length + 2) / 3) := by
  have hblock : (fun i => (encodeBlock x i).length) = fun _ => 4 := funext fun _ => rfl
  rw [encode, length_flatMap, hblock, map_const', sum_replicate_nat, length_range, mul_comm]

variable (charSigned skip) in
/-- **What was encoded is decoded**, whatever is skipped, and the encoded text is four
characters for each three bytes begun. -/
theorem decode_encode (x : List UInt8) :
    decode charSigned skip (encode x) = .ok x ∧
      (encode x).length = 4 * ((x.length + 2) / 3) := by
  rw [decode_eq_scan]
  exact ⟨scan_encode x 0, length_encode x⟩

end RoundTrip

end Base64
