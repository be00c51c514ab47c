import Mathlib.Data.Nat.Find
import McpeLauncher.EventUploader
import McpeLauncher.WordSize

/-! # Searching code for a pattern

`PatchUtils::patternSearch` compares a pattern of bytes and wildcards with the code, from the
highest offset downwards. Sizes wrap; reading outside of the region gives `Outcome.outside`. -/
namespace PatchUtils
open List
open Cll (isSpace)

def hexValue (c : Char) : Option Nat :=
  if '0' ≤ c ∧ c ≤ '9' then some (c.toNat - '0'.toNat)
  else if 'a' ≤ c ∧ c ≤ 'f' then some (c.toNat - 'a'.toNat + 10)
  else if 'A' ≤ c ∧ c ≤ 'F' then some (c.toNat - 'A'.toNat + 10)
  else none

/-- The number at the front of a text, behind what has been read of it. -/
def hexNumber (n : Nat) : List Char → Nat
  | [] => n
  | c :: s =>
    match hexValue c with
    | none => n
    | some v => hexNumber (16 * n + v) s

/-- `0x` is skipped where a digit follows. -/
def skipBase : List Char → List Char
  | '0' :: x :: c :: s =>
    if (x = 'x' ∨ x = 'X') ∧ (hexValue c).isSome then c :: s else '0' :: x :: c :: s
  | s => s

section Word
variable (word : WordSize)

def strtoul (s : List Char) : Nat :=
  let convert (negative : Bool) (s : List Char) : Nat :=
    let n := hexNumber 0 (skipBase s)
    if 2 ^ word.bits ≤ n then 2 ^ word.bits - 1
    else if negative then (2 ^ word.bits - n) % 2 ^ word.bits
    else n
  match s.dropWhile isSpace with
  | '-' :: s => convert true s
  | '+' :: s => convert false s
  | s => convert false s

def parsePattern : List Char → List (UInt8 × UInt8)
  | a :: b :: rest =>
    if a = ' ' then parsePattern (b :: rest)
    else if a = '?' ∧ b = '?' then (0, 0) :: parsePattern rest
    else (UInt8.ofNat (strtoul word (a :: b :: rest)), 0xff) :: parsePattern rest
  | _ => []

structure Region where
  bytes : List UInt8
  fits : bytes.length < 2 ^ word.bits

inductive Comparison where
  | equal
  | different
  | outside
  deriving DecidableEq

inductive Outcome where
  | outside
  | null
  | found (offset : Nat)
  deriving DecidableEq

variable {word} (region : Region word)

def compareAt (i : Nat) : Nat → List (UInt8 × UInt8) → Comparison
  | _, [] => .equal
  | j, (raw, mask) :: rest =>
    match region.bytes[(i + j) % 2 ^ word.bits]? with
    | none => .outside
    | some byte => if raw ≠ byte &&& mask then .different else compareAt i (j + 1) rest

def searchDown (pattern : List (UInt8 × UInt8)) : Nat → Outcome
  | 0 => .null
  | i + 1 =>
    match compareAt region (i + 1) 0 pattern with
    | .outside => .outside
    | .equal => .found (i + 1)
    | .different => searchDown pattern i

def patternSearch (pattern : List Char) : Outcome :=
  let raw := parsePattern word pattern
  searchDown region raw
    ((region.bytes.length + 2 ^ word.bits - raw.length % 2 ^ word.bits) % 2 ^ word.bits)

end Word

/-! ## Patterns and their matches -/

/-- Whether a byte of the pattern, or a wildcard, accepts a byte of the code. -/
def accepts : Option UInt8 → UInt8 → Bool
  | none, _ => true
  | some b, byte => b = byte

def matchesFront : List (Option UInt8) → List UInt8 → Bool
  | [], _ => true
  | _ :: _, [] => false
  | item :: items, byte :: bytes => accepts item byte && matchesFront items bytes

section Match
variable {word : WordSize} (region : Region word) (items : List (Option UInt8)) {k : Nat}

/-- The pattern matches at an offset of the region. -/
def Matches (k : Nat) : Prop :=
  k ≤ region.bytes.length ∧ matchesFront items (region.bytes.drop k) = true

instance (k : Nat) : Decidable (Matches region items k) := inferInstanceAs (Decidable (_ ∧ _))

/-- The match with the highest offset. -/
def Highest (k : Nat) : Prop := Matches region items k ∧ ∀ k', Matches region items k' → k' ≤ k

/-- The highest match, or null where there is none, and only bytes of the region are read. -/
def Exact : Outcome → Prop
  | .outside => False
  | .null => ∀ k, ¬ Matches region items k
  | .found k => Highest region items k

variable {region items}

theorem length_le_of_matchesFront {items : List (Option UInt8)} {bytes : List UInt8}
    (h : matchesFront items bytes = true) : items.length ≤ bytes.length := by
  induction items generalizing bytes with
  | nil => exact Nat.zero_le _
  | cons item items ih =>
    cases bytes with
    | nil => cases h
    | cons byte bytes =>
      rw [matchesFront, Bool.and_eq_true] at h
      exact Nat.succ_le_succ (ih h.2)

theorem Matches.le (h : Matches region items k) : k + items.length ≤ region.bytes.length := by
  have hlength := length_le_of_matchesFront h.2
  rw [length_drop] at hlength
  have := h.1
  omega

theorem Matches.exists_highest (h : Matches region items k) : ∃ k', Highest region items k' := by
  refine ⟨Nat.findGreatest (Matches region items) region.bytes.length,
    Nat.findGreatest_spec h.1 h, fun k' hk' => ?_⟩
  exact Nat.le_findGreatest hk'.1 hk'

theorem Highest.unique {k' : Nat} (h : Highest region items k) (h' : Highest region items k') :
    k = k' :=
  le_antisymm (h'.2 k h.1) (h.2 k' h'.1)

end Match

/-! ## What the scan finds -/

/-- The byte or wildcard that is compared. -/
def toItem (x : UInt8 × UInt8) : Option UInt8 := if x.2 = 0 then none else some x.1

section Scan
variable {word : WordSize} (region : Region word) {pattern : List (UInt8 × UInt8)}
  {x : UInt8 × UInt8}

def asRead (word : WordSize) (pattern : List Char) : List (Option UInt8) :=
  (parsePattern word pattern).map toItem

/-- A mask is all or nothing. -/
def Masked (x : UInt8 × UInt8) : Prop := x = (0, 0) ∨ x.2 = 0xff

theorem masked_of_mem_parsePattern {pattern : List Char} (h : x ∈ parsePattern word pattern) :
    Masked x := by
  fun_induction parsePattern word pattern with
  | case1 b rest ih => exact ih h
  | case2 a b rest ha hwild ih =>
    rcases mem_cons.mp h with rfl | h
    · exact .inl rfl
    · exact ih h
  | case3 a b rest ha hbyte ih =>
    rcases mem_cons.mp h with rfl | h
    · exact .inr rfl
    · exact ih h
  | case4 => cases h

theorem and_mask_eq_iff (h : Masked x) (byte : UInt8) :
    x.1 = byte &&& x.2 ↔ accepts (toItem x) byte = true := by
  obtain ⟨raw, mask⟩ := x
  rcases h with h | h
  · obtain ⟨rfl, rfl⟩ := Prod.mk.inj h
    simp [toItem, accepts]
  · obtain rfl : mask = 0xff := h
    have hand : byte &&& 0xff = byte := UInt8.and_neg_one
    rw [hand]
    simp [toItem, accepts]

theorem compareAt_eq (hmask : ∀ x ∈ pattern, Masked x) (i j : Nat)
    (hfit : i + j + pattern.length ≤ region.bytes.length) :
    compareAt region i j pattern =
      if matchesFront (pattern.map toItem) (region.bytes.drop (i + j)) then .equal
      else .different := by
  induction pattern generalizing j with
  | nil => rfl
  | cons x pattern ih =>
    obtain ⟨raw, mask⟩ := x
    rw [length_cons] at hfit
    have hlt : i + j < region.bytes.length := by omega
    have hmod : (i + j) % 2 ^ word.bits = i + j := Nat.mod_eq_of_lt (hlt.trans region.fits)
    have hget : region.bytes[i + j]? = some region.bytes[i + j] := getElem?_eq_getElem hlt
    have hrest := ih (fun x hx => hmask x (mem_cons_of_mem _ hx)) (j + 1) (by omega)
    have hiff := and_mask_eq_iff (hmask (raw, mask) mem_cons_self) region.bytes[i + j]
    rw [compareAt, hmod, hget, drop_eq_getElem_cons hlt, map_cons, matchesFront]
    show (if raw ≠ region.bytes[i + j] &&& mask then Comparison.different
      else compareAt region i (j + 1) pattern) = _
    by_cases heq : raw = region.bytes[i + j] &&& mask
    · rw [if_neg (not_not.mpr heq), hrest, hiff.mp heq, Bool.true_and, add_assoc]
    · have hnot : accepts (toItem (raw, mask)) region.bytes[i + j] = false := by
        simpa using mt hiff.mpr heq
      rw [if_pos heq, hnot, Bool.false_and]
      rfl

theorem searchDown_eq (hmask : ∀ x ∈ pattern, Masked x) (n : Nat)
    (hfit : n + pattern.length ≤ region.bytes.length) :
    searchDown region pattern n =
      if Nat.findGreatest (Matches region (pattern.map toItem)) n = 0 then .null
      else .found (Nat.findGreatest (Matches region (pattern.map toItem)) n) := by
  induction n with
  | zero => rfl
  | succ n ih =>
    have hle : n + 1 ≤ region.bytes.length := by omega
    rw [searchDown, compareAt_eq region hmask (n + 1) 0 (by omega), add_zero,
      Nat.findGreatest_succ]
    by_cases hmatch : matchesFront (pattern.map toItem) (region.bytes.drop (n + 1)) = true
    · have hm : Matches region (pattern.map toItem) (n + 1) := ⟨hle, hmatch⟩
      rw [if_pos hmatch, if_pos hm, if_neg (Nat.succ_ne_zero n)]
    · have hm : ¬ Matches region (pattern.map toItem) (n + 1) := fun h => hmatch h.2
      rw [if_neg hmatch, if_neg hm]
      exact ih (by omega)

variable {region}

theorem findGreatest_eq_zero_iff {items : List (Option UInt8)}
    (hfit : items.length ≤ region.bytes.length) :
    Nat.findGreatest (Matches region items) (region.bytes.length - items.length) = 0 ↔
      ∀ k, 0 < k → ¬ Matches region items k := by
  rw [Nat.findGreatest_eq_zero_iff]
  constructor
  · intro h k hk hm
    have := hm.le
    exact h hk (by omega) hm
  · exact fun h k hk _ => h k hk

theorem highest_findGreatest {items : List (Option UInt8)}
    (h : Nat.findGreatest (Matches region items) (region.bytes.length - items.length) ≠ 0) :
    Highest region items
      (Nat.findGreatest (Matches region items) (region.bytes.length - items.length)) := by
  refine ⟨Nat.findGreatest_of_ne_zero rfl h, fun k hk => ?_⟩
  have := hk.le
  exact Nat.le_findGreatest (by omega) hk

end Scan

/-! ## The text of a pattern -/

/-- A digit as it is written. -/
structure HexDigit where
  char : Char
  value : Nat
  hexValue_char : hexValue char = some value

/-- What a text of a pattern consists of. -/
inductive Token where
  | blank
  | wildcard
  | byte (high low : HexDigit)

def Token.chars : Token → List Char
  | .blank => [' ']
  | .wildcard => ['?', '?']
  | .byte high low => [high.char, low.char]

def Token.item : Token → Option (Option UInt8)
  | .blank => none
  | .wildcard => some none
  | .byte high low => some (some (UInt8.ofNat (16 * high.value + low.value)))

/-- The number that bytes written one behind the other make behind `n`. -/
def numberFrom (n : Nat) : List Token → Nat
  | .byte high low :: tokens => numberFrom (16 * (16 * n + high.value) + low.value) tokens
  | _ => n

/-- The text as it is read: a byte is the last one of the number that begins with it, at most the
largest of a word. -/
def readItems (word : WordSize) : List Token → List (Option UInt8)
  | [] => []
  | .blank :: tokens => readItems word tokens
  | .wildcard :: tokens => none :: readItems word tokens
  | .byte high low :: tokens =>
    some (UInt8.ofNat (min (numberFrom 0 (.byte high low :: tokens)) (2 ^ word.bits - 1))) ::
      readItems word tokens

/-- Not two bytes one behind the other. -/
def Token.Apart (s t : Token) : Prop :=
  ∀ high low high' low', s = .byte high low → t ≠ .byte high' low'

/-- A pattern of bytes and wildcards, with any number of blanks between them. -/
structure Pattern (word : WordSize) where
  tokens : List Token
  fits : (tokens.flatMap Token.chars).length < 2 ^ word.bits

namespace Pattern
variable {word : WordSize} (p : Pattern word)

def text : List Char := p.tokens.flatMap Token.chars

def items : List (Option UInt8) := p.tokens.filterMap Token.item

/-- Between two bytes there is a blank or a wildcard. -/
def Separated : Prop := p.tokens.IsChain Token.Apart

end Pattern

section Text
variable {word : WordSize} {c : Char} {rest : List Char} {tokens : List Token}

theorem HexDigit.ne (d : HexDigit) (hc : hexValue c = none) : d.char ≠ c := by
  rintro rfl
  rw [d.hexValue_char] at hc
  cases hc

theorem parsePattern_blank (rest : List Char) :
    parsePattern word (' ' :: rest) = parsePattern word rest := by
  cases rest with
  | nil => rfl
  | cons c rest => rw [parsePattern, if_pos rfl]

theorem parsePattern_wildcard (rest : List Char) :
    parsePattern word ('?' :: '?' :: rest) = (0, 0) :: parsePattern word rest := by
  rw [parsePattern, if_neg (by decide), if_pos ⟨rfl, rfl⟩]

variable (high low : HexDigit)

theorem parsePattern_byte (rest : List Char) :
    parsePattern word (high.char :: low.char :: rest) =
      (UInt8.ofNat (strtoul word (high.char :: low.char :: rest)), 0xff) ::
        parsePattern word rest := by
  rw [parsePattern, if_neg (high.ne (by decide)), if_neg fun h => high.ne (by decide) h.1]

/-- However it is read, every byte and wildcard is. -/
theorem length_parsePattern (tokens : List Token) :
    (parsePattern word (tokens.flatMap Token.chars)).length =
      (tokens.filterMap Token.item).length := by
  induction tokens with
  | nil => rfl
  | cons token tokens ih =>
    cases token with
    | blank => exact (congrArg length (parsePattern_blank _)).trans ih
    | wildcard => exact (congrArg length (parsePattern_wildcard _)).trans (congrArg (· + 1) ih)
    | byte high low =>
      exact (congrArg length (parsePattern_byte high low _)).trans (congrArg (· + 1) ih)

theorem length_items_le (tokens : List Token) :
    (tokens.filterMap Token.item).length ≤ (tokens.flatMap Token.chars).length := by
  induction tokens with
  | nil => exact le_refl 0
  | cons token tokens ih =>
    cases token with
    | blank => exact Nat.le_succ_of_le ih
    | wildcard => exact Nat.le_succ_of_le (Nat.succ_le_succ ih)
    | byte high low => exact Nat.le_succ_of_le (Nat.succ_le_succ ih)

theorem hexValue_lt {v : Nat} (h : hexValue c = some v) : v < 16 := by
  have hle {a b : Char} (h : a ≤ b) : a.toNat ≤ b.toNat := h
  rw [hexValue] at h
  split at h
  · next hc =>
    have h9 : c.toNat ≤ 57 := hle hc.2
    have h0 : '0'.toNat = 48 := rfl
    have := Option.some.inj h
    omega
  · split at h
    · next hc =>
      have hf : c.toNat ≤ 102 := hle hc.2
      have ha : 'a'.toNat = 97 := rfl
      have := Option.some.inj h
      omega
    · split at h
      · next hc =>
        have hF : c.toNat ≤ 70 := hle hc.2
        have hA : 'A'.toNat = 65 := rfl
        have := Option.some.inj h
        omega
      · cases h

theorem isSpace_char (d : HexDigit) : isSpace d.char = false := by
  rw [Bool.eq_false_iff]
  intro hspace
  have hnone : hexValue d.char = none := by
    rw [isSpace, Bool.or_eq_true, Bool.and_eq_true, decide_eq_true_iff, decide_eq_true_iff,
      decide_eq_true_iff] at hspace
    rcases hspace with h | ⟨-, h⟩
    · rw [h]
      decide
    · have hlt {a : Char} (ha : ¬ a ≤ '\r') : ¬ a ≤ d.char := fun hle => ha (Char.le_trans hle h)
      rw [hexValue, if_neg fun h => hlt (by decide) h.1, if_neg fun h => hlt (by decide) h.1,
        if_neg fun h => hlt (by decide) h.1]
  rw [d.hexValue_char] at hnone
  cases hnone

theorem hexNumber_byte
    (hrest : ∀ c, rest.head? = some c → hexValue c = none) :
    hexNumber 0 (high.char :: low.char :: rest) = 16 * high.value + low.value := by
  simp only [hexNumber, high.hexValue_char, low.hexValue_char]
  cases rest with
  | nil => simp [hexNumber]
  | cons c rest => simp [hexNumber, hrest c rfl]

theorem skipBase_byte (rest : List Char) :
    skipBase (high.char :: low.char :: rest) = high.char :: low.char :: rest := by
  unfold skipBase
  split
  · next x c s heq =>
    have hx : low.char = x := (cons.inj (cons.inj heq).2).1
    have hnot : ¬ ((x = 'x' ∨ x = 'X') ∧ (hexValue c).isSome) := by
      rintro ⟨h | h, -⟩
      · exact low.ne (by decide) (hx.trans h)
      · exact low.ne (by decide) (hx.trans h)
    rw [if_neg hnot, heq]
  · rfl

theorem strtoul_digits (rest : List Char) :
    strtoul word (high.char :: low.char :: rest) =
      min (hexNumber 0 (high.char :: low.char :: rest)) (2 ^ word.bits - 1) := by
  rw [strtoul, dropWhile_cons_of_neg (by simp [isSpace_char])]
  split
  · next s heq => exact absurd (cons.inj heq).1 (high.ne (by decide))
  · next s heq => exact absurd (cons.inj heq).1 (high.ne (by decide))
  · simp only [skipBase_byte, Bool.false_eq_true, if_false]
    split <;> omega

theorem byte_lt : 16 * high.value + low.value < 256 := by
  have hhigh := hexValue_lt high.hexValue_char
  have hlow := hexValue_lt low.hexValue_char
  omega

theorem strtoul_byte (hrest : ∀ c, rest.head? = some c → hexValue c = none) :
    strtoul word (high.char :: low.char :: rest) = 16 * high.value + low.value := by
  have hbyte := byte_lt high low
  have hword : 256 ≤ 2 ^ word.bits := by
    cases word with
    | w32 => decide
    | w64 => decide
  rw [strtoul_digits, hexNumber_byte high low hrest]
  omega

theorem head_separated {high low : HexDigit}
    (h : (Token.byte high low :: tokens).IsChain Token.Apart) :
    ∀ c, (tokens.flatMap Token.chars).head? = some c → hexValue c = none := by
  intro c hc
  cases tokens with
  | nil => cases hc
  | cons token tokens =>
    cases token with
    | blank =>
      obtain rfl := Option.some.inj hc
      decide
    | wildcard =>
      obtain rfl := Option.some.inj hc
      decide
    | byte high' low' =>
      rw [isChain_cons_cons] at h
      exact absurd rfl (h.1 high low high' low' rfl)

theorem hexNumber_tokens (n : Nat) (tokens : List Token) :
    hexNumber n (tokens.flatMap Token.chars) = numberFrom n tokens := by
  induction tokens generalizing n with
  | nil => rfl
  | cons token tokens ih =>
    cases token with
    | blank => rfl
    | wildcard => rfl
    | byte high low =>
      show hexNumber n (high.char :: low.char :: tokens.flatMap Token.chars) = _
      simp only [hexNumber, high.hexValue_char, low.hexValue_char, ih, numberFrom]

/-- **What is searched for** are the numbers of the text. -/
theorem asRead_text (tokens : List Token) :
    asRead word (tokens.flatMap Token.chars) = readItems word tokens := by
  induction tokens with
  | nil => rfl
  | cons token tokens ih =>
    cases token with
    | blank => exact (congrArg (map toItem) (parsePattern_blank _)).trans ih
    | wildcard =>
      exact (congrArg (map toItem) (parsePattern_wildcard _)).trans (congrArg (none :: ·) ih)
    | byte high low =>
      refine (congrArg (map toItem)
        (parsePattern_byte high low (tokens.flatMap Token.chars))).trans ?_
      rw [strtoul_digits, readItems, ← hexNumber_tokens, ← ih]
      rfl

theorem readItems_of_separated (h : tokens.IsChain Token.Apart) :
    readItems word tokens = tokens.filterMap Token.item := by
  induction tokens with
  | nil => rfl
  | cons token tokens ih =>
    have hrest := ih h.tail
    cases token with
    | blank => exact hrest
    | wildcard => exact congrArg (none :: ·) hrest
    | byte high low =>
      have hread : strtoul word (high.char :: low.char :: tokens.flatMap Token.chars) =
          16 * high.value + low.value := strtoul_byte high low (head_separated h)
      have hnumber := hexNumber_tokens 0 (.byte high low :: tokens)
      rw [readItems, hrest, ← hnumber]
      exact congrArg (fun n => some (UInt8.ofNat n) :: _)
        ((strtoul_digits high low _).symm.trans hread)

end Text

/-! ## Exact searches -/

section Exact
variable {word : WordSize} (region : Region word) (p : Pattern word)

theorem length_asRead : (asRead word p.text).length = p.items.length := by
  rw [asRead, length_map]
  exact length_parsePattern p.tokens

theorem length_items_lt : p.items.length < 2 ^ word.bits :=
  lt_of_le_of_lt (length_items_le p.tokens) p.fits

theorem masked_text : ∀ x ∈ parsePattern word p.text, Masked x :=
  fun _ hx => masked_of_mem_parsePattern hx

theorem patternSearch_of_le (h : p.items.length ≤ region.bytes.length) :
    patternSearch region p.text =
      if Nat.findGreatest (Matches region (asRead word p.text))
        (region.bytes.length - p.items.length) = 0 then .null
      else .found (Nat.findGreatest (Matches region (asRead word p.text))
        (region.bytes.length - p.items.length)) := by
  have hlength : (parsePattern word p.text).length = p.items.length := length_parsePattern p.tokens
  have hstart : (region.bytes.length + 2 ^ word.bits - p.items.length % 2 ^ word.bits) %
      2 ^ word.bits = region.bytes.length - p.items.length := by
    rw [Nat.mod_eq_of_lt (length_items_lt p), Nat.sub_add_comm h, Nat.add_mod_right]
    exact Nat.mod_eq_of_lt (lt_of_le_of_lt (Nat.sub_le _ _) region.fits)
  rw [patternSearch]
  simp only [hlength, hstart]
  exact searchDown_eq region (masked_text p) _ (by omega)

theorem patternSearch_of_lt (h : region.bytes.length < p.items.length) :
    patternSearch region p.text = .outside := by
  have hlength : (parsePattern word p.text).length = p.items.length := length_parsePattern p.tokens
  have hlt := length_items_lt p
  obtain ⟨n, hn⟩ : ∃ n, region.bytes.length + 2 ^ word.bits - p.items.length = n + 1 :=
    ⟨_, (Nat.succ_pred_eq_of_pos (by omega)).symm⟩
  have hstart : (region.bytes.length + 2 ^ word.bits - p.items.length % 2 ^ word.bits) %
      2 ^ word.bits = n + 1 := by
    rw [Nat.mod_eq_of_lt hlt, hn]
    exact Nat.mod_eq_of_lt (by omega)
  rw [patternSearch]
  simp only [hlength, hstart]
  cases hraw : parsePattern word p.text with
  | nil =>
    rw [hraw, length_nil] at hlength
    omega
  | cons x raw =>
    have hnone : region.bytes[(n + 1 + 0) % 2 ^ word.bits]? = none := by
      rw [add_zero, Nat.mod_eq_of_lt (by omega), getElem?_eq_none_iff]
      omega
    rw [searchDown, compareAt, hnone]

theorem exact_iff_of_le (h : p.items.length ≤ region.bytes.length) :
    Exact region p.items (patternSearch region p.text) ↔
      ∀ k, Highest region p.items k ↔ 0 < k ∧ Highest region (asRead word p.text) k := by
  rw [patternSearch_of_le region p h, ← length_asRead p]
  rw [← length_asRead p] at h
  by_cases hzero : Nat.findGreatest (Matches region (asRead word p.text))
      (region.bytes.length - (asRead word p.text).length) = 0
  · have hnone := (findGreatest_eq_zero_iff h).mp hzero
    rw [if_pos hzero]
    constructor
    · intro hnull k
      exact iff_of_false (fun hk => hnull k hk.1) fun hk => hnone k hk.1 hk.2.1
    · intro hiff k hk
      obtain ⟨k', hk'⟩ := hk.exists_highest
      obtain ⟨hpos, hread⟩ := (hiff k').mp hk'
      exact hnone k' hpos hread.1
  · have hhighest := highest_findGreatest hzero
    rw [if_neg hzero]
    constructor
    · intro hfound k
      constructor
      · intro hk
        obtain rfl := hk.unique hfound
        exact ⟨Nat.pos_of_ne_zero hzero, hhighest⟩
      · rintro ⟨-, hk⟩
        obtain rfl := hk.unique hhighest
        exact hfound
    · intro hiff
      exact (hiff _).mpr ⟨Nat.pos_of_ne_zero hzero, hhighest⟩

/-- **The search is exact** if and only if the pattern is not longer than the region and its highest
match is the highest one, not at offset 0, of what the text is read as. -/
theorem patternSearch_iff :
    (Exact region p.items (patternSearch region p.text) ↔
      p.items.length ≤ region.bytes.length ∧
        ∀ k, Highest region p.items k ↔ 0 < k ∧ Highest region (readItems word p.tokens) k) ∧
    (p.Separated → readItems word p.tokens = p.items) := by
  refine ⟨?_, readItems_of_separated⟩
  have hread : asRead word p.text = readItems word p.tokens := asRead_text p.tokens
  rw [← hread]
  by_cases h : p.items.length ≤ region.bytes.length
  · rw [exact_iff_of_le region p h, and_iff_right h]
  · rw [patternSearch_of_lt region p (Nat.lt_of_not_le h)]
    exact iff_of_false id fun hand => h hand.1

end Exact

section Inexact

def five : HexDigit := ⟨'5', 5, by decide⟩

def ten : HexDigit := ⟨'A', 10, by decide⟩

def oneByte : Pattern .w64 := ⟨[.byte five five], by decide⟩

def twoBytes : Pattern .w64 := ⟨[.byte five five, .byte ten ten], by decide⟩

def shortCode : Region .w64 := ⟨[0x55], by decide⟩

def patternCode : Region .w64 := ⟨[0, 0x55, 0xAA], by decide⟩

def otherCode : Region .w64 := ⟨[0, 0xAA, 0xAA], by decide⟩

/-- A match at offset 0 is not found; a pattern longer than the region makes it read outside; `55AA`
is read as `AA AA`. -/
theorem patternSearch_inexact :
    (patternSearch shortCode oneByte.text = .null ∧ ¬ Exact shortCode oneByte.items .null) ∧
    patternSearch shortCode twoBytes.text = .outside ∧
    (patternSearch patternCode twoBytes.text = .null ∧
      ¬ Exact patternCode twoBytes.items .null) ∧
    (patternSearch otherCode twoBytes.text = .found 1 ∧
      ¬ Exact otherCode twoBytes.items (.found 1)) := by
  refine ⟨⟨by decide, fun h => h 0 (by decide)⟩, patternSearch_of_lt _ _ (by decide),
    ⟨by decide, fun h => h 1 (by decide)⟩, by decide, fun h => ?_⟩
  exact absurd h.1 (by decide)

end Inexact

/-! ## Two renderings of a pattern -/

/-- A position as it is written: two digits, or a wildcard. -/
abbrev Position := Option (HexDigit × HexDigit)

namespace Position

def token : Position → Token
  | none => .wildcard
  | some (high, low) => .byte high low

/-- The byte and its mask. -/
def compiled : Position → UInt8 × UInt8
  | none => (0, 0)
  | some (high, low) => (UInt8.ofNat (16 * high.value + low.value), 0xff)

end Position

section Renderings
variable {word : WordSize}

def spaced (ps : List Position) : List Char :=
  ((ps.map Position.token).intersperse .blank).flatMap Token.chars

def unspaced (ps : List Position) : List Char := (ps.map Position.token).flatMap Token.chars

/-- The number that the digits up to the next wildcard make behind `n`. -/
def runValue (n : Nat) : List Position → Nat
  | some (high, low) :: ps => runValue (16 * (16 * n + high.value) + low.value) ps
  | _ => n

/-- The number that starts with a byte, cut to the largest one of the word, ends with it too. -/
def EndsAsItStarts (word : WordSize) (ps : List Position) : Prop :=
  ∀ high low rest, some (high, low) :: rest <:+ ps →
    min (runValue 0 (some (high, low) :: rest)) (2 ^ word.bits - 1) % 256 =
      16 * high.value + low.value

theorem parsePattern_token (p : Position) {rest : List Char}
    (hrest : ∀ c, rest.head? = some c → hexValue c = none) :
    parsePattern word (p.token.chars ++ rest) = p.compiled :: parsePattern word rest := by
  cases p with
  | none => exact parsePattern_wildcard rest
  | some digits =>
    refine (parsePattern_byte digits.1 digits.2 rest).trans ?_
    rw [strtoul_byte digits.1 digits.2 hrest]
    rfl

theorem parsePattern_spaced (ps : List Position) :
    parsePattern word (spaced ps) = ps.map Position.compiled := by
  match ps with
  | [] => rfl
  | [p] => exact parsePattern_token p nofun
  | p :: q :: ps =>
    have hblank : ∀ c, (' ' :: spaced (q :: ps)).head? = some c → hexValue c = none := by
      intro c hc
      obtain rfl := Option.some.inj hc
      decide
    refine (parsePattern_token p hblank).trans ?_
    rw [parsePattern_blank, parsePattern_spaced (q :: ps)]
    rfl

theorem numberFrom_map_token (n : Nat) (ps : List Position) :
    numberFrom n (ps.map Position.token) = runValue n ps := by
  induction ps generalizing n with
  | nil => rfl
  | cons p ps ih =>
    cases p with
    | none => rfl
    | some digits => exact ih _

theorem parsePattern_unspaced_iff (ps : List Position) :
    parsePattern word (unspaced ps) = ps.map Position.compiled ↔ EndsAsItStarts word ps := by
  induction ps with
  | nil => exact iff_of_true rfl fun _ _ _ hsuffix => absurd (suffix_nil.mp hsuffix) nofun
  | cons p ps ih =>
    cases p with
    | none =>
      have hsame : EndsAsItStarts word (none :: ps) ↔ EndsAsItStarts word ps := by
        simp [EndsAsItStarts, suffix_cons_iff]
      rw [hsame, ← ih]
      show parsePattern word ('?' :: '?' :: unspaced ps) = (0, 0) :: ps.map _ ↔ _
      rw [parsePattern_wildcard, cons_inj_right]
    | some digits =>
      obtain ⟨high, low⟩ := digits
      have hnumber : hexNumber 0 (high.char :: low.char :: unspaced ps) =
          runValue 0 (some (high, low) :: ps) :=
        (hexNumber_tokens 0 _).trans (numberFrom_map_token 0 (some (high, low) :: ps))
      have hhead : ∀ n, UInt8.ofNat n = UInt8.ofNat (16 * high.value + low.value) ↔
          n % 256 = 16 * high.value + low.value := by
        intro n
        rw [← UInt8.toNat_inj, UInt8.toNat_ofNat', UInt8.toNat_ofNat',
          Nat.mod_eq_of_lt (byte_lt high low)]
      show parsePattern word (high.char :: low.char :: unspaced ps) =
        (UInt8.ofNat (16 * high.value + low.value), 0xff) :: ps.map _ ↔ _
      rw [parsePattern_byte, strtoul_digits, hnumber, cons.injEq, ih, Prod.mk.injEq, hhead]
      constructor
      · rintro ⟨⟨hfirst, -⟩, hrest⟩ high' low' rest hsuffix
        rcases suffix_cons_iff.mp hsuffix with heq | hsuffix
        · obtain ⟨hp, rfl⟩ := cons.inj heq
          obtain ⟨rfl, rfl⟩ := Prod.mk.inj (Option.some.inj hp)
          exact hfirst
        · exact hrest high' low' rest hsuffix
      · intro h
        refine ⟨⟨h high low ps suffix_rfl, rfl⟩, fun high' low' rest hsuffix => ?_⟩
        exact h high' low' rest (hsuffix.trans (suffix_cons _ _))

/-- **A pattern is read back from the spaced text, and from the other one exactly if every number
in it ends as it starts.** -/
theorem pattern_text_iff (word : WordSize) (ps : List Position) :
    parsePattern word (spaced ps) = ps.map Position.compiled ∧
      (parsePattern word (unspaced ps) = ps.map Position.compiled ↔ EndsAsItStarts word ps) :=
  ⟨parsePattern_spaced ps, parsePattern_unspaced_iff ps⟩

/-- `55AA` is read as the bytes `AA` and `AA`. -/
theorem pattern_text_greedy :
    parsePattern .w64 (unspaced [some (five, five), some (ten, ten)]) =
      [(0xAA, 0xff), (0xAA, 0xff)] := by
  decide

end Renderings

end PatchUtils
