import McpeLauncher.Runs
import McpeLauncher.Utf8Text

/-! # Text input

`TextInputHandler` holds a text with a cursor and the start of a selection. The cursor is an offset
and a number of characters; a character of four bytes makes the number wrong (`text_input_iff`). -/
namespace TextInput
open Utf8Text Runs List

inductive KeyCode where
  | leftShift | rightShift | left | right | home | end_
  | other (code : Nat)
  deriving DecidableEq

inductive KeyAction where
  | press | repeat_ | release
  deriving DecidableEq

namespace UTF8Util

def getCharByteSize (c : UInt8) : Nat :=
  if c &&& 0b11110000 = 0b11100000 then 3
  else if c &&& 0b11100000 = 0b11000000 then 2
  else 1

/-- The loop of `getLength`, where the next character begins after `skip` more bytes. -/
def getLengthFrom : Nat → List UInt8 → Nat
  | _, [] => 0
  | 0, c :: str => getLengthFrom (getCharByteSize c - 1) str + 1
  | skip + 1, _ :: str => getLengthFrom skip str

def getLength (str : List UInt8) : Nat := getLengthFrom 0 str

end UTF8Util

/-- With the calls of `textUpdateCallback`, and whether a byte outside was read. -/
structure TextInputHandler where
  enabled : Bool := false
  multiline : Bool := false
  shiftPressed : Bool := false
  currentText : List UInt8 := []
  currentTextPosition : Nat := 0
  currentTextPositionUTF : Nat := 0
  currentTextCopyPosition : Nat := 0
  updates : List (List UInt8) := []
  outside : Bool := false

def backUp (text : List UInt8) : Nat → Nat
  | 0 => 0
  | i + 1 => if isContinuation (text.getD (i + 1) 0) then backUp text i else i + 1

/-- The loop that goes on to the first byte of the next character. -/
def goOn (text : List UInt8) (i : Nat) : Nat := i + ((text.drop i).takeWhile isContinuation).length

/-- A `size_t` less one. -/
def decrement (n : Nat) : Nat := if n = 0 then 2 ^ 64 - 1 else n - 1

namespace TextInputHandler

def update (h : TextInputHandler) (text : List UInt8) : TextInputHandler :=
  { h with
    currentText := text
    currentTextPosition := text.length
    currentTextPositionUTF := UTF8Util.getLength text
    currentTextCopyPosition := text.length }

def enable (h : TextInputHandler) (text : List UInt8) (multiline : Bool) : TextInputHandler :=
  { h with enabled := true, multiline }.update text

def disable (h : TextInputHandler) : TextInputHandler :=
  { h with
    currentText := []
    currentTextPosition := 0
    currentTextPositionUTF := 0
    currentTextCopyPosition := 0
    enabled := false }

def changed (h : TextInputHandler) : TextInputHandler :=
  { h with
    updates := h.updates ++ [h.currentText]
    currentTextCopyPosition := h.currentTextPosition }

def backspace (h : TextInputHandler) : TextInputHandler :=
  if h.currentTextPositionUTF = 0 then h
  else if h.currentTextPosition = 0 then { h with outside := true }
  else
    let deleteStart := backUp h.currentText (h.currentTextPosition - 1)
    { h with
      currentTextPositionUTF := h.currentTextPositionUTF - 1
      currentText := h.currentText.take deleteStart ++ h.currentText.drop h.currentTextPosition
      currentTextPosition := deleteStart }.changed

def delete (h : TextInputHandler) : TextInputHandler :=
  if h.currentTextPosition ≥ h.currentText.length then h
  else
    let deleteEnd := goOn h.currentText (h.currentTextPosition + 1)
    { h with
      currentText :=
        h.currentText.take h.currentTextPosition ++ h.currentText.drop deleteEnd }.changed

def insert (h : TextInputHandler) (text : List UInt8) : TextInputHandler :=
  { h with
    currentText := h.currentText.take h.currentTextPosition ++ text ++
      h.currentText.drop h.currentTextPosition
    currentTextPosition := h.currentTextPosition + text.length
    currentTextPositionUTF := h.currentTextPositionUTF + UTF8Util.getLength text }.changed

def onTextInput (h : TextInputHandler) (text : List UInt8) : TextInputHandler :=
  if h.enabled = false then { h with updates := h.updates ++ [text] }
  else if text = [8] then h.backspace
  else if text = [127] then h.delete
  else h.insert text

def moved (h : TextInputHandler) : TextInputHandler :=
  if h.shiftPressed then h else { h with currentTextCopyPosition := h.currentTextPosition }

def onKey (h : TextInputHandler) : KeyCode → TextInputHandler
  | .right =>
    if h.currentTextPosition ≥ h.currentText.length then h
    else
      { h with
        currentTextPosition := goOn h.currentText (h.currentTextPosition + 1)
        currentTextPositionUTF := h.currentTextPositionUTF + 1 }.moved
  | .left =>
    if h.currentTextPosition = 0 then h
    else
      { h with
        currentTextPosition := backUp h.currentText (h.currentTextPosition - 1)
        currentTextPositionUTF := decrement h.currentTextPositionUTF }.moved
  | .home => { h with currentTextPosition := 0, currentTextPositionUTF := 0 }.moved
  | .end_ =>
    { h with
      currentTextPosition := h.currentText.length
      currentTextPositionUTF := UTF8Util.getLength h.currentText }.moved
  | _ => h.moved

def onKeyPressed (h : TextInputHandler) (key : KeyCode) (action : KeyAction) : TextInputHandler :=
  let h := if key = .leftShift ∨ key = .rightShift then
    { h with shiftPressed := action ≠ .release } else h
  if action = .release then h else h.onKey key

def getCopyText (h : TextInputHandler) : List UInt8 :=
  if h.currentTextCopyPosition ≠ h.currentTextPosition then
    let start := min h.currentTextPosition h.currentTextCopyPosition
    let stop := max h.currentTextPosition h.currentTextCopyPosition
    (h.currentText.drop start).take (stop - start)
  else h.currentText

end TextInputHandler

/-- A call of the handler with valid text. -/
inductive TextCall where
  | enable (text : List Utf8Char) (multiline : Bool)
  | update (text : List Utf8Char)
  | disable
  | onTextInput (text : List Utf8Char)
  | onKeyPressed (key : KeyCode) (action : KeyAction)

def TextInputHandler.call (h : TextInputHandler) : TextCall → TextInputHandler
  | .enable text multiline => h.enable (bytes text) multiline
  | .update text => h.update (bytes text)
  | .disable => h.disable
  | .onTextInput text => h.onTextInput (bytes text)
  | .onKeyPressed key action => h.onKeyPressed key action

theorem backUp_char (front : List UInt8) (c : Utf8Char) (tail : List UInt8) {j : Nat}
    (hj : j ≤ c.rest.length) :
    backUp (front ++ c.lead :: (c.rest ++ tail)) (front.length + j) = front.length := by
  induction j with
  | zero =>
    cases hlength : front.length with
    | zero => rfl
    | succ n =>
      have hlead : (front ++ c.lead :: (c.rest ++ tail)).getD (n + 1) 0 = c.lead := by
        rw [← hlength]
        simp [getD_eq_getElem?_getD]
      rw [backUp, hlead, not_isContinuation_lead, if_neg Bool.false_ne_true]
  | succ j ih =>
    have hlt : j < c.rest.length := hj
    have hbyte : (front ++ c.lead :: (c.rest ++ tail)).getD (front.length + j + 1) 0 =
        c.rest[j] := by
      rw [getD_eq_getElem?_getD, add_assoc, getElem?_append_right (by omega),
        Nat.add_sub_cancel_left, getElem?_cons_succ, getElem?_append_left hlt,
        getElem?_eq_getElem hlt, Option.getD_some]
    rw [← add_assoc, backUp, hbyte, c.continues _ (getElem_mem hlt), if_pos rfl]
    exact ih (by omega)

theorem takeWhile_rest (c : Utf8Char) (after : List Utf8Char) :
    (c.rest ++ bytes after).takeWhile isContinuation = c.rest := by
  rw [takeWhile_append_of_pos c.continues]
  cases after with
  | nil => simp
  | cons d after =>
    rw [bytes_cons, takeWhile_cons_of_neg (by simp [not_isContinuation_lead]), append_nil]

theorem goOn_char (front : List UInt8) (c : Utf8Char) (after : List Utf8Char) :
    goOn (front ++ bytes (c :: after)) (front.length + 1) =
      front.length + (c.lead :: c.rest).length := by
  have hdrop : (front ++ bytes (c :: after)).drop (front.length + 1) = c.rest ++ bytes after := by
    rw [drop_append, Nat.add_sub_cancel_left, drop_eq_nil_of_le (by omega)]
    rfl
  rw [goOn, hdrop, takeWhile_rest, length_cons]
  omega

/-! ## Counting characters -/

def wide (c : Utf8Char) : Bool := c.rest.length = 3

namespace UTF8Util

theorem getLengthFrom_append (front str : List UInt8) :
    getLengthFrom front.length (front ++ str) = getLengthFrom 0 str := by
  induction front with
  | nil => rfl
  | cons b front ih => exact ih

theorem getLengthFrom_continuations {front : List UInt8}
    (hfront : ∀ b ∈ front, isContinuation b = true) (str : List UInt8) :
    getLengthFrom 0 (front ++ str) = getLengthFrom 0 str + front.length := by
  have hbyte : ∀ b : UInt8, isContinuation b = true → getCharByteSize b = 1 :=
    forall_byte (by decide +kernel)
  induction front with
  | nil => rfl
  | cons b front ih =>
    obtain ⟨hb, hrest⟩ := forall_mem_cons.mp hfront
    rw [cons_append, getLengthFrom, hbyte b hb, ih hrest, length_cons, add_assoc]

theorem getCharByteSize_lead (c : Utf8Char) :
    getCharByteSize c.lead = if wide c then 1 else c.rest.length + 1 := by
  have hbyte : ∀ b : UInt8, ∀ n ∈ extraBytes b, getCharByteSize b = if n = 3 then 1 else n + 1 :=
    forall_byte (by decide +kernel)
  simpa [wide] using hbyte c.lead _ c.size

theorem getLength_bytes (text : List Utf8Char) :
    getLength (bytes text) = text.length + 3 * text.countP wide := by
  induction text with
  | nil => rfl
  | cons c text ih =>
    rw [getLength] at ih ⊢
    rw [bytes_cons, getLengthFrom, getCharByteSize_lead, length_cons]
    by_cases hwide : wide c = true
    · have hthree : c.rest.length = 3 := by simpa [wide] using hwide
      rw [if_pos hwide, getLengthFrom_continuations c.continues, ih, hthree,
        countP_cons_of_pos hwide]
      omega
    · rw [if_neg hwide, Nat.add_sub_cancel, getLengthFrom_append, ih, countP_cons_of_neg hwide]
      omega

end UTF8Util

/-! ## The text as characters -/

/-- The characters before and after the cursor; the selection starts behind `mark` of them. -/
structure Represents (h : TextInputHandler) (before after : List Utf8Char) (mark : Nat) :
    Prop where
  text : h.currentText = bytes before ++ bytes after
  position : h.currentTextPosition = (bytes before).length
  positionUTF : h.currentTextPositionUTF = before.length
  mark_le : mark ≤ (before ++ after).length
  copyPosition : h.currentTextCopyPosition = (bytes ((before ++ after).take mark)).length
  inside : h.outside = false

/-- The characters between the cursor and the start of the selection. -/
def between (before after : List Utf8Char) (mark : Nat) : List Utf8Char :=
  ((before ++ after).drop (min before.length mark)).take
    (max before.length mark - min before.length mark)

variable {text : List Utf8Char} {h : TextInputHandler}

namespace Represents
variable {h : TextInputHandler} {before after : List Utf8Char} {mark : Nat} {c : Utf8Char}

theorem start : Represents {} [] [] 0 := ⟨rfl, rfl, rfl, le_refl 0, rfl, rfl⟩

section
variable (hr : Represents h before after mark)
include hr

theorem take_position : h.currentText.take h.currentTextPosition = bytes before := by
  rw [hr.text, hr.position, take_left]

theorem drop_position : h.currentText.drop h.currentTextPosition = bytes after := by
  rw [hr.text, hr.position, drop_left]

theorem marked :
    Represents { h with currentTextCopyPosition := h.currentTextPosition } before after
      before.length := by
  refine ⟨hr.text, hr.position, hr.positionUTF, ?_, ?_, hr.inside⟩
  · rw [length_append]
    omega
  · rw [take_left]
    exact hr.position

theorem moved : ∃ mark', Represents h.moved before after mark' := by
  rw [TextInputHandler.moved]
  by_cases hshift : h.shiftPressed = true
  · rw [if_pos hshift]
    exact ⟨mark, hr⟩
  · rw [if_neg hshift]
    exact ⟨before.length, hr.marked⟩

end

theorem changed {before after : List Utf8Char} (text : h.currentText = bytes before ++ bytes after)
    (position : h.currentTextPosition = (bytes before).length)
    (positionUTF : h.currentTextPositionUTF = before.length) (inside : h.outside = false) :
    Represents h.changed before after before.length := by
  refine ⟨text, position, positionUTF, ?_, ?_, inside⟩
  · rw [length_append]
    omega
  · rw [take_left]
    exact position

section
variable (hr : Represents h before after mark)
include hr

theorem move {before' after' : List Utf8Char} (htext : before' ++ after' = before ++ after)
    {position positionUTF : Nat} (hposition : position = (bytes before').length)
    (hUTF : positionUTF = before'.length) :
    Represents { h with currentTextPosition := position, currentTextPositionUTF := positionUTF }
      before' after' mark := by
  refine ⟨?_, hposition, hUTF, ?_, ?_, hr.inside⟩
  · rw [hr.text, ← bytes_append, ← bytes_append, htext]
  · rw [htext]
    exact hr.mark_le
  · rw [htext]
    exact hr.copyPosition

theorem onTextInput_disabled (text : List UInt8) :
    Represents { h with updates := h.updates ++ [text] } before after mark :=
  ⟨hr.text, hr.position, hr.positionUTF, hr.mark_le, hr.copyPosition, hr.inside⟩

theorem update (htext : text.countP wide = 0) :
    Represents (h.update (bytes text)) text [] text.length := by
  refine ⟨?_, rfl, ?_, ?_, ?_, hr.inside⟩
  · exact (append_nil _).symm
  · show UTF8Util.getLength (bytes text) = _
    rw [UTF8Util.getLength_bytes, htext]
    rfl
  · rw [append_nil]
  · rw [append_nil, take_length]
    rfl

theorem insert {text : List Utf8Char} (htext : text.countP wide = 0) :
    Represents (h.insert (bytes text)) (before ++ text) after (before ++ text).length := by
  apply changed
  · rw [hr.take_position, hr.drop_position, bytes_append]
  · rw [hr.position, bytes_append, length_append]
  · rw [hr.positionUTF, UTF8Util.getLength_bytes, htext, length_append]
    rfl
  · exact hr.inside

end

theorem backUp_eq (hr : Represents h (before ++ [c]) after mark) :
    h.currentTextPosition ≠ 0 ∧
      backUp h.currentText (h.currentTextPosition - 1) = (bytes before).length := by
  have hposition : h.currentTextPosition = (bytes before).length + c.rest.length + 1 := by
    rw [hr.position, bytes_append, bytes_cons, bytes_nil, append_nil, length_append,
      length_cons]
    omega
  have htext : h.currentText = bytes before ++ c.lead :: (c.rest ++ bytes after) := by
    rw [hr.text, bytes_append, bytes_cons, bytes_nil, append_nil, append_assoc]
    rfl
  refine ⟨by omega, ?_⟩
  rw [hposition, Nat.add_sub_cancel, htext]
  exact backUp_char _ c _ (le_rfl)

theorem backspace (hr : Represents h before after mark) :
    ∃ before' mark', Represents h.backspace before' after mark' ∧ before' <+: before := by
  rw [TextInputHandler.backspace]
  rcases eq_nil_or_concat' before with rfl | ⟨front, c, rfl⟩
  · have hzero : h.currentTextPositionUTF = 0 := hr.positionUTF
    rw [if_pos hzero]
    exact ⟨[], mark, hr, prefix_rfl⟩
  · obtain ⟨hpos, hback⟩ := hr.backUp_eq
    have hUTF := hr.positionUTF
    rw [length_append, length_singleton] at hUTF
    rw [if_neg (by omega), if_neg hpos]
    refine ⟨front, front.length, ?_, prefix_append _ _⟩
    apply changed
    · rw [hback, hr.drop_position, hr.text, bytes_append, append_assoc, take_left]
    · exact hback
    · show h.currentTextPositionUTF - 1 = _
      omega
    · exact hr.inside

theorem goOn_eq (hr : Represents h before (c :: after) mark) :
    ¬ h.currentTextPosition ≥ h.currentText.length ∧
      goOn h.currentText (h.currentTextPosition + 1) = (bytes (before ++ [c])).length := by
  have hlength : (bytes (before ++ [c])).length =
      (bytes before).length + (c.lead :: c.rest).length := by
    rw [bytes_append, bytes_cons, bytes_nil, append_nil, length_append]
  rw [hr.text, hr.position, goOn_char, hlength]
  refine ⟨?_, rfl⟩
  rw [length_append, bytes_cons, length_cons]
  omega

theorem at_end (hr : Represents h before [] mark) :
    h.currentTextPosition ≥ h.currentText.length := by
  rw [hr.text, hr.position, bytes_nil, append_nil]

section
variable (hr : Represents h before after mark)
include hr

theorem delete : ∃ after' mark', Represents h.delete before after' mark' ∧ after' <:+ after := by
  rw [TextInputHandler.delete]
  cases after with
  | nil =>
    rw [if_pos hr.at_end]
    exact ⟨[], mark, hr, suffix_rfl⟩
  | cons c after =>
    obtain ⟨hlt, hon⟩ := hr.goOn_eq
    rw [if_neg hlt]
    refine ⟨after, before.length, ?_, suffix_cons _ _⟩
    apply changed
    · have htext : h.currentText = bytes (before ++ [c]) ++ bytes after := by
        rw [hr.text, ← bytes_append, ← bytes_append, ← append_cons]
      rw [hr.take_position, hon, htext, drop_left]
    · exact hr.position
    · exact hr.positionUTF
    · exact hr.inside

theorem right :
    ∃ before' after' mark', Represents (h.onKey .right) before' after' mark' ∧
      before' ++ after' = before ++ after := by
  rw [TextInputHandler.onKey]
  cases after with
  | nil =>
    rw [if_pos hr.at_end]
    exact ⟨before, [], mark, hr, rfl⟩
  | cons c after =>
    obtain ⟨hlt, hon⟩ := hr.goOn_eq
    have htext : before ++ [c] ++ after = before ++ c :: after := append_cons .. |>.symm
    have hUTF : h.currentTextPositionUTF + 1 = (before ++ [c]).length := by
      rw [hr.positionUTF, length_append]
      rfl
    rw [if_neg hlt]
    obtain ⟨mark', hmoved⟩ := (hr.move htext hon hUTF).moved
    exact ⟨before ++ [c], after, mark', hmoved, htext⟩

theorem left :
    ∃ before' after' mark', Represents (h.onKey .left) before' after' mark' ∧
      before' ++ after' = before ++ after := by
  rw [TextInputHandler.onKey]
  rcases eq_nil_or_concat' before with rfl | ⟨front, c, rfl⟩
  · have hzero : h.currentTextPosition = 0 := hr.position
    rw [if_pos hzero]
    exact ⟨[], after, mark, hr, rfl⟩
  · obtain ⟨hpos, hback⟩ := hr.backUp_eq
    have htext : front ++ c :: after = front ++ [c] ++ after := append_cons ..
    have hUTF : decrement h.currentTextPositionUTF = front.length := by
      rw [hr.positionUTF, length_append, decrement]
      rfl
    rw [if_neg hpos]
    obtain ⟨mark', hmoved⟩ := (hr.move htext hback hUTF).moved
    exact ⟨front, c :: after, mark', hmoved, htext⟩

theorem onKey (hnarrow : (before ++ after).countP wide = 0) (key : KeyCode) :
    ∃ before' after' mark', Represents (h.onKey key) before' after' mark' ∧
      before' ++ after' = before ++ after := by
  cases key with
  | right => exact hr.right
  | left => exact hr.left
  | home =>
    have hstart : [] ++ (before ++ after) = before ++ after := nil_append _
    obtain ⟨mark', hmoved⟩ := (hr.move hstart rfl rfl).moved
    exact ⟨[], before ++ after, mark', hmoved, hstart⟩
  | end_ =>
    have htext : before ++ after ++ [] = before ++ after := append_nil _
    have hlength : h.currentText = bytes (before ++ after) := by rw [hr.text, bytes_append]
    have hUTF : UTF8Util.getLength h.currentText = (before ++ after).length := by
      rw [hlength, UTF8Util.getLength_bytes, hnarrow]
      rfl
    obtain ⟨mark', hmoved⟩ := (hr.move htext (congrArg length hlength) hUTF).moved
    exact ⟨before ++ after, [], mark', hmoved, htext⟩
  | leftShift | rightShift | other =>
    obtain ⟨mark', hmoved⟩ := hr.moved
    exact ⟨before, after, mark', hmoved, rfl⟩

theorem onKeyPressed (hnarrow : (before ++ after).countP wide = 0) (key : KeyCode)
    (action : KeyAction) :
    ∃ before' after' mark', Represents (h.onKeyPressed key action) before' after' mark' ∧
      before' ++ after' = before ++ after := by
  have hshift (b : Bool) : Represents { h with shiftPressed := b } before after mark :=
    ⟨hr.text, hr.position, hr.positionUTF, hr.mark_le, hr.copyPosition, hr.inside⟩
  have hfirst : Represents (if key = .leftShift ∨ key = .rightShift then
      { h with shiftPressed := action ≠ .release } else h) before after mark := by
    split_ifs
    · exact hshift _
    · exact hr
  rw [TextInputHandler.onKeyPressed]
  by_cases hrelease : action = .release
  · rw [if_pos hrelease]
    exact ⟨before, after, mark, hfirst, rfl⟩
  · rw [if_neg hrelease]
    exact hfirst.onKey hnarrow key

theorem getCopyText :
    h.getCopyText =
      bytes (if mark = before.length then before ++ after else between before after mark) := by
  have hposition : h.currentTextPosition =
      (bytes ((before ++ after).take before.length)).length := by
    rw [take_left, hr.position]
  have hle : before.length ≤ (before ++ after).length := by
    rw [length_append]
    omega
  rw [TextInputHandler.getCopyText]
  by_cases hmark : mark = before.length
  · rw [if_pos hmark, if_neg, hr.text, bytes_append]
    rw [hr.copyPosition, hposition, hmark]
    exact fun hne => hne rfl
  · have hne : h.currentTextCopyPosition ≠ h.currentTextPosition := by
      rw [hr.copyPosition, hposition]
      exact fun heq => hmark (length_bytes_take_inj hr.mark_le hle heq)
    rw [if_neg hmark, if_pos hne, between, hr.text, ← bytes_append, hr.copyPosition, hposition]
    rcases Nat.lt_or_gt_of_ne hmark with hlt | hgt
    · have := length_bytes_take_lt hlt hle
      rw [min_eq_right (le_of_lt this), max_eq_left (le_of_lt this),
        min_eq_right (le_of_lt hlt), max_eq_left (le_of_lt hlt)]
      exact bytes_slice _ (le_of_lt hlt)
    · have := length_bytes_take_lt hgt hr.mark_le
      rw [min_eq_left (le_of_lt this), max_eq_right (le_of_lt this),
        min_eq_left (le_of_lt hgt), max_eq_right (le_of_lt hgt)]
      exact bytes_slice _ (le_of_lt hgt)

end

end Represents

/-- Text that is taken over has no character of four bytes. -/
def Narrow (h : TextInputHandler) : TextCall → Prop
  | .enable text _ => text.countP wide = 0
  | .update text => text.countP wide = 0
  | .onTextInput text => h.enabled = true → text.countP wide = 0
  | _ => True

/-- Cursor and selection lie between characters, and those before the cursor are counted. -/
def Sound (h : TextInputHandler) : Prop := ∃ before after mark, Represents h before after mark

/-- Besides, no character has four bytes. -/
def Inv (h : TextInputHandler) : Prop :=
  ∃ before after mark, Represents h before after mark ∧ (before ++ after).countP wide = 0

theorem Inv.sound : Inv h → Sound h := by
  rintro ⟨before, after, mark, hr, -⟩
  exact ⟨before, after, mark, hr⟩

theorem Inv.start : Inv {} := ⟨[], [], 0, Represents.start, rfl⟩

theorem countP_zero_of_sublist {text' : List Utf8Char} (hsub : text'.Sublist text)
    (h : text.countP wide = 0) : text'.countP wide = 0 :=
  Nat.eq_zero_of_le_zero (h ▸ hsub.countP_le)

theorem Inv.update (hinv : Inv h) (htext : text.countP wide = 0) : Inv (h.update (bytes text)) := by
  obtain ⟨before, after, mark, hr, -⟩ := hinv
  refine ⟨text, [], text.length, hr.update htext, ?_⟩
  rw [append_nil, htext]

theorem Inv.call (hinv : Inv h) {c : TextCall} (hc : Narrow h c) : Inv (h.call c) := by
  have hinv' := hinv
  obtain ⟨before, after, mark, hr, hnarrow⟩ := hinv
  cases c with
  | enable text multiline =>
    have henabled : Inv { h with enabled := true, multiline } :=
      ⟨before, after, mark,
        ⟨hr.text, hr.position, hr.positionUTF, hr.mark_le, hr.copyPosition, hr.inside⟩, hnarrow⟩
    exact henabled.update hc
  | update text => exact hinv'.update hc
  | disable => exact ⟨[], [], 0, ⟨rfl, rfl, rfl, le_refl 0, rfl, hr.inside⟩, rfl⟩
  | onTextInput text =>
    rw [TextInputHandler.call, TextInputHandler.onTextInput]
    by_cases henabled : h.enabled = false
    · rw [if_pos henabled]
      exact ⟨before, after, mark, hr.onTextInput_disabled _, hnarrow⟩
    have htext := hc (by simpa using henabled)
    split_ifs
    · obtain ⟨before', mark', hr', hfront⟩ := hr.backspace
      refine ⟨before', after, mark', hr', countP_zero_of_sublist ?_ hnarrow⟩
      exact List.Sublist.append_right hfront.sublist after
    · obtain ⟨after', mark', hr', hback⟩ := hr.delete
      refine ⟨before, after', mark', hr', countP_zero_of_sublist ?_ hnarrow⟩
      exact List.Sublist.append_left hback.sublist before
    · refine ⟨before ++ text, after, _, hr.insert htext, ?_⟩
      rw [countP_append] at hnarrow
      rw [countP_append, countP_append, htext]
      omega
  | onKeyPressed key action =>
    obtain ⟨before', after', mark', hr', htext⟩ := hr.onKeyPressed hnarrow key action
    exact ⟨before', after', mark', hr', htext ▸ hnarrow⟩

/-- **The text cursor.** With characters of at most three bytes cursor and start of the selection
lie between characters, those before the cursor are counted, and the text between the two is copied,
or all of it where they are the same. -/
theorem text_input_cursor (calls : List TextCall)
    (h : Along TextInputHandler.call Narrow {} calls) :
    ∃ before after mark, Represents (calls.foldl TextInputHandler.call {}) before after mark ∧
      (calls.foldl TextInputHandler.call {}).getCopyText =
        bytes (if mark = before.length then before ++ after else between before after mark) := by
  have hinv : Inv (calls.foldl TextInputHandler.call {}) :=
    invariant Inv (fun _ _ hinv hc => hinv.call hc) Inv.start h
  obtain ⟨before, after, mark, hr, -⟩ := hinv
  exact ⟨before, after, mark, hr, hr.getCopyText⟩

def letterA : Utf8Char := ⟨0x61, [], rfl, by simp⟩

def letterE : Utf8Char := ⟨0xc3, [0xa9], rfl, by decide +kernel⟩

def selectLast : List TextCall :=
  [.enable [letterA, letterE] false, .onKeyPressed .leftShift .press, .onKeyPressed .left .press]

theorem text_input_cursor_selectLast :
    Along TextInputHandler.call Narrow {} selectLast ∧
      (selectLast.foldl TextInputHandler.call {}).getCopyText = bytes [letterE] ∧
      ∃ before after mark,
        Represents (selectLast.foldl TextInputHandler.call {}) before after mark := by
  have hnarrow : Along TextInputHandler.call Narrow {} selectLast :=
    ⟨rfl, trivial, trivial, trivial⟩
  obtain ⟨before, after, mark, hr, -⟩ := text_input_cursor selectLast hnarrow
  exact ⟨hnarrow, by decide, before, after, mark, hr⟩

def smiley : Utf8Char := ⟨0xf0, [0x9f, 0x98, 0x80], rfl, by decide +kernel⟩

/-- Where nothing is selected the whole text is copied; and one character of four bytes before the
cursor is counted as four. -/
theorem text_input_copies_all :
    ([TextCall.enable [letterA] false].foldl TextInputHandler.call {}).getCopyText =
        bytes [letterA] ∧
      ([TextCall.enable [smiley] false].foldl TextInputHandler.call {}).currentTextPositionUTF =
        4 ∧
      ¬ ∃ before after mark,
        Represents ([TextCall.enable [letterA] false].foldl TextInputHandler.call {})
          before after mark ∧
        ([TextCall.enable [letterA] false].foldl TextInputHandler.call {}).getCopyText =
          bytes (between before after mark) := by
  refine ⟨by decide, by decide, ?_⟩
  rintro ⟨before, after, mark, hr, hcopy⟩
  rw [hr.getCopyText] at hcopy
  have hmark : mark = before.length := by
    have hle : before.length ≤ (before ++ after).length := by
      rw [length_append]
      omega
    apply length_bytes_take_inj hr.mark_le hle
    rw [← hr.copyPosition, take_left, ← hr.position]
    rfl
  have htext : bytes (before ++ after) = bytes [letterA] := by
    rw [bytes_append, ← hr.text]
    rfl
  rw [if_pos hmark, hmark, between, max_self, min_self, Nat.sub_self, take_zero,
    htext] at hcopy
  exact absurd hcopy (by decide)

/-! ## A character of four bytes -/

theorem four_mul_countP_le (text : List Utf8Char) : 4 * text.countP wide ≤ (bytes text).length := by
  induction text with
  | nil => exact le_refl 0
  | cons c text ih =>
    rw [bytes_cons, length_cons, length_append]
    by_cases hwide : wide c = true
    · have hthree : c.rest.length = 3 := by simpa [wide] using hwide
      rw [countP_cons_of_pos hwide]
      omega
    · rw [countP_cons_of_neg hwide]
      omega

/-- The number of characters before the cursor is what `Represents` says, for characters that
are there. -/
theorem Sound.positionUTF_eq (hsound : Sound h) (front back : List Utf8Char)
    (htext : h.currentText = bytes front ++ bytes back)
    (hposition : h.currentTextPosition = (bytes front).length) :
    h.currentTextPositionUTF = front.length := by
  obtain ⟨before, after, mark, hr⟩ := hsound
  obtain ⟨rfl, -⟩ := bytes_append_inj (htext.symm.trans hr.text) (hposition.symm.trans hr.position)
  exact hr.positionUTF

theorem narrow_of_update (hsound : Sound (h.update (bytes text))) : text.countP wide = 0 := by
  have hUTF : UTF8Util.getLength (bytes text) = text.length :=
    hsound.positionUTF_eq text [] (append_nil _).symm rfl
  rw [UTF8Util.getLength_bytes] at hUTF
  omega

theorem Inv.narrow (hinv : Inv h) {c : TextCall} (hsound : Sound (h.call c)) : Narrow h c := by
  cases c with
  | enable text multiline => exact narrow_of_update hsound
  | update text => exact narrow_of_update hsound
  | disable => trivial
  | onKeyPressed key action => trivial
  | onTextInput text =>
    intro henabled
    obtain ⟨before, after, mark, hr, hnarrow⟩ := hinv
    rw [TextInputHandler.call, TextInputHandler.onTextInput, if_neg (by simp [henabled])] at hsound
    have hfew := four_mul_countP_le text
    split_ifs at hsound with hback hdelete
    · rw [hback, length_singleton] at hfew
      omega
    · rw [hdelete, length_singleton] at hfew
      omega
    · have hUTF : h.currentTextPositionUTF + UTF8Util.getLength (bytes text) =
          (before ++ text).length := by
        refine hsound.positionUTF_eq _ after ?_ ?_
        · show h.currentText.take _ ++ bytes text ++ h.currentText.drop _ = _
          rw [hr.take_position, hr.drop_position, bytes_append]
        · show h.currentTextPosition + (bytes text).length = _
          rw [hr.position, bytes_append, length_append]
      rw [hr.positionUTF, UTF8Util.getLength_bytes, length_append] at hUTF
      omega

/-- **The cursor is right along all calls exactly if no character of four bytes is taken
over.** -/
theorem text_input_iff (calls : List TextCall) :
    (∀ front, front <+: calls → Sound (front.foldl TextInputHandler.call {})) ↔
      Along TextInputHandler.call Narrow {} calls :=
  forall_front_iff Inv Sound (fun _ => Inv.sound) (fun _ _ hinv hc => hinv.call hc)
    (fun _ _ hinv hsound => hinv.narrow hsound) Inv.start calls

end TextInput
