import McpeLauncher.IpcEncoding

/-! # Receiving (`common/connection_internal.cpp`)

A connection keeps the bytes read and not consumed in `buffer[buffer_start_off .. buffer_off)`, the
*window*. `handle_data_available` makes room behind it, by growing the buffer or by moving the
window to the front, reads, and hands on complete messages. -/
namespace SimpleIpc
open FrameStream List

def bufferSize : Nat := 1024 * 16

/-- The receiving part of `connection_internal`. -/
structure Connection where
  buffer : List UInt8
  bufferStartOff : Nat
  bufferOff : Nat
  currentEncoding : Encoding
  start_le : bufferStartOff ≤ bufferOff
  off_le : bufferOff ≤ buffer.length
  size_pos : 0 < buffer.length
  size_le : buffer.length ≤ maxBufferSize

namespace Connection

def fresh : Connection where
  buffer := List.replicate bufferSize 0
  bufferStartOff := 0
  bufferOff := 0
  currentEncoding := .default
  start_le := Nat.le_refl 0
  off_le := Nat.zero_le _
  size_pos := by rw [List.length_replicate]; decide
  size_le := by rw [List.length_replicate]; decide

def window (c : Connection) : List UInt8 := (c.buffer.take c.bufferOff).drop c.bufferStartOff

variable (c : Connection)

theorem window_length : c.window.length = c.bufferOff - c.bufferStartOff := by
  have := c.off_le
  rw [window, length_drop, length_take]
  omega

theorem window_length_le : c.window.length ≤ maxBufferSize := by
  have h1 := c.off_le
  have h2 := c.size_le
  rw [window_length]
  omega

def setEncoding (c : Connection) (enc : Encoding) : Connection := { c with currentEncoding := enc }

def resize (c : Connection) (n : Nat) (hn : c.buffer.length ≤ n) (hmax : n ≤ maxBufferSize) :
    Connection where
  buffer := c.buffer ++ List.replicate (n - c.buffer.length) 0
  bufferStartOff := c.bufferStartOff
  bufferOff := c.bufferOff
  currentEncoding := c.currentEncoding
  start_le := c.start_le
  off_le := by have := c.off_le; simp only [List.length_append]; omega
  size_pos := by have := c.size_pos; simp only [List.length_append]; omega
  size_le := by simp only [List.length_append, List.length_replicate]; omega

/-- The window moved to the start of the buffer. -/
def compact (c : Connection) : Connection where
  buffer := c.window ++ c.buffer.drop c.window.length
  bufferStartOff := 0
  bufferOff := c.bufferOff - c.bufferStartOff
  currentEncoding := c.currentEncoding
  start_le := Nat.zero_le _
  off_le := by rw [List.length_append, window_length]; omega
  size_pos := by
    have := c.size_pos
    rw [List.length_append, List.length_drop]
    omega
  size_le := by
    have h1 := c.size_le
    have h2 := c.off_le
    rw [List.length_append, List.length_drop, window_length]
    omega

/-- The first half of the loop of `handle_data_available`, with `none` for its early return. -/
def makeRoom (c : Connection) : Option Connection :=
  if c.bufferOff = c.buffer.length then
    if c.bufferStartOff = 0 then
      if h : c.buffer.length < maxBufferSize then
        some (c.resize (min (c.buffer.length * 2) maxBufferSize) (by omega) (by omega))
      else none
    else some c.compact
  else some c

def room (c : Connection) : Nat := c.buffer.length - c.bufferOff

def store (c : Connection) (data : List UInt8) (h : data.length ≤ c.room) : Connection where
  buffer := c.buffer.take c.bufferOff ++ data ++ c.buffer.drop (c.bufferOff + data.length)
  bufferStartOff := c.bufferStartOff
  bufferOff := c.bufferOff + data.length
  currentEncoding := c.currentEncoding
  start_le := by have := c.start_le; omega
  off_le := by
    have := c.off_le
    simp only [List.length_append, List.length_take, List.length_drop]
    omega
  size_pos := by
    have h1 := c.off_le
    have h2 := c.size_pos
    simp only [List.length_append, List.length_take, List.length_drop]
    omega
  size_le := by
    have h1 := c.off_le
    have h2 := c.size_le
    rw [room] at h
    simp only [List.length_append, List.length_take, List.length_drop]
    omega

def consume (c : Connection) (n : Nat) (h : n ≤ c.window.length) : Connection where
  buffer := c.buffer
  bufferStartOff := c.bufferStartOff + n
  bufferOff := c.bufferOff
  currentEncoding := c.currentEncoding
  start_le := by
    have := c.start_le
    rw [window_length] at h
    omega
  off_le := c.off_le
  size_pos := c.size_pos
  size_le := c.size_le

/-! ## What the operations do to the window -/

theorem window_setEncoding (enc : Encoding) :
    (c.setEncoding enc).window = c.window := rfl

theorem window_resize (n : Nat) (hn : c.buffer.length ≤ n)
    (hmax : n ≤ maxBufferSize) : (c.resize n hn hmax).window = c.window := by
  show ((c.buffer ++ _).take c.bufferOff).drop c.bufferStartOff = _
  rw [take_append_of_le_length c.off_le, window]

theorem window_compact : c.compact.window = c.window := by
  show ((c.window ++ _).take (c.bufferOff - c.bufferStartOff)).drop 0 = _
  rw [drop_zero, ← window_length, take_left]

theorem window_store (data : List UInt8) (h : data.length ≤ c.room) :
    (c.store data h).window = c.window ++ data := by
  have hoff := c.off_le
  have hstart := c.start_le
  show ((c.buffer.take c.bufferOff ++ data ++ _).take (c.bufferOff + data.length)).drop
    c.bufferStartOff = _
  have hlen : (c.buffer.take c.bufferOff ++ data).length = c.bufferOff + data.length := by
    rw [length_append, length_take]
    omega
  rw [← hlen, take_left, drop_append_of_le_length (by rw [length_take]; omega), window]

theorem window_consume (n : Nat) (h : n ≤ c.window.length) :
    (c.consume n h).window = c.window.drop n := by
  show (c.buffer.take c.bufferOff).drop (c.bufferStartOff + n) = _
  rw [window, drop_drop]

/-- Making room changes neither the window nor the encoding and leaves space
behind the window. -/
theorem makeRoom_some {c c' : Connection} (h : c.makeRoom = some c') :
    c'.window = c.window ∧ c'.currentEncoding = c.currentEncoding ∧ 0 < c'.room := by
  have hpos := c.size_pos
  have hoff := c.off_le
  unfold makeRoom at h
  split at h
  · next hfull =>
    split at h
    · split at h
      · next hsize =>
        cases h
        refine ⟨c.window_resize _ _ _, rfl, ?_⟩
        simp only [room, resize, length_append, length_replicate]
        omega
      · cases h
    · next hstart =>
      cases h
      refine ⟨c.window_compact, rfl, ?_⟩
      simp only [room, compact, length_append, length_drop, window_length]
      omega
  · cases h
    exact ⟨rfl, rfl, by rw [room]; omega⟩

theorem makeRoom_none {c : Connection} (h : c.makeRoom = none) :
    c.window.length = maxBufferSize := by
  have hsize := c.size_le
  unfold makeRoom at h
  split at h
  · split at h
    · split at h
      · cases h
      · rw [window_length]
        omega
    · cases h
  · cases h

end Connection

end SimpleIpc
