import McpeLauncher.IpcBytes

/-! # Moving the window to the front (`connection_internal::handle_data_available`)

When the buffer is full, the unread bytes are moved to its front with `memcpy`, which is defined
only for regions that do not overlap. `Reached` are the states of a connection. -/
namespace SimpleIpc
open FrameStream List Connection

/-- The offset and the number of bytes that `memcpy` copies to offset 0; `none` where it does not.
-/
def Connection.copied (c : Connection) : Option (Nat × Nat) :=
  if c.bufferOff = c.buffer.length ∧ c.bufferStartOff ≠ 0 then
    some (c.bufferStartOff, c.bufferOff - c.bufferStartOff)
  else none

/-- The bytes read and the bytes written do not overlap, which is what `memcpy` asks for. -/
def CopyDisjoint (source count : Nat) : Prop :=
  Disjoint (Finset.Ico source (source + count)) (Finset.Ico 0 count)

theorem copyDisjoint_iff {source count : Nat} : CopyDisjoint source count ↔ count ≤ source := by
  unfold CopyDisjoint
  rw [Finset.disjoint_left]
  constructor
  · intro h
    by_contra hlt
    exact h (Finset.mem_Ico.mpr ⟨le_refl source, by omega⟩)
      (Finset.mem_Ico.mpr ⟨Nat.zero_le _, by omega⟩)
  · intro hle k hk hk'
    rw [Finset.mem_Ico] at hk hk'
    omega

/-! ## The states of a connection -/

section Reached
variable {σ : Type} (lib : JsonLibrary) (h : Handler σ)

/-- A connection with the messages consumed since the window was at the start: room is made,
something is read and handled, the encoding may be set. -/
inductive Reached : Connection → σ → List (List UInt8) → Prop
  | fresh (s : σ) : Reached .fresh s []
  | setEncoding {c : Connection} {s : σ} {consumed : List (List UInt8)} (enc : Encoding) :
      Reached c s consumed → Reached (c.setEncoding enc) s consumed
  | room {c c' : Connection} {s : σ} {consumed : List (List UInt8)} :
      Reached c s consumed → c.makeRoom = some c' →
      Reached c' s (if c'.bufferStartOff = 0 then [] else consumed)
  | read {c : Connection} {s : σ} {consumed : List (List UInt8)} (blk : List UInt8) :
      Reached c s consumed → blk.take c.room ≠ [] →
      Reached (readBlock lib h c s blk).conn (readBlock lib h c s blk).state
        (consumed ++ (readBlock lib h c s blk).consumed)

theorem processMessages_buffer (fuel : Nat) :
    ∀ (c : Connection) (checkStart : Nat) (s : σ),
      (processMessages lib h fuel c checkStart s).conn.buffer = c.buffer ∧
        (processMessages lib h fuel c checkStart s).conn.bufferOff = c.bufferOff := by
  induction fuel with
  | zero => exact fun _ _ _ => ⟨rfl, rfl⟩
  | succ fuel ih =>
    intro c checkStart s
    rcases processMessages_round lib h fuel c checkStart s with ⟨_, heq⟩ | ⟨n, hn, _, _, heq⟩
    · rw [heq]
      exact ⟨rfl, rfl⟩
    · rw [heq]
      split
      · exact ⟨rfl, rfl⟩
      · exact ih _ _ _

theorem readBlock_bufferStartOff (c : Connection) (s : σ) (blk : List UInt8) :
    (readBlock lib h c s blk).conn.bufferStartOff =
      c.bufferStartOff + (readBlock lib h c s blk).consumed.flatten.length := by
  have hoff := (processMessages_buffer lib h
    ((c.store (blk.take c.room) (length_take_le _ _)).window.length + 1)
    (c.store (blk.take c.room) (length_take_le _ _)) c.bufferOff s).2
  have hbytes := congrArg length (processMessages_accounts lib h
    ((c.store (blk.take c.room) (length_take_le _ _)).window.length + 1)
    (c.store (blk.take c.room) (length_take_le _ _)) c.bufferOff s).bytes
  change (readBlock lib h c s blk).conn.bufferOff = c.bufferOff + (blk.take c.room).length at hoff
  change _ = ((readBlock lib h c s blk).consumed.flatten ++
    ((readBlock lib h c s blk).conn.window ++ [])).length at hbytes
  have hle := (readBlock lib h c s blk).conn.start_le
  have hstart := c.start_le
  simp only [length_append, window_length, length_nil, window_store] at hbytes
  omega

theorem makeRoom_bufferStartOff {c c' : Connection} (hroom : c.makeRoom = some c')
    (hne : c'.bufferStartOff ≠ 0) : c'.bufferStartOff = c.bufferStartOff := by
  unfold makeRoom at hroom
  split at hroom
  · split at hroom
    · split at hroom
      · cases hroom
        rfl
      · cases hroom
    · cases hroom
      exact absurd rfl hne
  · cases hroom
    rfl

/-- **`buffer_start_off` counts the bytes of the messages consumed.** -/
theorem Reached.bufferStartOff {c : Connection} {s : σ} {consumed : List (List UInt8)}
    (hc : Reached lib h c s consumed) : c.bufferStartOff = consumed.flatten.length := by
  induction hc with
  | fresh => rfl
  | setEncoding _ _ ih => exact ih
  | room _ hroom ih =>
    split
    · assumption
    · next hne => rw [makeRoom_bufferStartOff hroom hne, ih]
  | read blk _ _ ih => rw [readBlock_bufferStartOff, ih, flatten_append, length_append]

/-- **The window is moved by a disjoint copy exactly if the messages consumed before it take at
least as many bytes as it has.** -/
theorem compaction_disjoint_iff {c : Connection} {s : σ} {consumed : List (List UInt8)}
    (hc : Reached lib h c s consumed) {source count : Nat}
    (hcopy : c.copied = some (source, count)) :
    source = consumed.flatten.length ∧ count = c.window.length ∧
      (CopyDisjoint source count ↔ c.window.length ≤ consumed.flatten.length) := by
  unfold Connection.copied at hcopy
  split at hcopy
  · cases hcopy
    refine ⟨hc.bufferStartOff, c.window_length.symm, ?_⟩
    rw [copyDisjoint_iff, ← c.window_length, hc.bufferStartOff]
  · cases hcopy

theorem reached_front (onMessage : σ → Message → σ) (onError : σ → ReadError → σ) (s : σ)
    (frames : List (List UInt8)) (front later : List UInt8) (hlater : later ≠ [])
    (hframes : ∀ f ∈ frames ++ [front ++ later], IsWireFrame .json f ∧ f.length ≤ maxBufferSize)
    (hlen : frames.flatten.length + front.length = bufferSize) (hpos : 0 < frames.flatten.length) :
    ∃ c s', Reached lib (.steady onMessage onError) c s' frames ∧
      c.copied = some (frames.flatten.length, front.length) := by
  have hempty : Connection.fresh.window = [] := rfl
  have hfits : (frames.flatten ++ front).length ≤ Connection.fresh.room := by
    rw [fresh_room, length_append]
    omega
  have hdata : (frames.flatten ++ front).take Connection.fresh.room ≠ [] := by
    rw [take_of_length_le hfits, ← length_pos_iff, length_append]
    omega
  have hfr := isFrame_of_fits hframes
  have hframe : ∀ f ∈ frames ++ [front ++ later], IsFrame (cut .json) f := fun f hf => (hfr f hf).1
  have hbytes : frames.flatten ++ front ++ later = (frames ++ [front ++ later]).flatten := by
    rw [flatten_append, flatten_singleton, append_assoc]
  have hr : Received lib (.steady onMessage onError) .json (frames ++ [front ++ later]) later
      (readBlock lib (.steady onMessage onError) .fresh s (frames.flatten ++ front)) := by
    have hw : Connection.fresh.window ++ (frames.flatten ++ front ++ later) =
        (frames ++ [front ++ later]).flatten := by
      rw [hempty, nil_append, hbytes]
    have hall := readBlock_received lib (.steady onMessage onError)
      (Handler.steady_keeps onMessage onError) s rfl hframe hw
      (by rw [hempty]; exact incomplete_nil hframe)
    rwa [drop_eq_nil_of_le hfits, nil_append] at hall
  have hexit := hr.steady_returned
  have hlaterPos := length_pos_iff.mpr hlater
  obtain ⟨hhanded, hw⟩ := (hr.progress lib _ hbytes hexit).unique
    ⟨[front ++ later], rfl, rfl, by simp only [Incomplete, length_append]; omega⟩
  have hread : Reached lib (.steady onMessage onError) _ _ _ :=
    .read (frames.flatten ++ front) (.fresh s) hdata
  have hfull : (readBlock lib (.steady onMessage onError) .fresh s
      (frames.flatten ++ front)).conn.room = 0 := by
    have hkeeps := processMessages_buffer lib (.steady onMessage onError)
      ((Connection.fresh.window ++ (frames.flatten ++ front)).length + 1)
      (Connection.fresh.store _ hfits) Connection.fresh.bufferOff s
    rw [readBlock_fits lib _ _ s hfits, room, hkeeps.1, hkeeps.2]
    have := store_room .fresh _ hfits
    rw [room, fresh_room, length_append] at this
    omega
  generalize readBlock lib (.steady onMessage onError) .fresh s (frames.flatten ++ front) = r at *
  have hconsumed : r.consumed = frames := by
    rw [Reception.consumed, hexit, ← hhanded]
    rfl
  rw [hconsumed, nil_append] at hread
  refine ⟨_, _, hread, ?_⟩
  have hstart := hread.bufferStartOff
  have hcount := r.conn.window_length
  have hoff := r.conn.off_le
  rw [room] at hfull
  rw [hw] at hcount
  rw [Connection.copied, if_pos ⟨by omega, by omega⟩, hcount, hstart]

end Reached

def letters (n : Nat) : List UInt8 := List.replicate n 97

theorem letters_fit {n : Nat} (hn : n < maxBufferSize) :
    IsWireFrame .json (letters n ++ [10]) ∧ (letters n ++ [10]).length ≤ maxBufferSize := by
  refine ⟨⟨letters n, fun b hb => ?_, rfl⟩, ?_⟩
  · rw [eq_of_mem_replicate hb]
    decide
  · rw [letters, length_append, length_replicate]
    exact hn

theorem reached_letters {m n : Nat} (hlen : m + 1 + n = bufferSize) :
    ∃ c s, Reached sampleLibrary recorder c s [letters m ++ [10]] ∧ c.copied = some (m + 1, n) := by
  have hsize : bufferSize < maxBufferSize := by decide
  have hfits : ∀ f ∈ [letters m ++ [10]] ++ [letters n ++ [10]],
      IsWireFrame .json f ∧ f.length ≤ maxBufferSize := by
    intro f hf
    rcases mem_cons.mp hf with rfl | hf
    · exact letters_fit (by omega)
    · rw [mem_singleton.mp hf]
      exact letters_fit (by omega)
  have hfront : [letters m ++ [10]].flatten.length = m + 1 := by simp [letters]
  have hrest : (letters n).length = n := length_replicate
  obtain ⟨c, s, hc, hcopy⟩ := reached_front sampleLibrary _ _ [] [letters m ++ [10]] (letters n)
    [10] (by decide) hfits (by omega) (by omega)
  rw [hfront, hrest] at hcopy
  exact ⟨c, s, hc, hcopy⟩

theorem compaction_disjoint_half :
    ∃ c s consumed, Reached sampleLibrary recorder c s consumed ∧ c.copied = some (8192, 8192) ∧
      CopyDisjoint 8192 8192 := by
  obtain ⟨c, s, hc, hcopy⟩ := reached_letters (m := 8191) (n := 8192) (by decide)
  obtain ⟨hsource, hcount, hiff⟩ := compaction_disjoint_iff sampleLibrary recorder hc hcopy
  exact ⟨c, s, _, hc, hcopy, hiff.mpr (by omega)⟩

/-- An empty line is consumed, and the other 16383 bytes are moved by one. -/
theorem compaction_overlaps :
    ∃ c s consumed, Reached sampleLibrary recorder c s consumed ∧ c.copied = some (1, 16383) ∧
      ¬CopyDisjoint 1 16383 := by
  obtain ⟨c, s, hc, hcopy⟩ := reached_letters (m := 0) (n := 16383) (by decide)
  exact ⟨c, s, _, hc, hcopy, fun hdisj => absurd (copyDisjoint_iff.mp hdisj) (by decide)⟩

end SimpleIpc
