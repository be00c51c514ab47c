import McpeLauncher.IpcReceive
import McpeLauncher.Runs

/-! # Sending (`unix/common/unix_connection.cpp`, `send_json`)

`send_message` makes two calls of `send_data`, each one `write` on a non-blocking socket: anything
but all of the bytes makes it throw, and what the kernel has taken stays. -/
namespace SimpleIpc
open FrameStream List

/-- `write` takes all bytes, some of them but not all, or none (`EAGAIN`). -/
inductive WriteResult where
  | full
  | short (n : Nat)
  | wouldBlock
  deriving DecidableEq, Repr

/-- The bytes `write` takes; a short write leaves at least one. -/
def WriteResult.taken (data : List UInt8) : WriteResult → List UInt8
  | full => data
  | short n => data.take (min n (data.length - 1))
  | wouldBlock => []

/-- `unix_connection::send_data`: the bytes that reach the wire, and whether it
returns. -/
def sendData (data : List UInt8) (w : WriteResult) : List UInt8 × Bool := (w.taken data, w = .full)

/-- A call of `send_message` and the results of the writes it may make. -/
structure SendCall where
  encoding : Encoding
  message : Message
  first : WriteResult
  second : WriteResult

variable (lib : JsonLibrary) {enc : Encoding} {f : Frame} {msgs : List Message} {m : Message}
  {x : SendCall}

/-- `connection_internal::send_message`: the bytes that reach the wire, and
whether it returns. -/
def SendCall.perform (x : SendCall) : List UInt8 × Bool :=
  match sendMessage lib x.encoding x.message with
  | none => ([], false)
  | some f =>
    let (bytes, ok) := sendData f.first x.first
    if ok then
      let (bytes', ok') := sendData f.second x.second
      (bytes ++ bytes', ok')
    else (bytes, false)

/-- The wire, and the frames of the messages whose `send_message` returned. -/
structure Sender where
  wire : List UInt8
  sent : List (List UInt8)

def Sender.step (s : Sender) (x : SendCall) : Sender where
  wire := s.wire ++ (x.perform lib).1
  sent := s.sent ++ if (x.perform lib).2 then
    ((sendMessage lib x.encoding x.message).map Frame.bytes).toList else []

/-- Both writes are taken in full, or the first not at all; a message too big makes none. -/
def SendCall.AllOrNothing (x : SendCall) : Prop :=
  ∀ f, sendMessage lib x.encoding x.message = some f →
    (x.first = .full ∧ x.second = .full) ∨ x.first.taken f.first = []

theorem sendMessage_first_ne_nil (h : sendMessage lib enc m = some f) : f.first ≠ [] := by
  cases enc with
  | json =>
    obtain ⟨_, rfl⟩ := sendMessage_json h
    exact lib.dump_ne_nil _
  | jsonCbor =>
    cases h
    exact encodeUnsigned_ne_nil _

theorem sendMessage_second_ne_nil (h : sendMessage lib enc m = some f) : f.second ≠ [] := by
  cases enc with
  | json =>
    obtain ⟨_, rfl⟩ := sendMessage_json h
    exact cons_ne_nil _ _
  | jsonCbor =>
    cases h
    exact lib.toCbor_ne_nil _

theorem SendCall.perform_returned (h : (x.perform lib).2 = true) :
    ∃ f, sendMessage lib x.encoding x.message = some f ∧ (x.perform lib).1 = f.bytes ∧
      x.AllOrNothing lib := by
  unfold perform at h ⊢
  cases hf : sendMessage lib x.encoding x.message with
  | none => rw [hf] at h; cases h
  | some f =>
    refine ⟨f, rfl, ?_⟩
    rw [hf] at h
    by_cases h1 : x.first = .full
    · by_cases h2 : x.second = .full
      · refine ⟨?_, fun _ _ => .inl ⟨h1, h2⟩⟩
        simp [sendData, h1, h2, WriteResult.taken, Frame.bytes]
      · simp [sendData, h1, h2] at h
    · simp [sendData, h1] at h

/-- A call that throws has put nothing on the wire exactly if it is all or
nothing. -/
theorem SendCall.perform_threw (h : (x.perform lib).2 = false) :
    (x.perform lib).1 = [] ↔ x.AllOrNothing lib := by
  unfold perform at h ⊢
  unfold AllOrNothing
  cases hf : sendMessage lib x.encoding x.message with
  | none => simp
  | some f =>
    have hne := sendMessage_first_ne_nil lib hf
    rw [hf] at h
    by_cases h1 : x.first = .full
    · by_cases h2 : x.second = .full
      · simp [sendData, h1, h2] at h
      · simp [sendData, h1, h2, WriteResult.taken, hne]
    · simp [sendData, h1]

/-- What one call does: it returns, and its frame is on the wire, or it throws,
and nothing is on the wire exactly if the call is all or nothing. -/
theorem Sender.step_cases (s : Sender) (x : SendCall) :
    (∃ b, s.step lib x = ⟨s.wire ++ b, s.sent ++ [b]⟩ ∧ x.AllOrNothing lib) ∨
      ∃ b, s.step lib x = ⟨s.wire ++ b, s.sent⟩ ∧ (b = [] ↔ x.AllOrNothing lib) := by
  cases hret : (x.perform lib).2 with
  | true =>
    obtain ⟨f, hf, hbytes, hall⟩ := SendCall.perform_returned lib hret
    exact .inl ⟨f.bytes, by simp [step, hret, hf, hbytes], hall⟩
  | false => exact .inr ⟨_, by simp [step, hret], SendCall.perform_threw lib hret⟩

/-- The wire is whole frames of the messages sent. -/
def Sender.Whole (s : Sender) : Prop := s.wire = s.sent.flatten

/-- The wire has more bytes than the messages sent. -/
def Sender.Torn (s : Sender) : Prop := s.sent.flatten.length < s.wire.length

variable {s : Sender}

theorem Sender.Whole.step (hs : s.Whole) (hx : x.AllOrNothing lib) : (s.step lib x).Whole := by
  rcases s.step_cases lib x with ⟨b, heq, _⟩ | ⟨b, heq, hb⟩
  · rw [heq, Whole, hs, flatten_append, flatten_singleton]
  · rw [heq, Whole, hs, hb.mpr hx, append_nil]

/-- Bytes that belong to no message sent stay on the wire. -/
theorem Sender.Torn.step (hs : s.Torn) (x : SendCall) : (s.step lib x).Torn := by
  unfold Torn at hs ⊢
  rcases s.step_cases lib x with ⟨b, heq, _⟩ | ⟨b, heq, _⟩
  · simp only [heq, flatten_append, flatten_singleton, length_append]
    omega
  · simp only [heq, length_append]
    omega

theorem Sender.Whole.step_torn (hs : s.Whole) (hx : ¬x.AllOrNothing lib) : (s.step lib x).Torn := by
  rcases s.step_cases lib x with ⟨_, _, hall⟩ | ⟨b, heq, hb⟩
  · exact absurd hall hx
  · have hpos := length_pos_iff.mpr (fun hnil => hx (hb.mp hnil))
    simp only [heq, Torn, length_append, show s.wire = s.sent.flatten from hs]
    omega

theorem Sender.Whole.run {calls : List SendCall} (hs : s.Whole)
    (h : (calls.foldl (Sender.step lib) s).Whole) : ∀ x ∈ calls, x.AllOrNothing lib := by
  induction calls generalizing s with
  | nil => simp
  | cons x calls ih =>
    have hx : x.AllOrNothing lib := by
      by_contra hx
      -- the torn bytes are still there at the end
      have hend := Runs.invariant_all Sender.Torn (fun _ y hy => hy.step lib y)
        (hs.step_torn lib hx) calls
      exact absurd (congrArg length h) (ne_of_gt hend)
    intro y hy
    rcases mem_cons.mp hy with rfl | hy
    · exact hx
    · exact ih (hs.step lib hx) h y hy

/-- **The wire is whole frames of the messages sent exactly if every failing call
wrote nothing.** -/
theorem wire_eq_frames_iff (calls : List SendCall) :
    let s := calls.foldl (Sender.step lib) ⟨[], []⟩
    s.wire = s.sent.flatten ↔ ∀ x ∈ calls, x.AllOrNothing lib := by
  constructor
  · exact Sender.Whole.run lib (s := ⟨[], []⟩) rfl
  · intro hall
    have hstart : Sender.Whole ⟨[], []⟩ := rfl
    exact Runs.invariant Sender.Whole (fun _ _ hs hx => hs.step lib hx) hstart
      (Runs.along_of_forall hall _)

/-- The text of the request fits the socket's buffer, its newline does not. -/
theorem wire_torn :
    let s := [SendCall.mk .json sampleRequest .full .wouldBlock].foldl (Sender.step sampleLibrary)
      ⟨[], []⟩
    s.sent = [] ∧ s.wire = sampleLibrary.dump (jsonEnvelope sampleRequest) ∧
      s.wire ≠ s.sent.flatten := by
  decide

/-! ## From one end to the other -/

def accepted (enc : Encoding) (msgs : List Message) : List Message :=
  msgs.filter fun m => (sendMessage lib enc m).isSome

def acceptedFrames (enc : Encoding) (msgs : List Message) : List (List UInt8) :=
  msgs.filterMap fun m => (sendMessage lib enc m).map Frame.bytes

theorem mem_acceptedFrames {f : List UInt8} :
    f ∈ acceptedFrames lib enc msgs ↔
      ∃ m ∈ msgs, ∃ g, sendMessage lib enc m = some g ∧ g.bytes = f := by
  simp [acceptedFrames]

theorem acceptedFrames_append (h : sendMessage lib enc m = some f) :
    acceptedFrames lib enc (msgs ++ [m]) = acceptedFrames lib enc msgs ++ [f.bytes] := by
  simp [acceptedFrames, filterMap_append, h]

theorem handleAll_acceptedFrames {σ : Type} (onMessage : σ → Message → σ)
    (onError : σ → ReadError → σ) (hlib : ∀ m ∈ msgs, lib.ReadsBack m) (x : σ) :
    handleAll lib (.steady onMessage onError) enc x (acceptedFrames lib enc msgs) =
      (accepted lib enc msgs).foldl onMessage x := by
  induction msgs generalizing x with
  | nil => rfl
  | cons m msgs ih =>
    have hrest := ih (fun m' hm' => hlib m' (by simp [hm']))
    cases hsend : sendMessage lib enc m with
    | none => simpa [acceptedFrames, accepted, hsend] using hrest x
    | some f =>
      have hone :
          (onFrame lib (.steady onMessage onError) enc x f.bytes).state = onMessage x m := by
        rw [onFrame, readMessage_frame (hlib m (by simp)) hsend]
        rfl
      simpa [acceptedFrames, accepted, hsend, handleAll, hone] using hrest (onMessage x m)

theorem json_frame_length (h : sendMessage lib .json m = some f) :
    f.bytes.length ≤ maxBufferSize := by
  obtain ⟨hfits, rfl⟩ := sendMessage_json h
  rw [Frame.bytes, length_append, length_singleton]
  exact hfits

/-- No message in CBOR is larger than the largest buffer. -/
def CborFits (msgs : List Message) : Prop :=
  ∀ m ∈ msgs, ∀ f, sendMessage lib .jsonCbor m = some f → f.bytes.length ≤ maxBufferSize

theorem acceptedFrames_fit (h : enc = .json ∨ CborFits lib msgs) :
    ∀ f ∈ acceptedFrames lib enc msgs, IsWireFrame enc f ∧ f.length ≤ maxBufferSize := by
  intro f hf
  obtain ⟨m, hm, g, hg, rfl⟩ := (mem_acceptedFrames lib).mp hf
  refine ⟨isWireFrame_of_sendMessage lib hg, ?_⟩
  cases enc with
  | json => exact json_frame_length lib hg
  | jsonCbor =>
    rcases h with h | h
    · cases h
    · exact h m hm g hg

/-- **Everything `send_message` accepts is received exactly if no CBOR message is larger than the
receiver's buffer.** -/
theorem delivered_iff {σ : Type} (onMessage : σ → Message → σ) (onError : σ → ReadError → σ)
    (c : Connection) (s : σ) (hempty : c.window = []) (msgs : List Message) :
    (∀ calls, Chunking (acceptedFrames lib c.currentEncoding msgs).flatten calls →
        (receiveCalls lib (.steady onMessage onError) c s [] calls).1.handed =
          acceptedFrames lib c.currentEncoding msgs) ↔
      c.currentEncoding = .json ∨ CborFits lib msgs := by
  constructor
  · intro hall
    obtain ⟨calls, hcalls⟩ := chunking_whole (acceptedFrames lib c.currentEncoding msgs).flatten
    have hle := receiveCalls_handed_le lib (.steady onMessage onError) c s [] calls
    rw [hall calls hcalls] at hle
    cases henc : c.currentEncoding with
    | json => exact .inl rfl
    | jsonCbor =>
      right
      intro m hm f hf
      rw [henc] at hle
      exact hle f.bytes ((mem_acceptedFrames lib).mpr ⟨m, hm, f, hf, rfl⟩)
  · intro hfits calls hcalls
    exact (receive_steady lib onMessage onError s hempty (acceptedFrames_fit lib hfits) hcalls).1

theorem delivered_request :
    let c := Connection.fresh.setEncoding .jsonCbor
    ∀ calls, Chunking (acceptedFrames sampleLibrary .jsonCbor [sampleRequest]).flatten calls →
      (receiveCalls sampleLibrary recorder c [] [] calls).1.handed =
        acceptedFrames sampleLibrary .jsonCbor [sampleRequest] := by
  intro c
  refine (delivered_iff sampleLibrary _ _ c [] rfl [sampleRequest]).mpr (.inr ?_)
  intro m hm f hf
  cases hf
  have hlen : (encodeUnsigned 5).length ≤ 1 := encodeUnsigned_length_le 0 5 (by decide)
  rw [Frame.bytes, length_append]
  exact le_trans (Nat.add_le_add_right hlen 5) (by decide)

def longText : List UInt8 := List.replicate (512 * 1024) 97

def bigResponse : Message :=
  .response ⟨none, .string (String.ofList (List.replicate (512 * 1024) 'a'))⟩

def bigText : List UInt8 := ascii "\x7b\"result\":\"" ++ (longText ++ ascii "\"\x7d")

/-- `bigResponse` in CBOR: an array of null and of a string whose length takes
four bytes. -/
def bigCbor : List UInt8 := [0x82, 0xF6, 0x7A, 0x00, 0x08, 0x00, 0x00] ++ longText

theorem bigText_clean : ∀ b ∈ bigText, b ≠ 10 ∧ b ≠ 0 := by
  have hfront : ∀ b ∈ ascii "\x7b\"result\":\"", b ≠ 10 ∧ b ≠ 0 := clean_of_all (by decide)
  have hback : ∀ b ∈ ascii "\"\x7d", b ≠ 10 ∧ b ≠ 0 := clean_of_all (by decide)
  have hlong : (97 : UInt8) ≠ 10 ∧ (97 : UInt8) ≠ 0 := by decide
  intro b hb
  rcases mem_append.mp hb with hb | hb
  · exact hfront b hb
  · rcases mem_append.mp hb with hb | hb
    · rw [eq_of_mem_replicate hb]
      exact hlong
    · exact hback b hb

theorem bigCbor_length : bigCbor.length = 7 + 512 * 1024 := by
  rw [bigCbor, length_append, longText, length_replicate]
  rfl

def bigLibrary : JsonLibrary :=
  .fixed bigText bigCbor (jsonEnvelope bigResponse) (cborEnvelope bigResponse) bigText_clean
    (List.append_ne_nil_of_left_ne_nil (by decide) _)
    (List.append_ne_nil_of_left_ne_nil (by decide) _) (by rw [bigCbor_length]; decide)

/-- `send_message` takes it, and no receiver ever hands it on. -/
theorem bigResponse_not_delivered :
    ∃ f, sendMessage bigLibrary .jsonCbor bigResponse = some f ∧
      ∀ calls, (receiveCalls bigLibrary recorder (Connection.fresh.setEncoding .jsonCbor) [] []
        calls).1.handed ≠ [f.bytes] := by
  refine ⟨⟨encodeUnsigned bigCbor.length, bigCbor⟩, rfl, fun calls heq => ?_⟩
  have hle := receiveCalls_handed_le bigLibrary recorder (Connection.fresh.setEncoding .jsonCbor) []
    [] calls
  rw [heq] at hle
  have hbytes := hle _ (mem_singleton_self _)
  simp only [Frame.bytes, length_append, bigCbor_length, maxBufferSize] at hbytes
  omega

end SimpleIpc
