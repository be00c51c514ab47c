import McpeLauncher.FrameStream
import McpeLauncher.IpcMessage
import McpeLauncher.IpcVarint

/-! # The two encodings (`common/encoding`)

A message is JSON text and a newline, or the length and the bytes of a CBOR array. Its kind is
recovered from the keys, or from the number of elements and the type of the first
(`readMessage_sendMessage`). -/
namespace SimpleIpc
open List Json

/-- The encodings registered by `encodings::encodings()`. -/
inductive Encoding where
  | json
  | jsonCbor
  deriving DecidableEq, Repr

namespace Encoding

def name : Encoding → String
  | json => "json"
  | jsonCbor => "json_cbor"

def byName (s : String) : Option Encoding :=
  if s = "json" then some json else if s = "json_cbor" then some jsonCbor else none

def default : Encoding := json

def preferred : List String := ["json_cbor", "json"]

end Encoding

/-- `connection_internal::MAX_BUFFER_SIZE`, also `max_out_msg_size`. -/
def maxBufferSize : Nat := 1024 * 512

def idMember : Option MessageId → List (String × Json)
  | some id => Json.setMember "id" (.integer id.toInt) []
  | none => []

/-- `encoding::json::send_message`, up to `send_json`: the object it builds. -/
def jsonEnvelope : Message → Json
  | .rpc m => .object (Json.setMember "params" m.data
      (Json.setMember "method" (.string m.method) (idMember m.messageId)))
  | .response m => .object (Json.setMember "result" m.data (idMember m.messageId))
  | .error m =>
    let error := Json.setMember "data" m.data (Json.setMember "message" (.string m.errorText)
      (Json.setMember "code" (.integer m.errorCode.toInt) []))
    .object (Json.setMember "error" (.object error) (idMember m.messageId))

def getIdJson : Option MessageId → Json
  | some id => .integer id.toInt
  | none => .null

/-- The first element is a number or null, never a pair, so the initializer list makes an array. -/
def cborEnvelope : Message → Json
  | .rpc m => .array [getIdJson m.messageId, .string m.method, m.data]
  | .response m => .array [getIdJson m.messageId, m.data]
  | .error m =>
    .array [getIdJson m.messageId, .integer m.errorCode.toInt, .string m.errorText, m.data]

/-- What is written for a message: the arguments of the two `send_data` calls
`send_json` makes. -/
structure Frame where
  first : List UInt8
  second : List UInt8

def Frame.bytes (f : Frame) : List UInt8 := f.first ++ f.second

variable (lib : JsonLibrary) {enc : Encoding} {f : Frame} {t buf : List UInt8} {m : Message}

/-- With `none` for the "Message is too big" exception; only JSON checks the size. -/
def sendMessage : Encoding → Message → Option Frame
  | .json, m =>
    let buf := lib.dump (jsonEnvelope m)
    if buf.length + 1 > maxBufferSize then none else some ⟨buf, [10]⟩
  | .jsonCbor, m =>
    let buf := lib.toCbor (cborEnvelope m)
    some ⟨encodeUnsigned buf.length, buf⟩

theorem sendMessage_json {lib : JsonLibrary} (h : sendMessage lib .json m = some f) :
    (lib.dump (jsonEnvelope m)).length + 1 ≤ maxBufferSize ∧
      f = ⟨lib.dump (jsonEnvelope m), [10]⟩ := by
  simp only [sendMessage] at h
  split at h
  · cases h
  · next hfits => exact ⟨Nat.le_of_not_lt hfits, (Option.some.inj h).symm⟩

/-- The loop of `encoding::json::check_read_message_complete` from index `i`
on. -/
def scanEnd (i : Nat) : List UInt8 → Option Nat
  | [] => none
  | b :: rest => if b = 10 ∨ b = 0 then some (i + 1) else scanEnd (i + 1) rest

/-- With `none` for `-1`. The CBOR length and that of its own encoding are added as `size_t`. -/
def checkReadMessageComplete : Encoding → List UInt8 → Nat → Option Nat
  | .json, buf, lastReadOff => scanEnd lastReadOff (buf.drop lastReadOff)
  | .jsonCbor, buf, _ =>
    match tryDecodeUnsigned buf with
    | none => none
    | some (size, varintSize) =>
      let totalSize := (size.toNat + varintSize) % 2 ^ 64
      if buf.length ≥ totalSize then some totalSize else none

/-- The id argument of the message constructors: the value of `j` when it is a
number. -/
def readId : Option Json → Except ReadError (Option MessageId)
  | some j => if j.isNumber then some <$> j.getInt64 else .ok none
  | none => .ok none

def readJson (buf : List UInt8) : Except ReadError Message := do
  let data ← lib.parse buf
  let id ← readId (data.find "id")
  if data.has "method" then
    return .rpc ⟨id, ← (← data.key "method").getString, ← data.key "params"⟩
  else if data.has "error" then
    let error ← data.key "error"
    return .error ⟨id, ← (← error.key "code").getInt32, ← (← error.key "message").getString,
      ← error.key "data"⟩
  else if data.has "result" then
    return .response ⟨id, ← data.key "result"⟩
  else
    throw (.rpcCall RpcErrorCodes.invalidRequest)

/-- `encoding::json_cbor::read_message`; the bytes that are no varint are a
`std::runtime_error`. -/
def readCbor (buf : List UInt8) : Except ReadError Message := do
  match tryDecodeUnsigned buf with
  | none => throw .std
  | some (_, varintSize) =>
    let data ← lib.fromCbor (buf.drop varintSize)
    let id ← readId (some (← data.index 0))
    if data.size = 3 then
      return .rpc ⟨id, ← (← data.index 1).getString, ← data.index 2⟩
    else if data.size = 2 then
      return .response ⟨id, ← data.index 1⟩
    else
      return .error ⟨id, ← (← data.index 1).getInt32, ← (← data.index 2).getString,
        ← data.index 3⟩

def readMessage : Encoding → List UInt8 → Except ReadError Message
  | .json => readJson lib
  | .jsonCbor => readCbor lib

theorem scanEnd_append (h : ∀ b ∈ t, b ≠ 10 ∧ b ≠ 0) (i : Nat) (rest : List UInt8) :
    scanEnd i (t ++ rest) = scanEnd (i + t.length) rest := by
  induction t generalizing i with
  | nil => rfl
  | cons b t ih =>
    have hb := h b (by simp)
    rw [cons_append, scanEnd, if_neg (by simp [hb]),
      ih (fun c hc => h c (by simp [hc])) (i + 1), length_cons]
    congr 1
    omega

theorem scanEnd_clean (h : ∀ b ∈ t, b ≠ 10 ∧ b ≠ 0) (i : Nat) : scanEnd i t = none := by
  simpa [scanEnd] using scanEnd_append h i []

theorem clean_of_scanEnd {i : Nat} (h : scanEnd i t = none) : ∀ b ∈ t, b ≠ 10 ∧ b ≠ 0 := by
  induction t generalizing i with
  | nil => simp
  | cons c t ih =>
    rw [scanEnd] at h
    split at h
    · cases h
    · next hc =>
      intro b hb
      rcases mem_cons.mp hb with rfl | hb
      · simpa using hc
      · exact ih h b hb

/-- **Starting the scan after bytes already searched loses nothing.**  This is
what `last_read_off` relies on; the CBOR test ignores it. -/
theorem check_resume (enc : Encoding) {last : Nat}
    (h : checkReadMessageComplete enc (buf.take last) 0 = none) (hlast : last ≤ buf.length) :
    checkReadMessageComplete enc buf last = checkReadMessageComplete enc buf 0 := by
  cases enc with
  | jsonCbor => rfl
  | json =>
    have hclean := clean_of_scanEnd h
    have hsplit := scanEnd_append hclean 0 (buf.drop last)
    rw [drop_zero, take_append_drop, length_take, min_eq_left hlast] at hsplit
    simpa [checkReadMessageComplete] using hsplit.symm

theorem scanEnd_le {i c : Nat} (h : scanEnd i t = some c) : c ≤ i + t.length ∧ t ≠ [] := by
  induction t generalizing i with
  | nil => cases h
  | cons b t ih =>
    rw [scanEnd] at h
    simp only [length_cons]
    split at h
    · cases h
      exact ⟨by omega, by simp⟩
    · have := (ih h).1
      exact ⟨by omega, by simp⟩

theorem check_le (enc : Encoding) {last c : Nat}
    (h : checkReadMessageComplete enc buf last = some c) : c ≤ buf.length := by
  cases enc with
  | json =>
    obtain ⟨hle, hne⟩ := scanEnd_le h
    have hpos := length_pos_iff.mpr hne
    rw [length_drop] at hle hpos
    omega
  | jsonCbor =>
    simp only [checkReadMessageComplete] at h
    split at h
    · cases h
    · split at h
      · cases h; assumption
      · cases h

/-- A text without end bytes and its newline, or the length and the bytes of a payload. -/
def IsWireFrame : Encoding → List UInt8 → Prop
  | .json, f => ∃ t, (∀ b ∈ t, b ≠ 10 ∧ b ≠ 0) ∧ f = t ++ [10]
  | .jsonCbor, f => ∃ payload, f = encodeUnsigned payload.length ++ payload

/-- The test for a complete message on everything received since the last one. -/
def cut (enc : Encoding) (buf : List UInt8) : Option Nat := checkReadMessageComplete enc buf 0

theorem cut_nil (enc : Encoding) : cut enc [] = none := by cases enc <;> rfl

open FrameStream

theorem isFrame_text (h : ∀ b ∈ t, b ≠ 10 ∧ b ≠ 0) : IsFrame (cut .json) (t ++ [10]) where
  nonempty := by simp
  whole rest := by
    show scanEnd 0 _ = _
    rw [drop_zero, append_assoc, scanEnd_append h]
    simp [scanEnd]
  short p q hpq hq := by
    refine scanEnd_clean (t := p.drop 0) ?_ 0
    intro b hb
    have hp : p <+: t := by
      rcases append_eq_append_iff.mp hpq with ⟨x, hx, hnl⟩ | ⟨x, hx, _⟩
      · cases x with
        | nil => exact ⟨[], by simpa using hx⟩
        | cons c x =>
          have := (append_eq_nil_iff.mp (cons.inj hnl).2.symm).2
          exact absurd this hq
      · exact ⟨x, hx.symm⟩
    exact h b (hp.subset (by simpa using hb))

theorem check_cbor {n : Nat} (h : n < 2 ^ 31) (x : List UInt8) (last : Nat) :
    checkReadMessageComplete .jsonCbor (encodeUnsigned n ++ x) last =
      if n ≤ x.length then some ((encodeUnsigned n).length + n) else none := by
  have hlen := encodeUnsigned_length_le 4 n (by omega)
  have hsize : (BitVec.ofNat 64 n).toNat = n := by
    rw [BitVec.toNat_ofNat, Nat.mod_eq_of_lt (by omega)]
  simp only [checkReadMessageComplete, tryDecodeUnsigned_encode h, hsize, length_append]
  rw [Nat.mod_eq_of_lt (by omega)]
  by_cases hx : n ≤ x.length
  · rw [if_pos (by omega), if_pos hx, add_comm]
  · rw [if_neg (by omega), if_neg hx]

theorem isFrame_cbor {payload : List UInt8} (h : payload.length < 2 ^ 31) :
    IsFrame (cut .jsonCbor) (encodeUnsigned payload.length ++ payload) where
  nonempty := by simp [encodeUnsigned_ne_nil]
  whole rest := by rw [cut, append_assoc, check_cbor h, if_pos (by simp), length_append]
  short p q hpq hq := by
    have hpos : 0 < q.length := length_pos_iff.mpr hq
    rcases append_eq_append_iff.mp hpq with ⟨x, rfl, hpay⟩ | ⟨x, hx, hpay⟩
    · -- the length is complete, the payload is not
      have := congrArg length hpay
      rw [length_append] at this
      rw [cut, check_cbor h, if_neg (by omega)]
    · cases x with
      | cons c x =>
        have hnone := tryDecodeUnsigned_short hx (cons_ne_nil c x)
        simp only [cut, checkReadMessageComplete, hnone]
      | nil =>
        -- exactly the length has come
        have := check_cbor h [] 0
        rw [hx, append_nil, append_nil] at this
        rw [cut, this, if_neg]
        rw [nil_append] at hpay
        simpa [← hpay] using hq

/-- **What a peer writes is a frame for the receiver's test**, unless it is a
CBOR message that no buffer could hold. -/
theorem IsWireFrame.isFrame {f : List UInt8} (h : IsWireFrame enc f) (hlen : f.length < 2 ^ 31) :
    IsFrame (cut enc) f := by
  cases enc with
  | json =>
    obtain ⟨t, hclean, rfl⟩ := h
    exact isFrame_text hclean
  | jsonCbor =>
    obtain ⟨payload, rfl⟩ := h
    rw [length_append] at hlen
    exact isFrame_cbor (by omega)

theorem isWireFrame_of_sendMessage (h : sendMessage lib enc m = some f) :
    IsWireFrame enc f.bytes := by
  cases enc with
  | json =>
    obtain ⟨_, rfl⟩ := sendMessage_json h
    exact ⟨_, lib.dump_clean _, rfl⟩
  | jsonCbor =>
    cases h
    exact ⟨_, rfl⟩

/-! ## Round trip -/

theorem readId_find (id : Option MessageId) : readId ((idMember id).lookup "id") = .ok id := by
  cases id with
  | none => rfl
  | some i => simp [idMember, setMember, readId, isNumber, getInt64,
      getArithmetic, Functor.map, Except.map, Int64.ofInt_toInt]

theorem readId_getIdJson (id : Option MessageId) : readId (some (getIdJson id)) = .ok id := by
  cases id with
  | none => rfl
  | some i => simp [getIdJson, readId, isNumber, getInt64, getArithmetic,
      Functor.map, Except.map, Int64.ofInt_toInt]

/-- The id takes no key that tells the kinds apart. -/
theorem idMember_lookup {key : String} (h : key ≠ "id") (id : Option MessageId) :
    (idMember id).lookup key = none := by
  cases id with
  | none => rfl
  | some i => rw [idMember, lookup_setMember_ne h]; rfl

theorem readJson_jsonEnvelope (m : Message) (buf : List UInt8)
    (h : lib.parse buf = .ok (jsonEnvelope m)) : readJson lib buf = .ok m := by
  unfold readJson
  cases m with
  | rpc m =>
    simp [h, jsonEnvelope, find, has, key, getString,
      lookup_setMember_self, lookup_setMember_ne, readId_find, bind, Except.bind, pure,
      Except.pure]
  | response m =>
    simp [h, jsonEnvelope, find, has, key,
      lookup_setMember_self, lookup_setMember_ne, readId_find, idMember_lookup, bind,
      Except.bind, pure, Except.pure]
  | error m =>
    simp [h, jsonEnvelope, find, has, key, getString, getInt32,
      getArithmetic, lookup_setMember_self, lookup_setMember_ne, readId_find,
      idMember_lookup, bind, Except.bind, pure, Except.pure, Functor.map, Except.map,
      Int32.ofInt_toInt]

theorem readCbor_cborEnvelope (m : Message) (buf payload : List UInt8) (x : BitVec 64)
    (n : Nat) (hdec : tryDecodeUnsigned buf = some (x, n)) (hpay : buf.drop n = payload)
    (h : lib.fromCbor payload = .ok (cborEnvelope m)) : readCbor lib buf = .ok m := by
  unfold readCbor
  cases m with
  | rpc m =>
    simp [hdec, hpay, h, cborEnvelope, index, size, getString, readId_getIdJson,
      bind, Except.bind, pure, Except.pure]
  | response m =>
    simp [hdec, hpay, h, cborEnvelope, index, size, readId_getIdJson, bind,
      Except.bind, pure, Except.pure]
  | error m =>
    simp [hdec, hpay, h, cborEnvelope, index, size, getString, getInt32,
      getArithmetic, readId_getIdJson, bind, Except.bind, pure, Except.pure, Functor.map,
      Except.map, Int32.ofInt_toInt]

/-- The library reads back what it writes for `m`, in both its formats. -/
structure JsonLibrary.ReadsBack (m : Message) : Prop where
  text : lib.parse (lib.dump (jsonEnvelope m)) = .ok (jsonEnvelope m)
  cbor : lib.fromCbor (lib.toCbor (cborEnvelope m)) = .ok (cborEnvelope m)

theorem readMessage_frame {lib : JsonLibrary} (hlib : lib.ReadsBack m)
    (hsend : sendMessage lib enc m = some f) : readMessage lib enc f.bytes = .ok m := by
  cases enc with
  | json =>
    obtain ⟨_, rfl⟩ := sendMessage_json hsend
    refine readJson_jsonEnvelope lib m _ ?_
    rw [Frame.bytes, lib.parse_newline, hlib.text]
  | jsonCbor =>
    cases hsend
    obtain ⟨x, hx⟩ := tryDecodeUnsigned_length (lib.toCbor_length (cborEnvelope m))
      (lib.toCbor (cborEnvelope m))
    exact readCbor_cborEnvelope lib m _ _ x _ hx drop_left hlib.cbor

/-- **A message is read back as it was sent**, in either encoding, so what is read does not depend
on the encoding. -/
theorem readMessage_sendMessage (m : Message) (hlib : lib.ReadsBack m) :
    (∀ enc f, sendMessage lib enc m = some f → readMessage lib enc f.bytes = .ok m) ∧
      ∀ enc enc' f f', sendMessage lib enc m = some f → sendMessage lib enc' m = some f' →
        readMessage lib enc f.bytes = readMessage lib enc' f'.bytes := by
  refine ⟨fun enc f hf => readMessage_frame hlib hf, fun enc enc' f f' hf hf' => ?_⟩
  rw [readMessage_frame hlib hf, readMessage_frame hlib hf']

def sampleRequest : Message := .rpc ⟨some 1, "a", .null⟩

def ascii (s : String) : List UInt8 := s.toList.map fun c => UInt8.ofNat c.toNat

def sampleLibrary : JsonLibrary :=
  .fixed (ascii "\x7b\"id\":1,\"method\":\"a\",\"params\":null\x7d") [0x83, 0x01, 0x61, 0x61, 0xF6]
    (jsonEnvelope sampleRequest) (cborEnvelope sampleRequest) (clean_of_all (by decide)) (by decide)
    (by decide) (by decide)

theorem sampleLibrary_readsBack : sampleLibrary.ReadsBack sampleRequest where
  text := JsonLibrary.fixed_parse _ _ _ _
  cbor := JsonLibrary.fixed_fromCbor _ _ _ _

theorem sendMessage_sample_json : sendMessage sampleLibrary .json sampleRequest =
    some ⟨sampleLibrary.dump (jsonEnvelope sampleRequest), [10]⟩ := by
  simp only [sendMessage]
  exact if_neg (by decide)

theorem readMessage_sendMessage_request :
    (∃ f, sendMessage sampleLibrary .json sampleRequest = some f ∧
      readMessage sampleLibrary .json f.bytes = .ok sampleRequest) ∧
    ∃ f, sendMessage sampleLibrary .jsonCbor sampleRequest = some f ∧
      readMessage sampleLibrary .jsonCbor f.bytes = .ok sampleRequest := by
  obtain ⟨hread, _⟩ := readMessage_sendMessage sampleLibrary sampleRequest sampleLibrary_readsBack
  exact ⟨⟨_, sendMessage_sample_json, hread _ _ sendMessage_sample_json⟩, ⟨_, rfl, hread _ _ rfl⟩⟩

end SimpleIpc
