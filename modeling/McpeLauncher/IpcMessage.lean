import Mathlib

/-! # JSON values and messages

The part of `nlohmann::json` that simple-ipc uses, and its message types. The library is not in the
repository: its conversions are the fields of `JsonLibrary`, with the documented facts about their
output. -/
namespace SimpleIpc
open List

/-- `nlohmann::json`. Integers are one constructor, as they are compared by value; a double is its
bit pattern; an object is in key order. -/
inductive Json where
  | null
  | boolean (b : Bool)
  | integer (i : Int)
  | float (bits : BitVec 64)
  | string (s : String)
  | array (items : List Json)
  | object (members : List (String × Json))
  deriving Repr, Inhabited

/-- The ways `read_message` fails, by the `catch` clause of
`handle_data_available` that takes them. -/
inductive ReadError where
  /-- an `rpc_call_exception` with this code -/
  | rpcCall (code : Int32)
  /-- `nlohmann::json::parse_error` -/
  | parse
  /-- any other `nlohmann::json::exception` -/
  | json
  /-- any other `std::exception` -/
  | std
  deriving DecidableEq, Repr

namespace Json

/-- `std::map::operator[] =`: the members with `key` set to `v`. -/
def setMember (key : String) (v : Json) : List (String × Json) → List (String × Json)
  | [] => [(key, v)]
  | (k, w) :: rest =>
    if key < k then (key, v) :: (k, w) :: rest
    else if key = k then (key, v) :: rest
    else (k, w) :: setMember key v rest

theorem lookup_setMember_self (key : String) (v : Json) (ms : List (String × Json)) :
    (setMember key v ms).lookup key = some v := by
  induction ms with
  | nil => simp [setMember]
  | cons kw rest ih =>
    unfold setMember
    split
    · simp [lookup]
    · split
      · simp [lookup]
      · next hne => rw [lookup_cons, beq_false_of_ne hne, ih]

theorem lookup_setMember_ne {key key' : String} (h : key' ≠ key) (v : Json)
    (ms : List (String × Json)) : (setMember key v ms).lookup key' = ms.lookup key' := by
  induction ms with
  | nil => simp [setMember, lookup_cons, beq_false_of_ne h]
  | cons kw rest ih =>
    obtain ⟨k, w⟩ := kw
    unfold setMember
    split
    · rw [lookup_cons, beq_false_of_ne h]
    · split
      · next heq => subst heq; simp only [lookup_cons, beq_false_of_ne h]
      · simp only [lookup_cons, ih]

def find (key : String) : Json → Option Json
  | object ms => ms.lookup key
  | _ => none

def has (key : String) (j : Json) : Bool := (j.find key).isSome

def size : Json → Nat
  | null => 0
  | array items => items.length
  | object ms => ms.length
  | _ => 1

def isNumber : Json → Bool
  | integer _ => true
  | float _ => true
  | _ => false

/-- The non-const `operator[](key)`: a missing key and a null value give null; any other type is a
`type_error`. -/
def key (key : String) : Json → Except ReadError Json
  | object ms => .ok ((ms.lookup key).getD null)
  | null => .ok null
  | _ => .error .json

/-- The non-const `operator[](index)`, which fills an array with nulls up to
`i`. -/
def index (i : Nat) : Json → Except ReadError Json
  | array items => .ok (items.getD i null)
  | null => .ok null
  | _ => .error .json

/-- `at(key)`: an `out_of_range` exception for a missing key. -/
def member (key : String) : Json → Except ReadError Json
  | object ms => match ms.lookup key with
    | some v => .ok v
    | none => .error .json
  | _ => .error .json

def truncate (bits : BitVec 64) : Int :=
  let e := (bits.toNat >>> 52) % 2048
  let m := bits.toNat % 2 ^ 52 + 2 ^ 52
  let a := if e < 1023 then 0 else if 1075 ≤ e then m <<< (e - 1075) else m >>> (1075 - e)
  if bits.msb then -(a : Int) else a

def getString : Json → Except ReadError String
  | string s => .ok s
  | _ => .error .json

/-- What the conversion to an integer type starts from, before the cast to its width. -/
def getArithmetic : Json → Except ReadError Int
  | integer i => .ok i
  | float bits => .ok (truncate bits)
  | boolean b => .ok (if b then 1 else 0)
  | _ => .error .json

def getInt64 (j : Json) : Except ReadError Int64 := Int64.ofInt <$> j.getArithmetic

def getInt32 (j : Json) : Except ReadError Int32 := Int32.ofInt <$> j.getArithmetic

end Json

/-- The texts of `dump` are not empty and hold neither newline nor NUL; `parse` skips a newline
behind. The CBOR form has from 1 to `2 ^ 63 - 1` bytes. -/
structure JsonLibrary where
  dump : Json → List UInt8
  parse : List UInt8 → Except ReadError Json
  toCbor : Json → List UInt8
  fromCbor : List UInt8 → Except ReadError Json
  dump_clean : ∀ v, ∀ b ∈ dump v, b ≠ 10 ∧ b ≠ 0
  dump_ne_nil : ∀ v, dump v ≠ []
  parse_newline : ∀ t, parse (t ++ [10]) = parse t
  toCbor_ne_nil : ∀ v, toCbor v ≠ []
  toCbor_length : ∀ v, (toCbor v).length < 2 ^ 63

theorem clean_of_all {text : List UInt8} (h : text.all (fun b => b != 10 && b != 0) = true) :
    ∀ b ∈ text, b ≠ 10 ∧ b ≠ 0 := by
  intro b hb
  simpa using all_eq_true.mp h b hb

/-- A library for one value, `v` as JSON and `w` as CBOR, which it reads back where it is written
so. -/
def JsonLibrary.fixed (text cbor : List UInt8) (v w : Json)
    (htext : ∀ b ∈ text, b ≠ 10 ∧ b ≠ 0) (hne : text ≠ []) (hcbor : cbor ≠ [])
    (hlen : cbor.length < 2 ^ 63) : JsonLibrary where
  dump _ := text
  parse t := if t.rdropWhile (· = 10) = text then .ok v else .error .parse
  toCbor _ := cbor
  fromCbor b := if b = cbor then .ok w else .error .parse
  dump_clean _ := htext
  dump_ne_nil _ := hne
  parse_newline t := by rw [List.rdropWhile_concat_pos _ _ _ (by decide)]
  toCbor_ne_nil _ := hcbor
  toCbor_length _ := hlen

section
variable {text cbor : List UInt8} {v w : Json} (htext : ∀ b ∈ text, b ≠ 10 ∧ b ≠ 0)
  (hne : text ≠ []) (hcbor : cbor ≠ []) (hlen : cbor.length < 2 ^ 63)
include htext hne hcbor hlen

theorem JsonLibrary.fixed_parse :
    (fixed text cbor v w htext hne hcbor hlen).parse text = .ok v := by
  refine if_pos (rdropWhile_eq_self_iff.mpr fun hl hlast => ?_)
  exact (htext _ (getLast_mem hl)).1 (of_decide_eq_true hlast)

theorem JsonLibrary.fixed_parse_ne {t : List UInt8} (ht : t.rdropWhile (· = 10) ≠ text) :
    (fixed text cbor v w htext hne hcbor hlen).parse t = .error .parse :=
  if_neg ht

theorem JsonLibrary.fixed_fromCbor :
    (fixed text cbor v w htext hne hcbor hlen).fromCbor cbor = .ok w :=
  if_pos rfl

end

abbrev MessageId := Int64

abbrev RpcErrorCode := Int32

namespace RpcErrorCodes

def success : RpcErrorCode := 0
def parseError : RpcErrorCode := -32700
def invalidRequest : RpcErrorCode := -32600
def methodNotFound : RpcErrorCode := -32601
def invalidParams : RpcErrorCode := -32602
def internalError : RpcErrorCode := -32603
def connectionClosed : RpcErrorCode := -32000
def noHelloReply : RpcErrorCode := -32001

end RpcErrorCodes

/-- `rpc_message`; `messageId` is the `message_with_id` part, `none` for
`_has_id == false`. -/
structure RpcMessage where
  messageId : Option MessageId
  method : String
  data : Json

structure ResponseMessage where
  messageId : Option MessageId
  data : Json

structure ErrorMessage where
  messageId : Option MessageId
  errorCode : RpcErrorCode
  errorText : String
  data : Json

def idOrZero (messageId : Option MessageId) : MessageId := messageId.getD 0

/-- `message_container` once it is set. -/
inductive Message where
  | rpc (m : RpcMessage)
  | response (m : ResponseMessage)
  | error (m : ErrorMessage)

end SimpleIpc
