import McpeLauncher.IpcEncoding
import McpeLauncher.Pending
import McpeLauncher.Runs

/-! # The RPC client (`service_client`, `rpc_json_call`)

A call registers its callback under a fresh id and sends the request, or gets an error while the
hello message is not answered. Replies find their callback by id, and a closing connection answers
all that are left (`ClientRun.table_step`). -/
namespace SimpleIpc
open List Pending

def RpcErrorCodes.toString (code : RpcErrorCode) : String :=
  if code = success then ""
  else if code = parseError then "Parse error"
  else if code = invalidRequest then "Invalid request"
  else if code = methodNotFound then "Method not found"
  else if code = invalidParams then "Invalid method parameters"
  else if code = internalError then "Internal server error"
  else if code = connectionClosed then "Connection was closed unexpectedly"
  else "Unknown error"

structure RpcResult where
  errorCode : RpcErrorCode
  errorText : String
  errorData : Json
  data : Json

def RpcResult.response (data : Json) : RpcResult := ⟨RpcErrorCodes.success, "", .null, data⟩

def RpcResult.error (code : RpcErrorCode) (text : String) (data : Json) : RpcResult :=
  ⟨code, text, data, .null⟩

/-- The number of its registration, and whether it is the one of `send_hello_message`. -/
structure Callback where
  token : Nat
  hello : Bool
  deriving DecidableEq, Repr

/-- `connection` is `none` without a connection, and `some none` for a null encoding. -/
structure Client where
  nextMessageId : MessageId
  cbs : List (MessageId × Callback)
  helloResponseValue : Bool
  connection : Option (Option Encoding)

/-- A callback taken out of `cbs` and called, with the id it was found under. -/
structure Invoked where
  key : MessageId
  callback : Callback
  result : RpcResult

/-- The callbacks an operation calls, and the message it sends. -/
structure Outcome where
  client : Client
  invoked : List Invoked
  sent : Option RpcMessage

variable {id : MessageId}

namespace Client

def start : Client := ⟨0, [], false, none⟩

def addRpcCb (c : Client) (msg : MessageId) (cb : Callback) : Client :=
  { c with cbs := (msg, cb) :: c.cbs.filter fun p => p.1 ≠ msg }

/-- `get_rpc_cb`, which erases the entry it returns. -/
def getRpcCb (c : Client) (msg : MessageId) : Option Callback × Client :=
  (c.cbs.lookup msg, { c with cbs := c.cbs.filter fun p => p.1 ≠ msg })

/-- A successful reply without an encoding is an exception, which leaves all as it was. -/
def helloCallback (c : Client) (res : RpcResult) : Client :=
  if res.errorCode = RpcErrorCodes.success then
    match res.data.member "encoding" >>= Json.getString with
    | .ok enc =>
      { c with
        connection := c.connection.map fun _ => Encoding.byName enc
        helloResponseValue := true }
    | .error _ => c
  else { c with helloResponseValue := true }

def invoke (c : Client) (cb : Callback) (res : RpcResult) : Client :=
  if cb.hello then c.helloCallback res else c

def resolve (c : Client) (msg : MessageId) (res : RpcResult) : Outcome :=
  match c.getRpcCb msg with
  | (some cb, c) => ⟨c.invoke cb res, [⟨msg, cb, res⟩], none⟩
  | (none, c) => ⟨c, [], none⟩

/-- The error a request gets that comes before the hello reply. -/
def noHelloReply : RpcResult :=
  .error RpcErrorCodes.noHelloReply "Haven't got hello reply yet" .null

def refuses (c : Client) (method : String) : Bool := !c.helloResponseValue && method != ".hello"

def sendMessage (c : Client) (msg : RpcMessage) : Outcome :=
  if c.refuses msg.method then c.resolve (idOrZero msg.messageId) noHelloReply
  else ⟨c, [], some msg⟩

def call (c : Client) (cb : Callback) (method : String) (data : Json) : Outcome :=
  let msgId := c.nextMessageId
  ({ c with nextMessageId := msgId + 1 }.addRpcCb msgId cb).sendMessage ⟨some msgId, method, data⟩

def run (c : Client) (method : String) (data : Json) : Outcome := c.sendMessage ⟨none, method, data⟩

def helloData : Json :=
  .object (Json.setMember "encodings" (.array (Encoding.preferred.map .string))
    (Json.setMember "version" (.integer 1) []))

def helloRequest (id : MessageId) : RpcMessage := ⟨some id, ".hello", helloData⟩

def sendHelloMessage (c : Client) (token : Nat) : Outcome := c.call ⟨token, true⟩ ".hello" helloData

def handleResponse (c : Client) (msg : ResponseMessage) : Outcome :=
  match msg.messageId with
  | none => ⟨c, [], none⟩
  | some id => c.resolve id (.response msg.data)

def handleError (c : Client) (msg : ErrorMessage) : Outcome :=
  match msg.messageId with
  | none => ⟨c, [], none⟩
  | some id => c.resolve id (.error msg.errorCode msg.errorText msg.data)

/-- The error every callback gets that is left when the connection closes. -/
def closedResult : RpcResult :=
  .error RpcErrorCodes.connectionClosed
    (RpcErrorCodes.toString RpcErrorCodes.connectionClosed) .null

/-- `base_service_client_impl::connection_closed` and
`service_client::connection_closed`. -/
def connectionClosed (c : Client) : Outcome :=
  let c' := { c with connection := none, helloResponseValue := false, cbs := [] }
  ⟨c.cbs.foldl (fun c p => c.invoke p.2 closedResult) c',
    c.cbs.map fun p => ⟨p.1, p.2, closedResult⟩, none⟩

/-- A connection of the default encoding, and `connection_opened`. -/
def connectionOpened (c : Client) (token : Nat) : Outcome :=
  { c with connection := some (some .default) }.sendHelloMessage token

/-! ### What the operations change -/

theorem invoke_cbs (c : Client) (cb : Callback) (res : RpcResult) :
    (c.invoke cb res).cbs = c.cbs := by
  unfold invoke helloCallback
  repeat' split
  all_goals rfl

theorem foldl_invoke_cbs (cbs : List (MessageId × Callback)) (c : Client) (res : RpcResult) :
    (cbs.foldl (fun c p => c.invoke p.2 res) c).cbs = c.cbs := by
  induction cbs generalizing c with
  | nil => rfl
  | cons p cbs ih => rw [foldl_cons, ih, invoke_cbs]

theorem resolve_cbs (c : Client) (id : MessageId) (res : RpcResult) :
    (c.resolve id res).client.cbs = c.cbs.filter fun p => p.1 ≠ id := by
  unfold resolve getRpcCb
  cases c.cbs.lookup id with
  | none => rfl
  | some cb => exact invoke_cbs _ _ _

variable {c : Client} {msg : RpcMessage} {res : RpcResult}

theorem invoke_connection {cb : Callback}
    (h : cb.hello = true → res.errorCode ≠ RpcErrorCodes.success) :
    (c.invoke cb res).connection = c.connection := by
  unfold invoke
  split
  · next hh =>
    unfold helloCallback
    rw [if_neg (h hh)]
  · rfl

theorem resolve_connection
    (h : ∀ cb, (id, cb) ∈ c.cbs → cb.hello = true → res.errorCode ≠ RpcErrorCodes.success) :
    (c.resolve id res).client.connection = c.connection := by
  unfold resolve getRpcCb
  cases hcb : c.cbs.lookup id with
  | none => rfl
  | some cb => exact invoke_connection (h cb (mem_of_lookup hcb))

theorem resolve_sent (c : Client) (id : MessageId) (res : RpcResult) :
    (c.resolve id res).sent = none := by
  unfold resolve
  split <;> rfl

theorem sendMessage_sent {msg' : RpcMessage} (h : (c.sendMessage msg).sent = some msg') :
    c.refuses msg.method = false ∧ c.sendMessage msg = ⟨c, [], some msg⟩ := by
  unfold sendMessage at h ⊢
  split at h
  · rw [resolve_sent] at h
    cases h
  · next hno => exact ⟨by simpa using hno, if_neg hno⟩

theorem sendMessage_connection (c : Client) (msg : RpcMessage) :
    (c.sendMessage msg).client.connection = c.connection := by
  unfold sendMessage
  split
  · exact resolve_connection fun _ _ _ => by decide
  · rfl

theorem sendMessage_cbs : ∀ q ∈ (c.sendMessage msg).client.cbs, q ∈ c.cbs := by
  unfold sendMessage
  split
  · rw [resolve_cbs]
    exact fun q hq => mem_of_mem_filter hq
  · exact fun q hq => hq

theorem sendHelloMessage_eq (c : Client) (token : Nat) :
    c.sendHelloMessage token =
      ⟨{ c with nextMessageId := c.nextMessageId + 1 }.addRpcCb c.nextMessageId ⟨token, true⟩, [],
        some (helloRequest c.nextMessageId)⟩ := by
  have hpass : ∀ c : Client, ¬c.refuses ".hello" = true := fun c => by simp [refuses]
  exact if_neg (hpass _)

theorem connectionClosed_connection (c : Client) : c.connectionClosed.client.connection = none := by
  have hfold : ∀ (cbs : List (MessageId × Callback)) (c : Client),
      (cbs.foldl (fun c p => c.invoke p.2 closedResult) c).connection = c.connection := by
    intro cbs
    induction cbs with
    | nil => exact fun _ => rfl
    | cons p cbs ih =>
      intro c
      rw [foldl_cons, ih, invoke_connection fun _ => by decide]
  exact hfold c.cbs _

end Client

/-- What reaches a client: its user's calls, and the connection's messages and
changes of state. -/
inductive ClientEvent where
  | call (method : String) (data : Json)
  | run (method : String) (data : Json)
  | hello
  | opened
  | response (msg : ResponseMessage)
  | error (msg : ErrorMessage)
  | closed

inductive Cause where
  /-- a response or error with this id -/
  | answer (id : Option MessageId)
  | closed
  /-- the call with this registration was refused -/
  | refusedCall (token : Nat)
  /-- a `run` was refused -/
  | refusedRun
  deriving DecidableEq, Repr

/-- A client, the id each callback was registered for, and the callbacks called so far. -/
structure ClientRun where
  client : Client
  registered : List MessageId
  invoked : List (Pending.Taken MessageId Cause)

namespace ClientRun

def start : ClientRun := ⟨.start, [], []⟩

def record (s : ClientRun) (registered : List MessageId) (cause : Cause) (o : Outcome) :
    ClientRun where
  client := o.client
  registered := registered
  invoked := s.invoked ++ o.invoked.map fun i => ⟨i.callback.token, i.key, cause⟩

def step (s : ClientRun) : ClientEvent → ClientRun
  | .call method data => s.record (s.registered ++ [s.client.nextMessageId])
      (.refusedCall s.registered.length) (s.client.call ⟨s.registered.length, false⟩ method data)
  | .run method data => s.record s.registered .refusedRun (s.client.run method data)
  | .hello => s.record (s.registered ++ [s.client.nextMessageId])
      (.refusedCall s.registered.length) (s.client.sendHelloMessage s.registered.length)
  | .opened => s.record (s.registered ++ [s.client.nextMessageId])
      (.refusedCall s.registered.length) (s.client.connectionOpened s.registered.length)
  | .response msg => s.record s.registered (.answer msg.messageId) (s.client.handleResponse msg)
  | .error msg => s.record s.registered (.answer msg.messageId) (s.client.handleError msg)
  | .closed => s.record s.registered .closed s.client.connectionClosed

def table (s : ClientRun) : Pending.Table MessageId Cause :=
  ⟨s.client.cbs.map fun p => (p.1, p.2.token), s.registered, s.invoked⟩

/-! ### The operations on the table -/

theorem lookup_tokens (cbs : List (MessageId × Callback)) (k : MessageId) :
    (cbs.map fun p => (p.1, p.2.token)).lookup k = (cbs.lookup k).map Callback.token := by
  induction cbs with
  | nil => rfl
  | cons p cbs ih =>
    obtain ⟨k', cb⟩ := p
    simp only [map_cons, lookup_cons, ih]
    split <;> rfl

theorem filter_tokens (cbs : List (MessageId × Callback)) (k : MessageId) :
    (cbs.filter fun p => p.1 ≠ k).map (fun p => (p.1, p.2.token)) =
      (cbs.map fun p => (p.1, p.2.token)).filter fun p => p.1 ≠ k := by
  rw [filter_map]
  rfl

open Client

variable (s : ClientRun)

theorem table_resolve (id : MessageId) (res : RpcResult) (cause : Cause) :
    (s.record s.registered cause (s.client.resolve id res)).table = s.table.resolve id cause := by
  unfold table Table.resolve record Client.resolve getRpcCb
  rw [lookup_tokens, ← filter_tokens]
  cases s.client.cbs.lookup id with
  | none => rfl
  | some cb => simp only [invoke_cbs, map_cons, map_nil, Option.map_some, Option.toList_some]

theorem table_register (c : Client) (hc : c.cbs = s.client.cbs) (id : MessageId)
    (hello : Bool) :
    (ClientRun.mk (c.addRpcCb id ⟨s.registered.length, hello⟩) (s.registered ++ [id])
      s.invoked).table = s.table.register id := by
  unfold table Table.register addRpcCb
  rw [hc, map_cons, filter_tokens]

theorem table_sendMessage (msg : RpcMessage) (cause : Cause) :
    (s.record s.registered cause (s.client.sendMessage msg)).table =
      if s.client.refuses msg.method then s.table.resolve (idOrZero msg.messageId) cause
      else s.table := by
  unfold Client.sendMessage
  split
  · exact table_resolve s _ _ _
  · simp [record, table]

/-- A call registers its callback, and when it is refused takes it again. -/
theorem table_call (c : Client) (hc : c.cbs = s.client.cbs) (hello : Bool)
    (method : String) (data : Json) (cause : Cause) :
    (s.record (s.registered ++ [c.nextMessageId]) cause
        (c.call ⟨s.registered.length, hello⟩ method data)).table =
      if c.refuses method then
        (s.table.register c.nextMessageId).resolve c.nextMessageId cause
      else s.table.register c.nextMessageId := by
  rw [← table_register s { c with nextMessageId := c.nextMessageId + 1 } hc _ hello]
  exact table_sendMessage ⟨_, s.registered ++ [c.nextMessageId], s.invoked⟩
    ⟨some c.nextMessageId, method, data⟩ cause

theorem table_closed : (s.step .closed).table = s.table.drain .closed := by
  simp only [step, record, table, connectionClosed, foldl_invoke_cbs,
    Table.drain, map_map, map_nil]
  rfl

def answered (t : Pending.Table MessageId Cause) (msgId : Option MessageId) :
    Pending.Table MessageId Cause :=
  msgId.elim t fun id => t.resolve id (.answer (some id))

theorem table_response (msg : ResponseMessage) :
    (s.step (.response msg)).table = answered s.table msg.messageId := by
  obtain ⟨_ | id, data⟩ := msg
  · simp [ClientRun.step, handleResponse, record, table, answered]
  · exact table_resolve s id _ _

theorem table_error (msg : ErrorMessage) :
    (s.step (.error msg)).table = answered s.table msg.messageId := by
  obtain ⟨_ | id, code, text, data⟩ := msg
  · simp [ClientRun.step, handleError, record, table, answered]
  · exact table_resolve s id _ _

/-- An answer carries the id the callback was taken by; a refused call takes its own callback. -/
def Coherent (r : Pending.Taken MessageId Cause) : Prop :=
  match r.cause with
  | .answer id => id = some r.key
  | .refusedCall token => token = r.token
  | .closed => True
  | .refusedRun => True

/-- No callback has been called twice or under another id than its own, and every
cause fits. -/
structure Paired (t : Pending.Table MessageId Cause) : Prop where
  valid : t.Valid
  coherent : ∀ r ∈ t.taken, Coherent r

theorem paired_start : Paired start.table := ⟨Table.valid_empty, by simp [start, table]⟩

section
variable {t : Pending.Table MessageId Cause} (ht : Paired t)
include ht

theorem Paired.register (id : MessageId) :
    Paired (t.register id) := ⟨ht.valid.register id, ht.coherent⟩

theorem Paired.resolve {cause : Cause} (hcause : ∀ token, Coherent ⟨token, id, cause⟩) :
    Paired (t.resolve id cause) := by
  refine ⟨ht.valid.resolve id cause, fun r hr => ?_⟩
  rcases mem_append.mp hr with hr | hr
  · exact ht.coherent r hr
  · obtain ⟨token, _, rfl⟩ := Option.map_eq_some_iff.mp (Option.mem_toList.mp hr)
    exact hcause token

theorem Paired.refuse (id : MessageId) :
    Paired ((t.register id).resolve id (.refusedCall t.registered.length)) := by
  refine ⟨(ht.valid.register id).resolve id _, fun r hr => ?_⟩
  rw [Table.resolve_register] at hr
  rcases mem_append.mp hr with hr | hr
  · exact ht.coherent r hr
  · rw [mem_singleton.mp hr]
    rfl

theorem Paired.drain : Paired (t.drain .closed) := by
  refine ⟨ht.valid.drain _, fun r hr => ?_⟩
  rcases mem_append.mp hr with hr | hr
  · exact ht.coherent r hr
  · obtain ⟨p, _, rfl⟩ := mem_map.mp hr
    trivial

theorem Paired.answer (msgId : Option MessageId) : Paired (answered t msgId) := by
  cases msgId with
  | none => exact ht
  | some id => exact ht.resolve fun _ => rfl

end

variable {s : ClientRun}

theorem Paired.call (hs : Paired s.table) (c : Client) (hc : c.cbs = s.client.cbs) (hello : Bool)
    (method : String) (data : Json) :
    Paired (s.record (s.registered ++ [c.nextMessageId]) (.refusedCall s.registered.length)
      (c.call ⟨s.registered.length, hello⟩ method data)).table := by
  rw [table_call s c hc]
  split
  · exact hs.refuse c.nextMessageId
  · exact hs.register c.nextMessageId

theorem Paired.step (hs : Paired s.table) (e : ClientEvent) : Paired (s.step e).table := by
  cases e with
  | call method data => exact hs.call s.client rfl false method data
  | hello => exact hs.call s.client rfl true ".hello" helloData
  | opened =>
    exact hs.call { s.client with connection := some (some .default) } rfl true ".hello"
      helloData
  | run method data =>
    rw [ClientRun.step, Client.run, table_sendMessage]
    split
    · exact hs.resolve fun _ => trivial
    · exact hs
  | response msg =>
    rw [table_response]
    exact hs.answer msg.messageId
  | error msg =>
    rw [table_error]
    exact hs.answer msg.messageId
  | closed =>
    rw [table_closed]
    exact hs.drain

/-- By a response or error with the id of the request, or by the closing of the connection. -/
def Answered (registered : List MessageId) (r : Pending.Taken MessageId Cause) : Prop :=
  (∃ id, r.cause = .answer (some id) ∧ registered[r.token]? = some id) ∨ r.cause = .closed

end ClientRun

open ClientRun in
/-- **Callbacks are paired with their requests.** A callback is called at most once: by a response
or error with its id, by the closing of the connection, or by the refusal of its own call. -/
theorem callbacks_paired (events : List ClientEvent) :
    let s := events.foldl ClientRun.step .start
    (s.invoked.map Taken.token).Nodup ∧
      ∀ r ∈ s.invoked, Answered s.registered r ∨ r.cause = .refusedCall r.token ∨
        r.cause = .refusedRun := by
  intro s
  have hs : Paired s.table :=
    Runs.invariant_all (fun s : ClientRun => Paired s.table) (fun _ e hs => hs.step e) paired_start
      events
  refine ⟨hs.valid.taken_unique, fun r hr => ?_⟩
  have hcoherent := hs.coherent r hr
  unfold Coherent at hcoherent
  split at hcoherent
  · next id hcause =>
    subst hcoherent
    exact .inl (.inl ⟨r.key, hcause, hs.valid.taken_key r hr⟩)
  · next token hcause =>
    subst hcoherent
    exact .inr (.inl hcause)
  · next hcause => exact .inl (.inr hcause)
  · next hcause => exact .inr (.inr hcause)

/-- A call before the hello reply: its callback is called although no response,
error or close has come. -/
theorem callback_refused :
    let s := [ClientEvent.opened, .call "a" .null].foldl ClientRun.step .start
    s.invoked = [⟨1, 1, .refusedCall 1⟩] ∧ ∃ r ∈ s.invoked, ¬ClientRun.Answered s.registered r := by
  refine ⟨rfl, ⟨1, 1, .refusedCall 1⟩, mem_singleton_self _, ?_⟩
  rintro (⟨id, hcause, _⟩ | hcause)
  · cases hcause
  · cases hcause

end SimpleIpc
