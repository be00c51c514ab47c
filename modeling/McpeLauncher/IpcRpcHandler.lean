import McpeLauncher.IpcHello

/-! # Answering requests (`server/rpc_handler.cpp`)

`rpc_handler::invoke` gives a handler a callback to reply with, and calls it once more after an
exception. A handler is a tree: it calls back, is told whether that returned or threw, and goes on.
-/
namespace SimpleIpc
open List

inductive Thrown where
  /-- an `rpc_call_exception_interface` -/
  | rpcCall (code : RpcErrorCode) (text : String) (data : Json)
  /-- any other `std::exception` -/
  | std
  /-- anything else -/
  | other

/-- `next` is told whether the call of the callback returned; otherwise it threw a `std::exception`.
-/
inductive HandlerRun where
  | returns
  | throws (e : Thrown)
  | replies (res : RpcResult) (next : Bool → HandlerRun)

/-- What a handler does until it is left, and the results it gives to the callback later. -/
structure HandlerCall where
  during : HandlerRun
  later : List RpcResult

abbrev CallHandlerAsync := String → Json → HandlerCall

abbrev CallHandlerSync := String → Json → Except Thrown RpcResult

/-- `rpc_handler`: the map `handlers`. -/
structure RpcHandler where
  handlers : List (String × CallHandlerAsync)

namespace RpcHandler

/-- `add_handler_async`, with `none` for its exception. -/
def addHandlerAsync (r : RpcHandler) (method : String) (handler : CallHandlerAsync) :
    Option RpcHandler :=
  if (r.handlers.lookup method).isSome then none else some ⟨(method, handler) :: r.handlers⟩

/-- The handler `add_handler` registers: `result(handler(conn, method, data))`. -/
def ofSync (handler : CallHandlerSync) : CallHandlerAsync := fun method data =>
  match handler method data with
  -- if the callback throws, so does the registered handler
  | .ok res => ⟨.replies res fun returned => if returned then .returns else .throws .std, []⟩
  | .error e => ⟨.throws e, []⟩

def addHandler (r : RpcHandler) (method : String) (handler : CallHandlerSync) :
    Option RpcHandler :=
  r.addHandlerAsync method (ofSync handler)

end RpcHandler

/-- What becomes of an answer: it is sent, `send_message` throws, or the connection is gone. -/
inductive Delivery where
  | sent
  | failed
  | gone
  deriving DecidableEq, Repr

/-- The calls of the callback of one request so far, and the answers sent. -/
structure Replies where
  calls : Nat
  sent : List Message

/-- The answer to request `id`.  An error is sent with `_data`, not with `_error_data`. -/
def replyMessage (id : MessageId) (res : RpcResult) : Message :=
  if res.errorCode = RpcErrorCodes.success then .response ⟨some id, res.data⟩
  else .error ⟨some id, res.errorCode, res.errorText, res.data⟩

def Message.messageId : Message → Option MessageId
  | .rpc m => m.messageId
  | .response m => m.messageId
  | .error m => m.messageId

theorem replyMessage_messageId (id : MessageId) (res : RpcResult) :
    (replyMessage id res).messageId = some id := by
  unfold replyMessage
  split <;> rfl

section Invoke
variable (env : Nat → Delivery) (id : Option MessageId)

/-- The callback of a request, and whether it returns; without an id it does nothing. -/
def onResult (s : Replies) (res : RpcResult) : Bool × Replies :=
  match id with
  | none => (true, { s with calls := s.calls + 1 })
  | some id =>
    match env s.calls with
    | .sent => (true, ⟨s.calls + 1, s.sent ++ [replyMessage id res]⟩)
    | .failed => (false, { s with calls := s.calls + 1 })
    | .gone => (true, { s with calls := s.calls + 1 })

def HandlerRun.run : HandlerRun → Replies → Option Thrown × Replies
  | .returns, s => (none, s)
  | .throws e, s => (some e, s)
  | .replies res next, s => (next (onResult env id s res).1).run (onResult env id s res).2

/-- The result for the callback, if the exception is one the `catch` clauses take. -/
def Thrown.result : Thrown → Option RpcResult
  | .rpcCall code text data => some (.error code text data)
  | .std => some (Link.errorResult RpcErrorCodes.internalError)
  | .other => none

/-- The callback once more for what the handler has thrown. -/
def onThrown (s : Replies) (thrown : Option Thrown) : Replies :=
  match thrown.bind Thrown.result with
  -- the callback the handler had: whether it was called before is not looked at
  | some res => (onResult env id s res).2
  | none => s

def HandlerCall.run (call : HandlerCall) (s : Replies) : Replies :=
  let (thrown, s) := call.during.run env id s
  call.later.foldl (fun s res => (onResult env id s res).2) (onThrown env id s thrown)

/-- `rpc_handler::invoke` of a request, and what its handler replies later. -/
def RpcHandler.invoke (r : RpcHandler) (msg : RpcMessage) : Replies :=
  match r.handlers.lookup msg.method with
  | none => (onResult env msg.messageId ⟨0, []⟩ (Link.errorResult RpcErrorCodes.methodNotFound)).2
  | some handler => (handler msg.method msg.data).run env msg.messageId ⟨0, []⟩

end Invoke

/-! ## What every call of the callback keeps -/

variable {msg : RpcMessage}

section Answers
variable {env : Nat → Delivery} {id : Option MessageId} {s : Replies}

/-- A property of the answers that the callback keeps is kept by a handler. -/
theorem HandlerRun.run_invariant (Inv : Replies → Prop)
    (hstep : ∀ s res, Inv s → Inv (onResult env id s res).2) (p : HandlerRun) :
    ∀ s, Inv s → Inv (p.run env id s).2 := by
  induction p with
  | returns => exact fun s hs => hs
  | throws e => exact fun s hs => hs
  | replies res next ih => exact fun s hs => ih _ _ (hstep s res hs)

theorem HandlerCall.run_invariant (Inv : Replies → Prop)
    (hstep : ∀ s res, Inv s → Inv (onResult env id s res).2) (call : HandlerCall) (hs : Inv s) :
    Inv (call.run env id s) := by
  have hduring := call.during.run_invariant Inv hstep s hs
  have hthrown :
      Inv (onThrown env id (call.during.run env id s).2 (call.during.run env id s).1) := by
    unfold onThrown
    split
    · exact hstep _ _ hduring
    · exact hduring
  exact Runs.invariant_all Inv (fun s res hs => hstep s res hs) hthrown call.later

/-- **What every call of the callback keeps holds of the answers to a request.** -/
theorem RpcHandler.invoke_invariant (Inv : Replies → Prop)
    (hstep : ∀ s res, Inv s → Inv (onResult env msg.messageId s res).2) (hstart : Inv ⟨0, []⟩)
    (r : RpcHandler) : Inv (r.invoke env msg) := by
  unfold RpcHandler.invoke
  split
  · exact hstep _ _ hstart
  · exact HandlerCall.run_invariant Inv hstep _ hstart

theorem onResult_messageId (hs : ∀ m ∈ s.sent, m.messageId = id ∧ id ≠ none) (res : RpcResult) :
    ∀ m ∈ (onResult env id s res).2.sent, m.messageId = id ∧ id ≠ none := by
  unfold onResult
  split
  · exact hs
  · next id' =>
    split
    · intro m hm
      rcases mem_append.mp hm with hm | hm
      · exact hs m hm
      · rw [mem_singleton.mp hm, replyMessage_messageId]
        exact ⟨rfl, nofun⟩
    · exact hs
    · exact hs

end Answers

/-- How often a handler calls back when every call returns. -/
def HandlerRun.replyCount : HandlerRun → Nat
  | .returns => 0
  | .throws _ => 0
  | .replies _ next => (next true).replyCount + 1

/-- How a handler ends when every call of its callback returns. -/
def HandlerRun.ending : HandlerRun → Option Thrown
  | .returns => none
  | .throws e => some e
  | .replies _ next => (next true).ending

/-- How often the callback is called: during the call, for an exception, and later. -/
def HandlerCall.callbackCount (call : HandlerCall) : Nat :=
  call.during.replyCount + (call.during.ending.bind Thrown.result).toList.length +
    call.later.length

def RpcHandler.callbackCount (r : RpcHandler) (msg : RpcMessage) : Nat :=
  match r.handlers.lookup msg.method with
  | none => 1
  | some handler => (handler msg.method msg.data).callbackCount

section Delivered
variable {id : MessageId}

theorem onResult_sent (s : Replies) (res : RpcResult) :
    onResult (fun _ => .sent) (some id) s res =
      (true, ⟨s.calls + 1, s.sent ++ [replyMessage id res]⟩) := rfl

theorem HandlerRun.run_sent (p : HandlerRun) : ∀ s : Replies,
    (p.run (fun _ => .sent) (some id) s).1 = p.ending ∧
      (p.run (fun _ => .sent) (some id) s).2.sent.length = s.sent.length + p.replyCount := by
  induction p with
  | returns => exact fun s => ⟨rfl, rfl⟩
  | throws e => exact fun s => ⟨rfl, rfl⟩
  | replies res next ih =>
    intro s
    rw [HandlerRun.run, onResult_sent]
    obtain ⟨hending, hcount⟩ := ih true ⟨s.calls + 1, s.sent ++ [replyMessage id res]⟩
    refine ⟨hending, ?_⟩
    rw [hcount, length_append, HandlerRun.replyCount, length_singleton]
    omega

theorem foldl_onResult_sent (results : List RpcResult) (s : Replies) :
    (results.foldl (fun s res => (onResult (fun _ => .sent) (some id) s res).2) s).sent.length =
      s.sent.length + results.length := by
  induction results generalizing s with
  | nil => rfl
  | cons res results ih =>
    rw [foldl_cons, ih, onResult_sent]
    simp only [length_append, length_cons, length_nil]
    omega

theorem HandlerCall.run_sent (call : HandlerCall) :
    (call.run (fun _ => .sent) (some id) ⟨0, []⟩).sent.length = call.callbackCount := by
  obtain ⟨hending, hcount⟩ := HandlerRun.run_sent call.during ⟨0, []⟩
  have hthrown : ∀ (s : Replies) (e : Option Thrown),
      (onThrown (fun _ => .sent) (some id) s e).sent.length =
        s.sent.length + (e.bind Thrown.result).toList.length := by
    intro s e
    unfold onThrown
    cases e.bind Thrown.result with
    | none => rfl
    | some res => exact length_append
  rw [HandlerCall.run, HandlerCall.callbackCount]
  rw [foldl_onResult_sent, hthrown, hending, hcount]
  simp only [length_nil]
  omega

/-- **A request with an id gets as many answers as its callback is called.** -/
theorem RpcHandler.invoke_sent (r : RpcHandler) (hid : msg.messageId = some id) :
    (r.invoke (fun _ => .sent) msg).sent.length = r.callbackCount msg := by
  unfold RpcHandler.invoke RpcHandler.callbackCount
  rw [hid]
  split
  · rfl
  · exact HandlerCall.run_sent _

end Delivered

/-! ## Synchronous handlers -/

/-- A synchronous handler has one answer at most: the callback is called again only because the
first call threw. -/
theorem RpcHandler.ofSync_sent_le (env : Nat → Delivery) (id : Option MessageId)
    (handler : CallHandlerSync) (method : String) (data : Json) :
    ((ofSync handler method data).run env id ⟨0, []⟩).sent.length ≤ 1 := by
  have hone : ∀ (s : Replies) (res : RpcResult), s.sent = [] →
      (onResult env id s res).2.sent.length ≤ 1 ∧
        ((onResult env id s res).1 = false → (onResult env id s res).2.sent = []) := by
    intro s res hs
    unfold onResult
    split
    · exact ⟨by simp [hs], nofun⟩
    · split
      · exact ⟨by simp [hs], nofun⟩
      · exact ⟨by simp [hs], fun _ => hs⟩
      · exact ⟨by simp [hs], nofun⟩
  have hthrown : ∀ (s : Replies) (e : Option Thrown), s.sent = [] →
      (onThrown env id s e).sent.length ≤ 1 := by
    intro s e hs
    unfold onThrown
    split
    · exact (hone s _ hs).1
    · simp [hs]
  unfold ofSync
  split
  · next res _ =>
    obtain ⟨hle, hfailed⟩ := hone ⟨0, []⟩ res rfl
    simp only [HandlerCall.run, HandlerRun.run, foldl_nil]
    cases hret : (onResult env id ⟨0, []⟩ res).1 with
    | true => exact hle
    | false => exact hthrown _ _ (hfailed hret)
  · exact hthrown _ _ rfl

theorem RpcHandler.ofSync_callbackCount (handler : CallHandlerSync) (method : String)
    (data : Json) :
    (ofSync handler method data).callbackCount = 1 ↔ handler method data ≠ .error .other := by
  unfold ofSync HandlerCall.callbackCount
  cases handler method data with
  | ok res => simp [HandlerRun.replyCount, HandlerRun.ending]
  | error e => cases e <;> simp [HandlerRun.replyCount, HandlerRun.ending, Thrown.result]

/-- **Requests are answered once exactly if their handler calls back once.** Without an id a request
is never answered, and every answer carries its id. A request with an id has as many answers as its
callback is called, a caught exception being a call. A synchronous handler never answers twice. -/
theorem answered_once_iff (r : RpcHandler) (msg : RpcMessage) :
    (∀ env, (msg.messageId = none → (r.invoke env msg).sent = []) ∧
      ∀ m ∈ (r.invoke env msg).sent, m.messageId = msg.messageId) ∧
    (∀ id, msg.messageId = some id →
      ((r.invoke (fun _ => .sent) msg).sent.length ≤ 1 ↔ r.callbackCount msg ≤ 1) ∧
      ((r.invoke (fun _ => .sent) msg).sent.length = 1 ↔ r.callbackCount msg = 1)) ∧
    ∀ handler, r.handlers.lookup msg.method = some (RpcHandler.ofSync handler) →
      (∀ env, (r.invoke env msg).sent.length ≤ 1) ∧
        (r.callbackCount msg = 1 ↔ handler msg.method msg.data ≠ .error .other) := by
  refine ⟨fun env => ?_, fun id hid => ?_, fun handler hhandler => ⟨fun env => ?_, ?_⟩⟩
  · have hall : ∀ m ∈ (r.invoke env msg).sent,
        m.messageId = msg.messageId ∧ msg.messageId ≠ none :=
      RpcHandler.invoke_invariant
        (fun s => ∀ m ∈ s.sent, m.messageId = msg.messageId ∧ msg.messageId ≠ none)
        (fun s res hs => onResult_messageId hs res) (nofun) r
    refine ⟨fun hnone => ?_, fun m hm => (hall m hm).1⟩
    exact eq_nil_iff_forall_not_mem.mpr fun m hm => (hall m hm).2 hnone
  · rw [r.invoke_sent hid]
    exact ⟨Iff.rfl, Iff.rfl⟩
  · rw [RpcHandler.invoke, hhandler]
    exact RpcHandler.ofSync_sent_le env _ handler _ _
  · rw [RpcHandler.callbackCount, hhandler]
    exact RpcHandler.ofSync_callbackCount handler _ _

def repliesAndThrows : RpcHandler :=
  ⟨[("a", fun _ _ => ⟨.replies (.response .null) fun _ => .throws .std, []⟩)]⟩

/-- Its request is answered by a response and by an error, both with its id. -/
theorem answered_twice :
    (repliesAndThrows.invoke (fun _ => .sent) ⟨some 1, "a", .null⟩).sent =
      [.response ⟨some 1, .null⟩,
        .error ⟨some 1, RpcErrorCodes.internalError, "Internal server error", .null⟩] := rfl

/-! ## The default handler -/

def handleHello : CallHandlerAsync := fun _ data =>
  match chooseEncoding data with
  | .ok enc => ⟨.replies (.response (helloReply enc)) fun returned =>
      if returned then .returns else .throws .std, []⟩
  | .error _ => ⟨.throws .std, []⟩

def defaultRpcHandler : RpcHandler := ⟨[(".hello", handleHello)]⟩

theorem answer_toClient (l : Link) (id : Option MessageId) (res : RpcResult) :
    (l.answer id res).toClient = l.toClient ++
      (onResult (fun _ => .sent) id ⟨0, []⟩ res).2.sent.map fun m => (l.serverEncoding, m) := by
  cases id with
  | none => exact (append_nil _).symm
  | some id => rfl

/-- **The server of the hello protocol answers as `default_rpc_handler` does**, on a connection
that works. -/
theorem handleMessage_default (l : Link) (hdot : msg.method.toList.head? = some '.') :
    (l.handleMessage msg).toClient = l.toClient ++
      (defaultRpcHandler.invoke (fun _ => .sent) msg).sent.map fun m => (l.serverEncoding, m) := by
  rw [Link.handleMessage, if_pos hdot, RpcHandler.invoke]
  by_cases hhello : msg.method = ".hello"
  · have hlookup : defaultRpcHandler.handlers.lookup msg.method = some handleHello := by
      rw [hhello]
      rfl
    rw [if_pos hhello, hlookup]
    dsimp only
    unfold handleHello
    cases chooseEncoding msg.data with
    | ok enc =>
      have hrun : ∀ id : Option MessageId, (HandlerCall.run (fun _ => .sent) id
          ⟨.replies (.response (helloReply enc)) fun returned =>
            if returned then .returns else .throws .std, []⟩ ⟨0, []⟩) =
          (onResult (fun _ => .sent) id ⟨0, []⟩ (.response (helloReply enc))).2 := by
        intro id
        cases id <;> rfl
      rw [hrun]
      exact answer_toClient l _ _
    | error e => exact answer_toClient l _ _
  · have hlookup : defaultRpcHandler.handlers.lookup msg.method = none := by
      rw [defaultRpcHandler, lookup_cons, beq_false_of_ne hhello]
      rfl
    rw [if_neg hhello, hlookup]
    exact answer_toClient l _ _

theorem handleMessage_default_unknown :
    (Link.opened.handleMessage ⟨some 1, ".a", .null⟩).toClient = [(.default,
      .error ⟨some 1, RpcErrorCodes.methodNotFound, "Method not found", .null⟩)] :=
  (handleMessage_default .opened (by decide)).trans rfl

end SimpleIpc
