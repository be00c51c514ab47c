import McpeLauncher.IpcClient

/-! # Agreeing on an encoding

The client's first request is the hello message, which lists the encodings it knows; the server
answers in the old encoding and switches, the client when it reads the answer, and only then lets
other requests through. A connection is two queues of messages, each with the encoding it was
written in. -/
namespace SimpleIpc
open List Client

/-- The elements a range-based `for` over a value goes through. -/
def Json.elements : Json → List Json
  | .array items => items
  | .object members => members.map Prod.snd
  | .null => []
  | j => [j]

/-- The first encoding that is known, or the default; a name that is no string is an exception. -/
def firstKnown : List Json → Except ReadError Encoding
  | [] => .ok .default
  | j :: rest =>
    match j.getString with
    | .error e => .error e
    | .ok name =>
      match Encoding.byName name with
      | some enc => .ok enc
      | none => firstKnown rest

/-- The encoding `default_rpc_handler::handle_hello` settles on. -/
def chooseEncoding (data : Json) : Except ReadError Encoding :=
  match data.member "encodings" with
  | .error e => .error e
  | .ok names => firstKnown names.elements

def helloReply (enc : Encoding) : Json :=
  .object (Json.setMember "encoding" (.string enc.name)
    (Json.setMember "version" (.integer 1) []))

/-- The server's encoding, the requests and answers on their way, and the ids of the requests not
answered yet. -/
structure Link where
  serverEncoding : Encoding
  toServer : List (Encoding × RpcMessage)
  toClient : List (Encoding × Message)
  held : List MessageId

namespace Link

def opened : Link := ⟨.default, [], [], []⟩

/-- Requests without an id get no answer. An error is sent with `_data`, not with `_error_data`. -/
def answer (l : Link) (id : Option MessageId) (res : RpcResult) : Link :=
  match id with
  | none => l
  | some id =>
    let msg : Message :=
      if res.errorCode = RpcErrorCodes.success then .response ⟨some id, res.data⟩
      else .error ⟨some id, res.errorCode, res.errorText, res.data⟩
    { l with toClient := l.toClient ++ [(l.serverEncoding, msg)] }

def errorResult (code : RpcErrorCode) : RpcResult := .error code (RpcErrorCodes.toString code) .null

/-- Methods that start with a dot go to the default handler, the others to the service, which
answers in its own time. -/
def handleMessage (l : Link) (msg : RpcMessage) : Link :=
  if msg.method.toList.head? = some '.' then
    if msg.method = ".hello" then
      match chooseEncoding msg.data with
      | .ok enc =>
        { l.answer msg.messageId (.response (helloReply enc)) with serverEncoding := enc }
      | .error _ => l.answer msg.messageId (errorResult RpcErrorCodes.internalError)
    else l.answer msg.messageId (errorResult RpcErrorCodes.methodNotFound)
  else { l with held := msg.messageId.toList ++ l.held }

/-- The next request is read; then the encodings it was written and read in. -/
def serverReads (l : Link) : Link × List (Encoding × Encoding) :=
  match l.toServer with
  | [] => (l, [])
  | (written, msg) :: rest =>
    let l := { l with toServer := rest }
    (if written = l.serverEncoding then l.handleMessage msg else l, [(written, l.serverEncoding)])

/-- A handler of the service answers a request it holds. -/
def serverAnswers (l : Link) (id : MessageId) (res : RpcResult) : Link :=
  if id ∈ l.held then l.answer (some id) res else l

def write (l : Link) (enc : Encoding) (msg : RpcMessage) : Link :=
  { l with toServer := l.toServer ++ [(enc, msg)] }

end Link

/-- `base_service_client_impl::handle_message`; servers send no requests. -/
def Client.handleMessage (c : Client) : Message → Client
  | .response m => (c.handleResponse m).client
  | .error m => (c.handleError m).client
  | .rpc _ => c

/-- The client, its connection, those it had, the number of callbacks, and the encodings of every
message read. -/
structure System where
  client : Client
  link : Link
  old : List Link
  registered : Nat
  decoded : List (Encoding × Encoding)

inductive SystemEvent where
  | opens
  | hello
  | call (method : String) (data : Json)
  | run (method : String) (data : Json)
  | clientReads
  | serverReads
  | serverAnswers (id : MessageId) (res : RpcResult)
  | oldServerReads (k : Nat)
  | oldServerAnswers (k : Nat) (id : MessageId) (res : RpcResult)
  | closes

namespace System

def start : System := ⟨.start, .opened, [], 0, []⟩

/-- After a client operation that was `o` its message is written; without a connection that throws.
-/
def perform (s : System) (o : Outcome) : System where
  client := o.client
  link := match o.sent, o.client.connection with
    | some msg, some (some enc) => s.link.write enc msg
    | _, _ => s.link
  old := s.old
  registered := s.registered
  decoded := s.decoded

def performCall (s : System) (o : Outcome) : System :=
  { s.perform o with registered := s.registered + 1 }

def clientReads (s : System) (enc : Encoding) : System :=
  match s.link.toClient with
  | [] => s
  | (written, msg) :: rest =>
    { s with
      client := if written = enc then s.client.handleMessage msg else s.client
      link := { s.link with toClient := rest }
      decoded := s.decoded ++ [(written, enc)] }

def step (s : System) : SystemEvent → System
  | .opens =>
    -- `open` throws when there is a connection
    match s.client.connection with
    | some _ => s
    | none => { s with link := .opened }.performCall (s.client.connectionOpened s.registered)
  | .hello => s.performCall (s.client.sendHelloMessage s.registered)
  | .call method data => s.performCall (s.client.call ⟨s.registered, false⟩ method data)
  | .run method data => s.perform (s.client.run method data)
  | .clientReads =>
    match s.client.connection with
    | some (some enc) => s.clientReads enc
    | _ => s
  | .serverReads =>
    { s with link := s.link.serverReads.1, decoded := s.decoded ++ s.link.serverReads.2 }
  | .serverAnswers id res => { s with link := s.link.serverAnswers id res }
  | .oldServerReads k =>
    match s.old[k]? with
    | none => s
    | some l =>
      { s with old := s.old.set k l.serverReads.1, decoded := s.decoded ++ l.serverReads.2 }
  | .oldServerAnswers k id res => { s with old := s.old.modify k fun l => l.serverAnswers id res }
  | .closes =>
    { s with
      client := s.client.connectionClosed.client
      link := .opened
      old := match s.client.connection with
        | some _ => s.link :: s.old
        | none => s.old }

end System

/-! ## What a connection goes through -/

theorem chooseEncoding_helloData : chooseEncoding helloData = .ok .jsonCbor := rfl

/-- Requests written after the switch. -/
def Switched (toServer : List (Encoding × RpcMessage)) : Prop :=
  ∀ p ∈ toServer, p.1 = .jsonCbor ∧ (p.2.method = ".hello" → p.2.data = Client.helloData)

namespace Link

/-- The hello message is on its way. -/
structure Asked (l : Link) : Prop where
  encoding : l.serverEncoding = .json
  toServer : ∃ id, l.toServer = [(.json, Client.helloRequest id)]
  toClient : l.toClient = []
  held : l.held = []

/-- The server has switched, and at most its answer to the hello message is on
its way. -/
structure Told (l : Link) : Prop where
  encoding : l.serverEncoding = .jsonCbor
  toServer : l.toServer = []
  toClient : l.toClient = [] ∨
    ∃ id, l.toClient = [(.json, .response ⟨some id, helloReply .jsonCbor⟩)]
  held : l.held = []

/-- A message that does not answer request `id`, unless it is the server's
answer to a hello message. -/
def HelloAnswer (id : MessageId) : Message → Prop
  | .response m => m.messageId = some id → m.data = helloReply .jsonCbor
  | .error m => m.messageId ≠ some id
  | .rpc _ => True

/-- Both sides have switched. What answers a request of the hello callback is an answer to a hello
message. -/
structure Agreed (cbs : List (MessageId × Callback)) (l : Link) : Prop where
  encoding : l.serverEncoding = .jsonCbor
  toServer : Switched l.toServer
  toClient : ∀ p ∈ l.toClient, p.1 = .jsonCbor
  asked : ∀ q ∈ cbs, q.2.hello = true → ∀ p ∈ l.toServer, p.2.messageId = some q.1 →
    p.2.method = ".hello"
  answers : ∀ q ∈ cbs, q.2.hello = true → ∀ p ∈ l.toClient, HelloAnswer q.1 p.2
  held : ∀ q ∈ cbs, q.2.hello = true → q.1 ∉ l.held

/-- What the server may count on, also when the client is gone. -/
def Served (l : Link) : Prop := l.Asked ∨ (l.serverEncoding = .jsonCbor ∧ Switched l.toServer)

variable {l : Link} {cbs : List (MessageId × Callback)} {msg : RpcMessage}

theorem Told.served (h : l.Told) : l.Served :=
  .inr ⟨h.encoding, by rw [h.toServer]; simp [Switched]⟩

theorem Agreed.served (h : l.Agreed cbs) :
    l.Served := .inr ⟨h.encoding, h.toServer⟩

theorem Agreed.mono {cbs' : List (MessageId × Callback)} (h : l.Agreed cbs)
    (hsub : ∀ q ∈ cbs', q.2.hello = true → q ∈ cbs) : l.Agreed cbs' :=
  { h with
    asked := fun q hq hh => h.asked q (hsub q hq hh) hh
    answers := fun q hq hh => h.answers q (hsub q hq hh) hh
    held := fun q hq hh => h.held q (hsub q hq hh) hh }

theorem Told.agreed (h : l.Told) (cbs : List (MessageId × Callback)) :
    Agreed cbs { l with toClient := [] } where
  encoding := h.encoding
  toServer := by simp [h.toServer, Switched]
  toClient := by simp
  asked := by simp [h.toServer]
  answers := by simp
  held := by simp [h.held]

/-! ### The server's steps -/

theorem answer_toServer (l : Link) (id : Option MessageId) (res : RpcResult) :
    (l.answer id res).toServer = l.toServer := by
  cases id <;> rfl

theorem answer_encoding (l : Link) (id : Option MessageId) (res : RpcResult) :
    (l.answer id res).serverEncoding = l.serverEncoding := by
  cases id <;> rfl

theorem handleMessage_toServer (l : Link) (msg : RpcMessage) :
    (l.handleMessage msg).toServer = l.toServer := by
  unfold handleMessage
  split
  · split
    · split <;> simp [answer_toServer]
    · exact answer_toServer _ _ _
  · rfl

theorem handleMessage_encoding (henc : l.serverEncoding = .jsonCbor)
    (hmsg : msg.method = ".hello" → msg.data = helloData) :
    (l.handleMessage msg).serverEncoding = .jsonCbor := by
  unfold handleMessage
  split
  · split
    · next hhello => rw [hmsg hhello, chooseEncoding_helloData]
    · rw [answer_encoding, henc]
  · exact henc

theorem Asked.serverReads (h : l.Asked) :
    l.serverReads.1.Told ∧ l.serverReads.2 = [(.json, .json)] := by
  obtain ⟨id, hid⟩ := h.toServer
  have hreads : l.serverReads = ({ l with toServer := [] }.handleMessage (helloRequest id),
      [(.json, .json)]) := by
    unfold Link.serverReads
    rw [hid]
    simp [h.encoding]
  have hhandle : { l with toServer := [] }.handleMessage (helloRequest id) =
      ⟨.jsonCbor, [], [(.json, .response ⟨some id, helloReply .jsonCbor⟩)], []⟩ := by
    have hdot : (helloRequest id).method.toList.head? = some '.' := by
      change ".hello".toList.head? = some '.'
      decide
    have hchoose : chooseEncoding (helloRequest id).data = .ok .jsonCbor :=
      chooseEncoding_helloData
    unfold handleMessage
    rw [if_pos hdot, if_pos (show (helloRequest id).method = ".hello" from rfl), hchoose]
    simp only [answer, h.toClient, h.encoding, h.held]
    rfl
  rw [hreads, hhandle]
  exact ⟨⟨rfl, rfl, .inr ⟨id, rfl⟩, rfl⟩, rfl⟩

theorem serverReads_nil (h : l.toServer = []) : l.serverReads = (l, []) := by
  unfold serverReads
  rw [h]

theorem serverReads_switched (henc : l.serverEncoding = .jsonCbor) {p : Encoding × RpcMessage}
    {rest : List (Encoding × RpcMessage)} (hto : l.toServer = p :: rest) (hp : p.1 = .jsonCbor) :
    l.serverReads = ({ l with toServer := rest }.handleMessage p.2, [(.jsonCbor, .jsonCbor)]) := by
  obtain ⟨written, msg⟩ := p
  subst hp
  unfold serverReads
  rw [hto]
  simp [henc]

theorem Served.serverReads (h : l.Served) :
    l.serverReads.1.Served ∧ ∀ d ∈ l.serverReads.2, d.1 = d.2 := by
  rcases h with hasked | ⟨henc, hsw⟩
  · obtain ⟨htold, hd⟩ := hasked.serverReads
    exact ⟨htold.served, by simp [hd]⟩
  · cases hto : l.toServer with
    | nil =>
      rw [serverReads_nil hto]
      exact ⟨.inr ⟨henc, hsw⟩, by simp⟩
    | cons p rest =>
      rw [hto] at hsw
      obtain ⟨hp, hhello⟩ := hsw p (by simp)
      rw [serverReads_switched henc hto hp]
      refine ⟨.inr ⟨handleMessage_encoding henc hhello, ?_⟩, by simp⟩
      rw [handleMessage_toServer]
      exact fun q hq => hsw q (by simp [hq])

theorem Served.serverAnswers (h : l.Served) (id : MessageId) (res : RpcResult) :
    (l.serverAnswers id res).Served := by
  unfold Link.serverAnswers
  split
  · next hid =>
    rcases h with hasked | ⟨henc, hsw⟩
    · rw [hasked.held] at hid
      cases hid
    · exact .inr ⟨by rw [answer_encoding, henc], by rw [answer_toServer]; exact hsw⟩
  · exact h

/-! ### Steps once both sides have switched -/

variable {cbs : List (MessageId × Callback)} {l : Link}

/-- An answer to a hello callback's request has to be that of the hello handler. -/
theorem Agreed.answer (h : l.Agreed cbs) (id : Option MessageId) (res : RpcResult)
    (hres : ∀ q ∈ cbs, q.2.hello = true → id = some q.1 →
      res = .response (helloReply .jsonCbor)) : (l.answer id res).Agreed cbs := by
  cases id with
  | none => exact h
  | some id =>
    refine { h with toClient := ?_, answers := ?_ }
    · intro p hp
      rcases mem_append.mp hp with hp | hp
      · exact h.toClient p hp
      · rw [mem_singleton.mp hp]
        exact h.encoding
    · intro q hq hh p hp
      rcases mem_append.mp hp with hp | hp
      · exact h.answers q hq hh p hp
      · rw [mem_singleton.mp hp]
        by_cases hid : id = q.1
        · rw [hres q hq hh (congrArg some hid)]
          exact fun _ => rfl
        · split
          · exact fun heq => absurd (Option.some.inj heq) hid
          · exact fun heq => hid (Option.some.inj heq)

theorem Agreed.handleMessage (h : l.Agreed cbs)
    (hdata : msg.method = ".hello" → msg.data = helloData)
    (hid : ∀ q ∈ cbs, q.2.hello = true → msg.messageId = some q.1 → msg.method = ".hello") :
    (l.handleMessage msg).Agreed cbs := by
  unfold Link.handleMessage
  split
  · split
    · next hhello =>
      rw [hdata hhello, chooseEncoding_helloData]
      have hans := h.answer msg.messageId (.response (helloReply .jsonCbor)) fun _ _ _ _ => rfl
      exact { hans with encoding := rfl }
    · next hhello =>
      exact h.answer _ _ fun q hq hh heq => absurd (hid q hq hh heq) hhello
  · next hdot =>
    refine { h with held := fun q hq hh hmem => ?_ }
    rcases mem_append.mp hmem with hmem | hmem
    · rw [hid q hq hh (Option.mem_toList.mp hmem)] at hdot
      exact hdot rfl
    · exact h.held q hq hh hmem

theorem Agreed.serverReads (h : l.Agreed cbs) : l.serverReads.1.Agreed cbs := by
  cases hto : l.toServer with
  | nil =>
    rw [serverReads_nil hto]
    exact h
  | cons p rest =>
    have hmem : p ∈ l.toServer := by simp [hto]
    obtain ⟨hp, hdata⟩ := h.toServer p hmem
    rw [serverReads_switched h.encoding hto hp]
    have hrest : ∀ q ∈ rest, q ∈ l.toServer := fun q hq => by simp [hto, hq]
    have htail : Agreed cbs { l with toServer := rest } :=
      { h with
        toServer := fun q hq => h.toServer q (hrest q hq)
        asked := fun q hq hh p' hp' => h.asked q hq hh p' (hrest p' hp') }
    exact htail.handleMessage hdata fun q hq hh heq => h.asked q hq hh p hmem heq

theorem Agreed.serverAnswers (h : l.Agreed cbs) (id : MessageId) (res : RpcResult) :
    (l.serverAnswers id res).Agreed cbs := by
  unfold Link.serverAnswers
  split
  · next hid =>
    refine h.answer _ _ fun q hq hh heq => absurd ?_ (h.held q hq hh)
    rw [← Option.some.inj heq]
    exact hid
  · exact h

theorem Agreed.write (h : l.Agreed cbs)
    (hdata : msg.method = ".hello" → msg.data = helloData)
    (hid : ∀ q ∈ cbs, q.2.hello = true → msg.messageId = some q.1 → msg.method = ".hello") :
    (l.write .jsonCbor msg).Agreed cbs := by
  refine { h with toServer := ?_, asked := ?_ }
  · intro p hp
    rcases mem_append.mp hp with hp | hp
    · exact h.toServer p hp
    · rw [mem_singleton.mp hp]
      exact ⟨rfl, hdata⟩
  · intro q hq hh p hp heq
    rcases mem_append.mp hp with hp | hp
    · exact h.asked q hq hh p hp heq
    · rw [mem_singleton.mp hp] at heq ⊢
      exact hid q hq hh heq

end Link

namespace System

structure Unused (l : Link) (id : MessageId) : Prop where
  toServer : ∀ p ∈ l.toServer, p.2.messageId ≠ some id
  toClient : ∀ p ∈ l.toClient, Link.HelloAnswer id p.2
  held : id ∉ l.held

/-- Nothing is written before the client has switched but the hello message of an opening
connection; a later one has a new id. -/
def Gated (s : System) : SystemEvent → Prop
  | .call method _ | .run method _ =>
    method ≠ ".hello" ∧ (s.client.refuses method = true ∨ s.client.connection = none ∨
      s.client.connection = some (some .jsonCbor))
  | .hello => s.client.connection = none ∨
      (s.client.connection = some (some .jsonCbor) ∧ Unused s.link s.client.nextMessageId)
  | _ => True

/-- The connection the client has, by the encoding the client uses on it. -/
def Current (s : System) : Prop :=
  match s.client.connection with
  | none => s.link = .opened
  | some none => False
  | some (some .json) => s.link.Asked ∨ s.link.Told
  | some (some .jsonCbor) => s.link.Agreed s.client.cbs

section Current
variable {s : System}

theorem Current.of_none (hc : s.client.connection = none) (h : s.link = .opened) : s.Current := by
  rwa [Current, hc]

theorem Current.of_json (hc : s.client.connection = some (some .json))
    (h : s.link.Asked ∨ s.link.Told) : s.Current := by
  rwa [Current, hc]

theorem Current.of_cbor (hc : s.client.connection = some (some .jsonCbor))
    (h : s.link.Agreed s.client.cbs) : s.Current := by
  rwa [Current, hc]

theorem Current.cases (h : s.Current) :
    (s.client.connection = none ∧ s.link = .opened) ∨
      (s.client.connection = some (some .json) ∧ (s.link.Asked ∨ s.link.Told)) ∨
      (s.client.connection = some (some .jsonCbor) ∧ s.link.Agreed s.client.cbs) := by
  rw [Current] at h
  split at h
  · next hc => exact .inl ⟨hc, h⟩
  · exact absurd h id
  · next hc => exact .inr (.inl ⟨hc, h⟩)
  · next hc => exact .inr (.inr ⟨hc, h⟩)

theorem Current.json (h : s.Current) (hc : s.client.connection = some (some .json)) :
    s.link.Asked ∨ s.link.Told := by
  rwa [Current, hc] at h

theorem Current.cbor (h : s.Current) (hc : s.client.connection = some (some .jsonCbor)) :
    s.link.Agreed s.client.cbs := by
  rwa [Current, hc] at h

end Current

/-- Every message was read in the encoding it was written in, and so will the next be. -/
structure InStep (s : System) : Prop where
  decoded : ∀ d ∈ s.decoded, d.1 = d.2
  old : ∀ l ∈ s.old, l.Served
  current : s.Current

theorem inStep_start : start.InStep := ⟨by simp [start], by simp [start], rfl⟩

variable {c : Client} {s : System}

/-- A client operation that leaves the encoding, writes nothing and adds no hello
callback. -/
theorem InStep.quiet (hs : s.InStep) {n : Nat} (hconn : c.connection = s.client.connection)
    (hcbs : ∀ q ∈ c.cbs, q.2.hello = true → q ∈ s.client.cbs) :
    InStep { s with client := c, registered := n } := by
  refine { hs with current := ?_ }
  rcases hs.current.cases with ⟨hc, hl⟩ | ⟨hc, hl⟩ | ⟨hc, hl⟩
  · exact .of_none (hconn.trans hc) hl
  · exact .of_json (hconn.trans hc) hl
  · exact .of_cbor (hconn.trans hc) (hl.mono hcbs)

theorem perform_cases (s : System) (o : Outcome) :
    ((o.sent = none ∨ o.client.connection = none ∨ o.client.connection = some none) ∧
        s.perform o = { s with client := o.client }) ∨
      ∃ msg enc, o.sent = some msg ∧ o.client.connection = some (some enc) ∧
        s.perform o = { s with client := o.client, link := s.link.write enc msg } := by
  unfold perform
  cases hsent : o.sent with
  | none => exact .inl ⟨.inl rfl, rfl⟩
  | some msg =>
    cases hconn : o.client.connection with
    | none => exact .inl ⟨.inr (.inl rfl), rfl⟩
    | some enc =>
      cases enc with
      | none => exact .inl ⟨.inr (.inr rfl), rfl⟩
      | some enc => exact .inr ⟨msg, enc, rfl, rfl, rfl⟩

section
variable {s : System} (hs : s.InStep)
include hs

/-- **A request that is not the hello message**: it is refused, or there is no
connection, or both sides have switched. -/
theorem InStep.send (c : Client) (msg : RpcMessage) (hconn : c.connection = s.client.connection)
    (hcbs : ∀ q ∈ c.cbs, q.2.hello = true → q ∈ s.client.cbs) (hmethod : msg.method ≠ ".hello")
    (hid : ∀ q ∈ c.cbs, q.2.hello = true → msg.messageId ≠ some q.1)
    (hgate : c.refuses msg.method = true ∨ s.client.connection = none ∨
      s.client.connection = some (some .jsonCbor)) :
    (s.perform (c.sendMessage msg)).InStep := by
  rcases s.perform_cases (c.sendMessage msg) with ⟨_, heq⟩ | ⟨msg', enc, hsent, henc, heq⟩
  · rw [heq]
    exact hs.quiet (hconn ▸ c.sendMessage_connection msg)
      (fun q hq => hcbs q (sendMessage_cbs q hq))
  · obtain ⟨hpass, hsend⟩ := sendMessage_sent hsent
    rw [heq]
    rw [hsend] at hsent henc ⊢
    cases hsent
    rcases hgate with hrefuse | hnone | hcbor
    · rw [hpass] at hrefuse
      cases hrefuse
    · rw [hconn, hnone] at henc
      cases henc
    · rw [hconn, hcbor] at henc
      cases henc
      refine { hs with current := .of_cbor (hconn.trans hcbor) ?_ }
      exact ((hs.current.cbor hcbor).mono hcbs).write (fun h => absurd h hmethod)
        fun q hq hh heq => absurd heq (hid q hq hh)

theorem InStep.count (n : Nat) : InStep { s with registered := n } :=
  ⟨hs.decoded, hs.old, hs.current⟩

variable {method : String}

theorem InStep.call (data : Json) (hok : s.Gated (.call method data)) :
    (s.step (.call method data)).InStep := by
  obtain ⟨hmethod, hgate⟩ := hok
  have hcbs : ∀ q ∈ (s.client.cbs.filter fun p => p.1 ≠ s.client.nextMessageId),
      q ∈ s.client.cbs ∧ some s.client.nextMessageId ≠ some q.1 := by
    intro q hq
    obtain ⟨hmem, hne⟩ := mem_filter.mp hq
    exact ⟨hmem, fun heq => (of_decide_eq_true hne) (Option.some.inj heq).symm⟩
  refine (hs.send ({ s.client with nextMessageId := s.client.nextMessageId + 1 }.addRpcCb
    s.client.nextMessageId ⟨s.registered, false⟩) ⟨some s.client.nextMessageId, method, data⟩ rfl ?_
    hmethod ?_ hgate).count _
  · intro q hq hh
    rcases mem_cons.mp hq with rfl | hq
    · cases hh
    · exact (hcbs q hq).1
  · intro q hq hh
    rcases mem_cons.mp hq with rfl | hq
    · cases hh
    · exact (hcbs q hq).2

theorem InStep.run (data : Json) (hok : s.Gated (.run method data)) :
    (s.step (.run method data)).InStep :=
  hs.send s.client ⟨none, method, data⟩ rfl (fun _ hq _ => hq) hok.1 (fun _ _ _ => nofun) hok.2

theorem InStep.hello (hok : s.Gated .hello) : (s.step .hello).InStep := by
  rw [step, sendHelloMessage_eq]
  refine { hs with current := ?_ }
  rcases hok with hnone | ⟨hcbor, hfresh⟩
  · have hcur := hs.current
    rw [Current, hnone] at hcur
    simp only [Current, performCall, perform, addRpcCb, hnone]
    exact hcur
  · have hcur := hs.current.cbor hcbor
    refine .of_cbor hcbor ?_
    simp only [performCall, perform, addRpcCb, hcbor]
    refine Link.Agreed.write ?_ (fun _ => rfl) (fun _ _ _ _ => rfl)
    -- the new callback's id is on no message, the others are as before
    have hold : s.link.Agreed (s.client.cbs.filter fun p => p.1 ≠ s.client.nextMessageId) :=
      hcur.mono fun q hq _ => mem_of_mem_filter hq
    refine { hold with asked := ?_, answers := ?_, held := ?_ }
    · intro q hq hh p hp heq
      rcases mem_cons.mp hq with rfl | hq
      · exact absurd heq (hfresh.toServer p hp)
      · exact hold.asked q hq hh p hp heq
    · intro q hq hh p hp
      rcases mem_cons.mp hq with rfl | hq
      · exact hfresh.toClient p hp
      · exact hold.answers q hq hh p hp
    · intro q hq hh
      rcases mem_cons.mp hq with rfl | hq
      · exact hfresh.held
      · exact hold.held q hq hh

theorem InStep.opens : (s.step .opens).InStep := by
  rw [step]
  split
  · exact hs
  · rw [connectionOpened, sendHelloMessage_eq]
    refine { hs with current := .inl ?_ }
    exact ⟨rfl, ⟨s.client.nextMessageId, rfl⟩, rfl, rfl⟩

theorem InStep.serverReads : (s.step .serverReads).InStep := by
  have hnew : System.Current { s with link := s.link.serverReads.1 } ∧
      ∀ d ∈ s.link.serverReads.2, d.1 = d.2 := by
    rcases hs.current.cases with ⟨hc, hl⟩ | ⟨hc, hasked | htold⟩ | ⟨hc, hl⟩
    · have hnil : s.link.toServer = [] := by rw [hl]; rfl
      rw [Link.serverReads_nil hnil]
      exact ⟨.of_none hc hl, by simp⟩
    · obtain ⟨htold, hd⟩ := hasked.serverReads
      exact ⟨.of_json hc (.inr htold), by simp [hd]⟩
    · rw [Link.serverReads_nil htold.toServer]
      exact ⟨.of_json hc (.inr htold), by simp⟩
    · exact ⟨.of_cbor hc hl.serverReads, hl.served.serverReads.2⟩
  refine ⟨fun d hd => ?_, hs.old, hnew.1⟩
  rcases mem_append.mp hd with hd | hd
  · exact hs.decoded d hd
  · exact hnew.2 d hd

theorem InStep.serverAnswers (id : MessageId) (res : RpcResult) :
    (s.step (.serverAnswers id res)).InStep := by
  -- nobody holds a request before both sides have switched
  have hidle : s.link.held = [] → s.link.serverAnswers id res = s.link := fun hnil =>
    if_neg (by rw [hnil]; exact not_mem_nil)
  refine ⟨hs.decoded, hs.old, ?_⟩
  change System.Current { s with link := s.link.serverAnswers id res }
  rcases hs.current.cases with ⟨hc, hl⟩ | ⟨hc, hl⟩ | ⟨hc, hl⟩
  · rw [hidle (by rw [hl]; rfl)]
    exact hs.current
  · rw [hidle (hl.elim (fun h => h.held) (fun h => h.held))]
    exact hs.current
  · exact .of_cbor hc (hl.serverAnswers id res)

theorem InStep.oldServerReads (k : Nat) : (s.step (.oldServerReads k)).InStep := by
  rw [step]
  split
  · exact hs
  · next l hl =>
    obtain ⟨hserved, hd⟩ := (hs.old l (mem_of_getElem? hl)).serverReads
    refine ⟨fun d hmem => ?_, fun l' hmem => ?_, hs.current⟩
    · rcases mem_append.mp hmem with hmem | hmem
      · exact hs.decoded d hmem
      · exact hd d hmem
    · rcases mem_or_eq_of_mem_set hmem with hmem | rfl
      · exact hs.old l' hmem
      · exact hserved

theorem InStep.oldServerAnswers (k : Nat) (id : MessageId) (res : RpcResult) :
    (s.step (.oldServerAnswers k id res)).InStep := by
  refine ⟨hs.decoded, fun l hl => ?_, hs.current⟩
  obtain ⟨i, hi⟩ := mem_iff_getElem?.mp hl
  simp only [step, getElem?_modify] at hi
  obtain ⟨l₀, hl₀, rfl⟩ := Option.map_eq_some_iff.mp hi
  have hserved := hs.old l₀ (mem_of_getElem? hl₀)
  split
  · exact hserved.serverAnswers id res
  · exact hserved

theorem InStep.closes : (s.step .closes).InStep := by
  refine ⟨hs.decoded, fun l hl => ?_, ?_⟩
  · simp only [step] at hl
    split at hl
    · next enc hconn =>
      rcases mem_cons.mp hl with rfl | hl
      · rcases hs.current.cases with ⟨hc, _⟩ | ⟨_, hcur⟩ | ⟨_, hcur⟩
        · exact absurd (hconn.symm.trans hc) (by simp)
        · exact hcur.elim .inl Link.Told.served
        · exact hcur.served
      · exact hs.old l hl
    · exact hs.old l hl
  · exact .of_none s.client.connectionClosed_connection rfl

end

theorem resolve_helloReply (c : Client) (id : MessageId) :
    (c.resolve id (.response (helloReply .jsonCbor))).client.connection = c.connection ∨
      (c.resolve id (.response (helloReply .jsonCbor))).client.connection =
        c.connection.map fun _ => some .jsonCbor := by
  have hreply : ∀ c : Client, (c.helloCallback (.response (helloReply .jsonCbor))).connection =
      c.connection.map fun _ => some .jsonCbor := fun _ => rfl
  unfold resolve getRpcCb
  cases c.cbs.lookup id with
  | none => exact .inl rfl
  | some cb =>
    dsimp only
    unfold invoke
    split
    · exact .inr (hreply _)
    · exact .inl rfl

theorem handleMessage_cases (c : Client) (msg : Message) :
    c.handleMessage msg = c ∨
      (∃ m id, msg = .response m ∧ m.messageId = some id ∧
        c.handleMessage msg = (c.resolve id (.response m.data)).client) ∨
      ∃ m id, msg = .error m ∧ m.messageId = some id ∧
        c.handleMessage msg =
          (c.resolve id (.error m.errorCode m.errorText m.data)).client := by
  cases msg with
  | rpc m => exact .inl rfl
  | response m =>
    obtain ⟨_ | id, data⟩ := m
    · exact .inl rfl
    · exact .inr (.inl ⟨_, id, rfl, rfl, rfl⟩)
  | error m =>
    obtain ⟨_ | id, code, text, data⟩ := m
    · exact .inl rfl
    · exact .inr (.inr ⟨_, id, rfl, rfl, rfl⟩)

theorem handleMessage_cbs (c : Client) (msg : Message) :
    ∀ q ∈ (c.handleMessage msg).cbs, q ∈ c.cbs := by
  rcases handleMessage_cases c msg with h | ⟨m, id, _, _, h⟩ | ⟨m, id, _, _, h⟩
  · rw [h]
    exact fun q hq => hq
  all_goals
    rw [h, resolve_cbs]
    exact fun q hq => mem_of_mem_filter hq

/-- A client that has switched stays so, as long as only the hello handler
answers the hello callbacks. -/
theorem handleMessage_switched {msg : Message} (hc : c.connection = some (some .jsonCbor))
    (hmsg : ∀ q ∈ c.cbs, q.2.hello = true → Link.HelloAnswer q.1 msg) :
    (c.handleMessage msg).connection = some (some .jsonCbor) := by
  rcases handleMessage_cases c msg with h | ⟨m, id, rfl, hid, h⟩ | ⟨m, id, rfl, hid, h⟩
  · rw [h, hc]
  · rw [h]
    by_cases hdata : m.data = helloReply .jsonCbor
    · rw [hdata]
      rcases resolve_helloReply c id with h | h
      · rw [h, hc]
      · rw [h, hc]
        rfl
    · rw [resolve_connection, hc]
      intro cb hcb hh
      exact absurd (hmsg (id, cb) hcb hh hid) hdata
  · rw [h, resolve_connection, hc]
    intro cb hcb hh
    exact absurd hid (hmsg (id, cb) hcb hh)

theorem InStep.clientReads_json (hs : s.InStep) (hc : s.client.connection = some (some .json)) :
    (s.clientReads .json).InStep := by
  rw [clientReads]
  rcases hs.current.json hc with hasked | htold
  · rw [hasked.toClient]
    exact hs
  · rcases htold.toClient with hnil | ⟨id, hone⟩
    · rw [hnil]
      exact hs
    · rw [hone]
      have htold' : Link.Told { s.link with toClient := [] } :=
        { htold with toClient := .inl rfl }
      refine ⟨forall_mem_append.mpr ⟨hs.decoded, by simp⟩, hs.old, ?_⟩
      dsimp only
      rcases resolve_helloReply s.client id with h | h
      · exact .of_json (h.trans hc) (.inr htold')
      · rw [hc] at h
        exact .of_cbor h (htold.agreed _)

theorem InStep.clientReads_cbor (hs : s.InStep) (hc : s.client.connection = some (some .jsonCbor)) :
    (s.clientReads .jsonCbor).InStep := by
  have hcur := hs.current.cbor hc
  rw [clientReads]
  cases hto : s.link.toClient with
  | nil => exact hs
  | cons p rest =>
    obtain ⟨written, msg⟩ := p
    have hwritten : written = .jsonCbor := hcur.toClient (written, msg) (by simp [hto])
    have hrest : ∀ p ∈ rest, p ∈ s.link.toClient := fun p hp => by simp [hto, hp]
    subst hwritten
    refine ⟨forall_mem_append.mpr ⟨hs.decoded, by simp⟩, hs.old, ?_⟩
    have hswitched := handleMessage_switched hc fun q hq hh =>
      hcur.answers q hq hh (.jsonCbor, msg) (by simp [hto])
    have htail : Link.Agreed s.client.cbs { s.link with toClient := rest } :=
      { hcur with
        toClient := fun p hp => hcur.toClient p (hrest p hp)
        answers := fun q hq hh p hp => hcur.answers q hq hh p (hrest p hp) }
    dsimp only
    exact .of_cbor hswitched (htail.mono fun q hq _ => handleMessage_cbs s.client msg q hq)

theorem InStep.step {e : SystemEvent} (hs : s.InStep) (hok : s.Gated e) : (s.step e).InStep := by
  cases e with
  | opens => exact hs.opens
  | hello => exact hs.hello hok
  | call method data => exact hs.call data hok
  | run method data => exact hs.run data hok
  | clientReads =>
    rw [System.step]
    split
    · next enc hc =>
      cases enc with
      | json => exact hs.clientReads_json hc
      | jsonCbor => exact hs.clientReads_cbor hc
    · exact hs
  | serverReads => exact hs.serverReads
  | serverAnswers id res => exact hs.serverAnswers id res
  | oldServerReads k => exact hs.oldServerReads k
  | oldServerAnswers k id res => exact hs.oldServerAnswers k id res
  | closes => exact hs.closes

end System

/-- **Client and server agree on the encoding** of every message, in every run in which only the
hello message of an opening connection is written before the client has switched. -/
theorem encodings_agree (events : List SystemEvent)
    (hgated : Runs.Along System.step System.Gated .start events) :
    ∀ d ∈ (events.foldl System.step .start).decoded, d.1 = d.2 :=
  (Runs.invariant System.InStep (fun _ _ hs hok => hs.step hok) System.inStep_start hgated).decoded

/-- A call that waits for the hello answer, its own answer, a close and a second
connection: five messages are read. -/
theorem encodings_agree_reopened :
    let s := [SystemEvent.opens, .serverReads, .clientReads, .call "a" .null, .serverReads,
      .serverAnswers 1 (.response .null), .clientReads, .closes, .opens, .serverReads].foldl
      System.step .start
    s.decoded.length = 5 ∧ ∀ d ∈ s.decoded, d.1 = d.2 :=
  ⟨by decide, encodings_agree _ ⟨trivial, trivial, trivial,
    ⟨by decide, .inr (.inr (by decide))⟩, trivial, trivial, trivial, trivial, trivial, trivial,
    trivial⟩⟩

/-- A `run` before the hello answer calls the hello callback; the next call is then written as JSON,
and the server reads it as CBOR. -/
theorem encodings_disagree :
    ([SystemEvent.opens, .run "a" .null, .call "b" .null, .serverReads, .serverReads].foldl
      System.step .start).decoded = [(.json, .json), (.json, .jsonCbor)] := by
  decide

-- The same after a close: it calls the hello callback too, so that the client's
-- flag is set before the new connection's hello message is answered.
example :
    ([SystemEvent.opens, .closes, .opens, .call "b" .null, .serverReads, .serverReads].foldl
      System.step .start).decoded = [(.json, .json), (.json, .jsonCbor)] := by
  decide

end SimpleIpc
