import McpeLauncher.IpcClient
import McpeLauncher.IpcSend

/-! # Calls that cannot be sent (`rpc_json_call::call`)

`call` registers its callback before it sends the request, and nothing takes it out again when that
throws: it waits for an answer to a request never written (`Waits`). -/
namespace SimpleIpc
open Pending.Table

namespace Client
variable (lib : JsonLibrary) {c : Client} {method : String}

/-- Without a connection, or when `connection->send_message` does, with these results of its writes.
-/
def sendThrows (c : Client) (msg : RpcMessage) (first second : WriteResult) : Bool :=
  match c.connection with
  | none => true
  | some none => false
  | some (some enc) => !(SendCall.perform lib ⟨enc, .rpc msg, first, second⟩).2

def callThrows (c : Client) (cb : Callback) (method : String) (data : Json)
    (first second : WriteResult) : Bool :=
  match (c.call cb method data).sent with
  | none => false
  | some msg => c.sendThrows lib msg first second

theorem refuses_of_callThrows {cb : Callback} {data : Json} {first second : WriteResult}
    (h : c.callThrows lib cb method data first second = true) : c.refuses method = false := by
  unfold callThrows at h
  cases hsent : (c.call cb method data).sent with
  | none => rw [hsent] at h; cases h
  | some msg => exact (sendMessage_sent hsent).1

theorem call_lookup (h : c.refuses method = false) (cb : Callback) (data : Json) (id : MessageId) :
    (c.call cb method data).client.cbs.lookup id =
      if id = c.nextMessageId then some cb else c.cbs.lookup id := by
  have hpass : ¬c.refuses method = true := by rw [h]; exact Bool.false_ne_true
  have hcall : (c.call cb method data).client =
      { c with nextMessageId := c.nextMessageId + 1 }.addRpcCb c.nextMessageId cb :=
    congrArg Outcome.client (if_neg hpass)
  rw [hcall, addRpcCb, List.lookup_cons]
  split
  · next hid => rw [if_pos (beq_iff_eq.mp hid)]
  · next hid =>
    have hne : id ≠ c.nextMessageId := by simpa using hid
    rw [if_neg hne]
    exact Pending.lookup_filter_ne _ hne

end Client

namespace ClientRun

/-- An event that neither takes the callback of request `id` nor puts another one in its
place. -/
def Spares (id : MessageId) (s : ClientRun) : ClientEvent → Prop
  | .call _ _ => id ≠ s.client.nextMessageId
  -- a refused `run` takes the callback with the id 0, the id of a message that has none
  | .run method _ => s.client.refuses method = true → id ≠ 0
  | .hello => id ≠ s.client.nextMessageId
  | .opened => id ≠ s.client.nextMessageId
  | .response msg => msg.messageId ≠ some id
  | .error msg => msg.messageId ≠ some id
  | .closed => False

/-- The callback with this token waits under `id`. -/
def Waits (id : MessageId) (token : Nat) (s : ClientRun) : Prop :=
  s.table.waiting.lookup id = some token

section Waits
variable {s : ClientRun} {id : MessageId} {token : Nat}

theorem Waits.call (hs : s.Waits id token) (c : Client) (hc : c.cbs = s.client.cbs) (hello : Bool)
    (method : String) (data : Json) (cause : Cause) (hne : id ≠ c.nextMessageId) :
    (s.record (s.registered ++ [c.nextMessageId]) cause
      (c.call ⟨s.registered.length, hello⟩ method data)).Waits id token := by
  unfold Waits
  rw [table_call s c hc]
  split
  · exact lookup_resolve_ne (lookup_register_ne hs hne) hne _
  · exact lookup_register_ne hs hne

theorem Waits.answer (hs : s.Waits id token) {msgId : Option MessageId} (hne : msgId ≠ some id) :
    (answered s.table msgId).waiting.lookup id = some token := by
  cases msgId with
  | none => exact hs
  | some k => exact lookup_resolve_ne hs (fun heq => hne (congrArg some heq.symm)) _

theorem Waits.step (hs : s.Waits id token) {e : ClientEvent} (he : s.Spares id e) :
    (s.step e).Waits id token := by
  cases e with
  | call method data => exact hs.call s.client rfl false method data _ he
  | hello => exact hs.call s.client rfl true ".hello" Client.helloData _ he
  | opened =>
    exact hs.call { s.client with connection := some (some .default) } rfl true ".hello"
      Client.helloData _ he
  | run method data =>
    unfold Waits
    rw [ClientRun.step, Client.run, table_sendMessage]
    split
    · next hrefused => exact lookup_resolve_ne hs (he hrefused) _
    · exact hs
  | response msg =>
    unfold Waits
    rw [table_response]
    exact hs.answer he
  | error msg =>
    unfold Waits
    rw [table_error]
    exact hs.answer he
  | closed => exact he.elim

end Waits

end ClientRun

section Failed
variable (lib : JsonLibrary)
open ClientRun

/-- **A call that throws leaves its callback behind**, which waits until it is taken or replaced; a
response with its id calls it, and so does the closing. -/
theorem failed_call_stays_pending (s : ClientRun) (method : String) (data : Json)
    (first second : WriteResult)
    (hthrows :
      s.client.callThrows lib ⟨s.registered.length, false⟩ method data first second = true) :
    let id := s.client.nextMessageId
    let s' := s.step (.call method data)
    ((∀ k, s'.client.cbs.lookup k = s.client.cbs.lookup k) ↔
        s.client.cbs.lookup id = some ⟨s.registered.length, false⟩) ∧
      (s.table.Valid → s.client.cbs.lookup id ≠ some ⟨s.registered.length, false⟩) ∧
      ∀ events, Runs.Along ClientRun.step (Spares id) s' events →
        let t := events.foldl ClientRun.step s'
        t.Waits id s.registered.length ∧
          (∀ res, ⟨s.registered.length, id, .answer (some id)⟩ ∈
            (t.step (.response ⟨some id, res⟩)).invoked) ∧
          (∀ code text res, ⟨s.registered.length, id, .answer (some id)⟩ ∈
            (t.step (.error ⟨some id, code, text, res⟩)).invoked) ∧
          ⟨s.registered.length, id, .closed⟩ ∈ (t.step .closed).invoked := by
  intro id s'
  have hpass := Client.refuses_of_callThrows lib hthrows
  have hlookup := Client.call_lookup hpass ⟨s.registered.length, false⟩ data
  refine ⟨⟨fun hsame => ?_, fun hthere k => ?_⟩, fun hvalid hthere => ?_, fun events hevents => ?_⟩
  · rw [← hsame id]
    exact (hlookup id).trans (if_pos rfl)
  · refine (hlookup k).trans ?_
    split
    · next hk => rw [hk, hthere]
    · rfl
  · -- the token is the next one to be given out
    have hmem : (id, s.registered.length) ∈ s.table.waiting :=
      List.mem_map.mpr ⟨_, Pending.mem_of_lookup hthere, rfl⟩
    exact lt_irrefl _ (hvalid.waiting_lt hmem)
  · have hwaits : s'.Waits id s.registered.length := by
      have htable := table_call s s.client rfl false method data (.refusedCall s.registered.length)
      rw [hpass] at htable
      exact (congrArg (fun t => t.waiting.lookup id) htable).trans
        (lookup_register_self _ _)
    have ht := Runs.invariant (Waits id s.registered.length) (fun _ _ hs he => hs.step he) hwaits
      hevents
    generalize events.foldl ClientRun.step s' = t at ht ⊢
    have hanswer : ∀ res, ⟨s.registered.length, id, .answer (some id)⟩ ∈
        (t.record t.registered (.answer (some id)) (t.client.resolve id res)).table.taken := by
      intro res
      rw [table_resolve]
      exact mem_taken_resolve ht _
    refine ⟨ht, fun res => hanswer _, fun code text res => hanswer _, ?_⟩
    have hclosed := mem_taken_drain ht Cause.closed
    rw [← table_closed] at hclosed
    exact hclosed

end Failed

/-- A client whose server has answered the hello message with an error. -/
def refusedHello : ClientRun :=
  [ClientEvent.opened,
    .error ⟨some 0, RpcErrorCodes.methodNotFound, "Method not found", .null⟩].foldl
    ClientRun.step .start

theorem failed_call_waits :
    refusedHello.client.callThrows sampleLibrary ⟨1, false⟩ "a" .null .wouldBlock .full = true ∧
      (refusedHello.step (.call "a" .null)).Waits 1 1 := by
  have hthrows : refusedHello.client.callThrows sampleLibrary
      ⟨refusedHello.registered.length, false⟩ "a" .null .wouldBlock .full = true := rfl
  obtain ⟨_, _, hrun⟩ := failed_call_stays_pending sampleLibrary refusedHello "a" .null .wouldBlock
    .full hthrows
  exact ⟨hthrows, (hrun [] trivial).1⟩

/-- No callback was registered before the call; the exception leaves one, and the closing of the
connection calls it. -/
theorem failed_call_called_at_close :
    refusedHello.client.callThrows sampleLibrary ⟨1, false⟩ "a" .null .wouldBlock .full = true ∧
      refusedHello.client.cbs = [] ∧
      (refusedHello.step (.call "a" .null)).client.cbs = [(1, ⟨1, false⟩)] ∧
      ((refusedHello.step (.call "a" .null)).step .closed).invoked =
        [⟨0, 0, .answer (some 0)⟩, ⟨1, 1, .closed⟩] :=
  ⟨rfl, rfl, rfl, rfl⟩

end SimpleIpc
