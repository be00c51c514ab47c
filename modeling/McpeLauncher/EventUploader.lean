import Mathlib
import McpeLauncher.EventBatch

/-! # Uploading a batch

`EventUploader::sendEvents`, in its two forms. The first posts one list of events; it tries again
once where a step asks for it after a 401. -/
namespace Cll
open List
open Lines (fitting fitting_pos)

/-! ## Requests and answers -/

/-- `HttpResponse`, without the body, which the uploader does not read. -/
structure HttpResponse where
  status : Int
  headers : List (String × String)

/-- `findHeader`: empty where there is no header of that name. -/
def HttpResponse.findHeader (res : HttpResponse) (name : String) : String :=
  (res.headers.lookup name).getD ""

inductive HttpMethod where
  | GET
  | POST

structure HttpRequest where
  url : String
  method : HttpMethod
  headers : List (String × String)
  postData : List UInt8

/-- A request for a list of events and its answer, with none for an `HttpError`. -/
structure Exchange where
  list : VectorBatchedEventList
  request : HttpRequest
  response : Option HttpResponse

def Exchange.Answered (x : Exchange) (status : Int) : Prop :=
  ∃ res, x.response = some res ∧ res.status = status

/-- `EventUploadStatus`, with `retryAfter` in seconds. -/
inductive EventUploadStatus where
  | success
  | errorGeneric
  | errorRateLimit (retryAfter : Int)
  deriving DecidableEq

/-- A status, an exception, a null pointer; or the call has not ended yet. -/
inductive UploadOutcome where
  | returned (status : EventUploadStatus)
  | threw
  | nullPointer
  | running
  deriving DecidableEq

def isSpace (c : Char) : Bool := c = ' ' || ('\t' ≤ c && c ≤ '\r')

/-- The digits at the front of a text, as a number. -/
def leadingDigits (text : List Char) : Option Nat :=
  match text.takeWhile Char.isDigit with
  | [] => none
  | digits => some (digits.foldl (fun n c => 10 * n + (c.toNat - '0'.toNat)) 0)

/-- `std::stoull`, with none where it throws.  A minus sign negates modulo
`2 ^ 64`. -/
def stoull (text : String) : Option Nat := do
  let text := text.toList.dropWhile isSpace
  let (negative, text) := match text with
    | '-' :: rest => (true, rest)
    | '+' :: rest => (false, rest)
    | _ => (false, text)
  let n ← leadingDigits text
  if 2 ^ 64 ≤ n then none
  else some (if negative then (2 ^ 64 - n) % 2 ^ 64 else n)

structure EventUploadStep (ε : Type) where
  onRequest : VectorBatchedEventList → ε → List (String × String) × ε
  onAuthenticationFailed : ε → Bool × ε

/-- With the HTTP client, the clock and the compressor it uses. -/
structure EventUploader (ε : Type) where
  url : String
  steps : List (EventUploadStep ε)
  send : HttpRequest → ε → Option HttpResponse × ε
  getUploadTimestamp : ε → String × ε
  compress : List UInt8 → List UInt8

namespace EventUploader

section List
variable {ε : Type} (u : EventUploader ε) {x : Exchange}
  {again : ε → UploadOutcome × List Exchange × ε}

def onRequest (l : VectorBatchedEventList) :
    List (EventUploadStep ε) → ε → List (String × String) × ε
  | [], e => ([], e)
  | h :: steps, e =>
    let (headers, e) := h.onRequest l e
    let (more, e) := onRequest l steps e
    (headers ++ more, e)

/-- Every step is told, and one of them may ask to try again. -/
def onAuthenticationFailed : List (EventUploadStep ε) → ε → Bool × ε
  | [], e => (false, e)
  | h :: steps, e =>
    let (retry, e) := h.onAuthenticationFailed e
    let (more, e) := onAuthenticationFailed steps e
    (retry || more, e)

def createRequest (l : VectorBatchedEventList) (compress : Bool) (e : ε) : HttpRequest × ε :=
  let (time, e) := u.getUploadTimestamp e
  let headers := [("Content-Type", "application/x-json-stream; charset=utf-8"),
    ("X-UploadTime", time)]
  let headers :=
    if compress then
      headers ++ [("Accept", "application/json"), ("Accept-Encoding", "gzip, deflate"),
        ("Content-Encoding", "deflate")]
    else headers
  let (more, e) := onRequest l u.steps e
  (⟨u.url, .POST, headers ++ more, if compress then u.compress l.data else l.data⟩, e)

def retryAfterStatus (retryAfter : String) : UploadOutcome :=
  if retryAfter = "" then .returned .errorGeneric
  else match stoull retryAfter with
    | none => .threw
    -- `std::chrono::seconds` is signed
    | some n => .returned (.errorRateLimit (BitVec.ofNat 64 n).toInt)

/-- What an answer means; none for a 401, after which the steps are asked. -/
def status : Option HttpResponse → Option UploadOutcome
  | none => some (.returned .errorGeneric)
  | some res =>
    if res.status = 200 then some (.returned .success)
    else if res.status = 429 ∨ res.status = 503 then
      some (retryAfterStatus (res.findHeader "Retry-After"))
    else if res.status = 401 then none
    else some (.returned .errorGeneric)

/-- One request.  `again` is the call made when it is to be tried again. -/
def attempt (l : VectorBatchedEventList) (compress canRetry : Bool)
    (again : ε → UploadOutcome × List Exchange × ε) (e : ε) :
    UploadOutcome × List Exchange × ε :=
  let (req, e) := u.createRequest l compress e
  let (response, e) := u.send req e
  let x : Exchange := ⟨l, req, response⟩
  match status response with
  | some outcome => (outcome, [x], e)
  | none =>
    let (retry, e) := onAuthenticationFailed u.steps e
    if retry && canRetry then
      let (outcome, log, e) := again e
      (outcome, x :: log, e)
    else (.returned .errorGeneric, [x], e)

def sendEventList (l : VectorBatchedEventList) (compress canRetry : Bool) (e : ε) :
    UploadOutcome × List Exchange × ε :=
  let last := u.attempt l compress false fun e => (.returned .errorGeneric, [], e)
  u.attempt l compress canRetry last e

theorem retryAfterStatus_ne_success (retryAfter : String) :
    retryAfterStatus retryAfter ≠ .returned .success := by
  rw [retryAfterStatus]
  split
  · simp
  · split
    · simp
    · simp

theorem status_success {response : Option HttpResponse}
    (h : status response = some (.returned .success)) :
    ∃ res, response = some res ∧ res.status = 200 := by
  cases response with
  | none => exact absurd h (by simp [status])
  | some res =>
    refine ⟨res, rfl, ?_⟩
    by_contra hne
    rw [status, if_neg hne] at h
    split at h
    · exact retryAfterStatus_ne_success _ (Option.some_inj.mp h)
    · split at h
      · exact absurd h (by simp)
      · exact absurd h (by simp)

/-- The request was for the list, as it is or compressed. -/
def Carries (x : Exchange) (l : VectorBatchedEventList) : Prop :=
  x.list = l ∧ (x.request.postData = l.data ∨ x.request.postData = u.compress l.data)

/-- The requests were for the list, and one was answered with 200 if the call succeeded. -/
def Posted (l : VectorBatchedEventList) (r : UploadOutcome × List Exchange × ε) : Prop :=
  (∀ x ∈ r.2.1, u.Carries x l) ∧ (r.1 = .returned .success → ∃ x ∈ r.2.1, x.Answered 200)

variable (l : VectorBatchedEventList)

theorem createRequest_postData (compress : Bool) (e : ε) :
    (u.createRequest l compress e).1.postData = l.data ∨
      (u.createRequest l compress e).1.postData = u.compress l.data := by
  cases compress with
  | false => exact .inl rfl
  | true => exact .inr rfl

theorem attempt_posted (compress canRetry : Bool)
    (hagain : ∀ e, u.Posted l (again e)) (e : ε) :
    u.Posted l (u.attempt l compress canRetry again e) := by
  have hreq := u.createRequest_postData l compress e
  simp only [attempt]
  split
  · next outcome hstatus =>
    refine ⟨by simpa [Carries] using hreq, fun hok => ?_⟩
    obtain ⟨res, hres, hcode⟩ := status_success (hstatus.trans (congrArg some hok))
    exact ⟨_, mem_singleton_self _, res, hres, hcode⟩
  · split
    · obtain ⟨hlist, hok⟩ := hagain
        (onAuthenticationFailed u.steps (u.send (u.createRequest l compress e).1
          (u.createRequest l compress e).2).2).2
      refine ⟨fun x hx => ?_, fun h => ?_⟩
      · rcases mem_cons.mp hx with rfl | hx
        · exact ⟨rfl, hreq⟩
        · exact hlist x hx
      · obtain ⟨x, hx, hcode⟩ := hok h
        exact ⟨x, mem_cons_of_mem _ hx, hcode⟩
    · exact ⟨by simpa [Carries] using hreq, by simp⟩

theorem sendEventList_posted (compress canRetry : Bool) (e : ε) :
    u.Posted l (u.sendEventList l compress canRetry e) := by
  refine u.attempt_posted l compress canRetry (fun e => ?_) e
  refine u.attempt_posted l compress false (fun e => ?_) e
  exact ⟨by simp, by simp⟩

/-! ### Every answer gives a status -/

/-- The number of seconds can be read where it is asked for. -/
def Timed (x : Exchange) : Prop :=
  ∀ res, x.response = some res → res.status = 429 ∨ res.status = 503 →
    res.findHeader "Retry-After" = "" ∨ (stoull (res.findHeader "Retry-After")).isSome = true

/-- The number of requests, and that a status is returned as long as the answers are `Timed`. -/
def Answers (n : Nat) (r : UploadOutcome × List Exchange × ε) : Prop :=
  r.2.1.length ≤ n ∧ ((∃ st, r.1 = .returned st) ↔ ∀ x ∈ r.2.1, Timed x)

theorem retryAfterStatus_returned (retryAfter : String) :
    (∃ st, retryAfterStatus retryAfter = .returned st) ↔
      retryAfter = "" ∨ (stoull retryAfter).isSome = true := by
  rw [retryAfterStatus]
  split
  · next hempty => exact iff_of_true ⟨_, rfl⟩ (.inl hempty)
  · next hne =>
    rcases stoull retryAfter with _ | n
    · simp [hne]
    · simp

theorem status_returned {outcome : UploadOutcome} (h : status x.response = some outcome) :
    (∃ st, outcome = .returned st) ↔ Timed x := by
  obtain ⟨l, req, _ | res⟩ := x
  · cases h
    exact iff_of_true ⟨_, rfl⟩ (by simp [Timed])
  · simp only [Timed, Option.some.injEq, forall_eq']
    by_cases hlimit : res.status = 429 ∨ res.status = 503
    · have hok : res.status ≠ 200 := by omega
      rw [status, if_neg hok, if_pos hlimit, Option.some.injEq] at h
      rw [← h, retryAfterStatus_returned]
      exact ⟨fun hread _ => hread, fun hread => hread hlimit⟩
    · refine iff_of_true ?_ fun h => absurd h hlimit
      rw [status, if_neg hlimit] at h
      split at h
      · exact ⟨_, (Option.some_inj.mp h).symm⟩
      · split at h
        · cases h
        · exact ⟨_, (Option.some_inj.mp h).symm⟩

theorem status_none (h : status x.response = none) : Timed x := by
  intro res hres hlimit
  have hok : res.status ≠ 200 := by omega
  rw [hres, status, if_neg hok, if_pos hlimit] at h
  cases h

theorem attempt_answers (compress canRetry : Bool) {n : Nat}
    (hagain : ∀ e, Answers n (again e)) (e : ε) :
    Answers (n + 1) (u.attempt l compress canRetry again e) := by
  simp only [attempt]
  split
  · next outcome hstatus => exact ⟨by simp, by simpa using status_returned hstatus⟩
  · next hstatus =>
    split
    · obtain ⟨hlength, hreturned⟩ := hagain
        (onAuthenticationFailed u.steps (u.send (u.createRequest l compress e).1
          (u.createRequest l compress e).2).2).2
      refine ⟨Nat.succ_le_succ hlength, hreturned.trans ?_⟩
      rw [forall_mem_cons]
      exact (and_iff_right (status_none hstatus)).symm
    · exact ⟨by simp, by simpa using status_none hstatus⟩

/-- **Sending a list** makes at most two requests, and returns a status exactly if a `Retry-After`
that counts is a number. -/
theorem sendEventList_status (l : VectorBatchedEventList) (compress canRetry : Bool) (e : ε) :
    (u.sendEventList l compress canRetry e).2.1.length ≤ 2 ∧
      ((∃ st, (u.sendEventList l compress canRetry e).1 = .returned st) ↔
        ∀ x ∈ (u.sendEventList l compress canRetry e).2.1, Timed x) := by
  refine u.attempt_answers l compress canRetry (fun e => ?_) e
  refine u.attempt_answers l compress false (fun e => ?_) e
  exact ⟨le_refl 0, by simp⟩

/-- A client whose server answers every request with 429 and this `Retry-After`. -/
def limitedBy (retryAfter : String) : EventUploader Unit where
  url := ""
  steps := []
  send _ e := (some ⟨429, [("Retry-After", retryAfter)]⟩, e)
  getUploadTimestamp e := ("", e)
  compress data := data

/-- **A date is not a number**: the exception of `stoull` leaves the call. -/
theorem sendEventList_date :
    ((limitedBy "Wed, 21 Oct 2015 07:28:00 GMT").sendEventList ⟨[], 0, false⟩ false true ()).1 =
        .threw ∧
      ((limitedBy "120").sendEventList ⟨[], 0, false⟩ false true ()).1 =
        .returned (.errorRateLimit 120) := by
  decide

end List

end EventUploader

/-- An `EventBatch` whose lists may wrap a null pointer; `valid` is false for those
that do. -/
structure UploadBatch (σ ℓ : Type) extends EventBatch σ ℓ where
  valid : ℓ → Bool

def EventBatch.plain {σ ℓ : Type} (B : EventBatch σ ℓ) : UploadBatch σ ℓ :=
  { B with valid := fun _ => true }

def UploadBatch.view {σ ℓ : Type} (B : UploadBatch σ ℓ) (l : ℓ) : VectorBatchedEventList :=
  ⟨B.getData l, B.getEventCount l, B.hasMoreEvents l⟩

def sizeMax : Nat := 2 ^ 64 - 1

/-- How `sendEvents` ended, with its requests, the data it dropped, what it leaves, and a list that
is to be acknowledged. -/
structure Upload (σ ℓ ε : Type) where
  outcome : UploadOutcome
  log : List Exchange
  dropped : List (List UInt8)
  batch : σ
  env : ε
  uploaded : Option ℓ

namespace EventUploader

section Batch
variable {σ ℓ ε : Type} (B : UploadBatch σ ℓ) (u : EventUploader ε)

/-- `sendEvents(EventBatch&, maxCount, maxSize)` up to the acknowledgement. -/
def postEvents (maxCount maxSize : Nat) : Nat → σ → ε → Upload σ ℓ ε
  | 0, s, e => ⟨.running, [], [], s, e, none⟩
  | fuel + 1, s, e =>
    match B.getEventsForUpload maxCount maxSize s with
    | (none, s) =>
      if B.hasEvents s then
        -- the first event is dropped
        match B.getEventsForUpload 1 sizeMax s with
        | (none, s) => ⟨.returned .errorGeneric, [], [], s, e, none⟩
        | (some ev, s) =>
          if B.valid ev then
            let r := postEvents maxCount maxSize fuel (B.onEventsUploaded ev s) e
            { r with dropped := B.getData ev :: r.dropped }
          else ⟨.nullPointer, [], [], s, e, none⟩
      else ⟨.returned .success, [], [], s, e, none⟩
    | (some events, s) =>
      if B.valid events then
        let (outcome, log, e) :=
          u.sendEventList (B.view events) (decide (1 < B.getEventCount events)) true e
        ⟨outcome, log, [], s, e, if outcome = .returned .success then some events else none⟩
      else ⟨.nullPointer, [], [], s, e, none⟩

def acknowledge (r : Upload σ ℓ ε) : Upload σ ℓ ε :=
  match r.uploaded with
  | none => r
  | some events => { r with batch := B.onEventsUploaded events r.batch, uploaded := none }

@[simp] theorem acknowledge_outcome (r : Upload σ ℓ ε) : (acknowledge B r).outcome = r.outcome := by
  rw [acknowledge]
  split
  · rfl
  · rfl

@[simp] theorem acknowledge_dropped (r : Upload σ ℓ ε) : (acknowledge B r).dropped = r.dropped := by
  rw [acknowledge]
  split
  · rfl
  · rfl

def sendEvents (maxCount maxSize fuel : Nat) (s : σ) (e : ε) : Upload σ ℓ ε :=
  acknowledge B (postEvents B u maxCount maxSize fuel s e)

end Batch

end EventUploader

/-- In state `s` a batch has the lines `ls` (`Holds s ls`), and `l` can be acknowledged (`Out l s`).
-/
structure UploadBatch.IsStore {σ ℓ : Type} (B : UploadBatch σ ℓ)
    (Holds : σ → List (List UInt8) → Prop) (Out : ℓ → σ → Prop) : Prop where
  isLine {s ls} : Holds s ls → ∀ l ∈ ls, Lines.IsLine 10 l
  /-- Listing removes nothing. -/
  getEventsForUpload {s ls} (maxCount maxSize) : Holds s ls →
    Holds (B.getEventsForUpload maxCount maxSize s).2 ls
  out {s ls l} (maxCount maxSize) : Holds s ls →
    (B.getEventsForUpload maxCount maxSize s).1 = some l → B.valid l = true →
      Out l (B.getEventsForUpload maxCount maxSize s).2
  /-- Acknowledging a list removes the events in it. -/
  onEventsUploaded {s ls l} : Holds s ls → Out l s →
    ∃ done rest, ls.Perm (done ++ rest) ∧ B.getData l = done.flatten ∧
      B.getEventCount l = done.length ∧ Holds (B.onEventsUploaded l s) rest ∧
      (ls = done ++ rest ∨ ∀ maxCount maxSize s, (B.getEventsForUpload maxCount maxSize s).1 ≠ none)

theorem EventBatch.IsQueue.isStore {σ ℓ : Type} {B : EventBatch σ ℓ}
    {Represents : σ → List (List UInt8) → Prop} {Listed : ℓ → σ → Prop}
    (hB : B.IsQueue Represents Listed) : B.plain.IsStore Represents Listed where
  isLine := hB.isLine
  getEventsForUpload := hB.getEventsForUpload
  out maxCount maxSize h hl _ := hB.listed maxCount maxSize h hl
  onEventsUploaded := by
    intro s ls l h hl
    obtain ⟨done, rest, hls, hdata, hcount, hrest⟩ := hB.onEventsUploaded h hl
    exact ⟨done, rest, .of_eq hls, hdata, hcount, hrest, .inl hls⟩

/-- How a batch makes its lists: of the events `listed`, with the flag for more events set in any
case if `later`.  A line longer than `lineLimit` does not fit; `listsNothing`: a list without events
is returned where no bytes are allowed. -/
structure Listing (σ : Type) where
  listed : σ → List (List UInt8)
  later : σ → Bool
  lineLimit : Nat → Nat
  listsNothing : Bool

/-- The lists hold as many of the events `listed` as fit, and these are the first of all. -/
structure EventBatch.ListsFrom {σ ℓ : Type} (B : EventBatch σ ℓ)
    (Holds : σ → List (List UInt8) → Prop) (Out : ℓ → σ → Prop) (L : Listing σ) : Prop where
  front {s ls} : Holds s ls → L.listed s <+: ls
  last {s ls} : Holds s ls → L.later s = false → L.listed s = ls
  hasEvents {s ls} : Holds s ls → ls ≠ [] → B.hasEvents s = true
  list {s ls} (maxCount maxSize) : Holds s ls →
    (B.getEventsForUpload maxCount maxSize s).1.map B.plain.view =
      if L.listed s = [] ∨ maxCount = 0 ∨ maxSize = 0 ∧ L.listsNothing = false then none
      else
        let n := fitting maxCount (L.lineLimit maxSize) (L.listed s)
        some ⟨((L.listed s).take n).flatten, n, L.later s || decide (n < (L.listed s).length)⟩
  listed_getEventsForUpload {s ls} (maxCount maxSize) : Holds s ls →
    L.listed (B.getEventsForUpload maxCount maxSize s).2 = L.listed s
  /-- An acknowledgement leaves events to list if it leaves any. -/
  listed_onEventsUploaded {s ls l rest} : Holds s ls → Out l s →
    Holds (B.onEventsUploaded l s) rest → rest ≠ [] → L.listed (B.onEventsUploaded l s) ≠ []
  lineLimit_le (maxSize) : L.lineLimit maxSize ≤ maxSize

section ListsFrom
variable {σ ℓ : Type} {B : EventBatch σ ℓ} {Holds : σ → List (List UInt8) → Prop}
  {Out : ℓ → σ → Prop} {L : Listing σ}

/-- A batch that lists from all its events. -/
theorem EventBatch.ListsFrom.of_all (hB : B.plain.IsStore Holds Out)
    (hall : ∀ {s ls}, Holds s ls → L.listed s = ls) (hlater : ∀ s, L.later s = false)
    (hhas : ∀ {s ls}, Holds s ls → ls ≠ [] → B.hasEvents s = true)
    (hlist : ∀ {s ls} (maxCount maxSize), Holds s ls →
      (B.getEventsForUpload maxCount maxSize s).1.map B.plain.view =
        if ls = [] ∨ maxCount = 0 ∨ maxSize = 0 ∧ L.listsNothing = false then none
        else
          let n := fitting maxCount (L.lineLimit maxSize) ls
          some ⟨(ls.take n).flatten, n, decide (n < ls.length)⟩)
    (hlimit : ∀ maxSize, L.lineLimit maxSize ≤ maxSize) : B.ListsFrom Holds Out L where
  front h := (hall h).symm ▸ prefix_refl _
  last h _ := hall h
  hasEvents := hhas
  list maxCount maxSize h := by
    rw [hlist maxCount maxSize h, hall h, hlater]
    rfl
  listed_getEventsForUpload maxCount maxSize h :=
    (hall (hB.getEventsForUpload maxCount maxSize h)).trans (hall h).symm
  listed_onEventsUploaded _ _ hrest hne := (hall hrest).trans_ne hne
  lineLimit_le := hlimit

theorem EventBatch.ListsFrom.of_imp {Holds' : σ → List (List UInt8) → Prop}
    (hL : B.ListsFrom Holds Out L) (himp : ∀ {s ls}, Holds' s ls → Holds s ls) :
    B.ListsFrom Holds' Out L where
  front h := hL.front (himp h)
  last h := hL.last (himp h)
  hasEvents h := hL.hasEvents (himp h)
  list maxCount maxSize h := hL.list maxCount maxSize (himp h)
  listed_getEventsForUpload maxCount maxSize h :=
    hL.listed_getEventsForUpload maxCount maxSize (himp h)
  listed_onEventsUploaded h hl hrest := hL.listed_onEventsUploaded (himp h) hl (himp hrest)
  lineLimit_le := hL.lineLimit_le

variable (hL : B.ListsFrom Holds Out L) {s : σ}
  {ls : List (List UInt8)} (h : Holds s ls)
include hL h

theorem EventBatch.ListsFrom.eq_none (maxCount maxSize : Nat) :
    (B.getEventsForUpload maxCount maxSize s).1 = none ↔
      L.listed s = [] ∨ maxCount = 0 ∨ maxSize = 0 ∧ L.listsNothing = false := by
  rw [← Option.map_eq_none_iff, hL.list maxCount maxSize h]
  split
  · next hstop => exact iff_of_true rfl hstop
  · next hgo => exact iff_of_false nofun hgo

theorem EventBatch.ListsFrom.view_eq {maxCount maxSize : Nat} {l : ℓ}
    (hl : (B.getEventsForUpload maxCount maxSize s).1 = some l) :
    let n := fitting maxCount (L.lineLimit maxSize) (L.listed s)
    B.plain.view l =
      ⟨((L.listed s).take n).flatten, n, L.later s || decide (n < (L.listed s).length)⟩ := by
  have hlist := hL.list maxCount maxSize h
  rw [hl] at hlist
  split at hlist
  · cases hlist
  · exact Option.some.inj hlist

end ListsFrom

/-- Whether a list holds an event, and when there is none: without events, where the batch is stuck,
or where no byte may be listed. -/
structure UploadBatch.Lists {σ ℓ : Type} (B : UploadBatch σ ℓ)
    (Holds : σ → List (List UInt8) → Prop) (lineLimit : Nat → Nat) (Fits : σ → Nat → Prop) :
    Prop where
  fits {s ls maxSize} : Holds s ls → (∀ d ∈ ls, d.length ≤ lineLimit maxSize) → Fits s maxSize
  positive {s ls l maxCount maxSize} : Holds s ls → 0 < maxCount → 0 < maxSize →
    (B.getEventsForUpload maxCount maxSize s).1 = some l → B.valid l = true →
      (0 < B.getEventCount l ↔ Fits s maxSize)
  unfit {s ls maxCount maxSize} : Holds s ls → 0 < maxCount → 0 < maxSize → ¬ Fits s maxSize →
    ∃ l, (B.getEventsForUpload maxCount maxSize s).1 = some l ∧ B.valid l = true
  refuses {s ls maxCount maxSize} : Holds s ls → 0 < maxCount →
    (B.getEventsForUpload maxCount maxSize s).1 = none →
      B.hasEvents (B.getEventsForUpload maxCount maxSize s).2 = false ∧ ls = [] ∨
      B.hasEvents (B.getEventsForUpload maxCount maxSize s).2 = true ∧
        (B.getEventsForUpload 1 sizeMax (B.getEventsForUpload maxCount maxSize s).2).1 = none ∨
      maxSize = 0

theorem EventBatch.ListsFrom.lists {σ ℓ : Type} {B : EventBatch σ ℓ}
    {Holds : σ → List (List UInt8) → Prop} {Out : ℓ → σ → Prop} {L : Listing σ}
    (hB : B.plain.IsStore Holds Out) (hL : B.ListsFrom Holds Out L) :
    B.plain.Lists Holds L.lineLimit
      (fun s maxSize => ∀ d ∈ (L.listed s).head?, d.length ≤ L.lineLimit maxSize) where
  fits h hfits d hd := hfits d ((hL.front h).subset (mem_of_head? hd))
  positive := by
    intro s ls l maxCount maxSize h hcount _ hl _
    have hne : L.listed s ≠ [] := fun hnil =>
      absurd (hl.symm.trans ((hL.eq_none h _ _).mpr (.inl hnil))) nofun
    have hevents : B.getEventCount l = _ := congrArg VectorBatchedEventList.events (hL.view_eq h hl)
    obtain ⟨d, rest, hlisted⟩ := exists_cons_of_ne_nil hne
    change 0 < B.getEventCount l ↔ _
    rw [hevents, hlisted, fitting_pos]
    simp [hcount]
  unfit := by
    intro s ls maxCount maxSize h hcount hsize hlong
    obtain ⟨l, hl⟩ := Option.ne_none_iff_exists'.mp fun hnone => by
      rcases (hL.eq_none h maxCount maxSize).mp hnone with hnil | hzero | ⟨hzero, _⟩
      · rw [hnil] at hlong
        exact hlong nofun
      · omega
      · omega
    exact ⟨l, hl, rfl⟩
  refuses := by
    intro s ls maxCount maxSize h hcount hnone
    have h' := hB.getEventsForUpload maxCount maxSize h
    rcases (hL.eq_none h maxCount maxSize).mp hnone with hnil | hzero | ⟨hzero, _⟩
    · have hnil' := (hL.listed_getEventsForUpload maxCount maxSize h).trans hnil
      cases hhas : B.hasEvents (B.getEventsForUpload maxCount maxSize s).2 with
      | true => exact .inr (.inl ⟨hhas, (hL.eq_none h' 1 sizeMax).mpr (.inl hnil')⟩)
      | false =>
        refine .inl ⟨hhas, by_contra fun hne => ?_⟩
        exact absurd (hhas.symm.trans (hL.hasEvents h' hne)) nofun
    · omega
    · exact .inr (.inr hzero)

/-- The batch knows whether it has events, and lists some if it has. -/
structure UploadBatch.Drains {σ ℓ : Type} (B : UploadBatch σ ℓ)
    (Holds : σ → List (List UInt8) → Prop) (lineLimit : Nat → Nat) : Prop where
  hasEvents {s ls} : Holds s ls → (B.hasEvents s = true ↔ ls ≠ [])
  lists {s ls maxCount maxSize} : Holds s ls → ls ≠ [] → 0 < maxCount →
    (∀ d ∈ ls, d.length ≤ lineLimit maxSize) →
      ∃ l, (B.getEventsForUpload maxCount maxSize s).1 = some l ∧ B.valid l = true

namespace EventUploader

section Safety
variable {σ ℓ ε : Type} {B : UploadBatch σ ℓ} {Holds : σ → List (List UInt8) → Prop}
  {Out : ℓ → σ → Prop} {lineLimit : Nat → Nat} {Fits : σ → Nat → Prop} {s : σ}
  {ls : List (List UInt8)} {maxSize : Nat}

/-! ## What is removed -/

theorem lines_of_data (hB : B.IsStore Holds Out) (h : Holds s ls) {done rest : List (List UInt8)}
    {l : ℓ} (hls : ls.Perm (done ++ rest)) (hdata : B.getData l = done.flatten) :
    Lines.lines 10 (B.getData l) = done := by
  rw [hdata]
  refine Lines.lines_flatten 10 fun d hd => hB.isLine h d ?_
  exact hls.mem_iff.mpr (mem_append_left _ hd)

variable (B Holds Out) in
/-- Of `ls` only dropped events have been removed, from the front; a list posted with success can be
acknowledged. -/
def Accounts (u : EventUploader ε) (ls : List (List UInt8)) (r : Upload σ ℓ ε) : Prop :=
  ∃ rest, ls = r.dropped.flatMap (Lines.lines 10) ++ rest ∧ Holds r.batch rest ∧
    ∀ l, r.uploaded = some l →
      Out l r.batch ∧ ∃ x ∈ r.log, x.Answered 200 ∧ u.Carries x (B.view l)

theorem postEvents_accounts (hB : B.IsStore Holds Out) (u : EventUploader ε)
    (maxCount maxSize fuel : Nat) (h : Holds s ls) (e : ε) :
    Accounts B Holds Out u ls (postEvents B u maxCount maxSize fuel s e) := by
  induction fuel generalizing s ls with
  | zero => exact ⟨ls, rfl, h, by simp [postEvents]⟩
  | succ fuel ih =>
    have hget := hB.getEventsForUpload maxCount maxSize h
    have hout := fun l => hB.out (l := l) maxCount maxSize h
    rw [postEvents]
    rcases hfirst : B.getEventsForUpload maxCount maxSize s with ⟨_ | events, s₁⟩
    · rw [hfirst] at hget
      simp only
      split
      · have hget₂ := hB.getEventsForUpload 1 sizeMax hget
        have hout₂ := fun l => hB.out (l := l) 1 sizeMax hget
        rcases hsecond : B.getEventsForUpload 1 sizeMax s₁ with ⟨_ | ev, s₂⟩
        · rw [hsecond] at hget₂
          exact ⟨ls, rfl, hget₂, by simp⟩
        · rw [hsecond] at hget₂ hout₂
          simp only
          split
          · next hvalid =>
            obtain ⟨done, rest, hperm, hdata, _, hrest, horder⟩ :=
              hB.onEventsUploaded hget₂ (hout₂ ev rfl hvalid)
            -- a batch that refuses to list anything is one that keeps the order
            have hls : ls = done ++ rest := by
              refine horder.resolve_right fun hnever => ?_
              exact hnever maxCount maxSize s (by rw [hfirst])
            obtain ⟨rest', hrest', hholds, huploaded⟩ := ih hrest
            refine ⟨rest', ?_, hholds, huploaded⟩
            rw [flatMap_cons, lines_of_data hB hget₂ hperm hdata, append_assoc, ← hrest']
            exact hls
          · exact ⟨ls, rfl, hget₂, by simp⟩
      · exact ⟨ls, rfl, hget, by simp⟩
    · rw [hfirst] at hget hout
      simp only
      split
      · next hvalid =>
        refine ⟨ls, rfl, hget, fun l hl => ?_⟩
        obtain ⟨hcarry, hok⟩ := u.sendEventList_posted (B.view events)
          (decide (1 < B.getEventCount events)) true e
        simp only [Option.ite_none_right_eq_some, Option.some.injEq] at hl
        obtain ⟨hsuccess, rfl⟩ := hl
        obtain ⟨x, hx, hcode⟩ := hok hsuccess
        exact ⟨hout events rfl hvalid, x, hx, hcode, hcarry x hx⟩
      · exact ⟨ls, rfl, hget, by simp⟩

/-- With positive limits nothing is dropped, and a success had nothing to send or sent a list. -/
theorem postEvents_cases (hL : B.Lists Holds lineLimit Fits) (u : EventUploader ε)
    {maxCount : Nat} (hcount : 0 < maxCount) (hsize : maxSize ≠ 0) (fuel : Nat) (h : Holds s ls)
    (e : ε) :
    (postEvents B u maxCount maxSize fuel s e).dropped = [] ∧
      ((postEvents B u maxCount maxSize fuel s e).outcome = .returned .success →
        ls = [] ∨ ∃ l, (postEvents B u maxCount maxSize fuel s e).uploaded = some l ∧
          (B.getEventsForUpload maxCount maxSize s).1 = some l ∧ B.valid l = true) := by
  cases fuel with
  | zero => exact ⟨rfl, by simp [postEvents]⟩
  | succ fuel =>
    have hrefuses : (B.getEventsForUpload maxCount maxSize s).1 = none → _ := hL.refuses h hcount
    rw [postEvents]
    rcases hfirst : B.getEventsForUpload maxCount maxSize s with ⟨_ | events, s₁⟩
    · rw [hfirst] at hrefuses
      rcases hrefuses rfl with ⟨hno, hnil⟩ | ⟨hyes, hstuck⟩ | hzero
      · simp only [hno, Bool.false_eq_true, if_false]
        exact ⟨trivial, fun _ => .inl hnil⟩
      · rcases hsecond : B.getEventsForUpload 1 sizeMax s₁ with ⟨_ | ev, s₂⟩
        · simp only [hyes, hsecond, if_true]
          exact ⟨trivial, by simp⟩
        · rw [hsecond] at hstuck
          exact absurd hstuck (by simp)
      · exact absurd hzero hsize
    · by_cases hvalid : B.valid events = true
      · simp only [hvalid, if_true]
        refine ⟨trivial, fun hok => .inr ⟨events, ?_, rfl, hvalid⟩⟩
        rw [if_pos hok]
      · simp only [hvalid, Bool.false_eq_true, if_false]
        exact ⟨trivial, by simp⟩

/-- The events of a list that was posted with success were delivered. -/
def Delivered (u : EventUploader ε) (log : List Exchange) (d : List UInt8) : Prop :=
  ∃ x ∈ log, x.Answered 200 ∧ u.Carries x x.list ∧ d ∈ Lines.lines 10 x.list.data

variable (Holds) in
/-- What was removed of the events `ls` was delivered, apart from events at the front that are
longer than `maxSize`. -/
def RemovesDelivered (u : EventUploader ε) (maxSize : Nat) (ls : List (List UInt8))
    (r : Upload σ ℓ ε) : Prop :=
  ∃ dropped delivered rest, dropped <+: ls ∧ ls.Perm (dropped ++ (delivered ++ rest)) ∧
    Holds r.batch rest ∧ (∀ d ∈ dropped, maxSize < d.length) ∧
    ∀ d ∈ delivered, u.Delivered r.log d

theorem sendEvents_accounts (hB : B.IsStore Holds Out) (u : EventUploader ε)
    (maxCount maxSize fuel : Nat) (h : Holds s ls) (e : ε) :
    ∃ delivered rest,
      ls.Perm ((sendEvents B u maxCount maxSize fuel s e).dropped.flatMap (Lines.lines 10) ++
        (delivered ++ rest)) ∧
      Holds (sendEvents B u maxCount maxSize fuel s e).batch rest ∧
      (∀ d ∈ delivered, u.Delivered (sendEvents B u maxCount maxSize fuel s e).log d) ∧
      ∀ l, (postEvents B u maxCount maxSize fuel s e).uploaded = some l →
        delivered.length = B.getEventCount l := by
  obtain ⟨rest, hls, hholds, hout⟩ := postEvents_accounts hB u maxCount maxSize fuel h e
  rw [sendEvents, acknowledge]
  split
  · next hnone => exact ⟨[], rest, .of_eq hls, hholds, by simp, by simp [hnone]⟩
  · next l hl =>
    obtain ⟨hlout, x, hx, hcode, hcarry⟩ := hout l hl
    obtain ⟨done, rest', hperm, hdata, hcount, hrest, _⟩ := hB.onEventsUploaded hholds hlout
    refine ⟨done, rest', ?_, hrest, fun d hd => ⟨x, hx, hcode, ?_, ?_⟩, fun l' hl' => ?_⟩
    · nth_rewrite 1 [hls]
      exact hperm.append_left _
    · rw [hcarry.1]
      exact hcarry
    · rw [hcarry.1]
      change d ∈ Lines.lines 10 (B.getData l)
      rw [lines_of_data hB hholds hperm hdata]
      exact hd
    · rw [← Option.some_inj.mp (hl.symm.trans hl'), hcount]

def AlwaysOk (u : EventUploader ε) : Prop :=
  ∀ req e, ∃ res, (u.send req e).1 = some res ∧ res.status = 200

/-- A server that takes everything. -/
def ofOk : EventUploader ε where
  url := "https://vortex.data.microsoft.com/collect/v1"
  steps := []
  send _ e := (some ⟨200, []⟩, e)
  getUploadTimestamp e := ("", e)
  compress := id

theorem ofOk_alwaysOk : (ofOk : EventUploader ε).AlwaysOk := fun _ _ => ⟨_, rfl, rfl⟩

theorem sendEventList_of_alwaysOk {u : EventUploader ε} (hu : u.AlwaysOk)
    (l : VectorBatchedEventList) (compress canRetry : Bool) (e : ε) :
    (u.sendEventList l compress canRetry e).1 = .returned .success := by
  obtain ⟨res, hres, hcode⟩ := hu (u.createRequest l compress e).1 (u.createRequest l compress e).2
  simp only [sendEventList, attempt, hres, status, hcode, if_true]

theorem postEvents_of_alwaysOk {u : EventUploader ε} (hu : u.AlwaysOk) {maxCount : Nat} {l : ℓ}
    (hl : (B.getEventsForUpload maxCount maxSize s).1 = some l) (hvalid : B.valid l = true)
    (fuel : Nat) (e : ε) :
    (postEvents B u maxCount maxSize (fuel + 1) s e).outcome = .returned .success ∧
      (postEvents B u maxCount maxSize (fuel + 1) s e).uploaded = some l := by
  rw [postEvents]
  rcases hget : B.getEventsForUpload maxCount maxSize s with ⟨_ | l', s₁⟩
  · rw [hget] at hl
    cases hl
  · rw [hget] at hl
    obtain rfl : l' = l := Option.some_inj.mp hl
    simp only [hvalid, if_true, sendEventList_of_alwaysOk hu, and_self]

theorem sendEvents_of_alwaysOk (hD : B.Drains Holds lineLimit) {u : EventUploader ε}
    (hu : u.AlwaysOk) {maxCount : Nat} (hcount : 0 < maxCount)
    (hfits : ∀ d ∈ ls, d.length ≤ lineLimit maxSize) (hne : ls ≠ []) (fuel : Nat) (h : Holds s ls)
    (e : ε) : (sendEvents B u maxCount maxSize (fuel + 1) s e).outcome = .returned .success := by
  obtain ⟨l, hl, hvalid⟩ := hD.lists h hne hcount hfits
  rw [sendEvents, acknowledge_outcome]
  exact (postEvents_of_alwaysOk hu hl hvalid fuel e).1

section
variable (hB : B.IsStore Holds Out) (hL : B.Lists Holds lineLimit Fits) {maxCount : Nat}
  (hcount : 0 < maxCount)
include hB hL hcount

/-- **Events are removed after delivery only**, or from the front if they are longer
than `maxSize`, as long as one event may be listed. -/
theorem sendEvents_safe (u : EventUploader ε) (maxSize fuel : Nat) (h : Holds s ls) (e : ε) :
    u.RemovesDelivered Holds maxSize ls (sendEvents B u maxCount maxSize fuel s e) := by
  obtain ⟨delivered, rest, hperm, hholds, hdelivered, _⟩ :=
    sendEvents_accounts hB u maxCount maxSize fuel h e
  obtain ⟨_, hls, _⟩ := postEvents_accounts hB u maxCount maxSize fuel h e
  rw [sendEvents, acknowledge_dropped] at hperm
  refine ⟨_, delivered, rest, ⟨_, hls.symm⟩, hperm, hholds, fun d hd => ?_, hdelivered⟩
  by_cases hzero : maxSize = 0
  · rw [hzero, length_pos_iff]
    obtain ⟨t, _, rfl⟩ := hB.isLine h d (by rw [hls]; exact mem_append_left _ hd)
    simp
  · rw [(postEvents_cases hL u hcount hzero fuel h e).1] at hd
    exact absurd hd (by simp)

variable (hsize : 0 < maxSize) (hne : ls ≠ []) (h : Holds s ls)
include hsize hne h

/-- **A success makes progress**, where the first event is short enough to be listed. -/
theorem sendEvents_progress (hfits : Fits s maxSize) (u : EventUploader ε) (fuel : Nat) (e : ε)
    (hok : (sendEvents B u maxCount maxSize fuel s e).outcome = .returned .success) :
    ∃ removed rest, removed ≠ [] ∧ ls.Perm (removed ++ rest) ∧
      Holds (sendEvents B u maxCount maxSize fuel s e).batch rest := by
  obtain ⟨delivered, rest, hperm, hholds, _, hlength⟩ :=
    sendEvents_accounts hB u maxCount maxSize fuel h e
  rw [sendEvents, acknowledge_outcome] at hok
  obtain ⟨_, hcases⟩ := postEvents_cases hL u hcount (ne_of_gt hsize) fuel h e
  rcases hcases hok with hnil | ⟨l, huploaded, hlisted, hvalid⟩
  · exact absurd hnil hne
  · have hpos := (hL.positive h hcount hsize hlisted hvalid).mpr hfits
    rw [← hlength l huploaded] at hpos
    rw [← append_assoc] at hperm
    refine ⟨_, rest, ?_, hperm, hholds⟩
    exact append_ne_nil_of_right_ne_nil _ (length_pos_iff.mp hpos)

/-- It has to be: a list without events is posted, taken and acknowledged. -/
theorem sendEvents_progress_iff (hunique : ∀ {s ls ls'}, Holds s ls → Holds s ls' → ls = ls')
    (e : ε) :
    (∀ (u : EventUploader ε) (fuel : Nat),
      (sendEvents B u maxCount maxSize fuel s e).outcome = .returned .success →
        ∃ removed rest, removed ≠ [] ∧ ls.Perm (removed ++ rest) ∧
          Holds (sendEvents B u maxCount maxSize fuel s e).batch rest) ↔ Fits s maxSize := by
  refine ⟨fun hprogress => by_contra fun hunfit => ?_, fun hfits u fuel hok =>
    sendEvents_progress hB hL hcount hsize hne h hfits u fuel e hok⟩
  obtain ⟨l, hl, hvalid⟩ := hL.unfit h hcount hsize hunfit
  have hnone : B.getEventCount l = 0 := Nat.eq_zero_of_not_pos fun hpos =>
    hunfit ((hL.positive h hcount hsize hl hvalid).mp hpos)
  obtain ⟨hok, huploaded⟩ := postEvents_of_alwaysOk ofOk_alwaysOk hl hvalid 0 e
  obtain ⟨removed, rest, hremoved, hperm, hrest⟩ := hprogress ofOk 1 (by
    rw [sendEvents, acknowledge_outcome, hok])
  obtain ⟨delivered, rest', hperm', hrest', _, hlength⟩ :=
    sendEvents_accounts hB ofOk maxCount maxSize 1 h e
  obtain rfl := hunique hrest hrest'
  rw [sendEvents, acknowledge_dropped, (postEvents_cases hL ofOk hcount (ne_of_gt hsize) 1 h e).1]
    at hperm'
  -- the same events are left, whether counted as removed or as delivered
  have hless := hperm.length_eq.symm.trans hperm'.length_eq
  have hdelivered := (hlength l huploaded).trans hnone
  have hpos := length_pos_iff.mpr hremoved
  simp only [flatMap_nil, nil_append, length_append] at hless
  omega

end

/-! ## A limit of no event -/

/-- The events in front of the first one that is too long to be listed even alone. -/
def short (lineLimit : Nat → Nat) (ls : List (List UInt8)) : List (List UInt8) :=
  ls.takeWhile fun d => d.length ≤ lineLimit sizeMax

section Refused
variable (u : EventUploader ε) {maxCount : Nat} {s₁ s₂ : σ} (fuel : Nat) (e : ε)
  (hfirst : B.getEventsForUpload maxCount maxSize s = (none, s₁))
include hfirst

theorem postEvents_refused {ev : ℓ} (hhas : B.hasEvents s₁ = true)
    (hsecond : B.getEventsForUpload 1 sizeMax s₁ = (some ev, s₂)) (hvalid : B.valid ev = true) :
    let r := postEvents B u maxCount maxSize fuel (B.onEventsUploaded ev s₂) e
    postEvents B u maxCount maxSize (fuel + 1) s e =
      { r with dropped := B.getData ev :: r.dropped } := by
  rw [postEvents, hfirst]
  simp only [hhas, hsecond, hvalid, if_true]

theorem postEvents_stuck (hsecond : B.getEventsForUpload 1 sizeMax s₁ = (none, s₂)) :
    let r := postEvents B u maxCount maxSize (fuel + 1) s e
    r.log = [] ∧ r.uploaded = none ∧ (r.batch = s₁ ∨ r.batch = s₂) := by
  rw [postEvents, hfirst]
  cases hhas : B.hasEvents s₁ with
  | true =>
    simp only [hhas, hsecond, if_true]
    exact ⟨trivial, trivial, .inr trivial⟩
  | false =>
    simp only [hhas, Bool.false_eq_true, if_false]
    exact ⟨trivial, trivial, .inl trivial⟩

end Refused

/-- A round takes the first event, unless it is too long. -/
theorem drop_short {d : List UInt8} {listed more done rest : List (List UInt8)}
    (hls : d :: listed ++ more = done ++ rest)
    (hdone : done.length = fitting 1 (lineLimit sizeMax) (d :: listed)) (k : Nat) :
    rest.drop (min k (short lineLimit rest).length) =
      (d :: listed ++ more).drop (min (k + 1) (short lineLimit (d :: listed ++ more)).length) := by
  rw [fitting] at hdone
  rw [cons_append] at hls ⊢
  split at hdone
  · next hfits =>
    have hone : done.length = 1 := by cases listed <;> exact hdone
    obtain ⟨d', rfl⟩ := length_eq_one_iff.mp hone
    obtain ⟨rfl, rfl⟩ := cons_eq_cons.mp hls
    have hshort : short lineLimit (d :: (listed ++ more)) =
        d :: short lineLimit (listed ++ more) := takeWhile_cons_of_pos (by simpa using hfits)
    rw [hshort, length_cons, Nat.succ_min_succ, drop_succ_cons]
  · next hfits =>
    rw [eq_nil_of_length_eq_zero hdone, nil_append] at hls
    rw [← hls]
    simp [short, takeWhile_cons_of_neg, hfits]

/-- **With a limit of no event**, each round drops the first event, up to one that cannot be
listed. -/
theorem postEvents_zero {B : EventBatch σ ℓ} {L : Listing σ} (hB : B.plain.IsStore Holds Out)
    (hL : B.ListsFrom Holds Out L) (u : EventUploader ε) (maxSize fuel : Nat) (h : Holds s ls)
    (hlisted : ls ≠ [] → L.listed s ≠ []) (e : ε) :
    let r := postEvents B.plain u 0 maxSize fuel s e
    r.log = [] ∧ r.uploaded = none ∧
      Holds r.batch (ls.drop (min fuel (short L.lineLimit ls).length)) := by
  induction fuel generalizing s ls with
  | zero => exact ⟨rfl, rfl, by simpa [postEvents] using h⟩
  | succ fuel ih =>
    have hfirst : B.plain.getEventsForUpload 0 maxSize s =
        (none, (B.plain.getEventsForUpload 0 maxSize s).2) :=
      Prod.ext ((hL.eq_none h 0 maxSize).mpr (.inr (.inl rfl))) rfl
    have h₁ := hB.getEventsForUpload 0 maxSize h
    have hsame := hL.listed_getEventsForUpload 0 maxSize h
    change L.listed (B.plain.getEventsForUpload 0 maxSize s).2 = L.listed s at hsame
    generalize (B.plain.getEventsForUpload 0 maxSize s).2 = s₁ at hfirst h₁ hsame
    rcases hsecond : B.plain.getEventsForUpload 1 sizeMax s₁ with ⟨ret, s₂⟩
    have h₂ := hB.getEventsForUpload 1 sizeMax h₁
    have hnone := hL.eq_none h₁ 1 sizeMax
    change (B.plain.getEventsForUpload 1 sizeMax s₁).1 = none ↔ _ at hnone
    rw [hsecond] at h₂ hnone
    cases ret with
    | none =>
      -- nothing is dropped: the batch is empty, or stuck
      have hnil : L.listed s₁ = [] := by simpa [sizeMax] using hnone.mp rfl
      obtain rfl : ls = [] := by_contra fun hne => hlisted hne (hsame.symm.trans hnil)
      obtain ⟨hlog, huploaded, hbatch⟩ := postEvents_stuck u fuel e hfirst hsecond
      refine ⟨hlog, huploaded, ?_⟩
      rw [drop_nil]
      rcases hbatch with hbatch | hbatch
      · rwa [hbatch]
      · rwa [hbatch]
    | some ev =>
      have hne : L.listed s₁ ≠ [] := fun hnil => absurd (hnone.mpr (.inl hnil)) nofun
      obtain ⟨d, listed, hd⟩ := exists_cons_of_ne_nil hne
      obtain ⟨more, rfl⟩ := hL.front h₁
      have hev : (B.getEventsForUpload 1 sizeMax s₁).1 = some ev := congrArg Prod.fst hsecond
      have hout : Out ev s₂ := by simpa [hsecond] using hB.out 1 sizeMax h₁ hev rfl
      obtain ⟨done, rest, _, _, hcount, hrest, horder⟩ := hB.onEventsUploaded h₂ hout
      have hls := horder.resolve_right fun hnever => hnever 0 maxSize s (by rw [hfirst])
      have hdone : done.length = fitting 1 (L.lineLimit sizeMax) (L.listed s₁) := by
        rw [← hcount]
        exact congrArg VectorBatchedEventList.events (hL.view_eq h₁ hev)
      have hhas : B.plain.hasEvents s₁ = true :=
        hL.hasEvents h₁ (append_ne_nil_of_left_ne_nil hne more)
      rw [postEvents_refused u fuel e hfirst hhas hsecond rfl]
      obtain ⟨hlog, huploaded, hbatch⟩ :=
        ih hrest fun hne' => hL.listed_onEventsUploaded h₂ hout hrest hne'
      refine ⟨hlog, huploaded, ?_⟩
      rw [hd] at hls hdone ⊢
      rwa [← drop_short hls hdone]

/-- A batch that has nothing to list keeps what it has. -/
theorem sendEvents_stuck {B : EventBatch σ ℓ} {L : Listing σ} (hB : B.plain.IsStore Holds Out)
    (hL : B.ListsFrom Holds Out L) (u : EventUploader ε) (maxCount maxSize fuel : Nat)
    (h : Holds s ls) (hnil : L.listed s = []) (e : ε) :
    Holds (sendEvents B.plain u maxCount maxSize fuel s e).batch ls := by
  cases fuel with
  | zero => exact h
  | succ fuel =>
    have h₁ := hB.getEventsForUpload maxCount maxSize h
    have hsame := hL.listed_getEventsForUpload maxCount maxSize h
    have hnil₁ := hL.eq_none h₁ 1 sizeMax
    obtain ⟨_, huploaded, hbatch⟩ := postEvents_stuck (B := B.plain) u fuel e
      (Prod.ext ((hL.eq_none h maxCount maxSize).mpr (.inl hnil)) rfl)
      (Prod.ext (hnil₁.mpr (.inl (hsame.trans hnil))) rfl)
    rw [sendEvents, acknowledge, huploaded]
    rcases hbatch with hbatch | hbatch
    · rw [hbatch]
      exact h₁
    · rw [hbatch]
      exact hB.getEventsForUpload 1 sizeMax h₁

/-- What that drops has to be longer than `maxSize`. -/
theorem sendEvents_zero_iff {B : EventBatch σ ℓ} {L : Listing σ} (hB : B.plain.IsStore Holds Out)
    (hL : B.ListsFrom Holds Out L)
    (hunique : ∀ {s ls ls'}, Holds s ls → Holds s ls' → ls = ls') (maxSize : Nat) (h : Holds s ls)
    (e : ε) :
    (∀ (u : EventUploader ε) (fuel : Nat),
      u.RemovesDelivered Holds maxSize ls (sendEvents B.plain u 0 maxSize fuel s e)) ↔
      (L.listed s ≠ [] → ∀ d ∈ short L.lineLimit ls, maxSize < d.length) := by
  have hfirst : short L.lineLimit ls <+: ls := takeWhile_prefix _
  have hsend : ∀ u : EventUploader ε, L.listed s ≠ [] → ∀ fuel,
      (sendEvents B.plain u 0 maxSize fuel s e).log = [] ∧
        Holds (sendEvents B.plain u 0 maxSize fuel s e).batch
          (ls.drop (min fuel (short L.lineLimit ls).length)) := by
    intro u hlisted fuel
    obtain ⟨hlog, huploaded, hbatch⟩ := postEvents_zero hB hL u maxSize fuel h (fun _ => hlisted) e
    rw [sendEvents, acknowledge, huploaded]
    exact ⟨hlog, hbatch⟩
  constructor
  · intro hdelivered hlisted d hd
    obtain ⟨hlog, hbatch⟩ := hsend ofOk hlisted (short L.lineLimit ls).length
    obtain ⟨dropped, delivered, rest, hfront, hperm, hholds, hlong, hposted⟩ :=
      hdelivered ofOk (short L.lineLimit ls).length
    have hnone : delivered = [] := eq_nil_iff_forall_not_mem.mpr fun d hd => by
      obtain ⟨x, hx, _⟩ := hposted d hd
      rw [hlog] at hx
      exact not_mem_nil hx
    rw [Nat.min_self] at hbatch
    rw [hnone, nil_append, hunique hholds hbatch] at hperm
    have hlength := hperm.length_eq
    rw [length_append, length_drop] at hlength
    -- as many were dropped as were short enough to be listed
    have hshort := hfirst.length_le
    exact hlong d ((prefix_of_prefix_length_le hfirst hfront (by omega)).subset hd)
  · intro hlong u fuel
    by_cases hlisted : L.listed s = []
    · exact ⟨[], [], ls, nil_prefix, .refl _, sendEvents_stuck hB hL u 0 maxSize fuel h hlisted e,
        by simp, by simp⟩
    · obtain ⟨hlog, hbatch⟩ := hsend u hlisted fuel
      refine ⟨ls.take (min fuel (short L.lineLimit ls).length), [], _, take_prefix _ _, ?_, hbatch,
        fun d hd => hlong hlisted d ?_, by simp⟩
      · rw [nil_append, take_append_drop]
      · rw [prefix_iff_eq_take.mp hfirst]
        exact (take_prefix_take_left (Nat.min_le_right _ _)).subset hd

end Safety

end EventUploader

end Cll
