import McpeLauncher.IpcReceive
import McpeLauncher.Runs

/-! # The event loops (`epoll_io_handler`, `kqueue_io_handler`)

Both loops look at the hang-up flag of an event first; the close callback takes the socket off the
loop, so what it still holds is never read. The frames of a peer that closes all arrive exactly if
its last bytes were `Announced` by an event of their own before the hang-up was reported
(`closed_handed_iff`). -/
namespace SimpleIpc
open FrameStream List

inductive BackEnd where
  | epoll
  | kqueue
  deriving DecidableEq, Repr

/-- The bits of `epoll_event::events` the loop looks at. -/
structure EpollEvent where
  epollin : Bool
  epollrdhup : Bool
  epollhup : Bool
  deriving DecidableEq, Repr

/-- The fields of `struct kevent` the loop looks at: `EV_EOF` in `flags`, and
`filter`. -/
structure KqueueEvent where
  eof : Bool
  filter : Int16
  deriving DecidableEq, Repr

def evfiltRead : Int16 := -1

def BackEnd.Event : BackEnd → Type
  | epoll => EpollEvent
  | kqueue => KqueueEvent

/-- The callbacks `add_socket` registers. -/
inductive FdCallback where
  | data
  | close
  deriving DecidableEq, Repr

/-- The body of `epoll_io_handler::run`: which callback of the socket is called. -/
def EpollEvent.dispatch (e : EpollEvent) : Option FdCallback :=
  if e.epollrdhup || e.epollhup then some .close else if e.epollin then some .data else none

def KqueueEvent.dispatch (e : KqueueEvent) : Option FdCallback :=
  if e.eof then some .close else if e.filter &&& evfiltRead ≠ 0 then some .data else none

def BackEnd.dispatch : (b : BackEnd) → b.Event → Option FdCallback
  | epoll => EpollEvent.dispatch
  | kqueue => KqueueEvent.dispatch

def BackEnd.hangsUp : (b : BackEnd) → b.Event → Bool
  | epoll => fun (e : EpollEvent) => e.epollrdhup || e.epollhup
  | kqueue => KqueueEvent.eof

/-- The event says that there is data; kqueue reports only the filter of a registration, and those
are not 0. -/
def BackEnd.readable : (b : BackEnd) → b.Event → Bool
  | epoll => EpollEvent.epollin
  | kqueue => fun (e : KqueueEvent) => e.filter ≠ 0

/-- The hang-up hides the data. -/
theorem BackEnd.dispatch_eq (b : BackEnd) (e : b.Event) :
    b.dispatch e =
      if b.hangsUp e then some .close else if b.readable e then some .data else none := by
  cases b with
  | epoll => rfl
  | kqueue =>
    have hall (filter : Int16) : filter &&& evfiltRead = filter := Int16.and_neg_one
    change KqueueEvent.dispatch e = _
    simp [KqueueEvent.dispatch, hangsUp, readable, hall]

/-- The connection, the blocks not read, what the peer has written, whether it has closed, what was
handed on, and whether the close callback has run. -/
structure Socket (σ : Type) where
  conn : Connection
  state : σ
  unread : List (List UInt8)
  written : List UInt8
  peerClosed : Bool
  handed : List (List UInt8)
  closed : Bool

inductive SocketStep (b : BackEnd) where
  | peerWrites (data : List UInt8)
  | peerCloses
  | report (e : b.Event)

variable {σ : Type} (lib : JsonLibrary) (h : Handler σ) {b : BackEnd}

def Socket.dataAvailable (s : Socket σ) : Socket σ :=
  let ru := handleDataAvailable lib h s.conn s.state s.unread
  { s with
    conn := ru.1.conn
    state := ru.1.state
    handed := s.handed ++ ru.1.handed
    unread := ru.2 }

/-- One step.  After the close callback the loop no longer finds the socket. -/
def Socket.step (s : Socket σ) : SocketStep b → Socket σ
  | .peerWrites data => { s with unread := s.unread ++ [data], written := s.written ++ data }
  | .peerCloses => { s with peerClosed := true }
  | .report e =>
    if s.closed then s
    else match b.dispatch e with
      | some .close => { s with closed := true }
      | some .data => s.dataAvailable lib h
      | none => s

/-- A connection between two messages, and a peer that has written nothing. -/
def Socket.opened (c : Connection) (x : σ) : Socket σ where
  conn := c
  state := x
  unread := []
  written := []
  peerClosed := false
  handed := []
  closed := false

/-- The peer writes the bytes of `frames` and then closes; a hang-up is reported only then. -/
def Socket.Allowed (frames : List (List UInt8)) (s : Socket σ) : SocketStep b → Prop
  | .peerWrites data => data ≠ [] ∧ s.written ++ data <+: frames.flatten ∧ s.peerClosed = false
  | .peerCloses => s.written = frames.flatten
  | .report e => b.hangsUp e = true → s.peerClosed = true

/-- What the peer wrote last is reported by an event with data before any event with a hang-up;
`waiting` says that bytes wait for such an event. -/
def Announced (waiting : Bool) : List (SocketStep b) → Bool
  | [] => !waiting
  | .peerWrites _ :: run => Announced true run
  | .peerCloses :: run => Announced waiting run
  | .report e :: run =>
    if b.hangsUp e then !waiting else Announced (waiting && !b.readable e) run

/-- What was written was handed on, is in the window without a complete frame, or still in the
socket. -/
structure Socket.Tracks (enc : Encoding) (frames : List (List UInt8)) (s : Socket σ) : Prop where
  encoding : s.conn.currentEncoding = enc
  nonempty : ∀ blk ∈ s.unread, blk ≠ []
  front : s.written <+: frames.flatten
  progress : Progress frames (s.handed.flatten ++ s.conn.window) s.handed s.conn.window
  bytes : s.written = s.handed.flatten ++ s.conn.window ++ s.unread.flatten
  hungUp : s.peerClosed = true → s.written = frames.flatten
  closes : s.closed = true → s.peerClosed = true

variable (onMessage : σ → Message → σ) (onError : σ → ReadError → σ) {enc : Encoding}
  {frames : List (List UInt8)}

theorem Socket.tracks_opened {c : Connection} (x : σ) (henc : c.currentEncoding = enc)
    (hempty : c.window = []) (hfr : ∀ f ∈ frames, IsFrame (cut enc) f) :
    (Socket.opened c x).Tracks enc frames where
  encoding := henc
  nonempty := by simp [opened]
  front := nil_prefix
  progress := ⟨frames, rfl, rfl, by
    rw [show (opened c x).conn.window = [] from hempty]; exact incomplete_nil hfr⟩
  bytes := by simp [opened, hempty]
  hungUp := by simp [opened]
  closes := by simp [opened]

section
variable {s : Socket σ} (hs : s.Tracks enc frames)
  (hfr : ∀ f ∈ frames, IsFrame (cut enc) f ∧ f.length ≤ maxBufferSize)
include hs hfr

/-- The data callback: it reads all there is, and hands on what that completes. -/
theorem Socket.Tracks.received :
    let ru := handleDataAvailable lib (.steady onMessage onError) s.conn s.state s.unread
    ru.2 = [] ∧ ∃ todo, frames = s.handed ++ todo ∧
      Progress todo (s.conn.window ++ s.unread.flatten) ru.1.handed ru.1.conn.window := by
  obtain ⟨todo, hsplit, _, hinc⟩ := hs.progress
  obtain ⟨rest, hrest⟩ := hs.front
  have hw : s.conn.window ++ (s.unread.flatten ++ rest) = todo.flatten := by
    rw [hs.bytes, hsplit, flatten_append] at hrest
    simpa only [append_assoc, append_cancel_left_eq] using hrest
  obtain ⟨hr, hread⟩ := handleDataAvailable_received lib _
    (Handler.steady_keeps onMessage onError) rest _ s.conn s.state s.unread todo rfl hs.encoding
    (fun f hf => hfr f (by rw [hsplit]; exact mem_append_right _ hf)) hs.nonempty hw hinc
  rw [← append_assoc] at hw
  exact ⟨hread hr.steady_returned, todo, hsplit, hr.progress lib _ hw hr.steady_returned⟩

theorem Socket.Tracks.dataAvailable :
    (s.dataAvailable lib (.steady onMessage onError)).Tracks enc frames := by
  have henc := (handleDataAvailable_handled lib _ (Handler.steady_keeps onMessage onError) s.conn
    s.state s.unread hs.encoding).1
  obtain ⟨hunread, todo, hsplit, todo', hsplit', hbytes, hinc⟩ :=
    hs.received lib onMessage onError hfr
  unfold Socket.dataAvailable
  generalize handleDataAvailable lib (.steady onMessage onError) s.conn s.state s.unread = ru at *
  exact
    { encoding := henc
      nonempty := by simp [hunread]
      front := hs.front
      progress := ⟨todo', by rw [hsplit, hsplit', append_assoc], by simp, hinc⟩
      bytes := by
        rw [hs.bytes, append_assoc, hbytes]
        simp [hunread]
      hungUp := hs.hungUp
      closes := hs.closes }

/-- **Every step the peer and the kernel may take keeps track of every byte.** -/
theorem Socket.Tracks.step {a : SocketStep b} (ha : s.Allowed frames a) :
    (s.step lib (.steady onMessage onError) a).Tracks enc frames := by
  cases a with
  | peerWrites data =>
    obtain ⟨hne, hfront, hopen⟩ := ha
    refine { hs with nonempty := ?_, front := hfront, bytes := ?_, hungUp := ?_ }
    · intro blk hblk
      rcases mem_append.mp hblk with hblk | hblk
      · exact hs.nonempty blk hblk
      · rw [mem_singleton.mp hblk]
        exact hne
    · simp [Socket.step, hs.bytes]
    · intro hclosed
      rw [show s.peerClosed = true from hclosed] at hopen
      cases hopen
  | peerCloses => exact { hs with hungUp := fun _ => ha, closes := fun _ => rfl }
  | report e =>
    rw [Socket.step, b.dispatch_eq]
    split
    · exact hs
    · by_cases hup : b.hangsUp e = true
      · rw [if_pos hup]
        exact { hs with closes := fun _ => ha hup }
      · rw [if_neg hup]
        by_cases hread : b.readable e = true
        · rw [if_pos hread]
          exact hs.dataAvailable lib onMessage onError hfr
        · rw [if_neg hread]
          exact hs

omit hs hfr in
/-- Behind the close callback nothing is read, and the peer has nothing more to write. -/
theorem Socket.unread_of_closed (hclosed : s.closed = true) (hpeer : s.peerClosed = true)
    {run : List (SocketStep b)}
    (hrun : Runs.Along (Socket.step lib h) (Socket.Allowed frames) s run) :
    (run.foldl (Socket.step lib h) s).unread = s.unread := by
  refine (Runs.invariant (fun s' => s'.closed = true ∧ s'.peerClosed = true ∧ s'.unread = s.unread)
    (fun s' a hs' ha => ?_) ⟨hclosed, hpeer, rfl⟩ hrun).2.2
  obtain ⟨hclosed, hpeer, hunread⟩ := hs'
  cases a with
  | peerWrites data => exact absurd (hpeer.symm.trans ha.2.2) (by simp)
  | peerCloses => exact ⟨hclosed, rfl, hunread⟩
  | report e =>
    rw [Socket.step, if_pos hclosed]
    exact ⟨hclosed, hpeer, hunread⟩

/-- **What is left in the socket when the close callback has run** was not announced. -/
theorem Socket.Tracks.unread_iff (hopen : s.closed = false) {waiting : Bool}
    (hwaiting : s.unread = [] ↔ waiting = false) {run : List (SocketStep b)}
    (hrun : Runs.Along (Socket.step lib (.steady onMessage onError)) (Socket.Allowed frames) s run)
    (hclosed : (run.foldl (Socket.step lib (.steady onMessage onError)) s).closed = true) :
    (run.foldl (Socket.step lib (.steady onMessage onError)) s).unread = [] ↔
      Announced waiting run = true := by
  -- the flag `waiting` stands for the socket that is not empty
  induction run generalizing s waiting with
  | nil => exact absurd (hopen.symm.trans hclosed) (by simp)
  | cons a run ih =>
    obtain ⟨ha, hrest⟩ := hrun
    have hnext := hs.step lib onMessage onError hfr ha
    cases a with
    | peerWrites data => exact ih hnext hopen (by simp [Socket.step]) hrest hclosed
    | peerCloses => exact ih hnext hopen hwaiting hrest hclosed
    | report e =>
      rw [Announced]
      simp only [foldl_cons, Socket.step, hopen, b.dispatch_eq, Bool.false_eq_true, if_false]
        at hnext hrest hclosed ⊢
      by_cases hup : b.hangsUp e = true
      · simp only [hup, if_true] at hrest hclosed ⊢
        have hkept := Socket.unread_of_closed lib _ (s := { s with closed := true }) rfl (ha hup)
          hrest
        rw [hkept, Bool.not_eq_true']
        exact hwaiting
      · by_cases hread : b.readable e = true
        · simp only [hup, hread, if_true, Bool.not_true, Bool.and_false] at hnext hrest hclosed ⊢
          have hnone := (hs.received lib onMessage onError hfr).1
          exact ih hnext hopen (iff_of_true hnone rfl) hrest hclosed
        · simp only [hup, hread, Bool.not_false, Bool.and_true] at hnext hrest hclosed ⊢
          exact ih hnext hopen hwaiting hrest hclosed

end

/-- Once the peer has closed, all has been handed on exactly if nothing is
unread. -/
theorem Socket.Tracks.handed_iff {s : Socket σ} (hs : s.Tracks enc frames)
    (hclosed : s.closed = true) : s.handed = frames ↔ s.unread = [] := by
  have hall := hs.bytes
  rw [hs.hungUp (hs.closes hclosed)] at hall
  constructor
  · intro heq
    rw [heq, append_assoc, self_eq_append_right, append_eq_nil_iff] at hall
    rw [eq_nil_iff_forall_not_mem]
    intro blk hblk
    exact hs.nonempty blk hblk (flatten_eq_nil_iff.mp hall.2 blk hblk)
  · intro hnil
    have hprog := hs.progress
    rw [hnil, flatten_nil, append_nil] at hall
    rw [← hall] at hprog
    exact hprog.complete.1

/-- **The frames are all handed on before the close callback exactly if the last bytes were
announced before the hang-up**, if the peer writes complete frames that fit, and closes. -/
theorem closed_handed_iff (b : BackEnd) (c : Connection) (hempty : c.window = []) (x : σ)
    (hframes : ∀ f ∈ frames, IsWireFrame c.currentEncoding f ∧ f.length ≤ maxBufferSize)
    (run : List (SocketStep b))
    (hrun : Runs.Along (Socket.step lib (.steady onMessage onError)) (Socket.Allowed frames)
      (.opened c x) run)
    (hclosed : (run.foldl (Socket.step lib (.steady onMessage onError)) (.opened c x)).closed) :
    (run.foldl (Socket.step lib (.steady onMessage onError)) (.opened c x)).handed = frames ↔
      Announced false run = true := by
  have hfr := isFrame_of_fits hframes
  have hstart : (Socket.opened c x).Tracks c.currentEncoding frames :=
    Socket.tracks_opened x rfl hempty fun f hf => (hfr f hf).1
  have htracks := Runs.invariant (Socket.Tracks c.currentEncoding frames)
    (fun _ _ hs ha => hs.step lib onMessage onError hfr ha) hstart hrun
  rw [htracks.handed_iff hclosed]
  exact hstart.unread_iff lib onMessage onError hfr rfl (by simp [Socket.opened]) hrun hclosed

theorem closed_handed_separate :
    let run : List (SocketStep .epoll) := [.peerWrites sampleFrame,
      .report (EpollEvent.mk true false false), .peerCloses,
      .report (EpollEvent.mk true true false)]
    let s := run.foldl (Socket.step sampleLibrary recorder) (.opened .fresh [])
    s.closed = true ∧ s.handed = [sampleFrame] := by
  intro run s
  have hrun : Runs.Along (Socket.step sampleLibrary recorder) (Socket.Allowed [sampleFrame])
      (.opened .fresh []) run :=
    ⟨⟨by decide, by decide, rfl⟩, nofun, rfl, fun _ => rfl, trivial⟩
  exact ⟨rfl, (closed_handed_iff sampleLibrary _ _ .epoll .fresh rfl [] sampleFrame_fits run hrun
    rfl).mpr rfl⟩

/-- The data is reported together with the hang-up: the close callback runs, and
the request has not been handed on. -/
theorem closed_coalesced :
    let epoll := [SocketStep.peerWrites sampleFrame, .peerCloses,
      .report (b := .epoll) (EpollEvent.mk true true false)]
    let kqueue := [SocketStep.peerWrites sampleFrame, .peerCloses,
      .report (b := .kqueue) (KqueueEvent.mk true evfiltRead)]
    (Runs.Along (Socket.step sampleLibrary recorder) (Socket.Allowed [sampleFrame])
        (.opened .fresh []) epoll ∧
      (epoll.foldl (Socket.step sampleLibrary recorder) (.opened .fresh [])).closed = true ∧
      (epoll.foldl (Socket.step sampleLibrary recorder) (.opened .fresh [])).handed = []) ∧
    Runs.Along (Socket.step sampleLibrary recorder) (Socket.Allowed [sampleFrame])
        (.opened .fresh []) kqueue ∧
      (kqueue.foldl (Socket.step sampleLibrary recorder) (.opened .fresh [])).closed = true ∧
      (kqueue.foldl (Socket.step sampleLibrary recorder) (.opened .fresh [])).handed = [] := by
  exact ⟨⟨⟨⟨by decide, by decide, rfl⟩, rfl, fun _ => rfl, trivial⟩, rfl, rfl⟩,
    ⟨⟨by decide, by decide, rfl⟩, rfl, fun _ => rfl, trivial⟩, rfl, rfl⟩

end SimpleIpc
