import McpeLauncher.IpcConnection

/-! # The receive loop (`connection_internal::handle_data_available`)

`read_data` returns the first block the kernel has, as far as there is room, and `-1` when there is
none. A run is a list of calls, each with the blocks that become readable. -/
namespace SimpleIpc
open FrameStream List Connection

/-- The handler's new state, the encoding set meanwhile, and whether an exception got out. -/
structure Dispatch (σ : Type) where
  state : σ
  encoding : Option Encoding
  threw : Bool

/-- `connection_handler`: `handle_message` and `handle_message_parse_error`. -/
structure Handler (σ : Type) where
  handleMessage : σ → Message → Dispatch σ
  handleMessageParseError : σ → ReadError → Dispatch σ

/-- How a loop was left: by returning, by an exception, or not at all. -/
inductive Exit where
  | returned
  | threw
  | spinning
  deriving DecidableEq, Repr

/-- The outcome of receiving: `handed` are the byte strings given to
`read_message`, in order. -/
structure Reception (σ : Type) where
  conn : Connection
  state : σ
  handed : List (List UInt8)
  exit : Exit

variable {c : Connection} {calls : List (List (List UInt8))} {frames : List (List UInt8)}
  {blk later : List UInt8}

section Loop
variable {σ : Type} (lib : JsonLibrary) (h : Handler σ)

/-- `read_message` and what follows it, `on_message` or `on_error`. -/
def onFrame (enc : Encoding) (s : σ) (buf : List UInt8) : Dispatch σ :=
  match readMessage lib enc buf with
  | .ok m => h.handleMessage s m
  | .error e => h.handleMessageParseError s e

/-- "Process all messages". A message that throws is not consumed; running out of `fuel` is
`spinning`. -/
def processMessages : Nat → Connection → Nat → σ → Reception σ
  | 0, c, _, s => ⟨c, s, [], .spinning⟩
  | fuel + 1, c, checkStart, s =>
    if c.bufferOff > c.bufferStartOff then
      match hc : checkReadMessageComplete c.currentEncoding c.window
          (checkStart - c.bufferStartOff) with
      | none => ⟨c, s, [], .returned⟩
      | some n =>
        let d := onFrame lib h c.currentEncoding s (c.window.take n)
        let c' := (c.consume n (check_le _ hc)).setEncoding (d.encoding.getD c.currentEncoding)
        if d.threw then
          ⟨c.setEncoding (d.encoding.getD c.currentEncoding), d.state, [c.window.take n], .threw⟩
        else
          let r := processMessages fuel c' c'.bufferStartOff d.state
          { r with handed := c.window.take n :: r.handed }
    else ⟨c, s, [], .returned⟩

/-- One round: no complete message in the window, or the first one is handled and, unless that
throws, consumed. -/
theorem processMessages_round (fuel : Nat) (c : Connection) (checkStart : Nat) (s : σ) :
    ((c.window ≠ [] → checkReadMessageComplete c.currentEncoding c.window
        (checkStart - c.bufferStartOff) = none) ∧
      processMessages lib h (fuel + 1) c checkStart s = ⟨c, s, [], .returned⟩) ∨
    ∃ (n : Nat) (hn : n ≤ c.window.length), c.window ≠ [] ∧
      checkReadMessageComplete c.currentEncoding c.window (checkStart - c.bufferStartOff) = some n ∧
      let d := onFrame lib h c.currentEncoding s (c.window.take n)
      let c' := (c.consume n hn).setEncoding (d.encoding.getD c.currentEncoding)
      let r := processMessages lib h fuel c' c'.bufferStartOff d.state
      processMessages lib h (fuel + 1) c checkStart s =
        if d.threw then
          ⟨c.setEncoding (d.encoding.getD c.currentEncoding), d.state, [c.window.take n], .threw⟩
        else { r with handed := c.window.take n :: r.handed } := by
  have hempty : c.window ≠ [] ↔ c.bufferOff > c.bufferStartOff := by
    rw [← length_pos_iff, c.window_length]
    omega
  rw [processMessages]
  split
  · next hne =>
    split
    · next hnone => exact .inl ⟨fun _ => hnone, rfl⟩
    · next n hn => exact .inr ⟨n, check_le _ hn, hempty.mpr hne, hn, rfl⟩
  · next hne => exact .inl ⟨fun hw => absurd (hempty.mp hw) hne, rfl⟩

/-- What is left of a block after a read. -/
def putBack (blk : List UInt8) (rest : List (List UInt8)) : List (List UInt8) :=
  if blk = [] then rest else blk :: rest

theorem putBack_flatten (blk : List UInt8) (rest : List (List UInt8)) :
    (putBack blk rest).flatten = blk ++ rest.flatten := by
  unfold putBack
  split
  · next hnil => rw [hnil, nil_append]
  · rw [flatten_cons]

theorem putBack_ne_nil {rest : List (List UInt8)} (h : ∀ b ∈ rest, b ≠ []) :
    ∀ b ∈ putBack blk rest, b ≠ [] := by
  unfold putBack
  split
  · exact h
  · next hne =>
    intro b hb
    rcases mem_cons.mp hb with rfl | hb
    · exact hne
    · exact h b hb

theorem putBack_lt {n : Nat} (h : blk.take n ≠ []) (rest : List (List UInt8)) :
    (putBack (blk.drop n) rest).flatten.length + (putBack (blk.drop n) rest).length <
      (blk :: rest).flatten.length + (blk :: rest).length := by
  have hpos : 0 < (blk.take n).length := length_pos_iff.mpr h
  have hlen := congrArg length (take_append_drop n blk)
  rw [length_append] at hlen
  unfold putBack
  split
  · simp only [flatten_cons, length_append, length_cons]
    omega
  · simp only [flatten_cons, length_append, length_cons]
    omega

/-- One read, and the messages it completes. A loop with more rounds than bytes takes no byte in
some round, and never ends. -/
def readBlock (c : Connection) (s : σ) (blk : List UInt8) : Reception σ :=
  let c' := c.store (blk.take c.room) (List.length_take_le _ _)
  processMessages lib h (c'.window.length + 1) c' c.bufferOff s

/-- Given the blocks the kernel has; the second component is what it has not read. -/
def handleDataAvailable (c : Connection) (s : σ) (avail : List (List UInt8)) :
    Reception σ × List (List UInt8) :=
  match c.makeRoom with
  | none => (⟨c, s, [], .returned⟩, avail)
  | some c =>
    match avail with
    | [] => (⟨c, s, [], .returned⟩, [])
    | blk :: rest =>
      if _ : blk.take c.room = [] then (⟨c, s, [], .returned⟩, rest)
      else
        let r := readBlock lib h c s blk
        match r.exit with
        | .returned =>
          let (r', unread) := handleDataAvailable r.conn r.state (putBack (blk.drop c.room) rest)
          ({ r' with handed := r.handed ++ r'.handed }, unread)
        | _ => (r, putBack (blk.drop c.room) rest)
termination_by avail.flatten.length + avail.length
decreasing_by exact putBack_lt (by assumption) rest

/-- Calls with the blocks that have become readable since the last one. An exception ends the run.
-/
def receiveCalls (c : Connection) (s : σ) (unread : List (List UInt8)) :
    List (List (List UInt8)) → Reception σ × List (List UInt8)
  | [] => (⟨c, s, [], .returned⟩, unread)
  | blocks :: calls =>
    let (r, unread') := handleDataAvailable lib h c s (unread ++ blocks)
    match r.exit with
    | .returned =>
      let (r', unread'') := receiveCalls r.conn r.state unread' calls
      ({ r' with handed := r.handed ++ r'.handed }, unread'')
    | _ => (r, unread')

end Loop

/-- Handling messages leaves the encoding alone. -/
structure Handler.KeepsEncoding {σ : Type} (h : Handler σ) : Prop where
  message : ∀ s m, (h.handleMessage s m).encoding = none
  parseError : ∀ s e, (h.handleMessageParseError s e).encoding = none

/-- A handler that always returns and leaves the encoding alone. -/
def Handler.steady {σ : Type} (onMessage : σ → Message → σ) (onError : σ → ReadError → σ) :
    Handler σ where
  handleMessage s m := ⟨onMessage s m, none, false⟩
  handleMessageParseError s e := ⟨onError s e, none, false⟩

section Steady
variable {σ : Type} (lib : JsonLibrary) (onMessage : σ → Message → σ) (onError : σ → ReadError → σ)
  {enc : Encoding}

theorem Handler.steady_keeps : (Handler.steady onMessage onError).KeepsEncoding :=
  ⟨fun _ _ => rfl, fun _ _ => rfl⟩

theorem onFrame_steady (s : σ) (buf : List UInt8) :
    (onFrame lib (.steady onMessage onError) enc s buf).threw = false := by
  unfold onFrame
  split <;> rfl

def recorder : Handler (List (Except ReadError Message)) :=
  .steady (fun s m => s ++ [.ok m]) (fun s e => s ++ [.error e])

end Steady

/-! ## What a list of frames becomes -/

section Frames
variable {σ : Type} (lib : JsonLibrary) (h : Handler σ) {enc : Encoding} {todo : List (List UInt8)}

theorem onFrame_encoding (hk : h.KeepsEncoding) (s : σ) (buf : List UInt8) :
    (onFrame lib h enc s buf).encoding = none := by
  unfold onFrame
  split
  · exact hk.message _ _
  · exact hk.parseError _ _

theorem onFrame_getD (hk : h.KeepsEncoding) {current : Encoding} (henc : current = enc) (s : σ)
    (buf : List UInt8) : (onFrame lib h current s buf).encoding.getD current = enc := by
  rw [onFrame_encoding lib h hk]
  exact henc

/-- Of the frames `todo`, with the bytes `later` to come, the first were handed on: all complete
ones, or those up to one that threw. -/
def Received (enc : Encoding) (todo : List (List UInt8)) (later : List UInt8)
    (r : Reception σ) : Prop :=
  ∃ todo', todo = r.handed ++ todo' ∧
    ((r.exit = .returned ∧ r.conn.currentEncoding = enc ∧
        r.conn.window ++ later = todo'.flatten ∧ Incomplete r.conn.window todo') ∨
      (r.exit = .threw ∧ ∃ s f, f ∈ r.handed ∧ (onFrame lib h enc s f).threw))

theorem Received.after (done : List (List UInt8)) {r : Reception σ}
    (hr : Received lib h enc todo later r) :
    Received lib h enc (done ++ todo) later { r with handed := done ++ r.handed } := by
  obtain ⟨todo', rfl, hcases⟩ := hr
  refine ⟨todo', (append_assoc _ _ _).symm, ?_⟩
  rcases hcases with hret | ⟨hexit, s, f, hf, ht⟩
  · exact .inl hret
  · exact .inr ⟨hexit, s, f, mem_append_right done hf, ht⟩

/-- **The message loop hands on the complete frames of the window**, one each
round. -/
theorem processMessages_received (hk : h.KeepsEncoding) (fuel : Nat) :
    ∀ (c : Connection) (checkStart : Nat) (s : σ) (todo : List (List UInt8)),
      c.currentEncoding = enc → (∀ f ∈ todo, IsFrame (cut enc) f) →
      c.window ++ later = todo.flatten →
      checkReadMessageComplete enc c.window (checkStart - c.bufferStartOff) = cut enc c.window →
      c.window.length < fuel →
      Received lib h enc todo later (processMessages lib h fuel c checkStart s) := by
  induction fuel with
  | zero => intro c _ s todo _ _ _ _ hfuel; omega
  | succ fuel ih =>
    intro c checkStart s todo henc hfr hw hcheck hfuel
    rcases processMessages_round lib h fuel c checkStart s with
      ⟨hnone, heq⟩ | ⟨n, hn, hwne, hsome, heq⟩
    · rw [heq]
      refine ⟨todo, rfl, .inl ⟨rfl, henc, hw, ?_⟩⟩
      by_cases hwnil : c.window = []
      · rw [hwnil]
        exact incomplete_nil hfr
      · rcases cut_front hfr hw hwnil with ⟨_, hinc⟩ | ⟨f, _, _, _, _, hcut, _⟩
        · exact hinc
        · rw [henc, hcheck, hcut] at hnone
          cases hnone hwnil
    · rcases cut_front hfr hw hwne with ⟨hnone, _⟩ | ⟨f, todo', w', rfl, hwf, hcut, hrest⟩
      · rw [henc, hcheck, hnone] at hsome
        cases hsome
      · have hnf : n = f.length := by
          rw [henc, hcheck, hcut] at hsome
          exact (Option.some.inj hsome).symm
        have htake : c.window.take n = f := by rw [hnf, hwf, take_left]
        rw [heq, onFrame_getD lib h hk henc, htake]
        split
        · next ht =>
          rw [henc] at ht
          exact ⟨todo', rfl, .inr ⟨rfl, s, f, mem_singleton_self f, ht⟩⟩
        · have hw' : ((c.consume n hn).setEncoding enc).window = w' := by
            rw [window_setEncoding, window_consume, hnf, hwf, drop_left]
          have hpos := length_pos_iff.mpr (hfr f (by simp)).nonempty
          exact (ih ((c.consume n hn).setEncoding enc) _
            (onFrame lib h c.currentEncoding s f).state todo' rfl
            (fun g hg => hfr g (by simp [hg])) (by rw [hw', hrest])
            (by rw [Nat.sub_self]; rfl)
            (by rw [hw']; rw [hwf, length_append] at hfuel; omega)).after lib h [f]

/-- Bytes already searched hold no complete message. -/
theorem check_searched {data : List UInt8} (hdata : data.length ≤ c.room)
    (hfr : ∀ f ∈ todo, IsFrame (cut enc) f) (hw : c.window ++ later = todo.flatten)
    (hinc : Incomplete c.window todo) :
    checkReadMessageComplete enc (c.store data hdata).window
        (c.bufferOff - (c.store data hdata).bufferStartOff) =
      cut enc (c.store data hdata).window := by
  have hlen : c.bufferOff - (c.store data hdata).bufferStartOff = c.window.length :=
    c.window_length.symm
  have hnone : cut enc c.window = none := by
    by_cases hnil : c.window = []
    · rw [hnil, cut_nil]
    · exact cut_of_incomplete hfr hw hnil hinc
  rw [hlen, c.window_store]
  refine check_resume enc ?_ (by rw [length_append]; omega)
  rw [take_left]
  exact hnone

theorem readBlock_received (hk : h.KeepsEncoding) (s : σ) (henc : c.currentEncoding = enc)
    (hfr : ∀ f ∈ todo, IsFrame (cut enc) f) (hw : c.window ++ (blk ++ later) = todo.flatten)
    (hinc : Incomplete c.window todo) :
    Received lib h enc todo (blk.drop c.room ++ later) (readBlock lib h c s blk) := by
  refine processMessages_received lib h hk _ _ _ s todo henc hfr ?_
    (check_searched _ hfr hw hinc) (Nat.lt_succ_self _)
  rw [window_store, append_assoc, ← append_assoc (blk.take c.room), take_append_drop, hw]

/-- **One call hands on the frames that are complete when it returns**, and reads
all the kernel has. -/
theorem handleDataAvailable_received (hk : h.KeepsEncoding) (later : List UInt8) (m : Nat) :
    ∀ (c : Connection) (s : σ) (avail todo : List (List UInt8)),
      avail.flatten.length + avail.length = m → c.currentEncoding = enc →
      (∀ f ∈ todo, IsFrame (cut enc) f ∧ f.length ≤ maxBufferSize) → (∀ blk ∈ avail, blk ≠ []) →
      c.window ++ (avail.flatten ++ later) = todo.flatten → Incomplete c.window todo →
      Received lib h enc todo later (handleDataAvailable lib h c s avail).1 ∧
        ((handleDataAvailable lib h c s avail).1.exit = .returned →
          (handleDataAvailable lib h c s avail).2 = []) := by
  induction m using Nat.strongRecOn with
  | ind m ih =>
    intro c s avail todo hm henc hfr hblk hw hinc
    have hframe : ∀ f ∈ todo, IsFrame (cut enc) f := fun f hf => (hfr f hf).1
    rw [handleDataAvailable]
    cases hroom : c.makeRoom with
    | none =>
      -- a window that fills the largest buffer holds any frame to come
      have hfull := makeRoom_none hroom
      exfalso
      cases todo with
      | nil => rw [show c.window = [] from hinc] at hfull; cases hfull
      | cons f todo =>
        have h1 : c.window.length < f.length := hinc
        have h2 := (hfr f (by simp)).2
        omega
    | some c1 =>
      obtain ⟨hw1, henc1, hspace⟩ := makeRoom_some hroom
      rw [henc] at henc1
      rw [← hw1] at hw hinc
      cases avail with
      | nil => exact ⟨⟨todo, rfl, .inl ⟨rfl, henc1, hw, hinc⟩⟩, fun _ => rfl⟩
      | cons blk rest =>
        have hdata : blk.take c1.room ≠ [] := by
          rw [Ne, take_eq_nil_iff, not_or]
          exact ⟨by omega, hblk blk (by simp)⟩
        have hlt := putBack_lt hdata rest
        rw [flatten_cons, append_assoc] at hw
        have hr := readBlock_received lib h hk s henc1 hframe hw hinc
        dsimp only
        rw [dif_neg hdata]
        generalize readBlock lib h c1 s blk = r at hr ⊢
        obtain ⟨todo', hsplit, ⟨hexit, hrenc, hrw, hrinc⟩ | ⟨hexit, hthrew⟩⟩ := hr
        · rw [← append_assoc (blk.drop c1.room), ← putBack_flatten] at hrw
          obtain ⟨hr', hu'⟩ := ih _ (by omega) r.conn r.state _ todo' rfl hrenc
            (fun f hf => hfr f (by rw [hsplit]; exact mem_append_right _ hf))
            (putBack_ne_nil (fun b hb => hblk b (by simp [hb]))) hrw hrinc
          rw [hexit, hsplit]
          exact ⟨hr'.after lib h _, hu'⟩
        · rw [hexit]
          exact ⟨⟨todo', hsplit, .inr ⟨hexit, hthrew⟩⟩, fun hret => by
            rw [hexit] at hret; cases hret⟩

/-- **A run of calls hands on the frames that are complete**, however their bytes
are spread over blocks and calls. -/
theorem receiveCalls_received (hk : h.KeepsEncoding) (later : List UInt8)
    (calls : List (List (List UInt8))) :
    ∀ (c : Connection) (s : σ) (todo : List (List UInt8)), c.currentEncoding = enc →
      (∀ f ∈ todo, IsFrame (cut enc) f ∧ f.length ≤ maxBufferSize) →
      (∀ blocks ∈ calls, ∀ blk ∈ blocks, blk ≠ []) →
      c.window ++ (calls.flatten.flatten ++ later) = todo.flatten → Incomplete c.window todo →
      Received lib h enc todo later (receiveCalls lib h c s [] calls).1 ∧
        ((receiveCalls lib h c s [] calls).1.exit = .returned →
          (receiveCalls lib h c s [] calls).2 = []) := by
  induction calls with
  | nil =>
    intro c s todo henc _ _ hw hinc
    exact ⟨⟨todo, rfl, .inl ⟨rfl, henc, hw, hinc⟩⟩, fun _ => rfl⟩
  | cons blocks calls ih =>
    intro c s todo henc hfr hblk hw hinc
    rw [flatten_cons, flatten_append, append_assoc] at hw
    obtain ⟨hr, hu⟩ := handleDataAvailable_received lib h hk (calls.flatten.flatten ++ later) _ c s
      blocks todo rfl henc hfr (hblk blocks (by simp)) hw hinc
    rw [receiveCalls, nil_append]
    generalize handleDataAvailable lib h c s blocks = ru at hr hu ⊢
    obtain ⟨r, u⟩ := ru
    obtain ⟨todo', hsplit, ⟨hexit, hrenc, hrw, hrinc⟩ | ⟨hexit, hthrew⟩⟩ := hr
    · obtain ⟨hr', hu'⟩ := ih r.conn r.state todo' hrenc
        (fun f hf => hfr f (by rw [hsplit]; exact mem_append_right _ hf))
        (fun b hb => hblk b (by simp [hb])) hrw hrinc
      rw [show u = [] from hu hexit, hsplit]
      dsimp only at hexit ⊢
      rw [hexit]
      exact ⟨hr'.after lib h _, hu'⟩
    · dsimp only at hexit ⊢
      rw [hexit]
      exact ⟨⟨todo', hsplit, .inr ⟨hexit, hthrew⟩⟩, fun hret => by rw [hexit] at hret; cases hret⟩

section
variable {frames : List (List UInt8)}

/-- A loop that has returned keeps the abstract receiver's state. -/
theorem Received.progress {received : List UInt8} {r : Reception σ}
    (hr : Received lib h enc frames later r) (hrec : received ++ later = frames.flatten)
    (hret : r.exit = .returned) : Progress frames received r.handed r.conn.window := by
  obtain ⟨todo', hsplit, ⟨_, _, hw, hinc⟩ | ⟨hexit, _⟩⟩ := hr
  · refine ⟨todo', hsplit, ?_, hinc⟩
    rw [hsplit, flatten_append, ← hw, ← append_assoc] at hrec
    exact append_cancel_right hrec
  · rw [hret] at hexit
    cases hexit

theorem Received.complete {r : Reception σ} (hr : Received lib h enc frames [] r) :
    (r.exit = .returned ∧ r.handed = frames ∧ r.conn.window = []) ∨
      (r.exit = .threw ∧ r.handed <+: frames ∧
        ∃ s f, f ∈ r.handed ∧ (onFrame lib h enc s f).threw) := by
  have hprog := hr.progress lib h (append_nil _)
  obtain ⟨todo', hsplit, ⟨hexit, _⟩ | ⟨hexit, hthrew⟩⟩ := hr
  · exact .inl ⟨hexit, (hprog hexit).complete⟩
  · exact .inr ⟨hexit, ⟨todo', hsplit.symm⟩, hthrew⟩

theorem isFrame_of_fits (hframes : ∀ f ∈ frames, IsWireFrame enc f ∧ f.length ≤ maxBufferSize) :
    ∀ f ∈ frames, IsFrame (cut enc) f ∧ f.length ≤ maxBufferSize := by
  intro f hf
  obtain ⟨hwire, hlen⟩ := hframes f hf
  exact ⟨hwire.isFrame (lt_of_le_of_lt hlen (by decide)), hlen⟩

theorem receiveCalls_fits (hk : h.KeepsEncoding) (s : σ) (hempty : c.window = [])
    (hframes : ∀ f ∈ frames, IsWireFrame c.currentEncoding f ∧ f.length ≤ maxBufferSize)
    (hblk : ∀ blocks ∈ calls, ∀ blk ∈ blocks, blk ≠ [])
    (hcalls : calls.flatten.flatten ++ later = frames.flatten) :
    Received lib h c.currentEncoding frames later (receiveCalls lib h c s [] calls).1 ∧
      ((receiveCalls lib h c s [] calls).1.exit = .returned →
        (receiveCalls lib h c s [] calls).2 = []) := by
  have hfr := isFrame_of_fits hframes
  refine receiveCalls_received lib h hk later calls c s frames rfl hfr hblk ?_ ?_
  · rw [hempty, hcalls, nil_append]
  · rw [hempty]
    exact incomplete_nil (fun f hf => (hfr f hf).1)

end

/-- **Framing does not depend on the chunks.** For any frames of one encoding that fit, cut into
blocks and calls in any way: unless a handler throws, `read_message` is given those frames, in
order; one that throws cuts the list short, at its own frame. -/
theorem receive_frames (hk : h.KeepsEncoding) (c : Connection) (s : σ) (hempty : c.window = [])
    (frames : List (List UInt8))
    (hframes : ∀ f ∈ frames, IsWireFrame c.currentEncoding f ∧ f.length ≤ maxBufferSize)
    (calls : List (List (List UInt8))) (hblk : ∀ blocks ∈ calls, ∀ blk ∈ blocks, blk ≠ [])
    (hcalls : calls.flatten.flatten = frames.flatten) :
    let r := receiveCalls lib h c s [] calls
    (r.1.exit = .returned ∧ r.1.handed = frames ∧ r.1.conn.window = [] ∧ r.2 = []) ∨
      (r.1.exit = .threw ∧ r.1.handed <+: frames ∧
        ∃ s f, f ∈ r.1.handed ∧ (onFrame lib h c.currentEncoding s f).threw) := by
  obtain ⟨hr, hu⟩ := receiveCalls_fits lib h hk s hempty hframes hblk
    (by rw [append_nil, hcalls])
  rcases hr.complete with ⟨hexit, hall, hnil⟩ | hthrew
  · exact .inl ⟨hexit, hall, hnil, hu hexit⟩
  · exact .inr hthrew

end Frames

def sampleFrame : List UInt8 := sampleLibrary.dump (jsonEnvelope sampleRequest) ++ [10]

theorem sampleFrame_fits : ∀ f ∈ [sampleFrame], IsWireFrame .json f ∧ f.length ≤ maxBufferSize := by
  intro f hf
  rw [mem_singleton.mp hf]
  exact ⟨⟨_, sampleLibrary.dump_clean _, rfl⟩, by decide⟩

theorem receive_frames_request :
    let r := receiveCalls sampleLibrary recorder .fresh [] []
      [[sampleFrame.take 5], [sampleFrame.drop 5]]
    r.1.handed = [sampleFrame] ∧ r.1.conn.window = [] ∧ r.2 = [] := by
  rcases receive_frames sampleLibrary recorder (Handler.steady_keeps _ _) .fresh [] rfl
    [sampleFrame] sampleFrame_fits [[sampleFrame.take 5], [sampleFrame.drop 5]] (by decide)
    (by decide) with ⟨_, hall⟩ | ⟨_, _, s, g, _, ht⟩
  · exact hall
  · cases ht.symm.trans (onFrame_steady _ _ _ _ _)

/-! ## What the handler sees -/

section State
variable {σ : Type} (lib : JsonLibrary) (h : Handler σ) {enc : Encoding}

def handleAll (enc : Encoding) (s : σ) (frames : List (List UInt8)) : σ :=
  frames.foldl (fun s f => (onFrame lib h enc s f).state) s

/-- The encoding has stayed, and the handler has been through the frames handed
on and no others. -/
def Handled (enc : Encoding) (s : σ) (r : Reception σ) : Prop :=
  r.conn.currentEncoding = enc ∧ r.state = handleAll lib h enc s r.handed

theorem Handled.after {s : σ} (done : List (List UInt8)) {r : Reception σ}
    (hr : Handled lib h enc (handleAll lib h enc s done) r) :
    Handled lib h enc s { r with handed := done ++ r.handed } := by
  refine ⟨hr.1, hr.2.trans ?_⟩
  simp only [handleAll, foldl_append]

theorem processMessages_handled (hk : h.KeepsEncoding) (fuel : Nat) :
    ∀ (c : Connection) (checkStart : Nat) (s : σ), c.currentEncoding = enc →
      Handled lib h enc s (processMessages lib h fuel c checkStart s) := by
  induction fuel with
  | zero => exact fun c _ s henc => ⟨henc, rfl⟩
  | succ fuel ih =>
    intro c checkStart s henc
    rcases processMessages_round lib h fuel c checkStart s with ⟨_, heq⟩ | ⟨n, hn, _, _, heq⟩
    · rw [heq]
      exact ⟨henc, rfl⟩
    · rw [heq, onFrame_getD lib h hk henc]
      subst henc
      split
      · exact ⟨rfl, rfl⟩
      · have hrest := ih ((c.consume n hn).setEncoding c.currentEncoding)
          (c.consume n hn).bufferStartOff
          (handleAll lib h c.currentEncoding s [c.window.take n]) rfl
        exact hrest.after lib h [c.window.take n]

theorem handleDataAvailable_handled (hk : h.KeepsEncoding) (c : Connection) (s : σ)
    (avail : List (List UInt8)) (henc : c.currentEncoding = enc) :
    Handled lib h enc s (handleDataAvailable lib h c s avail).1 := by
  fun_induction handleDataAvailable lib h c s avail with
  | case1 => exact ⟨henc, rfl⟩
  | case2 c s c1 hroom => exact ⟨(makeRoom_some hroom).2.1.trans henc, rfl⟩
  | case3 c s c1 hroom => exact ⟨(makeRoom_some hroom).2.1.trans henc, rfl⟩
  | case4 c s c1 hroom blk rest hdata r hexit r' unread heq ih =>
    have henc1 := (makeRoom_some hroom).2.1.trans henc
    obtain ⟨hrenc, hrstate⟩ : Handled lib h enc s r :=
      processMessages_handled lib h hk _ _ _ s henc1
    rw [heq] at ih
    rw [hrstate] at ih
    exact (ih hrenc).after lib h r.handed
  | case5 c s c1 hroom blk rest hdata r hexit =>
    have henc1 := (makeRoom_some hroom).2.1.trans henc
    exact processMessages_handled lib h hk _ _ _ s henc1

theorem receiveCalls_handled (hk : h.KeepsEncoding) (calls : List (List (List UInt8))) :
    ∀ (c : Connection) (s : σ) (unread : List (List UInt8)), c.currentEncoding = enc →
      Handled lib h enc s (receiveCalls lib h c s unread calls).1 := by
  induction calls with
  | nil => exact fun c s _ henc => ⟨henc, rfl⟩
  | cons blocks calls ih =>
    intro c s unread henc
    have hone := handleDataAvailable_handled lib h hk c s (unread ++ blocks) henc
    rw [receiveCalls]
    generalize handleDataAvailable lib h c s (unread ++ blocks) = ru at hone
    obtain ⟨r, u⟩ := ru
    dsimp only at hone ⊢
    split
    · obtain ⟨hrenc, hrstate⟩ := hone
      have hrest := ih r.conn r.state u hrenc
      rw [hrstate] at hrest
      rw [hrstate]
      exact hrest.after lib h r.handed
    · exact hone
end State

/-! ## Handlers that return -/

section Steady
variable {σ : Type} (lib : JsonLibrary) (onMessage : σ → Message → σ) (onError : σ → ReadError → σ)
  {enc : Encoding}

theorem Received.steady_returned {r : Reception σ}
    (hr : Received lib (.steady onMessage onError) enc frames later r) : r.exit = .returned := by
  obtain ⟨_, _, ⟨hexit, _⟩ | ⟨_, s, f, _, ht⟩⟩ := hr
  · exact hexit
  · rw [onFrame_steady] at ht
    cases ht

/-- Cut into blocks and calls in some way. -/
structure Chunking (bytes : List UInt8) (calls : List (List (List UInt8))) : Prop where
  nonempty : ∀ blocks ∈ calls, ∀ blk ∈ blocks, blk ≠ []
  whole : calls.flatten.flatten = bytes

theorem chunking_whole (bytes : List UInt8) : ∃ calls, Chunking bytes calls := by
  by_cases h : bytes = []
  · exact ⟨[], by simp, by simp [h]⟩
  · exact ⟨[[bytes]], by simpa using h, by simp⟩

section
variable {c : Connection} (s : σ) (hempty : c.window = []) {frames : List (List UInt8)}
  {calls : List (List (List UInt8))}
include s hempty

/-- A steady handler is handed the frames that have come, also when the front of
a further one has. -/
theorem receive_steady_front {front : List UInt8} (hlater : later ≠ [])
    (hframes : ∀ f ∈ frames ++ [front ++ later],
      IsWireFrame c.currentEncoding f ∧ f.length ≤ maxBufferSize)
    (hcalls : Chunking (frames.flatten ++ front) calls) :
    let r := receiveCalls lib (.steady onMessage onError) c s [] calls
    r.1.handed = frames ∧
      r.1.state = handleAll lib (.steady onMessage onError) c.currentEncoding s frames := by
  have hk := Handler.steady_keeps onMessage onError
  have hbytes : frames.flatten ++ front ++ later = (frames ++ [front ++ later]).flatten := by
    rw [flatten_append, flatten_singleton, append_assoc]
  obtain ⟨hr, _⟩ := receiveCalls_fits lib _ hk s hempty hframes hcalls.nonempty
    (by rw [hcalls.whole, hbytes])
  have hprog := hr.progress lib _ hbytes hr.steady_returned
  have hpos := length_pos_iff.mpr hlater
  have hall := (hprog.unique ⟨[front ++ later], rfl, rfl, by
    simp only [Incomplete, length_append]; omega⟩).1
  have hstate := (receiveCalls_handled lib _ hk calls c s [] rfl).2
  rw [hall] at hstate
  exact ⟨hall, hstate⟩

/-- **A steady handler is handed every frame**, and goes through them in order. -/
theorem receive_steady
    (hframes : ∀ f ∈ frames, IsWireFrame c.currentEncoding f ∧ f.length ≤ maxBufferSize)
    (hcalls : Chunking frames.flatten calls) :
    let r := receiveCalls lib (.steady onMessage onError) c s [] calls
    r.1.handed = frames ∧
      r.1.state = handleAll lib (.steady onMessage onError) c.currentEncoding s frames := by
  have hk := Handler.steady_keeps onMessage onError
  obtain ⟨hr, _⟩ := receiveCalls_fits lib _ hk s hempty hframes hcalls.nonempty
    (by rw [append_nil, hcalls.whole])
  have hall := (hr.progress lib _ (append_nil _) hr.steady_returned).complete.1
  have hstate := (receiveCalls_handled lib _ hk calls c s [] rfl).2
  rw [hall] at hstate
  exact ⟨hall, hstate⟩

end

end Steady

theorem handleAll_recorder (lib : JsonLibrary) (enc : Encoding)
    (s : List (Except ReadError Message)) (frames : List (List UInt8)) :
    handleAll lib recorder enc s frames = s ++ frames.map (readMessage lib enc) := by
  unfold handleAll
  induction frames generalizing s with
  | nil => simp
  | cons f frames ih =>
    have hone : (onFrame lib recorder enc s f).state = s ++ [readMessage lib enc f] := by
      unfold onFrame
      split
      · next hok => rw [hok]; rfl
      · next herr => rw [herr]; rfl
    rw [foldl_cons, hone, ih, map_cons, append_assoc, singleton_append]

theorem receive_recorder (lib : JsonLibrary) (hempty : c.window = [])
    (hframes : ∀ f ∈ frames, IsWireFrame c.currentEncoding f ∧ f.length ≤ maxBufferSize)
    (hcalls : Chunking frames.flatten calls) :
    (receiveCalls lib recorder c [] [] calls).1.state =
      frames.map (readMessage lib c.currentEncoding) := by
  have hstate : (receiveCalls lib recorder c [] [] calls).1.state =
      handleAll lib recorder c.currentEncoding [] frames :=
    (receive_steady lib _ _ [] hempty hframes hcalls).2
  exact hstate.trans (handleAll_recorder lib _ [] frames)

/-! ## Messages no buffer can hold -/

section Limit
variable {σ : Type} (lib : JsonLibrary) (h : Handler σ)

theorem processMessages_handed_le (fuel : Nat) (c : Connection) (checkStart : Nat) (s : σ) :
    ∀ f ∈ (processMessages lib h fuel c checkStart s).handed, f.length ≤ maxBufferSize := by
  induction fuel generalizing c checkStart s with
  | zero => exact nofun
  | succ fuel ih =>
    have htake : ∀ n, (c.window.take n).length ≤ maxBufferSize := fun n =>
      le_trans (length_take_le' _ _) c.window_length_le
    rcases processMessages_round lib h fuel c checkStart s with ⟨_, heq⟩ | ⟨n, hn, _, _, heq⟩
    · rw [heq]
      intro f hf
      cases hf
    · rw [heq]
      split
      · intro f hf
        rw [mem_singleton.mp hf]
        exact htake n
      · intro f hf
        rcases mem_cons.mp hf with rfl | hf
        · exact htake n
        · exact ih _ _ _ f hf

theorem handleDataAvailable_handed_le (c : Connection) (s : σ) (avail : List (List UInt8)) :
    ∀ f ∈ (handleDataAvailable lib h c s avail).1.handed, f.length ≤ maxBufferSize := by
  fun_induction handleDataAvailable lib h c s avail with
  | case1 => exact nofun
  | case2 => exact nofun
  | case3 => exact nofun
  | case4 c s c1 hroom blk rest hdata r hexit r' unread heq ih =>
    intro f hf
    rcases mem_append.mp hf with hf | hf
    · exact processMessages_handed_le lib h _ _ _ _ f hf
    · rw [heq] at ih
      exact ih f hf
  | case5 c s c1 hroom blk rest hdata r hexit =>
    intro f hf
    exact processMessages_handed_le lib h _ _ _ _ f hf

theorem receiveCalls_handed_le (c : Connection) (s : σ) (unread : List (List UInt8))
    (calls : List (List (List UInt8))) :
    ∀ f ∈ (receiveCalls lib h c s unread calls).1.handed, f.length ≤ maxBufferSize := by
  induction calls generalizing c s unread with
  | nil => exact nofun
  | cons blocks calls ih =>
    have hone := handleDataAvailable_handed_le lib h c s (unread ++ blocks)
    rw [receiveCalls]
    generalize handleDataAvailable lib h c s (unread ++ blocks) = ru at hone
    dsimp only
    split
    · intro f hf
      rcases mem_append.mp hf with hf | hf
      · exact hone f hf
      · exact ih _ _ _ f hf
    · exact hone

end Limit

end SimpleIpc
