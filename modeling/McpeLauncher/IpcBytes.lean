import McpeLauncher.IpcReceive

/-! # Where received bytes go (`connection_internal::handle_data_available`)

Each byte that was read is in a message consumed or still in the buffer (`Reception.Accounts`);
handed on and not consumed is only the message whose handling threw. -/
namespace SimpleIpc
open FrameStream List Connection

/-! ## How long a message can be -/

variable {c : Connection} {enc : Encoding} {inp buf before rest : List UInt8} {n : Nat}

theorem decodeLoop_count {tmp x : BitVec 64} {o : Nat} (h : decodeLoop tmp o inp = some (x, n)) :
    o < n ∧ n ≤ o + inp.length := by
  induction inp generalizing tmp o with
  | nil => cases h
  | cons b inp ih =>
    rw [decodeLoop] at h
    rw [length_cons]
    split at h
    · cases h
      omega
    · have := ih h
      omega

theorem tryDecodeUnsigned_count {x : BitVec 64} (h : tryDecodeUnsigned inp = some (x, n)) :
    0 < n ∧ n ≤ 9 := by
  have := decodeLoop_count h
  have := length_take_le 9 inp
  omega

theorem scanEnd_gt {t : List UInt8} {i c : Nat} (h : scanEnd i t = some c) : i < c := by
  induction t generalizing i with
  | nil => cases h
  | cons b t ih =>
    rw [scanEnd] at h
    split at h
    · cases h
      omega
    · have := ih h
      omega

/-- The CBOR length and the bytes it takes come to `2 ^ 64`, which as a `size_t` is 0. -/
def WrapsToZero : Encoding → List UInt8 → Prop
  | .json, _ => False
  | .jsonCbor, buf => ∃ size k, tryDecodeUnsigned buf = some (size, k) ∧ size.toNat + k = 2 ^ 64

/-- A complete message has at least one byte, unless its length wraps around. -/
theorem check_pos_iff {last : Nat} (h : checkReadMessageComplete enc buf last = some n) :
    0 < n ↔ ¬WrapsToZero enc buf := by
  cases enc with
  | json =>
    have hgt : last < n := scanEnd_gt h
    simp only [WrapsToZero, not_false_iff, iff_true]
    omega
  | jsonCbor =>
    simp only [checkReadMessageComplete] at h
    split at h
    · cases h
    · next size k hdec =>
      have hk := tryDecodeUnsigned_count hdec
      have hwraps : WrapsToZero .jsonCbor buf ↔ size.toNat + k = 2 ^ 64 := by
        constructor
        · rintro ⟨size', k', hdec', hsum⟩
          rw [hdec] at hdec'
          cases hdec'
          exact hsum
        · exact fun hsum => ⟨size, k, hdec, hsum⟩
      split at h
      · cases h
        rw [hwraps]
        omega
      · cases h

/-! ## Bytes consumed and bytes kept -/

section Accounts
variable {σ : Type}

/-- The message handed on last, where its handling threw. -/
def Reception.thrown (r : Reception σ) : List (List UInt8) :=
  if r.exit = .threw then r.handed.getLast?.toList else []

/-- The messages `buffer_start_off` has gone past. -/
def Reception.consumed (r : Reception σ) : List (List UInt8) :=
  if r.exit = .threw then r.handed.dropLast else r.handed

theorem Reception.handed_eq (r : Reception σ) : r.handed = r.consumed ++ r.thrown := by
  unfold consumed thrown
  split
  · rcases hlast : r.handed.getLast? with _ | f
    · rw [getLast?_eq_none_iff.mp hlast]
      rfl
    · exact (dropLast_append_getLast? f hlast).symm
  · rw [append_nil]

/-- `before` is what was consumed, then the window, then `rest`; a message that threw is at the
front of the window. -/
structure Reception.Accounts (before rest : List UInt8) (r : Reception σ) : Prop where
  bytes : before = r.consumed.flatten ++ (r.conn.window ++ rest)
  throws : r.exit = .threw → r.handed ≠ []
  kept : ∀ f ∈ r.thrown, f <+: r.conn.window

theorem Reception.accounts_of_exit {r : Reception σ} (hexit : r.exit ≠ .threw)
    (hbytes : before = r.handed.flatten ++ (r.conn.window ++ rest)) : r.Accounts before rest where
  bytes := by rw [consumed, if_neg hexit]; exact hbytes
  throws h := absurd h hexit
  kept f hf := by
    rw [thrown, if_neg hexit] at hf
    cases hf

theorem Reception.Accounts.handed_flatten {r : Reception σ} (h : r.Accounts before rest)
    (hexit : r.exit ≠ .threw) : before = r.handed.flatten ++ (r.conn.window ++ rest) := by
  have hbytes := h.bytes
  rwa [consumed, if_neg hexit] at hbytes

theorem Reception.Accounts.after {all : List UInt8} {r : Reception σ} (h : r.Accounts before rest)
    (done : List (List UInt8)) (hall : all = done.flatten ++ before) :
    Reception.Accounts all rest { r with handed := done ++ r.handed } := by
  have hconsumed :
      Reception.consumed { r with handed := done ++ r.handed } = done ++ r.consumed := by
    unfold consumed
    split
    · next hexit => rw [dropLast_append_of_ne_nil (h.throws hexit)]
    · rfl
  have hthrown : Reception.thrown { r with handed := done ++ r.handed } = r.thrown := by
    unfold thrown
    split
    · next hexit => rw [getLast?_append_of_ne_nil _ (h.throws hexit)]
    · rfl
  refine ⟨?_, fun hexit hnil => h.throws hexit (append_eq_nil_iff.mp hnil).2, ?_⟩
  · rw [hconsumed, flatten_append, append_assoc, ← h.bytes, hall]
  · rw [hthrown]
    exact h.kept

variable (lib : JsonLibrary) (h : Handler σ)

/-- **The message loop accounts for the bytes of the window**, whatever they are and whatever
the handler does. -/
theorem processMessages_accounts (fuel : Nat) :
    ∀ (c : Connection) (checkStart : Nat) (s : σ),
      (processMessages lib h fuel c checkStart s).Accounts c.window [] := by
  induction fuel with
  | zero => exact fun c _ s => Reception.accounts_of_exit nofun (append_nil _).symm
  | succ fuel ih =>
    intro c checkStart s
    rcases processMessages_round lib h fuel c checkStart s with
      ⟨_, heq⟩ | ⟨n, hn, _, _, heq⟩
    · rw [heq]
      exact Reception.accounts_of_exit nofun (append_nil _).symm
    · rw [heq]
      split
      -- the message that threw was handed on, but is still at the front of the window
      · refine ⟨by simp [Reception.consumed, window_setEncoding],
          fun _ => cons_ne_nil _ _, ?_⟩
        intro f hf
        obtain rfl : f = c.window.take n := by simpa [Reception.thrown] using hf
        exact take_prefix n _
      · refine (ih _ _ _).after [c.window.take n] ?_
        rw [window_setEncoding, window_consume, flatten_singleton,
          take_append_drop]

theorem handleDataAvailable_accounts (c : Connection) (s : σ) (avail : List (List UInt8)) :
    (handleDataAvailable lib h c s avail).1.Accounts (c.window ++ avail.flatten)
      (handleDataAvailable lib h c s avail).2.flatten := by
  have hread : ∀ (c : Connection) (blk : List UInt8) (rest : List (List UInt8)),
      c.window ++ (blk :: rest).flatten =
        (c.store (blk.take c.room) (length_take_le _ _)).window ++
          (putBack (blk.drop c.room) rest).flatten := by
    intro c blk rest
    rw [c.window_store, putBack_flatten, append_assoc, ← append_assoc (blk.take c.room),
      take_append_drop, flatten_cons]
  fun_induction handleDataAvailable lib h c s avail with
  | case1 => exact Reception.accounts_of_exit (by rintro ⟨⟩) rfl
  | case2 c s c1 hroom =>
    refine Reception.accounts_of_exit (by rintro ⟨⟩) ?_
    rw [(makeRoom_some hroom).1]
    rfl
  | case3 c s c1 hroom blk rest hdata =>
    have hblk : blk = [] := by
      have := (makeRoom_some hroom).2.2
      exact (take_eq_nil_iff.mp hdata).resolve_left (by omega)
    refine Reception.accounts_of_exit (by rintro ⟨⟩) ?_
    rw [(makeRoom_some hroom).1, hblk]
    rfl
  | case4 c s c1 hroom blk rest hdata r hexit r' unread heq ih =>
    rw [heq] at ih
    have hone := (processMessages_accounts lib h _ _ _ s).handed_flatten
      (r := r) (by rw [hexit]; decide)
    refine ih.after r.handed ?_
    rw [← (makeRoom_some hroom).1, hread, hone, append_nil, append_assoc]
  | case5 c s c1 hroom blk rest hdata r hexit =>
    have hone : r.Accounts _ [] := processMessages_accounts lib h _ _ _ s
    refine ⟨?_, hone.throws, hone.kept⟩
    rw [← (makeRoom_some hroom).1, hread, hone.bytes, append_nil, append_assoc]

/-! ## The loop that does not advance -/

theorem processMessages_spinning (fuel : Nat) :
    ∀ (c : Connection) (checkStart : Nat) (s : σ), c.window.length < fuel →
      (processMessages lib h fuel c checkStart s).exit = .spinning →
      [] ∈ (processMessages lib h fuel c checkStart s).handed := by
  induction fuel with
  | zero => exact fun c _ _ hfuel => absurd hfuel (Nat.not_lt_zero _)
  | succ fuel ih =>
    intro c checkStart s hfuel
    rcases processMessages_round lib h fuel c checkStart s with
      ⟨_, heq⟩ | ⟨n, hn, hne, _, heq⟩
    · rw [heq]
      intro hexit
      cases hexit
    · rw [heq]
      split
      · intro hexit
        cases hexit
      · intro hexit
        by_cases hzero : n = 0
        · subst hzero
          exact mem_cons_self
        · refine mem_cons_of_mem _ (ih _ _ _ ?_ hexit)
          rw [window_setEncoding, window_consume, length_drop]
          omega

/-- A count of 0 comes from a length that wraps around, somewhere in the window. -/
theorem wraps_of_processMessages (fuel : Nat) :
    ∀ (c : Connection) (checkStart : Nat) (s : σ),
      [] ∈ (processMessages lib h fuel c checkStart s).handed →
      ∃ k, WrapsToZero .jsonCbor (c.window.drop k) := by
  induction fuel with
  | zero => exact fun c _ _ hmem => absurd hmem not_mem_nil
  | succ fuel ih =>
    intro c checkStart s
    rcases processMessages_round lib h fuel c checkStart s with
      ⟨_, heq⟩ | ⟨n, hn, hne, hcheck, heq⟩
    · rw [heq]
      exact nofun
    · have hhead : [] = c.window.take n → ∃ k, WrapsToZero .jsonCbor (c.window.drop k) := by
        intro htake
        have hzero : n = 0 := (take_eq_nil_iff.mp htake.symm).resolve_right hne
        have hwraps := not_imp_comm.mp (check_pos_iff hcheck).mpr (by omega)
        refine ⟨0, ?_⟩
        -- only CBOR has lengths: a line counts its newline
        cases henc : c.currentEncoding with
        | json => rw [henc] at hwraps; exact hwraps.elim
        | jsonCbor => rw [henc] at hwraps; exact hwraps
      rw [heq]
      split
      · exact fun hmem => hhead (mem_singleton.mp hmem)
      · intro hmem
        rcases mem_cons.mp hmem with hmem | hmem
        · exact hhead hmem
        · obtain ⟨k, hk⟩ := ih _ _ _ hmem
          rw [window_setEncoding, window_consume, drop_drop] at hk
          exact ⟨n + k, hk⟩

end Accounts

section Steady
variable {σ : Type} (lib : JsonLibrary) (onMessage : σ → Message → σ) (onError : σ → ReadError → σ)

theorem processMessages_steady_round (fuel : Nat) {checkStart : Nat} (s : σ) (hne : c.window ≠ [])
    (hcheck : checkReadMessageComplete c.currentEncoding c.window
      (checkStart - c.bufferStartOff) = some n) :
    let c' := c.consume n (check_le _ hcheck)
    let r := processMessages lib (.steady onMessage onError) fuel c' c'.bufferStartOff
      (onFrame lib (.steady onMessage onError) c.currentEncoding s (c.window.take n)).state
    processMessages lib (.steady onMessage onError) (fuel + 1) c checkStart s =
      { r with handed := c.window.take n :: r.handed } := by
  rcases processMessages_round lib (.steady onMessage onError) fuel c checkStart s with
    ⟨hnone, _⟩ | ⟨n', hn, _, hcheck', heq⟩
  · rw [hnone hne] at hcheck
    cases hcheck
  · rw [hcheck] at hcheck'
    cases hcheck'
    simp only [onFrame_steady, onFrame_encoding lib _ (Handler.steady_keeps onMessage onError),
      Option.getD_none] at heq
    exact heq

/-- After a count of 0 every later one is 0, wherever the search starts. -/
theorem check_zero_again {last : Nat} (h : checkReadMessageComplete enc buf last = some 0)
    (last' : Nat) : checkReadMessageComplete enc buf last' = some 0 := by
  cases enc with
  | json => exact absurd ((check_pos_iff h).mpr nofun) (lt_irrefl 0)
  | jsonCbor => exact h

theorem processMessages_stalls (fuel : Nat) :
    ∀ (c : Connection) (checkStart last : Nat) (s : σ), c.window ≠ [] →
      checkReadMessageComplete c.currentEncoding c.window last = some 0 →
      (processMessages lib (.steady onMessage onError) fuel c checkStart s).exit = .spinning := by
  induction fuel with
  | zero => exact fun _ _ _ _ _ _ => rfl
  | succ fuel ih =>
    intro c checkStart last s hne hcheck
    have hzero := check_zero_again hcheck (checkStart - c.bufferStartOff)
    rw [processMessages_steady_round lib onMessage onError fuel s hne hzero]
    have hw : (c.consume 0 (check_le _ hzero)).window = c.window := by
      rw [window_consume, drop_zero]
    refine ih (c.consume 0 (check_le _ hzero)) _ last _ ?_ ?_
    · exact hne
    · exact hcheck

/-- **With a handler that returns, the loop never ends exactly if it is given a count of
0.** -/
theorem processMessages_endless_iff (c : Connection) (checkStart : Nat) (s : σ) :
    (∀ fuel, (processMessages lib (.steady onMessage onError) fuel c checkStart s).exit =
        .spinning) ↔
      [] ∈ (processMessages lib (.steady onMessage onError) (c.window.length + 1) c checkStart
        s).handed := by
  constructor
  · exact fun hall => processMessages_spinning lib _ _ c checkStart s (Nat.lt_succ_self _) (hall _)
  · generalize c.window.length + 1 = rounds
    induction rounds generalizing c checkStart s with
    | zero => exact nofun
    | succ rounds ih =>
      intro hmem fuel
      rcases processMessages_round lib (.steady onMessage onError) rounds c checkStart s with
        ⟨_, heq⟩ | ⟨n, hn, hne, hcheck, _⟩
      · rw [heq] at hmem
        cases hmem
      · cases fuel with
        | zero => rfl
        | succ fuel =>
          rw [processMessages_steady_round lib onMessage onError rounds s hne hcheck] at hmem
          rcases mem_cons.mp hmem with hmem | hmem
          · have hzero : n = 0 := (take_eq_nil_iff.mp hmem.symm).resolve_right hne
            subst hzero
            exact processMessages_stalls lib onMessage onError (fuel + 1) c checkStart _ s hne
              hcheck
          · rw [processMessages_steady_round lib onMessage onError fuel s hne hcheck]
            exact ih _ _ _ hmem fuel

/-- **The message loop advances, unless a length wraps around.** Then it ends within as many rounds
as there are bytes; given a count of 0 it never ends. -/
theorem message_loop_advances_iff :
    (∀ enc buf last n, checkReadMessageComplete enc buf last = some n →
      n ≤ buf.length ∧ (0 < n ↔ ¬WrapsToZero enc buf)) ∧
    (∀ (h : Handler σ) (c : Connection) (checkStart : Nat) (s : σ),
      let r := processMessages lib h (c.window.length + 1) c checkStart s
      c.window = r.consumed.flatten ++ r.conn.window ∧
        ((∀ k, ¬WrapsToZero .jsonCbor (c.window.drop k)) → r.exit ≠ .spinning)) ∧
    ∀ (c : Connection) (checkStart : Nat) (s : σ),
      (∀ fuel, (processMessages lib (.steady onMessage onError) fuel c checkStart s).exit =
          .spinning) ↔
        [] ∈ (processMessages lib (.steady onMessage onError) (c.window.length + 1) c checkStart
          s).handed := by
  refine ⟨fun enc buf last n hcheck => ⟨check_le enc hcheck, check_pos_iff hcheck⟩, ?_,
    processMessages_endless_iff lib onMessage onError⟩
  intro h c checkStart s r
  refine ⟨?_, fun hnone hexit => ?_⟩
  · have hbytes := (processMessages_accounts lib h (c.window.length + 1) c checkStart s).bytes
    rwa [append_nil] at hbytes
  · have hmem := processMessages_spinning lib h _ c checkStart s (Nat.lt_succ_self _) hexit
    obtain ⟨k, hk⟩ := wraps_of_processMessages lib h _ c checkStart s hmem
    exact hnone k hk

end Steady

def wrappingLength : List UInt8 := [0xFB, 0xFF, 0xFF, 0xFF, 0x0F]

theorem fresh_room : fresh.room = bufferSize := by
  rw [room, fresh, length_replicate, Nat.sub_zero]

theorem setEncoding_room (c : Connection) (enc : Encoding) : (c.setEncoding enc).room = c.room :=
  rfl

theorem wrappingLength_fits :
    wrappingLength.length ≤ (fresh.setEncoding .jsonCbor).room := by
  rw [setEncoding_room, fresh_room]
  decide

/-- Those five bytes on a connection that has switched to CBOR: the loop does not end. -/
theorem message_loop_stalls :
    checkReadMessageComplete .jsonCbor wrappingLength 0 = some 0 ∧
    let c := (fresh.setEncoding .jsonCbor).store wrappingLength wrappingLength_fits
    ∀ fuel, (processMessages sampleLibrary recorder fuel c 0 []).exit = .spinning := by
  have hcheck : checkReadMessageComplete .jsonCbor wrappingLength 0 = some 0 := by decide
  refine ⟨hcheck, fun fuel => ?_⟩
  have hw := window_store (fresh.setEncoding .jsonCbor) wrappingLength
    wrappingLength_fits
  refine processMessages_stalls sampleLibrary _ _ fuel _ 0 0 [] ?_ ?_
  · rw [hw]
    exact append_ne_nil_of_right_ne_nil _ (cons_ne_nil _ _)
  · exact hcheck

/-! ## Calls that go on after an exception -/

/-- What calls come to when the caller goes on after an exception. -/
structure Dispatched (σ : Type) where
  conn : Connection
  state : σ
  unread : List (List UInt8)
  handed : List (List UInt8)
  thrown : List (List UInt8)

section Calls
variable {σ : Type} (lib : JsonLibrary) (h : Handler σ)

/-- Calls with the blocks readable since the last one, which returned or threw. After one that never
ends there is no other. -/
def dispatchCalls (c : Connection) (s : σ) (unread : List (List UInt8)) :
    List (List (List UInt8)) → Dispatched σ
  | [] => ⟨c, s, unread, [], []⟩
  | blocks :: calls =>
    let (r, unread') := handleDataAvailable lib h c s (unread ++ blocks)
    match r.exit with
    | .spinning => ⟨r.conn, r.state, unread' ++ calls.flatten, r.handed, r.thrown⟩
    | _ =>
      let d := dispatchCalls r.conn r.state unread' calls
      { d with handed := r.handed ++ d.handed, thrown := r.thrown ++ d.thrown }

theorem dispatchCalls_cons (c : Connection) (s : σ) (unread blocks : List (List UInt8))
    (calls : List (List (List UInt8))) :
    dispatchCalls lib h c s unread (blocks :: calls) =
      let ru := handleDataAvailable lib h c s (unread ++ blocks)
      let d := dispatchCalls lib h ru.1.conn ru.1.state ru.2 calls
      if ru.1.exit = .spinning then
        ⟨ru.1.conn, ru.1.state, ru.2 ++ calls.flatten, ru.1.handed, ru.1.thrown⟩
      else { d with handed := ru.1.handed ++ d.handed, thrown := ru.1.thrown ++ d.thrown } := by
  rw [dispatchCalls]
  dsimp only
  split
  · next hexit => rw [if_pos hexit]
  · next hexit => rw [if_neg hexit]

/-- **Every message that threw is counted twice**, in what was handed on and in what is left. -/
theorem dispatchCalls_length (calls : List (List (List UInt8))) :
    ∀ (c : Connection) (s : σ) (unread : List (List UInt8)),
      let d := dispatchCalls lib h c s unread calls
      d.handed.flatten.length + d.conn.window.length + d.unread.flatten.length =
        c.window.length + unread.flatten.length + calls.flatten.flatten.length +
          d.thrown.flatten.length := by
  induction calls with
  | nil => intro c s unread; simp [dispatchCalls]
  | cons blocks calls ih =>
    intro c s unread
    rw [dispatchCalls_cons]
    have hlen := congrArg length
      (handleDataAvailable_accounts lib h c s (unread ++ blocks)).bytes
    generalize handleDataAvailable lib h c s (unread ++ blocks) = ru at hlen ⊢
    have hhanded := congrArg (fun l : List (List UInt8) => l.flatten.length) ru.1.handed_eq
    have hrest := ih ru.1.conn ru.1.state ru.2
    simp only [flatten_append, length_append] at hlen hhanded
    dsimp only at hrest ⊢
    split
    · simp only [flatten_append, flatten_cons, length_append]
      omega
    · simp only [flatten_append, flatten_cons, length_append]
      omega

theorem dispatchCalls_bytes (calls : List (List (List UInt8))) :
    ∀ (c : Connection) (s : σ) (unread : List (List UInt8)),
      (dispatchCalls lib h c s unread calls).thrown.flatten = [] →
      let d := dispatchCalls lib h c s unread calls
      d.handed.flatten ++ (d.conn.window ++ d.unread.flatten) =
        c.window ++ (unread.flatten ++ calls.flatten.flatten) := by
  induction calls with
  | nil => intro c s unread _; simp [dispatchCalls]
  | cons blocks calls ih =>
    intro c s unread
    have hall : c.window ++ (unread.flatten ++ (blocks :: calls).flatten.flatten) =
        c.window ++ (unread ++ blocks).flatten ++ calls.flatten.flatten := by
      simp only [flatten_cons, flatten_append, append_assoc]
    rw [dispatchCalls_cons, hall, (handleDataAvailable_accounts lib h c s (unread ++ blocks)).bytes]
    generalize handleDataAvailable lib h c s (unread ++ blocks) = ru
    have hhanded := congrArg flatten ru.1.handed_eq
    rw [flatten_append] at hhanded
    dsimp only
    split
    · intro hthrown
      rw [hthrown, append_nil] at hhanded
      simp only [hhanded, flatten_append, append_assoc]
    · intro hthrown
      rw [flatten_append, append_eq_nil_iff] at hthrown
      have hrest := ih ru.1.conn ru.1.state ru.2 hthrown.2
      rw [hthrown.1, append_nil] at hhanded
      rw [flatten_append, hhanded, append_assoc, hrest]
      simp only [append_assoc]

theorem Reception.Accounts.exit_ne_threw {r : Reception σ} (hr : r.Accounts before rest)
    (hnil : r.thrown = []) : r.exit ≠ .threw := by
  intro hthrew
  rw [Reception.thrown, if_pos hthrew, Option.toList_eq_nil_iff, getLast?_eq_none_iff] at hnil
  exact hr.throws hthrew hnil

/-- Where nothing threw, it made no difference that the caller would have gone on. -/
theorem receiveCalls_of_dispatchCalls (calls : List (List (List UInt8))) :
    ∀ (c : Connection) (s : σ) (unread : List (List UInt8)),
      (dispatchCalls lib h c s unread calls).thrown = [] →
      (receiveCalls lib h c s unread calls).1.exit ≠ .threw ∧
        (receiveCalls lib h c s unread calls).1.handed =
          (dispatchCalls lib h c s unread calls).handed := by
  induction calls with
  | nil => intro c s unread _; exact ⟨nofun, rfl⟩
  | cons blocks calls ih =>
    intro c s unread
    have hone := handleDataAvailable_accounts lib h c s (unread ++ blocks)
    rw [receiveCalls, dispatchCalls_cons]
    generalize handleDataAvailable lib h c s (unread ++ blocks) = ru at hone ⊢
    obtain ⟨r, u⟩ := ru
    dsimp only at hone ⊢
    cases hexit : r.exit with
    | returned =>
      intro hthrown
      obtain ⟨_, hrest⟩ := append_eq_nil_iff.mp hthrown
      obtain ⟨hend, hsame⟩ := ih _ _ _ hrest
      exact ⟨hend, congrArg (r.handed ++ ·) hsame⟩
    | threw =>
      intro hthrown
      exact absurd hexit (hone.exit_ne_threw (append_eq_nil_iff.mp hthrown).1)
    | spinning => exact fun _ => ⟨by rw [hexit]; decide, rfl⟩

/-- **Bytes are handed on once exactly if no handler throws.** Where nothing threw, all frames that
fit are handed on. -/
theorem dispatched_once_iff (c : Connection) (s : σ) (calls : List (List (List UInt8))) :
    let d := dispatchCalls lib h c s [] calls
    (d.handed.flatten ++ (d.conn.window ++ d.unread.flatten) =
        c.window ++ calls.flatten.flatten ↔ d.thrown.flatten = []) ∧
      (d.thrown = [] → h.KeepsEncoding → c.window = [] → ∀ frames,
        (∀ f ∈ frames, IsWireFrame c.currentEncoding f ∧ f.length ≤ maxBufferSize) →
        (∀ blocks ∈ calls, ∀ blk ∈ blocks, blk ≠ []) → calls.flatten.flatten = frames.flatten →
        d.handed = frames) := by
  intro d
  refine ⟨⟨fun hall => ?_, fun hthrown => ?_⟩, ?_⟩
  · have hlen : d.handed.flatten.length + d.conn.window.length + d.unread.flatten.length =
        c.window.length + 0 + calls.flatten.flatten.length + d.thrown.flatten.length :=
      dispatchCalls_length lib h calls c s []
    have hsame := congrArg length hall
    simp only [length_append] at hsame
    exact length_eq_zero_iff.mp (by omega)
  · exact dispatchCalls_bytes lib h calls c s [] hthrown
  · intro hthrown hk hempty frames hframes hblk hcalls
    obtain ⟨hexit, hhanded⟩ := receiveCalls_of_dispatchCalls lib h calls c s [] hthrown
    rcases receive_frames lib h hk c s hempty frames hframes calls hblk hcalls with
      ⟨_, hall, _⟩ | ⟨hthrew, _⟩
    · exact hhanded.symm.trans hall
    · exact absurd hthrew hexit

theorem makeRoom_of_room (hroom : 0 < c.room) : c.makeRoom = some c := by
  rw [room] at hroom
  rw [makeRoom, if_neg (by omega)]

theorem store_room (c : Connection) (data : List UInt8) (hdata : data.length ≤ c.room) :
    (c.store data hdata).room = c.room - data.length := by
  simp only [room, store, length_append, length_take, length_drop]
  omega

theorem readBlock_fits (c : Connection) (s : σ) {blk : List UInt8} (hfits : blk.length ≤ c.room) :
    readBlock lib h c s blk =
      processMessages lib h ((c.window ++ blk).length + 1) (c.store blk hfits) c.bufferOff s := by
  simp only [readBlock, take_of_length_le hfits, window_store]

theorem processMessages_threw (fuel : Nat) (c : Connection) (checkStart : Nat) (s : σ)
    (hne : c.window ≠ []) (hcheck : checkReadMessageComplete c.currentEncoding c.window
      (checkStart - c.bufferStartOff) = some n)
    (hthrew : (onFrame lib h c.currentEncoding s (c.window.take n)).threw)
    (henc : (onFrame lib h c.currentEncoding s (c.window.take n)).encoding = none) :
    processMessages lib h (fuel + 1) c checkStart s =
      ⟨c, (onFrame lib h c.currentEncoding s (c.window.take n)).state, [c.window.take n],
        .threw⟩ := by
  rcases processMessages_round lib h fuel c checkStart s with
    ⟨hnone, _⟩ | ⟨n', _, _, hcheck', heq⟩
  · rw [hnone hne] at hcheck
    cases hcheck
  · rw [hcheck] at hcheck'
    cases hcheck'
    rw [heq, if_pos hthrew, henc]
    rfl

theorem handleDataAvailable_threw (c : Connection) (s : σ) (blk : List UInt8) (hblk : blk ≠ [])
    (hfits : blk.length ≤ c.room)
    (hcheck : checkReadMessageComplete c.currentEncoding (c.window ++ blk) c.window.length = some n)
    (hthrew : (onFrame lib h c.currentEncoding s ((c.window ++ blk).take n)).threw)
    (henc : (onFrame lib h c.currentEncoding s ((c.window ++ blk).take n)).encoding = none) :
    ∃ r, handleDataAvailable lib h c s [blk] = (r, []) ∧ r.exit = .threw ∧
      r.handed = [(c.window ++ blk).take n] ∧ r.conn.window = c.window ++ blk ∧
      r.conn.currentEncoding = c.currentEncoding ∧ r.conn.room = c.room - blk.length := by
  have hpos := length_pos_iff.mpr hblk
  have hdata : blk.take c.room ≠ [] := by rw [take_of_length_le hfits]; exact hblk
  have hw := c.window_store blk hfits
  have hread := processMessages_threw lib h (c.window ++ blk).length (c.store blk hfits)
    c.bufferOff s (n := n) (by rw [hw]; exact append_ne_nil_of_right_ne_nil _ hblk)
    (by rw [hw, ← hcheck, c.window_length]; rfl) (by rw [hw]; exact hthrew) (by rw [hw]; exact henc)
  rw [handleDataAvailable, makeRoom_of_room (by omega)]
  dsimp only
  rw [dif_neg hdata, drop_eq_nil_of_le hfits, readBlock_fits lib h c s hfits, hread]
  exact ⟨_, rfl, rfl, by rw [hw], hw, rfl, store_room c blk hfits⟩

end Calls

/-- A handler that lets an exception out of every message. -/
def thrower : Handler Unit where
  handleMessage _ _ := ⟨(), none, true⟩
  handleMessageParseError _ _ := ⟨(), none, true⟩

theorem onFrame_thrower (lib : JsonLibrary) (enc : Encoding) (buf : List UInt8) :
    onFrame lib thrower enc () buf = ⟨(), none, true⟩ := by
  unfold onFrame
  split <;> rfl

def sampleCbor : List UInt8 := [0x05, 0x83, 0x01, 0x61, 0x61, 0xF6]

/-- The request and then the first byte of another one: the request is handed to the handler by
both calls. -/
theorem dispatched_twice :
    let d := dispatchCalls sampleLibrary thrower (fresh.setEncoding .jsonCbor) () []
      [[sampleCbor], [[0x05]]]
    d.handed = [sampleCbor, sampleCbor] ∧ d.thrown = [sampleCbor, sampleCbor] := by
  have hfits : sampleCbor.length ≤ (fresh.setEncoding .jsonCbor).room := by
    rw [setEncoding_room, fresh_room]
    decide
  have hempty : (fresh.setEncoding .jsonCbor).window = [] := rfl
  obtain ⟨r, hcall, hexit, hhanded, hw, henc, hroom⟩ := handleDataAvailable_threw sampleLibrary
    thrower _ () sampleCbor (n := 6) (by decide) hfits (by rw [hempty]; decide)
    (by rw [onFrame_thrower]) (by rw [onFrame_thrower])
  rw [setEncoding_room, fresh_room] at hroom
  obtain ⟨r', hcall', hexit', hhanded', _⟩ := handleDataAvailable_threw sampleLibrary thrower
    r.conn () [0x05] (n := 6) (by decide) (by rw [hroom]; decide)
    (by rw [henc, hw]; decide) (by rw [onFrame_thrower]) (by rw [onFrame_thrower])
  rw [hw] at hhanded'
  simp only [nil_append, hcall, hcall', hexit, hexit', dispatchCalls,
    Reception.thrown, hhanded, hhanded']
  decide

end SimpleIpc
