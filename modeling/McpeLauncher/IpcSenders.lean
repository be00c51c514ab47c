import McpeLauncher.IpcSend

/-! # Several threads on one connection

Nothing in `connection_internal` is locked, and a message is two calls of `send_data`. Each is one
step, and a schedule says which thread takes the next one. -/
namespace SimpleIpc
open FrameStream List Function

/-- The messages to send and, between the two calls of `send_data`, the one being sent. -/
structure SenderThread where
  todo : List Message
  sending : Option (Message × Frame)

/-- The threads, the wire, and which `send_message` calls have returned, in
order. -/
structure Senders (τ : Type) where
  wire : List UInt8
  threads : τ → SenderThread
  done : List (τ × Message)

variable {τ : Type} [DecidableEq τ] (lib : JsonLibrary) (enc : Encoding) {s : Senders τ} {t : τ}
  {msgs : τ → List Message}

def Senders.start (msgs : τ → List Message) : Senders τ where
  wire := []
  threads t := ⟨msgs t, none⟩
  done := []

/-- The second `send_data` call, or the first of the next message, unless `send_json` rejects that.
-/
def Senders.step (s : Senders τ) (t : τ) : Senders τ :=
  match s.threads t with
  | ⟨todo, some (m, f)⟩ =>
    { wire := s.wire ++ f.second
      threads := Function.update s.threads t ⟨todo, none⟩
      done := s.done ++ [(t, m)] }
  | ⟨[], none⟩ => s
  | ⟨m :: todo, none⟩ =>
    match sendMessage lib enc m with
    | none => { s with threads := Function.update s.threads t ⟨todo, none⟩ }
    | some f =>
      { s with
        wire := s.wire ++ f.first
        threads := Function.update s.threads t ⟨todo, some (m, f)⟩ }

def SenderThread.left (th : SenderThread) : List Message :=
  (th.sending.map Prod.fst).toList ++ accepted lib enc th.todo

def Senders.doneBy (s : Senders τ) (t : τ) : List Message :=
  (s.done.filter fun d => d.1 = t).map Prod.snd

/-- No thread starts a message while one is between its two calls. -/
def Senders.Exclusive (s : Senders τ) (t : τ) : Prop :=
  (s.threads t).sending = none → (s.threads t).todo ≠ [] → ∀ u, (s.threads u).sending = none

instance [Fintype τ] (s : Senders τ) (t : τ) : Decidable (s.Exclusive t) :=
  inferInstanceAs (Decidable (_ → _ → ∀ u, (s.threads u).sending = none))

/-- What a step can do. -/
inductive Senders.Moves (s : Senders τ) (t : τ) : Senders τ → Prop where
  | second {todo : List Message} {m : Message} {f : Frame}
      (hth : s.threads t = ⟨todo, some (m, f)⟩) :
      Moves s t ⟨s.wire ++ f.second, Function.update s.threads t ⟨todo, none⟩, s.done ++ [(t, m)]⟩
  | rejected {todo : List Message} {m : Message} (hth : s.threads t = ⟨m :: todo, none⟩)
      (hsend : sendMessage lib enc m = none) :
      Moves s t ⟨s.wire, Function.update s.threads t ⟨todo, none⟩, s.done⟩
  | first {todo : List Message} {m : Message} {f : Frame} (hth : s.threads t = ⟨m :: todo, none⟩)
      (hsend : sendMessage lib enc m = some f) :
      Moves s t ⟨s.wire ++ f.first, Function.update s.threads t ⟨todo, some (m, f)⟩, s.done⟩
  | finished : Moves s t s

theorem Senders.moves (s : Senders τ) (t : τ) : s.Moves lib enc t (s.step lib enc t) := by
  unfold step
  split
  · next todo m f hth => exact .second hth
  · exact .finished
  · next m todo hth =>
    split
    · next hsend => exact .rejected hth hsend
    · next f hsend => exact .first hth hsend

/-- Of every thread's messages the ones delivered come first, then the rest. -/
def Senders.Ledger (msgs : τ → List Message) (s : Senders τ) : Prop :=
  ∀ t, s.doneBy t ++ (s.threads t).left lib enc = accepted lib enc (msgs t)

theorem Senders.ledger_start (msgs : τ → List Message) :
    (start msgs).Ledger lib enc msgs := fun _ => rfl

theorem Senders.doneBy_append (s : Senders τ) (t u : τ) (m : Message) :
    ((s.done ++ [(t, m)]).filter fun d => d.1 = u).map Prod.snd =
      s.doneBy u ++ if t = u then [m] else [] := by
  by_cases h : t = u
  · simp [doneBy, filter_append, h]
  · simp [doneBy, filter_append, h]

theorem Senders.Ledger.moves {s' : Senders τ} (hs : s.Ledger lib enc msgs)
    (hm : s.Moves lib enc t s') : s'.Ledger lib enc msgs := by
  intro u
  have hu := hs u
  cases hm with
  | second hth =>
    rw [doneBy, doneBy_append]
    by_cases h : u = t
    · subst h
      rw [hth] at hu
      simpa [SenderThread.left] using hu
    · simp only [update_of_ne h, if_neg (Ne.symm h), append_nil]
      exact hu
  | rejected hth hsend | first hth hsend =>
    by_cases h : u = t
    · subst h
      rw [hth] at hu
      simpa [SenderThread.left, accepted, doneBy, hsend] using hu
    · simp only [update_of_ne h]
      exact hu
  | finished => exact hu

theorem Senders.Ledger.done_mem (hs : s.Ledger lib enc msgs) {d : τ × Message} (hd : d ∈ s.done) :
    d.2 ∈ accepted lib enc (msgs d.1) := by
  rw [← hs d.1]
  refine mem_append_left _ (mem_map.mpr ⟨d, ?_, rfl⟩)
  exact mem_filter.mpr ⟨hd, by simp⟩

/-! ## Whole messages on the wire -/

def Senders.frames (s : Senders τ) : List (List UInt8) :=
  acceptedFrames lib enc (s.done.map Prod.snd)

/-- Thread `t` alone is between its two calls, and the first has put the front of
`f` on the wire. -/
structure Senders.Inside (s : Senders τ) (t : τ) (m : Message) (f : Frame) : Prop where
  sending : (s.threads t).sending = some (m, f)
  others : ∀ u, u ≠ t → (s.threads u).sending = none
  frame : sendMessage lib enc m = some f
  wire : s.wire = (s.frames lib enc).flatten ++ f.first

/-- The wire is whole messages and at most the front of one more. -/
def Senders.Atomic (s : Senders τ) : Prop :=
  ((∀ u, (s.threads u).sending = none) ∧ s.wire = (s.frames lib enc).flatten) ∨
    ∃ t m f, s.Inside lib enc t m f

omit [DecidableEq τ] in
theorem Senders.atomic_start (msgs : τ → List Message) : (start msgs).Atomic lib enc :=
  .inl ⟨fun _ => rfl, rfl⟩

theorem update_sending {u : τ} {th : SenderThread} (hth : u = t → th.sending = none)
    (hu : u ≠ t → (s.threads u).sending = none) : (update s.threads t th u).sending = none := by
  by_cases h : u = t
  · subst h
    rw [update_self]
    exact hth rfl
  · rw [update_of_ne h]
    exact hu h

theorem Senders.Atomic.moves {s' : Senders τ} (hs : s.Atomic lib enc) (hex : s.Exclusive t)
    (hm : s.Moves lib enc t s') : s'.Atomic lib enc := by
  cases hm with
  | @second todo m f hth =>
    rcases hs with ⟨hidle, _⟩ | ⟨t', m', f', hin⟩
    · have := hidle t
      rw [hth] at this
      cases this
    · -- the thread that is inside is the one that moves
      have htt : t = t' := by
        by_contra hne
        have := hin.others t hne
        rw [hth] at this
        cases this
      subst htt
      have hmf := hin.sending
      rw [hth] at hmf
      cases hmf
      refine .inl ⟨fun u => update_sending (fun _ => rfl) (hin.others u), ?_⟩
      simp only [frames, map_append, map_cons, map_nil,
        acceptedFrames_append lib hin.frame, flatten_append, flatten_singleton]
      rw [hin.wire, append_assoc, frames, Frame.bytes]
  | @rejected todo m hth hsend =>
    have hidle := hex (by rw [hth]) (by rw [hth]; exact cons_ne_nil m todo)
    rcases hs with ⟨_, hwire⟩ | ⟨t', m', f', hin⟩
    · exact .inl ⟨fun u => update_sending (fun _ => rfl) (fun _ => hidle u), hwire⟩
    · have := hin.sending
      rw [hidle t'] at this
      cases this
  | @first todo m f hth hsend =>
    have hidle := hex (by rw [hth]) (by rw [hth]; exact cons_ne_nil m todo)
    rcases hs with ⟨_, hwire⟩ | ⟨t', m', f', hin⟩
    · refine .inr ⟨t, m, f, ?_, fun u hu => ?_, hsend, ?_⟩
      · simp only [update_self]
      · exact update_sending (fun h => absurd h hu) (fun _ => hidle u)
      · rw [hwire]
        rfl
    · have := hin.sending
      rw [hidle t'] at this
      cases this
  | finished => exact hs

/-! ## What the receiver makes of it -/

theorem Senders.Ledger.sending_mem (hs : s.Ledger lib enc msgs) {m : Message} {f : Frame}
    (hsend : (s.threads t).sending = some (m, f)) : m ∈ accepted lib enc (msgs t) := by
  rw [← hs t]
  refine mem_append_right _ (mem_append_left _ ?_)
  simp [hsend]

theorem Senders.Ledger.forall_done (hs : s.Ledger lib enc msgs) {P : Message → Prop}
    (hP : ∀ t, ∀ m ∈ msgs t, P m) : ∀ m ∈ s.done.map Prod.snd, P m := by
  intro m hm
  obtain ⟨d, hd, rfl⟩ := mem_map.mp hm
  exact hP d.1 d.2 (mem_of_mem_filter (hs.done_mem lib enc hd))

theorem Senders.Ledger.accepted_done (hs : s.Ledger lib enc msgs) :
    accepted lib enc (s.done.map Prod.snd) = s.done.map Prod.snd := by
  refine filter_eq_self.mpr fun m hm => ?_
  obtain ⟨d, hd, rfl⟩ := mem_map.mp hm
  exact (mem_filter.mp (hs.done_mem lib enc hd)).2

variable {σ : Type} (onMessage : σ → Message → σ) (onError : σ → ReadError → σ)

theorem Senders.Atomic.receive (hs : s.Atomic lib enc) (hled : s.Ledger lib enc msgs)
    (hfit : enc = .json ∨ ∀ t, CborFits lib (msgs t)) {c : Connection} (x : σ)
    (hempty : c.window = []) (henc : c.currentEncoding = enc) {calls : List (List (List UInt8))}
    (hcalls : Chunking s.wire calls) :
    (receiveCalls lib (.steady onMessage onError) c x [] calls).1.state =
      handleAll lib (.steady onMessage onError) enc x (s.frames lib enc) := by
  subst henc
  rcases hs with ⟨_, hwire⟩ | ⟨t, m, f, hin⟩
  · rw [hwire] at hcalls
    refine (receive_steady lib onMessage onError x hempty ?_ hcalls).2
    exact acceptedFrames_fit lib (hfit.imp_right fun hall => hled.forall_done lib _ hall)
  · rw [hin.wire] at hcalls
    refine (receive_steady_front lib onMessage onError x hempty
      (sendMessage_second_ne_nil lib hin.frame) ?_ hcalls).2
    have hfit' : c.currentEncoding = .json ∨ CborFits lib (s.done.map Prod.snd ++ [m]) := by
      refine hfit.imp_right fun hall m' hm' => ?_
      rcases mem_append.mp hm' with hm' | hm'
      · exact hled.forall_done lib _ hall m' hm'
      · rw [mem_singleton.mp hm']
        exact hall t m (mem_of_mem_filter (hled.sending_mem lib _ hin.sending))
    have hframes := acceptedFrames_fit lib hfit'
    rw [acceptedFrames_append lib hin.frame] at hframes
    exact hframes

/-- **Threads that do not start a message inside another's are heard one message at a time**, in one
order that keeps each thread's own. -/
theorem senders_interleave (msgs : τ → List Message)
    (hfit : enc = .json ∨ ∀ t, CborFits lib (msgs t))
    (hlib : ∀ t, ∀ m ∈ msgs t, lib.ReadsBack m) (schedule : List τ)
    (hex : Runs.Along (Senders.step lib enc) Senders.Exclusive (.start msgs) schedule)
    (c : Connection) (hempty : c.window = []) (henc : c.currentEncoding = enc) (x : σ)
    (calls : List (List (List UInt8)))
    (hcalls : Chunking (schedule.foldl (Senders.step lib enc) (.start msgs)).wire calls) :
    let s := schedule.foldl (Senders.step lib enc) (.start msgs)
    (receiveCalls lib (.steady onMessage onError) c x [] calls).1.state =
        (s.done.map Prod.snd).foldl onMessage x ∧
      ∀ t, s.doneBy t ++ (s.threads t).left lib enc = accepted lib enc (msgs t) := by
  intro s
  have hled : s.Ledger lib enc msgs := Runs.invariant_all (Senders.Ledger lib enc msgs)
    (fun _ t hs => hs.moves lib enc (Senders.moves lib enc _ t)) (Senders.ledger_start lib enc msgs)
    schedule
  have hatomic : s.Atomic lib enc := Runs.invariant (Senders.Atomic lib enc)
    (fun _ t hs hok => hs.moves lib enc hok (Senders.moves lib enc _ t))
    (Senders.atomic_start lib enc msgs) hex
  refine ⟨?_, hled⟩
  rw [hatomic.receive lib enc onMessage onError hled hfit x hempty henc hcalls, Senders.frames,
    handleAll_acceptedFrames lib onMessage onError (hled.forall_done lib enc hlib) x,
    hled.accepted_done]

theorem senders_interleave_two :
    let s := [true, true, false, false].foldl (Senders.step sampleLibrary .json)
      (.start fun _ => [sampleRequest])
    (receiveCalls sampleLibrary recorder .fresh [] [] [[s.wire]]).1.state =
      [.ok sampleRequest, .ok sampleRequest] := by
  intro s
  have hlib : ∀ t : Bool, ∀ m ∈ [sampleRequest], sampleLibrary.ReadsBack m := by
    intro _ m hm
    rw [mem_singleton.mp hm]
    exact sampleLibrary_readsBack
  exact (senders_interleave sampleLibrary .json _ _ (fun _ => [sampleRequest]) (.inl rfl) hlib
    [true, true, false, false] (by decide) .fresh rfl rfl [] [[s.wire]]
    ⟨by decide, by simp [s]⟩).1

/-- The same two threads, each between the other's calls: the texts come first,
then the newlines, and the receiver gets no message at all. -/
theorem senders_mixed :
    let s := [true, false, true, false].foldl (Senders.step sampleLibrary .json)
      (.start fun _ => [sampleRequest])
    (∀ t, s.doneBy t = [sampleRequest]) ∧
      ∀ calls, Chunking s.wire calls →
        (receiveCalls sampleLibrary recorder .fresh [] [] calls).1.state =
          [.error .parse, .error .parse] := by
  intro s
  let text := sampleLibrary.dump (jsonEnvelope sampleRequest)
  refine ⟨fun t => by cases t <;> rfl, fun calls hcalls => ?_⟩
  have hwire : s.wire = [text ++ text ++ [10], [10]].flatten := by decide
  have hframes : ∀ f ∈ [text ++ text ++ [10], [10]],
      IsWireFrame .json f ∧ f.length ≤ maxBufferSize := by
    intro f hf
    rcases mem_cons.mp hf with rfl | hf
    · exact ⟨⟨text ++ text, clean_of_all (by decide), rfl⟩, by decide⟩
    · rw [mem_singleton.mp hf]
      exact ⟨⟨[], by simp, rfl⟩, by decide⟩
  rw [receive_recorder sampleLibrary (c := .fresh) rfl hframes hcalls]
  have h1 : sampleLibrary.parse (text ++ text ++ [10]) = .error .parse :=
    JsonLibrary.fixed_parse_ne _ _ _ _ (by decide)
  have h2 : sampleLibrary.parse [10] = .error .parse :=
    JsonLibrary.fixed_parse_ne _ _ _ _ (by decide)
  rfl

end SimpleIpc
