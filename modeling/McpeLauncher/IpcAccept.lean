import McpeLauncher.IpcIoHandler

/-! # Accepting clients (`unix_service_impl::handle_incoming`)

The listening socket is registered with `EPOLLET`: an event is reported when its state changes, not
because clients are pending. The data callback accepts one client, so the clients of an event are
all accepted exactly if there is but one and the system lets it be accepted
(`all_accepted_iff`). -/
namespace SimpleIpc
open List

/-- In `epoll_wait`, before the callback of the listening socket, or behind it. -/
inductive LoopPhase where
  | waiting
  | reported
  | handled
  deriving DecidableEq, Repr

/-- The queue, whether it has changed since the last event, the clients accepted, those pending at
the last event, and how often the system has let an `accept` succeed since. -/
structure Listener (κ : Type) where
  pending : List κ
  changed : Bool
  connections : List κ
  phase : LoopPhase
  atEvent : List κ
  granted : Nat

/-- A client connects, `epoll_wait` reports the socket, `accept` succeeds or not, or the loop goes
back. -/
inductive ListenerStep (κ : Type) where
  | connects (client : κ)
  | reports (e : EpollEvent)
  | handles (e : EpollEvent) (accepts : Bool)
  | waits

namespace Listener
variable {κ : Type} {client : κ}

def bound : Listener κ := ⟨[], false, [], .waiting, [], 0⟩

/-- One `accept`, of the client that has waited longest; on an empty queue it fails. -/
def handleIncoming (s : Listener κ) (accepts : Bool) : Listener κ :=
  match accepts, s.pending with
  | true, client :: pending =>
    { s with pending, connections := s.connections ++ [client] }
  -- a failed `accept` is dropped, and the event with it
  | _, _ => s

def step (s : Listener κ) : ListenerStep κ → Listener κ
  | .connects client => { s with pending := s.pending ++ [client], changed := true }
  -- edge-triggered: the report uses up the change, however many clients are pending
  | .reports _ =>
    { s with phase := .reported, changed := false, atEvent := s.pending, granted := 0 }
  | .handles e accepts =>
    let granted := if accepts then s.granted + 1 else s.granted
    match e.dispatch with
    | some .data => { s.handleIncoming accepts with phase := .handled, granted }
    | _ => { s with phase := .handled, granted }
  | .waits => { s with phase := .waiting }

/-- The event of a client that connects. -/
def incoming : EpollEvent := ⟨true, false, false⟩

/-- Clients are told apart, an event comes after a change only, and the loop does its steps in
order. -/
def Allowed (s : Listener κ) : ListenerStep κ → Prop
  | .connects client => client ∉ s.connections ++ s.pending
  | .reports e => s.phase = .waiting ∧ s.changed = true ∧ e = incoming
  | .handles e _ => s.phase = .reported ∧ e = incoming
  | .waits => s.phase = .handled

instance Allowed.decidable [DecidableEq κ] (s : Listener κ) :
    (a : ListenerStep κ) → Decidable (s.Allowed a)
  | .connects client => inferInstanceAs (Decidable (client ∉ s.connections ++ s.pending))
  | .reports e => inferInstanceAs (Decidable (s.phase = .waiting ∧ s.changed = true ∧ e = incoming))
  | .handles e _ => inferInstanceAs (Decidable (s.phase = .reported ∧ e = incoming))
  | .waits => inferInstanceAs (Decidable (s.phase = .handled))

/-- Of the clients pending at the last event the first is accepted if an `accept` was granted; the
others still wait before later ones. -/
structure Tracks (s : Listener κ) : Prop where
  distinct : (s.connections ++ s.pending).Nodup
  one : s.granted ≤ 1
  accepted : ∀ client ∈ s.atEvent.take s.granted, client ∈ s.connections
  unhandled : s.phase = .reported → s.granted = 0 ∧ s.atEvent ≠ []
  left : ∃ newer, s.pending = s.atEvent.drop s.granted ++ newer ∧ (s.changed = true ↔ newer ≠ [])

theorem tracks_bound : (bound : Listener κ).Tracks where
  distinct := nodup_nil
  one := Nat.zero_le 1
  accepted := nofun
  unhandled := nofun
  left := ⟨[], rfl, by simp [bound]⟩

variable {s : Listener κ}

theorem Tracks.connects (hs : s.Tracks) (hnew : client ∉ s.connections ++ s.pending) :
    (s.step (.connects client)).Tracks := by
  obtain ⟨newer, hpending, _⟩ := hs.left
  refine { hs with distinct := ?_, left := ⟨newer ++ [client], ?_, by simp [step]⟩ }
  · show (s.connections ++ (s.pending ++ [client])).Nodup
    rw [← append_assoc]
    exact nodup_append.mpr ⟨hs.distinct, nodup_singleton _, fun a ha b hb heq =>
      hnew (by rw [← mem_singleton.mp hb, ← heq]; exact ha)⟩
  · show s.pending ++ [client] = s.atEvent.drop s.granted ++ (newer ++ [client])
    rw [hpending, append_assoc]

theorem handleIncoming_cons {rest : List κ} (h : s.pending = client :: rest) :
    s.handleIncoming true =
      { s with pending := rest, connections := s.connections ++ [client] } := by
  unfold handleIncoming
  rw [h]

theorem Tracks.reports (hs : s.Tracks) (hchanged : s.changed = true) (e : EpollEvent) :
    (s.step (.reports e)).Tracks := by
  obtain ⟨newer, hpending, hiff⟩ := hs.left
  refine { hs with
    one := Nat.zero_le 1, accepted := nofun, unhandled := fun _ => ⟨rfl, ?_⟩, left := ?_ }
  · show s.pending ≠ []
    rw [hpending]
    exact append_ne_nil_of_right_ne_nil _ (hiff.mp hchanged)
  · exact ⟨[], (append_nil _).symm, by simp [step]⟩

theorem Tracks.handles (hs : s.Tracks) (hphase : s.phase = .reported) (accepts : Bool) :
    (s.step (.handles incoming accepts)).Tracks := by
  have he : incoming.dispatch = some .data := rfl
  obtain ⟨hzero, hne⟩ := hs.unhandled hphase
  obtain ⟨newer, hpending, hiff⟩ := hs.left
  obtain ⟨client, rest, hevent⟩ := exists_cons_of_ne_nil hne
  rw [hzero, hevent, drop_zero, cons_append] at hpending
  rw [step, he]
  cases accepts with
  | false => exact { hs with unhandled := nofun }
  | true =>
    rw [handleIncoming_cons hpending]
    have hdistinct := hs.distinct
    rw [hpending] at hdistinct
    refine ⟨?_, ?_, ?_, nofun, newer, ?_, hiff⟩
    · rw [append_assoc]
      exact hdistinct
    · show s.granted + 1 ≤ 1
      omega
    · intro c hc
      have hfirst : c = client := by simpa [hzero, hevent] using hc
      rw [hfirst]
      exact mem_append_right _ (mem_singleton_self _)
    · rw [hzero, hevent]
      rfl

theorem Tracks.step (hs : s.Tracks) {a : ListenerStep κ} (ha : s.Allowed a) :
    (s.step a).Tracks := by
  cases a with
  | connects client => exact hs.connects ha
  | reports e => exact hs.reports ha.2.1 e
  | handles e accepts =>
    obtain ⟨hphase, rfl⟩ := ha
    exact hs.handles hphase accepts
  | waits => exact { hs with unhandled := nofun }

theorem Tracks.accepted_iff (hs : s.Tracks) :
    (∀ client ∈ s.atEvent, client ∈ s.connections) ↔ s.atEvent.length ≤ s.granted := by
  obtain ⟨newer, hpending, _⟩ := hs.left
  constructor
  · intro hall
    rw [← drop_eq_nil_iff, eq_nil_iff_forall_not_mem]
    intro client hclient
    refine (nodup_append.mp hs.distinct).2.2 client
      (hall client (mem_of_mem_drop hclient)) client ?_ rfl
    rw [hpending]
    exact mem_append_left _ hclient
  · intro hle client hclient
    exact hs.accepted client (by rwa [take_of_length_le hle])

end Listener

open Listener

/-- **The loop goes back to waiting with every client accepted exactly if there was no more than
one, and the system let it be accepted**; the others still wait, and another event comes exactly if
another client has connected. -/
theorem all_accepted_iff {κ : Type} (run : List (ListenerStep κ))
    (hrun : Runs.Along step Allowed bound run)
    (hwaiting : (run.foldl step bound).phase = .waiting) :
    let s := run.foldl step bound
    s.granted ≤ 1 ∧
      ((∀ client ∈ s.atEvent, client ∈ s.connections) ↔ s.atEvent.length ≤ s.granted) ∧
      ∃ newer, s.pending = s.atEvent.drop s.granted ++ newer ∧
        ((∃ e, s.Allowed (.reports e)) ↔ newer ≠ []) := by
  intro s
  have hs : s.Tracks :=
    Runs.invariant Tracks (fun _ _ hs ha => hs.step ha) tracks_bound hrun
  obtain ⟨newer, hpending, hiff⟩ := hs.left
  refine ⟨hs.one, hs.accepted_iff, newer, hpending, ?_⟩
  constructor
  · rintro ⟨e, _, hchanged, _⟩
    exact hiff.mp hchanged
  · intro hnewer
    exact ⟨incoming, hwaiting, hiff.mpr hnewer, rfl⟩

theorem all_accepted_one_by_one :
    let run := [ListenerStep.connects 1, .reports incoming, .connects 2, .handles incoming true,
      .waits]
    let s := run.foldl step bound
    s.atEvent = [1] ∧ ∀ client ∈ s.atEvent, client ∈ s.connections := by
  intro run s
  have hrun : Runs.Along step Allowed bound run := by decide
  obtain ⟨_, hiff, _⟩ := all_accepted_iff run hrun rfl
  exact ⟨rfl, hiff.mpr (by decide)⟩

/-- Two clients that connect before the loop sees the first: one event, one of them accepted, and
no event for the other. -/
theorem client_left_waiting :
    let run := [ListenerStep.connects 1, .connects 2, .reports incoming, .handles incoming true,
      .waits]
    let s := run.foldl step bound
    Runs.Along step Allowed bound run ∧ s.phase = .waiting ∧
      s.atEvent = [1, 2] ∧ s.connections = [1] ∧ s.pending = [2] ∧ s.changed = false :=
  ⟨by decide, rfl, rfl, rfl, rfl, rfl⟩

end SimpleIpc
