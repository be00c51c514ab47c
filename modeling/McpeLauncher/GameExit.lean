import Mathlib.Data.List.Induction

/-! # Stopping the game (`jni_support.cpp`)

`requestExitGame` tells the main thread and starts a thread that runs `stopGame`, each time it is
called. -/
namespace McpeLauncherClient
open List

inductive StopCallback where
  | nativeStopThis
  | nativeUnregisterThis
  | nativeOnDestroy
  | onPause
  | onStop
  | onDestroy
  deriving DecidableEq

/-- The callbacks in `stopGame`; the activity may lack `nativeUnregisterThis`. -/
def stopCallbacks (unregister : Bool) : List StopCallback :=
  [.nativeStopThis] ++ (if unregister then [.nativeUnregisterThis] else []) ++
    [.nativeOnDestroy, .onPause, .onStop, .onDestroy]

/-- With these callbacks to run, waiting for the looper, or at its end. -/
inductive StopThread where
  | running (left : List StopCallback)
  | asleep
  | exited

namespace StopThread

def left : StopThread → List StopCallback
  | running left => left
  | _ => []

def step (looperRunning : Bool) : StopThread → StopThread × Option StopCallback
  | running (callback :: left) => (running left, some callback)
  | running [] => (if looperRunning then asleep else exited, none)
  | t => (t, none)

def wake : StopThread → StopThread
  | asleep => running []
  | t => t

@[simp] theorem left_wake (t : StopThread) : t.wake.left = t.left := by cases t <;> rfl

theorem left_step (looperRunning : Bool) (t : StopThread) :
    (t.step looperRunning).2.toList ++ (t.step looperRunning).1.left = t.left := by
  cases t with
  | running left => cases left <;> cases looperRunning <;> rfl
  | asleep => rfl
  | exited => rfl

end StopThread

/-- In `waitForGameExit`: it is to look at `gameExitVal`, waits, or has returned. -/
inductive MainThread where
  | running
  | asleep
  | returned
  deriving DecidableEq

def MainThread.wake : MainThread → MainThread
  | asleep => running
  | t => t

/-- The members of `JniSupport`, the threads, and the callbacks run so far. -/
structure GameExit where
  gameExitVal : Bool
  looperRunning : Bool
  main : MainThread
  threads : List StopThread
  log : List StopCallback

inductive ExitStep where
  | requestExitGame
  | setLooperRunning (running : Bool)
  /-- the main thread looks at its condition -/
  | main
  | stopThread (i : Nat)
  deriving DecidableEq

namespace GameExit

def start : GameExit := ⟨false, false, .running, [], []⟩

def notifyAll (s : GameExit) : GameExit :=
  { s with main := s.main.wake, threads := s.threads.map StopThread.wake }

def step (unregister : Bool) (s : GameExit) : ExitStep → GameExit
  | .requestExitGame =>
    -- whether or not the game is being stopped already
    let s := notifyAll { s with gameExitVal := true }
    { s with threads := s.threads ++ [.running (stopCallbacks unregister)] }
  | .setLooperRunning running =>
    let s := { s with looperRunning := running }
    if running then s else s.notifyAll
  | .main => match s.main with
    | .running => { s with main := if s.gameExitVal then .returned else .asleep }
    | _ => s
  | .stopThread i => match s.threads[i]? with
    | none => s
    | some t =>
      { s with
        threads := s.threads.set i (t.step s.looperRunning).1
        log := s.log ++ (t.step s.looperRunning).2.toList }

/-- The callbacks of a run with this number of requests: none, or those the one thread has
behind it. -/
def Once (unregister : Bool) (requests : Nat) (s : GameExit) : Prop :=
  (requests = 0 → s.threads = [] ∧ s.log = []) ∧
    (requests = 1 → ∃ t, s.threads = [t] ∧ s.log ++ t.left = stopCallbacks unregister)

/-- The main thread does not sleep through a request. -/
def Told (requested : Prop) (s : GameExit) : Prop :=
  requested → s.gameExitVal = true ∧ s.main ≠ .asleep

variable {unregister : Bool} {n : Nat} {s : GameExit} {requested : Prop}

theorem Once.notifyAll (h : Once unregister n s) : Once unregister n s.notifyAll := by
  refine ⟨fun hn => ?_, fun hn => ?_⟩
  · obtain ⟨hthreads, hlog⟩ := h.1 hn
    exact ⟨congrArg (map StopThread.wake) hthreads, hlog⟩
  · obtain ⟨t, hthreads, hlog⟩ := h.2 hn
    exact ⟨t.wake, congrArg (map StopThread.wake) hthreads, (t.left_wake).symm ▸ hlog⟩

theorem Once.step (h : Once unregister n s) (op : ExitStep) :
    Once unregister (n + [op].count .requestExitGame) (s.step unregister op) := by
  cases op with
  | requestExitGame =>
    refine ⟨fun hn => absurd hn (Nat.succ_ne_zero n), fun hn => ?_⟩
    obtain ⟨hthreads, hlog⟩ := h.1 (Nat.succ.inj hn)
    refine ⟨.running (stopCallbacks unregister), ?_, ?_⟩
    · simp [GameExit.step, GameExit.notifyAll, hthreads]
    · simp [GameExit.step, GameExit.notifyAll, hlog, StopThread.left]
  | setLooperRunning running =>
    cases running with
    | false => exact Once.notifyAll (s := { s with looperRunning := false }) h
    | true => exact h
  | main =>
    rw [GameExit.step]
    split <;> exact h
  | stopThread i =>
    rw [GameExit.step]
    split
    · exact h
    · next t ht =>
      refine ⟨fun hn => ?_, fun hn => ?_⟩
      · rw [(h.1 hn).1] at ht
        exact absurd ht (by simp)
      · obtain ⟨t', hthreads, hlog⟩ := h.2 hn
        rw [hthreads] at ht
        obtain ⟨rfl, rfl⟩ : i = 0 ∧ t' = t := by simpa [getElem?_singleton] using ht
        refine ⟨(t'.step s.looperRunning).1, by rw [hthreads]; rfl, ?_⟩
        rw [append_assoc, t'.left_step, hlog]

theorem Told.step (h : Told requested s) (op : ExitStep) :
    Told (requested ∨ op = .requestExitGame) (s.step unregister op) := by
  have hwake : ∀ t : MainThread, t.wake ≠ .asleep := by rintro (_ | _ | _) <;> nofun
  rintro (hreq | rfl)
  · obtain ⟨hval, hmain⟩ := h hreq
    cases op with
    | requestExitGame => exact ⟨rfl, hwake _⟩
    | setLooperRunning running =>
      cases running with
      | false => exact ⟨hval, hwake _⟩
      | true => exact ⟨hval, hmain⟩
    | main =>
      rw [GameExit.step]
      split
      · exact ⟨hval, by simp [hval]⟩
      · exact ⟨hval, hmain⟩
    | stopThread i =>
      rw [GameExit.step]
      split <;> exact ⟨hval, hmain⟩
  · exact ⟨rfl, hwake _⟩

theorem once_told_run (unregister : Bool) (steps : List ExitStep) :
    Once unregister (steps.count .requestExitGame) (steps.foldl (step unregister) start) ∧
      Told (.requestExitGame ∈ steps) (steps.foldl (step unregister) start) := by
  induction steps using reverseRecOn with
  | nil => exact ⟨⟨fun _ => ⟨rfl, rfl⟩, nofun⟩, nofun⟩
  | append_singleton steps op ih =>
    rw [foldl_append, count_append]
    refine ⟨ih.1.step op, fun hmem => ih.2.step op ?_⟩
    exact (mem_append.mp hmem).imp id fun h => (mem_singleton.mp h).symm

/-- **The game is stopped once in every run with at most one request,** and the main thread returns
from `waitForGameExit` once there was one. -/
theorem game_stopped_once (unregister : Bool) (steps : List ExitStep) :
    let s := steps.foldl (step unregister) start
    (steps.count .requestExitGame ≤ 1 → s.log <+: stopCallbacks unregister) ∧
      (.requestExitGame ∈ steps → (s.step unregister .main).main = .returned) := by
  obtain ⟨honce, htold⟩ := once_told_run unregister steps
  refine ⟨fun hcount => ?_, fun hmem => ?_⟩
  · rcases Nat.le_one_iff_eq_zero_or_eq_one.mp hcount with hzero | hone
    · rw [(honce.1 hzero).2]
      exact nil_prefix
    · obtain ⟨t, -, hlog⟩ := honce.2 hone
      exact ⟨t.left, hlog⟩
  · obtain ⟨hval, hmain⟩ := htold hmem
    rw [GameExit.step]
    split
    · exact if_pos hval
    · next hother => cases hm : (steps.foldl (step unregister) start).main <;> simp_all

/-- **A second request stops the game again,** before or after the first stop is through. -/
theorem game_stopped_twice :
    ([.requestExitGame, .requestExitGame, .stopThread 0, .stopThread 1].foldl (step false)
      start).log = [.nativeStopThis, .nativeStopThis] := rfl

end GameExit
end McpeLauncherClient
