import Mathlib
import McpeLauncher.Runs

/-! # Waiting for the daemon

`daemon_launcher::open`, on Linux, starts the daemon and waits for a promise, which a signalfd for
`SIGCHLD` and an inotify descriptor can fulfil any number of times. -/
namespace DaemonUtils
open List

/-- `strncmp`, on texts that end with a NUL where they are not cut off before. -/
def strncmp : List UInt8 → List UInt8 → Nat → Int
  | _, _, 0 => 0
  | a, b, n + 1 =>
    let x := a.headD 0
    let y := b.headD 0
    if x ≠ y then x.toNat - y.toNat
    else if x = 0 then 0
    else strncmp a.tail b.tail n

/-- A file name has no NUL. -/
@[ext] structure FileName where
  bytes : List UInt8
  no_nul : 0 ∉ bytes
  deriving DecidableEq

theorem strncmp_ne {a b : List UInt8} (h : a.headD 0 ≠ b.headD 0) (n : Nat) :
    strncmp a b (n + 1) ≠ 0 := by
  rw [strncmp, if_pos h]
  intro heq
  exact h (UInt8.toNat_inj.mp (by omega))

theorem strncmp_cons {c : UInt8} (hc : c ≠ 0) (a b : List UInt8) (n : Nat) :
    strncmp (c :: a) (c :: b) (n + 1) = strncmp a b n := by
  rw [strncmp]
  simp [hc]

theorem strncmp_name {name file : List UInt8} (hname : 0 ∉ name) (hfile : 0 ∉ file) (pad : Nat) :
    strncmp (name ++ replicate (pad + 1) 0) file (name.length + (pad + 1)) = 0 ↔
      name = file := by
  induction name generalizing file with
  | nil =>
    cases file with
    | nil => simp [strncmp, replicate_succ]
    | cons d file =>
      have hd : (0 : UInt8) ≠ d := fun h => hfile (by simp [← h])
      refine iff_of_false ?_ (by simp)
      exact strncmp_ne (by simpa [replicate_succ] using hd) pad
  | cons c name ih =>
    have hc : c ≠ 0 := fun h => hname (by simp [h])
    have hlength : (c :: name).length + (pad + 1) = name.length + (pad + 1) + 1 := by
      rw [length_cons]
      omega
    rw [hlength]
    cases file with
    | nil => exact iff_of_false (strncmp_ne (by simpa using hc) _) (by simp)
    | cons d file =>
      by_cases hcd : c = d
      · subst hcd
        have hrest := ih (not_mem_of_not_mem_cons hname) (not_mem_of_not_mem_cons hfile)
        rw [cons_append, strncmp_cons hc, hrest, cons.injEq, and_iff_right rfl]
      · exact iff_of_false (strncmp_ne (by simpa using hcd) _) (by simp [hcd])

def serviceFilename (servicePath : FileName) : FileName where
  bytes := (servicePath.bytes.reverse.takeWhile (· ≠ 47)).reverse
  no_nul h := by
    rw [List.mem_reverse] at h
    exact servicePath.no_nul (List.mem_reverse.mp ((List.takeWhile_sublist _).subset h))

/-- `inotify_event`: `len` is the length of `name`, with the NULs behind it. -/
structure InotifyEvent where
  wd : Int
  name : List UInt8

inductive Notice where
  /-- `IN_CREATE` in the directory, with the number of NULs beyond the first -/
  | created (name : FileName) (pad : Nat)
  /-- `IN_IGNORED`, when the directory was removed -/
  | ignored
  /-- `IN_Q_OVERFLOW` -/
  | overflow

def Notice.creates (file : FileName) : Notice → Bool
  | .created name _ => name = file
  | .ignored | .overflow => false

def Notice.event (wd : Nat) : Notice → InotifyEvent
  | .created name pad => ⟨wd, name.bytes ++ List.replicate (pad + 1) 0⟩
  | .ignored => ⟨wd, []⟩
  | .overflow => ⟨-1, []⟩

inductive Child where
  | running
  /-- it has exited, and nobody has waited for it -/
  | exited
  | reaped
  deriving DecidableEq

inductive StopPromise where
  | unset
  | set
  /-- `set_value` was called again, and threw -/
  | threw
  deriving DecidableEq

def StopPromise.setValue : StopPromise → StopPromise
  | .unset => .set
  | .set | .threw => .threw

/-- A call of `open` while it waits; `closed` and `created` are the other causes so far. -/
structure DaemonLauncher where
  serviceFilename : FileName
  wd : Nat
  child : Child := .running
  queue : List Notice := []
  stopPromise : StopPromise := .unset
  closed : Bool := false
  created : Bool := false

/-- What happens while `open` waits, to daemon and directory and in the handling thread. -/
inductive Action where
  | childExits
  | noticed (notice : Notice)
  /-- the signalfd is handled -/
  | signal
  /-- the inotify descriptor is handled, and all of its events are read -/
  | directory
  /-- it is handled, but what `read` gives, so many of the events, is not all of them -/
  | shortRead (events : Nat)
  /-- one of the descriptors is closed -/
  | close

namespace DaemonLauncher

/-- `waitpid(proc, &status, WNOHANG) == -1`, and what it leaves of the daemon. -/
def waitpid : Child → Bool × Child
  | .running => (false, .running)
  | .exited => (false, .reaped)
  | .reaped => (true, .reaped)

def names (s : DaemonLauncher) (event : InotifyEvent) : Bool :=
  event.wd == s.wd && strncmp event.name s.serviceFilename.bytes event.name.length == 0

/-- The loop over the events, which the exception ends. -/
def readLoop (s : DaemonLauncher) : List InotifyEvent → StopPromise → StopPromise
  | [], p => p
  | event :: events, p =>
    if s.names event then
      match p.setValue with
      | .threw => .threw
      | p => readLoop s events p
    else readLoop s events p

def step (s : DaemonLauncher) : Action → DaemonLauncher
  | .childExits => { s with child := if s.child = .running then .exited else s.child }
  | .noticed notice =>
    { s with queue := s.queue ++ [notice]
             created := s.created || notice.creates s.serviceFilename }
  | .signal =>
    let (failed, child) := waitpid s.child
    { s with child := child
             stopPromise := if failed then s.stopPromise else s.stopPromise.setValue }
  | .directory =>
    { s with queue := []
             stopPromise := s.readLoop (s.queue.map (Notice.event s.wd)) s.stopPromise }
  | .shortRead events => { s with queue := s.queue.drop events }
  | .close => { s with closed := true, stopPromise := s.stopPromise.setValue }

def start (servicePath : FileName) (wd : Nat) : DaemonLauncher :=
  { serviceFilename := DaemonUtils.serviceFilename servicePath, wd := wd }

/-! ## What fulfils the promise -/

/-- The daemon has exited, a descriptor was closed, or the entry was created. -/
def Caused (s : DaemonLauncher) : Prop := s.child ≠ .running ∨ s.closed = true ∨ s.created = true

instance (s : DaemonLauncher) : Decidable s.Caused := inferInstanceAs (Decidable (_ ∨ _ ∨ _))

/-- The promise was set at most once, and not without a cause. -/
def Fulfils (s : DaemonLauncher) : Prop :=
  s.stopPromise ≠ .threw ∧ (s.stopPromise = .set → s.Caused)

/-- The handler takes it for the creation of the entry: it is, or carries no name. -/
def Concerns (file : FileName) : Notice → Bool
  | .created name _ => name = file
  | .ignored => true
  | .overflow => false

theorem names_event (s : DaemonLauncher) (notice : Notice) :
    s.names (notice.event s.wd) = Concerns s.serviceFilename notice := by
  cases notice with
  | created name pad =>
    have hcmp := strncmp_name name.no_nul s.serviceFilename.no_nul pad
    rw [Bool.eq_iff_iff]
    simp only [names, Notice.event, beq_self_eq_true, Bool.true_and, beq_iff_eq,
      length_append, length_replicate, hcmp, Concerns, decide_eq_true_eq, FileName.ext_iff]
  | ignored => simp [names, Notice.event, strncmp, Concerns]
  | overflow => simp [names, Notice.event, Concerns]

theorem readLoop_eq (s : DaemonLauncher) (notices : List Notice) (p : StopPromise) :
    s.readLoop (notices.map (Notice.event s.wd)) p =
      if notices.countP (Concerns s.serviceFilename) = 0 then p
      else if notices.countP (Concerns s.serviceFilename) = 1 ∧ p = .unset then .set
      else .threw := by
  induction notices generalizing p with
  | nil => rfl
  | cons notice notices ih =>
    rw [map_cons, readLoop, names_event, countP_cons]
    by_cases hnotice : Concerns s.serviceFilename notice = true
    · cases p with
      | unset =>
        simp only [hnotice, if_true, StopPromise.setValue, ih, Nat.add_eq_zero_iff, one_ne_zero,
          and_false, if_false, Nat.add_eq_right, reduceCtorEq, and_true]
      | set => simp [hnotice, StopPromise.setValue]
      | threw => simp [hnotice, StopPromise.setValue]
    · simp only [hnotice, Bool.false_eq_true, if_false, add_zero, ih]

/-- A handler that sets the promise finds it unset, with a cause. -/
def Sound (s : DaemonLauncher) : Action → Prop
  | .signal => s.child = .reaped ∨ s.stopPromise = .unset ∧ s.Caused
  | .directory =>
    let notices := s.queue.countP (Concerns s.serviceFilename)
    notices = 0 ∨ notices = 1 ∧ s.stopPromise = .unset ∧ s.Caused
  | .close => s.stopPromise = .unset
  | _ => True

variable {s : DaemonLauncher}

theorem fulfils_setValue {p : StopPromise} (h : s.stopPromise = p.setValue) :
    s.Fulfils ↔ p = .unset ∧ s.Caused := by
  rw [Fulfils, h]
  cases p with
  | unset => simp [StopPromise.setValue]
  | set => simp [StopPromise.setValue]
  | threw => simp [StopPromise.setValue]

theorem fulfils_signal_iff (hs : s.Fulfils) : (s.step .signal).Fulfils ↔ s.Sound .signal := by
  obtain ⟨file, wd, child, queue, p, closed, created⟩ := s
  cases child with
  | running => exact (fulfils_setValue (p := p) rfl).trans (or_iff_right (by simp)).symm
  | exited =>
    -- both before and after the call the exit is a cause
    have hbefore : Caused ⟨file, wd, .exited, queue, p, closed, created⟩ := .inl (by simp)
    have hafter : Caused ⟨file, wd, .reaped, queue, p.setValue, closed, created⟩ := .inl (by simp)
    rw [Sound, or_iff_right (by simp), and_iff_left hbefore]
    exact (fulfils_setValue (p := p) rfl).trans (and_iff_left hafter)
  | reaped => exact iff_of_true hs (.inl rfl)

theorem fulfils_directory_iff (hs : s.Fulfils) :
    (s.step .directory).Fulfils ↔ s.Sound .directory := by
  simp only [DaemonLauncher.step, readLoop_eq, Fulfils, Sound]
  change _ ∧ (_ → s.Caused) ↔ _
  split
  · next hnone => exact iff_of_true hs (.inl hnone)
  · next hsome =>
    rw [or_iff_right hsome]
    split
    · next hone => simp [hone]
    · next hmore => exact iff_of_false (by simp) fun h => hmore ⟨h.1, h.2.1⟩

/-- **One step**: the promise stays as it should be exactly if the step is sound. -/
theorem fulfils_step_iff (hs : s.Fulfils) (a : Action) : (s.step a).Fulfils ↔ s.Sound a := by
  cases a with
  | childExits =>
    refine iff_of_true ⟨hs.1, fun hp => ?_⟩ trivial
    rcases hs.2 hp with hchild | hcause
    · exact .inl (by simp [DaemonLauncher.step, hchild])
    · exact .inr hcause
  | noticed notice =>
    refine iff_of_true ⟨hs.1, fun hp => ?_⟩ trivial
    rcases hs.2 hp with hchild | hclosed | hcreated
    · exact .inl hchild
    · exact .inr (.inl hclosed)
    · exact .inr (.inr (Bool.or_eq_true_iff.mpr (.inl hcreated)))
  | shortRead events => exact iff_of_true hs trivial
  | close => exact (fulfils_setValue rfl).trans (and_iff_left (.inr (.inl rfl)))
  | signal => exact fulfils_signal_iff hs
  | directory => exact fulfils_directory_iff hs

/-- **The promise is set at most once and not without a cause** exactly if each handler that sets it
finds it unset and a cause for it. -/
theorem promise_once_iff (servicePath : FileName) (wd : Nat) (as : List Action) :
    Runs.Along step (fun s a => (s.step a).Fulfils) (start servicePath wd) as ↔
      Runs.Along step Sound (start servicePath wd) as := by
  have hstart : (start servicePath wd).Fulfils := ⟨by simp [start], by simp [start]⟩
  constructor
  · exact Runs.Along.imp Fulfils (fun _ _ _ h => h) (fun _ a hs h => (fulfils_step_iff hs a).mp h)
      hstart
  · exact Runs.Along.imp Fulfils (fun _ a hs h => (fulfils_step_iff hs a).mpr h)
      (fun _ a hs h => (fulfils_step_iff hs a).mpr h) hstart

def onePath : FileName := ⟨[115], by decide⟩

/-- **The promise is set without a cause**, when another child exits or the directory is removed;
**and again**, when the daemon exits later. -/
theorem promise_not_once :
    (((start onePath 1).step .signal).stopPromise = .set ∧
      ¬ ((start onePath 1).step .signal).Caused) ∧
    (([.noticed .ignored, .directory].foldl step (start onePath 1)).stopPromise = .set ∧
      ¬ ([.noticed .ignored, .directory].foldl step (start onePath 1)).Caused) ∧
    ([.noticed (.created onePath 0), .directory, .childExits, .signal].foldl step
      (start onePath 1)).stopPromise = .threw ∧
    ([.noticed (.created onePath 0), .noticed (.created onePath 0), .directory].foldl step
      (start onePath 1)).stopPromise = .threw := by
  decide

end DaemonLauncher

end DaemonUtils
