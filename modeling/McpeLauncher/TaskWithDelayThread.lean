import McpeLauncher.Runs

/-! # A task on a thread of its own

`TaskWithDelayThread` runs a function later, on a worker that it starts when needed and that ends
when nothing is pending. A critical section is one step; waiting on the condition variable may end
at any time. `requestRun` joins the previous worker while it holds the lock: its step is refused
where that worker would still need it. -/
namespace Cll
open Function Runs.Endless

/-- Where a worker is, between two of its critical sections; `exited` is one that is not there. -/
inductive WorkerState where
  | exited
  /-- before the lock is taken for the first time -/
  | starting
  /-- in `cv.wait_for` -/
  | waiting
  /-- the task was taken, and the lock is released -/
  | ready
  /-- in `function()` -/
  | executing
  /-- after `running = false` -/
  | leaving
  deriving DecidableEq

def WorkerState.Live : WorkerState → Prop
  | .exited => False
  | .leaving => False
  | _ => True

variable {w : WorkerState}

theorem WorkerState.not_live : ¬ w.Live ↔ w = .exited ∨ w = .leaving := by
  cases w <;> simp [WorkerState.Live]

theorem WorkerState.Live.ne_exited (h : w.Live) : w ≠ .exited := by
  rintro rfl
  exact h

/-- With its threads in the order of creation and the number of calls of `function`. `thread` is the
joinable one. -/
structure TaskWithDelayThread where
  running : Bool
  hasPendingTask : Bool
  runImmediately : Bool
  stopping : Bool
  thread : Option Nat
  worker : Nat → WorkerState
  created : Nat
  executions : Nat

inductive TaskOp where
  | requestRun (immediate : Bool)
  /-- the next step of a worker -/
  | worker (i : Nat)
  /-- `terminate` up to the notification -/
  | terminate
  /-- the end of `terminate` -/
  | join

namespace TaskWithDelayThread

def construct : TaskWithDelayThread := ⟨false, false, false, false, none, fun _ => .exited, 0, 0⟩

def setWorker (t : TaskWithDelayThread) (i : Nat) (w : WorkerState) : TaskWithDelayThread :=
  { t with worker := Function.update t.worker i w }

/-- `thread.join()`, if `thread` is joinable.  It returns where the thread needs
nothing any more to exit. -/
def joinThread (t : TaskWithDelayThread) : Option TaskWithDelayThread :=
  match t.thread with
  | none => some t
  | some i =>
    if t.worker i = .exited ∨ t.worker i = .leaving then
      some { t.setWorker i .exited with thread := none }
    else none

def startThread (t : TaskWithDelayThread) : TaskWithDelayThread :=
  { t.setWorker t.created .starting with thread := some t.created, created := t.created + 1 }

def requestRun (immediate : Bool) (t : TaskWithDelayThread) : Option TaskWithDelayThread :=
  let t :=
    { t with hasPendingTask := true, runImmediately := t.runImmediately || immediate }
  if t.running then some t
  else ({ t with running := true }.joinThread).map startThread

def takeTask (i : Nat) (t : TaskWithDelayThread) : TaskWithDelayThread :=
  { t.setWorker i .ready with hasPendingTask := false, runImmediately := false }

/-- The head of the loop, up to where the lock is released. -/
def loopHead (i : Nat) (t : TaskWithDelayThread) : TaskWithDelayThread :=
  if t.hasPendingTask then
    if !t.runImmediately && !t.stopping then t.setWorker i .waiting
    else t.takeTask i
  else { t.setWorker i .leaving with running := false }

/-- `sleep` and `isStopping`, which `function` may call, take the lock as well but change nothing.
-/
def doThreadLoop (i : Nat) (t : TaskWithDelayThread) : Option TaskWithDelayThread :=
  match t.worker i with
  | .exited => none
  | .starting => some (t.loopHead i)
  | .waiting => some (t.takeTask i)
  | .ready => some { t.setWorker i .executing with executions := t.executions + 1 }
  | .executing => some (t.loopHead i)
  | .leaving => some (t.setWorker i .exited)

/-- The pointer of a worker, with the flag it points to; set while the worker is in the loop. -/
def currentIsStopping (i : Nat) (t : TaskWithDelayThread) : Option Bool :=
  match t.worker i with
  | .exited | .starting | .leaving => none
  | .waiting | .ready | .executing => some t.stopping

/-- `sleep`, called by a worker in a world `e`; `waitFor` is the condition variable's
`wait_for`. -/
def sleep {ε : Type} (i : Nat) (waitFor : Int → ε → ε) (time : Int) (e : ε)
    (t : TaskWithDelayThread) : ε :=
  -- it is the pointer that is tested, and not the flag
  if (t.currentIsStopping i).isNone then waitFor time e else e

variable {i : Nat}

/-- **A task never sleeps**: where it runs, the pointer is set. -/
theorem sleep_executing {ε : Type} {t : TaskWithDelayThread} (h : t.worker i = .executing)
    (waitFor : Int → ε → ε) (time : Int) (e : ε) : t.sleep i waitFor time e = e := by
  rw [sleep, currentIsStopping, h]
  rfl

/-- A step.  `terminate` is called once, and nothing is requested after it. -/
def step (t : TaskWithDelayThread) : TaskOp → Option TaskWithDelayThread
  | .requestRun immediate => if t.stopping then none else t.requestRun immediate
  | .worker i => t.doThreadLoop i
  | .terminate =>
    if t.stopping then none else some { t with runImmediately := true, stopping := true }
  | .join => if t.stopping then t.joinThread else none

/-! ## What holds whenever the lock is free -/

structure Inv (t : TaskWithDelayThread) : Prop where
  /-- Something is pending only while a worker is running. -/
  pending : t.hasPendingTask = true → t.running = true
  /-- There is no thread but the one that can be joined. -/
  alone : ∀ i, t.worker i ≠ .exited → t.thread = some i
  /-- It is in its loop as long as it is running, -/
  live : t.running = true → ∃ i, t.thread = some i ∧ (t.worker i).Live
  /-- and needs the lock no more when it is not. -/
  gone : t.running = false → ∀ i, ¬ (t.worker i).Live

section Steps
variable {t t' : TaskWithDelayThread}

theorem construct_inv : construct.Inv where
  pending h := absurd h (by decide)
  alone _ h := absurd rfl h
  live h := absurd h (by decide)
  gone _ _ h := h

/-- Joining leaves no thread, and is possible where the loop was left. -/
theorem joinThread_of_gone (halone : ∀ i, t.worker i ≠ .exited → t.thread = some i)
    (hgone : ∀ i, ¬ (t.worker i).Live) :
    ∃ t', t.joinThread = some t' ∧ (∀ i, t'.worker i = .exited) ∧ t'.thread = none ∧
      t'.running = t.running ∧ t'.hasPendingTask = t.hasPendingTask ∧
      t'.executions = t.executions := by
  rcases hthread : t.thread with _ | i
  · refine ⟨t, ?_, fun j => ?_, hthread, rfl, rfl, rfl⟩
    · rw [TaskWithDelayThread.joinThread, hthread]
    · by_contra hj
      have := halone j hj
      rw [hthread] at this
      exact absurd this (by simp)
  · refine ⟨{ t.setWorker i .exited with thread := none }, ?_, fun j => ?_, rfl, rfl, rfl, rfl⟩
    · rw [TaskWithDelayThread.joinThread, hthread]
      exact if_pos (WorkerState.not_live.mp (hgone i))
    · by_cases hij : j = i
      · rw [hij]
        exact update_self _ _ _
      · refine (update_of_ne hij _ _).trans ?_
        by_contra hj
        have := halone j hj
        rw [hthread] at this
        exact hij (Option.some_inj.mp this).symm

section
variable (h : t.Inv) {i : Nat}
include h

theorem Inv.running (hi : (t.worker i).Live) : t.running = true ∧ t.thread = some i := by
  refine ⟨?_, h.alone i hi.ne_exited⟩
  by_contra hno
  exact h.gone (Bool.eq_false_iff.mpr hno) i hi

theorem Inv.exited_of_ne {j : Nat} (hi : t.worker i ≠ .exited) (hne : j ≠ i) :
    t.worker j = .exited := by
  by_contra hj
  exact hne (Option.some_inj.mp ((h.alone j hj).symm.trans (h.alone i hi)))

theorem Inv.setWorker (hi : (t.worker i).Live) (hw : w.Live)
    (hworker : t'.worker = update t.worker i w) (hrunning : t'.running = t.running)
    (hthread : t'.thread = t.thread) : t'.Inv := by
  obtain ⟨hrun, hjoin⟩ := h.running hi
  have hself : t'.worker i = w := by rw [hworker, update_self]
  refine ⟨fun _ => hrunning.trans hrun, fun j hj => ?_, fun _ => ⟨i, ?_, ?_⟩, fun hno => ?_⟩
  · rw [hthread]
    by_cases hij : j = i
    · rw [hij, hjoin]
    · rw [hworker, update_of_ne hij] at hj
      exact h.alone j hj
  · rw [hthread, hjoin]
  · rw [hself]
    exact hw
  · rw [hrunning, hrun] at hno
    exact absurd hno (by simp)

theorem Inv.leave (hi : t.worker i ≠ .exited) (hw : ¬ w.Live)
    (hworker : t'.worker = update t.worker i w) (hrunning : t'.running = false)
    (hpending : t'.hasPendingTask = false) (hthread : t'.thread = t.thread) : t'.Inv := by
  refine ⟨fun hp => ?_, fun j hj => ?_, fun hrun => ?_, fun _ j => ?_⟩
  · rw [hpending] at hp
    exact absurd hp (by simp)
  · rw [hthread]
    by_cases hij : j = i
    · rw [hij]
      exact h.alone i hi
    · rw [hworker, update_of_ne hij] at hj
      exact h.alone j hj
  · rw [hrunning] at hrun
    exact absurd hrun (by simp)
  · by_cases hij : j = i
    · rw [hworker, hij, update_self]
      exact hw
    · rw [hworker, update_of_ne hij, h.exited_of_ne hi hij]
      exact fun hlive => hlive

theorem Inv.loopHead (hi : (t.worker i).Live) : (t.loopHead i).Inv := by
  rw [TaskWithDelayThread.loopHead]
  split
  · split
    · exact h.setWorker (w := .waiting) hi trivial rfl rfl rfl
    · exact h.setWorker (w := .ready) hi trivial rfl rfl rfl
  · next hnone =>
    exact h.leave (w := .leaving) hi.ne_exited (fun hlive => hlive) rfl rfl
      (Bool.eq_false_iff.mpr hnone) rfl

theorem Inv.doThreadLoop (hstep : t.doThreadLoop i = some t') : t'.Inv := by
  rw [TaskWithDelayThread.doThreadLoop] at hstep
  split at hstep
  · exact absurd hstep (by simp)
  · next hi =>
    cases hstep
    exact h.loopHead (by rw [hi]; trivial)
  · next hi =>
    cases hstep
    exact h.setWorker (i := i) (w := .ready) (by rw [hi]; trivial) trivial rfl rfl rfl
  · next hi =>
    cases hstep
    exact h.setWorker (i := i) (w := .executing) (by rw [hi]; trivial) trivial rfl rfl rfl
  · next hi =>
    cases hstep
    exact h.loopHead (by rw [hi]; trivial)
  · next hi =>
    cases hstep
    have hne : t.worker i ≠ .exited := by rw [hi]; decide
    -- a worker that is leaving is not running
    have hrunning : t.running = false := by
      refine Bool.eq_false_iff.mpr fun hrun => ?_
      obtain ⟨j, hj, hlive⟩ := h.live hrun
      obtain rfl : j = i := Option.some_inj.mp (hj.symm.trans (h.alone i hne))
      rw [hi] at hlive
      exact hlive
    have hpending : t.hasPendingTask = false := by
      refine Bool.eq_false_iff.mpr fun hp => ?_
      rw [h.pending hp] at hrunning
      exact absurd hrunning (by simp)
    exact h.leave (w := .exited) hne (fun hlive => hlive) rfl hrunning hpending rfl

end

theorem startThread_inv (hrunning : t.running = true) (hnone : ∀ i, t.worker i = .exited) :
    t.startThread.Inv := by
  have hworker : ∀ j, t.startThread.worker j =
      if j = t.created then .starting else .exited := by
    intro j
    change update t.worker t.created .starting j = _
    rw [update_apply, hnone j]
  refine ⟨fun _ => hrunning, fun j hj => ?_, fun _ => ⟨t.created, rfl, ?_⟩, fun hno => ?_⟩
  · rw [hworker] at hj
    by_cases hij : j = t.created
    · rw [hij]
      rfl
    · rw [if_neg hij] at hj
      exact absurd rfl hj
  · rw [hworker, if_pos rfl]
    trivial
  · exact absurd (hno.symm.trans hrunning) (by simp)

/-- **A request is never held up**, and leaves a worker that is running. -/
theorem Inv.requestRun (h : t.Inv) (immediate : Bool) :
    ∃ t', t.requestRun immediate = some t' ∧ t'.Inv ∧ t'.hasPendingTask = true ∧
      t'.executions = t.executions := by
  by_cases hrunning : t.running = true
  · refine ⟨_, if_pos hrunning, ⟨fun _ => hrunning, h.alone, h.live, h.gone⟩, rfl, rfl⟩
  · have hno := Bool.eq_false_iff.mpr hrunning
    let t₁ : TaskWithDelayThread := { t with
      running := true
      hasPendingTask := true
      runImmediately := t.runImmediately || immediate }
    obtain ⟨t₂, hjoin, hnone, _, hrun, hpending, hexecutions⟩ :=
      joinThread_of_gone (t := t₁) h.alone (h.gone hno)
    refine ⟨t₂.startThread, ?_, startThread_inv hrun hnone, hpending, hexecutions⟩
    refine (if_neg hrunning).trans ?_
    rw [hjoin, Option.map_some]

theorem requestRun_of_running (hrunning : t.running = true) (immediate : Bool) :
    t.requestRun immediate =
      some { t with hasPendingTask := true, runImmediately := t.runImmediately || immediate } :=
  if_pos hrunning

theorem Inv.joinThread (h : t.Inv) (hstep : t.joinThread = some t') : t'.Inv := by
  have hno : t.running = false := by
    refine Bool.eq_false_iff.mpr fun hrun => ?_
    obtain ⟨i, hi, hlive⟩ := h.live hrun
    rw [TaskWithDelayThread.joinThread, hi] at hstep
    have hnot : ¬ (t.worker i = .exited ∨ t.worker i = .leaving) :=
      fun hleft => WorkerState.not_live.mpr hleft hlive
    exact absurd ((if_neg hnot).symm.trans hstep) (by simp)
  obtain ⟨t₁, hjoin, hnone, _, hrun, hpending, _⟩ := joinThread_of_gone h.alone (h.gone hno)
  obtain rfl : t₁ = t' := Option.some_inj.mp (hjoin.symm.trans hstep)
  refine ⟨fun hp => ?_, fun i hi => absurd (hnone i) hi, fun hyes => ?_, fun _ i => ?_⟩
  · rw [hrun]
    exact h.pending (hpending.symm.trans hp)
  · exact absurd (hyes.symm.trans (hrun.trans hno)) (by simp)
  · rw [hnone i]
    exact fun hlive => hlive

theorem Inv.step (h : t.Inv) (op : TaskOp) (hstep : t.step op = some t') : t'.Inv := by
  cases op with
  | requestRun immediate =>
    obtain ⟨t₁, hrequest, h₁, _⟩ := h.requestRun immediate
    rw [TaskWithDelayThread.step, hrequest] at hstep
    split at hstep
    · exact absurd hstep (by simp)
    · obtain rfl : t₁ = t' := Option.some_inj.mp hstep
      exact h₁
  | worker i => exact h.doThreadLoop hstep
  | terminate =>
    rw [TaskWithDelayThread.step] at hstep
    split at hstep
    · exact absurd hstep (by simp)
    · cases hstep
      exact ⟨h.pending, h.alone, h.live, h.gone⟩
  | join =>
    rw [TaskWithDelayThread.step] at hstep
    split at hstep
    · exact h.joinThread hstep
    · exact absurd hstep (by simp)

/-! ## What follows a request -/

/-- Steps that the worker still makes before it calls the function. -/
def stepsToExecute : WorkerState → Nat
  | .executing => 3
  | .starting => 3
  | .waiting => 2
  | .ready => 1
  | _ => 0

/-- Worker `i` is going to call the function: it has taken a task or will take one. -/
def Due (i : Nat) (t : TaskWithDelayThread) : Prop :=
  t.Inv ∧ (t.worker i).Live ∧ (t.hasPendingTask = true ∨ t.worker i = .ready)

theorem Due.other (h : Due i t) {op : TaskOp} (hop : op ≠ .worker i) (hstep : t.step op = some t') :
    Due i t' ∧ t'.worker i = t.worker i ∧ t'.executions = t.executions := by
  obtain ⟨hinv, hlive, htask⟩ := h
  have hinv' := hinv.step op hstep
  obtain ⟨hrunning, hthread⟩ := hinv.running hlive
  suffices hkept : t'.worker i = t.worker i ∧ t'.executions = t.executions ∧
      (t.hasPendingTask = true → t'.hasPendingTask = true) by
    obtain ⟨hworker, hexecutions, hpending⟩ := hkept
    refine ⟨⟨hinv', hworker ▸ hlive, ?_⟩, hworker, hexecutions⟩
    exact htask.imp hpending hworker.trans
  cases op with
  | requestRun immediate =>
    rw [TaskWithDelayThread.step, requestRun_of_running hrunning] at hstep
    split at hstep
    · exact absurd hstep (by simp)
    · cases hstep
      exact ⟨rfl, rfl, fun _ => rfl⟩
  | worker j =>
    have hne : j ≠ i := fun hji => hop (by rw [hji])
    rw [TaskWithDelayThread.step, TaskWithDelayThread.doThreadLoop,
      hinv.exited_of_ne hlive.ne_exited hne] at hstep
    exact absurd hstep (by simp)
  | terminate =>
    rw [TaskWithDelayThread.step] at hstep
    split at hstep
    · exact absurd hstep (by simp)
    · cases hstep
      exact ⟨rfl, rfl, fun hp => hp⟩
  | join =>
    -- the thread cannot be joined while it is in its loop
    have hnot : ¬ (t.worker i = .exited ∨ t.worker i = .leaving) :=
      fun hleft => WorkerState.not_live.mpr hleft hlive
    rw [TaskWithDelayThread.step, TaskWithDelayThread.joinThread, hthread] at hstep
    simp only [if_neg hnot, ite_self] at hstep
    exact absurd hstep (by simp)

theorem loopHead_of_pending (hpending : t.hasPendingTask = true) (i : Nat) :
    t.loopHead i = t.setWorker i .waiting ∨ t.loopHead i = t.takeTask i := by
  rw [loopHead, if_pos hpending]
  split
  · exact .inl rfl
  · exact .inr rfl

theorem Due.own (h : Due i t) (hstep : t.step (.worker i) = some t') :
    t.executions < t'.executions ∨
      Due i t' ∧ stepsToExecute (t'.worker i) < stepsToExecute (t.worker i) ∧
        t'.executions = t.executions := by
  obtain ⟨hinv, hlive, htask⟩ := h
  have hinv' := hinv.step _ hstep
  have htake : (t.takeTask i).worker i = .ready := update_self _ _ _
  have hwait : (t.setWorker i .waiting).worker i = .waiting := update_self _ _ _
  -- from the head of the loop
  have hhead : t' = t.loopHead i → t.worker i ≠ .ready →
      2 < stepsToExecute (t.worker i) → Due i t' ∧
        stepsToExecute (t'.worker i) < stepsToExecute (t.worker i) ∧
        t'.executions = t.executions := by
    intro ht' hnot hfar
    have hpending := htask.resolve_right hnot
    rcases loopHead_of_pending hpending i with heq | heq
    · rw [ht', heq] at hinv' ⊢
      rw [Due, hwait]
      exact ⟨⟨hinv', trivial, .inl hpending⟩, hfar, rfl⟩
    · rw [ht', heq] at hinv' ⊢
      rw [Due, htake]
      exact ⟨⟨hinv', trivial, .inr rfl⟩, Nat.lt_of_succ_lt hfar, rfl⟩
  rw [TaskWithDelayThread.step, TaskWithDelayThread.doThreadLoop] at hstep
  cases hworker : t.worker i with
  | exited => exact absurd hworker hlive.ne_exited
  | leaving =>
    rw [hworker] at hlive
    exact hlive.elim
  | starting =>
    rw [hworker] at hstep hhead
    exact .inr (hhead (Option.some_inj.mp hstep).symm (by decide) (by decide))
  | executing =>
    rw [hworker] at hstep hhead
    exact .inr (hhead (Option.some_inj.mp hstep).symm (by decide) (by decide))
  | waiting =>
    rw [hworker] at hstep
    obtain rfl : t.takeTask i = t' := Option.some_inj.mp hstep
    rw [Due, htake]
    exact .inr ⟨⟨hinv', trivial, .inr rfl⟩, by decide, rfl⟩
  | ready =>
    rw [hworker] at hstep
    obtain rfl := Option.some_inj.mp hstep
    exact .inl (Nat.lt_succ_self _)

end Steps

/-- Every worker makes its next step in the end, if it does not exit. -/
def Fair (r : Runs.Endless step) : Prop :=
  ∀ i, r.Fair (fun t => t.worker i ≠ .exited) (fun op => op = .worker i)

variable {r : Runs.Endless step}

theorem Due.executes (hfair : Fair r) {n : Nat} (h : Due i (r.state n)) :
    ∃ m ≥ n, (r.state n).executions < (r.state m).executions := by
  -- on the number of steps it still makes
  induction hk : stepsToExecute ((r.state n).worker i) using Nat.strongRecOn generalizing n with
  | ind k ih =>
    let P : TaskWithDelayThread → Prop := fun t =>
      Due i t ∧ stepsToExecute (t.worker i) = k ∧ t.executions = (r.state n).executions
    let Q : TaskWithDelayThread → Prop := fun t =>
      (r.state n).executions < t.executions ∨
        Due i t ∧ stepsToExecute (t.worker i) < k ∧ t.executions = (r.state n).executions
    have hown : ∀ t op t', P t → op = .worker i → t.step op = some t' → Q t' := by
      rintro t _ t' ⟨hdue, hsteps, hexecutions⟩ rfl hstep
      rcases hdue.own hstep with hcall | ⟨hdue', hnear, hsame⟩
      · exact .inl (hexecutions ▸ hcall)
      · exact .inr ⟨hdue', hsteps ▸ hnear, hsame.trans hexecutions⟩
    have hother : ∀ t op t', P t → t.step op = some t' → P t' ∨ Q t' := by
      intro t op t' hP hstep
      by_cases hop : op = .worker i
      · exact .inr (hown t op t' hP hop hstep)
      · obtain ⟨hdue, hsteps, hexecutions⟩ := hP
        obtain ⟨hdue', hworker, hsame⟩ := hdue.other hop hstep
        exact .inl ⟨hdue', hworker ▸ hsteps, hsame.trans hexecutions⟩
    have hlive : ∀ t, P t → t.worker i ≠ .exited := fun t hP => hP.1.2.1.ne_exited
    obtain ⟨m, hm, hcall | ⟨hdue, hnear, hsame⟩⟩ :=
      eventually (hfair i) hlive hother hown (n := n) ⟨h, hk, rfl⟩
    · exact ⟨m, hm, hcall⟩
    · obtain ⟨m', hm', hcall⟩ := ih _ hnear hdue rfl
      exact ⟨m', Nat.le_trans hm hm', hsame ▸ hcall⟩

/-- **A request is followed by a call.** -/
theorem requestRun_executes (hstart : r.state 0 = construct) (hfair : Fair r) {n : Nat}
    {immediate : Bool} (h : r.action n = some (.requestRun immediate)) :
    ∃ m > n, (r.state n).executions < (r.state m).executions := by
  have hinv : (r.state n).Inv := by
    refine invariant Inv (fun t op t' ht hstep => ht.step op hstep) ?_ n
    rw [hstart]
    exact construct_inv
  obtain ⟨t', hrequest, hinv', hpending, hsame⟩ := hinv.requestRun immediate
  have hnext : r.state (n + 1) = t' := by
    have hmove := r.moves n _ h
    rw [step, hrequest] at hmove
    split at hmove
    · exact absurd hmove (by simp)
    · exact (Option.some_inj.mp hmove).symm
  obtain ⟨i, _, hlive⟩ := hinv'.live (hinv'.pending hpending)
  have hdue : Due i (r.state (n + 1)) := by
    rw [hnext]
    exact ⟨hinv', hlive, .inl hpending⟩
  obtain ⟨m, hm, hcall⟩ := hdue.executes hfair
  refine ⟨m, hm, ?_⟩
  rw [hnext, hsame] at hcall
  exact hcall

/-- **No request is lost.** Whenever the lock is free, a pending task has a running worker, there is
one thread at most, and a request is not held up; as long as the worker makes its steps, a request
is followed by a call that begins after it. -/
theorem taskWithDelayThread_serves :
    (∀ (ops : List TaskOp) (t : TaskWithDelayThread), ops.foldlM step construct = some t →
      (t.hasPendingTask = true →
        t.running = true ∧ ∃ i, t.thread = some i ∧ (t.worker i).Live) ∧
      (∀ i j, t.worker i ≠ .exited → t.worker j ≠ .exited → i = j) ∧
      (t.stopping = false → ∀ immediate, t.step (.requestRun immediate) ≠ none)) ∧
    ∀ r : Runs.Endless step, r.state 0 = construct → Fair r → ∀ n immediate,
      r.action n = some (.requestRun immediate) →
        ∃ m > n, (r.state n).executions < (r.state m).executions := by
  constructor
  · intro ops t hrun
    have h : t.Inv :=
      Runs.invariant_some Inv (fun t op t' ht hstep => ht.step op hstep) construct_inv hrun
    refine ⟨fun hpending => ?_, fun i j hi hj => ?_, fun hgo immediate => ?_⟩
    · have hrunning := h.pending hpending
      exact ⟨hrunning, h.live hrunning⟩
    · exact Option.some_inj.mp ((h.alone i hi).symm.trans (h.alone j hj))
    · obtain ⟨t', hrequest, _⟩ := h.requestRun immediate
      rw [step, if_neg (by simp [hgo]), hrequest]
      exact Option.some_ne_none t'
  · intro r hstart hfair n immediate h
    exact requestRun_executes hstart hfair h

def oneRequest : List TaskOp := [.requestRun true, .worker 0, .worker 0, .worker 0, .worker 0]

theorem oneRequest_runs : oneRequest.foldlM step construct ≠ none := Option.some_ne_none _

theorem oneRequest_fair : Fair (ofRun oneRequest_runs) := by
  intro i n _
  refine ⟨n + 5, Nat.le_add_right n 5, .inr fun hi => ?_⟩
  have hstate : (ofRun oneRequest_runs).state (n + 5) =
      (oneRequest.foldlM step construct).getD construct := by
    refine congrArg (fun ops : List TaskOp => (ops.foldlM step construct).getD construct) ?_
    exact List.take_of_length_le (Nat.le_add_left 5 n)
  rw [hstate] at hi
  have hinv : ((oneRequest.foldlM step construct).getD construct).Inv :=
    Runs.invariant_some Inv (fun t op t' ht hstep => ht.step op hstep) construct_inv
      (show oneRequest.foldlM step construct = some _ from rfl)
  have hthread := hinv.alone i hi
  obtain rfl : 0 = i := Option.some_inj.mp hthread
  exact hi rfl

theorem taskWithDelayThread_serves_one :
    let r := ofRun oneRequest_runs
    r.action 0 = some (.requestRun true) ∧
      ∃ m > 0, (r.state 0).executions < (r.state m).executions :=
  ⟨rfl, taskWithDelayThread_serves.2 _ rfl oneRequest_fair 0 true rfl⟩

end TaskWithDelayThread

end Cll
