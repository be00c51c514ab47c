import McpeLauncher.TaskWithDelayThread
import McpeLauncher.UploadLoops

/-! # Waiting between two failed uploads

`uploadTasks` is to wait after a failed upload, each time twice as long. But
`TaskWithDelayThread::sleep` tests the pointer `currentIsStopping` instead of the flag, and nothing
waits. -/
namespace Cll
open List

/-- `waitFor` is the wait on the thread's condition variable; the thread's state is part of the
world. -/
structure TaskPlatform (ε : Type) where
  uploader : EventUploader ε
  downloadConfigs : ε → Option (Int32 × Int32) × ε
  requestRun : UploadTask → (immediate : Bool) → ε → ε
  waitFor : Int → ε → ε
  waitFor_ne : ∀ time e, 0 < time → waitFor time e ≠ e
  thread : ε → TaskWithDelayThread
  worker : Nat
  executing : ∀ e, (thread e).worker worker = .executing

/-- The manager's platform, with `isStopping` and `sleep` of the thread. -/
def TaskPlatform.platform {ε : Type} (w : TaskPlatform ε) : Platform ε where
  uploader := w.uploader
  downloadConfigs := w.downloadConfigs
  isStopping e := ((w.thread e).stopping, e)
  sleep time e := (w.thread e).sleep w.worker w.waitFor time e
  requestRun := w.requestRun

/-! ## The attempts of a call -/

/-- Its outcome, the back-off time then, and the world before and after the rest of the round. -/
structure Attempt (ε : Type) where
  outcome : UploadOutcome
  nextBackoffTime : Int
  before : ε
  after : ε

/-- The attempt is one to back off from. -/
def Attempt.Fails {ε : Type} (a : Attempt ε) : Prop := a.outcome = .returned .errorGeneric

instance {ε : Type} (a : Attempt ε) : Decidable a.Fails :=
  inferInstanceAs (Decidable (a.outcome = .returned .errorGeneric))

namespace EventManager

section Attempts
variable {ν κ ℓn ℓc ε : Type} (N : StorageBatch ν ℓn) (K : StorageBatch κ ℓc) (w : Platform ε)

/-- A round of `uploadTasks` up to the status, with none where the loop ends. -/
def attempt (fuel : Nat) (s : Backoff ν κ ε) : Option UploadOutcome × Backoff ν κ ε :=
  let (stopping, e) := w.isStopping s.env
  let s := { s with env := e }
  if !stopping && (N.hasEvents s.manager.normalStorageBatch ||
      K.hasEvents s.manager.criticalStorageBatch) then
    let s := { s with toManagerState := updateConfigIfNeeded N K w s.toManagerState }
    if K.hasEvents s.manager.criticalStorageBatch then
      let (outcome, s') := sendCritical K w fuel s.toManagerState
      (some outcome, { s with toManagerState := s' })
    else if N.hasEvents s.manager.normalStorageBatch then
      let (outcome, s') := sendNormal N w fuel s.toManagerState
      (some outcome, { s with toManagerState := s' })
    else (none, s)
  else (none, s)

def attempts (fuel : Nat) : Nat → Backoff ν κ ε → List (Attempt ε)
  | 0, _ => []
  | rounds + 1, s =>
    match attempt N K w fuel s with
    | (none, _) => []
    | (some outcome, s') =>
      match uploadTasksRound N K w fuel s with
      | .again next => ⟨outcome, s.nextBackoffTime, s'.env, next.env⟩ :: attempts fuel rounds next
      | .done next | .failed next => [⟨outcome, s.nextBackoffTime, s'.env, next.env⟩]

def uploadAttempts (rounds fuel : Nat) (s : ManagerState ν κ ε) : List (Attempt ε) :=
  attempts N K w fuel rounds ⟨updateConfigIfNeeded N K w s, baseBackoffTime⟩

theorem attempt_nextBackoffTime (fuel : Nat) (s : Backoff ν κ ε) :
    (attempt N K w fuel s).2.nextBackoffTime = s.nextBackoffTime := by
  simp only [attempt]
  split
  · split
    · rfl
    · split
      · rfl
      · rfl
  · rfl

theorem uploadTasksRound_eq (fuel : Nat) (s : Backoff ν κ ε) :
    uploadTasksRound N K w fuel s =
      (attempt N K w fuel s).1.elim (.done (attempt N K w fuel s).2)
        fun outcome => backOff w outcome (attempt N K w fuel s).2 := by
  simp only [uploadTasksRound, attempt]
  split
  · split
    · rfl
    · split
      · rfl
      · rfl
  · rfl

end Attempts

section OnThread
variable {ν κ ℓn ℓc ε : Type} (N : StorageBatch ν ℓn) (K : StorageBatch κ ℓc) (w : TaskPlatform ε)
  {s : Backoff ν κ ε} {outcome : UploadOutcome}

/-- Twice the time if it failed, the first time if not; and the thread is not stopping. -/
def Follows (a b : Attempt ε) : Prop :=
  b.nextBackoffTime = (if a.Fails then 2 * a.nextBackoffTime else baseBackoffTime) ∧
    (w.thread a.after).stopping = false

/-- An attempt is only made where the thread is not stopping. -/
theorem stopping_of_attempt {fuel : Nat} (h : (attempt N K w.platform fuel s).1 = some outcome) :
    (w.thread s.env).stopping = false := by
  simp only [attempt] at h
  split at h
  · next hgo =>
    simp only [Bool.and_eq_true, Bool.not_eq_true'] at hgo
    exact hgo.1
  · cases h

theorem backOff_again {next : Backoff ν κ ε} (h : backOff w.platform outcome s = .again next) :
    next.env = s.env ∧ next.nextBackoffTime =
      if outcome = .returned .errorGeneric then 2 * s.nextBackoffTime else baseBackoffTime := by
  have hsleep : ∀ time, w.platform.sleep time s.env = s.env := fun time =>
    TaskWithDelayThread.sleep_executing (w.executing s.env) w.waitFor time s.env
  unfold backOff at h
  split at h
  · cases h
    exact ⟨rfl, rfl⟩
  · cases h
    exact ⟨hsleep _, rfl⟩
  · cases h
    exact ⟨hsleep _, rfl⟩
  · cases h

theorem backOff_failed {next : Backoff ν κ ε} (h : backOff w.platform outcome s = .failed next) :
    next = s := by
  unfold backOff at h
  split at h <;> cases h
  rfl

theorem backOff_ne_done (outcome : UploadOutcome) (s next : Backoff ν κ ε) :
    backOff w.platform outcome s ≠ .done next := by
  intro h
  unfold backOff at h
  split at h <;> cases h

/-- **The attempts of a loop**: the first one has the time the loop begins with, each of
the others the one that follows, and none is followed by a wait. -/
theorem attempts_follow (fuel rounds : Nat) (s : Backoff ν κ ε) :
    (∀ a ∈ (attempts N K w.platform fuel rounds s).head?,
        a.nextBackoffTime = s.nextBackoffTime ∧ (w.thread s.env).stopping = false) ∧
      (attempts N K w.platform fuel rounds s).IsChain (Follows w) ∧
      ∀ a ∈ attempts N K w.platform fuel rounds s, a.after = a.before := by
  induction rounds generalizing s with
  | zero => exact ⟨by simp [attempts], by simp [attempts], by simp [attempts]⟩
  | succ rounds ih =>
    have hround := uploadTasksRound_eq N K w.platform fuel s
    have htime := attempt_nextBackoffTime N K w.platform fuel s
    rcases hattempt : attempt N K w.platform fuel s with ⟨_ | outcome, s'⟩
    · simp only [attempts, hattempt]
      exact ⟨by simp, by simp, by simp⟩
    · have hgoes := stopping_of_attempt N K w (congrArg Prod.fst hattempt)
      rw [hattempt] at hround htime
      simp only [attempts, hattempt]
      rcases hnext : uploadTasksRound N K w.platform fuel s with next | next | next
      · obtain ⟨henv, hnextTime⟩ := backOff_again w (hround.symm.trans hnext)
        obtain ⟨hhead, hchain, hwaits⟩ := ih next
        refine ⟨by simpa using hgoes, isChain_cons.mpr ⟨fun b hb => ?_, hchain⟩,
          fun a ha => ?_⟩
        · obtain ⟨hb, hstop⟩ := hhead b hb
          exact ⟨by rw [hb, hnextTime, htime]; rfl, hstop⟩
        · rcases mem_cons.mp ha with rfl | ha
          · exact henv
          · exact hwaits a ha
      · exact absurd (hround.symm.trans hnext) (backOff_ne_done w _ _ _)
      · have hsame := backOff_failed w (hround.symm.trans hnext)
        exact ⟨by simpa using hgoes, isChain_singleton _, by simp [hsame]⟩

end OnThread

/-! ## What the back-off is for -/

section Respects
variable {ν κ ℓn ℓc ε : Type} (N : StorageBatch ν ℓn) (K : StorageBatch κ ℓc) (w : TaskPlatform ε)
  {a : Attempt ε} {n : Nat}

/-- Between two failing attempts the task waits for the time, unless it is stopping; each failure
doubles it, without overflow. -/
structure Respects (as : List (Attempt ε)) : Prop where
  waits : as.IsChain fun a b => a.Fails → b.Fails →
    a.after = w.waitFor a.nextBackoffTime a.before ∨ (w.thread a.before).stopping = true
  base : ∀ a ∈ as.head?, a.nextBackoffTime = baseBackoffTime
  doubles : as.IsChain fun a b =>
    b.nextBackoffTime = if a.Fails then 2 * a.nextBackoffTime else baseBackoffTime
  bounded : ∀ a ∈ as, a.Fails → 2 * a.nextBackoffTime < 2 ^ 63

variable {w} {as : List (Attempt ε)}

theorem forall_of_follows {P : Attempt ε → Prop} {R : Attempt ε → Attempt ε → Prop}
    (has : as.IsChain R) (hstep : ∀ a b, R a b → P a → P b) (hhead : ∀ a ∈ as.head?, P a) :
    ∀ a ∈ as, P a :=
  has.induction P as (fun a b => hstep a b) fun hne => hhead _ (head?_eq_some_head hne)

theorem pos_of_follows (has : as.IsChain (Follows w))
    (hbase : ∀ a ∈ as.head?, a.nextBackoffTime = baseBackoffTime) :
    ∀ a ∈ as, 0 < a.nextBackoffTime := by
  refine forall_of_follows has (fun a b hab ha => ?_) fun a ha => ?_
  · rw [hab.1]
    split
    · omega
    · decide
  · rw [hbase a ha]
    decide

/-- Where no two attempts in a row fail, one that fails has the first time. -/
theorem base_of_follows (has : as.IsChain (Follows w))
    (hbase : ∀ a ∈ as.head?, a.nextBackoffTime = baseBackoffTime)
    (hone : as.IsChain fun a b => ¬ (a.Fails ∧ b.Fails)) :
    ∀ a ∈ as, a.Fails → a.nextBackoffTime = baseBackoffTime := by
  rw [isChain_iff_forall_rel_of_append_cons_cons] at has hone
  have hboth : as.IsChain fun a b => Follows w a b ∧ ¬ (a.Fails ∧ b.Fails) :=
    isChain_iff_forall_rel_of_append_cons_cons.mpr fun _ _ _ _ heq => ⟨has heq, hone heq⟩
  refine forall_of_follows hboth (fun a b hab _ hfails => ?_) fun a ha _ => hbase a ha
  rw [hab.1.1, if_neg fun ha => hab.2 ⟨ha, hfails⟩]

/-- **The back-off is respected only where it is not needed**: in the calls of
`uploadTasks` in which no two attempts in a row fail. -/
theorem uploadTasks_respects_iff (w : TaskPlatform ε) (rounds fuel : Nat)
    (s : ManagerState ν κ ε) :
    Respects w (uploadAttempts N K w.platform rounds fuel s) ↔
      (uploadAttempts N K w.platform rounds fuel s).IsChain fun a b => ¬ (a.Fails ∧ b.Fails) := by
  obtain ⟨hhead, hfollows, hwaits⟩ := attempts_follow N K w fuel rounds
    ⟨updateConfigIfNeeded N K w.platform s, baseBackoffTime⟩
  change ∀ a ∈ (uploadAttempts N K w.platform rounds fuel s).head?, _ at hhead
  change (uploadAttempts N K w.platform rounds fuel s).IsChain _ at hfollows
  change ∀ a ∈ uploadAttempts N K w.platform rounds fuel s, _ at hwaits
  generalize uploadAttempts N K w.platform rounds fuel s = as at *
  have hbase := fun a ha => (hhead a ha).1
  constructor
  · intro h
    rw [isChain_iff_forall_rel_of_append_cons_cons]
    rintro a b pre post heq ⟨ha, hb⟩
    have hmem : a ∈ as := by simp [heq]
    have hsame := hwaits a hmem
    -- the task neither waited nor was the thread stopping, since it went on
    have hgoes := (isChain_iff_forall_rel_of_append_cons_cons.mp hfollows heq).2
    rcases isChain_iff_forall_rel_of_append_cons_cons.mp h.waits heq ha hb with hwait | hstop
    · exact w.waitFor_ne _ _ (pos_of_follows hfollows hbase a hmem) (hwait.symm.trans hsame)
    · rw [hsame, hstop] at hgoes
      cases hgoes
  · intro hone
    refine ⟨?_, hbase, hfollows.imp fun a b hab => hab.1, fun a ha hfails => ?_⟩
    · exact hone.imp fun a b hab ha hb => absurd ⟨ha, hb⟩ hab
    · rw [base_of_follows hfollows hbase hone a ha hfails]
      decide

theorem nextBackoffTime_of_fails (has : as.IsChain (Follows w))
    (hbase : ∀ a ∈ as.head?, a.nextBackoffTime = baseBackoffTime)
    (hfails : ∀ b ∈ as.take n, b.Fails) (ha : as[n]? = some a) :
    a.nextBackoffTime = baseBackoffTime * 2 ^ n := by
  induction n generalizing a with
  | zero => rw [hbase a (by rw [head?_eq_getElem?, ha]; rfl), pow_zero, mul_one]
  | succ n ih =>
    obtain ⟨hlt, rfl⟩ := List.getElem?_eq_some_iff.mp ha
    have hstep := isChain_iff_getElem.mp has n hlt
    have hprev : as[n].Fails := hfails _ (mem_take_iff_getElem.mpr ⟨n, by omega, rfl⟩)
    rw [hstep.1, if_pos hprev, ih (fun b hb => hfails b ?_) (getElem?_eq_getElem (by omega)),
      pow_succ]
    · ring
    · exact (take_prefix_take_left (by omega)).subset hb

/-- **The back-off time overflows** with the fifty-first attempt in a row that fails,
and not before. -/
theorem backoff_overflows (w : TaskPlatform ε) (rounds fuel : Nat) (s : ManagerState ν κ ε)
    (hfails : ∀ b ∈ (uploadAttempts N K w.platform rounds fuel s).take n, b.Fails)
    (ha : (uploadAttempts N K w.platform rounds fuel s)[n]? = some a) :
    2 * a.nextBackoffTime < 2 ^ 63 ↔ n < 50 := by
  obtain ⟨hhead, hfollows, _⟩ := attempts_follow N K w fuel rounds
    ⟨updateConfigIfNeeded N K w.platform s, baseBackoffTime⟩
  rw [nextBackoffTime_of_fails hfollows (fun a ha => (hhead a ha).1) hfails ha]
  constructor
  · intro hlt
    by_contra hge
    have hle : (2 : Int) ^ 50 ≤ 2 ^ n := pow_le_pow_right₀ (by decide) (Nat.le_of_not_lt hge)
    rw [baseBackoffTime] at hlt
    omega
  · intro hlt
    have hle : (2 : Int) ^ n ≤ 2 ^ 49 := pow_le_pow_right₀ (by decide) (by omega)
    rw [baseBackoffTime]
    omega

end Respects

def executingThread : TaskWithDelayThread :=
  ⟨true, false, false, false, some 0, fun _ => .executing, 1, 1⟩

/-- A world with a clock, in milliseconds, in which no request is answered. -/
def unanswered : TaskPlatform Nat where
  uploader := ⟨"", [], fun _ e => (none, e), fun e => ("", e), id⟩
  downloadConfigs e := (none, e)
  requestRun _ _ e := e
  waitFor time e := e + time.toNat
  waitFor_ne time e h := by omega
  thread _ := executingThread
  worker := 0
  executing _ := rfl

/-- **Two failures without a wait**: the second attempt is made when no time has
passed since the first. -/
theorem failures_without_wait :
    let as := uploadAttempts BufferedEventBatch.storageBatch MultiFileEventBatch.storageBatch
      unanswered.platform 2 1 ⟨(EventManager.ofTwo 6400).manager, 0, []⟩
    as.map (fun a => (a.outcome, a.nextBackoffTime, a.before, a.after)) =
        [(.returned .errorGeneric, 5000, 0, 0), (.returned .errorGeneric, 10000, 0, 0)] ∧
      ¬ Respects unanswered as := by
  intro as
  have has : as = [⟨.returned .errorGeneric, 5000, 0, 0⟩, ⟨.returned .errorGeneric, 10000, 0, 0⟩] :=
    rfl
  refine ⟨by rw [has]; rfl, fun h => ?_⟩
  have hwaits := h.waits
  rw [has, isChain_cons_cons] at hwaits
  rcases hwaits.1 rfl rfl with hwait | hstop
  · exact absurd hwait (by decide)
  · exact absurd hstop (by decide)

theorem backoff_second :
    let as := uploadAttempts BufferedEventBatch.storageBatch MultiFileEventBatch.storageBatch
      unanswered.platform 2 1 ⟨(EventManager.ofTwo 6400).manager, 0, []⟩
    as[1]? = some ⟨.returned .errorGeneric, 10000, 0, 0⟩ ∧ 2 * (10000 : Int) < 2 ^ 63 := by
  intro as
  have hfirst : as.take 1 = [⟨.returned .errorGeneric, 5000, 0, 0⟩] := rfl
  have hfails : ∀ b ∈ as.take 1, b.Fails := by
    rw [hfirst, forall_mem_singleton]
    rfl
  exact ⟨rfl, (backoff_overflows _ _ unanswered 2 1 _ hfails rfl).mpr (by decide)⟩

end EventManager

end Cll
