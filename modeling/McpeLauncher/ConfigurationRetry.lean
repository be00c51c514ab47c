import McpeLauncher.Configuration
import McpeLauncher.Runs

/-! # When a download is tried again

Each failure makes the next request wait, as `downloadAttempt` says, from four seconds to 256. A 200
or a cached entry sets it back, but a 304 does not. -/
namespace Cll
namespace Configuration

/-- A configuration and its cache, with the failures since the last success, the time of the last
one, and whether the last call was a success. -/
structure Run (γ : Type) where
  config : Configuration
  cache : γ
  failures : Nat := 0
  lastFailure : Int := 0
  refreshed : Bool := false

section Runs
variable {γ : Type} (lib : SimpleIpc.JsonLibrary) (cache : Option (ConfigurationCache γ)) {n : Nat}

/-- A call that is too early is no attempt, and one that throws neither a success nor a failure. -/
def Run.step (s : Run γ) (i : DownloadContext) : Run γ :=
  let (result, config, g) := download lib cache i s.config s.cache
  match result with
  | .ok true => { s with config := config, cache := g, failures := 0, refreshed := true }
  | .ok false =>
    if i.requestStart < s.config.downloadMinRetryTime then { s with refreshed := false }
    else ⟨config, g, s.failures + 1, i.requestStart, false⟩
  | .error _ => { s with config := config, cache := g, refreshed := false }

/-- A 304 comes while the counter is zero, and the counter is not about to overflow. -/
def Run.Sound (s : Run γ) (i : DownloadContext) : Prop :=
  (∀ entry, s.config.downloadMinRetryTime ≤ i.requestStart →
    readCache cache s.config.url s.cache = .ok entry → unexpired i entry = none →
    (i.response (s.config.request entry)).status = 304 → s.config.downloadAttempt = 0) ∧
  s.config.downloadAttempt.toInt + 2 < 2 ^ 31

def delay (failures : Nat) : Int := 2 ^ min (failures + 1) 8

theorem delay_mono {m : Nat} (h : m ≤ n) : delay m ≤ delay n :=
  pow_le_pow_right₀ (by decide) (by omega)

theorem delay_le (n : Nat) : delay n ≤ 256 := by
  exact pow_le_pow_right₀ (by decide) (min_le_right _ _)

theorem delay_lt_succ (h : n < 7) : delay n < delay (n + 1) :=
  pow_lt_pow_right₀ (by decide) (by omega)

theorem toInt_succ {a : Int32} (h0 : 0 ≤ a.toInt) (h : a.toInt + 1 < 2 ^ 31) :
    (a + 1).toInt = a.toInt + 1 := by
  rw [Int32.toInt_add]
  exact Int.bmod_eq_of_le (by simp; omega) (by simp; omega)

theorem retryDelay_eq {attempt : Int32} (h : attempt.toInt = n) (hn : (n : Int) + 1 < 2 ^ 31) :
    retryDelay attempt = delay n := by
  rw [retryDelay, delay, toInt_succ (by omega) (by omega), h]
  congr 1
  omega

/-- The counter is the number of failures, and the last one decides when to ask again. -/
structure Run.Counts (s : Run γ) : Prop where
  counter : s.config.downloadAttempt.toInt = s.failures
  reset : s.refreshed = true → s.failures = 0
  waits : s.failures ≠ 0 →
    s.config.downloadMinRetryTime = addSeconds s.lastFailure (delay s.failures)

variable {lib cache} {s : Run γ} {i : DownloadContext}

theorem Run.Counts.of_ends (h : s.Counts) {cond : Prop}
    (hends : Ends cond 0 s.config (download lib cache i s.config s.cache)) :
    (s.step lib cache i).Counts := by
  rw [Run.step]
  generalize download lib cache i s.config s.cache = r at hends
  obtain ⟨result, config, g⟩ := r
  obtain ⟨htime, ⟨_, rfl, hattempt⟩ | ⟨_, ⟨e, rfl⟩, hattempt⟩⟩ := hends
  · exact ⟨congrArg Int32.toInt hattempt, fun _ => rfl, fun hne => absurd rfl hne⟩
  · refine ⟨(congrArg Int32.toInt hattempt).trans h.counter, ?_, fun hne => ?_⟩
    · rintro ⟨⟩
    · exact htime.trans (h.waits hne)

theorem Run.Counts.onFailure (h : s.Counts) (hdue : s.config.downloadMinRetryTime ≤ i.requestStart)
    (hover : s.config.downloadAttempt.toInt + 2 < 2 ^ 31)
    (hfailed : download lib cache i s.config s.cache = (.ok false, s.config.onFailure i, s.cache)) :
    (s.step lib cache i).Counts := by
  have hcounter := h.counter
  have hsucc : (s.config.downloadAttempt + 1).toInt = (s.failures + 1 : Nat) := by
    rw [toInt_succ (by omega) (by omega), hcounter]
    rfl
  simp only [Run.step, hfailed, if_neg (Int.not_lt.mpr hdue)]
  refine ⟨hsucc, ?_, fun _ => ?_⟩
  · rintro ⟨⟩
  · simp only [Configuration.onFailure, retryDelay_eq hsucc (by push_cast; omega)]

theorem Run.Counts.step (h : s.Counts) (hsound : s.Sound cache i) :
    (s.step lib cache i).Counts := by
  rcases download_cases lib cache i s.config s.cache with
    ⟨hearly, hr⟩ | ⟨hdue, ⟨e, _, hr⟩ | ⟨_, cached, _, _, hr⟩ | ⟨entry, hread, hentry, hr⟩⟩
  · simp only [Run.step, hr, if_pos hearly]
    exact ⟨h.counter, by rintro ⟨⟩, h.waits⟩
  · simp only [Run.step, hr]
    exact ⟨h.counter, by rintro ⟨⟩, h.waits⟩
  · have hends := useCached_ends s.config s.cache cached
    exact h.of_ends (hr ▸ hends)
  · rcases refresh_cases lib cache i s.config s.cache entry with
      ⟨_, hends⟩ | ⟨hcached, hends⟩ | ⟨_, _, hfailed⟩
    · exact h.of_ends (hr ▸ hends)
    · rw [hsound.1 entry hdue hread hentry hcached] at hends
      exact h.of_ends (hr ▸ hends)
    · exact h.onFailure hdue hsound.2 (hr.trans hfailed)

variable (lib cache)

/-- **The retries follow the failures.** Where a 304 only comes while the counter is zero, it is the
number of failures since the last success. -/
theorem retry_follows_failures (url : String) (g : γ) {is : List DownloadContext}
    (hsound : Runs.Along (Run.step lib cache) (Run.Sound cache)
      ⟨construct url, g, 0, 0, false⟩ is) :
    let s := is.foldl (Run.step lib cache) ⟨construct url, g, 0, 0, false⟩
    (s.refreshed = true → s.config.downloadAttempt = 0) ∧
      s.config.downloadAttempt.toInt = s.failures ∧
      (s.failures ≠ 0 →
        s.config.downloadMinRetryTime = addSeconds s.lastFailure (delay s.failures)) ∧
      (∀ m n, m ≤ n → delay m ≤ delay n) ∧ (∀ n < 7, delay n < delay (n + 1)) ∧
      ∀ n, delay n ≤ 256 := by
  intro s
  have hcounts : s.Counts := by
    refine Runs.invariant Run.Counts (fun _ _ h hok => h.step hok) ?_ hsound
    exact ⟨rfl, by rintro ⟨⟩, fun hne => absurd rfl hne⟩
  refine ⟨fun hrefreshed => ?_, hcounts.counter, hcounts.waits, fun m n => delay_mono,
    fun n => delay_lt_succ, delay_le⟩
  have hzero := hcounts.counter
  rw [hcounts.reset hrefreshed] at hzero
  exact Int32.toInt_inj.mp hzero

end Runs

/-- A call so many seconds after the first one, whose request is answered with this
status. -/
def after (seconds status : Int) : DownloadContext :=
  { answering status [] with requestStart := addSeconds 0 seconds }

theorem retry_follows_failures_two :
    let s := [after 0 304, after 1 500, after 6 500].foldl
      (Run.step (γ := Unit) (intervalLibrary .null) none) ⟨construct "", (), 0, 0, false⟩
    s.config.downloadAttempt.toInt = s.failures ∧
      s.config.downloadMinRetryTime = addSeconds 6000000000 8 := by
  have hsound : Runs.Along (Run.step (γ := Unit) (intervalLibrary .null) none) (Run.Sound none)
      ⟨construct "", (), 0, 0, false⟩ [after 0 304, after 1 500, after 6 500] := by
    refine ⟨⟨fun _ _ _ _ _ => rfl, by decide⟩, ⟨fun _ _ _ _ h => ?_, by decide⟩,
      ⟨fun _ _ _ _ h => ?_, by decide⟩, trivial⟩
    · change (500 : Int) = 304 at h
      exact absurd h (by decide)
    · change (500 : Int) = 304 at h
      exact absurd h (by decide)
  obtain ⟨_, hcounter, hwaits, _⟩ :=
    retry_follows_failures (intervalLibrary .null) none "" () hsound
  exact ⟨hcounter, hwaits (by decide)⟩

/-- **A 304 keeps the counter**: the first failure after it waits for eight seconds instead of four.
-/
theorem notModified_keeps_counter :
    let s := [after 0 500, after 5 304].foldl
      (Run.step (γ := Unit) (intervalLibrary .null) none) ⟨construct "", (), 0, 0, false⟩
    let t := s.step (intervalLibrary .null) none (after 6 500)
    (s.refreshed = true ∧ s.config.downloadAttempt = 1) ∧
      t.failures = 1 ∧ t.config.downloadMinRetryTime = addSeconds t.lastFailure 8 ∧
      delay 1 = 4 := by
  decide

end Configuration

end Cll
