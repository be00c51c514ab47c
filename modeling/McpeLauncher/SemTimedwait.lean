import Mathlib

/-! # Timed waits for semaphores

The shim of `sem_timedwait` waits for the time left. Seconds and nanoseconds are subtracted by
themselves: no second is borrowed, and the seconds are cut off to 32 bits. -/
namespace LibcShim

/-- A `timespec` with less than a second of nanoseconds. -/
structure Timespec where
  tvSec : Int64
  tvNsec : Int64
  nonneg : 0 ≤ tvNsec.toInt
  lt_second : tvNsec.toInt < 10 ^ 9

structure MachTimespec where
  tvSec : UInt32
  tvNsec : Int32
  deriving DecidableEq

inductive KernReturn where
  | success
  | operationTimedOut
  | aborted
  | other

/-- The values of `errno` that are set. -/
inductive WaitError where
  | etimedout
  | eintr
  deriving DecidableEq

def timeLeft (absTimeout now : Timespec) : MachTimespec :=
  if absTimeout.tvSec > now.tvSec ∨
      absTimeout.tvSec = now.tvSec ∧ absTimeout.tvNsec > now.tvNsec then
    { tvSec := ⟨BitVec.ofInt 32 (absTimeout.tvSec - now.tvSec).toInt⟩
      tvNsec := (absTimeout.tvNsec - now.tvNsec).toInt32 }
  else { tvSec := 0, tvNsec := 0 }

/-- The time that is passed on, what is returned, and what `errno` is set to, if it is. -/
structure TimedWait where
  ts : MachTimespec
  ret : Int
  errno : Option WaitError
  deriving DecidableEq

def semTimedwait (semaphoreTimedwait : MachTimespec → KernReturn) (absTimeout now : Timespec) :
    TimedWait :=
  let ts := timeLeft absTimeout now
  match semaphoreTimedwait ts with
  | .success => { ts, ret := 0, errno := none }
  | .operationTimedOut => { ts, ret := -1, errno := some .etimedout }
  | .aborted => { ts, ret := -1, errno := some .eintr }
  | .other => { ts, ret := -1, errno := none }

theorem ts_semTimedwait (semaphoreTimedwait : MachTimespec → KernReturn)
    (absTimeout now : Timespec) :
    (semTimedwait semaphoreTimedwait absTimeout now).ts = timeLeft absTimeout now := by
  cases h : semaphoreTimedwait (timeLeft absTimeout now) <;> simp only [semTimedwait, h]

def Timespec.nanoseconds (t : Timespec) : Int := t.tvSec.toInt * 10 ^ 9 + t.tvNsec.toInt

def MachTimespec.nanoseconds (t : MachTimespec) : Int := t.tvSec.toNat * 10 ^ 9 + t.tvNsec.toInt

/-- The time left, as it should be. -/
structure IsTimeLeft (absTimeout now : Timespec) (ts : MachTimespec) : Prop where
  nonneg : 0 ≤ ts.tvNsec.toInt
  lt_second : ts.tvNsec.toInt < 10 ^ 9
  eq_left : ts.nanoseconds = max 0 (absTimeout.nanoseconds - now.nanoseconds)

section Difference
variable {absTimeout now : Timespec}

theorem later_iff : absTimeout.tvSec > now.tvSec ∨
      absTimeout.tvSec = now.tvSec ∧ absTimeout.tvNsec > now.tvNsec ↔
    now.nanoseconds < absTimeout.nanoseconds := by
  have h1 := absTimeout.nonneg
  have h2 := absTimeout.lt_second
  have h3 := now.nonneg
  have h4 := now.lt_second
  rw [gt_iff_lt, gt_iff_lt, Int64.lt_iff_toInt_lt, Int64.lt_iff_toInt_lt, ← Int64.toInt_inj,
    Timespec.nanoseconds, Timespec.nanoseconds]
  omega

theorem tvSec_timeLeft (h : now.nanoseconds < absTimeout.nanoseconds) :
    ((timeLeft absTimeout now).tvSec.toNat : Int) =
      (absTimeout.tvSec.toInt - now.tvSec.toInt) % 2 ^ 32 := by
  rw [timeLeft, if_pos (later_iff.mpr h)]
  show ((BitVec.ofInt 32 (absTimeout.tvSec - now.tvSec).toInt).toNat : Int) = _
  -- The subtraction of the seconds may wrap; it does so by a multiple of 2^32.
  rw [BitVec.toNat_ofInt, Int64.toInt_sub, Int.bmod_eq_self_sub_mul_bdiv]
  omega

theorem tvNsec_timeLeft (h : now.nanoseconds < absTimeout.nanoseconds) :
    (timeLeft absTimeout now).tvNsec.toInt = absTimeout.tvNsec.toInt - now.tvNsec.toInt := by
  have h1 := absTimeout.nonneg
  have h2 := absTimeout.lt_second
  have h3 := now.nonneg
  have h4 := now.lt_second
  rw [timeLeft, if_pos (later_iff.mpr h)]
  rw [Int64.toInt_toInt32, Int64.toInt_sub, Int.bmod_bmod_of_dvd (by decide)]
  apply Int.bmod_eq_of_le <;> omega

theorem timeLeft_of_le (h : absTimeout.nanoseconds ≤ now.nanoseconds) :
    timeLeft absTimeout now = { tvSec := 0, tvNsec := 0 } := by
  rw [timeLeft, if_neg (mt later_iff.mp (by omega))]

end Difference

/-- The end is not in the future, or neither a borrow nor the width of the seconds matters. -/
def Timespec.Subtracts (absTimeout now : Timespec) : Prop :=
  absTimeout.nanoseconds ≤ now.nanoseconds ∨
    now.tvNsec.toInt ≤ absTimeout.tvNsec.toInt ∧
      absTimeout.tvSec.toInt - now.tvSec.toInt < 2 ^ 32

/-- **`sem_timedwait` waits for the time that is left exactly if the end is not in the future, or
has no fewer nanoseconds than now and is less than 2^32 seconds away.** -/
theorem sem_timedwait_iff (semaphoreTimedwait : MachTimespec → KernReturn)
    (absTimeout now : Timespec) :
    IsTimeLeft absTimeout now (semTimedwait semaphoreTimedwait absTimeout now).ts ↔
      absTimeout.Subtracts now := by
  rw [ts_semTimedwait]
  rcases le_or_gt absTimeout.nanoseconds now.nanoseconds with hpast | hlater
  · rw [timeLeft_of_le hpast]
    refine iff_of_true ⟨by decide, by decide, ?_⟩ (.inl hpast)
    rw [max_eq_left (by omega)]
    rfl
  · have hsec := tvSec_timeLeft hlater
    have hnsec := tvNsec_timeLeft hlater
    have hsum : (timeLeft absTimeout now).nanoseconds =
        (timeLeft absTimeout now).tvSec.toNat * 10 ^ 9 +
          (timeLeft absTimeout now).tvNsec.toInt := rfl
    have hleft : max 0 (absTimeout.nanoseconds - now.nanoseconds) =
        (absTimeout.tvSec.toInt - now.tvSec.toInt) * 10 ^ 9 +
          (absTimeout.tvNsec.toInt - now.tvNsec.toInt) := by
      rw [max_eq_right (by omega), Timespec.nanoseconds, Timespec.nanoseconds]
      ring
    have h1 := absTimeout.lt_second
    have h2 := now.nonneg
    constructor
    · rintro ⟨hnonneg, -, hexact⟩
      -- The nanoseconds are the same on both sides, so the seconds are.
      refine .inr ⟨by omega, ?_⟩
      omega
    · rintro (hpast | ⟨hborrow, hwidth⟩)
      · omega
      · have hseconds : 0 ≤ absTimeout.tvSec.toInt - now.tvSec.toInt := by omega
        refine ⟨by omega, by omega, ?_⟩
        rw [hleft, hsum, hnsec, hsec, Int.emod_eq_of_lt hseconds (by omega)]

/-- Half a second to wait, over the end of a second: one second and minus half a second. -/
theorem sem_timedwait_borrow :
    semTimedwait (fun _ => .success) ⟨11, 200000000, by decide, by decide⟩
          ⟨10, 700000000, by decide, by decide⟩ =
        { ts := { tvSec := 1, tvNsec := -500000000 }, ret := 0, errno := none } ∧
      ¬ IsTimeLeft ⟨11, 200000000, by decide, by decide⟩ ⟨10, 700000000, by decide, by decide⟩
        { tvSec := 1, tvNsec := -500000000 } := by
  refine ⟨by decide +kernel, ?_⟩
  rintro ⟨hnonneg, -, -⟩
  revert hnonneg
  decide

end LibcShim
