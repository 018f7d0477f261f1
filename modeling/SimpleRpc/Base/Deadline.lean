import Mathlib.Order.Basic
import Mathlib.Data.Int.Notation

/-!
# Deadlines of the Timed Waits (`base/threading.cc`, `rpc/client.cc`)

`pthread_cond_timedwait` takes an absolute time. Three functions make one from `gettimeofday`
and a wait that was cut into whole seconds and nanoseconds, each with its own copy of the carry.

## Model

- `time_t`, `suseconds_t` and `tv_nsec` are `long`; none of the sums gets near its end, so all
  of them are `Int`
- the cut of a `double` into seconds and nanoseconds is an argument

## Main results

- `Timespec.carry_valid_iff`: the carry misses one sum, the full second
- `abstimes_valid_iff`: what that means for the three functions
- `verified_iff`: where it ends the process
-/

namespace SimpleRpc.Base

/-- `struct timeval` -/
structure Timeval where
  tvSec : Int
  tvUsec : Int
  deriving DecidableEq

/-- `struct timespec` -/
structure Timespec where
  tvSec : Int
  tvNsec : Int
  deriving DecidableEq

/-- `1000 * 1000 * 1000` -/
abbrev nsecPerSec : Int := 1000000000

namespace Timeval

/-- What `gettimeofday` returns: the microseconds are less than a second. -/
def Valid (tv : Timeval) : Prop := 0 ≤ tv.tvUsec ∧ tv.tvUsec < 1000000

/-- The time in nanoseconds. -/
def total (tv : Timeval) : Int := tv.tvSec * nsecPerSec + tv.tvUsec * 1000

end Timeval

namespace Timespec

/-- What `pthread_cond_timedwait` accepts. -/
def Valid (t : Timespec) : Prop := 0 ≤ t.tvNsec ∧ t.tvNsec < nsecPerSec

instance : DecidablePred Valid := fun _ => inferInstanceAs (Decidable (_ ∧ _))

/-- The time in nanoseconds. -/
def total (t : Timespec) : Int := t.tvSec * nsecPerSec + t.tvNsec

/-- `if (abstime.tv_nsec > 1000 * 1000 * 1000) { abstime.tv_nsec -= 1000 * 1000 * 1000;
    abstime.tv_sec += 1; }` -/
def carry (t : Timespec) : Timespec :=
  if t.tvNsec > nsecPerSec then ⟨t.tvSec + 1, t.tvNsec - nsecPerSec⟩ else t

end Timespec

/-! ## The three copies -/

/-- The `abstime` of `Future::timed_wait` -/
def Future.timedWaitAbstime (tv : Timeval) (fullSec nsec : Int) : Timespec :=
  Timespec.carry ⟨tv.tvSec + fullSec, tv.tvUsec * 1000 + nsec⟩

/-- The `abstime` of `CondVar::timed_wait` -/
def CondVar.timedWaitAbstime (tv : Timeval) (fullSec nsec : Int) : Timespec :=
  Timespec.carry ⟨tv.tvSec + fullSec, tv.tvUsec * 1000 + nsec⟩

/-- The `abstime` of `RunLater::try_one_job`, which computes `wait_sec` and does not add it. -/
def RunLater.tryOneJobAbstime (now : Timeval) (_waitSec waitNsec : Int) : Timespec :=
  Timespec.carry ⟨now.tvSec, now.tvUsec * 1000 + waitNsec⟩

/-! ## The carry -/

namespace Timespec

/-- The carry moves a second, it does not lose one. -/
@[simp] theorem carry_total (t : Timespec) : t.carry.total = t.total := by
  unfold carry total
  split
  · show (t.tvSec + 1) * nsecPerSec + (t.tvNsec - nsecPerSec) = t.tvSec * nsecPerSec + t.tvNsec
    rw [Int.add_mul, Int.one_mul]
    omega
  · rfl

/-- The carry makes a valid time of less than two seconds' worth of nanoseconds, unless they are
    one second exactly: there the comparison should have been `>=`. -/
theorem carry_valid_iff {t : Timespec} (h0 : 0 ≤ t.tvNsec) (h2 : t.tvNsec < 2 * nsecPerSec) :
    t.carry.Valid ↔ t.tvNsec ≠ nsecPerSec := by
  unfold carry Valid
  split
  · -- the second is taken out
    show (0 ≤ t.tvNsec - nsecPerSec ∧ t.tvNsec - nsecPerSec < nsecPerSec) ↔ _
    omega
  · -- nothing is taken out, and a full second stays
    omega

end Timespec

variable {tv : Timeval} {fullSec nsec : Int}

/-- Two parts of less than a second each are less than two seconds. -/
private theorem nsec_sum_bounds (htv : tv.Valid) (hn0 : 0 ≤ nsec) (hn1 : nsec < nsecPerSec) :
    0 ≤ tv.tvUsec * 1000 + nsec ∧ tv.tvUsec * 1000 + nsec < 2 * nsecPerSec := by
  obtain ⟨hu0, hu1⟩ := htv
  unfold nsecPerSec at *
  constructor <;> omega

/-- One clock reading and one wait make three valid times, two of them exact. -/
def AbstimesValid (tv : Timeval) (fullSec nsec : Int) : Prop :=
  (Future.timedWaitAbstime tv fullSec nsec).Valid ∧
  (CondVar.timedWaitAbstime tv fullSec nsec).Valid ∧
  (RunLater.tryOneJobAbstime tv fullSec nsec).Valid ∧
  (Future.timedWaitAbstime tv fullSec nsec).total = tv.total + (fullSec * nsecPerSec + nsec) ∧
  (CondVar.timedWaitAbstime tv fullSec nsec).total = tv.total + (fullSec * nsecPerSec + nsec)

private theorem added_total (tv : Timeval) (fullSec nsec : Int) :
    (Timespec.carry ⟨tv.tvSec + fullSec, tv.tvUsec * 1000 + nsec⟩).total =
      tv.total + (fullSec * nsecPerSec + nsec) := by
  rw [Timespec.carry_total, Timespec.total, Timeval.total]
  show (tv.tvSec + fullSec) * nsecPerSec + (tv.tvUsec * 1000 + nsec) = _
  rw [Int.add_mul]
  omega

/-- **Deadlines**: the three functions compute valid ones, and the two that add the whole wait
    exact ones, unless the microseconds of the clock and the nanoseconds of the wait add up to
    one second. -/
theorem abstimes_valid_iff (tv : Timeval) (fullSec nsec : Int) (htv : tv.Valid)
    (hn0 : 0 ≤ nsec) (hn1 : nsec < nsecPerSec) :
    AbstimesValid tv fullSec nsec ↔ tv.tvUsec * 1000 + nsec ≠ nsecPerSec := by
  obtain ⟨h0, h2⟩ := nsec_sum_bounds htv hn0 hn1
  have hvalid : ∀ sec, (Timespec.carry ⟨sec, tv.tvUsec * 1000 + nsec⟩).Valid ↔
      tv.tvUsec * 1000 + nsec ≠ nsecPerSec := fun sec =>
    Timespec.carry_valid_iff (t := ⟨sec, tv.tvUsec * 1000 + nsec⟩) h0 h2
  constructor
  · rintro ⟨hfuture, -⟩
    exact (hvalid _).mp hfuture
  · intro hne
    exact ⟨(hvalid _).mpr hne, (hvalid _).mpr hne, (hvalid _).mpr hne, added_total tv fullSec nsec,
      added_total tv fullSec nsec⟩

/-- An hour and a quarter of a second, asked for at half past. -/
theorem abstimes_valid_quarter :
    AbstimesValid ⟨1400000000, 500000⟩ 3600 250000000 :=
  (abstimes_valid_iff ⟨1400000000, 500000⟩ 3600 250000000 ⟨by decide, by decide⟩
    (by decide) (by decide)).mpr (by decide)

/-- Half a second, asked for half a second past: none of the three times is valid. -/
theorem not_abstimes_valid_half :
    (⟨1400000000, 500000⟩ : Timeval).Valid ∧ ¬ AbstimesValid ⟨1400000000, 500000⟩ 0 500000000 ∧
      Future.timedWaitAbstime ⟨1400000000, 500000⟩ 0 500000000 = ⟨1400000000, 1000000000⟩ ∧
      CondVar.timedWaitAbstime ⟨1400000000, 500000⟩ 0 500000000 = ⟨1400000000, 1000000000⟩ ∧
      RunLater.tryOneJobAbstime ⟨1400000000, 500000⟩ 0 500000000 = ⟨1400000000, 1000000000⟩ := by
  refine ⟨⟨by decide, by decide⟩, ?_, by decide, by decide, by decide⟩
  rintro ⟨⟨-, hlt⟩, -⟩
  exact absurd hlt (by decide)

/-! ## What follows an invalid deadline -/

/-- What `pthread_cond_timedwait` returns. -/
inductive TimedwaitRet where
  /-- `0`: signalled, or for no reason at all -/
  | ok
  /-- `ETIMEDOUT` -/
  | timedOut
  /-- `EINVAL` -/
  | inval
  deriving DecidableEq

/-- `pthread_cond_timedwait`: with a valid time it returns for the reason `wake`. -/
def pthreadCondTimedwait (abstime : Timespec) (wake : TimedwaitRet) : TimedwaitRet :=
  if abstime.Valid then wake else .inval

/-- `if (ret == ETIMEDOUT) { timed_out_ = true; } else { verify(ret == 0); }` of
    `Future::timed_wait`: whether `timed_out_` is set; nothing if `verify` ends the process. -/
def Future.timedOut : TimedwaitRet → Option Bool
  | .timedOut => some true
  | .ok => some false
  | .inval => none

/-- `verify(ret == ETIMEDOUT || ret == 0)` of `RunLater::try_one_job` -/
def RunLater.verified (ret : TimedwaitRet) : Option Unit :=
  if ret = .timedOut ∨ ret = .ok then some () else none

/-- **The two `verify` after a timed wait** hold, however the wait ends, unless the parts of a
    second add up to a whole one. -/
theorem verified_iff (htv : tv.Valid) (hn0 : 0 ≤ nsec) (hn1 : nsec < nsecPerSec)
    {wake : TimedwaitRet} (hwake : wake ≠ .inval) :
    ((Future.timedOut (pthreadCondTimedwait (Future.timedWaitAbstime tv fullSec nsec) wake)).isSome ∧
      (RunLater.verified
        (pthreadCondTimedwait (RunLater.tryOneJobAbstime tv fullSec nsec) wake)).isSome) ↔
      tv.tvUsec * 1000 + nsec ≠ nsecPerSec := by
  obtain ⟨h0, h2⟩ := nsec_sum_bounds htv hn0 hn1
  have hvalid : ∀ sec, (Timespec.carry ⟨sec, tv.tvUsec * 1000 + nsec⟩).Valid ↔
      tv.tvUsec * 1000 + nsec ≠ nsecPerSec := fun sec =>
    Timespec.carry_valid_iff (t := ⟨sec, tv.tvUsec * 1000 + nsec⟩) h0 h2
  unfold pthreadCondTimedwait Future.timedWaitAbstime RunLater.tryOneJobAbstime
  simp only [hvalid]
  by_cases hne : tv.tvUsec * 1000 + nsec ≠ nsecPerSec
  · -- the wait ends for its reason, and both checks know the reasons
    rw [if_pos hne]
    cases wake with
    | ok => simp [Future.timedOut, RunLater.verified, hne]
    | timedOut => simp [Future.timedOut, RunLater.verified, hne]
    | inval => exact absurd rfl hwake
  · rw [if_neg hne]
    simp [Future.timedOut, hne]

end SimpleRpc.Base
