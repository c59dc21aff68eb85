import Mathlib.Algebra.Order.Group.Int

/-!
# Sleeping

`src/memhook/thread.cpp` sleeps on a condition variable, until a point of time or for an
interval.  `WaitFor` reads the clock, adds the interval and waits until the sum; `SleepFor`
waits again whenever it was woken before the time, and reads the clock again.

The sum is made by an `operator+=` that takes its left operand by `const &` and returns the
result.  `WaitFor` does not use what it returns: `abs_time` is still the time of the clock, and
the wait is over at once.  `SleepUntil`, which has no sum to make, sleeps long enough.

A run is told round by round: what the clock said, how `pthread_cond_timedwait` ended, and
when.  The clock does not go back, and a timeout is not reported before the deadline.
-/

namespace Memhook

/-- `struct timespec`. -/
@[ext] structure Timespec where
  tvSec : Int64
  tvNsec : Int64
  deriving DecidableEq, Repr

namespace Timespec

/-- The time in nanoseconds. -/
def nanoseconds (time : Timespec) : ℤ := time.tvSec.toInt * 10 ^ 9 + time.tvNsec.toInt

def Normalised (time : Timespec) : Prop := 0 ≤ time.tvNsec.toInt ∧ time.tvNsec.toInt < 10 ^ 9

instance (time : Timespec) : Decidable time.Normalised := inferInstanceAs (Decidable (_ ∧ _))

/-- `operator+=`: the value of the expression, and the left operand afterwards. -/
def addAssign (lhs rhs : Timespec) : Timespec × Timespec :=
  let res : Timespec := ⟨lhs.tvSec + rhs.tvSec, lhs.tvNsec + rhs.tvNsec⟩
  let res := if res.tvNsec ≥ 1000000000 then ⟨res.tvSec + 1, res.tvNsec - 1000000000⟩ else res
  (res, lhs)

end Timespec

/-- What `clock_gettime` says. -/
structure ClockReading extends Timespec where
  normalised : toTimespec.Normalised

/-- A time to sleep. -/
structure Interval extends Timespec where
  normalised : toTimespec.Normalised
  nonneg : 0 ≤ tvSec.toInt

/-! ## Waiting -/

/-- What `pthread_cond_timedwait` returns. -/
inductive CondResult
  | success
  | timedOut
  | error
  deriving DecidableEq

/-- `ConditionVariable::WaitUntil`, by the result of the call; nothing is returned when
`EXPECT_SUCCEEDED` aborts. -/
def waitUntil : CondResult → Option Bool
  | .timedOut => some false
  | .success => some true
  | .error => none

/-- The deadline that `ConditionVariable::WaitFor` passes to `WaitUntil`. -/
def waitForDeadline (now relTime : Timespec) : Timespec :=
  let absTime := now
  let added := absTime.addAssign relTime
  added.2

/-- A round of a sleeping loop. -/
structure WaitRound where
  /-- What `IsInterruptionRequested` returns. -/
  interrupted : Bool
  /-- The clock when the wait begins. -/
  now : ClockReading
  result : CondResult
  /-- The clock when the wait is over. -/
  ended : ClockReading

inductive SleepOutcome
  | waiting
  | interrupted
  /-- `true` is returned at this time. -/
  | slept (time : ClockReading)
  | aborted

/-- The loop of `InterruptibleThread::SleepUntil` and `SleepFor`. -/
def sleepLoop : List WaitRound → SleepOutcome
  | [] => .waiting
  | round :: rest =>
      if round.interrupted then .interrupted
      else
        match waitUntil round.result with
        | some false => .slept round.ended
        | some true => sleepLoop rest
        | none => .aborted

/-- The rounds that can happen from a time on, for the deadline that is computed when the clock
is read. -/
def PossibleRounds (deadline : Timespec → Timespec) : ClockReading → List WaitRound → Prop
  | _, [] => True
  | start, round :: rest =>
      start.nanoseconds ≤ round.now.nanoseconds ∧ round.now.nanoseconds ≤ round.ended.nanoseconds ∧
        (round.result = .timedOut →
          (deadline round.now.toTimespec).nanoseconds ≤ round.ended.nanoseconds) ∧
        PossibleRounds deadline round.ended rest

/-- Who sleeps until a deadline saw it go by. -/
theorem exists_deadline_of_slept {deadline : Timespec → Timespec} {start time : ClockReading}
    {rounds : List WaitRound} (hpossible : PossibleRounds deadline start rounds)
    (hslept : sleepLoop rounds = .slept time) :
    ∃ now : ClockReading, start.nanoseconds ≤ now.nanoseconds ∧
      (deadline now.toTimespec).nanoseconds ≤ time.nanoseconds := by
  induction rounds generalizing start with
  | nil => simp [sleepLoop] at hslept
  | cons round rest ih =>
      obtain ⟨hstart, hended, htimedOut, hrest⟩ := hpossible
      unfold sleepLoop at hslept
      cases hinterrupted : round.interrupted with
      | true => simp [hinterrupted] at hslept
      | false =>
          simp only [hinterrupted, Bool.false_eq_true, if_false] at hslept
          cases hresult : round.result with
          | timedOut =>
              simp only [hresult, waitUntil, SleepOutcome.slept.injEq] at hslept
              exact ⟨round.now, hstart, hslept ▸ htimedOut hresult⟩
          | success =>
              -- woken before the time: the next round begins later
              simp only [hresult, waitUntil] at hslept
              obtain ⟨now, hnow, hdeadline⟩ := ih hrest hslept
              exact ⟨now, (hstart.trans hended).trans hnow, hdeadline⟩
          | error => simp [hresult, waitUntil] at hslept

/-- `InterruptibleThread::SleepUntil` sleeps until its time. -/
theorem le_of_sleepUntil {absTime : Timespec} {start time : ClockReading} {rounds : List WaitRound}
    (hpossible : PossibleRounds (fun _ => absTime) start rounds)
    (hslept : sleepLoop rounds = .slept time) : absTime.nanoseconds ≤ time.nanoseconds := by
  obtain ⟨-, -, hdeadline⟩ := exists_deadline_of_slept hpossible hslept
  exact hdeadline

/-! ## Sleeping for an interval -/

/-- The deadline is normalised and it is the sum. -/
def DeadlineExact (now : ClockReading) (relTime : Interval) : Prop :=
  (waitForDeadline now.toTimespec relTime.toTimespec).Normalised ∧
    (waitForDeadline now.toTimespec relTime.toTimespec).nanoseconds =
      now.nanoseconds + relTime.nanoseconds

/-- However often it is woken, `SleepFor` returns `true` only when the interval has passed. -/
def SleepsThrough (start : ClockReading) (relTime : Interval) : Prop :=
  ∀ rounds, PossibleRounds (fun now => waitForDeadline now relTime.toTimespec) start rounds →
    ∀ time, sleepLoop rounds = .slept time →
      relTime.nanoseconds ≤ time.nanoseconds - start.nanoseconds

theorem toInt_add_of_lt {a b : Int64} (hle : -2 ^ 63 ≤ a.toInt + b.toInt)
    (hlt : a.toInt + b.toInt < 2 ^ 63) : (a + b).toInt = a.toInt + b.toInt := by
  rw [Int64.toInt_add]
  exact Int.bmod_eq_of_le (by omega) (by omega)

/-- The sum that `WaitFor` throws away is the one it needs. -/
theorem addAssign_spec (now : ClockReading) (relTime : Interval)
    (hseconds : now.tvSec.toInt + relTime.tvSec.toInt + 1 < 2 ^ 63) :
    let sum := (now.addAssign relTime.toTimespec).1
    sum.Normalised ∧ sum.nanoseconds = now.nanoseconds + relTime.nanoseconds := by
  obtain ⟨hnow, hnow'⟩ := now.normalised
  obtain ⟨hrel, hrel'⟩ := relTime.normalised
  have hnonneg := relTime.nonneg
  have hlow := now.tvSec.le_toInt
  have hbillion : (1000000000 : Int64).toInt = 10 ^ 9 := by decide
  have hsec : (now.tvSec + relTime.tvSec).toInt = now.tvSec.toInt + relTime.tvSec.toInt :=
    toInt_add_of_lt (by omega) (by omega)
  have hnsec : (now.tvNsec + relTime.tvNsec).toInt = now.tvNsec.toInt + relTime.tvNsec.toInt :=
    toInt_add_of_lt (by omega) (by omega)
  intro sum
  simp only [sum, Timespec.addAssign, Timespec.Normalised, Timespec.nanoseconds]
  split
  next hcarry =>
    have hlarge := Int64.le_iff_toInt_le.mp hcarry
    rw [hbillion, hnsec] at hlarge
    have hone : (1 : Int64).toInt = 1 := by decide
    have hsec' : (now.tvSec + relTime.tvSec + 1).toInt =
        now.tvSec.toInt + relTime.tvSec.toInt + 1 := by
      rw [toInt_add_of_lt (by omega) (by omega), hsec, hone]
    have hnsec' : (now.tvNsec + relTime.tvNsec - 1000000000).toInt =
        now.tvNsec.toInt + relTime.tvNsec.toInt - 10 ^ 9 := by
      rw [Int64.toInt_sub, hnsec, hbillion]
      exact Int.bmod_eq_of_le (by omega) (by omega)
    rw [hsec', hnsec']
    omega
  next hcarry =>
    have hsmall : ¬ 10 ^ 9 ≤ now.tvNsec.toInt + relTime.tvNsec.toInt := by
      rw [← hbillion, ← hnsec, ← Int64.le_iff_toInt_le]
      exact hcarry
    rw [hsec, hnsec]
    omega

/-- The deadline is the time of the clock. -/
theorem waitForDeadline_eq (now relTime : Timespec) : waitForDeadline now relTime = now := rfl

theorem Interval.eq_zero_iff (relTime : Interval) :
    relTime.toTimespec = ⟨0, 0⟩ ↔ relTime.nanoseconds = 0 := by
  constructor
  · intro hzero
    rw [hzero]
    rfl
  · intro hzero
    have hnsec := relTime.normalised.1
    have hsec := relTime.nonneg
    unfold Timespec.nanoseconds at hzero
    have hsec' : relTime.tvSec = 0 := Int64.toInt_inj.mp (show _ = (0 : ℤ) by omega)
    have hnsec' : relTime.tvNsec = 0 := Int64.toInt_inj.mp (show _ = (0 : ℤ) by omega)
    exact Timespec.ext hsec' hnsec'

theorem Interval.nanoseconds_nonneg (relTime : Interval) : 0 ≤ relTime.nanoseconds := by
  have hnsec := relTime.normalised.1
  have hsec := relTime.nonneg
  unfold Timespec.nanoseconds
  omega

theorem deadlineExact_iff (now : ClockReading) (relTime : Interval) :
    DeadlineExact now relTime ↔ relTime.toTimespec = ⟨0, 0⟩ := by
  rw [relTime.eq_zero_iff, DeadlineExact, waitForDeadline_eq, and_iff_right now.normalised]
  constructor
  · intro hsum
    exact left_eq_add.mp hsum
  · intro hzero
    rw [hzero, add_zero]

/-- A wait that is over at once. -/
def sleptAtOnce (start : ClockReading) : List WaitRound := [⟨false, start, .timedOut, start⟩]

theorem possible_sleptAtOnce (start : ClockReading) (relTime : Timespec) :
    PossibleRounds (fun now => waitForDeadline now relTime) start (sleptAtOnce start) :=
  ⟨le_refl _, le_refl _, fun _ => le_refl _, trivial⟩

theorem sleepsThrough_iff (start : ClockReading) (relTime : Interval) :
    SleepsThrough start relTime ↔ relTime.toTimespec = ⟨0, 0⟩ := by
  rw [relTime.eq_zero_iff]
  constructor
  · intro hsleeps
    have hle := hsleeps _ (possible_sleptAtOnce start relTime.toTimespec) start rfl
    rw [sub_self] at hle
    exact le_antisymm hle relTime.nanoseconds_nonneg
  · intro hzero rounds hpossible time hslept
    obtain ⟨now, hnow, hdeadline⟩ := exists_deadline_of_slept hpossible hslept
    rw [waitForDeadline_eq] at hdeadline
    rw [hzero]
    exact Int.sub_nonneg_of_le (hnow.trans hdeadline)

/-- **Relative waits.**  The deadline is the sum of the clock and the interval, and `SleepFor`
sleeps for the interval, exactly if the interval is nothing. -/
theorem sleepFor_exact_iff (now : ClockReading) (relTime : Interval) :
    DeadlineExact now relTime ∧ SleepsThrough now relTime ↔ relTime.toTimespec = ⟨0, 0⟩ := by
  rw [deadlineExact_iff, sleepsThrough_iff, and_self]

/-- A sleep of a second and a half is over at once. -/
theorem sleepFor_at_once :
    let now : ClockReading := ⟨⟨100, 999999999⟩, by decide⟩
    let relTime : Interval := ⟨⟨1, 500000000⟩, by decide, by decide⟩
    ¬ DeadlineExact now relTime ∧ ¬ SleepsThrough now relTime := by
  intro now relTime
  rw [deadlineExact_iff, sleepsThrough_iff]
  decide

end Memhook
