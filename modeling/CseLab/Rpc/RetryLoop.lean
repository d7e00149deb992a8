import CseLab.Lib.Transition
import CseLab.Rpc.Deadline

/-! The retry loop of `rpcc::call1` when no reply arrives: each wait is twice as
long as the one before it, and none goes past the final deadline. -/

namespace CseLab.Rpc

open Transition

def toMin : Int32 := 1000

/-- `clock` is the instant of the last reading or timeout; `waits` has `curr_to` and
`nextdeadline` of each wait, the last one first; `failed` says that `call1` has returned
`timeout_failure`. -/
structure Retry where
  finaldeadline : Timespec
  currTo : Int32
  clock : Int
  waits : List (Int32 × Timespec)
  failed : Bool

namespace Retry

def start (now : Timespec) (timeout : Int32) : Option Retry :=
  (addTimespec now timeout).map (fun finaldeadline =>
    { finaldeadline := finaldeadline
      currTo := toMin
      clock := now.instant
      waits := []
      failed := false })

/-- What an iteration makes of `nextdeadline` and of `finaldeadline`, whose
seconds are zero once the wait is the last one. -/
def deadlines (r : Retry) (now : Timespec) : Option (Timespec × Timespec) :=
  (addTimespec now r.currTo).map (fun nextdeadline =>
    if 0 < nextdeadline.compare r.finaldeadline then
      (r.finaldeadline, { r.finaldeadline with tvSec := 0 })
    else (nextdeadline, r.finaldeadline))

def waited (r : Retry) (reported : Int) (nextdeadline finaldeadline : Timespec) : Retry :=
  { finaldeadline := finaldeadline
    currTo := r.currTo <<< 1
    clock := reported
    waits := (r.currTo, nextdeadline) :: r.waits
    failed := false }

end Retry

/-- An iteration that reads the clock and waits until the timeout is reported, or the
`break` at the head of the loop and the return. -/
inductive RetryAction where
  | wait (now : Timespec) (reported : Int)
  | giveUp

def Retry.step (r : Retry) : RetryAction → Option Retry
  | .wait now reported =>
      if r.failed = true ∨ r.finaldeadline.tvSec = 0 then none
      else
        (r.deadlines now).map (fun (nextdeadline, finaldeadline) =>
          r.waited reported nextdeadline finaldeadline)
  | .giveUp =>
      if r.failed = false ∧ r.finaldeadline.tvSec = 0 then some { r with failed := true } else none

/-- The clock does not go back, and no timeout is reported before its deadline. -/
def RetryAction.Timely (r : Retry) : RetryAction → Prop
  | .wait now reported =>
      now.Legal ∧ r.clock ≤ now.instant ∧ now.instant ≤ reported ∧
        ∀ nextdeadline finaldeadline, r.deadlines now = some (nextdeadline, finaldeadline) →
          nextdeadline.instant ≤ reported
  | .giveUp => True

/-- `b` milliseconds later the seconds still are a `time_t`. -/
def Timespec.Fits (a : Timespec) (b : Int32) : Prop :=
  a.tvSec.toInt + (a.tvNsec.toInt + b.toInt * 1000000) / 1000000000 < 2 ^ 63

instance (a : Timespec) (b : Int32) : Decidable (a.Fits b) := inferInstanceAs (Decidable (_ < _))

def RetryAction.Fits (r : Retry) : RetryAction → Prop
  | .wait now _ => now.Fits r.currTo
  | .giveUp => True

/-! ### Deadlines as instants -/

/-- What `add_timespec` returns: a full second may be left in the nanoseconds. -/
structure Timespec.Sum (t : Timespec) : Prop where
  lower : 0 ≤ t.tvNsec.toInt
  upper : t.tvNsec.toInt ≤ 1000000000

theorem addTimespec_instant {a : Timespec} {b : Int32} (legal : a.Legal) (nonneg : 0 ≤ b.toInt)
    (fits : a.Fits b) :
    ∃ r, addTimespec a b = some r ∧ r.Sum ∧ r.instant = a.instant + b.toInt * 1000000 ∧
      a.tvSec.toInt ≤ r.tvSec.toInt := by
  unfold Timespec.Fits at fits
  obtain ⟨r, carried, added, carries, seconds, nanoseconds⟩ := addTimespec_spec legal nonneg
  obtain ⟨lower, upper⟩ := legal
  have lowerA := a.tvSec.le_toInt
  have range : 0 ≤ carried ∧ carried ≤ 1 := by
    rw [carries]
    split <;> omega
  have sum : r.Sum := by
    constructor
    · rw [nanoseconds, carries]
      split <;> omega
    · rw [nanoseconds, carries]
      split <;> omega
  have exactly : r.tvSec.toInt = a.tvSec.toInt + b.toInt / 1000 + carried := by
    rw [seconds]
    apply Int.bmod_eq_of_le
    · omega
    · have lowerSum := sum.lower
      omega
  refine ⟨r, added, sum, ?_, by omega⟩
  unfold Timespec.instant
  omega

theorem Timespec.instant_le_of_not_later {a b : Timespec} (sumA : a.Sum) (sumB : b.Sum)
    (notLater : ¬0 < a.compare b) : a.instant ≤ b.instant := by
  have upper := sumA.upper
  have lower := sumB.lower
  unfold Timespec.compare at notLater
  unfold Timespec.instant
  simp only [Int64.lt_iff_toInt_lt] at notLater
  split_ifs at notLater <;> omega

/-! ### Doubling -/

theorem Int32.toInt_shiftLeft_one {x : Int32} (lower : 0 ≤ x.toInt) (upper : 2 * x.toInt < 2 ^ 31) :
    (x <<< 1).toInt = 2 * x.toInt := by
  have bits : (x <<< 1).toBitVec = x.toBitVec <<< 1 := by
    rw [Int32.toBitVec_shiftLeft]
    rfl
  change (x <<< 1).toBitVec.toInt = 2 * x.toBitVec.toInt
  change 0 ≤ x.toBitVec.toInt at lower
  change 2 * x.toBitVec.toInt < 2 ^ 31 at upper
  rw [bits, BitVec.toInt_shiftLeft]
  have small : (x.toBitVec.toNat : Int) = x.toBitVec.toInt := by
    rw [BitVec.toInt_eq_toNat_cond] at lower ⊢
    split
    · rfl
    · omega
  rw [Nat.shiftLeft_eq, Int.natCast_mul, small]
  rw [Int.bmod_eq_of_le] <;> omega

/-- Waits of 1, 2, 4, ... seconds in a span of at most an `int` of milliseconds. -/
theorem doubled_few {k : Nat} (span : (1000 * (2 ^ k - 1) : Int) ≤ 2 ^ 31 - 1) : k ≤ 21 := by
  by_contra many
  have large : (2 : Int) ^ 22 ≤ 2 ^ k := pow_le_pow_right₀ (by decide) (by omega)
  omega

/-- Each wait is twice as long as the one before, and ends by `limit`. -/
def DoublingWaits (limit : Int) : List (Int32 × Timespec) → Prop
  | [] => True
  | (currTo, nextdeadline) :: earlier =>
      (currTo.toInt = 1000 * 2 ^ earlier.length ∧ nextdeadline.instant ≤ limit) ∧
        DoublingWaits limit earlier

/-! ### The loop -/

namespace Retry

variable {begin limit timeout : Int} {r next : Retry}

structure Waiting (begin timeout : Int) (r : Retry) : Prop where
  failed : r.failed = false
  sum : r.finaldeadline.Sum
  seconds : 1 ≤ r.finaldeadline.tvSec.toInt
  final : r.finaldeadline.instant = begin + timeout * 1000000
  doubled : r.currTo.toInt = 1000 * 2 ^ r.waits.length
  elapsed : begin + 1000 * (2 ^ r.waits.length - 1) * 1000000 ≤ r.clock
  span : 1000 * (2 ^ r.waits.length - 1) ≤ timeout

structure Clipped (begin timeout : Int) (r : Retry) : Prop where
  sentinel : r.finaldeadline.tvSec = 0
  few : r.waits.length ≤ 22
  elapsed : begin + timeout * 1000000 ≤ r.clock

structure Paced (begin timeout : Int) (r : Retry) : Prop where
  waits : DoublingWaits (begin + timeout * 1000000) r.waits
  phase : r.Waiting begin timeout ∨ r.Clipped begin timeout

theorem Waiting.tvSec_ne (waiting : r.Waiting begin timeout) : r.finaldeadline.tvSec ≠ 0 := by
  intro zero
  have seconds := waiting.seconds
  rw [zero, Int64.toInt_zero] at seconds
  omega

theorem Waiting.deadlines (waiting : r.Waiting begin timeout) {now : Timespec} (legal : now.Legal)
    (fits : now.Fits r.currTo) :
    ∃ nextdeadline, addTimespec now r.currTo = some nextdeadline ∧ nextdeadline.Sum ∧
      nextdeadline.instant = now.instant + 1000 * 2 ^ r.waits.length * 1000000 := by
  have doubled := waiting.doubled
  have positive : (0 : Int) < 2 ^ r.waits.length := by positivity
  rcases addTimespec_instant legal (by omega) fits with ⟨nextdeadline, added, sum, instant, -⟩
  rw [doubled] at instant
  exact ⟨nextdeadline, added, sum, instant⟩

theorem Waiting.step_wait (waiting : r.Waiting begin timeout) {now : Timespec} (reported : Int)
    {nextdeadline finaldeadline : Timespec}
    (found : r.deadlines now = some (nextdeadline, finaldeadline)) :
    r.step (.wait now reported) = some (r.waited reported nextdeadline finaldeadline) := by
  have goesOn : ¬(r.failed = true ∨ r.finaldeadline.tvSec = 0) := by
    rw [waiting.failed]
    exact not_or.mpr ⟨Bool.false_ne_true, waiting.tvSec_ne⟩
  rw [Retry.step, if_neg goesOn, found, Option.map_some]

theorem Waiting.wait (waiting : r.Waiting begin timeout) (int : timeout ≤ 2 ^ 31 - 1)
    (waits : DoublingWaits (begin + timeout * 1000000) r.waits) {now : Timespec} {reported : Int}
    (timely : (RetryAction.wait now reported).Timely r)
    (fits : (RetryAction.wait now reported).Fits r) :
    ∃ next, r.step (.wait now reported) = some next ∧ next.Paced begin timeout := by
  rcases timely with ⟨legal, later, -, ended⟩
  rcases waiting.deadlines legal fits with ⟨nextdeadline, added, sum, instant⟩
  have doubled := waiting.doubled
  have elapsed := waiting.elapsed
  have final := waiting.final
  have few := doubled_few (waiting.span.trans int)
  have found : r.deadlines now = some (if 0 < nextdeadline.compare r.finaldeadline then
      (r.finaldeadline, { r.finaldeadline with tvSec := 0 })
    else (nextdeadline, r.finaldeadline)) := by
    rw [Retry.deadlines, added, Option.map_some]
  by_cases late : 0 < nextdeadline.compare r.finaldeadline
  · rw [if_pos late] at found
    have past := ended _ _ found
    refine ⟨_, waiting.step_wait reported found, ⟨⟨doubled, Int.le_of_eq final⟩, waits⟩, .inr ?_⟩
    exact ⟨rfl, Nat.succ_le_succ few, final ▸ past⟩
  · rw [if_neg late] at found
    have past := ended _ _ found
    have inTime := Timespec.instant_le_of_not_later sum waiting.sum late
    have positive : (0 : Int) < 2 ^ r.waits.length := by positivity
    have double : (2 : Int) ^ (r.waits.length + 1) = 2 * 2 ^ r.waits.length := pow_succ' 2 _
    have span : 1000 * ((2 : Int) ^ (r.waits.length + 1) - 1) ≤ timeout := by omega
    have bound : (2 : Int) ^ (r.waits.length + 1) ≤ 2 ^ 21 :=
      pow_le_pow_right₀ (by decide) (doubled_few (span.trans int))
    have shifted : (r.currTo <<< 1).toInt = 1000 * 2 ^ (r.waits.length + 1) := by
      rw [Int32.toInt_shiftLeft_one (by omega) (by omega), doubled, double]
      omega
    have longer : begin + 1000 * (2 ^ (r.waits.length + 1) - 1) * 1000000 ≤ reported := by omega
    refine ⟨_, waiting.step_wait reported found,
      ⟨⟨doubled, inTime.trans (Int.le_of_eq final)⟩, waits⟩, .inl ?_⟩
    exact ⟨rfl, waiting.sum, waiting.seconds, final, shifted, longer, span⟩

theorem Paced.step (paced : r.Paced begin timeout) (int : timeout ≤ 2 ^ 31 - 1)
    {action : RetryAction} (timely : action.Timely r) (fits : action.Fits r)
    (taken : r.step action = some next) : next.Paced begin timeout := by
  cases action with
  | wait now reported =>
      rcases paced.phase with waiting | clipped
      · rcases waiting.wait int paced.waits timely fits with ⟨other, same, pacedOther⟩
        cases taken.symm.trans same
        exact pacedOther
      · rw [Retry.step, if_pos (.inr clipped.sentinel)] at taken
        cases taken
  | giveUp =>
      unfold Retry.step at taken
      simp only at taken
      split at taken
      · rename_i past
        cases taken
        rcases paced.phase with waiting | clipped
        · exact absurd past.2 waiting.tvSec_ne
        · exact ⟨paced.waits, .inr ⟨clipped.sentinel, clipped.few, clipped.elapsed⟩⟩
      · cases taken

theorem paced_start {now : Timespec} {timeout : Int32} (legal : now.Legal)
    (positive : 1 ≤ now.tvSec.toInt) (nonneg : 0 ≤ timeout.toInt) (fits : now.Fits timeout) :
    ∃ r, start now timeout = some r ∧ r.Paced now.instant timeout.toInt ∧ r.waits = [] := by
  rcases addTimespec_instant legal nonneg fits with
    ⟨finaldeadline, added, sum, instant, seconds⟩
  unfold start
  rw [added, Option.map_some]
  refine ⟨_, rfl, ⟨trivial, .inl ?_⟩, rfl⟩
  have elapsed : now.instant + 1000 * (2 ^ 0 - 1) * 1000000 ≤ now.instant := by omega
  exact ⟨rfl, sum, positive.trans seconds, instant, rfl, elapsed, nonneg⟩

structure OnTime (now : Timespec) (timeout : Int32) (r : Retry) : Prop where
  few : r.waits.length ≤ 22
  waits : DoublingWaits (now.instant + timeout.toInt * 1000000) r.waits
  failed : r.failed = true → now.instant + timeout.toInt * 1000000 ≤ r.clock
  goesOn : r.failed = false →
    (∃ next, r.step .giveUp = some next) ∨
      ∀ reading reported, (RetryAction.wait reading reported).Timely r →
        (RetryAction.wait reading reported).Fits r →
        ∃ next, r.step (.wait reading reported) = some next

theorem Paced.onTime {now : Timespec} {timeout : Int32}
    (paced : r.Paced now.instant timeout.toInt) : r.OnTime now timeout := by
  have int : timeout.toInt ≤ 2 ^ 31 - 1 := Int.le_sub_one_of_lt timeout.toInt_lt
  refine ⟨?_, paced.waits, ?_, ?_⟩
  · rcases paced.phase with waiting | clipped
    · exact (doubled_few (waiting.span.trans int)).trans (by decide)
    · exact clipped.few
  · intro returned
    rcases paced.phase with waiting | clipped
    · rw [waiting.failed] at returned
      cases returned
    · exact clipped.elapsed
  · intro looping
    rcases paced.phase with waiting | clipped
    · right
      intro reading reported timely fits
      rcases waiting.wait int paced.waits timely fits with ⟨next, taken, -⟩
      exact ⟨next, taken⟩
    · exact .inl ⟨_, if_pos ⟨looping, clipped.sentinel⟩⟩

theorem step_length {action : RetryAction} (taken : r.step action = some next) :
    next.waits.length + next.failed.toNat = r.waits.length + r.failed.toNat + 1 := by
  unfold Retry.step at taken
  cases action with
  | wait now reported =>
      simp only at taken
      split at taken
      · cases taken
      · rename_i goesOn
        rcases Option.map_eq_some_iff.mp taken with ⟨⟨nextdeadline, finaldeadline⟩, -, same⟩
        cases same
        have looping := (not_or.mp goesOn).1
        rw [Bool.not_eq_true] at looping
        rw [looping]
        rfl
  | giveUp =>
      simp only at taken
      split at taken
      · rename_i past
        cases taken
        rw [past.1]
        rfl
      · cases taken

theorem run_length {actions : List RetryAction} {final : Retry}
    (ran : run Retry.step r actions = some final) :
    final.waits.length + final.failed.toNat =
      r.waits.length + r.failed.toNat + actions.length := by
  induction actions generalizing r with
  | nil =>
      cases ran
      rfl
  | cons action rest ih =>
      obtain ⟨next, taken, tail⟩ := run_cons_eq_some ran
      have here := step_length taken
      have later := ih tail
      rw [List.length_cons]
      omega

/-- The loop ends: after at most 22 waits, each twice as long as the one before and
none past the final deadline, it returns, and not before that deadline. -/
theorem retry_on_time {now : Timespec} {timeout : Int32} (legal : now.Legal)
    (positive : 1 ≤ now.tvSec.toInt) (nonneg : 0 ≤ timeout.toInt) (fits : now.Fits timeout) :
    ∃ r, start now timeout = some r ∧
      ∀ actions final, run Retry.step r actions = some final →
        Guarded Retry.step (fun r action => action.Timely r ∧ action.Fits r) r actions →
        actions.length ≤ 23 ∧ final.OnTime now timeout := by
  have int : timeout.toInt ≤ 2 ^ 31 - 1 := Int.le_sub_one_of_lt timeout.toInt_lt
  rcases paced_start legal positive nonneg fits with ⟨r, started, paced, none⟩
  refine ⟨r, started, ?_⟩
  intro actions final ran guarded
  have onTime := (guarded.invariant (fun state action next was guard taken =>
    Paced.step was int guard.1 guard.2 taken) paced ran).onTime
  refine ⟨?_, onTime⟩
  have length := run_length ran
  have few := onTime.few
  have flag := final.failed.toNat_le
  rw [none, List.length_nil] at length
  omega

private theorem timely_wait {r : Retry} {now : Timespec} {reported : Int}
    {nextdeadline finaldeadline : Timespec} (legal : now.Legal) (clock : r.clock ≤ now.instant)
    (later : now.instant ≤ reported) (computed : r.deadlines now = some (nextdeadline, finaldeadline))
    (ends : nextdeadline.instant ≤ reported) : (RetryAction.wait now reported).Timely r := by
  refine ⟨legal, clock, later, ?_⟩
  intro next final again
  cases computed.symm.trans again
  exact ends

theorem retry_on_time_sample :
    ∃ r final, start ⟨7, 250000000⟩ 2500 = some r ∧
      run Retry.step r [.wait ⟨7, 250000000⟩ 8300000000, .wait ⟨8, 300000000⟩ 9800000000,
        .giveUp] = some final ∧
      final.failed = true ∧ final.OnTime ⟨7, 250000000⟩ 2500 := by
  have whole : addTimespec ⟨7, 250000000⟩ 2500 = some ⟨9, 750000000⟩ := by
    rw [addTimespec_eq (by decide)]
    decide
  have first : addTimespec ⟨7, 250000000⟩ 1000 = some ⟨8, 250000000⟩ := by
    rw [addTimespec_eq (by decide)]
    decide
  have second : addTimespec ⟨8, 300000000⟩ 2000 = some ⟨10, 300000000⟩ := by
    rw [addTimespec_eq (by decide)]
    decide
  let entered : Retry := ⟨⟨9, 750000000⟩, 1000, 7250000000, [], false⟩
  let waited : Retry := ⟨⟨9, 750000000⟩, 2000, 8300000000, [(1000, ⟨8, 250000000⟩)], false⟩
  let clipped : Retry := ⟨⟨0, 750000000⟩, 4000, 9800000000,
    [(2000, ⟨9, 750000000⟩), (1000, ⟨8, 250000000⟩)], false⟩
  have full : entered.deadlines ⟨7, 250000000⟩ = some (⟨8, 250000000⟩, ⟨9, 750000000⟩) := by
    rw [Retry.deadlines, first]
    decide
  have last : waited.deadlines ⟨8, 300000000⟩ = some (⟨9, 750000000⟩, ⟨0, 750000000⟩) := by
    rw [Retry.deadlines, second]
    decide
  have stepFull : entered.step (.wait ⟨7, 250000000⟩ 8300000000) = some waited := by
    rw [Retry.step, if_neg (by decide), full]
    rfl
  have stepLast : waited.step (.wait ⟨8, 300000000⟩ 9800000000) = some clipped := by
    rw [Retry.step, if_neg (by decide), last]
    rfl
  have started : start ⟨7, 250000000⟩ 2500 = some entered := by
    rw [start, whole]
    rfl
  have ran : run Retry.step entered [.wait ⟨7, 250000000⟩ 8300000000,
      .wait ⟨8, 300000000⟩ 9800000000, .giveUp] = some { clipped with failed := true } := by
    rw [run_cons, stepFull, Option.bind_some, run_cons, stepLast]
    rfl
  have fitsFull : Timespec.Fits ⟨7, 250000000⟩ 1000 := by decide
  have fitsLast : Timespec.Fits ⟨8, 300000000⟩ 2000 := by decide
  obtain ⟨r, again, onTime⟩ :=
    @retry_on_time ⟨7, 250000000⟩ 2500 (by decide) (by decide) (by decide) (by decide)
  cases started.symm.trans again
  refine ⟨entered, _, started, ran, rfl, (onTime _ _ ran ?_).2⟩
  refine ⟨⟨timely_wait (by decide) (by decide) (by decide) full (by decide), fitsFull⟩, ?_⟩
  rintro next taken
  cases stepFull.symm.trans taken
  refine ⟨⟨timely_wait (by decide) (by decide) (by decide) last (by decide), fitsLast⟩, ?_⟩
  rintro next taken
  cases stepLast.symm.trans taken
  exact ⟨⟨trivial, trivial⟩, fun _next _taken => trivial⟩

/-- In the last second of `time_t` a sum of seconds wraps, and the loop is over
before a second has passed. -/
theorem retry_early :
    let now : Timespec := ⟨9223372036854775807, 0⟩
    now.Legal ∧ 1 ≤ now.tvSec.toInt ∧
      ∃ r final, start now 1000 = some r ∧
        Guarded Retry.step (fun r action => action.Timely r) r
          [.wait now now.instant, .wait now now.instant, .giveUp] ∧
        run Retry.step r [.wait now now.instant, .wait now now.instant, .giveUp] = some final ∧
        final.failed = true ∧ final.clock < now.instant + 1000 * 1000000 := by
  intro now
  have first : addTimespec now 1000 = some ⟨-9223372036854775808, 0⟩ := by
    rw [addTimespec_eq (by decide)]
    decide
  have second : addTimespec now 2000 = some ⟨-9223372036854775807, 0⟩ := by
    rw [addTimespec_eq (by decide)]
    decide
  let entered : Retry := ⟨⟨-9223372036854775808, 0⟩, 1000, now.instant, [], false⟩
  let waited : Retry := ⟨⟨-9223372036854775808, 0⟩, 2000, now.instant,
    [(1000, ⟨-9223372036854775808, 0⟩)], false⟩
  let clipped : Retry := ⟨⟨0, 0⟩, 4000, now.instant,
    [(2000, ⟨-9223372036854775808, 0⟩), (1000, ⟨-9223372036854775808, 0⟩)], false⟩
  have full : entered.deadlines now =
      some (⟨-9223372036854775808, 0⟩, ⟨-9223372036854775808, 0⟩) := by
    rw [Retry.deadlines, first]
    decide
  have last : waited.deadlines now = some (⟨-9223372036854775808, 0⟩, ⟨0, 0⟩) := by
    rw [Retry.deadlines, second]
    decide
  have stepFull : entered.step (.wait now now.instant) = some waited := by
    rw [Retry.step, if_neg (by decide), full]
    rfl
  have stepLast : waited.step (.wait now now.instant) = some clipped := by
    rw [Retry.step, if_neg (by decide), last]
    rfl
  have timely : ∀ r : Retry, r.clock = now.instant → (∀ nextdeadline finaldeadline,
      r.deadlines now = some (nextdeadline, finaldeadline) → nextdeadline.instant ≤ now.instant) →
      (RetryAction.wait now now.instant).Timely r :=
    fun r clock ended => ⟨by decide, Int.le_of_eq clock, Int.le_refl _, ended⟩
  refine ⟨by decide, by decide, entered, { clipped with failed := true }, ?_, ?_, ?_, rfl, by decide⟩
  · rw [start, first]
    rfl
  · refine ⟨timely entered rfl ?_, ?_⟩
    · intro nextdeadline finaldeadline found
      cases full.symm.trans found
      decide
    · intro next taken
      cases stepFull.symm.trans taken
      refine ⟨timely waited rfl ?_, ?_⟩
      · intro nextdeadline finaldeadline found
        cases last.symm.trans found
        decide
      · intro next taken
        cases stepLast.symm.trans taken
        exact ⟨trivial, fun _next _taken => trivial⟩
  · rw [run_cons, stepFull, Option.bind_some, run_cons, stepLast, Option.bind_some]
    rfl

end Retry

end CseLab.Rpc
