import Mathlib.Tactic

/-! The deadlines of `rpcc::call1`. Arithmetic on a `timespec` is that of a `long`
and an `int`, wrapped where it overflows; the instant that one denotes is a
number of nanoseconds without bound. -/

namespace CseLab.Rpc

/-- `struct timespec`, with `time_t` and `long` of 64 bits. -/
structure Timespec where
  tvSec : Int64
  tvNsec : Int64
deriving DecidableEq

def Timespec.compare (a b : Timespec) : Int :=
  if b.tvSec < a.tvSec then 1
  else if a.tvSec < b.tvSec then -1
  else if b.tvNsec < a.tvNsec then 1
  else if a.tvNsec < b.tvNsec then -1
  else 0

def Timespec.carry (t : Timespec) : Timespec :=
  if 1000000000 < t.tvNsec then
    Timespec.carry { tvSec := t.tvSec + 1, tvNsec := t.tvNsec - 1000000000 }
  else t
termination_by t.tvNsec.toInt.toNat
decreasing_by
  rename_i large
  have lower : 1000000000 < t.tvNsec.toInt := Int64.lt_iff_toInt_lt.mp large
  have upper := t.tvNsec.toInt_lt
  have less : (t.tvNsec - 1000000000).toInt = t.tvNsec.toInt - 1000000000 := by
    rw [Int64.toInt_sub]
    change Int.bmod (t.tvNsec.toInt - 1000000000) (2 ^ 64) = _
    apply Int.bmod_eq_of_le <;> omega
  omega

def addTimespec (a : Timespec) (b : Int32) : Option Timespec :=
  let tvSec := a.tvSec + (b / 1000).toInt64
  let tvNsec := a.tvNsec + (b % 1000 * 1000000).toInt64
  if 0 ≤ tvNsec then some { tvSec := tvSec, tvNsec := tvNsec : Timespec }.carry else none

def diffTimespec (finish start : Timespec) : Option Int32 :=
  let diff : Int32 :=
    if start.tvSec < finish.tvSec then ((finish.tvSec - start.tvSec) * 1000).toInt32 else 0
  if diff ≠ 0 ∨ finish.tvSec = start.tvSec then
    if start.tvNsec < finish.tvNsec then
      some (diff.toInt64 + (finish.tvNsec - start.tvNsec) / 1000000).toInt32
    else some (diff.toInt64 - (start.tvNsec - finish.tvNsec) / 1000000).toInt32
  else none

/-! ### Instants -/

def Timespec.Legal (t : Timespec) : Prop := 0 ≤ t.tvNsec.toInt ∧ t.tvNsec.toInt < 1000000000

instance (t : Timespec) : Decidable t.Legal := inferInstanceAs (Decidable (_ ∧ _))

def Timespec.instant (t : Timespec) : Int := t.tvSec.toInt * 1000000000 + t.tvNsec.toInt

/-! ### Single steps -/

theorem Timespec.compare_eq {a b : Timespec} (legalA : a.Legal) (legalB : b.Legal) :
    a.compare b = (a.instant - b.instant).sign := by
  obtain ⟨lowerA, upperA⟩ := legalA
  obtain ⟨lowerB, upperB⟩ := legalB
  unfold Timespec.compare Timespec.instant
  simp only [Int64.lt_iff_toInt_lt]
  split_ifs with later earlier laterNsec earlierNsec
  · exact (Int.sign_eq_one_of_pos (by omega)).symm
  · exact (Int.sign_eq_neg_one_of_neg (by omega)).symm
  · exact (Int.sign_eq_one_of_pos (by omega)).symm
  · exact (Int.sign_eq_neg_one_of_neg (by omega)).symm
  · have same : a.tvSec.toInt * 1000000000 + a.tvNsec.toInt -
        (b.tvSec.toInt * 1000000000 + b.tvNsec.toInt) = 0 := by omega
    rw [same, Int.sign_zero]

theorem Int64.toInt_sub_exact {x y : Int64} (lower : -2 ^ 63 ≤ x.toInt - y.toInt)
    (upper : x.toInt - y.toInt < 2 ^ 63) : (x - y).toInt = x.toInt - y.toInt := by
  rw [Int64.toInt_sub]
  apply Int.bmod_eq_of_le <;> omega

theorem Int64.toInt_add_exact {x y : Int64} (lower : -2 ^ 63 ≤ x.toInt + y.toInt)
    (upper : x.toInt + y.toInt < 2 ^ 63) : (x + y).toInt = x.toInt + y.toInt := by
  rw [Int64.toInt_add]
  apply Int.bmod_eq_of_le <;> omega

theorem carries_iff {x : Int64} : 1000000000 < x ↔ 1000000000 < x.toInt :=
  Int64.lt_iff_toInt_lt

theorem Timespec.carry_eq {t : Timespec} (upper : t.tvNsec.toInt ≤ 2000000000) :
    t.carry = if 1000000000 < t.tvNsec.toInt then
      { tvSec := t.tvSec + 1, tvNsec := t.tvNsec - 1000000000 } else t := by
  rw [Timespec.carry]
  by_cases large : 1000000000 < t.tvNsec.toInt
  · have less : (t.tvNsec - 1000000000).toInt = t.tvNsec.toInt - 1000000000 :=
      Int64.toInt_sub_exact (by change _ ≤ _ - 1000000000; omega) (by change _ - 1000000000 < _; omega)
    rw [if_pos (carries_iff.mpr large), if_pos large, Timespec.carry, if_neg]
    dsimp only
    rw [carries_iff, less]
    omega
  · rw [if_neg large, if_neg (carries_iff.not.mpr large)]

theorem addTimespec_eq {a : Timespec} {b : Int32}
    (upper : (a.tvNsec + (b % 1000 * 1000000).toInt64).toInt ≤ 2000000000) :
    addTimespec a b =
      let sum : Timespec :=
        { tvSec := a.tvSec + (b / 1000).toInt64
          tvNsec := a.tvNsec + (b % 1000 * 1000000).toInt64 }
      if 0 ≤ sum.tvNsec then
        some (if 1000000000 < sum.tvNsec.toInt then
          { tvSec := sum.tvSec + 1, tvNsec := sum.tvNsec - 1000000000 } else sum)
      else none := by
  let sum : Timespec :=
    { tvSec := a.tvSec + (b / 1000).toInt64, tvNsec := a.tvNsec + (b % 1000 * 1000000).toInt64 }
  have carried := @Timespec.carry_eq sum upper
  exact congrArg (fun carry => if 0 ≤ sum.tvNsec then some carry else none) carried

theorem whole_seconds {b : Int32} (nonneg : 0 ≤ b.toInt) :
    (b / 1000).toInt64.toInt = b.toInt / 1000 := by
  rw [Int32.toInt_toInt64, Int32.toInt_div_of_ne_right _ _ (by decide),
    Int.tdiv_eq_ediv_of_nonneg nonneg]
  rfl

theorem rest_nanoseconds {b : Int32} (nonneg : 0 ≤ b.toInt) :
    (b % 1000 * 1000000).toInt64.toInt = b.toInt % 1000 * 1000000 := by
  rw [Int32.toInt_toInt64, Int32.toInt_mul, Int32.toInt_mod, Int.tmod_eq_emod_of_nonneg nonneg]
  change Int.bmod (b.toInt % 1000 * 1000000) (2 ^ 32) = _
  apply Int.bmod_eq_of_le <;> omega

theorem addTimespec_spec {a : Timespec} {b : Int32} (legal : a.Legal) (nonneg : 0 ≤ b.toInt) :
    ∃ r carried, addTimespec a b = some r ∧
      (carried = if 1000000000 < a.tvNsec.toInt + b.toInt % 1000 * 1000000 then 1 else 0) ∧
      r.tvSec.toInt = (a.tvSec.toInt + b.toInt / 1000 + carried).bmod (2 ^ 64) ∧
      r.tvNsec.toInt = a.tvNsec.toInt + b.toInt % 1000 * 1000000 - 1000000000 * carried := by
  obtain ⟨lower, upper⟩ := legal
  have rest := rest_nanoseconds nonneg
  have sum : (a.tvNsec + (b % 1000 * 1000000).toInt64).toInt =
      a.tvNsec.toInt + b.toInt % 1000 * 1000000 := by
    rw [Int64.toInt_add_exact (by omega) (by omega), rest]
  unfold addTimespec
  dsimp only
  rw [if_pos (Int64.le_iff_toInt_le.mpr (by rw [sum]; change 0 ≤ _; omega)),
    Timespec.carry_eq (by rw [sum]; omega)]
  dsimp only
  rw [sum]
  by_cases large : 1000000000 < a.tvNsec.toInt + b.toInt % 1000 * 1000000
  · simp only [if_pos large]
    refine ⟨_, 1, rfl, rfl, ?_, ?_⟩
    · rw [Int64.toInt_add, Int64.toInt_add, Int.bmod_add_bmod, whole_seconds nonneg]
      rfl
    · have less := @Int64.toInt_sub_exact (a.tvNsec + (b % 1000 * 1000000).toInt64) 1000000000
        (by rw [sum]; change _ ≤ _ - 1000000000; omega)
        (by rw [sum]; change _ - 1000000000 < _; omega)
      rw [less, sum]
      rfl
  · simp only [if_neg large]
    refine ⟨_, 0, rfl, rfl, ?_, ?_⟩
    · rw [Int64.toInt_add, whole_seconds nonneg, Int.add_zero]
    · rw [sum]
      omega

theorem millis_between {x y : Int64} (order : y.toInt ≤ x.toInt) (lower : 0 ≤ y.toInt)
    (upper : x.toInt < 1000000000) :
    ((x - y) / 1000000).toInt = (x.toInt - y.toInt) / 1000000 := by
  rw [Int64.toInt_div_of_ne_right _ _ (by decide), Int64.toInt_sub_exact (by omega) (by omega),
    Int.tdiv_eq_ediv_of_nonneg (by omega)]
  rfl

/-- The `int` may wrap in between, but the result does not. -/
theorem diffTimespec_eq {finish start : Timespec} {seconds : Int}
    (apart : finish.tvSec.toInt = start.tvSec.toInt + seconds) (nonneg : 0 ≤ seconds)
    (few : seconds < 2 ^ 32 / 1000) (legalF : finish.Legal) (legalS : start.Legal)
    {millis : Int} (whole : seconds * 1000000000 + (finish.tvNsec.toInt - start.tvNsec.toInt) =
      millis * 1000000) (lower : 0 ≤ millis) (upper : millis < 2 ^ 31) :
    (diffTimespec finish start).map Int32.toInt = some millis := by
  obtain ⟨lowerF, upperF⟩ := legalF
  obtain ⟨lowerS, upperS⟩ := legalS
  have distance : (finish.tvSec - start.tvSec).toInt = seconds := by
    rw [Int64.toInt_sub_exact (by omega) (by omega)]
    omega
  have diff : (if start.tvSec < finish.tvSec then ((finish.tvSec - start.tvSec) * 1000).toInt32
      else (0 : Int32)).toInt = (seconds * 1000).bmod (2 ^ 32) := by
    by_cases later : start.tvSec < finish.tvSec
    · have product : ((finish.tvSec - start.tvSec) * 1000).toInt = seconds * 1000 := by
        rw [Int64.toInt_mul, distance]
        change Int.bmod (seconds * 1000) (2 ^ 64) = _
        apply Int.bmod_eq_of_le <;> omega
      rw [if_pos later, Int64.toInt_toInt32, product]
    · rw [Int64.lt_iff_toInt_lt] at later
      have zero : seconds = 0 := by omega
      rw [if_neg (Int64.lt_iff_toInt_lt.not.mpr later), zero]
      rfl
  have wraps := @Int.bmod_add_bmod (seconds * 1000) (2 ^ 32) (millis - seconds * 1000)
  have result : (seconds * 1000 + (millis - seconds * 1000)).bmod (2 ^ 32) = millis := by
    rw [Int.bmod_eq_of_le] <;> omega
  rw [result] at wraps
  unfold diffTimespec
  dsimp only
  generalize (if start.tvSec < finish.tvSec then ((finish.tvSec - start.tvSec) * 1000).toInt32
    else (0 : Int32)) = D at diff ⊢
  have lowerD := D.le_toInt
  have upperD := D.toInt_lt
  have asserted : D ≠ 0 ∨ finish.tvSec = start.tvSec := by
    by_cases none : seconds = 0
    · exact .inr (Int64.toInt_inj.mp (by omega))
    · refine .inl fun zero => none ?_
      rw [zero, Int32.toInt_zero] at diff
      have product := Int.eq_zero_of_dvd_of_nonneg_of_lt (by omega) (by omega)
        (Int.dvd_of_bmod_eq_zero diff.symm)
      omega
  rw [if_pos asserted]
  by_cases later : start.tvNsec.toInt < finish.tvNsec.toInt
  · have between := millis_between (Int.le_of_lt later) lowerS upperF
    rw [if_pos (Int64.lt_iff_toInt_lt.mpr later), Option.map_some, Int64.toInt_toInt32,
      Int64.toInt_add_exact (by rw [Int32.toInt_toInt64]; omega) (by rw [Int32.toInt_toInt64]; omega),
      Int32.toInt_toInt64, diff, between, ← wraps]
    congr 3
    omega
  · have between := millis_between (Int.not_lt.mp later) lowerF upperS
    rw [if_neg (Int64.lt_iff_toInt_lt.not.mpr later), Option.map_some, Int64.toInt_toInt32,
      Int64.toInt_sub_exact (by rw [Int32.toInt_toInt64]; omega) (by rw [Int32.toInt_toInt64]; omega),
      Int32.toInt_toInt64, diff, between, ← wraps, Int.sub_eq_add_neg]
    congr 3
    omega

/-! ### Deadlines -/

/-- The deadline is the instant `b` milliseconds later, in legal form, it compares
as its instant does, and the difference is `b` again: so it is if and only if the
nanoseconds do not add up to one second exactly and the seconds are a `long`. -/
theorem deadline_exact {a : Timespec} {b : Int32} (legal : a.Legal) (nonneg : 0 ≤ b.toInt) :
    (∃ r, addTimespec a b = some r ∧ r.instant = a.instant + b.toInt * 1000000 ∧ r.Legal ∧
      (∀ t : Timespec, t.Legal → r.compare t = (r.instant - t.instant).sign) ∧
      diffTimespec r a = some b) ↔
    a.tvNsec.toInt + b.toInt % 1000 * 1000000 ≠ 1000000000 ∧
      a.tvSec.toInt + (a.tvNsec.toInt + b.toInt * 1000000) / 1000000000 < 2 ^ 63 := by
  have upperB := b.toInt_lt
  obtain ⟨sum, carried, added, carries, seconds, nanoseconds⟩ := addTimespec_spec legal nonneg
  constructor
  · rintro ⟨r, same, instant, ⟨lower, upper⟩, -, -⟩
    cases added.symm.trans same
    have fits := sum.tvSec.toInt_lt
    unfold Timespec.instant at instant
    constructor
    · intro second
      rw [if_neg (by omega)] at carries
      omega
    · omega
  · rintro ⟨notSecond, fits⟩
    obtain ⟨lower, upper⟩ := legal
    have range : 0 ≤ carried ∧ carried ≤ 1 := by
      rw [carries]
      split <;> omega
    have legalSum : sum.Legal := by
      unfold Timespec.Legal
      rw [nanoseconds, carries]
      split <;> omega
    have apart : sum.tvSec.toInt = a.tvSec.toInt + (b.toInt / 1000 + carried) := by
      have lowerA := a.tvSec.le_toInt
      rw [seconds, Int.add_assoc]
      apply Int.bmod_eq_of_le
      · omega
      · have split : carried = 0 ∨ carried = 1 := by omega
        obtain ⟨lowerSum, -⟩ := legalSum
        omega
    have whole : (b.toInt / 1000 + carried) * 1000000000 + (sum.tvNsec.toInt - a.tvNsec.toInt) =
        b.toInt * 1000000 := by omega
    refine ⟨sum, added, ?_, legalSum, fun t legalT => Timespec.compare_eq legalSum legalT, ?_⟩
    · unfold Timespec.instant
      omega
    · have diff := diffTimespec_eq apart (by omega) (by omega) legalSum ⟨lower, upper⟩ whole nonneg
        upperB
      obtain ⟨millis, here, value⟩ := Option.map_eq_some_iff.mp diff
      rw [here, Int32.toInt_inj.mp value]

theorem deadline_exact_carried :
    ∃ r, addTimespec ⟨5, 999999999⟩ 1 = some r ∧
      r.instant = (⟨5, 999999999⟩ : Timespec).instant + 1 * 1000000 ∧ r.Legal ∧
      (∀ t : Timespec, t.Legal → r.compare t = (r.instant - t.instant).sign) ∧
      diffTimespec r ⟨5, 999999999⟩ = some 1 :=
  (@deadline_exact ⟨5, 999999999⟩ 1 (by decide) (by decide)).mpr (by decide)

/-- A millisecond short of a full second by as much: a deadline that no wait
takes, and that compares as earlier than its own instant. -/
theorem deadline_illegal :
    (⟨0, 999000000⟩ : Timespec).Legal ∧
      ∃ r, addTimespec ⟨0, 999000000⟩ 1 = some r ∧ r.tvNsec = 1000000000 ∧ ¬r.Legal ∧
        r.instant = (⟨1, 0⟩ : Timespec).instant ∧ r.compare ⟨1, 0⟩ = -1 := by
  refine ⟨by decide, ⟨0, 1000000000⟩, ?_, rfl, by decide, by decide, by decide⟩
  rw [addTimespec_eq (by decide)]
  decide

end CseLab.Rpc
