import Mathlib.Tactic.Common
import Mathlib.Tactic.IntervalCases
import Mathlib.Data.Int.Notation
import Mathlib.Data.Int.Order.Basic

/-!
# The proleptic Gregorian calendar as a day count

Days are counted from 1970-01-01 by the arithmetic of a year that starts on 1 March: a leap
day is then the last day of its year, so the length of every other month is fixed and
`monthStart` is one linear formula. `daysFromCivil_next` and `daysFromCivil_next_month` pin the
count down independently of the formula, `daysFromCivil_inj` says no two dates share a day and
`civilFromDays_spec` that every day has a date.
-/

namespace CivilDate

/-! ## Years and months from March -/

/-- Days before 1 March of year `y`, up to a constant. -/
def yearStart (y : ℤ) : ℤ := 365 * y + y / 4 - y / 100 + y / 400

/-- Days before month `m` of a year that starts on 1 March, where March is `0`. -/
def monthStart (m : ℤ) : ℤ := (153 * m + 2) / 5

def IsLeap (y : ℤ) : Prop := y % 4 = 0 ∧ (y % 100 ≠ 0 ∨ y % 400 = 0)

instance (y : ℤ) : Decidable (IsLeap y) := by unfold IsLeap; infer_instance

/-- Days from 1 March of year `y` to 1 March of the next. -/
def yearLength (y : ℤ) : ℤ := if IsLeap (y + 1) then 366 else 365

theorem yearStart_succ (y : ℤ) : yearStart (y + 1) = yearStart y + yearLength y := by
  unfold yearStart yearLength
  by_cases h : IsLeap (y + 1)
  · rw [if_pos h]
    unfold IsLeap at h
    omega
  · rw [if_neg h]
    unfold IsLeap at h
    omega

theorem yearStart_le {y y' : ℤ} (h : y ≤ y') : yearStart y ≤ yearStart y' := by
  unfold yearStart
  omega

/-- The year a day falls in is determined. -/
theorem year_unique {y y' r r' : ℤ} (h0 : 0 ≤ r) (h1 : r < yearLength y) (h0' : 0 ≤ r')
    (h1' : r' < yearLength y') (h : yearStart y + r = yearStart y' + r') : y = y' := by
  have hs := yearStart_succ y
  have hs' := yearStart_succ y'
  rcases lt_trichotomy y y' with hlt | heq | hgt
  · have := yearStart_le (show y + 1 ≤ y' by omega)
    omega
  · exact heq
  · have := yearStart_le (show y' + 1 ≤ y by omega)
    omega

/-! ## Dates -/

def daysInMonth (y m : ℤ) : ℤ :=
  if m = 2 then (if IsLeap y then 29 else 28)
  else if m = 4 ∨ m = 6 ∨ m = 9 ∨ m = 11 then 30
  else 31

theorem daysInMonth_le (y m : ℤ) : daysInMonth y m ≤ 31 := by
  unfold daysInMonth
  split_ifs <;> omega

/-- A day of the calendar: months count from `1`. -/
structure Valid (y m d : ℤ) : Prop where
  month_pos : 1 ≤ m
  month_le : m ≤ 12
  day_pos : 1 ≤ d
  day_le : d ≤ daysInMonth y m

/-- The year that starts on 1 March in which month `m` of year `y` falls. -/
def marchYear (y m : ℤ) : ℤ := if m ≤ 2 then y - 1 else y

/-- The number of month `m` in that year. -/
def marchMonth (m : ℤ) : ℤ := if m ≤ 2 then m + 9 else m - 3

/-- Days from 1970-01-01. -/
def daysFromCivil (y m d : ℤ) : ℤ :=
  yearStart (marchYear y m) + monthStart (marchMonth m) + (d - 1) - 719468

/-- A valid date is inside its year. -/
theorem dayOfYear_range {y m d : ℤ} (h : Valid y m d) :
    0 ≤ monthStart (marchMonth m) + (d - 1) ∧
      monthStart (marchMonth m) + (d - 1) < yearLength (marchYear y m) := by
  rcases h with ⟨hm1, hm2, hd1, hd2⟩
  unfold daysInMonth at hd2
  unfold monthStart marchMonth yearLength marchYear
  interval_cases m <;> simp at hd2 ⊢ <;> split_ifs at hd2 ⊢ <;> omega

/-- Two valid days of one year with the same number are the same date. -/
theorem monthDay_unique {y y' m m' d d' : ℤ} (h : Valid y m d) (h' : Valid y' m' d')
    (heq : monthStart (marchMonth m) + (d - 1) = monthStart (marchMonth m') + (d' - 1)) :
    m = m' ∧ d = d' := by
  -- a day of a month is in front of the first of the next, but for the last month of the year
  have hend : ∀ {y m d : ℤ}, Valid y m d → marchMonth m < 11 →
      monthStart (marchMonth m) + d ≤ monthStart (marchMonth m + 1) := by
    intro y m d h hlast
    rcases h with ⟨hm1, hm2, hd1, hd2⟩
    unfold daysInMonth at hd2
    unfold marchMonth at hlast
    unfold monthStart marchMonth
    interval_cases m <;> simp at hd2 hlast ⊢ <;> omega
  have hmono : ∀ {a b : ℤ}, a ≤ b → monthStart a ≤ monthStart b := by
    intro a b hab
    unfold monthStart
    omega
  have hm : marchMonth m = marchMonth m' := by
    have hd := h.day_pos
    have hd' := h'.day_pos
    have hle : marchMonth m ≤ 11 ∧ marchMonth m' ≤ 11 := by
      have h1 := h.month_le
      have h2 := h'.month_le
      unfold marchMonth
      constructor <;> split <;> omega
    rcases lt_trichotomy (marchMonth m) (marchMonth m') with hlt | heq | hgt
    · have h1 := hend h (by omega)
      have h2 := hmono (show marchMonth m + 1 ≤ marchMonth m' by omega)
      omega
    · exact heq
    · have h1 := hend h' (by omega)
      have h2 := hmono (show marchMonth m' + 1 ≤ marchMonth m by omega)
      omega
  refine ⟨?_, by rw [hm] at heq; omega⟩
  have h1 := h.month_pos
  have h2 := h.month_le
  have h1' := h'.month_pos
  have h2' := h'.month_le
  unfold marchMonth at hm
  split at hm <;> split at hm <;> omega

/-- No two valid dates are the same day. -/
theorem daysFromCivil_inj {y m d y' m' d' : ℤ} (h : Valid y m d) (h' : Valid y' m' d')
    (heq : daysFromCivil y m d = daysFromCivil y' m' d') : y = y' ∧ m = m' ∧ d = d' := by
  unfold daysFromCivil at heq
  rcases dayOfYear_range h with ⟨h0, h1⟩
  rcases dayOfYear_range h' with ⟨h0', h1'⟩
  have hy : marchYear y m = marchYear y' m' := year_unique h0 h1 h0' h1' (by omega)
  rcases monthDay_unique h h' (by rw [hy] at heq; omega) with ⟨hm, hd⟩
  subst hm
  refine ⟨?_, rfl, hd⟩
  unfold marchYear at hy
  split at hy <;> omega

/-! ## The count, independently of the formula -/

theorem daysFromCivil_epoch : daysFromCivil 1970 1 1 = 0 := by decide

theorem daysFromCivil_next (y m d : ℤ) : daysFromCivil y m (d + 1) = daysFromCivil y m d + 1 := by
  unfold daysFromCivil
  omega

/-- The day after the last of a month is the first of the next. -/
theorem daysFromCivil_next_month {y m : ℤ} (h1 : 1 ≤ m) (h2 : m ≤ 12) :
    daysFromCivil y m (daysInMonth y m) + 1
      = daysFromCivil (if m = 12 then y + 1 else y) (if m = 12 then 1 else m + 1) 1 := by
  have hs := yearStart_succ (y - 1)
  rw [show y - 1 + 1 = y by omega] at hs
  unfold yearLength at hs
  rw [show y - 1 + 1 = y by omega] at hs
  unfold daysFromCivil daysInMonth marchYear marchMonth monthStart
  interval_cases m <;> simp <;> split_ifs at hs ⊢ <;> omega

/-! ## The date of a day -/

/-- The year from 1 March a day falls in: an estimate by the mean year, then corrected. -/
def yearOf (z : ℤ) : ℤ :=
  let y := 400 * z / 146097
  if z < yearStart y then y - 1
  else if z < yearStart (y + 1) then y
  else y + 1

theorem yearOf_spec (z : ℤ) : yearStart (yearOf z) ≤ z ∧ z < yearStart (yearOf z + 1) := by
  -- 146097 days are 400 years, so the estimate is out by less than a year
  have hest : yearStart (400 * z / 146097 - 1) ≤ z ∧ z < yearStart (400 * z / 146097 + 2) := by
    unfold yearStart
    constructor <;> omega
  unfold yearOf
  dsimp only
  split
  · rw [show 400 * z / 146097 - 1 + 1 = 400 * z / 146097 by omega]
    omega
  · split
    · omega
    · rw [show 400 * z / 146097 + 1 + 1 = 400 * z / 146097 + 2 by omega]
      omega

/-- Year, month and day of a day count. -/
def civilFromDays (z : ℤ) : ℤ × ℤ × ℤ :=
  let y := yearOf (z + 719468)
  let r := z + 719468 - yearStart y
  let m := (5 * r + 2) / 153
  let d := r - monthStart m + 1
  if m < 10 then (y, m + 3, d) else (y + 1, m - 9, d)

/-- The date of a day has a month from `1` to `12` and counts back to the day. -/
theorem civilFromDays_spec (z : ℤ) : ∃ y m d, civilFromDays z = (y, m, d) ∧ 1 ≤ m ∧ m ≤ 12 ∧
    daysFromCivil y m d = z := by
  rcases yearOf_spec (z + 719468) with ⟨h1, h2⟩
  rw [yearStart_succ] at h2
  set y := yearOf (z + 719468) with hy
  have hlen : yearLength y ≤ 366 := by
    unfold yearLength
    split <;> omega
  set r := z + 719468 - yearStart y with hr
  have hm : 0 ≤ (5 * r + 2) / 153 ∧ (5 * r + 2) / 153 ≤ 11 := by omega
  set m := (5 * r + 2) / 153 with hmdef
  unfold civilFromDays
  dsimp only
  rw [← hy, ← hr, ← hmdef]
  -- January and February belong to the year that began the March before
  by_cases hlt : m < 10
  · rw [if_pos hlt]
    refine ⟨_, _, _, rfl, by omega, by omega, ?_⟩
    rw [daysFromCivil, marchYear, marchMonth, if_neg (by omega), if_neg (by omega),
      show m + 3 - 3 = m by omega]
    omega
  · rw [if_neg hlt]
    refine ⟨_, _, _, rfl, by omega, by omega, ?_⟩
    rw [daysFromCivil, marchYear, marchMonth, if_pos (by omega), if_pos (by omega),
      show m - 9 + 9 = m by omega, show y + 1 - 1 = y by omega]
    omega

end CivilDate
