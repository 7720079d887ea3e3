import Mathlib

/-!
# The proleptic Gregorian calendar

A date is a year, a month of it and a day of that month. The day after a date
and the number of a date, counted from the first day of the year one, agree:
the next day has the next number, and the number grows with the date.
-/

namespace TokenStation.Library.Calendar

/-- Every fourth year is a leap year, save the centuries that 400 does not divide. -/
def isLeap (year : Int) : Bool := year % 4 = 0 && (year % 100 ≠ 0 || year % 400 = 0)

def monthLength (year month : Int) : Int :=
  if month = 2 then if isLeap year then 29 else 28
  else if month = 4 ∨ month = 6 ∨ month = 9 ∨ month = 11 then 30
  else 31

/-- A day of the calendar. -/
@[ext] structure Date where
  year : Int
  month : Int
  day : Int
  month_valid : 1 ≤ month ∧ month ≤ 12
  day_valid : 1 ≤ day ∧ day ≤ monthLength year month

theorem monthLength_pos (year month : Int) : 1 ≤ monthLength year month := by
  unfold monthLength
  split_ifs <;> decide

theorem monthLength_le (year month : Int) : monthLength year month ≤ 31 := by
  unfold monthLength
  split_ifs <;> decide

theorem january_valid : 1 ≤ (1 : Int) ∧ (1 : Int) ≤ 12 := by decide

namespace Date

/-- The day after. -/
def next (d : Date) : Date :=
  if hday : d.day < monthLength d.year d.month then
    ⟨d.year, d.month, d.day + 1, d.month_valid, by have := d.day_valid; omega⟩
  else if hmonth : d.month < 12 then
    ⟨d.year, d.month + 1, 1, by have := d.month_valid; omega, le_refl 1, monthLength_pos _ _⟩
  else ⟨d.year + 1, 1, 1, by decide, le_refl 1, monthLength_pos _ _⟩

/-- An earlier date, by year, then month, then day. -/
def Before (d e : Date) : Prop :=
  d.year < e.year ∨ d.year = e.year ∧ (d.month < e.month ∨ d.month = e.month ∧ d.day < e.day)

end Date

/-- The days of the years from the year one up to a year. -/
def daysBeforeYear (year : Int) : Int :=
  365 * (year - 1) + (year - 1) / 4 - (year - 1) / 100 + (year - 1) / 400

/-- The days of a year before a month. -/
def daysBeforeMonth (year month : Int) : Int :=
  (367 * month - 362) / 12 + if month ≤ 2 then 0 else if isLeap year then -1 else -2

/-- The number of a date; the first day of the year one has the number one. -/
def Date.number (d : Date) : Int :=
  daysBeforeYear d.year + daysBeforeMonth d.year d.month + d.day

theorem daysBeforeYear_succ (year : Int) :
    daysBeforeYear (year + 1) = daysBeforeYear year + if isLeap year then 366 else 365 := by
  unfold daysBeforeYear isLeap
  simp only [Bool.and_eq_true, Bool.or_eq_true, decide_eq_true_eq]
  split_ifs <;> omega

theorem daysBeforeMonth_succ {year month : Int} (h : 1 ≤ month) (h' : month < 12) :
    daysBeforeMonth year (month + 1) = daysBeforeMonth year month + monthLength year month := by
  unfold daysBeforeMonth monthLength
  interval_cases month <;> cases isLeap year <;> rfl

theorem daysBeforeMonth_one (year : Int) : daysBeforeMonth year 1 = 0 := rfl

theorem daysBeforeMonth_last (year : Int) :
    daysBeforeMonth year 12 + monthLength year 12 = if isLeap year then 366 else 365 := by
  unfold daysBeforeMonth monthLength
  cases isLeap year <;> rfl

/-- The days before a later month hold the whole of an earlier one. -/
theorem daysBeforeMonth_lt {year month later : Int} (h : 1 ≤ month) (hlt : month < later)
    (h' : later ≤ 12) :
    daysBeforeMonth year month + monthLength year month ≤ daysBeforeMonth year later := by
  obtain ⟨gap, rfl⟩ : ∃ gap : Nat, later = month + 1 + gap := ⟨(later - month - 1).toNat, by omega⟩
  induction gap with
  | zero => simp [daysBeforeMonth_succ h (by omega)]
  | succ gap ih =>
      have hstep := @daysBeforeMonth_succ year (month + 1 + gap) (by omega) (by push_cast at h'; omega)
      have hlength := monthLength_pos year (month + 1 + gap)
      have hsmaller := ih (by omega) (by push_cast at h'; omega)
      push_cast
      rw [← add_assoc]
      omega

theorem daysBeforeYear_le {year later : Int} (h : year ≤ later) :
    daysBeforeYear year ≤ daysBeforeYear later := by
  unfold daysBeforeYear
  omega

/-- The days of a year that have passed at the end of a date. -/
theorem Date.dayOfYear_le (d : Date) :
    daysBeforeMonth d.year d.month + d.day ≤ if isLeap d.year then 366 else 365 := by
  have hday := d.day_valid.2
  rw [← daysBeforeMonth_last]
  rcases eq_or_lt_of_le d.month_valid.2 with hmonth | hmonth
  · rw [hmonth] at hday ⊢
    omega
  · have := @daysBeforeMonth_lt d.year _ _ d.month_valid.1 hmonth (le_refl 12)
    have := monthLength_pos d.year 12
    omega

theorem Date.dayOfYear_pos (d : Date) : 1 ≤ daysBeforeMonth d.year d.month + d.day := by
  have hday := d.day_valid.1
  rcases eq_or_lt_of_le d.month_valid.1 with hmonth | hmonth
  · rw [← hmonth, daysBeforeMonth_one]
    omega
  · have := @daysBeforeMonth_lt d.year _ _ (le_refl 1) hmonth d.month_valid.2
    have := monthLength_pos d.year 1
    rw [daysBeforeMonth_one] at *
    omega

theorem Date.number_next (d : Date) : d.next.number = d.number + 1 := by
  have hday := d.day_valid.2
  have hmonths := d.month_valid
  unfold Date.next Date.number
  split_ifs with h h'
  · dsimp only
    omega
  · dsimp only
    rw [daysBeforeMonth_succ hmonths.1 h']
    omega
  · dsimp only
    have hmonth : d.month = 12 := by omega
    have hlast := daysBeforeMonth_last d.year
    rw [hmonth] at h hday ⊢
    rw [daysBeforeYear_succ, ← hlast, daysBeforeMonth_one]
    omega

theorem Date.number_iterate (d : Date) (days : Nat) : (next^[days] d).number = d.number + days := by
  induction days with
  | zero => simp
  | succ days ih =>
      rw [Function.iterate_succ_apply', number_next, ih]
      push_cast
      omega

theorem Date.Before.number_lt {d e : Date} (h : d.Before e) : d.number < e.number := by
  have hpassed := d.dayOfYear_le
  have hbegun := e.dayOfYear_pos
  unfold Date.number
  rcases h with hyear | ⟨hyear, hmonth | ⟨hmonth, hday⟩⟩
  · have hyears := @daysBeforeYear_le (d.year + 1) e.year (by omega)
    rw [daysBeforeYear_succ] at hyears
    omega
  · have hmonths := @daysBeforeMonth_lt d.year _ _ d.month_valid.1 hmonth e.month_valid.2
    have := d.day_valid
    have := e.day_valid
    rw [← hyear]
    omega
  · rw [hyear, hmonth]
    omega

theorem Date.before_trichotomy (d e : Date) : d.Before e ∨ d = e ∨ e.Before d := by
  unfold Date.Before
  by_cases hsame : d = e
  · exact .inr (.inl hsame)
  · have hdiffer : ¬(d.year = e.year ∧ d.month = e.month ∧ d.day = e.day) := by
      rintro ⟨hyear, hmonth, hday⟩
      exact hsame (Date.ext hyear hmonth hday)
    omega

theorem Date.number_lt_iff {d e : Date} : d.number < e.number ↔ d.Before e := by
  refine ⟨fun h => ?_, Date.Before.number_lt⟩
  rcases d.before_trichotomy e with hbefore | rfl | hafter
  · exact hbefore
  · exact absurd h (lt_irrefl _)
  · exact absurd hafter.number_lt (by omega)

theorem Date.number_injective : Function.Injective Date.number := by
  intro d e h
  rcases d.before_trichotomy e with hbefore | hsame | hafter
  · exact absurd hbefore.number_lt (by omega)
  · exact hsame
  · exact absurd hafter.number_lt (by omega)

end TokenStation.Library.Calendar
