import TokenStation.Library.Calendar
import TokenStation.Library.Decimals

/-!
# Signature timestamps

A request is signed for a second of Unix time, written as a date and a time of
day. The date comes from four truncating divisions over eras of four hundred
years; it is the date the calendar reaches in as many days, and the texts are
ordered as the seconds are.
-/

namespace TokenStation.Signing

open TokenStation.Library.Calendar TokenStation.Library.Decimals

/-- A 64-bit result, or nothing where the operation overflows. -/
def i64 (value : Int) : Option Int :=
  if -2 ^ 63 ≤ value ∧ value < 2 ^ 63 then some value else none

/-- A number in decimal digits, with zeros in front up to a width. -/
def zeroPadded (width : Nat) (value : Int) : List Char :=
  if value < 0 then '-' :: padded (width - 1) value.natAbs else padded width value.natAbs

/-- A timestamp of a Unix time; the outer nothing is an overflowing operation. -/
def amzDate (unixSeconds : Int64) : Option (Option String) := do
  let days := unixSeconds.toInt / 86400
  let secondsOfDay := unixSeconds.toInt % 86400
  let shifted ← i64 (days + 719468)
  let era := shifted / 146097
  let dayOfEra := shifted % 146097
  let corrected ← i64 (dayOfEra - dayOfEra.tdiv 1460)
  let corrected ← i64 (corrected + dayOfEra.tdiv 36524)
  let corrected ← i64 (corrected - dayOfEra.tdiv 146096)
  let yearOfEra := corrected.tdiv 365
  let yearDays ← i64 (365 * yearOfEra)
  let yearDays ← i64 (yearDays + yearOfEra.tdiv 4)
  let yearDays ← i64 (yearDays - yearOfEra.tdiv 100)
  let dayOfYear ← i64 (dayOfEra - yearDays)
  let scaled ← i64 (5 * dayOfYear)
  let scaled ← i64 (scaled + 2)
  let monthIndex := scaled.tdiv 153
  let monthDays ← i64 (153 * monthIndex)
  let monthDays ← i64 (monthDays + 2)
  let day ← i64 (dayOfYear - monthDays.tdiv 5)
  let day ← i64 (day + 1)
  let month ← i64 (if monthIndex < 10 then monthIndex + 3 else monthIndex - 9)
  let eraYears ← i64 (era * 400)
  let year ← i64 (yearOfEra + eraYears)
  let year ← i64 (year + if month ≤ 2 then 1 else 0)
  if ¬(1970 ≤ year ∧ year ≤ 9999) then
    return none
  return some (String.ofList
    (zeroPadded 4 year ++ zeroPadded 2 month ++ zeroPadded 2 day ++ ['T']
      ++ zeroPadded 2 (secondsOfDay.tdiv 3600)
      ++ zeroPadded 2 ((secondsOfDay.tmod 3600).tdiv 60)
      ++ zeroPadded 2 (secondsOfDay.tmod 60) ++ ['Z']))

/-! ## The civil date of a day -/

section Era

/-- The year of an era, counted from its first March, that holds a day of it. -/
def yearOfEra (dayOfEra : Int) : Int :=
  (dayOfEra - dayOfEra / 1460 + dayOfEra / 36524 - dayOfEra / 146096) / 365

/-- The day of that year, counted from its March. -/
def dayOfYear (dayOfEra : Int) : Int :=
  dayOfEra - (365 * yearOfEra dayOfEra + yearOfEra dayOfEra / 4 - yearOfEra dayOfEra / 100)

/-- The month of that year, counted from March. -/
def monthIndex (dayOfYear : Int) : Int := (5 * dayOfYear + 2) / 153

def civilDay (dayOfYear : Int) : Int := dayOfYear - (153 * monthIndex dayOfYear + 2) / 5 + 1

def civilMonth (dayOfYear : Int) : Int :=
  if monthIndex dayOfYear < 10 then monthIndex dayOfYear + 3 else monthIndex dayOfYear - 9

variable {dayOfEra : Int}

/-- A day of an era by its century, its four years in it and the day of these: the
correction terms take away the leap days before it. -/
theorem yearOfEra_parts (h : 0 ≤ dayOfEra) (h' : dayOfEra < 146097) :
    ∃ century cycle year day : Int, 0 ≤ century ∧ century ≤ 3 ∧ 0 ≤ cycle ∧ cycle ≤ 24 ∧
      0 ≤ year ∧ year ≤ 3 ∧ 0 ≤ day ∧
      (day ≤ 364 ∨ day = 365 ∧ year = 3 ∧ (cycle ≤ 23 ∨ century = 3)) ∧
      dayOfEra = 36524 * century + 1461 * cycle + 365 * year + day ∧
      yearOfEra dayOfEra = 100 * century + 4 * cycle + year := by
  have hcentury : ∃ century, century = dayOfEra / 36524 - dayOfEra / 146096 := ⟨_, rfl⟩
  obtain ⟨century, hcentury⟩ := hcentury
  have hrange : 0 ≤ century ∧ century ≤ 3 ∧ 0 ≤ dayOfEra - 36524 * century ∧
      (dayOfEra - 36524 * century ≤ 36523 ∨ dayOfEra - 36524 * century = 36524 ∧ century = 3) := by
    omega
  obtain ⟨rest, hrest⟩ : ∃ rest, rest = dayOfEra - 36524 * century := ⟨_, rfl⟩
  obtain ⟨cycle, hcycle⟩ : ∃ cycle, cycle = rest / 1461 := ⟨_, rfl⟩
  obtain ⟨inner, hinner⟩ : ∃ inner, inner = rest % 1461 := ⟨_, rfl⟩
  have hfour : rest = 1461 * cycle + inner ∧ 0 ≤ inner ∧ inner ≤ 1460 ∧ 0 ≤ cycle ∧ cycle ≤ 24 := by
    omega
  have hleap : inner ≤ 1459 ∨ cycle ≤ 23 ∨ century = 3 := by omega
  -- The first correction takes one day more than there were leap days near the end of a cycle.
  obtain ⟨early, hearly⟩ : ∃ early, early = dayOfEra / 1460 - 25 * century - cycle := ⟨_, rfl⟩
  have hcorrection : early = 0 ∧ inner ≤ 1459 ∨ early = 1 ∧ 1364 ≤ inner := by omega
  have hyear : yearOfEra dayOfEra = 100 * century + 4 * cycle + (inner - early) / 365 := by
    unfold yearOfEra
    omega
  rw [hyear]
  rcases hcorrection with ⟨rfl, hshort⟩ | ⟨rfl, hlong⟩
  · exact ⟨century, cycle, inner / 365, inner % 365, by omega⟩
  · exact ⟨century, cycle, 3, inner - 1095, by omega⟩

/-- The day of the year is one of that year. -/
theorem dayOfYear_bounds (h : 0 ≤ dayOfEra) (h' : dayOfEra < 146097) :
    0 ≤ yearOfEra dayOfEra ∧ yearOfEra dayOfEra ≤ 399 ∧ 0 ≤ dayOfYear dayOfEra ∧
      (dayOfYear dayOfEra ≤ 364 ∨
        dayOfYear dayOfEra = 365 ∧ isLeap (yearOfEra dayOfEra + 1) = true) := by
  obtain ⟨century, cycle, year, day, h0, h3, hc0, hc24, hy0, hy3, hd0, hday, hsplit, hyear⟩ :=
    yearOfEra_parts h h'
  have hdayOfYear : dayOfYear dayOfEra = day := by
    unfold dayOfYear
    rw [hyear]
    omega
  rw [hdayOfYear, hyear]
  refine ⟨by omega, by omega, hd0, ?_⟩
  rcases hday with hday | ⟨hday, rfl, hcases⟩
  · exact .inl hday
  · refine .inr ⟨hday, ?_⟩
    simp only [isLeap, Bool.and_eq_true, Bool.or_eq_true, decide_eq_true_eq, ne_eq]
    omega

/-- The month of a day of the year, and the day of the month. -/
theorem month_bounds {dayOfYear : Int} (h : 0 ≤ dayOfYear) (h' : dayOfYear ≤ 365) :
    0 ≤ monthIndex dayOfYear ∧ monthIndex dayOfYear ≤ 11 ∧ 1 ≤ civilDay dayOfYear ∧
      (153 * monthIndex dayOfYear + 2) / 5 + civilDay dayOfYear = dayOfYear + 1 ∧
      dayOfYear < (153 * (monthIndex dayOfYear + 1) + 2) / 5 := by
  unfold civilDay monthIndex
  omega

end Era

/-- The year of a day counted from the first March of the year zero. -/
def civilYear (shifted : Int) : Int :=
  yearOfEra (shifted % 146097) + shifted / 146097 * 400 +
    if civilMonth (dayOfYear (shifted % 146097)) ≤ 2 then 1 else 0

theorem isLeap_add_eras (year eras : Int) : isLeap (year + eras * 400) = isLeap year := by
  unfold isLeap
  have hfour : (year + eras * 400) % 4 = year % 4 := by omega
  have hhundred : (year + eras * 400) % 100 = year % 100 := by omega
  have hall : (year + eras * 400) % 400 = year % 400 := by omega
  rw [hfour, hhundred, hall]

/-- The civil day fits its month. -/
theorem civilDay_valid (shifted : Int) :
    (1 ≤ civilMonth (dayOfYear (shifted % 146097)) ∧
      civilMonth (dayOfYear (shifted % 146097)) ≤ 12) ∧
    1 ≤ civilDay (dayOfYear (shifted % 146097)) ∧ civilDay (dayOfYear (shifted % 146097)) ≤
      monthLength (civilYear shifted) (civilMonth (dayOfYear (shifted % 146097))) := by
  obtain ⟨hy0, hy, hd0, hd⟩ := dayOfYear_bounds (Int.emod_nonneg shifted (by decide))
    (Int.emod_lt_of_pos shifted (by decide))
  unfold civilYear
  generalize yearOfEra (shifted % 146097) = year at *
  generalize dayOfYear (shifted % 146097) = day at *
  generalize shifted / 146097 = eras at *
  obtain ⟨hm0, hm, hday, hsum, hlt⟩ := @month_bounds day hd0 (by omega)
  unfold civilMonth
  generalize monthIndex day = month at *
  generalize civilDay day = dayOfMonth at *
  refine ⟨by split_ifs <;> omega, hday, ?_⟩
  have hleap : isLeap (year + eras * 400 + 1) = isLeap (year + 1) := by
    rw [show year + eras * 400 + 1 = year + 1 + eras * 400 by ring, isLeap_add_eras]
  by_cases hfebruary : month = 11
  · subst hfebruary
    have hlength : monthLength (year + eras * 400 + 1) 2 = if isLeap (year + 1) then 29 else 28 := by
      rw [← hleap]
      rfl
    change dayOfMonth ≤ monthLength (year + eras * 400 + 1) 2
    rw [hlength]
    rcases hd with hd | ⟨hd, hlast⟩
    · split_ifs <;> omega
    · rw [if_pos hlast]
      omega
  · unfold monthLength
    have hearlier : month ≤ 10 := by omega
    interval_cases month <;> simp <;> omega

/-- The date of a day counted from the first March of the year zero. -/
def civilDate (shifted : Int) : Date :=
  ⟨civilYear shifted, civilMonth (dayOfYear (shifted % 146097)),
    civilDay (dayOfYear (shifted % 146097)), (civilDay_valid shifted).1, (civilDay_valid shifted).2⟩

/-- That March began 305 days before the year one. -/
theorem number_civilDate (shifted : Int) : (civilDate shifted).number = shifted - 305 := by
  obtain ⟨hy0, hy, hd0, hd⟩ := dayOfYear_bounds (Int.emod_nonneg shifted (by decide))
    (Int.emod_lt_of_pos shifted (by decide))
  have hdayOfYear : dayOfYear (shifted % 146097) = shifted % 146097 -
      (365 * yearOfEra (shifted % 146097) + yearOfEra (shifted % 146097) / 4 -
        yearOfEra (shifted % 146097) / 100) := rfl
  have hshifted := Int.emod_add_mul_ediv shifted 146097
  simp only [Date.number, civilDate, civilYear]
  generalize yearOfEra (shifted % 146097) = year at *
  generalize dayOfYear (shifted % 146097) = day at *
  generalize shifted / 146097 = eras at *
  generalize shifted % 146097 = dayOfEra at *
  obtain ⟨hm0, hm, hday, hsum, hlt⟩ := @month_bounds day hd0 (by omega)
  have hnext := daysBeforeYear_succ (year + eras * 400)
  have hyears : daysBeforeYear (year + eras * 400 + 1) =
      146097 * eras + 365 * year + year / 4 - year / 100 := by
    unfold daysBeforeYear
    omega
  unfold civilMonth daysBeforeMonth
  generalize monthIndex day = month at *
  generalize civilDay day = dayOfMonth at *
  interval_cases month <;> simp <;> split_ifs at * <;> omega

/-- The first day of Unix time. -/
def epoch : Date := ⟨1970, 1, 1, january_valid, by decide⟩

theorem civilDate_epoch (days : Nat) : civilDate (days + 719468) = Date.next^[days] epoch := by
  apply Date.number_injective
  rw [number_civilDate, Date.number_iterate]
  rw [show epoch.number = 719163 from rfl]
  omega

/-! ## The text of a second -/

/-- A date and a second of its day, as digits. -/
def stamp (date : Date) (secondOfDay : Int) : String :=
  String.ofList (zeroPadded 4 date.year ++ zeroPadded 2 date.month ++ zeroPadded 2 date.day ++ ['T']
    ++ zeroPadded 2 (secondOfDay / 3600) ++ zeroPadded 2 (secondOfDay % 3600 / 60)
    ++ zeroPadded 2 (secondOfDay % 60) ++ ['Z'])

theorem i64_of {value : Int} (h : -2 ^ 63 ≤ value) (h' : value < 2 ^ 63) : i64 value = some value :=
  if_pos ⟨h, h'⟩

theorem i64_bind {α : Type} {value : Int} {next : Int → Option α} (h : -2 ^ 63 ≤ value)
    (h' : value < 2 ^ 63) : (i64 value >>= next) = next value := by
  rw [i64_of h h']
  rfl

theorem tdiv_bounds {a b : Int} (h : 0 ≤ a) (hb : 0 < b) : 0 ≤ a.tdiv b ∧ a.tdiv b ≤ a := by
  rw [Int.tdiv_eq_ediv_of_nonneg h]
  exact ⟨Int.ediv_nonneg h hb.le, Int.ediv_le_self b h⟩

/-- No operation overflows, and the text is that of the civil date. -/
theorem amzDate_eq (n : Int64) : amzDate n =
    some (if 1970 ≤ (civilDate (n.toInt / 86400 + 719468)).year ∧
        (civilDate (n.toInt / 86400 + 719468)).year ≤ 9999 then
      some (stamp (civilDate (n.toInt / 86400 + 719468)) (n.toInt % 86400)) else none) := by
  have hlow := n.le_toInt
  have hhigh := n.toInt_lt
  unfold amzDate
  generalize n.toInt = seconds at *
  have hsecond : 0 ≤ seconds % 86400 := Int.emod_nonneg seconds (by decide)
  have hdays : -110000000000000 ≤ seconds / 86400 ∧ seconds / 86400 ≤ 110000000000000 := by omega
  generalize seconds / 86400 = days at *
  generalize seconds % 86400 = secondOfDay at *
  refine (i64_bind (by omega) (by omega)).trans ?_
  have hera : -110000000000000 ≤ days + 719468 ∧ days + 719468 ≤ 110000000800000 := by omega
  generalize days + 719468 = shifted at *
  have hday0 : 0 ≤ shifted % 146097 := Int.emod_nonneg shifted (by decide)
  have hday1 : shifted % 146097 < 146097 := Int.emod_lt_of_pos shifted (by decide)
  have heras : -1000000000 ≤ shifted / 146097 ∧ shifted / 146097 ≤ 1000000000 := by omega
  obtain ⟨date, hdate⟩ : ∃ date, date = civilDate shifted := ⟨_, rfl⟩
  have hdateYear : date.year = yearOfEra (shifted % 146097) + shifted / 146097 * 400 +
      if civilMonth (dayOfYear (shifted % 146097)) ≤ 2 then 1 else 0 := by rw [hdate]; rfl
  have hdateMonth : date.month = civilMonth (dayOfYear (shifted % 146097)) := by rw [hdate]; rfl
  have hdateDay : date.day = civilDay (dayOfYear (shifted % 146097)) := by rw [hdate]; rfl
  rw [← hdate]
  clear hdate
  generalize shifted / 146097 = eras at *
  generalize shifted % 146097 = dayOfEra at *
  obtain ⟨hy0, hy, hd0, hd⟩ := dayOfYear_bounds hday0 hday1
  have hyear : ((dayOfEra - dayOfEra.tdiv 1460 + dayOfEra.tdiv 36524 -
      dayOfEra.tdiv 146096).tdiv 365) = yearOfEra dayOfEra := by
    rw [Int.tdiv_eq_ediv_of_nonneg hday0, Int.tdiv_eq_ediv_of_nonneg hday0,
      Int.tdiv_eq_ediv_of_nonneg hday0, Int.tdiv_eq_ediv_of_nonneg (by omega)]
    rfl
  have hfour := tdiv_bounds hday0 (show 0 < 1460 by decide)
  have hcentury := tdiv_bounds hday0 (show 0 < 36524 by decide)
  have hwhole := tdiv_bounds hday0 (show 0 < 146096 by decide)
  refine (i64_bind (by omega) (by omega)).trans ?_
  refine (i64_bind (by omega) (by omega)).trans ?_
  refine (i64_bind (by omega) (by omega)).trans ?_
  rw [hyear]
  have hday : dayOfEra - (365 * yearOfEra dayOfEra + (yearOfEra dayOfEra).tdiv 4 -
      (yearOfEra dayOfEra).tdiv 100) = dayOfYear dayOfEra := by
    rw [Int.tdiv_eq_ediv_of_nonneg hy0, Int.tdiv_eq_ediv_of_nonneg hy0]
    rfl
  have hyearFour := tdiv_bounds hy0 (show 0 < 4 by decide)
  have hyearHundred := tdiv_bounds hy0 (show 0 < 100 by decide)
  generalize yearOfEra dayOfEra = yearOfEra at *
  refine (i64_bind (by omega) (by omega)).trans ?_
  refine (i64_bind (by omega) (by omega)).trans ?_
  refine (i64_bind (by omega) (by omega)).trans ?_
  refine (i64_bind (by omega) (by omega)).trans ?_
  rw [hday]
  generalize dayOfYear dayOfEra = dayOfYear at *
  refine (i64_bind (by omega) (by omega)).trans ?_
  refine (i64_bind (by omega) (by omega)).trans ?_
  have hmonthIndex : (5 * dayOfYear + 2).tdiv 153 = monthIndex dayOfYear :=
    Int.tdiv_eq_ediv_of_nonneg (by omega)
  obtain ⟨hm0, hm, hcivil, hsum, -⟩ := month_bounds hd0 (by omega)
  rw [hmonthIndex]
  have hmonthDays : dayOfYear - (153 * monthIndex dayOfYear + 2).tdiv 5 + 1 =
      civilDay dayOfYear := by
    rw [Int.tdiv_eq_ediv_of_nonneg (by omega)]
    rfl
  have hdays := tdiv_bounds (show 0 ≤ 153 * monthIndex dayOfYear + 2 by omega)
    (show 0 < 5 by decide)
  refine (i64_bind (by omega) (by omega)).trans ?_
  refine (i64_bind (by omega) (by omega)).trans ?_
  refine (i64_bind (by omega) (by omega)).trans ?_
  refine (i64_bind (by omega) (by omega)).trans ?_
  rw [hmonthDays]
  have hmonth : (if monthIndex dayOfYear < 10 then monthIndex dayOfYear + 3
      else monthIndex dayOfYear - 9) = civilMonth dayOfYear := rfl
  have hmonths : 1 ≤ civilMonth dayOfYear ∧ civilMonth dayOfYear ≤ 12 := by
    rw [← hmonth]
    split_ifs <;> omega
  rw [hmonth]
  refine (i64_bind (by omega) (by omega)).trans ?_
  refine (i64_bind (by omega) (by omega)).trans ?_
  refine (i64_bind (by omega) (by omega)).trans ?_
  have hlater : 0 ≤ (if civilMonth dayOfYear ≤ 2 then (1 : Int) else 0) ∧
      (if civilMonth dayOfYear ≤ 2 then (1 : Int) else 0) ≤ 1 := by
    split_ifs <;> decide
  refine (i64_bind (by omega) (by omega)).trans ?_
  rw [← hdateYear, ← hdateMonth, ← hdateDay]
  have hhour : secondOfDay.tdiv 3600 = secondOfDay / 3600 := Int.tdiv_eq_ediv_of_nonneg hsecond
  have hminute : (secondOfDay.tmod 3600).tdiv 60 = secondOfDay % 3600 / 60 := by
    rw [Int.tmod_eq_emod_of_nonneg hsecond,
      Int.tdiv_eq_ediv_of_nonneg (Int.emod_nonneg _ (by decide))]
  have hseconds : secondOfDay.tmod 60 = secondOfDay % 60 := Int.tmod_eq_emod_of_nonneg hsecond
  rw [hhour, hminute, hseconds]
  split_ifs <;> rfl

/-! ## Digits in a fixed width -/

theorem zeroPadded_fixed {width : Nat} (hwidth : 0 < width) {value : Int} (h : 0 ≤ value)
    (h' : value < 10 ^ width) : zeroPadded width value = fixed width value.toNat := by
  rw [zeroPadded, if_neg (by omega), show value.natAbs = value.toNat by omega]
  exact padded_eq_fixed hwidth (by zify; rwa [Int.toNat_of_nonneg h])

/-- A year that four digits show. -/
def InRange (date : Date) : Prop := 1970 ≤ date.year ∧ date.year ≤ 9999

/-- The digits of a date and a second of its day. -/
theorem stamp_digits {date : Date} (hdate : InRange date) {secondOfDay : Int} (h : 0 ≤ secondOfDay)
    (h' : secondOfDay < 86400) :
    (stamp date secondOfDay).toList = fixed 4 date.year.toNat ++ (fixed 2 date.month.toNat ++
      (fixed 2 date.day.toNat ++ ('T' :: (fixed 2 (secondOfDay / 3600).toNat ++
        (fixed 2 (secondOfDay % 3600 / 60).toNat ++
          (fixed 2 (secondOfDay % 60).toNat ++ ['Z'])))))) := by
  obtain ⟨hlow, hhigh⟩ := hdate
  have hmonth := date.month_valid
  have hday := date.day_valid
  have hlength := monthLength_le date.year date.month
  rw [stamp, String.toList_ofList, zeroPadded_fixed (by decide) (by omega) (by omega),
    zeroPadded_fixed (by decide) (by omega) (by omega),
    zeroPadded_fixed (by decide) (by omega) (by omega),
    zeroPadded_fixed (by decide) (by omega) (by omega),
    zeroPadded_fixed (by decide) (by omega) (by omega),
    zeroPadded_fixed (by decide) (by omega) (by omega)]
  simp only [List.append_assoc, List.cons_append, List.nil_append]

/-- A later second of a day, or a later day, has the later text. -/
theorem stamp_lt {d e : Date} (hd : InRange d) (he : InRange e) {s t : Int} (hs : 0 ≤ s)
    (hs' : s < 86400) (ht : 0 ≤ t) (ht' : t < 86400) (h : d.Before e ∨ d = e ∧ s < t) :
    stamp d s < stamp e t := by
  rw [String.lt_iff_toList_lt, stamp_digits hd hs hs', stamp_digits he ht ht']
  have hdm := d.month_valid
  have hem := e.month_valid
  have hdd := d.day_valid
  have hed := e.day_valid
  have hlength := monthLength_le e.year e.month
  obtain ⟨hd0, hd9⟩ := hd
  obtain ⟨he0, he9⟩ := he
  rcases h with (hyear | ⟨hyear, hmonth | ⟨hmonth, hday⟩⟩) | ⟨rfl, hsecond⟩
  · exact fixed_append_lt (by omega) (by omega) _ _
  · rw [hyear]
    exact List.append_left_lt (fixed_append_lt (by omega) (by omega) _ _)
  · rw [hyear, hmonth]
    exact List.append_left_lt (List.append_left_lt (fixed_append_lt (by omega) (by omega) _ _))
  · refine List.append_left_lt (List.append_left_lt (List.append_left_lt
      (List.cons_lt_cons_iff.mpr (.inr ⟨rfl, ?_⟩))))
    by_cases hhour : s / 3600 < t / 3600
    · exact fixed_append_lt (by omega) (by omega) _ _
    · have hsame : s / 3600 = t / 3600 := by omega
      rw [hsame]
      apply List.append_left_lt
      by_cases hminute : s % 3600 / 60 < t % 3600 / 60
      · exact fixed_append_lt (by omega) (by omega) _ _
      · have hminutes : s % 3600 / 60 = t % 3600 / 60 := by omega
        rw [hminutes]
        exact List.append_left_lt (fixed_append_lt (by omega) (by omega) _ _)

/-! ## Every second -/

/-- The last day that four digits of a year show. -/
def lastDay : Date := ⟨9999, 12, 31, by decide, by decide⟩

theorem lastDay_eq : lastDay = Date.next^[2932896] epoch := by
  apply Date.number_injective
  rw [Date.number_iterate]
  decide

theorem inRange_iff (date : Date) : InRange date ↔ 719163 ≤ date.number ∧ date.number ≤ 3652059 := by
  have hmonth := date.month_valid
  have hday := date.day_valid
  have hlength := monthLength_le date.year date.month
  have hfirst : date.number < epoch.number ↔ date.year < 1970 := by
    rw [Date.number_lt_iff]
    simp only [Date.Before, epoch]
    omega
  have hlast : lastDay.number < date.number ↔ 9999 < date.year := by
    rw [Date.number_lt_iff]
    simp only [Date.Before, lastDay]
    omega
  have hepoch : epoch.number = 719163 := rfl
  have hend : lastDay.number = 3652059 := rfl
  rw [hepoch] at hfirst
  rw [hend] at hlast
  unfold InRange
  omega

/-- The text of a second in range is that of its day and of its second of the day. -/
theorem amzDate_eq_some {n : Int64} {text : String} : amzDate n = some (some text) ↔
    (0 ≤ n.toInt ∧ n.toInt < 253402300800) ∧
      text = stamp (Date.next^[(n.toInt / 86400).toNat] epoch) (n.toInt % 86400) := by
  have hrange : InRange (civilDate (n.toInt / 86400 + 719468)) ↔
      0 ≤ n.toInt ∧ n.toInt < 253402300800 := by
    rw [inRange_iff, number_civilDate]
    omega
  rw [amzDate_eq, Option.some_inj]
  have hif : (1970 ≤ (civilDate (n.toInt / 86400 + 719468)).year ∧
      (civilDate (n.toInt / 86400 + 719468)).year ≤ 9999) ↔
        0 ≤ n.toInt ∧ n.toInt < 253402300800 := hrange
  rw [if_congr hif rfl rfl]
  by_cases hin : 0 ≤ n.toInt ∧ n.toInt < 253402300800
  · have hdays : n.toInt / 86400 = ((n.toInt / 86400).toNat : Int) := by omega
    rw [if_pos hin, hdays, civilDate_epoch, Option.some_inj, Int.toNat_natCast]
    exact ⟨fun h => ⟨hin, h.symm⟩, fun h => h.2.symm⟩
  · rw [if_neg hin]
    exact ⟨(fun h => by cases h), fun h => absurd h.1 hin⟩

theorem inRange_iterate {n : Int64} (h : 0 ≤ n.toInt ∧ n.toInt < 253402300800) :
    InRange (Date.next^[(n.toInt / 86400).toNat] epoch) := by
  rw [inRange_iff, Date.number_iterate, show epoch.number = 719163 from rfl]
  omega

/-- No operation overflows, the texts are those of the seconds from the epoch to the end of the
year 9999, a day later is the next date of the calendar, and the texts are in order. -/
theorem amz_date_follows_calendar :
    (∀ n : Int64, (amzDate n).isSome = true) ∧
    (∀ n : Int64, (∃ text, amzDate n = some (some text)) ↔
      0 ≤ n.toInt ∧ n.toInt < (2932896 + 1) * 86400) ∧
    lastDay = Date.next^[2932896] epoch ∧
    (∀ (n : Int64) (text : String), amzDate n = some (some text) →
      text = stamp (Date.next^[(n.toInt / 86400).toNat] epoch) (n.toInt % 86400)) ∧
    (∀ (n later : Int64) (text laterText : String), amzDate n = some (some text) →
      amzDate later = some (some laterText) → later.toInt = n.toInt + 86400 →
      ∃ date, text = stamp date (n.toInt % 86400) ∧ laterText = stamp date.next (n.toInt % 86400)) ∧
    ∀ (n later : Int64) (text laterText : String), amzDate n = some (some text) →
      amzDate later = some (some laterText) → n.toInt < later.toInt → text < laterText := by
  refine ⟨fun n => by rw [amzDate_eq]; rfl, fun n => ?_, lastDay_eq, fun n text h => ?_, ?_, ?_⟩
  · simp only [amzDate_eq_some]
    exact ⟨fun h => h.choose_spec.1, fun h => ⟨_, h, rfl⟩⟩
  · exact (amzDate_eq_some.mp h).2
  · intro n later text laterText h hlater heq
    obtain ⟨⟨hn, -⟩, rfl⟩ := amzDate_eq_some.mp h
    obtain ⟨-, rfl⟩ := amzDate_eq_some.mp hlater
    refine ⟨_, rfl, ?_⟩
    rw [← Function.iterate_succ_apply' Date.next,
      show (later.toInt / 86400).toNat = (n.toInt / 86400).toNat.succ by omega,
      show later.toInt % 86400 = n.toInt % 86400 by omega]
  · intro n later text laterText h hlater hlt
    obtain ⟨hn, rfl⟩ := amzDate_eq_some.mp h
    obtain ⟨hl, rfl⟩ := amzDate_eq_some.mp hlater
    refine stamp_lt (inRange_iterate hn) (inRange_iterate hl) (by omega) (by omega) (by omega)
      (by omega) ?_
    by_cases hday : n.toInt / 86400 < later.toInt / 86400
    · refine .inl (Date.number_lt_iff.mp ?_)
      rw [Date.number_iterate, Date.number_iterate]
      omega
    · have hsame : n.toInt / 86400 = later.toInt / 86400 := by omega
      rw [hsame]
      exact .inr ⟨rfl, by omega⟩

/-- The leap day of the year 2000 and the day after. -/
theorem leap_day_and_next :
    "20000229T000000Z" = stamp (Date.next^[11016] epoch) 0 ∧
    (∃ date, "20000229T000000Z" = stamp date 0 ∧ "20000301T000000Z" = stamp date.next 0) ∧
    "20000229T000000Z" < "20000301T000000Z" := by
  have hleap : amzDate 951782400 = some (some "20000229T000000Z") := by decide
  have hnext : amzDate 951868800 = some (some "20000301T000000Z") := by decide
  have hsecond : (951782400 : Int64).toInt = 951782400 := by decide
  have hlater : (951868800 : Int64).toInt = 951868800 := by decide
  obtain ⟨-, -, -, htext, hday, horder⟩ := amz_date_follows_calendar
  have hstamp := htext _ _ hleap
  have hdays := hday _ _ _ _ hleap hnext (by rw [hsecond, hlater]; rfl)
  rw [hsecond] at hstamp hdays
  exact ⟨hstamp, hdays, horder _ _ _ _ hleap hnext (by rw [hsecond, hlater]; decide)⟩

end TokenStation.Signing
