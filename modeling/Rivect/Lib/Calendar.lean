import Mathlib.Tactic.IntervalCases

/-! # The Gregorian calendar

Dates under the leap rule of the 4, 100 and 400 years, day after day. A year that is counted from
its first of March ends with its leap day, so its days fall into months by one division.
-/

namespace Rivect.Lib

structure Date where
  year : ℕ
  month : ℕ
  day : ℕ
deriving DecidableEq

def isLeap (year : ℕ) : Bool := year % 4 = 0 && (year % 100 ≠ 0 || year % 400 = 0)

def daysInMonth (leap : Bool) (month : ℕ) : ℕ :=
  if month = 2 then (if leap then 29 else 28)
  else if month = 4 ∨ month = 6 ∨ month = 9 ∨ month = 11 then 30 else 31

namespace Date

structure Valid (date : Date) : Prop where
  month : 1 ≤ date.month ∧ date.month ≤ 12
  day : 1 ≤ date.day ∧ date.day ≤ daysInMonth (isLeap date.year) date.month

/-- The day after. -/
def next (date : Date) : Date :=
  if date.day < daysInMonth (isLeap date.year) date.month then { date with day := date.day + 1 }
  else if date.month < 12 then ⟨date.year, date.month + 1, 1⟩
  else ⟨date.year + 1, 1, 1⟩

theorem daysInMonth_pos (leap : Bool) (month : ℕ) : 1 ≤ daysInMonth leap month := by
  unfold daysInMonth
  split_ifs <;> decide

theorem Valid.next {date : Date} (h : date.Valid) : date.next.Valid := by
  obtain ⟨⟨hlow, hhigh⟩, hfirst, hlast⟩ := h
  unfold Date.next
  split_ifs with hday hmonth
  · exact ⟨⟨hlow, hhigh⟩, Nat.le_add_left 1 _, hday⟩
  · exact ⟨⟨Nat.le_add_left 1 _, hmonth⟩, le_refl 1, daysInMonth_pos _ _⟩
  · exact ⟨⟨le_refl 1, Nat.le_of_ble_eq_true rfl⟩, le_refl 1, daysInMonth_pos _ _⟩

/-- The date some days after another. -/
def after (date : Date) (days : ℕ) : Date := Date.next^[days] date

theorem after_succ (date : Date) (days : ℕ) : date.after (days + 1) = (date.after days).next :=
  Function.iterate_succ_apply' ..

theorem Valid.after {date : Date} (h : date.Valid) (days : ℕ) : (date.after days).Valid := by
  induction days with
  | zero => exact h
  | succ days ih =>
    rw [after_succ]
    exact ih.next

/-- Dates in the order of time. -/
def Before (date date' : Date) : Prop :=
  date.year < date'.year ∨ date.year = date'.year ∧
    (date.month < date'.month ∨ date.month = date'.month ∧ date.day < date'.day)

theorem Before.trans {a b c : Date} (h : a.Before b) (h' : b.Before c) : a.Before c := by
  unfold Before at *
  omega

theorem before_next (date : Date) : date.Before date.next := by
  unfold Date.next Before
  split_ifs
  · exact .inr ⟨rfl, .inr ⟨rfl, Nat.lt_succ_self _⟩⟩
  · exact .inr ⟨rfl, .inl (Nat.lt_succ_self _)⟩
  · exact .inl (Nat.lt_succ_self _)

theorem before_after (date : Date) {a b : ℕ} (h : a < b) :
    (date.after a).Before (date.after b) := by
  induction b, h using Nat.le_induction with
  | base =>
    rw [after_succ]
    exact before_next _
  | succ b _ ih =>
    rw [after_succ]
    exact ih.trans (before_next _)

end Date

/-! ## Years from the first of March -/

/-- The days before a year. -/
def marchStart (year : ℕ) : ℕ := 365 * year + year / 4 - year / 100 + year / 400

def marchLength (year : ℕ) : ℕ := if isLeap (year + 1) then 366 else 365

/-- A year by its place in the four cycles of the leap rule. -/
structure Place where
  era : ℕ
  century : ℕ
  cycle : ℕ
  rest : ℕ
  hcentury : century ≤ 3
  hcycle : cycle ≤ 24
  hrest : rest ≤ 3

namespace Place

variable (place : Place)

def year : ℕ := 400 * place.era + 100 * place.century + 4 * place.cycle + place.rest

/-- Whether the year ends with a leap day. -/
def Leaps : Prop := place.rest = 3 ∧ (place.cycle < 24 ∨ place.century = 3)

instance : Decidable place.Leaps := inferInstanceAs (Decidable (_ ∧ _))

theorem exists_year (year : ℕ) : ∃ place : Place, place.year = year := by
  refine ⟨⟨year / 400, year % 400 / 100, year % 100 / 4, year % 4, by omega, by omega,
    by omega⟩, ?_⟩
  unfold Place.year
  dsimp only
  omega

theorem marchStart_year : marchStart place.year =
    146097 * place.era + 36524 * place.century + 1461 * place.cycle + 365 * place.rest := by
  obtain ⟨era, century, cycle, rest, hcentury, hcycle, hrest⟩ := place
  unfold Place.year marchStart
  dsimp only
  have hfour : (400 * era + 100 * century + 4 * cycle + rest) / 4 =
    100 * era + 25 * century + cycle := by omega
  have hhundred : (400 * era + 100 * century + 4 * cycle + rest) / 100 = 4 * era + century := by
    omega
  have hera : (400 * era + 100 * century + 4 * cycle + rest) / 400 = era := by omega
  rw [hfour, hhundred, hera]
  omega

theorem isLeap_year : isLeap (place.year + 1) = decide place.Leaps := by
  obtain ⟨era, century, cycle, rest, hcentury, hcycle, hrest⟩ := place
  rw [Bool.eq_iff_iff, decide_eq_true_iff]
  unfold Place.year isLeap Leaps
  simp only [Bool.and_eq_true, Bool.or_eq_true, decide_eq_true_eq]
  interval_cases century <;> omega

theorem marchLength_year : marchLength place.year = if place.Leaps then 366 else 365 := by
  unfold marchLength
  rw [isLeap_year]
  by_cases h : place.Leaps <;> simp [h]

/-- The place of the year after. -/
def next : Place :=
  if hrest : place.rest < 3 then
    ⟨place.era, place.century, place.cycle, place.rest + 1, place.hcentury, place.hcycle, hrest⟩
  else if hcycle : place.cycle < 24 then
    ⟨place.era, place.century, place.cycle + 1, 0, place.hcentury, hcycle, Nat.zero_le 3⟩
  else if hcentury : place.century < 3 then
    ⟨place.era, place.century + 1, 0, 0, hcentury, Nat.zero_le 24, Nat.zero_le 3⟩
  else ⟨place.era + 1, 0, 0, 0, Nat.zero_le 3, Nat.zero_le 24, Nat.zero_le 3⟩

theorem year_next : place.next.year = place.year + 1 := by
  have hcentury := place.hcentury
  have hcycle := place.hcycle
  have hrest := place.hrest
  unfold next Place.year
  split_ifs <;> dsimp only <;> omega

theorem marchStart_next : marchStart place.next.year =
    marchStart place.year + if place.Leaps then 366 else 365 := by
  have hcentury := place.hcentury
  have hcycle := place.hcycle
  have hrest := place.hrest
  rw [marchStart_year, marchStart_year]
  unfold next
  by_cases hleaps : place.Leaps
  · rw [if_pos hleaps]
    unfold Leaps at hleaps
    split_ifs <;> dsimp only <;> omega
  · rw [if_neg hleaps]
    unfold Leaps at hleaps
    split_ifs <;> dsimp only <;> omega

end Place

theorem marchStart_succ (year : ℕ) :
    marchStart (year + 1) = marchStart year + marchLength year := by
  obtain ⟨place, rfl⟩ := Place.exists_year year
  rw [← place.year_next, place.marchStart_next, place.marchLength_year]

/-- The month that a day of the year falls into, counted from March. -/
def monthPart (day : ℕ) : ℕ := (5 * day + 2) / 153

def marchMonth (day : ℕ) : ℕ :=
  if monthPart day < 10 then monthPart day + 3 else monthPart day - 9

def marchDay (day : ℕ) : ℕ := day - (153 * monthPart day + 2) / 5 + 1

/-- The date of one day of such a year. -/
def marchDate (year day : ℕ) : Date where
  year := if marchMonth day ≤ 2 then year + 1 else year
  month := marchMonth day
  day := marchDay day

/-- From one day of such a year to the next, in terms of its months. -/
theorem march_months : ∀ leap : Bool, ∀ day < 366, day + 1 < (if leap then 366 else 365) →
    if marchDay day < daysInMonth leap (marchMonth day)
    then marchDay (day + 1) = marchDay day + 1 ∧ marchMonth (day + 1) = marchMonth day
    else marchDay (day + 1) = 1 ∧
      if marchMonth day < 12
      then marchMonth (day + 1) = marchMonth day + 1 ∧ (marchMonth day ≠ 2)
      else marchMonth day = 12 ∧ marchMonth (day + 1) = 1 := by
  decide +kernel

theorem march_last : ∀ leap : Bool, daysInMonth leap 2 = marchDay (if leap then 365 else 364) ∧
    marchMonth (if leap then 365 else 364) = 2 := by
  decide

theorem marchLength_le (year : ℕ) : marchLength year ≤ 366 := by
  unfold marchLength
  split_ifs <;> decide

/-- The leap rule that matters in such a year is that of its end. -/
theorem daysInMonth_march (year day : ℕ) :
    daysInMonth (isLeap (marchDate year day).year) (marchDate year day).month =
      daysInMonth (isLeap (year + 1)) (marchMonth day) := by
  unfold marchDate
  dsimp only
  by_cases hmonth : marchMonth day = 2
  · rw [hmonth]
    rfl
  · unfold daysInMonth
    rw [if_neg hmonth, if_neg hmonth]

theorem marchDate_succ {year day : ℕ} (h : day + 1 < marchLength year) :
    marchDate year (day + 1) = (marchDate year day).next := by
  have hday : day < 366 := by
    have := marchLength_le year
    omega
  have hmonths := march_months (isLeap (year + 1)) day hday h
  unfold Date.next
  rw [daysInMonth_march]
  unfold marchDate
  dsimp only
  by_cases hlast : marchDay day < daysInMonth (isLeap (year + 1)) (marchMonth day)
  · rw [if_pos hlast] at hmonths ⊢
    rw [hmonths.1, hmonths.2]
  · rw [if_neg hlast] at hmonths ⊢
    obtain ⟨hfirst, hmonth⟩ := hmonths
    by_cases htwelve : marchMonth day < 12
    · rw [if_pos htwelve] at hmonth ⊢
      obtain ⟨hnext, hne⟩ := hmonth
      rw [hfirst, hnext, Date.mk.injEq]
      refine ⟨?_, rfl, rfl⟩
      split_ifs <;> omega
    · rw [if_neg htwelve] at hmonth ⊢
      obtain ⟨hdecember, hnext⟩ := hmonth
      rw [hfirst, hnext, hdecember]
      rfl

theorem marchDate_last (year : ℕ) :
    marchDate (year + 1) 0 = (marchDate year (marchLength year - 1)).next := by
  have hlength : marchLength year - 1 = if isLeap (year + 1) then 365 else 364 := by
    unfold marchLength
    split_ifs <;> rfl
  obtain ⟨hday, hmonth⟩ := march_last (isLeap (year + 1))
  rw [← hlength] at hday hmonth
  unfold Date.next
  rw [daysInMonth_march, hmonth]
  have hended : ¬ (marchDate year (marchLength year - 1)).day <
      daysInMonth (isLeap (year + 1)) 2 := by
    rw [hday]
    exact lt_irrefl _
  have hfebruary : (marchDate year (marchLength year - 1)).month = 2 := hmonth
  rw [if_neg hended, hfebruary, if_pos (by decide)]
  unfold marchDate
  rw [hmonth]
  rfl

/-- Counting days on finds each day in its year. -/
theorem after_march {year day : ℕ} (h : day < marchLength year) (days : ℕ) :
    ∃ year' day', marchStart year + day + days = marchStart year' + day' ∧
      day' < marchLength year' ∧ (marchDate year day).after days = marchDate year' day' := by
  induction days with
  | zero => exact ⟨year, day, rfl, h, rfl⟩
  | succ days ih =>
    obtain ⟨year', day', hsum, hday, hdate⟩ := ih
    by_cases hlast : day' + 1 < marchLength year'
    · refine ⟨year', day' + 1, by omega, hlast, ?_⟩
      rw [Date.after_succ, hdate, marchDate_succ hlast]
    · have hend : marchLength year' - 1 = day' := by omega
      refine ⟨year' + 1, 0, ?_, ?_, ?_⟩
      · rw [marchStart_succ]
        omega
      · unfold marchLength
        split_ifs <;> decide
      · rw [Date.after_succ, hdate, marchDate_last, hend]

end Rivect.Lib
