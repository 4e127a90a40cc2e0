import Mathlib.Data.String.Basic
import Rivect.Lib.Calendar
import Rivect.Lib.Digits

/-! # The date of a signature

`format_amz_date` and `civil_from_days` of `src/providers/aws.rs`, in numbers without a sign: a
subtraction below zero is a panic.
-/

namespace Rivect.Providers.Aws

open Lib List Option

def checkedSub (a b : ℕ) : Option ℕ := if b ≤ a then some (a - b) else none

def civilFromDays (days : ℕ) : Option Date := do
  let z := days + 719468
  let era := z / 146097
  let dayOfEra := z % 146097
  let short ← checkedSub dayOfEra (dayOfEra / 1460)
  let long ← checkedSub (short + dayOfEra / 36524) (dayOfEra / 146096)
  let yearOfEra := long / 365
  let year := yearOfEra + era * 400
  let started ← checkedSub (365 * yearOfEra + yearOfEra / 4) (yearOfEra / 100)
  let dayOfYear ← checkedSub dayOfEra started
  let monthPart := (5 * dayOfYear + 2) / 153
  let before ← checkedSub dayOfYear ((153 * monthPart + 2) / 5)
  let day := before + 1
  let month ← if monthPart < 10 then some (monthPart + 3) else checkedSub monthPart 9
  return ⟨if month ≤ 2 then year + 1 else year, month, day⟩

/-- The stamp of a date and the second of its day. -/
def stamp (date : Date) (clock : ℕ) : List Char :=
  padded 4 date.year ++ padded 2 date.month ++ padded 2 date.day ++ ['T'] ++
    padded 2 (clock / 3600) ++ padded 2 (clock % 3600 / 60) ++ padded 2 (clock % 60) ++ ['Z']

/-- The stamp of an instant by its seconds since the epoch, of which an earlier one has none. -/
def formatAmzDate (sinceEpoch : Option ℕ) : Option String := do
  let seconds := sinceEpoch.getD 0
  let date ← civilFromDays (seconds / 86400)
  return String.ofList (stamp date (seconds % 86400))

def epoch : Date := ⟨1970, 1, 1⟩

theorem checkedSub_some {a b : ℕ} (h : b ≤ a) : checkedSub a b = some (a - b) := if_pos h

/-! ## Years of an era -/

section Era

variable {place : Place} {day : ℕ}

/-- The day of its era that a day of a year is. -/
def eraDay (place : Place) (day : ℕ) : ℕ :=
  36524 * place.century + 1461 * place.cycle + 365 * place.rest + day

section

variable (h : day < marchLength place.year)
include h

theorem day_lt : day < 366 ∧ (day = 365 → place.Leaps) := by
  rw [place.marchLength_year] at h
  split_ifs at h with hleaps
  · exact ⟨h, fun _ => hleaps⟩
  · exact ⟨by omega, by omega⟩

theorem eraDay_lt : eraDay place day < 146097 := by
  have hcentury := place.hcentury
  have hcycle := place.hcycle
  have hrest := place.hrest
  obtain ⟨hday, hleaps⟩ := day_lt h
  unfold eraDay
  omega

/-- How the years of the era drift from their days: by one within 1460 days, and at the last day. -/
theorem eraDay_div :
    eraDay place day / 36524 = place.century + eraDay place day / 146096 ∧
    ∃ step ≤ day, day < step + 365 ∧
      eraDay place day / 1460 = 25 * place.century + place.cycle + step := by
  have hcentury := place.hcentury
  have hcycle := place.hcycle
  have hrest := place.hrest
  obtain ⟨hday, hleaps⟩ := day_lt h
  unfold Place.Leaps at hleaps
  unfold eraDay
  generalize place.century = century at *
  generalize place.cycle = cycle at *
  generalize place.rest = rest at *
  constructor
  · by_cases hlast : century = 3 ∧ cycle = 24 ∧ rest = 3 ∧ day = 365
    · obtain ⟨rfl, rfl, rfl, rfl⟩ := hlast
      rfl
    · have hshort : 1461 * cycle + 365 * rest + day < 36524 := by omega
      have hcenturies : (36524 * century + 1461 * cycle + 365 * rest + day) / 36524 = century := by
        apply Nat.div_eq_of_lt_le
        · omega
        · omega
      rw [hcenturies, Nat.div_eq_of_lt (by omega), Nat.add_zero]
  · refine ⟨(24 * century + cycle + 365 * rest + day) / 1460, ?_, ?_, ?_⟩
    · omega
    · omega
    · omega

/-- The years of the era that the three divisions find, none of them below zero. -/
theorem yearOfEra_eq :
    eraDay place day / 1460 ≤ eraDay place day ∧
    eraDay place day / 146096 ≤
      eraDay place day - eraDay place day / 1460 + eraDay place day / 36524 ∧
    (eraDay place day - eraDay place day / 1460 + eraDay place day / 36524 -
      eraDay place day / 146096) / 365 =
        100 * place.century + 4 * place.cycle + place.rest := by
  obtain ⟨hcenturies, step, hlow, hhigh, hstep⟩ := eraDay_div h
  have hlength : eraDay place day =
    36524 * place.century + 1461 * place.cycle + 365 * place.rest + day := rfl
  rw [hcenturies, hstep]
  refine ⟨?_, ?_, ?_⟩
  · omega
  · omega
  · apply Nat.div_eq_of_lt_le
    · omega
    · omega

end

end Era

/-- The month of a day of the year, none of its subtractions below zero. -/
theorem month_steps : ∀ day < 366, (153 * monthPart day + 2) / 5 ≤ day ∧
    (monthPart day < 10 ∨ 9 ≤ monthPart day) := by
  decide +kernel

theorem civilFromDays_march {days year day : ℕ} (hdays : days + 719468 = marchStart year + day)
    (hday : day < marchLength year) : civilFromDays days = some (marchDate year day) := by
  obtain ⟨place, rfl⟩ := Place.exists_year year
  have heraDay := eraDay_lt hday
  have hstart : days + 719468 = 146097 * place.era + eraDay place day := by
    rw [hdays, place.marchStart_year, eraDay]
    omega
  have hera : (days + 719468) / 146097 = place.era := by omega
  have hrest : (days + 719468) % 146097 = eraDay place day := by omega
  obtain ⟨hshort, hlong, hyears⟩ := yearOfEra_eq hday
  obtain ⟨hbefore, hmonth⟩ := month_steps day (day_lt hday).1
  have hyear : 100 * place.century + 4 * place.cycle + place.rest + place.era * 400 =
      place.year := by
    unfold Place.year
    omega
  have hstarted : 365 * (100 * place.century + 4 * place.cycle + place.rest) +
      (100 * place.century + 4 * place.cycle + place.rest) / 4 -
        (100 * place.century + 4 * place.cycle + place.rest) / 100 =
      36524 * place.century + 1461 * place.cycle + 365 * place.rest := by
    have hcycle := place.hcycle
    have hrest := place.hrest
    omega
  have hdayOfYear : eraDay place day -
      (36524 * place.century + 1461 * place.cycle + 365 * place.rest) = day :=
    Nat.add_sub_cancel_left ..
  have hstartedLe : 36524 * place.century + 1461 * place.cycle + 365 * place.rest ≤
      eraDay place day := Nat.le_add_right ..
  unfold civilFromDays
  simp only [hera, hrest, bind_eq_bind]
  rw [checkedSub_some hshort, bind_some, checkedSub_some hlong, bind_some, hyears,
    checkedSub_some (by omega), bind_some, hstarted,
    checkedSub_some hstartedLe, bind_some, hdayOfYear, hyear]
  rw [show (5 * day + 2) / 153 = monthPart day from rfl, checkedSub_some hbefore,
    bind_some]
  by_cases hautumn : monthPart day < 10
  · have hpart : marchMonth day = monthPart day + 3 := if_pos hautumn
    rw [if_pos hautumn]
    unfold marchDate
    rw [hpart]
    rfl
  · have hpart : marchMonth day = monthPart day - 9 := if_neg hautumn
    rw [if_neg hautumn, checkedSub_some (hmonth.resolve_left hautumn)]
    unfold marchDate
    rw [hpart]
    rfl

theorem civilFromDays_eq (days : ℕ) : civilFromDays days = some (epoch.after days) := by
  have hepoch : epoch = marchDate 1969 306 := rfl
  obtain ⟨year, day, hsum, hday, hdate⟩ := @after_march 1969 306 (by decide) days
  have hstart : marchStart 1969 + 306 = 719468 := rfl
  rw [hepoch, hdate]
  exact civilFromDays_march (by omega) hday

/-! ## Stamps -/

theorem valid_epoch : epoch.Valid := ⟨⟨le_refl 1, by decide⟩, le_refl 1, by decide⟩

theorem formatAmzDate_eq (seconds : ℕ) : formatAmzDate (some seconds) =
    some (String.ofList (stamp (epoch.after (seconds / 86400)) (seconds % 86400))) := by
  have hdate := civilFromDays_eq (seconds / 86400)
  unfold formatAmzDate
  dsimp only [getD_some]
  rw [hdate]
  rfl

theorem stamp_assoc (date : Date) (clock : ℕ) : stamp date clock =
    padded 4 date.year ++ (padded 2 date.month ++ (padded 2 date.day ++ (['T'] ++
      (padded 2 (clock / 3600) ++ (padded 2 (clock % 3600 / 60) ++
        (padded 2 (clock % 60) ++ ['Z'])))))) := by
  simp only [stamp, append_assoc]

theorem day_lt_hundred {date : Date} (h : date.Valid) : date.day < 100 := by
  have hday := h.day.2
  unfold daysInMonth at hday
  split_ifs at hday <;> omega

theorem stamp_lt_of_before {date date' : Date} (hvalid : date'.Valid) (hyear : date'.year ≤ 9999)
    (h : date.Before date') (clock clock' : ℕ) : stamp date clock < stamp date' clock' := by
  have hmonth := hvalid.month.2
  have hday := day_lt_hundred hvalid
  rw [stamp_assoc, stamp_assoc]
  rcases h with hlt | ⟨hsame, hlt | ⟨hsame', hlt⟩⟩
  · exact padded_append_lt (by decide) hlt (by omega) _ _
  · rw [hsame]
    exact append_left_lt (padded_append_lt (by decide) hlt (by omega) _ _)
  · rw [hsame, hsame']
    apply append_left_lt
    exact append_left_lt (padded_append_lt (by decide) hlt (by omega) _ _)

theorem stamp_lt_of_clock (date : Date) {clock clock' : ℕ} (h : clock < clock')
    (hclock : clock' < 86400) : stamp date clock < stamp date clock' := by
  rw [stamp_assoc, stamp_assoc]
  apply append_left_lt
  apply append_left_lt
  apply append_left_lt
  apply append_left_lt
  rcases Nat.lt_or_ge (clock / 3600) (clock' / 3600) with hhour | hhour
  · exact padded_append_lt (by decide) hhour (by omega) _ _
  · have hsame : clock / 3600 = clock' / 3600 := by omega
    rw [hsame]
    apply append_left_lt
    rcases Nat.lt_or_ge (clock % 3600 / 60) (clock' % 3600 / 60) with hminute | hminute
    · exact padded_append_lt (by decide) hminute (by omega) _ _
    · have hsame' : clock % 3600 / 60 = clock' % 3600 / 60 := by omega
      rw [hsame']
      apply append_left_lt
      exact padded_append_lt (by decide) (by omega) (by omega) _ _

/-- Every day count is the date so many days after the epoch, a date of the Gregorian calendar, and
no subtraction on the way goes below zero; stamps grow with the second up to the year 9999. -/
theorem signing_dates :
    (∀ days, ∃ date, civilFromDays days = some date ∧ date = epoch.after days ∧ date.Valid) ∧
    (∀ days date, civilFromDays days = some date → civilFromDays (days + 1) = some date.next) ∧
    ∀ a b, a < b → (epoch.after (b / 86400)).year ≤ 9999 →
      ∃ x y, formatAmzDate (some a) = some x ∧ formatAmzDate (some b) = some y ∧ x < y := by
  refine ⟨fun days => ⟨_, civilFromDays_eq days, rfl, valid_epoch.after days⟩,
    fun days date hdate => ?_, fun a b hab hyear => ?_⟩
  · rw [civilFromDays_eq] at hdate
    rw [civilFromDays_eq, Date.after_succ, some.inj hdate]
  · refine ⟨_, _, formatAmzDate_eq a, formatAmzDate_eq b, ?_⟩
    rw [String.lt_iff_toList_lt, String.toList_ofList, String.toList_ofList]
    rcases Nat.lt_or_ge (a / 86400) (b / 86400) with hdays | hdays
    · exact stamp_lt_of_before (valid_epoch.after _) hyear (Date.before_after epoch hdays) _ _
    · have hsame : a / 86400 = b / 86400 := by omega
      rw [hsame]
      exact stamp_lt_of_clock _ (by omega) (Nat.mod_lt b (by decide))

end Rivect.Providers.Aws
