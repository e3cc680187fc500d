import Mathlib

/-!
# The calendar

Days are numbered from the first day of 1970. Every number is that of one date, and every day of
every month falls on every weekday in any 28 years around 2000.
-/

namespace Library.Calendar

def isLeap (year : Int) : Bool :=
  year % 4 = 0 && (year % 100 ≠ 0 || year % 400 = 0)

def monthLength (year : Int) (month : Nat) : Nat :=
  if month = 2 then (if isLeap year then 29 else 28)
  else if month = 4 ∨ month = 6 ∨ month = 9 ∨ month = 11 then 30 else 31

/-- The most days a month can have. -/
def longest (month : Nat) : Nat := monthLength 2000 month

def yearLength (year : Int) : Int := if isLeap year then 366 else 365

/-- The number of the first day of a year. There are 477 leap years before 1970. -/
def yearStart (year : Int) : Int :=
  365 * (year - 1970) + ((year - 1) / 4 - (year - 1) / 100 + (year - 1) / 400 - 477)

/-- The days of a year's first months. -/
def monthStart (year : Int) : Nat → Nat
  | 0 => 0
  | months + 1 => monthStart year months + monthLength year (months + 1)

@[ext]
structure Date where
  year : Int
  month : Nat
  day : Nat
  month_pos : 1 ≤ month
  month_le : month ≤ 12
  day_pos : 1 ≤ day
  day_le : day ≤ monthLength year month

def Date.number (date : Date) : Int :=
  yearStart date.year + monthStart date.year (date.month - 1) + (date.day - 1)

/-- The weekday of a day, from Sunday on. The first day is a Thursday. -/
def weekday (number : Int) : Nat := ((number + 4) % 7).toNat

theorem weekday_lt (number : Int) : weekday number < 7 := by
  unfold weekday
  omega

section Steps

variable (year : Int)

theorem yearStart_succ : yearStart (year + 1) = yearStart year + yearLength year := by
  unfold yearStart yearLength isLeap
  split_ifs with leap <;> simp at leap <;> omega

theorem yearStart_strictMono : StrictMono yearStart := by
  apply strictMono_int_of_lt_succ
  intro year
  rw [yearStart_succ, yearLength]
  split_ifs <;> omega

theorem monthLength_pos (month : Nat) : 1 ≤ monthLength year month := by
  unfold monthLength
  split_ifs <;> omega

theorem monthStart_strictMono : StrictMono (monthStart year) :=
  strictMono_nat_of_lt_succ fun months =>
    Nat.lt_add_of_pos_right (monthLength_pos year (months + 1))

theorem monthStart_twelve : (monthStart year 12 : Int) = yearLength year := by
  unfold yearLength
  cases leap : isLeap year <;> simp [monthStart, monthLength, leap]

/-- The step of a strictly increasing sequence that a number lies in is unique. -/
theorem step_unique {ι α : Type*} [LinearOrder ι] [LinearOrder α] {sequence : ι → α}
    (increasing : StrictMono sequence) {first second : ι} {one two : ι} {number : α}
    (nextOne : ∀ index, first < index → one ≤ index) (nextTwo : ∀ index, second < index → two ≤ index)
    (lowOne : sequence first ≤ number) (highOne : number < sequence one)
    (lowTwo : sequence second ≤ number) (highTwo : number < sequence two) : first = second := by
  rcases lt_trichotomy first second with before | same | after
  · exact absurd (lowTwo.trans_lt highOne) (not_lt.mpr (increasing.monotone (nextOne _ before)))
  · exact same
  · exact absurd (lowOne.trans_lt highTwo) (not_lt.mpr (increasing.monotone (nextTwo _ after)))

theorem exists_step {sequence : Int → Int} (increasing : StrictMono sequence) (first : Int)
    (start : sequence first = 0) (number : Int) :
    ∃ index, sequence index ≤ number ∧ number < sequence (index + 1) := by
  induction number using Int.induction_on with
  | zero => exact ⟨first, start.le, start ▸ increasing (lt_add_one first)⟩
  | succ number ih =>
    obtain ⟨index, low, high⟩ := ih
    rcases (Int.add_one_le_iff.mpr high).lt_or_eq with inside | boundary
    · exact ⟨index, low.trans (Int.le_add_one le_rfl), inside⟩
    · exact ⟨index + 1, boundary.ge, boundary ▸ increasing (lt_add_one _)⟩
  | pred number ih =>
    obtain ⟨index, low, high⟩ := ih
    rcases low.lt_or_eq with inside | boundary
    · exact ⟨index, Int.le_sub_one_of_lt inside, (Int.sub_one_lt_of_le le_rfl).trans high⟩
    · refine ⟨index - 1, Int.le_sub_one_of_lt ?_, ?_⟩
      · rw [← boundary]
        exact increasing (Int.sub_one_lt_of_le le_rfl)
      · rw [sub_add_cancel, boundary]
        exact Int.sub_one_lt_of_le le_rfl

/-- The same below a bound. -/
theorem exists_step_below {sequence : Nat → Nat} {bound number : Nat} (low : sequence 0 ≤ number)
    (high : number < sequence bound) :
    ∃ index < bound, sequence index ≤ number ∧ number < sequence (index + 1) := by
  induction bound with
  | zero => exact absurd high (Nat.not_lt_of_ge low)
  | succ bound ih =>
    rcases Nat.lt_or_ge number (sequence bound) with early | late
    · obtain ⟨index, below, inside⟩ := ih early
      exact ⟨index, Nat.lt_succ_of_lt below, inside⟩
    · exact ⟨bound, Nat.lt_succ_self bound, late, high⟩

end Steps

section Dates

variable (date : Date)

/-- The day of a date in its year. -/
theorem monthStart_bounds :
    monthStart date.year (date.month - 1) + (date.day - 1) <
        monthStart date.year (date.month - 1 + 1) ∧
      monthStart date.year (date.month - 1 + 1) ≤ monthStart date.year 12 := by
  obtain ⟨year, month, day, month_pos, month_le, day_pos, day_le⟩ := date
  obtain ⟨months, rfl⟩ := Nat.exists_eq_add_of_le' month_pos
  refine ⟨?_, (monthStart_strictMono year).monotone (by dsimp only; omega)⟩
  rw [Nat.add_sub_cancel, monthStart]
  dsimp only at *
  omega

theorem number_bounds :
    yearStart date.year ≤ date.number ∧ date.number < yearStart (date.year + 1) := by
  obtain ⟨inMonth, inYear⟩ := monthStart_bounds date
  have length := monthStart_twelve date.year
  have positive := date.day_pos
  rw [yearStart_succ, ← length, Date.number]
  omega

/-- A number is that of one date. -/
theorem number_injective : Function.Injective Date.number := by
  intro one two same
  have boundsOne := number_bounds one
  have boundsTwo := number_bounds two
  rw [← same] at boundsTwo
  have year : one.year = two.year := step_unique yearStart_strictMono
    (fun _ => Int.add_one_le_iff.mpr) (fun _ => Int.add_one_le_iff.mpr) boundsOne.1 boundsOne.2
    boundsTwo.1 boundsTwo.2
  obtain ⟨inMonthOne, _⟩ := monthStart_bounds one
  obtain ⟨inMonthTwo, _⟩ := monthStart_bounds two
  have dayOne := one.day_pos
  have dayTwo := two.day_pos
  have posOne := one.month_pos
  have posTwo := two.month_pos
  rw [← year] at inMonthTwo
  have dayOfYear : monthStart one.year (one.month - 1) + (one.day - 1) =
      monthStart one.year (two.month - 1) + (two.day - 1) := by
    unfold Date.number at same
    rw [← year] at same
    omega
  have month : one.month - 1 = two.month - 1 := step_unique (monthStart_strictMono one.year)
    (fun _ => Nat.succ_le_of_lt) (fun _ => Nat.succ_le_of_lt) (Nat.le_add_right _ _) inMonthOne
    (dayOfYear ▸ Nat.le_add_right _ _) (dayOfYear ▸ inMonthTwo)
  rw [month] at dayOfYear
  exact Date.ext year (by omega) (by omega)

theorem exists_date (number : Int) : ∃ date : Date, date.number = number := by
  obtain ⟨year, low, high⟩ := exists_step yearStart_strictMono 1970 (by decide) number
  obtain ⟨dayOfYear, position⟩ := Int.eq_ofNat_of_zero_le (sub_nonneg.mpr low)
  have inside : dayOfYear < monthStart year 12 := by
    have length := monthStart_twelve year
    rw [yearStart_succ, ← length] at high
    omega
  obtain ⟨months, below, start, stop⟩ := exists_step_below (Nat.zero_le dayOfYear) inside
  rw [monthStart] at stop
  refine ⟨⟨year, months + 1, dayOfYear - monthStart year months + 1, by omega, by omega, by omega,
    by omega⟩, ?_⟩
  rw [Date.number]
  dsimp only
  rw [Nat.add_sub_cancel]
  omega

/-- In the 28 years from 2000 on, and again in the next ones, every month of a leap year begins on
every weekday. -/
theorem leap_offsets : ∀ again < 2, ∀ months < 12, ∀ wanted : Nat, wanted < 7 → ∃ turn < 7,
    isLeap (2000 + 28 * again + 4 * turn : Nat) = true ∧
      (yearStart (2000 + 28 * again + 4 * turn : Nat) +
        monthStart (2000 + 28 * again + 4 * turn : Nat) months) % 7 = wanted := by
  decide +kernel

theorem exists_weekday {again month day wanted : Nat} (cycle : again < 2) (month_pos : 1 ≤ month)
    (month_le : month ≤ 12) (day_pos : 1 ≤ day) (day_le : day ≤ longest month) (inWeek : wanted < 7) :
    ∃ date : Date, date.month = month ∧ date.day = day ∧ weekday date.number = wanted ∧
      (2000 + 28 * again : Int) ≤ date.year ∧ date.year < 2000 + 28 * again + 28 := by
  obtain ⟨months, rfl⟩ := Nat.exists_eq_add_of_le' month_pos
  obtain ⟨days, rfl⟩ := Nat.exists_eq_add_of_le' day_pos
  obtain ⟨turn, inside, leap, begins⟩ := leap_offsets again cycle months (by omega)
    ((wanted + 6 * (days + 4)) % 7) (Nat.mod_lt _ (by decide))
  have length : longest (months + 1) = monthLength (2000 + 28 * again + 4 * turn : Nat) (months + 1) := by
    have same : isLeap 2000 = true := rfl
    unfold longest monthLength
    rw [same, leap]
  refine ⟨⟨(2000 + 28 * again + 4 * turn : Nat), months + 1, days + 1, month_pos, month_le, day_pos,
    length ▸ day_le⟩, rfl, rfl, ?_, ?_, ?_⟩
  · rw [Date.number, weekday]
    dsimp only
    rw [Nat.add_sub_cancel]
    omega
  · dsimp only
    omega
  · dsimp only
    omega

end Dates

end Library.Calendar
