import Asterel.Library.Calendar
import Asterel.Platform.CronExpression

/-!
# The fields of a schedule

The fields of a crontab line and those of the schedule library are written alike. A crontab
counts weekdays from Sunday, 0 or 7, and a day needs only one of two restricted day fields; the
library counts them from Sunday, 1, and every field has to match.
-/

namespace Asterel.Cron

open Library Library.Calendar

section Fields

/-- A number, or a name by its position among the names of the field. -/
inductive Token where
  | numeral (value : Nat)
  | name (index : Nat)
  deriving DecidableEq

inductive Span where
  | all
  | point (value : Token)
  | range (low high : Token)
  deriving DecidableEq

structure Item where
  span : Span
  step : Nat
  deriving DecidableEq

abbrev Field := List Item

def readNumber (text : Chars) : Option Nat :=
  if text.all Char.isDigit then parseU32 text else none

def readToken (names : List Chars) (text : Chars) : Option Token :=
  match readNumber text with
  | some value => some (.numeral value)
  | none => (names.idxOf? (text.map Char.toUpper)).map .name

def readSpan (names : List Chars) (text : Chars) : Option Span :=
  if text = ['*'] then some .all
  else match Text.splitOnce '-' text with
    | none => (readToken names text).map .point
    | some (low, high) => do some (.range (← readToken names low) (← readToken names high))

def readItem (names : List Chars) (text : Chars) : Option Item :=
  match Text.splitOnce '/' text with
  | none => (readSpan names text).map fun span => ⟨span, 1⟩
  | some (span, step) => do
    match ← readSpan names span with
    | .point _ => none
    | span => some ⟨span, ← readNumber step⟩

def readField (names : List Chars) (text : Chars) : Option Field :=
  (text.splitOn ',').mapM (readItem names)

def Token.value (first : Nat) : Token → Nat
  | .numeral value => value
  | .name index => first + index

def Span.low (first : Nat) : Span → Nat
  | .all => first
  | .point value => value.value first
  | .range low _ => low.value first

def Span.high (first last : Nat) : Span → Nat
  | .all => last
  | .point value => value.value first
  | .range _ high => high.value first

/-- An item within the numbers of its field. -/
def Item.Fits (first last : Nat) (item : Item) : Prop :=
  first ≤ item.span.low first ∧ item.span.low first ≤ item.span.high first last ∧
    item.span.high first last ≤ last ∧ 1 ≤ item.step ∧ item.step ≤ last

def Item.Has (first last : Nat) (item : Item) (value : Nat) : Prop :=
  item.span.low first ≤ value ∧ value ≤ item.span.high first last ∧
    (value - item.span.low first) % item.step = 0

def Field.Fits (first last : Nat) (field : Field) : Prop :=
  field ≠ [] ∧ ∀ item ∈ field, item.Fits first last

def Field.Has (first last : Nat) (field : Field) (value : Nat) : Prop :=
  ∃ item ∈ field, item.Has first last value

/-- A field that does not begin with an asterisk. -/
def Field.Restricted (field : Field) : Prop := ∀ item ∈ field.head?, item.span ≠ .all

instance (first last : Nat) (item : Item) : Decidable (item.Fits first last) :=
  inferInstanceAs (Decidable (_ ∧ _))

instance (first last : Nat) (item : Item) (value : Nat) : Decidable (item.Has first last value) :=
  inferInstanceAs (Decidable (_ ∧ _))

instance (first last : Nat) (field : Field) : Decidable (Field.Fits first last field) :=
  inferInstanceAs (Decidable (_ ∧ _))

instance (first last : Nat) (field : Field) (value : Nat) : Decidable (Field.Has first last field value) :=
  inferInstanceAs (Decidable (∃ item ∈ field, item.Has first last value))

instance (field : Field) : Decidable (Field.Restricted field) :=
  inferInstanceAs (Decidable (∀ item ∈ field.head?, item.span ≠ .all))

end Fields

section Lines

def monthNames : List Chars :=
  ["JAN", "FEB", "MAR", "APR", "MAY", "JUN", "JUL", "AUG", "SEP", "OCT", "NOV", "DEC"].map String.toList

def weekdayNames : List Chars := ["SUN", "MON", "TUE", "WED", "THU", "FRI", "SAT"].map String.toList

/-- The five fields of a crontab line. -/
structure Crontab where
  minute : Field
  hour : Field
  dayOfMonth : Field
  month : Field
  dayOfWeek : Field
  deriving DecidableEq

def readFields : List Chars → Option Crontab
  | [minute, hour, dayOfMonth, month, dayOfWeek] => do
    some ⟨← readField [] minute, ← readField [] hour, ← readField [] dayOfMonth,
      ← readField monthNames month, ← readField weekdayNames dayOfWeek⟩
  | _ => none

def readCrontab (expression : Chars) : Option Crontab := readFields (Text.splitWhitespace expression)

/-- The six fields of the library, the seconds first. -/
def readSix (text : Chars) : Option (Field × Crontab) :=
  match Text.splitWhitespace text with
  | second :: rest => do some (← readField [] second, ← readFields rest)
  | [] => none

end Lines

section Meaning

def minuteLength : Time := 60000000

def dayLength : Time := 24 * hour

namespace Crontab

variable (fields : Crontab)

/-- The fields without the weekdays are within their numbers. -/
def DatesFit : Prop :=
  Field.Fits 0 59 fields.minute ∧ Field.Fits 0 23 fields.hour ∧ Field.Fits 1 31 fields.dayOfMonth ∧
    Field.Fits 1 12 fields.month

/-- A valid crontab line. -/
def Valid : Prop := fields.DatesFit ∧ Field.Fits 0 7 fields.dayOfWeek

/-- A moment in a listed minute, hour and month of a day that a rule picks. -/
def At (rule : Date → Prop) (time : Time) : Prop :=
  time % minuteLength = 0 ∧ Field.Has 0 59 fields.minute (time / minuteLength % 60).toNat ∧
    Field.Has 0 23 fields.hour (time / Cron.hour % 24).toNat ∧
    ∃ date : Date, date.number = time / dayLength ∧ Field.Has 1 12 fields.month date.month ∧ rule date

/-- Weekdays of a crontab, in which 0 and 7 are Sunday. -/
def OnWeekday (weekday : Nat) : Prop :=
  Field.Has 0 7 fields.dayOfWeek weekday ∨ weekday = 0 ∧ Field.Has 0 7 fields.dayOfWeek 7

def BothRestricted : Prop := Field.Restricted fields.dayOfMonth ∧ Field.Restricted fields.dayOfWeek

/-- The days of a crontab: if both day fields are restricted, either may match. -/
def OnDay (date : Date) : Prop :=
  let inMonth := Field.Has 1 31 fields.dayOfMonth date.day
  let inWeek := fields.OnWeekday (weekday date.number)
  fields.BothRestricted ∧ (inMonth ∨ inWeek) ∨ ¬ fields.BothRestricted ∧ inMonth ∧ inWeek

/-- Weekdays of the library, from Sunday, 1, to Saturday, 7. -/
def OnNumbered (weekday : Nat) : Prop := Field.Has 1 7 fields.dayOfWeek (weekday + 1)

/-- The days of the library: both day fields match. -/
def OnBoth (date : Date) : Prop :=
  Field.Has 1 31 fields.dayOfMonth date.day ∧ fields.OnNumbered (weekday date.number)

instance : Decidable fields.DatesFit := inferInstanceAs (Decidable (_ ∧ _))

instance : Decidable fields.Valid := inferInstanceAs (Decidable (_ ∧ _))

instance (weekday : Nat) : Decidable (fields.OnWeekday weekday) := inferInstanceAs (Decidable (_ ∨ _))

instance : Decidable fields.BothRestricted := inferInstanceAs (Decidable (_ ∧ _))

instance (weekday : Nat) : Decidable (fields.OnNumbered weekday) :=
  inferInstanceAs (Decidable (Field.Has _ _ _ _))

end Crontab

/-- A moment that the library's fields name. -/
def FieldsOccur (second : Field) (fields : Crontab) (time : Time) : Prop :=
  time % 1000000 = 0 ∧ Field.Has 0 59 second (time / 1000000 % 60).toNat ∧
    Field.Has 0 59 fields.minute (time / minuteLength % 60).toNat ∧
    Field.Has 0 23 fields.hour (time / hour % 24).toNat ∧
    ∃ date : Date, date.number = time / dayLength ∧ Field.Has 1 12 fields.month date.month ∧
      fields.OnBoth date

/-- What is relied on of the schedule library: it reads six fields within their numbers, every
field has to match, and it knows the years between two moments. -/
structure CronCrate (readSchedule : Chars → Option Schedule) (start stop : Time) : Prop where
  covers : start < dayLength * yearStart 2000 ∧ dayLength * yearStart 2056 ≤ stop
  reads : ∀ text second fields, readSix text = some (second, fields) → Field.Fits 0 59 second →
    fields.DatesFit → Field.Fits 1 7 fields.dayOfWeek → ∃ schedule, readSchedule text = some schedule ∧
      ∀ time, schedule.Occurs time ↔ start ≤ time ∧ time < stop ∧ FieldsOccur second fields time
  refuses : ∀ text second fields, readSix text = some (second, fields) →
    ¬ Field.Fits 1 7 fields.dayOfWeek → readSchedule text = none

end Meaning

end Asterel.Cron
