import Asterel.Library.Text
import Mathlib

/-!
# Cron expressions

An expression is normalized to six or seven fields and read as a schedule. The next run
is the first occurrence of the schedule after a moment, if there is one.
-/

namespace Asterel.Cron

open Library Text

abbrev Chars := List Char

/-- A moment in microseconds. -/
abbrev Time := Int

/-- A schedule as it is read from its fields: its occurrences, and the first one after a
moment. -/
structure Schedule where
  Occurs : Time → Prop
  after : Time → Option Time
  after_some : ∀ moment next, after moment = some next →
    IsLeast {time | Occurs time ∧ moment < time} next
  after_none : ∀ moment time, after moment = none → Occurs time → time ≤ moment

section Normalization

def parseU32 (raw : Chars) : Option Nat :=
  let digits := (['+'].isPrefixOf? raw).getD raw
  if digits = [] ∨ ! digits.all Char.isDigit then none
  else
    let value := digits.foldl (fun value digit => value * 10 + (digit.toNat - '0'.toNat)) 0
    if value < 2 ^ 32 then some value else none

def toAsciiLowercase (text : Chars) : Chars := text.map Char.toLower

/-- The text before and after the first occurrence of a pattern. -/
def splitOncePattern (pattern : Chars) : Chars → Option (Chars × Chars)
  | [] => none
  | ch :: rest =>
    match pattern.isPrefixOf? (ch :: rest) with
    | some after => some ([], after)
    | none => (splitOncePattern pattern rest).map fun parts => (ch :: parts.1, parts.2)

def parseHhmm24 (raw : Chars) : Except String (Nat × Nat) :=
  let value := trim raw
  let shown := String.ofList value
  match splitOnce ':' value with
  | none => .error s!"Invalid time format in natural schedule: {shown} (expected HH:MM)"
  | some (hourRaw, minuteRaw) =>
    match parseU32 hourRaw, parseU32 minuteRaw with
    | none, _ =>
      let hourShown := String.ofList hourRaw
      .error s!"Invalid hour in natural schedule time: {hourShown} (expected 0..=23)"
    | some _, none =>
      let minuteShown := String.ofList minuteRaw
      .error s!"Invalid minute in natural schedule time: {minuteShown} (expected 0..=59)"
    | some hour, some minute =>
      if 23 < hour ∨ 59 < minute then
        .error s!"Invalid time in natural schedule: {shown} (expected hour 0..=23 and minute 0..=59)"
      else .ok (hour, minute)

def normalizeWeekday (raw : Chars) : Option String :=
  match String.ofList (trim raw) with
  | "monday" | "mon" => some "MON"
  | "tuesday" | "tue" | "tues" => some "TUE"
  | "wednesday" | "wed" => some "WED"
  | "thursday" | "thu" | "thurs" => some "THU"
  | "friday" | "fri" => some "FRI"
  | "saturday" | "sat" => some "SAT"
  | "sunday" | "sun" => some "SUN"
  | _ => none

/-- The fields of a time of day on some weekdays. -/
def fieldsAt (time : Nat × Nat) (weekday : String) : Chars :=
  let hour := time.1
  let minute := time.2
  s!"0 {minute} {hour} * * {weekday}".toList

/-- The fields of `every n minutes` and `every n hours`. -/
def normalizeInterval (expression : Chars) : List Chars → Except String (Option Chars)
  | [count, unit] =>
    match parseU32 count with
    | none =>
      let shown := String.ofList expression
      .error s!"Invalid natural schedule interval in expression: {shown}"
    | some interval =>
      if unit = "minutes".toList ∨ unit = "minute".toList then
        if 1 ≤ interval ∧ interval ≤ 59 then .ok (some s!"0 */{interval} * * * *".toList)
        else .error s!"Invalid minute interval in natural schedule: {interval} (expected 1..=59)"
      else if unit = "hours".toList ∨ unit = "hour".toList then
        if 1 ≤ interval ∧ interval ≤ 23 then .ok (some s!"0 0 */{interval} * * *".toList)
        else .error s!"Invalid hour interval in natural schedule: {interval} (expected 1..=23)"
      else .ok none
  | _ => .ok none

/-- The fields of `weekly on` a day and a time. -/
def normalizeWeekly (normalized : Chars) : Except String (Option Chars) :=
  match ("weekly on ".toList.isPrefixOf? normalized).bind (splitOncePattern " at ".toList) with
  | none => .ok none
  | some (weekdayRaw, timeRaw) =>
    match normalizeWeekday weekdayRaw with
    | none =>
      let shown := String.ofList weekdayRaw
      .error s!"Invalid weekday in natural schedule: {shown}"
    | some weekday => (parseHhmm24 timeRaw).map fun time => some (fieldsAt time weekday)

def normalizeNaturalExpression (expression : Chars) : Except String (Option Chars) :=
  let normalized := toAsciiLowercase (trim expression)
  if normalized = "hourly".toList then .ok (some "0 0 * * * *".toList)
  else if normalized = "daily".toList ∨ normalized = "every day".toList then
    .ok (some "0 0 0 * * *".toList)
  else if let some rawTime := "daily at ".toList.isPrefixOf? normalized then
    (parseHhmm24 rawTime).map fun time => some (fieldsAt time "*")
  else if let some rawTime := "every day at ".toList.isPrefixOf? normalized then
    (parseHhmm24 rawTime).map fun time => some (fieldsAt time "*")
  else if let some rawTime := "weekdays at ".toList.isPrefixOf? normalized then
    (parseHhmm24 rawTime).map fun time => some (fieldsAt time "MON-FRI")
  else if let some rest := "every ".toList.isPrefixOf? normalized then
    normalizeInterval expression (splitWhitespace rest)
  else normalizeWeekly normalized

def normalizeExpression (expression : Chars) : Except String Chars := do
  let expression := trim expression
  if expression = [] then throw "Invalid cron expression: value cannot be empty"
  match ← normalizeNaturalExpression expression with
  | some natural => return natural
  | none =>
    let fieldCount := (splitWhitespace expression).length
    if fieldCount = 5 then return "0 ".toList ++ expression
    else if fieldCount = 6 ∨ fieldCount = 7 then return expression
    else
      let shown := String.ofList expression
      throw s!"Invalid cron expression: {shown} (expected 5, 6, or 7 fields, got {fieldCount})"

end Normalization

section NextRun

variable (readSchedule : Chars → Option Schedule)

/-- The schedule that an expression is read as. -/
def scheduleOf (expression : Chars) : Except String Schedule :=
  match normalizeExpression expression with
  | .error message => .error message
  | .ok normalized =>
    match readSchedule normalized with
    | some schedule => .ok schedule
    | none =>
      let shown := String.ofList expression
      .error s!"Invalid cron expression: {shown}"

def nextRunFor (expression : Chars) (moment : Time) : Except String Time :=
  match scheduleOf readSchedule expression with
  | .error message => .error message
  | .ok schedule =>
    match schedule.after moment with
    | some next => .ok next
    | none =>
      let shown := String.ofList expression
      .error s!"No future occurrence for expression: {shown}"

/-- A moment is one that an expression names. -/
def OccursAt (expression : Chars) (time : Time) : Prop :=
  ∃ schedule, scheduleOf readSchedule expression = .ok schedule ∧ schedule.Occurs time

variable {readSchedule} {expression : Chars} {moment next time : Time}

section

variable (computed : nextRunFor readSchedule expression moment = .ok next)
include computed

/-- The next run is the first occurrence after the moment. -/
theorem nextRunFor_ok :
    IsLeast {time | OccursAt readSchedule expression time ∧ moment < time} next := by
  rw [nextRunFor] at computed
  cases found : scheduleOf readSchedule expression with
  | error message =>
    rw [found] at computed
    cases computed
  | ok schedule =>
    simp only [found] at computed
    cases first : schedule.after moment with
    | none =>
      rw [first] at computed
      cases computed
    | some next' =>
      simp only [first] at computed
      cases computed
      obtain ⟨⟨occurs, later⟩, least⟩ := schedule.after_some moment _ first
      refine ⟨⟨⟨schedule, found, occurs⟩, later⟩, ?_⟩
      rintro other ⟨⟨same, foundSame, otherOccurs⟩, otherLater⟩
      cases found.symm.trans foundSame
      exact least ⟨otherOccurs, otherLater⟩

theorem occursAt_nextRun :
    OccursAt readSchedule expression next := (nextRunFor_ok computed).1.1

theorem lt_nextRun :
    moment < next := (nextRunFor_ok computed).1.2

end

/-- An expression with a later occurrence has a next run. -/
theorem nextRunFor_of_later (occurs : OccursAt readSchedule expression time) (later : moment < time) :
    ∃ next, nextRunFor readSchedule expression moment = .ok next := by
  obtain ⟨schedule, found, occurs⟩ := occurs
  cases first : schedule.after moment with
  | none => exact absurd (schedule.after_none moment time first occurs) (not_le.mpr later)
  | some next => exact ⟨next, by simp only [nextRunFor, found, first]⟩

/-- An expression that names a moment after this one. -/
def HasLater (readSchedule : Chars → Option Schedule) (expression : Chars) (moment : Time) : Prop :=
  ∃ time, OccursAt readSchedule expression time ∧ moment < time

theorem hasLater_iff : HasLater readSchedule expression moment ↔
    (nextRunFor readSchedule expression moment).isOk = true := by
  constructor
  · rintro ⟨time, occurs, later⟩
    obtain ⟨next, computed⟩ := nextRunFor_of_later occurs later
    rw [computed]
    rfl
  · intro found
    cases computed : nextRunFor readSchedule expression moment with
    | error message =>
      rw [computed] at found
      cases found
    | ok next => exact ⟨next, (nextRunFor_ok computed).1⟩

end NextRun

section Samples

/-- A schedule that repeats. -/
def Schedule.every (period : Time) (positive : 0 < period) : Schedule where
  Occurs time := time % period = 0
  after moment := some ((moment / period + 1) * period)
  after_some := by
    rintro moment _ ⟨⟩
    refine ⟨⟨Int.mul_emod_left _ _, Int.lt_ediv_add_one_mul_self moment positive⟩, ?_⟩
    rintro time ⟨occurs, later⟩
    obtain ⟨count, rfl⟩ := Int.dvd_of_emod_eq_zero occurs
    rw [mul_comm period]
    refine mul_le_mul_of_nonneg_right (Int.add_one_le_iff.mpr ?_) positive.le
    exact Int.ediv_lt_of_lt_mul positive (by rwa [mul_comm])
  after_none := by
    rintro _ _ ⟨⟩

/-- A schedule with one occurrence. -/
def Schedule.once (only : Time) : Schedule where
  Occurs time := time = only
  after moment := if moment < only then some only else none
  after_some := by
    intro moment next found
    obtain ⟨before, ⟨⟩⟩ := Option.ite_none_right_eq_some.mp found
    exact ⟨⟨rfl, before⟩, fun time facts => facts.1.ge⟩
  after_none := by
    rintro moment time found rfl
    exact not_lt.mp fun before => Option.some_ne_none _ ((if_pos before).symm.trans found)

def hour : Time := 3600000000

/-- The first moment of 2027. -/
def newYear : Time := 1798761600000000

/-- The schedules of the samples. -/
def sampleSchedule (normalized : Chars) : Option Schedule :=
  if normalized = "0 0 * * * *".toList then some (.every hour (by decide))
  else if normalized = "0 0 0 * * *".toList then some (.every (24 * hour) (by decide))
  else if normalized = "0 0 0 1 1 * 2027".toList then some (.once newYear)
  else none

end Samples

end Asterel.Cron
