import Asterel.Platform.CronMeaning
import Mathlib.Data.Int.LeastGreatest
import Mathlib.Tactic.Linarith
import Mathlib.Tactic.Ring

/-!
# Intervals between runs

A step through the minutes of an hour starts again in every hour, so the last run of an hour and
the first of the next one are a step apart only if the step divides the hour. The same holds for
the hours of a day.
-/

namespace Asterel.Cron

open Library Library.Calendar

variable {readSchedule : Chars → Option Schedule} {start stop : Time} {expression : Chars}
  {schedule : Schedule} {time : Time}

section Steps

/-- Moments that are whole units, and every so many units within each cycle. -/
def Steps (unit cycle count time : Int) : Prop :=
  ∃ steps, time = unit * steps ∧ steps % cycle % count = 0

variable {unit cycle count : Int}

theorem apart_of_dvd (positive : 0 < unit) (counted : 0 < count) (divides : count ∣ cycle)
    (found : scheduleOf readSchedule expression = .ok schedule)
    (occurs : ∀ time, schedule.Occurs time ↔ start ≤ time ∧ time < stop ∧ Steps unit cycle count time) :
    Apart readSchedule expression (count * unit) := by
  intro moment first second toFirst toSecond
  obtain ⟨⟨runs, _⟩, _⟩ := (nextRunFor_eq_ok_iff found).mp toFirst
  obtain ⟨⟨again, later⟩, least⟩ := (nextRunFor_eq_ok_iff found).mp toSecond
  obtain ⟨known, _, steps, rfl, even⟩ := (occurs first).mp runs
  obtain ⟨_, inYears, others, rfl, evenAgain⟩ := (occurs second).mp again
  rw [Int.emod_emod_of_dvd _ divides] at even evenAgain
  have before : steps < others := lt_of_mul_lt_mul_left later positive.le
  obtain ⟨few, rfl⟩ := Int.dvd_of_emod_eq_zero even
  obtain ⟨many, rfl⟩ := Int.dvd_of_emod_eq_zero evenAgain
  have fewer : few + 1 ≤ many := Int.add_one_le_iff.mpr (lt_of_mul_lt_mul_left before counted.le)
  have atLeast : unit * (count * (few + 1)) ≤ unit * (count * many) :=
    mul_le_mul_of_nonneg_left (mul_le_mul_of_nonneg_left fewer counted.le) positive.le
  have forward : unit * (count * few) < unit * (count * (few + 1)) :=
    mul_lt_mul_of_pos_left (mul_lt_mul_of_pos_left (lt_add_one few) counted) positive
  have step : schedule.Occurs (unit * (count * (few + 1))) := by
    rw [occurs]
    refine ⟨known.trans forward.le, lt_of_le_of_lt atLeast inYears, _, rfl, ?_⟩
    rw [Int.emod_emod_of_dvd _ divides, Int.mul_emod_right]
  have same := le_antisymm (least ⟨step, forward⟩) atLeast
  rw [same]
  ring

theorem dvd_of_apart (positive : 0 < unit) (counted : 0 < count) (short : count < cycle) {cycles : Int}
    (low : start ≤ unit * (cycle * cycles)) (high : unit * (cycle * (cycles + 1)) < stop)
    (found : scheduleOf readSchedule expression = .ok schedule)
    (occurs : ∀ time, schedule.Occurs time ↔ start ≤ time ∧ time < stop ∧ Steps unit cycle count time)
    (apart : Apart readSchedule expression (count * unit)) : count ∣ cycle := by
  by_contra uneven
  have whole := Int.mul_ediv_add_emod cycle count
  have rest_lt := Int.emod_lt_of_pos cycle counted
  have rest_pos : 0 < cycle % count :=
    lt_of_le_of_ne (Int.emod_nonneg _ counted.ne') fun zero => uneven (Int.dvd_of_emod_eq_zero zero.symm)
  have turns : 0 ≤ cycle / count := Int.ediv_nonneg (counted.trans short).le counted.le
  -- The last step within the cycle, and the start of the next one.
  have last_nonneg : 0 ≤ count * (cycle / count) := mul_nonneg counted.le turns
  have last_lt : count * (cycle / count) < cycle := by linarith
  have order : cycle * cycles + count * (cycle / count) < cycle * (cycles + 1) := by linarith
  have ordered := mul_lt_mul_of_pos_left order positive
  have lastRuns : schedule.Occurs (unit * (cycle * cycles + count * (cycle / count))) := by
    rw [occurs]
    refine ⟨low.trans (mul_le_mul_of_nonneg_left (le_add_of_nonneg_right last_nonneg) positive.le),
      ordered.trans high, _, rfl, ?_⟩
    rw [Int.mul_add_emod_self_left, Int.emod_eq_of_lt last_nonneg last_lt, Int.mul_emod_right]
  have startRuns : schedule.Occurs (unit * (cycle * (cycles + 1))) := by
    rw [occurs]
    refine ⟨low.trans (mul_le_mul_of_nonneg_left ?_ positive.le), high, _, rfl, ?_⟩
    · linarith
    · rw [Int.mul_emod_right, Int.zero_emod]
  have toLast : nextRunFor readSchedule expression (unit * (cycle * cycles + count * (cycle / count)) - 1) =
      .ok (unit * (cycle * cycles + count * (cycle / count))) :=
    (nextRunFor_eq_ok_iff found).mpr
      ⟨⟨lastRuns, Int.sub_one_lt_of_le le_rfl⟩, fun _ later => Int.sub_one_lt_iff.mp later.2⟩
  have toStart : nextRunFor readSchedule expression (unit * (cycle * cycles + count * (cycle / count))) =
      .ok (unit * (cycle * (cycles + 1))) := by
    refine (nextRunFor_eq_ok_iff found).mpr ⟨⟨startRuns, ordered⟩, ?_⟩
    -- Nothing runs between the last step of a cycle and the next cycle.
    rintro other ⟨runs, later⟩
    obtain ⟨_, _, steps, rfl, even⟩ := (occurs other).mp runs
    have after := lt_of_mul_lt_mul_left later positive.le
    apply mul_le_mul_of_nonneg_left _ positive.le
    by_contra early
    rw [not_le] at early
    have within : steps % cycle = steps - cycle * cycles := by
      have split : steps = cycle * cycles + (steps - cycle * cycles) := by ring
      conv_lhs => rw [split]
      rw [Int.mul_add_emod_self_left, Int.emod_eq_of_lt (by linarith) (by linarith)]
    rw [within] at even
    obtain ⟨turn, offset⟩ := Int.dvd_of_emod_eq_zero even
    have beyond : cycle / count < turn := by
      apply lt_of_mul_lt_mul_left _ counted.le
      rw [← offset]
      linarith
    have nextTurn : count * (cycle / count + 1) ≤ count * turn :=
      mul_le_mul_of_nonneg_left (Int.add_one_le_iff.mpr beyond) counted.le
    linarith
  have distance := apart _ _ _ toLast toStart
  have equal : unit * (cycle * (cycles + 1)) =
      unit * (cycle * cycles + count * (cycle / count) + count) := by
    rw [distance]
    ring
  have steps := mul_left_cancel₀ positive.ne' equal
  linarith

end Steps

section Texts

variable {count : Nat}

theorem has_stepField {first last value : Nat} : Field.Has first last (stepField count) value ↔
    first ≤ value ∧ value ≤ last ∧ (value - first) % count = 0 := by
  constructor
  · rintro ⟨item, member, has⟩
    obtain rfl := List.mem_singleton.mp member
    exact has
  · intro has
    exact ⟨_, List.mem_singleton.mpr rfl, has⟩

theorem has_anything {first last value : Nat} (low : first ≤ value) (high : value ≤ last) :
    Field.Has first last (stepField 1) value :=
  has_stepField.mpr ⟨low, high, Nat.mod_one _⟩

/-- A moment within the minutes and hours of some fields for which every day is listed. -/
theorem at_any_day {minutes hours : Field} :
    (⟨minutes, hours, stepField 1, stepField 1, stepField 1⟩ : Crontab).At
        (⟨minutes, hours, stepField 1, stepField 1, stepField 1⟩ : Crontab).OnBoth time ↔
      time % minuteLength = 0 ∧ Field.Has 0 59 minutes (time / minuteLength % 60).toNat ∧
        Field.Has 0 23 hours (time / hour % 24).toNat := by
  unfold Crontab.At
  refine and_congr_right fun _ => and_congr_right fun _ => and_iff_left ?_
  obtain ⟨date, same⟩ := exists_date (time / dayLength)
  have days : date.day ≤ 31 := by
    refine date.day_le.trans ?_
    unfold monthLength
    split_ifs <;> omega
  exact ⟨date, same, has_anything date.month_pos date.month_le, has_anything date.day_pos days,
    has_anything (Nat.le_add_left 1 _) (weekday_lt _)⟩

theorem steps_iff {unit cycle time : Int} (positive : 0 < unit) (cyclic : 0 < cycle) :
    time % unit = 0 ∧ (time / unit % cycle).toNat % count = 0 ↔ Steps unit cycle count time := by
  have natural (steps : Int) : (steps % cycle).toNat % count = 0 ↔ steps % cycle % count = 0 := by
    conv_rhs => rw [← Int.toNat_of_nonneg (Int.emod_nonneg steps cyclic.ne')]
    exact_mod_cast Iff.rfl
  constructor
  · rintro ⟨whole, even⟩
    exact ⟨time / unit, (Int.mul_ediv_cancel' (Int.dvd_of_emod_eq_zero whole)).symm, (natural _).mp even⟩
  · rintro ⟨steps, rfl, even⟩
    rw [Int.mul_ediv_cancel_left _ positive.ne']
    exact ⟨Int.mul_emod_right _ _, (natural steps).mpr even⟩

theorem minuteLength_pos : 0 < minuteLength := by decide

theorem hour_pos : 0 < hour := by decide

theorem toNat_emod_le (number : Int) {bound : Nat} (positive : 0 < bound) :
    (number % bound).toNat ≤ bound - 1 := by
  have below := Int.emod_lt_of_pos number (Int.natCast_pos.mpr positive)
  omega

theorem occurs_minutes : FieldsOccur zeroField
    ⟨stepField count, stepField 1, stepField 1, stepField 1, stepField 1⟩ time ↔
      Steps minuteLength 60 count time := by
  have anyHour : Field.Has 0 23 (stepField 1) (time / hour % 24).toNat :=
    has_anything (Nat.zero_le _) (toNat_emod_le _ (Nat.succ_pos 23))
  have inHour : (time / minuteLength % 60).toNat ≤ 59 := toNat_emod_le _ (Nat.succ_pos 59)
  rw [fieldsOccur_zero, at_any_day, has_stepField, and_iff_left anyHour, Nat.sub_zero,
    and_iff_right (Nat.zero_le _), and_iff_right inHour]
  exact steps_iff minuteLength_pos (by decide)

theorem occurs_hours : FieldsOccur zeroField
    ⟨zeroField, stepField count, stepField 1, stepField 1, stepField 1⟩ time ↔
      Steps hour 24 count time := by
  have whole : time % minuteLength = 0 ∧ Field.Has 0 59 zeroField (time / minuteLength % 60).toNat ↔
      time % hour = 0 := by
    rw [has_zeroField]
    have hourly (time : Int) : time % 60000000 = 0 ∧ (time / 60000000 % 60).toNat = 0 ↔
        time % 3600000000 = 0 := by omega
    exact hourly time
  have inDay : (time / hour % 24).toNat ≤ 23 := toNat_emod_le _ (Nat.succ_pos 23)
  rw [fieldsOccur_zero, at_any_day, ← and_assoc, whole, has_stepField, Nat.sub_zero,
    and_iff_right (Nat.zero_le _), and_iff_right inDay]
  exact steps_iff hour_pos (by decide)

theorem fits_stepField {first last count : Nat} (ordered : first ≤ last) (counted : 1 ≤ count)
    (within : count ≤ last) : Field.Fits first last (stepField count) := by
  refine ⟨List.cons_ne_nil _ _, fun item member => ?_⟩
  obtain rfl := List.mem_singleton.mp member
  exact ⟨le_refl _, ordered, le_refl _, counted, within⟩

theorem fits_anything : Field.Fits 0 23 (stepField 1) ∧ Field.Fits 1 31 (stepField 1) ∧
    Field.Fits 1 12 (stepField 1) ∧ Field.Fits 1 7 (stepField 1) ∧ Field.Fits 0 59 zeroField := by
  decide

theorem scheduleOf_normalized {text : Chars} (normalized : normalizeExpression expression = .ok text)
    (found : readSchedule text = some schedule) : scheduleOf readSchedule expression = .ok schedule := by
  unfold scheduleOf
  rw [normalized]
  dsimp only
  rw [found]

/-- The runs of a number of minutes. -/
theorem scheduleOf_minutes (crate : CronCrate readSchedule start stop)
    (every : Every expression minuteUnits count) (counted : 1 ≤ count) (short : count ≤ 59) :
    ∃ schedule, scheduleOf readSchedule expression = .ok schedule ∧ ∀ time, schedule.Occurs time ↔
      start ≤ time ∧ time < stop ∧ Steps minuteLength 60 count time := by
  obtain ⟨hours, days, months, weekdays, zero⟩ := fits_anything
  obtain ⟨schedule, found, occurs⟩ := crate.reads _ _ _ (readSix_minutes count (Nat.lt_succ_of_le short))
    zero ⟨fits_stepField (Nat.zero_le _) counted short, hours, days, months⟩ weekdays
  refine ⟨schedule, scheduleOf_normalized ((normalizeExpression_minutes every).1 ⟨counted, short⟩) found,
    fun time => ?_⟩
  rw [occurs, occurs_minutes]

theorem scheduleOf_hours (crate : CronCrate readSchedule start stop)
    (every : Every expression hourUnits count) (counted : 1 ≤ count) (short : count ≤ 23) :
    ∃ schedule, scheduleOf readSchedule expression = .ok schedule ∧ ∀ time, schedule.Occurs time ↔
      start ≤ time ∧ time < stop ∧ Steps hour 24 count time := by
  obtain ⟨_, days, months, weekdays, zero⟩ := fits_anything
  obtain ⟨schedule, found, occurs⟩ := crate.reads _ _ _ (readSix_hours count (Nat.lt_succ_of_le short))
    zero ⟨zero, fits_stepField (Nat.zero_le _) counted short, days, months⟩ weekdays
  refine ⟨schedule, scheduleOf_normalized ((normalizeExpression_hours every).1 ⟨counted, short⟩) found,
    fun time => ?_⟩
  rw [occurs, occurs_hours]

/-- An interval is refused, or it is even where it divides its cycle. -/
theorem apart_iff {unit : Int} {cycle last : Nat} {cycles : Int} (positive : 0 < unit)
    (whole : cycle = last + 1) (low : start ≤ unit * (cycle * cycles))
    (high : unit * (cycle * (cycles + 1)) < stop) (accepted : 1 ≤ count → count ≤ last → ∃ schedule,
      scheduleOf readSchedule expression = .ok schedule ∧ ∀ time, schedule.Occurs time ↔
        start ≤ time ∧ time < stop ∧ Steps unit cycle count time)
    (refused : ¬ (1 ≤ count ∧ count ≤ last) → ∃ message, normalizeExpression expression = .error message) :
    Apart readSchedule expression (count * unit) ↔ (1 ≤ count ∧ count ≤ last → count ∣ cycle) := by
  by_cases inside : 1 ≤ count ∧ count ≤ last
  · obtain ⟨schedule, found, occurs⟩ := accepted inside.1 inside.2
    have counted : (0 : Int) < count := Int.natCast_pos.mpr inside.1
    rw [← Int.natCast_dvd_natCast]
    constructor
    · intro apart _
      have short : (count : Int) < cycle := by omega
      exact dvd_of_apart positive counted short low high found occurs apart
    · intro divides
      exact apart_of_dvd positive counted (divides inside) found occurs
  · refine iff_of_true (fun moment first second computed => ?_) fun within => absurd within inside
    obtain ⟨message, refusal⟩ := refused inside
    have failed : scheduleOf readSchedule expression = .error message := by
      unfold scheduleOf
      rw [refusal]
    exact absurd computed (nextRunFor_refused failed)

/-- What schedules mean, exactly: a crontab line is followed if its days agree, and intervals are
even if they divide the hour or the day. -/
theorem schedules_mean_iff (crate : CronCrate readSchedule start stop) :
    (∀ expression fields, readCrontab expression = some fields → fields.Valid →
      (FollowsCrontab readSchedule start expression fields ↔ DaysAgree fields)) ∧
    (∀ expression count, Every expression minuteUnits count →
      (Apart readSchedule expression (count * minuteLength) ↔ (1 ≤ count ∧ count ≤ 59 → count ∣ 60))) ∧
    ∀ expression count, Every expression hourUnits count →
      (Apart readSchedule expression (count * hour) ↔ (1 ≤ count ∧ count ≤ 23 → count ∣ 24)) := by
  refine ⟨fun expression fields read valid => ?_, fun expression count every => ?_,
    fun expression count every => ?_⟩
  · exact ⟨daysAgree_of_followsCrontab crate read valid, followsCrontab_of_daysAgree crate read valid⟩
  · have begins : minuteLength * ((60 : Nat) * (24 * yearStart 2000)) = dayLength * yearStart 2000 := by
      decide
    have ends : minuteLength * ((60 : Nat) * (24 * yearStart 2000 + 1)) < dayLength * yearStart 2056 := by
      decide
    exact apart_iff minuteLength_pos rfl (begins ▸ crate.covers.1.le) (ends.trans_le crate.covers.2)
      (scheduleOf_minutes crate every) (normalizeExpression_minutes every).2
  · have begins : hour * ((24 : Nat) * yearStart 2000) = dayLength * yearStart 2000 := by decide
    have ends : hour * ((24 : Nat) * (yearStart 2000 + 1)) < dayLength * yearStart 2056 := by decide
    exact apart_iff hour_pos rfl (begins ▸ crate.covers.1.le) (ends.trans_le crate.covers.2)
      (scheduleOf_hours crate every) (normalizeExpression_hours every).2

end Texts

section Crate

/-- The schedule of some moments, the first of which after another one exists. -/
noncomputable def Schedule.ofMoments (Occurs : Time → Prop) : Schedule where
  Occurs := Occurs
  after moment := by
    classical
    exact if found : ∃ next, IsLeast {time | Occurs time ∧ moment < time} next then some found.choose
      else none
  after_some := by
    intro moment next found
    split_ifs at found with first
    cases found
    exact first.choose_spec
  after_none := by
    intro moment time found occurs
    split_ifs at found with first
    by_contra later
    obtain ⟨next, least, earliest⟩ := Int.exists_least_of_bdd
      (P := fun time => Occurs time ∧ moment < time) ⟨moment, fun _ facts => facts.2.le⟩
      ⟨time, occurs, not_le.mp later⟩
    exact first ⟨next, least, fun other facts => earliest other facts⟩

/-- The library, with the years from 1970 to 2100. -/
noncomputable def librarySchedule (text : Chars) : Option Schedule :=
  match readSix text with
  | some (second, fields) =>
    if Field.Fits 0 59 second ∧ fields.DatesFit ∧ Field.Fits 1 7 fields.dayOfWeek then
      some (.ofMoments fun time => 0 ≤ time ∧ time < dayLength * yearStart 2101 ∧
        FieldsOccur second fields time)
    else none
  | none => none

theorem librarySchedule_crate : CronCrate librarySchedule 0 (dayLength * yearStart 2101) where
  covers := by decide
  reads text second fields read seconds dates weekdays := by
    refine ⟨.ofMoments fun time => 0 ≤ time ∧ time < dayLength * yearStart 2101 ∧
      FieldsOccur second fields time, ?_, fun time => Iff.rfl⟩
    rw [librarySchedule, read]
    dsimp only
    rw [if_pos ⟨seconds, dates, weekdays⟩]
  refuses text second fields read misfit := by
    rw [librarySchedule, read]
    dsimp only
    rw [if_neg fun fits => misfit fits.2.2]

/-- Half past nine on working days, by their names. -/
def workingDays : Crontab :=
  ⟨[⟨.point (.numeral 30), 1⟩], [⟨.point (.numeral 9), 1⟩], [⟨.all, 1⟩], [⟨.all, 1⟩],
    [⟨.range (.name 1) (.name 5), 1⟩]⟩

theorem working_days_followed : FollowsCrontab librarySchedule 0 "30 9 * * MON-FRI".toList workingDays := by
  have agree : DaysAgree workingDays := by
    refine Or.inr (Or.inr ?_)
    rw [if_neg (by decide)]
    decide
  exact ((schedules_mean_iff librarySchedule_crate).1 _ workingDays (by decide +kernel)
    (by decide +kernel)).mpr agree

/-- Nine o'clock on Mondays, which the library takes for Sundays. -/
def mondays : Crontab :=
  ⟨[⟨.point (.numeral 0), 1⟩], [⟨.point (.numeral 9), 1⟩], [⟨.all, 1⟩], [⟨.all, 1⟩],
    [⟨.point (.numeral 1), 1⟩]⟩

theorem mondays_are_sundays : ¬ ∀ (readSchedule : Chars → Option Schedule) (start stop : Time),
    CronCrate readSchedule start stop →
    (∀ expression fields, readCrontab expression = some fields → fields.Valid →
      FollowsCrontab readSchedule start expression fields) ∧
    (∀ expression count, Every expression minuteUnits count →
      Apart readSchedule expression (count * minuteLength)) ∧
    ∀ expression count, Every expression hourUnits count →
      Apart readSchedule expression (count * hour) := by
  intro always
  have read : readCrontab "0 9 * * 1".toList = some mondays := by decide +kernel
  have valid : mondays.Valid := by decide +kernel
  have follows := (always _ _ _ librarySchedule_crate).1 _ mondays read valid
  rcases daysAgree_of_followsCrontab librarySchedule_crate read valid follows with misfit | noDays | agree
  · exact misfit (by decide)
  · exact noDays 1 (by decide) (by decide) 1 (by decide) (by decide)
  · rw [if_neg (by decide)] at agree
    have sunday : mondays.OnNumbered 0 := by decide
    have notSunday : ¬ mondays.OnWeekday 0 := by decide
    exact notSunday ((agree 0 (by decide)).mp sunday)

end Crate

end Asterel.Cron
