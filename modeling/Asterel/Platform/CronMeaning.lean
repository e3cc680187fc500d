import Asterel.Platform.CronLines

/-!
# What schedules mean

A crontab line is handed on as it is, so it means what a crontab means where the two counts of
the weekdays and the two rules for the day fields agree. An interval is a step within the hour or
the day, so it is even where it divides it.
-/

namespace Asterel.Cron

open Library Library.Calendar

variable {readSchedule : Chars → Option Schedule} {start stop : Time} {expression : Chars}
  {fields : Crontab} {schedule : Schedule} {moment next time : Time}

/-- The next run is the earliest later minute that the crontab line names, for every moment in the
years that the library knows. -/
def FollowsCrontab (readSchedule : Chars → Option Schedule) (start : Time) (expression : Chars)
    (fields : Crontab) : Prop :=
  ∀ moment next, start ≤ moment → nextRunFor readSchedule expression moment = .ok next →
    IsLeast {time | fields.At fields.OnDay time ∧ moment < time} next

/-- Consecutive runs are this far apart. -/
def Apart (readSchedule : Chars → Option Schedule) (expression : Chars) (distance : Time) : Prop :=
  ∀ moment first second, nextRunFor readSchedule expression moment = .ok first →
    nextRunFor readSchedule expression first = .ok second → second = first + distance

/-- The library refuses the weekdays, no listed month has a listed day, or the days are the same
under both counts and both rules: if both day fields are restricted, each lists every day, and
else the weekdays do not depend on the count. -/
def DaysAgree (fields : Crontab) : Prop :=
  ¬ Field.Fits 1 7 fields.dayOfWeek ∨
  (∀ month ≤ 12, Field.Has 1 12 fields.month month → ∀ day ≤ longest month,
    ¬ Field.Has 1 31 fields.dayOfMonth day) ∨
  if fields.BothRestricted then
    (∀ month ≤ 12, Field.Has 1 12 fields.month month → ∀ day ≤ longest month, 1 ≤ day →
      Field.Has 1 31 fields.dayOfMonth day) ∧ ∀ weekday < 7, fields.OnNumbered weekday
  else ∀ weekday < 7, fields.OnNumbered weekday ↔ fields.OnWeekday weekday

section Runs

theorem nextRunFor_eq_ok_iff (found : scheduleOf readSchedule expression = .ok schedule) :
    nextRunFor readSchedule expression moment = .ok next ↔
      IsLeast {time | schedule.Occurs time ∧ moment < time} next := by
  rw [nextRunFor, found]
  dsimp only
  cases first : schedule.after moment with
  | none =>
    have never := fun time => schedule.after_none moment time first
    refine iff_of_false (by intro same; cases same) fun least => ?_
    exact absurd least.1.2 (not_lt_of_ge (never next least.1.1))
  | some next' =>
    have least := schedule.after_some moment next' first
    constructor
    · intro same
      cases same
      exact least
    · intro other
      rw [least.unique other]

theorem nextRunFor_refused {message : String} (refused : scheduleOf readSchedule expression = .error message) :
    nextRunFor readSchedule expression moment ≠ .ok next := by
  rw [nextRunFor, refused]
  intro same
  cases same

end Runs

section Times

/-- The moment a minute of a day begins. -/
def instant (date : Date) (hours minutes : Nat) : Time :=
  dayLength * date.number + hour * hours + minuteLength * minutes

variable {date : Date} {hours minutes : Nat}

theorem instant_parts (inDay : hours < 24) (inHour : minutes < 60) :
    instant date hours minutes % minuteLength = 0 ∧
      (instant date hours minutes / minuteLength % 60).toNat = minutes ∧
      (instant date hours minutes / hour % 24).toNat = hours ∧
      instant date hours minutes / dayLength = date.number := by
  have parts (number : Int) : let time := 24 * 3600000000 * number + 3600000000 * (hours : Int) +
      60000000 * (minutes : Int)
      time % 60000000 = 0 ∧ (time / 60000000 % 60).toNat = minutes ∧
        (time / 3600000000 % 24).toNat = hours ∧ time / (24 * 3600000000) = number := by
    dsimp only
    omega
  exact parts date.number

theorem at_instant {rule : Date → Prop} (inDay : hours < 24) (inHour : minutes < 60) :
    fields.At rule (instant date hours minutes) ↔ Field.Has 0 59 fields.minute minutes ∧
      Field.Has 0 23 fields.hour hours ∧ Field.Has 1 12 fields.month date.month ∧ rule date := by
  obtain ⟨whole, minute, hour, day⟩ := @instant_parts date hours minutes inDay inHour
  unfold Crontab.At
  rw [whole, minute, hour, day]
  constructor
  · rintro ⟨_, minuteHas, hourHas, other, same, month, rules⟩
    obtain rfl := number_injective same
    exact ⟨minuteHas, hourHas, month, rules⟩
  · rintro ⟨minuteHas, hourHas, month, rules⟩
    exact ⟨rfl, minuteHas, hourHas, date, rfl, month, rules⟩

/-- The minutes of a day come before the next year. -/
theorem instant_lt {year : Int} (inDay : hours < 24) (inHour : minutes < 60) (before : date.year < year) :
    instant date hours minutes < dayLength * yearStart year := by
  have early := (number_bounds date).2.trans_le
    (yearStart_strictMono.monotone (Int.add_one_le_iff.mpr before))
  have ordered (number limit : Int) (before : number < limit) :
      24 * 3600000000 * number + 3600000000 * (hours : Int) + 60000000 * (minutes : Int) <
        24 * 3600000000 * limit := by omega
  exact ordered _ _ early

theorem le_instant {year : Int} (after : year ≤ date.year) :
    dayLength * yearStart year ≤ instant date hours minutes := by
  have late := (yearStart_strictMono.monotone after).trans (number_bounds date).1
  have ordered (number limit : Int) (after : limit ≤ number) :
      24 * 3600000000 * limit ≤
        24 * 3600000000 * number + 3600000000 * (hours : Int) + 60000000 * (minutes : Int) := by omega
  exact ordered _ _ late

theorem has_zeroField {value : Nat} : Field.Has 0 59 zeroField value ↔ value = 0 := by
  constructor
  · rintro ⟨item, member, _, high, _⟩
    obtain rfl := List.mem_singleton.mp member
    exact Nat.le_zero.mp high
  · rintro rfl
    decide

/-- A second of the library that is zero makes whole minutes. -/
theorem fieldsOccur_zero : FieldsOccur zeroField fields time ↔ fields.At fields.OnBoth time := by
  have seconds : time % 1000000 = 0 ∧ Field.Has 0 59 zeroField (time / 1000000 % 60).toNat ↔
      time % minuteLength = 0 := by
    rw [has_zeroField]
    have whole (time : Int) : time % 1000000 = 0 ∧ (time / 1000000 % 60).toNat = 0 ↔
        time % 60000000 = 0 := by
      omega
    exact whole time
  unfold FieldsOccur Crontab.At
  rw [← and_assoc, seconds]

end Times

section Values

theorem has_low {first last : Nat} {field : Field} (fits : Field.Fits first last field) :
    ∃ value, first ≤ value ∧ value ≤ last ∧ Field.Has first last field value := by
  obtain ⟨nonempty, items⟩ := fits
  obtain ⟨item, member⟩ := List.exists_mem_of_ne_nil field nonempty
  obtain ⟨low, ordered, high, _⟩ := items item member
  refine ⟨item.span.low first, low, ordered.trans high, item, member, le_refl _, ordered, ?_⟩
  rw [Nat.sub_self, Nat.zero_mod]

theorem bounds_of_has {first last value : Nat} {field : Field} (fits : Field.Fits first last field)
    (has : Field.Has first last field value) : first ≤ value ∧ value ≤ last := by
  obtain ⟨item, member, low, high, _⟩ := has
  obtain ⟨first_le, _, le_last, _⟩ := fits.2 item member
  exact ⟨first_le.trans low, high.trans le_last⟩

end Values

section Crontabs

/-- The runs of a crontab line in the library: every field has to match. -/
theorem scheduleOf_crontab (crate : CronCrate readSchedule start stop)
    (read : readCrontab expression = some fields) (valid : fields.Valid) :
    (Field.Fits 1 7 fields.dayOfWeek → ∃ schedule, scheduleOf readSchedule expression = .ok schedule ∧
      ∀ time, schedule.Occurs time ↔ start ≤ time ∧ time < stop ∧ fields.At fields.OnBoth time) ∧
    (¬ Field.Fits 1 7 fields.dayOfWeek →
      ∃ message, scheduleOf readSchedule expression = .error message) := by
  obtain ⟨normalized, six⟩ := normalizeExpression_crontab read
  unfold scheduleOf
  rw [normalized]
  dsimp only
  constructor
  · intro fits
    obtain ⟨schedule, found, occurs⟩ := crate.reads _ _ _ six (by decide) valid.1 fits
    refine ⟨schedule, by rw [found], fun time => ?_⟩
    rw [occurs, fieldsOccur_zero]
  · intro misfit
    exact ⟨_, by rw [crate.refuses _ _ _ six misfit]⟩

theorem monthLength_le_longest (year : Int) (month : Nat) : monthLength year month ≤ longest month := by
  have leap : isLeap 2000 = true := rfl
  unfold longest monthLength
  simp only [leap, if_true]
  split_ifs <;> omega

/-- No listed day is a day of a listed month, so there are no runs. -/
theorem not_at_of_no_days
    (none_ : ∀ month ≤ 12, Field.Has 1 12 fields.month month → ∀ day ≤ longest month,
      ¬ Field.Has 1 31 fields.dayOfMonth day) : ¬ fields.At fields.OnBoth time := by
  rintro ⟨_, _, _, date, _, month, day, _⟩
  exact none_ date.month date.month_le month date.day
    (date.day_le.trans (monthLength_le_longest date.year date.month)) day

/-- Days on which both rules agree. -/
theorem onBoth_iff_onDay (date : Date) (month : Field.Has 1 12 fields.month date.month)
    (agree : if fields.BothRestricted then
      (∀ month ≤ 12, Field.Has 1 12 fields.month month → ∀ day ≤ longest month, 1 ≤ day →
        Field.Has 1 31 fields.dayOfMonth day) ∧ ∀ weekday < 7, fields.OnNumbered weekday
      else ∀ weekday < 7, fields.OnNumbered weekday ↔ fields.OnWeekday weekday) :
    fields.OnBoth date ↔ fields.OnDay date := by
  unfold Crontab.OnBoth Crontab.OnDay
  dsimp only
  split_ifs at agree with both
  · have day := agree.1 date.month date.month_le month date.day
      (date.day_le.trans (monthLength_le_longest date.year date.month)) date.day_pos
    have inWeek := agree.2 _ (weekday_lt date.number)
    exact iff_of_true ⟨day, inWeek⟩ (Or.inl ⟨both, Or.inl day⟩)
  · rw [agree _ (weekday_lt date.number), or_iff_right fun restricted => both restricted.1,
      and_iff_right both]

theorem followsCrontab_of_daysAgree (crate : CronCrate readSchedule start stop)
    (read : readCrontab expression = some fields) (valid : fields.Valid) (agree : DaysAgree fields) :
    FollowsCrontab readSchedule start expression fields := by
  obtain ⟨accepted, refused⟩ := scheduleOf_crontab crate read valid
  intro moment next known computed
  by_cases fits : Field.Fits 1 7 fields.dayOfWeek
  · obtain ⟨schedule, found, occurs⟩ := accepted fits
    obtain ⟨⟨runs, later⟩, least⟩ := (nextRunFor_eq_ok_iff found).mp computed
    obtain ⟨started, inside, at_⟩ := (occurs next).mp runs
    rcases agree with misfit | noDays | agree
    · exact absurd fits misfit
    · exact absurd at_ (not_at_of_no_days noDays)
    · have same : ∀ time, fields.At fields.OnBoth time ↔ fields.At fields.OnDay time := by
        intro time
        unfold Crontab.At
        refine and_congr_right fun _ => and_congr_right fun _ => and_congr_right fun _ =>
          exists_congr fun date => and_congr_right fun _ => and_congr_right fun month => ?_
        exact onBoth_iff_onDay date month agree
      refine ⟨⟨(same next).mp at_, later⟩, fun other ⟨named, afterwards⟩ => ?_⟩
      rcases lt_or_ge other stop with within | beyond
      · exact least ⟨(occurs other).mpr ⟨known.trans afterwards.le, within, (same other).mpr named⟩,
          afterwards⟩
      · exact inside.le.trans beyond
  · obtain ⟨message, refusal⟩ := refused fits
    exact absurd computed (nextRunFor_refused refusal)

/-- A line that is followed names the same minutes under both rules, before any later run. -/
theorem at_iff_of_follows (found : scheduleOf readSchedule expression = .ok schedule)
    (occurs : ∀ time, schedule.Occurs time ↔ start ≤ time ∧ time < stop ∧ fields.At fields.OnBoth time)
    (follows : FollowsCrontab readSchedule start expression fields) {later : Time} (known : start < time)
    (before : time ≤ later) (runs : schedule.Occurs later) :
    fields.At fields.OnBoth time ↔ fields.At fields.OnDay time := by
  have previous : time - 1 < later := lt_of_lt_of_le (Int.sub_one_lt_of_le le_rfl) before
  have named : OccursAt readSchedule expression later := ⟨schedule, found, runs⟩
  obtain ⟨next, computed⟩ := nextRunFor_of_later named previous
  obtain ⟨⟨nextRuns, after⟩, least⟩ := (nextRunFor_eq_ok_iff found).mp computed
  obtain ⟨⟨nextNamed, _⟩, earliest⟩ := follows (time - 1) next (Int.le_sub_one_of_lt known) computed
  have ahead : time - 1 < time := Int.sub_one_lt_of_le le_rfl
  have notBefore : time ≤ next := Int.sub_one_lt_iff.mp after
  have inYears := (occurs later).mp runs
  constructor
  · intro at_
    have reached : next ≤ time :=
      least ⟨(occurs time).mpr ⟨known.le, lt_of_le_of_lt before inYears.2.1, at_⟩, ahead⟩
    rw [le_antisymm notBefore reached]
    exact nextNamed
  · intro at_
    have reached : next ≤ time := earliest ⟨at_, ahead⟩
    rw [le_antisymm notBefore reached]
    exact ((occurs next).mp nextRuns).2.2

/-- In a line that is followed and has a run, the two rules agree on every weekday of every day of
the listed months. -/
theorem rules_agree (crate : CronCrate readSchedule start stop) (valid : fields.Valid)
    (found : scheduleOf readSchedule expression = .ok schedule)
    (occurs : ∀ time, schedule.Occurs time ↔ start ≤ time ∧ time < stop ∧ fields.At fields.OnBoth time)
    (follows : FollowsCrontab readSchedule start expression fields)
    (fits : Field.Fits 1 7 fields.dayOfWeek) {month day : Nat} (listedMonth : Field.Has 1 12 fields.month month)
    (listedDay : Field.Has 1 31 fields.dayOfMonth day) (day_le : day ≤ longest month) :
    ∀ date : Date, 2000 ≤ date.year → date.year < 2028 → Field.Has 1 12 fields.month date.month →
      (fields.OnBoth date ↔ fields.OnDay date) := by
  intro date low high listed
  obtain ⟨minutes, _, minutes_le, minuteHas⟩ := has_low valid.1.1
  obtain ⟨hours, _, hours_le, hourHas⟩ := has_low valid.1.2.1
  obtain ⟨numbered, numbered_pos, numbered_le, weekdayHas⟩ := has_low fits
  have inHour : minutes < 60 := Nat.lt_succ_of_le minutes_le
  have inDay : hours < 24 := Nat.lt_succ_of_le hours_le
  have months := bounds_of_has valid.1.2.2.2 listedMonth
  have days := bounds_of_has valid.1.2.2.1 listedDay
  have inWeek : numbered - 1 < 7 := by omega
  have second : 1 < 2 := Nat.one_lt_two
  -- A later run, in the next 28 years.
  obtain ⟨laterDate, rfl, rfl, falls, laterLow, laterHigh⟩ :=
    exists_weekday second months.1 months.2 days.1 day_le inWeek
  have onBoth : fields.OnBoth laterDate := by
    refine ⟨listedDay, ?_⟩
    rw [Crontab.OnNumbered, falls, Nat.sub_add_cancel numbered_pos]
    exact weekdayHas
  have known : start < instant date hours minutes := crate.covers.1.trans_le (le_instant low)
  have before : instant date hours minutes ≤ instant laterDate hours minutes :=
    (instant_lt inDay inHour high).le.trans (le_instant laterLow)
  have inYears : instant laterDate hours minutes < stop :=
    (instant_lt inDay inHour laterHigh).trans_le crate.covers.2
  have runs : schedule.Occurs (instant laterDate hours minutes) := by
    rw [occurs, at_instant inDay inHour]
    exact ⟨(known.trans_le before).le, inYears, minuteHas, hourHas, listedMonth, onBoth⟩
  have agree := at_iff_of_follows found occurs follows known before runs
  rw [at_instant inDay inHour, at_instant inDay inHour] at agree
  simpa only [minuteHas, hourHas, listed, true_and] using agree

theorem daysAgree_of_followsCrontab (crate : CronCrate readSchedule start stop)
    (read : readCrontab expression = some fields) (valid : fields.Valid)
    (follows : FollowsCrontab readSchedule start expression fields) : DaysAgree fields := by
  by_cases fits : Field.Fits 1 7 fields.dayOfWeek
  · by_cases some_ : ∃ month day, Field.Has 1 12 fields.month month ∧
        Field.Has 1 31 fields.dayOfMonth day ∧ day ≤ longest month
    · obtain ⟨month, day, listedMonth, listedDay, day_le⟩ := some_
      obtain ⟨schedule, found, occurs⟩ := (scheduleOf_crontab crate read valid).1 fits
      have agree := rules_agree crate valid found occurs follows fits listedMonth listedDay day_le
      have months := bounds_of_has valid.1.2.2.2 listedMonth
      have days := bounds_of_has valid.1.2.2.1 listedDay
      -- The rules agree on every day of a listed month and every weekday.
      have everywhere : ∀ month_ day_ weekday_, Field.Has 1 12 fields.month month_ → 1 ≤ day_ →
          day_ ≤ longest month_ → weekday_ < 7 →
          ((Field.Has 1 31 fields.dayOfMonth day_ ∧ fields.OnNumbered weekday_) ↔
            (fields.BothRestricted ∧ (Field.Has 1 31 fields.dayOfMonth day_ ∨ fields.OnWeekday weekday_) ∨
              ¬ fields.BothRestricted ∧ Field.Has 1 31 fields.dayOfMonth day_ ∧
                fields.OnWeekday weekday_)) := by
        intro month_ day_ weekday_ listed day_pos day_le inWeek
        have bounds := bounds_of_has valid.1.2.2.2 listed
        have first : 0 < 2 := Nat.two_pos
        obtain ⟨date, rfl, rfl, rfl, low, high⟩ :=
          exists_weekday first bounds.1 bounds.2 day_pos day_le inWeek
        exact agree date (by omega) (by omega) listed
      refine Or.inr (Or.inr ?_)
      split_ifs with both
      · have anyWeekday : ∀ weekday_ < 7, fields.OnNumbered weekday_ := fun weekday_ inWeek =>
          ((everywhere month day weekday_ listedMonth days.1 day_le inWeek).mpr
            (Or.inl ⟨both, Or.inl listedDay⟩)).2
        refine ⟨fun month_ _ listed day_ within day_pos => ?_, anyWeekday⟩
        obtain ⟨weekday_, inWeek, on⟩ : ∃ weekday_ < 7, fields.OnWeekday weekday_ := by
          obtain ⟨value, _, value_le, has⟩ := has_low valid.2
          rcases Nat.lt_or_ge value 7 with inside | seven
          · exact ⟨value, inside, Or.inl has⟩
          · obtain rfl := Nat.le_antisymm value_le seven
            exact ⟨0, Nat.succ_pos 6, Or.inr ⟨rfl, has⟩⟩
        exact ((everywhere month_ day_ weekday_ listed day_pos within inWeek).mpr
          (Or.inl ⟨both, Or.inr on⟩)).1
      · intro weekday_ inWeek
        have same := everywhere month day weekday_ listedMonth days.1 day_le inWeek
        rw [and_iff_right listedDay, or_iff_right fun restricted => both restricted.1,
          and_iff_right both, and_iff_right listedDay] at same
        exact same
    · refine Or.inr (Or.inl fun month _ listed day day_le has => ?_)
      exact some_ ⟨month, day, listed, has, day_le⟩
  · exact Or.inl fits

end Crontabs

end Asterel.Cron
