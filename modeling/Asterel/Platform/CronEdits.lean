import Asterel.Platform.CronScheduler

/-!
# Edits while jobs run

The scheduler records a run with the expression that it fetched before. What the stored
job should say follows from the events: the last edit says whether it is enabled, and
the runs that ended say how its breaker stands, which a disabling edit closes.
-/

namespace Asterel.Cron

open Library Library.Transitions List

section Ledger

variable (config : ReliabilityConfig)

/-- What the last edit says about a job. -/
def lastEnabled (id : String) : List Event → Bool
  | [] => false
  | .added job _ :: log => if job.id = id then job.enabled else lastEnabled id log
  | .edited update :: log => if update.id = id then update.enabled else lastEnabled id log
  | _ :: log => lastEnabled id log

/-- The breaker that the last run computed, or the last disabling edit cleared. -/
def breakerOf (id : String) : List Event → Nat × Option Time
  | [] => (0, none)
  | .added job _ :: log => if job.id = id then (0, none) else breakerOf id log
  | .edited update :: log =>
    if update.id = id ∧ update.enabled = false then ((breakerOf id log).1, none)
    else breakerOf id log
  | .started _ :: log => breakerOf id log
  | .finished ended success now :: log =>
    if ended = id then breakerAfter config (breakerOf id log).1 success now else breakerOf id log

variable {config} {id : String} {event : Event} {log : List Event}

theorem lastEnabled_other (other : event.id ≠ id) :
    lastEnabled id (event :: log) = lastEnabled id log := by
  cases event with
  | added job createdAt => exact if_neg other
  | edited update => exact if_neg other
  | started job => rfl
  | finished ended success now => rfl

theorem breakerOf_other (other : event.id ≠ id) :
    breakerOf config id (event :: log) = breakerOf config id log := by
  cases event with
  | added job createdAt => exact if_neg other
  | edited update => exact if_neg fun same => other same.1
  | started job => rfl
  | finished ended success now => exact if_neg other

/-- An edit counts no failures. -/
theorem failures_edited (update : JobUpdate) :
    (breakerOf config id (.edited update :: log)).1 = (breakerOf config id log).1 := by
  rw [breakerOf]
  split
  · rfl
  · rfl

end Ledger

section Property

variable (readSchedule : Chars → Option Schedule) (config : ReliabilityConfig)

/-- The next run is one of the expression, no run has enabled the job again, and the
breaker stands as the events say, in every job that the scheduler has no statement for. -/
def EditsKept (world : World) : Prop :=
  ∀ job ∈ world.jobs.rows, job.id ∉ world.phase.jobs.map CronJob.id →
    OccursAt readSchedule job.expression job.nextRun ∧
    job.enabled = lastEnabled job.id world.log ∧
    (job.consecutiveFailures, job.breakerOpenUntil) = breakerOf config job.id world.log

/-- A run that ends finds a later occurrence of its expression. It is recorded in a row
with this expression, and no edit disables the job in between when its breaker opens. -/
def Orderly (world : World) : Action → Prop
  | .finish _ => ∀ job ∈ world.phase.current, (world.jobs.find job.id).isSome →
      HasLater readSchedule job.expression world.now
  | .record => ∀ ended ∈ world.phase.ended, ∀ row ∈ world.jobs.find ended.2.id,
      row.expression = ended.1.expression
  | .proceed index => ∀ edit ∈ world.calls[index]?.bind Call.edit, ∀ ended ∈ world.phase.ended,
      edit.1.id = ended.2.id → edit.1.enabled = false → ended.2.breakerOpenUntil = none
  | _ => True

end Property

section Invariant

variable (readSchedule : Chars → Option Schedule) (config : ReliabilityConfig)

/-- The job whose run has ended and is not recorded. -/
def Phase.unrecorded : Phase → Option String
  | .recording _ record _ => some record.id
  | _ => none

/-- The breakers that the scheduler holds are those of the events. -/
def Phase.Faithful (log : List Event) : Phase → Prop
  | .waiting jobs => ∀ job ∈ jobs, job.consecutiveFailures = (breakerOf config job.id log).1
  | .polled _ | .cleaned _ => True
  | .running job jobs =>
    ∀ other ∈ job :: jobs, other.consecutiveFailures = (breakerOf config other.id log).1
  | .recording _ record jobs =>
    (∀ other ∈ jobs, other.consecutiveFailures = (breakerOf config other.id log).1) ∧
      (record.consecutiveFailures, record.breakerOpenUntil) = breakerOf config record.id log

/-- A row says what the events say, up to the run that is being recorded. -/
structure CronJob.Faithful (job : CronJob) (unrecorded : Option String) (log : List Event) :
    Prop where
  occurs : OccursAt readSchedule job.expression job.nextRun
  enabled : job.enabled = lastEnabled job.id log
  breaker : unrecorded ≠ some job.id →
    (job.consecutiveFailures, job.breakerOpenUntil) = breakerOf config job.id log

structure Faithful (world : World) : Prop where
  sound : Sound readSchedule world
  rows : ∀ job ∈ world.jobs.rows, job.Faithful readSchedule config world.phase.unrecorded world.log
  phase : world.phase.Faithful config world.log

variable {readSchedule config} {world : World}

theorem faithful_empty (now : Time) : Faithful readSchedule config (World.empty now) :=
  ⟨sound_empty now, fun _ member => absurd member not_mem_nil,
    fun _ member => absurd member not_mem_nil⟩

theorem Faithful.editsKept (faithful : Faithful readSchedule config world) :
    EditsKept readSchedule config world := by
  intro job member settled
  have row := faithful.rows job member
  refine ⟨row.occurs, row.enabled, row.breaker fun pending => settled ?_⟩
  have sound := faithful.sound.phase
  cases phase : world.phase with
  | recording running record jobs =>
    rw [phase] at sound pending
    rw [← Option.some.inj pending, sound.2.id]
    exact mem_cons_self
  | waiting jobs => rw [phase] at pending; cases pending
  | polled moment => rw [phase] at pending; cases pending
  | cleaned moment => rw [phase] at pending; cases pending
  | running running jobs => rw [phase] at pending; cases pending

end Invariant

section Preservation

variable {readSchedule : Chars → Option Schedule} {config : ReliabilityConfig}
  {world next : World} {action : Action}

section Rows

variable {job : CronJob} {unrecorded : Option String} {log : List Event} {event : Event}

theorem CronJob.Faithful.other (faithful : job.Faithful readSchedule config unrecorded log)
    (other : event.id ≠ job.id) : job.Faithful readSchedule config unrecorded (event :: log) := by
  refine ⟨faithful.occurs, ?_, fun recorded => ?_⟩
  · rw [lastEnabled_other other]
    exact faithful.enabled
  · rw [breakerOf_other other]
    exact faithful.breaker recorded

theorem Fresh.faithful {createdAt : Time} (fresh : Fresh readSchedule job createdAt) :
    job.Faithful readSchedule config unrecorded (.added job createdAt :: log) := by
  refine ⟨occursAt_nextRun fresh.computed, ?_, fun _ => ?_⟩
  · rw [lastEnabled, if_pos rfl]
  · rw [breakerOf, if_pos rfl, fresh.failures, fresh.closed]

/-- An edited row says what the edit says. -/
theorem CronJob.Faithful.edited {update : JobUpdate} {computedAt : Time}
    (faithful : job.Faithful readSchedule config unrecorded log) (same : job.id = update.id)
    (computed : nextRunFor readSchedule update.expression computedAt = .ok update.nextRun) :
    (update.set job).Faithful readSchedule config unrecorded (.edited update :: log) := by
  refine ⟨occursAt_nextRun computed, ?_, fun recorded => ?_⟩
  · rw [JobUpdate.set_id, lastEnabled, if_pos same.symm]
    rfl
  · have before := faithful.breaker recorded
    rw [JobUpdate.set_id, breakerOf, ← before]
    cases enabled : update.enabled with
    | true => simp [JobUpdate.set, enabled]
    | false => simp [JobUpdate.set, enabled, same]

/-- A recorded row has the breaker of the record. -/
theorem CronJob.Faithful.recorded {record : RunRecord} {computedAt : Time}
    (faithful : job.Faithful readSchedule config unrecorded log)
    (computed : nextRunFor readSchedule job.expression computedAt = .ok record.nextRun)
    (breaker : (record.consecutiveFailures, record.breakerOpenUntil) =
      breakerOf config job.id log) :
    (record.set job).Faithful readSchedule config none log :=
  ⟨occursAt_nextRun computed, faithful.enabled, fun _ => breaker⟩

theorem CronJob.Faithful.weaken (faithful : job.Faithful readSchedule config none log) :
    job.Faithful readSchedule config unrecorded log :=
  ⟨faithful.occurs, faithful.enabled, fun _ => faithful.breaker (Option.some_ne_none _).symm⟩

theorem CronJob.Faithful.settled (faithful : job.Faithful readSchedule config unrecorded log)
    (recorded : unrecorded ≠ some job.id) : job.Faithful readSchedule config none log :=
  ⟨faithful.occurs, faithful.enabled, fun _ => faithful.breaker recorded⟩

end Rows

theorem Phase.Faithful.added {phase : Phase} {log : List Event} {job : CronJob} {createdAt now : Time}
    (faithful : phase.Faithful config log) (sound : phase.Sound readSchedule (addedIds log) now)
    (unknown : job.id ∉ addedIds log) : phase.Faithful config (.added job createdAt :: log) := by
  have other : ∀ {id}, id ∈ addedIds log → (Event.added job createdAt).id ≠ id := by
    rintro id known rfl
    exact unknown known
  cases phase with
  | waiting jobs =>
    intro waiting member
    rw [breakerOf_other (other (sound.known waiting member))]
    exact faithful waiting member
  | polled moment => trivial
  | cleaned moment => trivial
  | running running jobs =>
    intro waiting member
    rw [breakerOf_other (other (sound.known waiting member))]
    exact faithful waiting member
  | recording running record jobs =>
    obtain ⟨fetched, same, _⟩ := sound
    refine ⟨fun waiting member => ?_, ?_⟩
    · rw [breakerOf_other (other (fetched.known waiting (mem_cons_of_mem _ member)))]
      exact faithful.1 waiting member
    · rw [breakerOf_other (other (same ▸ fetched.known running mem_cons_self))]
      exact faithful.2

theorem Phase.Faithful.edited {phase : Phase} {log : List Event} {update : JobUpdate}
    (faithful : phase.Faithful config log)
    (recorded : ∀ job record jobs, phase = .recording job record jobs → update.id = record.id →
      update.enabled = false → record.breakerOpenUntil = none) :
    phase.Faithful config (.edited update :: log) := by
  cases phase with
  | waiting jobs => exact fun job member => (faithful job member).trans (failures_edited update).symm
  | polled moment => trivial
  | cleaned moment => trivial
  | running running jobs =>
    exact fun job member => (faithful job member).trans (failures_edited update).symm
  | recording running record jobs =>
    refine ⟨fun job member => (faithful.1 job member).trans (failures_edited update).symm, ?_⟩
    rw [breakerOf, ← faithful.2]
    split
    case isTrue disabled =>
      rw [recorded running record jobs rfl disabled.1 disabled.2]
    case isFalse => rfl

/-- The jobs that wait behind a run keep their breakers when it ends. -/
theorem failures_finished {job : CronJob} {jobs : List CronJob} {ids : List String} {now : Time}
    {log : List Event} (success : Bool) (fetched : Fetched (job :: jobs) ids now)
    (faithful : ∀ other ∈ job :: jobs, other.consecutiveFailures = (breakerOf config other.id log).1) :
    ∀ other ∈ jobs, other.consecutiveFailures =
      (breakerOf config other.id (.finished job.id success now :: log)).1 := by
  intro other member
  have apart : (Event.finished job.id success now).id ≠ other.id := by
    intro (same : job.id = other.id)
    exact (nodup_cons.mp fetched.distinct).1 (same ▸ mem_map_of_mem member)
  rw [breakerOf_other apart]
  exact faithful other (mem_cons_of_mem _ member)

theorem Faithful.step (faithful : Faithful readSchedule config world)
    (orderly : Orderly readSchedule world action)
    (stepped : step readSchedule config world action = some next) :
    Faithful readSchedule config next := by
  have sound := faithful.sound.step stepped
  have phaseSound := faithful.sound.phase
  have phaseFaithful := faithful.phase
  have rows := faithful.rows
  have deleted : ∀ condition, ∀ job ∈ (world.jobs.deleteWhere condition).rows,
      job.Faithful readSchedule config world.phase.unrecorded world.log := fun condition job member =>
    rows job (mem_filter.mp member).1
  cases step_cases stepped with
  | pass micros => exact ⟨sound, rows, phaseFaithful⟩
  | quiet _ calls shutdown kept => exact ⟨sound, rows, phaseFaithful⟩
  | expired index job createdAt calls kept => exact ⟨sound, deleted _, phaseFaithful⟩
  | inserted index job createdAt calls jobs kept call unknown inserted =>
    refine ⟨sound, fun row member => ?_, phaseFaithful.added phaseSound unknown⟩
    rw [(KeyedTable.rows_insert inserted).1, mem_append, mem_singleton] at member
    rcases member with old | rfl
    · refine (rows row old).other fun (same : job.id = row.id) => unknown ?_
      rw [same]
      exact faithful.sound.rows row old
    · exact (faithful.sound.calls _ call).1.faithful
  | updated index update computedAt calls kept call =>
    obtain ⟨computed, _⟩ := faithful.sound.calls _ (mem_of_getElem? call)
    refine ⟨sound, fun row member => ?_, phaseFaithful.edited ?_⟩
    · obtain ⟨old, inRows, rfl⟩ := mem_map.mp member
      split
      case isTrue same => exact (rows old inRows).edited (of_decide_eq_true same) computed
      case isFalse other =>
        exact (rows old inRows).other fun same => other (decide_eq_true same.symm)
    · intro job record jobs phase
      rw [Orderly, call, phase] at orderly
      exact orderly (update, computedAt) rfl (job, record) rfl
  | removed id => exact ⟨sound, deleted _, phaseFaithful⟩
  | polled idle =>
    rw [idle] at rows
    exact ⟨sound, rows, trivial⟩
  | cleaned now phase =>
    rw [phase] at deleted
    exact ⟨sound, deleted _, trivial⟩
  | fetched now jobs phase due =>
    rw [phase] at rows
    refine ⟨sound, rows, fun job member => ?_⟩
    have row := rows job (mem_filter.mp (due.1.mem_iff.mp member)).1
    exact congrArg Prod.fst (row.breaker (Option.some_ne_none _).symm)
  | skipped job jobs phase =>
    rw [phase] at rows phaseFaithful
    exact ⟨sound, rows, fun other member => phaseFaithful other (mem_cons_of_mem _ member)⟩
  | started job jobs phase closed =>
    rw [phase] at rows phaseFaithful
    exact ⟨sound, fun row member => ⟨(rows row member).occurs, (rows row member).enabled,
      (rows row member).breaker⟩, phaseFaithful⟩
  | lost job jobs success message phase failed =>
    rw [phase] at rows phaseFaithful phaseSound
    obtain ⟨rest, waiting, fewer⟩ := afterRun_eq world jobs
    have failures := failures_finished success phaseSound phaseFaithful
    rw [Orderly, phase] at orderly
    refine ⟨sound, fun row member => ?_, ?_⟩
    · simp only [waiting]
      refine (rows row member).other fun (same : job.id = row.id) => ?_
      have stored : (world.jobs.find job.id).isSome = true := by
        rw [same, KeyedTable.find_of_mem member, Option.isSome_some]
      exact absurd failed (recordFor_of_later (orderly job rfl stored) message)
    · simp only [waiting]
      exact fun other member => failures other (fewer.subset member)
  | finished job jobs success record phase made =>
    rw [phase] at rows phaseFaithful phaseSound
    obtain ⟨same, computed, breaker⟩ := recordFor_computed made
    refine ⟨sound, fun row member => ?_, failures_finished success phaseSound phaseFaithful, ?_⟩
    · by_cases here : job.id = row.id
      · exact ⟨(rows row member).occurs, (rows row member).enabled, fun recorded =>
          absurd (congrArg some (same.trans here)) recorded⟩
      · have apart : (Event.finished job.id success world.now).id ≠ row.id := here
        exact ((rows row member).other apart).weaken
    · rw [breaker, same, breakerOf, if_pos rfl, nextJobBreakerState,
        phaseFaithful job mem_cons_self]
  | recorded job record jobs phase =>
    rw [phase] at rows phaseFaithful phaseSound
    obtain ⟨rest, waiting, fewer⟩ := afterRun_eq world jobs
    obtain ⟨_, _, _, _, computed⟩ := phaseSound.2
    rw [Orderly, phase] at orderly
    refine ⟨sound, fun row member => ?_, ?_⟩
    · simp only [waiting]
      obtain ⟨old, inRows, rfl⟩ := mem_map.mp member
      split
      case isTrue here =>
        have same : old.id = record.id := of_decide_eq_true here
        have expression := orderly (job, record) rfl old (KeyedTable.find_eq_some_iff.mpr ⟨inRows, same⟩)
        rw [← expression] at computed
        exact (rows old inRows).recorded computed (same ▸ phaseFaithful.2)
      case isFalse other =>
        refine (rows old inRows).settled fun pending => other (decide_eq_true ?_)
        exact (Option.some.inj pending).symm
    · simp only [waiting]
      exact fun other member => phaseFaithful.1 other (fewer.subset member)

end Preservation

section Runs

variable {readSchedule : Chars → Option Schedule} {config : ReliabilityConfig}

/-- Along an orderly run no edit is lost. -/
theorem edits_kept (now : Time) (actions : List Action)
    (orderly : Guarded (step readSchedule config) (Orderly readSchedule) (World.empty now) actions) :
    Always (step readSchedule config) (EditsKept readSchedule config) (World.empty now) actions :=
  always_of_guarded Faithful.editsKept Faithful.step (faithful_empty now) orderly

instance (expression : Chars) (moment : Time) :
    Decidable (HasLater readSchedule expression moment) :=
  decidable_of_iff _ hasLater_iff.symm

instance (world : World) : (action : Action) → Decidable (Orderly readSchedule world action)
  | .finish _ => inferInstanceAs (Decidable (∀ job ∈ world.phase.current, _))
  | .record => inferInstanceAs (Decidable (∀ ended ∈ world.phase.ended, _))
  | .proceed index => inferInstanceAs (Decidable (∀ edit ∈ world.calls[index]?.bind Call.edit, _))
  | .pass _ | .addJob .. | .selectJob _ | .removeJob _ | .shutDown | .poll | .cleanup | .fetch _
  | .start => isTrue trivial

end Runs

section Samples

def sampleConfig : ReliabilityConfig := ⟨5, 300, none, none⟩

/-- The job of the samples after it was added at the start of the clock. -/
def hourlyJob : CronJob where
  id := "job"
  enabled := true
  expression := "hourly".toList
  command := "echo".toList
  nextRun := hour
  lastRun := none
  lastStatus := none
  jobKind := .user
  origin := .user
  expiresAt := none
  maxAttempts := 1
  consecutiveFailures := 0
  breakerOpenUntil := none

/-- A job is added and starts when it is due. -/
def firstStart : List Action :=
  [.addJob "job" "hourly".toList "echo".toList .default, .proceed 0, .pass 3600000000, .poll,
    .cleanup, .fetch [hourlyJob], .start]

/-- What is pending, and what the table says about the schedules. -/
def stored (world : World) : List String × List (Chars × Time) :=
  (world.phase.jobs.map CronJob.id, world.jobs.rows.map fun job => (job.expression, job.nextRun))

theorem undisturbed_edits_kept :
    (run (step sampleSchedule sampleConfig) (World.empty 0)
        (firstStart ++ [.finish true, .record])).map stored =
      some ([], [("hourly".toList, 2 * hour)]) ∧
    Always (step sampleSchedule sampleConfig) (EditsKept sampleSchedule sampleConfig)
      (World.empty 0) (firstStart ++ [.finish true, .record]) :=
  ⟨by decide +kernel, edits_kept 0 _ (by decide +kernel)⟩

theorem scheduleOf_daily :
    scheduleOf sampleSchedule "daily".toList = .ok (.every (24 * hour) (by decide)) := by
  have normalized : normalizeExpression "daily".toList = .ok "0 0 0 * * *".toList := by
    decide +kernel
  have other : ¬ "0 0 0 * * *".toList = "0 0 * * * *".toList := by decide +kernel
  simp only [scheduleOf, normalized, sampleSchedule, if_neg other, if_pos]

/-- While the job runs, it is edited to a daily one. -/
def editedRun : List Action :=
  firstStart ++ [.selectJob ⟨"job", some "daily".toList, none, none⟩, .proceed 0, .proceed 0,
    .finish true, .record]

/-- The run ends with the daily job due after two hours. -/
theorem edit_is_lost :
    ∃ final, run (step sampleSchedule sampleConfig) (World.empty 0) editedRun = some final ∧
      stored final = ([], [("daily".toList, 2 * hour)]) ∧
      ¬ EditsKept sampleSchedule sampleConfig final := by
  have ran : (run (step sampleSchedule sampleConfig) (World.empty 0) editedRun).map stored =
      some ([], [("daily".toList, 2 * hour)]) := by
    decide +kernel
  obtain ⟨final, ran, view⟩ := Option.map_eq_some_iff.mp ran
  refine ⟨final, ran, view, fun kept => ?_⟩
  -- The table holds the daily job, and no statement for it is pending.
  obtain ⟨none, rows⟩ := Prod.mk.inj view
  have member : ("daily".toList, 2 * hour) ∈
      final.jobs.rows.map fun job => (job.expression, job.nextRun) := by
    rw [rows]
    exact mem_cons_self
  obtain ⟨job, inRows, same⟩ := mem_map.mp member
  obtain ⟨expression, nextRun⟩ := Prod.mk.inj same
  obtain ⟨⟨schedule, found, occurs⟩, _⟩ := kept job inRows (by rw [none]; exact not_mem_nil)
  rw [expression, scheduleOf_daily] at found
  rw [nextRun, ← Except.ok.inj found] at occurs
  have apart : ¬ (2 * hour) % (24 * hour) = 0 := by decide
  exact apart occurs

end Samples

end Asterel.Cron
