import Asterel.Platform.CronEdits

/-!
# Starts from an old batch

A batch is fetched once and run one job after another. Only the breaker is looked at
again before a run, and as it was fetched. So a job starts although it was removed,
disabled or has expired in the meantime.
-/

namespace Asterel.Cron

open Library Library.Transitions List KeyedTable

section Property

/-- The job that a start would run. -/
def World.starting (world : World) : Option CronJob :=
  match world.phase with
  | .waiting (job :: _) => if jobBreakerIsOpen job world.now then none else some job
  | _ => none

/-- The table still lets a job run. -/
def MayStart (world : World) (id : String) : Prop :=
  ∃ row ∈ world.jobs.find id, row.enabled = true ∧ expired world.now row = false ∧
    jobBreakerIsOpen row world.now = false

/-- Only jobs that are stored, enabled and not expired start, with closed breakers. -/
def StartsAllowed (world : World) : Action → Prop
  | .start => ∀ job ∈ world.starting, MayStart world job.id
  | _ => True

/-- While jobs wait, they are neither removed nor disabled, and do not expire. -/
def Undisturbed (world : World) : Action → Prop
  | .pass micros => ∀ job ∈ world.phase.queued, expired (world.now + micros) job = false
  | .fetch jobs => ∀ job ∈ jobs, expired world.now job = false
  | .removeJob id => id ∉ world.phase.queued.map CronJob.id
  | .proceed index => ∀ edit ∈ world.calls[index]?.bind Call.edit,
      edit.1.enabled = false → edit.1.id ∉ world.phase.queued.map CronJob.id
  | _ => True

end Property

section Invariant

/-- The row of a job that waits. -/
structure Waiting (job row : CronJob) (now : Time) : Prop where
  enabled : row.enabled = true
  expiresAt : row.expiresAt = job.expiresAt
  unexpired : expired now row = false
  closed : jobBreakerIsOpen row now = false

/-- The jobs that wait can start. -/
structure Ready (readSchedule : Chars → Option Schedule) (world : World) : Prop where
  sound : Sound readSchedule world
  queued : ∀ job ∈ world.phase.queued, ∃ row ∈ world.jobs.find job.id, Waiting job row world.now

variable {readSchedule : Chars → Option Schedule} {config : ReliabilityConfig}
  {world next : World} {action : Action} {job row : CronJob} {now moment : Time}

theorem ready_empty (now : Time) : Ready readSchedule (World.empty now) :=
  ⟨sound_empty now, fun _ member => absurd member not_mem_nil⟩

theorem Ready.startsAllowed (ready : Ready readSchedule world) : StartsAllowed world action := by
  cases action with
  | start =>
    intro job starting
    rw [World.starting] at starting
    have queued := ready.queued
    split at starting
    · rename_i first jobs phase
      split at starting
      · cases starting
      · cases starting
        rw [phase] at queued
        obtain ⟨row, found, waiting⟩ := queued job mem_cons_self
        exact ⟨row, found, waiting.enabled, waiting.unexpired, waiting.closed⟩
    · cases starting
  | _ => trivial

theorem expired_mono (passed : now ≤ moment) (expiredNow : expired now row = true) :
    expired moment row = true := by
  rw [expired, Option.any_eq_true] at expiredNow ⊢
  obtain ⟨expiresAt, given, before⟩ := expiredNow
  exact ⟨expiresAt, given, decide_eq_true ((of_decide_eq_true before).trans passed)⟩

theorem closed_mono (passed : now ≤ moment) (closed : jobBreakerIsOpen row now = false) :
    jobBreakerIsOpen row moment = false := by
  rw [Bool.eq_false_iff] at closed ⊢
  intro openLater
  apply closed
  rw [jobBreakerIsOpen, Option.any_eq_true] at openLater ⊢
  obtain ⟨until_, given, after⟩ := openLater
  exact ⟨until_, given, decide_eq_true (lt_of_le_of_lt passed (of_decide_eq_true after))⟩

theorem Waiting.later (waiting : Waiting job row now) (passed : now ≤ moment)
    (unexpired : expired moment job = false) : Waiting job row moment := by
  refine ⟨waiting.enabled, waiting.expiresAt, ?_, closed_mono passed waiting.closed⟩
  rw [expired, waiting.expiresAt]
  exact unexpired

/-- A due row is one that waits for itself. -/
theorem waiting_of_due (due : isDue now row = true) (passed : now ≤ moment)
    (unexpired : expired moment row = false) : Waiting row row moment := by
  simp only [isDue, Bool.and_eq_true] at due
  refine ⟨due.1.1.1, rfl, unexpired, closed_mono passed ?_⟩
  rw [Bool.eq_false_iff, jobBreakerIsOpen, ne_eq, Option.any_eq_true]
  rintro ⟨until_, given, after⟩
  have before := due.2
  rw [given, Option.all_some, decide_eq_true_iff] at before
  exact absurd (of_decide_eq_true after) (not_lt.mpr before)

/-- A deletion that does not meet the row of a job that waits. -/
theorem found_deleteWhere {condition : CronJob → Bool} (found : row ∈ world.jobs.find job.id)
    (apart : condition row = false) : row ∈ (world.jobs.deleteWhere condition).find job.id := by
  rw [find_deleteWhere, Option.mem_def.mp found, Option.filter_some, apart]
  rfl

theorem Ready.deleted {condition : CronJob → Bool}
    (queued : ∀ job ∈ world.phase.queued, ∃ row ∈ world.jobs.find job.id, Waiting job row world.now)
    (apart : ∀ job ∈ world.phase.queued, ∀ row ∈ world.jobs.find job.id,
      Waiting job row world.now → condition row = false) :
    ∀ job ∈ world.phase.queued, ∃ row ∈ (world.jobs.deleteWhere condition).find job.id,
      Waiting job row world.now := by
  intro job member
  obtain ⟨row, found, waiting⟩ := queued job member
  exact ⟨row, found_deleteWhere found (apart job member row found waiting), waiting⟩

/-- The jobs that wait are among those that were fetched. -/
theorem queued_sublist (phase : Phase) : phase.queued.Sublist phase.jobs := by
  cases phase with
  | waiting jobs => exact Sublist.refl _
  | polled moment => exact Sublist.refl _
  | cleaned moment => exact Sublist.refl _
  | running job jobs => exact sublist_cons_self _ _
  | recording job record jobs => exact sublist_cons_self _ _

theorem Ready.step (ready : Ready readSchedule world) (undisturbed : Undisturbed world action)
    (stepped : step readSchedule config world action = some next) : Ready readSchedule next := by
  have sound := ready.sound.step stepped
  have queued := ready.queued
  -- What has expired before an earlier moment is not what waits now.
  have cleanup : ∀ {moment}, moment ≤ world.now → ∀ job ∈ world.phase.queued,
      ∀ row ∈ world.jobs.find job.id, Waiting job row world.now → expired moment row = false := by
    intro moment before job _ row _ waiting
    refine Bool.eq_false_iff.mpr fun early => ?_
    exact absurd (expired_mono before early) (Bool.eq_false_iff.mp waiting.unexpired)
  cases step_cases stepped with
  | pass micros =>
    have passed : world.now ≤ world.now + micros := le_add_of_nonneg_right (Int.natCast_nonneg _)
    refine ⟨sound, fun job member => ?_⟩
    obtain ⟨row, found, waiting⟩ := queued job member
    exact ⟨row, found, waiting.later passed (undisturbed job member)⟩
  | quiet _ calls shutdown _ => exact ⟨sound, queued⟩
  | expired index job created calls _ call =>
    exact ⟨sound, Ready.deleted queued (cleanup (ready.sound.calls _ call).2)⟩
  | inserted index job created calls jobs _ call unknown inserted =>
    refine ⟨sound, fun waiter member => ?_⟩
    obtain ⟨row, found, waiting⟩ := queued waiter member
    refine ⟨row, ?_, waiting⟩
    have apart : waiter.id ≠ job.id := by
      intro same
      have known := ready.sound.phase.known waiter ((queued_sublist world.phase).subset member)
      exact unknown (same ▸ known)
    rw [find_insert inserted, if_neg apart]
    exact found
  | updated index update computedAt calls _ call =>
    rw [Undisturbed, call] at undisturbed
    have disabled := undisturbed (update, computedAt) rfl
    refine ⟨sound, fun job member => ?_⟩
    obtain ⟨row, found, waiting⟩ := queued job member
    simp only [updateJob, find_updateWhere, Option.mem_def.mp found, Option.map_some,
      Option.mem_def, Option.some.injEq, exists_eq_left']
    split
    case isTrue same =>
      have here : job.id = update.id :=
        (find_key found).symm.trans (of_decide_eq_true same)
      have enabled : update.enabled = true := by
        by_contra off
        exact disabled (Bool.eq_false_iff.mpr off) (here ▸ mem_map_of_mem member)
      refine ⟨enabled, waiting.expiresAt, waiting.unexpired, ?_⟩
      have kept : (update.set row).breakerOpenUntil = row.breakerOpenUntil := if_pos enabled
      rw [jobBreakerIsOpen, kept]
      exact waiting.closed
    case isFalse => exact waiting
  | removed id =>
    refine ⟨sound, Ready.deleted queued fun job member row found _ => ?_⟩
    refine decide_eq_false fun same => undisturbed ?_
    rw [← same, find_key found]
    exact mem_map_of_mem member
  | polled idle => exact ⟨sound, fun _ member => absurd member not_mem_nil⟩
  | cleaned now phase => exact ⟨sound, fun _ member => absurd member not_mem_nil⟩
  | fetched now jobs phase due =>
    have before := ready.sound.phase
    rw [phase] at before
    refine ⟨sound, fun job member => ?_⟩
    obtain ⟨inRows, isDue⟩ := mem_filter.mp (due.1.mem_iff.mp member)
    exact ⟨job, find_of_mem inRows, waiting_of_due isDue before (undisturbed job member)⟩
  | skipped job jobs phase =>
    rw [phase] at queued
    exact ⟨sound, fun other member => queued other (mem_cons_of_mem _ member)⟩
  | started job jobs phase closed =>
    rw [phase] at queued
    exact ⟨sound, fun other member => queued other (mem_cons_of_mem _ member)⟩
  | lost job jobs success message phase failed =>
    rw [phase] at queued
    obtain ⟨rest, waiting, fewer⟩ := afterRun_eq world jobs
    refine ⟨sound, ?_⟩
    simp only [waiting]
    exact fun other member => queued other (fewer.subset member)
  | finished job jobs success record phase made =>
    rw [phase] at queued
    exact ⟨sound, queued⟩
  | recorded job record jobs phase =>
    have fetched := ready.sound.phase
    rw [phase] at queued fetched
    obtain ⟨rest, waiting, fewer⟩ := afterRun_eq world jobs
    refine ⟨sound, ?_⟩
    simp only [waiting]
    intro other member
    obtain ⟨row, found, waiting⟩ := queued other (fewer.subset member)
    refine ⟨row, ?_, waiting⟩
    have apart : ¬ row.id = record.id := by
      rw [find_key found, fetched.2.id]
      intro same
      refine (nodup_cons.mp fetched.1.distinct).1 ?_
      exact same ▸ mem_map_of_mem (fewer.subset member)
    rw [rescheduleAfterRun, find_updateWhere, Option.mem_def.mp found, Option.map_some,
      if_neg (by simpa using apart)]
    exact rfl

end Invariant

section Runs

variable {readSchedule : Chars → Option Schedule} {config : ReliabilityConfig}

/-- As long as the jobs that wait are left alone, only those start that may. -/
theorem starts_allowed (now : Time) (actions : List Action)
    (undisturbed : Guarded (step readSchedule config) Undisturbed (World.empty now) actions) :
    Guarded (step readSchedule config) StartsAllowed (World.empty now) actions :=
  guarded_of_guarded (fun ready _ => ready.startsAllowed) Ready.step (ready_empty now) undisturbed

instance (world : World) : (action : Action) → Decidable (Undisturbed world action)
  | .pass _ => inferInstanceAs (Decidable (∀ job ∈ world.phase.queued, _))
  | .fetch jobs => inferInstanceAs (Decidable (∀ job ∈ jobs, _))
  | .removeJob id => inferInstanceAs (Decidable (id ∉ world.phase.queued.map CronJob.id))
  | .proceed index => inferInstanceAs (Decidable (∀ edit ∈ world.calls[index]?.bind Call.edit, _))
  | .addJob .. | .selectJob _ | .shutDown | .poll | .cleanup | .start | .finish _ | .record =>
    isTrue trivial

instance (world : World) (id : String) : Decidable (MayStart world id) :=
  inferInstanceAs (Decidable (∃ row ∈ world.jobs.find id, _))

instance (world : World) : (action : Action) → Decidable (StartsAllowed world action)
  | .start => inferInstanceAs (Decidable (∀ job ∈ world.starting, _))
  | .pass _ | .addJob .. | .selectJob _ | .proceed _ | .removeJob _ | .shutDown | .poll | .cleanup
  | .fetch _ | .finish _ | .record => isTrue trivial

end Runs

section Samples

/-- Two jobs are due at once, and the first one starts. -/
def firstOfTwo : List Action :=
  [.addJob "early" "hourly".toList "echo".toList .default, .proceed 0,
    .addJob "job" "hourly".toList "echo".toList .default, .proceed 0, .pass 3600000000,
    .poll, .cleanup, .fetch [{ hourlyJob with id := "early" }, hourlyJob], .start]

theorem both_start :
    (run (step sampleSchedule sampleConfig) (World.empty 0)
        (firstOfTwo ++ [.finish true, .record, .start])).map (fun world =>
          world.phase.current.map CronJob.id) = some (some "job") ∧
    Guarded (step sampleSchedule sampleConfig) StartsAllowed (World.empty 0)
      (firstOfTwo ++ [.finish true, .record, .start]) :=
  ⟨by decide +kernel, starts_allowed 0 _ (by decide +kernel)⟩

/-- While it runs, the second one is removed. -/
theorem removed_job_starts :
    ¬ Guarded (step sampleSchedule sampleConfig) StartsAllowed (World.empty 0)
      (firstOfTwo ++ [.removeJob "job", .finish true, .record, .start]) := by
  decide +kernel

end Samples

end Asterel.Cron
