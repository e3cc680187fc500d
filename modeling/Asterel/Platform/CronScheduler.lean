import Asterel.Library.Transitions
import Asterel.Platform.CronRepository

/-!
# The scheduler among its callers

One scheduler polls the table for due jobs, runs them one after another and records each
run. In between, calls add, edit and remove jobs. A step is one statement of the
database, or what a party computes between two of them.
-/

namespace Asterel.Cron

open Library Library.Transitions List

section Config

structure ReliabilityConfig where
  schedulerFailureBudget : Nat
  schedulerBreakerCooldownSecs : Nat
  schedulerActiveHoursStartUtc : Option Chars
  schedulerActiveHoursEndUtc : Option Chars

variable (config : ReliabilityConfig)

def schedulerBreakerEnabled : Bool :=
  0 < config.schedulerFailureBudget && 0 < config.schedulerBreakerCooldownSecs

def jobBreakerIsOpen (job : CronJob) (now : Time) : Bool :=
  job.breakerOpenUntil.any fun breakerOpenUntil => now < breakerOpenUntil

/-- The failures and the opening of a breaker after one more run. -/
def breakerAfter (consecutiveFailures : Nat) (success : Bool) (now : Time) : Nat × Option Time :=
  if ! schedulerBreakerEnabled config || success then (0, none)
  else
    let failures := min (consecutiveFailures + 1) (2 ^ 32 - 1)
    if config.schedulerFailureBudget < failures then
      (0, some (now + min config.schedulerBreakerCooldownSecs (2 ^ 63 - 1) * 1000000))
    else (failures, none)

def nextJobBreakerState (job : CronJob) (success : Bool) (now : Time) : Nat × Option Time :=
  breakerAfter config job.consecutiveFailures success now

def parseHhmmMinutes (raw : Chars) : Option Nat := do
  let (hourRaw, minuteRaw) ← Text.splitOnce ':' (Text.trim raw)
  let hour ← parseU32 hourRaw
  let minute ← parseU32 minuteRaw
  if hour ≤ 23 ∧ minute ≤ 59 then some (hour * 60 + minute) else none

/-- Hours that are not given both, or cannot be read, keep the scheduler closed. -/
def inSchedulerHours (now : Time) : Bool :=
  match config.schedulerActiveHoursStartUtc, config.schedulerActiveHoursEndUtc with
  | none, none => true
  | some startRaw, some endRaw =>
    match parseHhmmMinutes startRaw, parseHhmmMinutes endRaw with
    | some startMinutes, some endMinutes =>
      let currentMinutes := now / 60000000 % 1440
      if startMinutes = endMinutes then true
      else if startMinutes < endMinutes then
        startMinutes ≤ currentMinutes && currentMinutes < endMinutes
      else startMinutes ≤ currentMinutes || currentMinutes < endMinutes
    | _, _ => false
  | _, _ => false

end Config

section Worlds

/-- Where the scheduler is. Without waiting jobs it is between two polls. -/
inductive Phase where
  | waiting (jobs : List CronJob)
  | polled (now : Time)
  | cleaned (now : Time)
  | running (job : CronJob) (jobs : List CronJob)
  | recording (job : CronJob) (record : RunRecord) (jobs : List CronJob)
deriving DecidableEq

/-- The jobs that the scheduler still has statements for, as it fetched them. -/
def Phase.jobs : Phase → List CronJob
  | .waiting jobs => jobs
  | .polled _ | .cleaned _ => []
  | .running job jobs | .recording job _ jobs => job :: jobs

/-- The job that runs. -/
def Phase.current : Phase → Option CronJob
  | .running job _ => some job
  | _ => none

/-- The job whose run has ended, and what is about to be recorded. -/
def Phase.ended : Phase → Option (CronJob × RunRecord)
  | .recording job record _ => some (job, record)
  | _ => none

/-- The fetched jobs whose runs have not begun. -/
def Phase.queued : Phase → List CronJob
  | .waiting jobs | .running _ jobs | .recording _ _ jobs => jobs
  | .polled _ | .cleaned _ => []

/-- A call of the repository between two of its statements. -/
inductive Call where
  | cleaning (job : CronJob) (createdAt : Time)
  | counting (job : CronJob) (createdAt : Time)
  | inserting (job : CronJob) (createdAt : Time)
  | preparing (existing : CronJob) (request : UpdateRequest)
  | updating (update : JobUpdate) (computedAt : Time)

/-- The edit that a call commits next, and when it was computed. -/
def Call.edit : Call → Option (JobUpdate × Time)
  | .updating update computedAt => some (update, computedAt)
  | _ => none

/-- What has happened to the jobs. -/
inductive Event where
  | added (job : CronJob) (createdAt : Time)
  | edited (update : JobUpdate)
  | started (job : CronJob)
  | finished (id : String) (success : Bool) (now : Time)

/-- The job that an event is about. -/
def Event.id : Event → String
  | .added job _ | .started job => job.id
  | .edited update => update.id
  | .finished id _ _ => id

/-- The events stand with the last one first. -/
structure World where
  now : Time
  shutdown : Bool
  phase : Phase
  jobs : CronTable
  calls : List Call
  log : List Event

def World.empty (now : Time) : World := ⟨now, false, .waiting [], .empty, [], []⟩

inductive Action where
  | pass (micros : Nat)
  | addJob (id : String) (expression command : Chars) (metadata : CronJobMetadata)
  | selectJob (request : UpdateRequest)
  | proceed (index : Nat)
  | removeJob (id : String)
  | shutDown
  | poll
  | cleanup
  | fetch (jobs : List CronJob)
  | start
  | finish (success : Bool)
  | record

def addedIds (log : List Event) : List String :=
  log.filterMap fun event =>
    match event with
    | .added job _ => some job.id
    | _ => none

end Worlds

section Steps

variable (readSchedule : Chars → Option Schedule) (config : ReliabilityConfig)

/-- The rest of the batch, which a shutdown drops. -/
def World.afterRun (world : World) (jobs : List CronJob) : Phase :=
  .waiting (if world.shutdown then [] else jobs)

/-- The next statement of a call, or what it computes before it. -/
def proceed (world : World) (calls : List Call) : Call → Option World
  | .cleaning job createdAt => some { world with
      jobs := cleanupExpiredJobs world.jobs createdAt
      calls := .counting job createdAt :: calls }
  | .counting job createdAt =>
    if agentPendingCap ≤ pendingAgentJobs world.jobs createdAt then some { world with calls := calls }
    else some { world with calls := .inserting job createdAt :: calls }
  | .inserting job createdAt =>
    -- An identifier is never drawn twice.
    if job.id ∈ addedIds world.log then none
    else
      match world.jobs.insert job with
      | none => some { world with calls := calls }
      | some jobs => some { world with
          jobs := jobs
          calls := calls
          log := .added job createdAt :: world.log }
  | .preparing existing request =>
    match updateFor readSchedule existing request world.now with
    | .error _ => some { world with calls := calls }
    | .ok update => some { world with calls := .updating update world.now :: calls }
  | .updating update _ => some { world with
      jobs := updateJob world.jobs update
      calls := calls
      log := .edited update :: world.log }

def step (world : World) : Action → Option World
  | .pass micros => some { world with now := world.now + micros }
  | .addJob id expression command metadata =>
    match newJob readSchedule id expression command metadata world.now with
    | .error _ => some world
    | .ok job =>
      let call : Call :=
        if job.origin = .agent then .cleaning job world.now else .inserting job world.now
      some { world with calls := call :: world.calls }
  | .selectJob request =>
    match world.jobs.find request.id with
    | none => some world
    | some existing => some { world with calls := .preparing existing request :: world.calls }
  | .proceed index =>
    match world.calls[index]? with
    | none => none
    | some call => proceed readSchedule world (world.calls.eraseIdx index) call
  | .removeJob id => some { world with jobs := removeJob world.jobs id }
  | .shutDown => some { world with shutdown := true }
  | .poll =>
    if world.phase = .waiting [] ∧ world.shutdown = false ∧ inSchedulerHours config world.now then
      some { world with phase := .polled world.now }
    else none
  | .cleanup =>
    match world.phase with
    | .polled now =>
      some { world with jobs := cleanupExpiredJobs world.jobs now, phase := .cleaned now }
    | _ => none
  | .fetch jobs =>
    match world.phase with
    | .cleaned now =>
      if DueJobs world.jobs now jobs then some { world with phase := .waiting jobs } else none
    | _ => none
  | .start =>
    match world.phase with
    | .waiting (job :: jobs) =>
      if jobBreakerIsOpen job world.now then some { world with phase := .waiting jobs }
      else some { world with phase := .running job jobs, log := .started job :: world.log }
    | _ => none
  | .finish success =>
    match world.phase with
    | .running job jobs =>
      let breaker := nextJobBreakerState config job success world.now
      let log := .finished job.id success world.now :: world.log
      match recordFor readSchedule job success breaker world.now with
      | .error _ => some { world with phase := world.afterRun jobs, log := log }
      | .ok record => some { world with phase := .recording job record jobs, log := log }
    | _ => none
  | .record =>
    match world.phase with
    | .recording _ record jobs => some { world with
        jobs := rescheduleAfterRun world.jobs record
        phase := world.afterRun jobs }
    | _ => none

/-- What a call carries was computed before. -/
def Call.Sound (now : Time) : Call → Prop
  | .cleaning job createdAt | .counting job createdAt | .inserting job createdAt =>
    Fresh readSchedule job createdAt ∧ createdAt ≤ now
  | .preparing _ _ => True
  | .updating update computedAt =>
    nextRunFor readSchedule update.expression computedAt = .ok update.nextRun ∧ computedAt ≤ now

/-- Calls that are as sound as those of a world. -/
def World.Keeps (world : World) (calls : List Call) : Prop :=
  (∀ call ∈ world.calls, call.Sound readSchedule world.now) →
    ∀ call ∈ calls, call.Sound readSchedule world.now

/-- All that a step can do. -/
inductive Step (world : World) : Action → World → Prop where
  | pass (micros : Nat) : Step world (.pass micros) { world with now := world.now + micros }
  | quiet (action : Action) (calls : List Call) (shutdown : Bool)
      (kept : world.Keeps readSchedule calls) :
      Step world action { world with calls := calls, shutdown := shutdown }
  | expired (index : Nat) (job : CronJob) (createdAt : Time) (calls : List Call)
      (kept : world.Keeps readSchedule calls) (call : .cleaning job createdAt ∈ world.calls) :
      Step world (.proceed index)
        { world with jobs := cleanupExpiredJobs world.jobs createdAt, calls := calls }
  | inserted (index : Nat) (job : CronJob) (createdAt : Time) (calls : List Call) (jobs : CronTable)
      (kept : world.Keeps readSchedule calls) (call : .inserting job createdAt ∈ world.calls)
      (unknown : job.id ∉ addedIds world.log)
      (inserted : world.jobs.insert job = some jobs) :
      Step world (.proceed index)
        { world with jobs := jobs, calls := calls, log := .added job createdAt :: world.log }
  | updated (index : Nat) (update : JobUpdate) (computedAt : Time) (calls : List Call)
      (kept : world.Keeps readSchedule calls)
      (call : world.calls[index]? = some (.updating update computedAt)) :
      Step world (.proceed index)
        { world with
          jobs := updateJob world.jobs update
          calls := calls
          log := .edited update :: world.log }
  | removed (id : String) :
      Step world (.removeJob id) { world with jobs := removeJob world.jobs id }
  | polled (idle : world.phase = .waiting []) :
      Step world .poll { world with phase := .polled world.now }
  | cleaned (now : Time) (phase : world.phase = .polled now) :
      Step world .cleanup
        { world with jobs := cleanupExpiredJobs world.jobs now, phase := .cleaned now }
  | fetched (now : Time) (jobs : List CronJob) (phase : world.phase = .cleaned now)
      (due : DueJobs world.jobs now jobs) :
      Step world (.fetch jobs) { world with phase := .waiting jobs }
  | skipped (job : CronJob) (jobs : List CronJob) (phase : world.phase = .waiting (job :: jobs)) :
      Step world .start { world with phase := .waiting jobs }
  | started (job : CronJob) (jobs : List CronJob) (phase : world.phase = .waiting (job :: jobs))
      (closed : jobBreakerIsOpen job world.now = false) :
      Step world .start
        { world with phase := .running job jobs, log := .started job :: world.log }
  | lost (job : CronJob) (jobs : List CronJob) (success : Bool) (message : String)
      (phase : world.phase = .running job jobs)
      (failed : recordFor readSchedule job success
        (nextJobBreakerState config job success world.now) world.now = .error message) :
      Step world (.finish success)
        { world with
          phase := world.afterRun jobs
          log := .finished job.id success world.now :: world.log }
  | finished (job : CronJob) (jobs : List CronJob) (success : Bool) (record : RunRecord)
      (phase : world.phase = .running job jobs)
      (made : recordFor readSchedule job success
        (nextJobBreakerState config job success world.now) world.now = .ok record) :
      Step world (.finish success)
        { world with
          phase := .recording job record jobs
          log := .finished job.id success world.now :: world.log }
  | recorded (job : CronJob) (record : RunRecord) (jobs : List CronJob)
      (phase : world.phase = .recording job record jobs) :
      Step world .record
        { world with
          jobs := rescheduleAfterRun world.jobs record
          phase := world.afterRun jobs }

variable {readSchedule config} {world next : World} {action : Action}

theorem World.Keeps.refl (world : World) : world.Keeps readSchedule world.calls := id

theorem World.Keeps.cons {calls : List Call} {call : Call} (kept : world.Keeps readSchedule calls)
    (sound : (∀ other ∈ world.calls, other.Sound readSchedule world.now) →
      call.Sound readSchedule world.now) : world.Keeps readSchedule (call :: calls) :=
  fun before => forall_mem_cons.mpr ⟨sound before, kept before⟩

theorem keeps_eraseIdx (world : World) (index : Nat) :
    world.Keeps readSchedule (world.calls.eraseIdx index) :=
  fun before call member => before call (mem_of_mem_eraseIdx member)

theorem proceed_cases {index : Nat} {call : Call} (found : world.calls[index]? = some call)
    (stepped : proceed readSchedule world (world.calls.eraseIdx index) call = some next) :
    Step readSchedule config world (.proceed index) next := by
  have member : call ∈ world.calls := mem_of_getElem? found
  have others : world.Keeps readSchedule (world.calls.eraseIdx index) := keeps_eraseIdx world index
  cases call with
  | cleaning job createdAt =>
    cases stepped
    exact .expired index job createdAt _ (others.cons fun before => before (.cleaning job createdAt) member) member
  | counting job createdAt =>
    rw [proceed] at stepped
    split at stepped
    · cases stepped
      exact .quiet _ _ world.shutdown others
    · cases stepped
      exact .quiet _ _ world.shutdown
        (others.cons fun before => before (.counting job createdAt) member)
  | inserting job createdAt =>
    rw [proceed] at stepped
    split at stepped
    case isTrue => cases stepped
    case isFalse unknown =>
      split at stepped
      · cases stepped
        exact .quiet _ _ world.shutdown others
      · rename_i jobs inserted
        cases stepped
        exact .inserted index job createdAt _ jobs others member unknown inserted
  | preparing existing request =>
    rw [proceed] at stepped
    split at stepped
    · cases stepped
      exact .quiet _ _ world.shutdown others
    · rename_i update made
      cases stepped
      exact .quiet _ _ world.shutdown
        (others.cons fun _ => ⟨(updateFor_computed made).2, le_refl _⟩)
  | updating update computedAt =>
    cases stepped
    exact .updated index update computedAt _ others found

theorem step_cases (stepped : step readSchedule config world action = some next) :
    Step readSchedule config world action next := by
  have same : world.Keeps readSchedule world.calls := .refl world
  cases action with
  | pass micros =>
    cases stepped
    exact .pass micros
  | addJob id expression command metadata =>
    rw [step] at stepped
    split at stepped
    · cases stepped
      exact .quiet _ _ world.shutdown same
    · rename_i job made
      cases stepped
      refine .quiet _ _ world.shutdown (same.cons fun _ => ?_)
      have fresh := (newJob_fresh made).2
      split
      · exact ⟨fresh, le_refl _⟩
      · exact ⟨fresh, le_refl _⟩
  | selectJob request =>
    rw [step] at stepped
    split at stepped
    · cases stepped
      exact .quiet _ _ world.shutdown same
    · cases stepped
      exact .quiet _ _ world.shutdown (same.cons fun _ => trivial)
  | proceed index =>
    rw [step] at stepped
    split at stepped
    · cases stepped
    · rename_i call found
      exact proceed_cases found stepped
  | removeJob id =>
    cases stepped
    exact .removed id
  | shutDown =>
    cases stepped
    exact .quiet _ _ true same
  | poll =>
    rw [step] at stepped
    split at stepped
    case isTrue idle =>
      cases stepped
      exact .polled idle.1
    case isFalse => cases stepped
  | cleanup =>
    rw [step] at stepped
    split at stepped
    · rename_i now phase
      cases stepped
      exact .cleaned now phase
    · cases stepped
  | fetch jobs =>
    rw [step] at stepped
    split at stepped
    · rename_i now phase
      split at stepped
      case isTrue due =>
        cases stepped
        exact .fetched now jobs phase due
      case isFalse => cases stepped
    · cases stepped
  | start =>
    rw [step] at stepped
    split at stepped
    · rename_i job jobs phase
      split at stepped
      case isTrue =>
        cases stepped
        exact .skipped job jobs phase
      case isFalse closed =>
        cases stepped
        exact .started job jobs phase (Bool.eq_false_iff.mpr closed)
    · cases stepped
  | finish success =>
    rw [step] at stepped
    split at stepped
    · rename_i job jobs phase
      dsimp only at stepped
      split at stepped
      · rename_i message failed
        cases stepped
        exact .lost job jobs success message phase failed
      · rename_i record made
        cases stepped
        exact .finished job jobs success record phase made
    · cases stepped
  | record =>
    rw [step] at stepped
    split at stepped
    · rename_i job record jobs phase
      cases stepped
      exact .recorded job record jobs phase
    · cases stepped

end Steps

section Soundness

variable (readSchedule : Chars → Option Schedule)

/-- Jobs as the table held them when they were due. -/
structure Fetched (jobs : List CronJob) (ids : List String) (now : Time) : Prop where
  known : ∀ job ∈ jobs, job.id ∈ ids
  due : ∀ job ∈ jobs, job.nextRun ≤ now
  distinct : (jobs.map CronJob.id).Nodup

/-- The values of a record were computed when the run ended. -/
structure RunRecord.Sound (record : RunRecord) (job : CronJob) (now : Time) : Prop where
  id : record.id = job.id
  computed : ∃ computedAt ≤ now, job.nextRun ≤ computedAt ∧
    nextRunFor readSchedule job.expression computedAt = .ok record.nextRun

def Phase.Sound (ids : List String) (now : Time) : Phase → Prop
  | .waiting jobs => Fetched jobs ids now
  | .polled moment | .cleaned moment => moment ≤ now
  | .running job jobs => Fetched (job :: jobs) ids now
  | .recording job record jobs => Fetched (job :: jobs) ids now ∧ record.Sound readSchedule job now

structure Sound (world : World) : Prop where
  calls : ∀ call ∈ world.calls, call.Sound readSchedule world.now
  rows : ∀ job ∈ world.jobs.rows, job.id ∈ addedIds world.log
  phase : world.phase.Sound readSchedule (addedIds world.log) world.now

variable {readSchedule} {config : ReliabilityConfig} {world next : World} {action : Action}

theorem Call.Sound.later {call : Call} {now later : Time} (sound : call.Sound readSchedule now)
    (passed : now ≤ later) : call.Sound readSchedule later := by
  cases call with
  | cleaning job createdAt => exact ⟨sound.1, sound.2.trans passed⟩
  | counting job createdAt => exact ⟨sound.1, sound.2.trans passed⟩
  | inserting job createdAt => exact ⟨sound.1, sound.2.trans passed⟩
  | preparing existing request => trivial
  | updating update computedAt => exact ⟨sound.1, sound.2.trans passed⟩

section Fetched

variable {jobs others : List CronJob} {ids more : List String} {now later : Time}

theorem Fetched.mono (fetched : Fetched jobs ids now) (known : ids ⊆ more) (passed : now ≤ later) :
    Fetched jobs more later :=
  ⟨fun job member => known (fetched.known job member),
    fun job member => (fetched.due job member).trans passed, fetched.distinct⟩

theorem Fetched.sublist (fetched : Fetched jobs ids now) (fewer : others.Sublist jobs) :
    Fetched others ids now :=
  ⟨fun job member => fetched.known job (fewer.subset member),
    fun job member => fetched.due job (fewer.subset member),
    fetched.distinct.sublist (fewer.map _)⟩

theorem Phase.Sound.mono {phase : Phase} (sound : phase.Sound readSchedule ids now)
    (known : ids ⊆ more) (passed : now ≤ later) : phase.Sound readSchedule more later := by
  cases phase with
  | waiting jobs => exact Fetched.mono sound known passed
  | polled moment => exact le_trans sound passed
  | cleaned moment => exact le_trans sound passed
  | running job jobs => exact Fetched.mono sound known passed
  | recording job record jobs =>
    obtain ⟨fetched, id, computedAt, before, computed⟩ := sound
    exact ⟨fetched.mono known passed, id, computedAt, before.trans passed, computed⟩

theorem Phase.Sound.known {phase : Phase} (sound : phase.Sound readSchedule ids now) :
    ∀ job ∈ phase.jobs, job.id ∈ ids := by
  cases phase with
  | waiting jobs => exact Fetched.known sound
  | polled moment => exact fun _ member => absurd member not_mem_nil
  | cleaned moment => exact fun _ member => absurd member not_mem_nil
  | running job jobs => exact Fetched.known sound
  | recording job record jobs => exact sound.1.known

/-- After a run the scheduler waits with a part of its batch. -/
theorem afterRun_eq (world : World) (jobs : List CronJob) :
    ∃ rest, world.afterRun jobs = .waiting rest ∧ rest.Sublist jobs := by
  refine ⟨_, rfl, ?_⟩
  split
  · exact nil_sublist jobs
  · exact Sublist.refl jobs

theorem Fetched.afterRun (fetched : Fetched jobs ids now) (world : World) :
    (world.afterRun jobs).Sound readSchedule ids now := by
  obtain ⟨rest, phase, fewer⟩ := afterRun_eq world jobs
  rw [phase]
  exact fetched.sublist fewer

end Fetched

theorem sound_empty (now : Time) : Sound readSchedule (World.empty now) where
  calls := fun _ member => absurd member not_mem_nil
  rows := fun _ member => absurd member not_mem_nil
  phase := ⟨fun _ member => absurd member not_mem_nil,
    fun _ member => absurd member not_mem_nil, nodup_nil⟩

section Rows

variable {table : CronTable} {ids : List String}

/-- The rows of a batch are rows of the table. -/
theorem fetched_of_due {jobs : List CronJob} {moment now : Time} (due : DueJobs table moment jobs)
    (rows : ∀ job ∈ table.rows, job.id ∈ ids) (before : moment ≤ now) : Fetched jobs ids now := by
  have inTable : ∀ job ∈ jobs, job ∈ table.rows ∧ isDue moment job = true := fun job member =>
    mem_filter.mp (due.1.mem_iff.mp member)
  refine ⟨fun job member => rows job (inTable job member).1, fun job member => ?_, ?_⟩
  · have isDue := (inTable job member).2
    simp only [Cron.isDue, Bool.and_eq_true, decide_eq_true_eq] at isDue
    exact isDue.1.1.2.trans before
  · exact (due.1.map _).nodup_iff.mpr (table.distinct.sublist (filter_sublist.map _))

/-- A statement that keeps the identifiers. -/
theorem updateWhere_ids (condition : CronJob → Bool) (set : CronJob → CronJob)
    (kept : ∀ job, (set job).id = job.id) (rows : ∀ job ∈ table.rows, job.id ∈ ids) :
    ∀ job ∈ (table.updateWhere condition set kept).rows, job.id ∈ ids := by
  intro job member
  obtain ⟨old, inRows, rfl⟩ := mem_map.mp member
  split
  · rw [kept]
    exact rows old inRows
  · exact rows old inRows

end Rows

theorem Sound.step (sound : Sound readSchedule world)
    (stepped : step readSchedule config world action = some next) : Sound readSchedule next := by
  have deleted : ∀ condition, ∀ job ∈ (world.jobs.deleteWhere condition).rows,
      job.id ∈ addedIds world.log := fun condition job member =>
    sound.rows job (mem_filter.mp member).1
  have phaseSound := sound.phase
  cases step_cases stepped with
  | pass micros =>
    have passed : world.now ≤ world.now + micros := le_add_of_nonneg_right (Int.natCast_nonneg _)
    exact ⟨fun call member => (sound.calls call member).later passed, sound.rows,
      phaseSound.mono (Subset.refl _) passed⟩
  | quiet _ calls shutdown kept => exact ⟨kept sound.calls, sound.rows, phaseSound⟩
  | expired index job createdAt calls kept => exact ⟨kept sound.calls, deleted _, phaseSound⟩
  | inserted index job createdAt calls jobs kept call unknown inserted =>
    refine ⟨kept sound.calls, fun row member => ?_,
      phaseSound.mono (subset_cons_self _ _) (le_refl _)⟩
    rw [(KeyedTable.rows_insert inserted).1, mem_append, mem_singleton] at member
    rcases member with old | rfl
    · exact mem_cons_of_mem _ (sound.rows row old)
    · exact mem_cons_self
  | updated index update computedAt calls kept =>
    exact ⟨kept sound.calls, updateWhere_ids _ _ update.set_id sound.rows, phaseSound⟩
  | removed id => exact ⟨sound.calls, deleted _, phaseSound⟩
  | polled idle => exact ⟨sound.calls, sound.rows, le_refl world.now⟩
  | cleaned now phase =>
    rw [phase] at phaseSound
    exact ⟨sound.calls, deleted _, phaseSound⟩
  | fetched now jobs phase due =>
    rw [phase] at phaseSound
    exact ⟨sound.calls, sound.rows, fetched_of_due due sound.rows phaseSound⟩
  | skipped job jobs phase =>
    rw [phase] at phaseSound
    exact ⟨sound.calls, sound.rows, Fetched.sublist phaseSound (sublist_cons_self _ _)⟩
  | started job jobs phase closed =>
    rw [phase] at phaseSound
    exact ⟨sound.calls, sound.rows, phaseSound⟩
  | lost job jobs success message phase failed =>
    rw [phase] at phaseSound
    exact ⟨sound.calls, sound.rows,
      (Fetched.sublist phaseSound (sublist_cons_self _ _)).afterRun world⟩
  | finished job jobs success record phase made =>
    rw [phase] at phaseSound
    obtain ⟨id, computed, _⟩ := recordFor_computed made
    exact ⟨sound.calls, sound.rows, phaseSound, id, world.now, le_refl _,
      Fetched.due phaseSound job mem_cons_self, computed⟩
  | recorded job record jobs phase =>
    rw [phase] at phaseSound
    exact ⟨sound.calls, updateWhere_ids _ _ record.set_id sound.rows,
      (phaseSound.1.sublist (sublist_cons_self _ _)).afterRun world⟩

end Soundness

end Asterel.Cron
