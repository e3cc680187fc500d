import Asterel.Library.KeyedTable
import Asterel.Platform.CronExpression

/-!
# The table of cron jobs

Jobs are rows with an identifier each. A call of the repository computes the values of
its statements outside of the database, so each statement is one function of the table,
and what is computed before it is another.
-/

namespace Asterel.Cron

open Library Text

inductive CronJobKind where
  | user
  | agent
deriving DecidableEq

inductive CronJobOrigin where
  | user
  | agent
deriving DecidableEq

structure CronJob where
  id : String
  enabled : Bool
  expression : Chars
  command : Chars
  nextRun : Time
  lastRun : Option Time
  lastStatus : Option String
  jobKind : CronJobKind
  origin : CronJobOrigin
  expiresAt : Option Time
  maxAttempts : Nat
  consecutiveFailures : Nat
  breakerOpenUntil : Option Time
deriving DecidableEq

structure CronJobMetadata where
  jobKind : CronJobKind
  origin : CronJobOrigin
  expiresAt : Option Time
  maxAttempts : Nat

def CronJobMetadata.default : CronJobMetadata := ⟨.user, .user, none, 1⟩

def agentPendingCap : Nat := 5

abbrev CronTable := KeyedTable CronJob.id

section Validation

def isShellEnvAssignment (token : Chars) : Bool :=
  match splitOnce '=' token with
  | some (first :: chars, _) =>
    (first.isAlpha || first = '_') && chars.all fun ch => ch.isAlphanum || ch = '_'
  | _ => false

def firstExecutableToken (command : Chars) : Option Chars :=
  (splitWhitespace command).find? fun token => ! isShellEnvAssignment token

def isLegacyPlannerCommand (command : Chars) : Bool :=
  (firstExecutableToken command).any fun token =>
    token = "plan".toList || "plan:".toList.isPrefixOf token

def legacyPlannerCronCommandMessage : String :=
  "legacy planner cron commands are no longer accepted on the primary runtime"

def validateMainRuntimeCronCommand (command : Chars) : Except String Unit :=
  if isLegacyPlannerCommand command then .error legacyPlannerCronCommandMessage else .ok ()

end Validation

section Calls

variable (readSchedule : Chars → Option Schedule)

/-- The row that `add_job_meta` inserts. -/
def newJob (id : String) (expression command : Chars) (metadata : CronJobMetadata) (now : Time) :
    Except String CronJob := do
  validateMainRuntimeCronCommand command
  let nextRun ← nextRunFor readSchedule expression now
  return {
    id := id
    enabled := true
    expression := expression
    command := command
    nextRun := nextRun
    lastRun := none
    lastStatus := none
    jobKind := metadata.jobKind
    origin := metadata.origin
    expiresAt := metadata.expiresAt
    maxAttempts := max metadata.maxAttempts 1
    consecutiveFailures := 0
    breakerOpenUntil := none }

/-- What a caller of `update_job` asks for. -/
structure UpdateRequest where
  id : String
  expression : Option Chars
  command : Option Chars
  enabled : Option Bool

/-- The values that the statement of `update_job` binds. -/
structure JobUpdate where
  id : String
  enabled : Bool
  expression : Chars
  command : Chars
  nextRun : Time
deriving DecidableEq

def updateFor (existing : CronJob) (request : UpdateRequest) (now : Time) : Except String JobUpdate :=
  let expression := trim (request.expression.getD existing.expression)
  let command := trim (request.command.getD existing.command)
  if expression = [] ∨ command = [] then .error "expression and command must not be empty"
  else do
    validateMainRuntimeCronCommand command
    let nextRun ← nextRunFor readSchedule expression now
    return ⟨request.id, request.enabled.getD existing.enabled, expression, command, nextRun⟩

/-- The values that record a run. -/
structure RunRecord where
  id : String
  nextRun : Time
  lastRun : Time
  lastStatus : String
  consecutiveFailures : Nat
  breakerOpenUntil : Option Time
deriving DecidableEq

def recordFor (job : CronJob) (success : Bool) (breaker : Nat × Option Time) (now : Time) :
    Except String RunRecord := do
  let nextRun ← nextRunFor readSchedule job.expression now
  return ⟨job.id, nextRun, now, if success then "ok" else "error", breaker.1, breaker.2⟩

end Calls

section Statements

def expired (now : Time) (job : CronJob) : Bool := job.expiresAt.any fun expiresAt => expiresAt ≤ now

def cleanupExpiredJobs (table : CronTable) (now : Time) : CronTable := table.deleteWhere (expired now)

def pendingAgentJobs (table : CronTable) (now : Time) : Nat :=
  table.rows.countP fun job => job.origin = .agent && ! expired now job

def isDue (now : Time) (job : CronJob) : Bool :=
  job.enabled && job.nextRun ≤ now && ! expired now job &&
    job.breakerOpenUntil.all fun breakerOpenUntil => breakerOpenUntil ≤ now

/-- The due jobs in the order of their next runs; equal ones come in any order. -/
def DueJobs (table : CronTable) (now : Time) (jobs : List CronJob) : Prop :=
  jobs.Perm (table.rows.filter (isDue now)) ∧
    jobs.Pairwise fun first second => first.nextRun ≤ second.nextRun

instance (table : CronTable) (now : Time) (jobs : List CronJob) : Decidable (DueJobs table now jobs) :=
  inferInstanceAs (Decidable (_ ∧ _))

def JobUpdate.set (update : JobUpdate) (job : CronJob) : CronJob :=
  { job with
    enabled := update.enabled
    expression := update.expression
    command := update.command
    nextRun := update.nextRun
    breakerOpenUntil := if update.enabled then job.breakerOpenUntil else none }

theorem JobUpdate.set_id (update : JobUpdate) (job : CronJob) : (update.set job).id = job.id := rfl

def updateJob (table : CronTable) (update : JobUpdate) : CronTable :=
  table.updateWhere (fun job => job.id = update.id) update.set update.set_id

def removeJob (table : CronTable) (id : String) : CronTable :=
  table.deleteWhere fun job => job.id = id

def RunRecord.set (record : RunRecord) (job : CronJob) : CronJob :=
  { job with
    nextRun := record.nextRun
    lastRun := some record.lastRun
    lastStatus := some record.lastStatus
    consecutiveFailures := record.consecutiveFailures
    breakerOpenUntil := record.breakerOpenUntil }

theorem RunRecord.set_id (record : RunRecord) (job : CronJob) : (record.set job).id = job.id := rfl

def rescheduleAfterRun (table : CronTable) (record : RunRecord) : CronTable :=
  table.updateWhere (fun job => job.id = record.id) record.set record.set_id

end Statements

section Facts

variable {readSchedule : Chars → Option Schedule} {job : CronJob} {now : Time}

/-- A job that is to be inserted has never run. -/
structure Fresh (readSchedule : Chars → Option Schedule) (job : CronJob) (now : Time) : Prop where
  enabled : job.enabled = true
  computed : nextRunFor readSchedule job.expression now = .ok job.nextRun
  failures : job.consecutiveFailures = 0
  closed : job.breakerOpenUntil = none

theorem newJob_fresh {id : String} {expression command : Chars} {metadata : CronJobMetadata}
    (made : newJob readSchedule id expression command metadata now = .ok job) :
    job.id = id ∧ Fresh readSchedule job now := by
  rw [newJob] at made
  cases valid : validateMainRuntimeCronCommand command with
  | error message =>
    rw [valid] at made
    cases made
  | ok _ =>
    cases computed : nextRunFor readSchedule expression now with
    | error message =>
      rw [valid, computed] at made
      cases made
    | ok nextRun =>
      rw [valid, computed] at made
      cases made
      exact ⟨rfl, rfl, computed, rfl, rfl⟩

theorem updateFor_computed {existing : CronJob} {request : UpdateRequest} {update : JobUpdate}
    (made : updateFor readSchedule existing request now = .ok update) :
    update.id = request.id ∧
      nextRunFor readSchedule update.expression now = .ok update.nextRun := by
  rw [updateFor] at made
  generalize trim (request.expression.getD existing.expression) = expression at made
  generalize trim (request.command.getD existing.command) = command at made
  split at made
  case isTrue => cases made
  case isFalse =>
    cases valid : validateMainRuntimeCronCommand command with
    | error message =>
      rw [valid] at made
      cases made
    | ok _ =>
      cases computed : nextRunFor readSchedule expression now with
      | error message =>
        rw [valid, computed] at made
        cases made
      | ok nextRun =>
        rw [valid, computed] at made
        cases made
        exact ⟨rfl, computed⟩

theorem recordFor_computed {success : Bool} {breaker : Nat × Option Time} {record : RunRecord}
    (made : recordFor readSchedule job success breaker now = .ok record) :
    record.id = job.id ∧ nextRunFor readSchedule job.expression now = .ok record.nextRun ∧
      (record.consecutiveFailures, record.breakerOpenUntil) = breaker := by
  rw [recordFor] at made
  cases computed : nextRunFor readSchedule job.expression now with
  | error message =>
    rw [computed] at made
    cases made
  | ok nextRun =>
    rw [computed] at made
    cases made
    exact ⟨rfl, rfl, rfl⟩

theorem recordFor_of_later {success : Bool} {breaker : Nat × Option Time}
    (later : HasLater readSchedule job.expression now) (message : String) :
    recordFor readSchedule job success breaker now ≠ .error message := by
  obtain ⟨time, occurs, after⟩ := later
  obtain ⟨next, computed⟩ := nextRunFor_of_later occurs after
  rw [recordFor, computed]
  intro failed
  cases failed

end Facts

end Asterel.Cron
