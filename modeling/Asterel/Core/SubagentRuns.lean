import Asterel.Library.HashMap
import Asterel.Library.Transitions

/-!
# The life of a subagent run

A spawn inserts the record of its run, starts the task and then stores the handle
of the task in the record, each under a lock of its own. The task executes and
completes the record when it returns. A cancel takes whatever handle the record
holds and aborts that task.

The records keep their shape in every run of the manager. A cancel that comes before
the handle is stored has nothing to abort, and the handle is dropped when the spawn
finds the record cancelled. The task then goes on executing.
-/

namespace Asterel.Subagents

open Library Transitions AList

section Records

structure SubagentDelegationConfig where
  depth : Nat
  maxDepth : Nat
  childQuota : Nat
deriving DecidableEq

inductive SubagentRunStatus where
  | running
  | completed
  | failed
  | cancelled
deriving DecidableEq

/-- What the manager reads and writes of a run. -/
structure SubagentRunSnapshot where
  runId : String
  parentEntityId : Option String
  delegation : Option SubagentDelegationConfig
  status : SubagentRunStatus
  output : Option String
  error : Option String
  finishedAt : Option String
deriving DecidableEq

/-- The record of a run, and whether it holds the handle of the run's task. -/
structure SubagentRunEntry where
  snapshot : SubagentRunSnapshot
  handle : Bool
deriving DecidableEq

/-- The record that a spawn inserts. -/
def SubagentRunEntry.new (runId : String) (parentEntityId : Option String)
    (delegation : Option SubagentDelegationConfig) : SubagentRunEntry where
  snapshot :=
    { runId, parentEntityId, delegation, status := .running, output := none, error := none,
      finishedAt := none }
  handle := false

variable (entry : SubagentRunEntry)

/-- The handle is kept only by a running record. -/
def SubagentRunEntry.storeHandle : SubagentRunEntry :=
  if entry.snapshot.status = .running then { entry with handle := true } else entry

/-- The outcome of the task. -/
def SubagentRunSnapshot.settle (snapshot : SubagentRunSnapshot) :
    Except String String → SubagentRunSnapshot
  | .ok output => { snapshot with status := .completed, output := some output, error := none }
  | .error error => { snapshot with status := .failed, output := none, error := some error }

/-- A cancel is authoritative, so a cancelled record stays as it is. -/
def SubagentRunEntry.completeRun (result : Except String String) (now : String) :
    SubagentRunEntry :=
  if entry.snapshot.status = .cancelled then entry
  else ⟨{ entry.snapshot with finishedAt := some now }.settle result, false⟩

def SubagentRunEntry.cancel (now : String) : SubagentRunEntry :=
  if entry.snapshot.status ≠ .running then entry
  else
    { snapshot :=
        { entry.snapshot with
          status := .cancelled, output := none, error := some "cancelled", finishedAt := some now }
      handle := false }

/-- Only a running record gives its handle up to be aborted. -/
def SubagentRunEntry.aborts : Bool :=
  entry.snapshot.status = .running && entry.handle

/-- A finished record has a finish time, and exactly a completed one has an output. -/
structure SubagentRunEntry.Consistent : Prop where
  output : entry.snapshot.output.isSome ↔ entry.snapshot.status = .completed
  finished : entry.snapshot.finishedAt.isSome ↔ entry.snapshot.status ≠ .running

end Records

section Tasks

/-- What the task of a run is doing. A task that has returned only completes its
record. -/
inductive Task where
  | notStarted
  | executing
  | returned (result : Except String String)
  | finished
  | aborted

/-- The task executes no tools, now and later. -/
def Task.Stopped : Task → Prop
  | .notStarted | .executing => False
  | .returned _ | .finished | .aborted => True

/-- An abort takes effect unless the task has nothing left to execute. -/
def Task.abort : Task → Task
  | .executing => .aborted
  | task => task

/-- A run with its task, whether the spawn has come to the handle, and every status
that the record has had, the latest first. -/
structure Run where
  entry : SubagentRunEntry
  task : Task
  stored : Bool
  statuses : List SubagentRunStatus

def Run.new (runId : String) (parentEntityId : Option String)
    (delegation : Option SubagentDelegationConfig) : Run :=
  ⟨.new runId parentEntityId delegation, .notStarted, false, [.running]⟩

/-- Replace the record. A status that differs is a move. -/
def Run.write (run : Run) (entry : SubagentRunEntry) : Run :=
  { run with
    entry
    statuses :=
      if entry.snapshot.status = run.entry.snapshot.status then run.statuses
      else entry.snapshot.status :: run.statuses }

/-- What happens to one run, one lock acquisition or one turn of its task at a time. -/
inductive RunEvent where
  | start
  | storeHandle
  | finish (result : Except String String)
  | complete (now : String)
  | cancel (now : String)

def Run.cancel (run : Run) (now : String) : Run :=
  { run.write (run.entry.cancel now) with
    task := if run.entry.aborts then run.task.abort else run.task }

def Run.advance (run : Run) : RunEvent → Option Run
  | .start =>
    match run.task with
    | .notStarted => some { run with task := .executing }
    | _ => none
  | .storeHandle =>
    match run.task, run.stored with
    | .notStarted, _ => none
    | _, true => none
    | _, false => some { run.write run.entry.storeHandle with stored := true }
  | .finish result =>
    match run.task with
    | .executing => some { run with task := .returned result }
    | _ => none
  | .complete now =>
    match run.task with
    | .returned result => some { run.write (run.entry.completeRun result now) with task := .finished }
    | _ => none
  | .cancel now => some (run.cancel now)

/-- The status has moved at most once, from running to the present one. -/
def Run.MovedOnce (run : Run) : Prop :=
  run.statuses = [.running] ∧ run.entry.snapshot.status = .running ∨
    run.statuses = [run.entry.snapshot.status, .running] ∧ run.entry.snapshot.status ≠ .running

structure Run.Recorded (run : Run) : Prop where
  moved : run.MovedOnce
  consistent : run.entry.Consistent

/-- A cancelled run executes no tools. -/
def Run.CancelStops (run : Run) : Prop :=
  run.entry.snapshot.status = .cancelled → run.task.Stopped

/-- What the code keeps between a record and its task: a handle is the one of a started
task, a stopped task has settled its record, and only a task of its own completes a
record. -/
structure Run.Linked (run : Run) : Prop where
  started : run.entry.handle = true → run.task ≠ .notStarted
  settled : run.task = .finished ∨ run.task = .aborted → run.entry.snapshot.status ≠ .running
  returned : run.entry.snapshot.status = .running ∨ run.entry.snapshot.status = .cancelled ∨
    run.task = .finished

/-- A cancel of this run has a task to abort, or needs none. -/
def Run.Cancellable (run : Run) : Prop :=
  run.entry.snapshot.status = .running →
    run.entry.handle = true ∨ ∃ result, run.task = .returned result

end Tasks

section Events

variable {run next : Run} {event : RunEvent}
variable (now runId : String)

/-- Everything that an event can make of a run. -/
inductive Advances (run : Run) : RunEvent → Run → Prop where
  | start (fresh : run.task = .notStarted) : Advances run .start { run with task := .executing }
  | storeHandle (started : run.task ≠ .notStarted) :
    Advances run .storeHandle { run.write run.entry.storeHandle with stored := true }
  | finish (executing : run.task = .executing) (result : Except String String) :
    Advances run (.finish result) { run with task := .returned result }
  | complete {result : Except String String} (returned : run.task = .returned result)
      (now : String) :
    Advances run (.complete now)
      { run.write (run.entry.completeRun result now) with task := .finished }
  | cancel (now : String) : Advances run (.cancel now) (run.cancel now)

theorem advances_of_advance (advanced : run.advance event = some next) :
    Advances run event next := by
  cases event with
  | start =>
    rw [Run.advance] at advanced
    split at advanced <;> cases advanced
    next fresh => exact .start fresh
  | storeHandle =>
    rw [Run.advance] at advanced
    split at advanced <;> cases advanced
    next started => exact .storeHandle (by simpa using started)
  | finish result =>
    rw [Run.advance] at advanced
    split at advanced <;> cases advanced
    next executing => exact .finish executing result
  | complete now =>
    rw [Run.advance] at advanced
    split at advanced <;> cases advanced
    next returned => exact .complete returned now
  | cancel now =>
    cases advanced
    exact .cancel now

theorem new_recorded (parentEntityId : Option String)
    (delegation : Option SubagentDelegationConfig) :
    (Run.new runId parentEntityId delegation).Recorded :=
  ⟨.inl ⟨rfl, rfl⟩, ⟨by simp [Run.new, SubagentRunEntry.new], by simp [Run.new, SubagentRunEntry.new]⟩⟩

/-- Writing a terminal status over a running record is its one move. -/
theorem write_recorded {entry : SubagentRunEntry} (recorded : run.Recorded)
    (running : run.entry.snapshot.status = .running) (consistent : entry.Consistent) :
    (run.write entry).Recorded := by
  refine ⟨?_, consistent⟩
  have statuses : run.statuses = [.running] := by
    rcases recorded.moved with ⟨only, _⟩ | ⟨_, moved⟩
    · exact only
    · exact absurd running moved
  rw [Run.MovedOnce, Run.write, running, statuses]
  by_cases same : entry.snapshot.status = .running
  · exact .inl ⟨if_pos same, same⟩
  · exact .inr ⟨if_neg same, same⟩

/-- Writing the record that is there changes nothing. -/
@[simp] theorem write_self : run.write run.entry = run := by
  rw [Run.write, if_pos rfl]

theorem storeHandle_status : run.entry.storeHandle.snapshot = run.entry.snapshot := by
  rw [SubagentRunEntry.storeHandle]
  split_ifs <;> rfl

/-- A record that no longer runs is not cancelled. -/
theorem cancel_of_settled (settled : run.entry.snapshot.status ≠ .running) :
    run.cancel now = run := by
  have unchanged : run.entry.cancel now = run.entry := by
    rw [SubagentRunEntry.cancel, if_pos settled]
  have none : run.entry.aborts = false := by
    rw [SubagentRunEntry.aborts, decide_eq_false settled, Bool.false_and]
  rw [Run.cancel, unchanged, write_self, none, if_neg Bool.false_ne_true]

/-- The cancelled record of a running one. -/
theorem cancel_of_running (running : run.entry.snapshot.status = .running) :
    (run.cancel now).entry.snapshot.status = .cancelled ∧ (run.cancel now).entry.handle = false ∧
      (run.cancel now).task = if run.entry.handle then run.task.abort else run.task := by
  simp [Run.cancel, Run.write, SubagentRunEntry.cancel, SubagentRunEntry.aborts, running]

theorem storeHandle_recorded (recorded : run.Recorded) :
    (run.write run.entry.storeHandle).Recorded := by
  rw [SubagentRunEntry.storeHandle]
  split_ifs with running
  · exact write_recorded recorded running ⟨recorded.consistent.output, recorded.consistent.finished⟩
  · rwa [write_self]

theorem completeRun_recorded (result : Except String String) (now : String)
    (recorded : run.Recorded)
    (unfinished : run.entry.snapshot.status = .running ∨ run.entry.snapshot.status = .cancelled) :
    (run.write (run.entry.completeRun result now)).Recorded := by
  rw [SubagentRunEntry.completeRun]
  rcases unfinished with running | cancelled
  · rw [running, if_neg nofun]
    apply write_recorded recorded running
    cases result with
    | ok output => exact ⟨by simp [SubagentRunSnapshot.settle], by simp [SubagentRunSnapshot.settle]⟩
    | error error => exact ⟨by simp [SubagentRunSnapshot.settle], by simp [SubagentRunSnapshot.settle]⟩
  · rwa [if_pos cancelled, write_self]

theorem cancel_recorded (recorded : run.Recorded) : (run.cancel now).Recorded := by
  by_cases running : run.entry.snapshot.status = .running
  · have written : (run.write (run.entry.cancel now)).Recorded := by
      apply write_recorded recorded running
      rw [SubagentRunEntry.cancel, if_neg (not_not.mpr running)]
      exact ⟨by simp, by simp⟩
    exact ⟨written.moved, written.consistent⟩
  · rwa [cancel_of_settled now running]

/-- Every event leaves a record with its shape. -/
theorem advance_recorded (recorded : run.Recorded) (linked : run.Linked)
    (advanced : run.advance event = some next) : next.Recorded := by
  cases advances_of_advance advanced with
  | start fresh => exact ⟨recorded.moved, recorded.consistent⟩
  | storeHandle started =>
    have written := storeHandle_recorded recorded
    exact ⟨written.moved, written.consistent⟩
  | finish executing result => exact ⟨recorded.moved, recorded.consistent⟩
  | @complete result returned now =>
    have unfinished := linked.returned
    rw [returned] at unfinished
    have written := completeRun_recorded result now recorded (by simpa using unfinished)
    exact ⟨written.moved, written.consistent⟩
  | cancel now => exact cancel_recorded now recorded

theorem new_linked (parentEntityId : Option String) (delegation : Option SubagentDelegationConfig) :
    (Run.new runId parentEntityId delegation).Linked := by
  refine ⟨?_, ?_, .inl rfl⟩
  · exact nofun
  · exact nofun

/-- A completed task has settled its record. -/
theorem completeRun_status (entry : SubagentRunEntry) (result : Except String String)
    (now : String) : (entry.completeRun result now).snapshot.status ≠ .running := by
  rw [SubagentRunEntry.completeRun]
  split_ifs with cancelled
  · simp [cancelled]
  · cases result with
    | ok output => exact nofun
    | error error => exact nofun

theorem cancel_linked (linked : run.Linked) : (run.cancel now).Linked := by
  by_cases running : run.entry.snapshot.status = .running
  · obtain ⟨status, handle, _⟩ := cancel_of_running now running
    refine ⟨?_, ?_, .inr (.inl status)⟩
    · simp [handle]
    · simp [status]
  · rwa [cancel_of_settled now running]

theorem advance_linked (linked : run.Linked) (advanced : run.advance event = some next) :
    next.Linked := by
  have returned := linked.returned
  cases advances_of_advance advanced with
  | start fresh =>
    rw [fresh] at returned
    exact ⟨nofun, nofun, by simpa using returned⟩
  | storeHandle started =>
    have status := congrArg SubagentRunSnapshot.status (@storeHandle_status run)
    refine ⟨fun _ => started, ?_, ?_⟩
    · intro stopped
      rw [Run.write, status]
      exact linked.settled stopped
    · rw [Run.write, status]
      exact returned
  | finish executing result =>
    rw [executing] at returned
    exact ⟨nofun, nofun, by simpa using returned⟩
  | @complete result returned now =>
    exact ⟨nofun, fun _ => completeRun_status run.entry result now, .inr (.inr rfl)⟩
  | cancel now => exact cancel_linked now linked

/-- Aborting stops every task that has started. -/
theorem abort_stopped {task : Task} (started : task ≠ .notStarted) : task.abort.Stopped := by
  cases task with
  | notStarted => exact absurd rfl started
  | _ => trivial

/-- A cancel stops the run exactly if it can. -/
theorem cancel_stops_iff (linked : run.Linked) (stops : run.CancelStops) :
    (run.cancel now).CancelStops ↔ run.Cancellable := by
  by_cases running : run.entry.snapshot.status = .running
  · obtain ⟨status, _, task⟩ := cancel_of_running now running
    have open_task := fun stopped => linked.settled stopped running
    rw [Run.CancelStops, Run.Cancellable, status, task]
    cases handle : run.entry.handle with
    | true => simp [running, abort_stopped (linked.started handle)]
    | false =>
      cases doing : run.task with
      | finished => exact absurd (.inl doing) open_task
      | aborted => exact absurd (.inr doing) open_task
      | _ => simp [running, Task.Stopped]
  · rw [cancel_of_settled now running]
    exact iff_of_true stops fun runs => absurd runs running

/-- The only event that can leave a cancelled run executing is a cancel. -/
theorem advance_stops (stops : run.CancelStops) (advanced : run.advance event = some next)
    (other : ∀ now, event ≠ .cancel now) : next.CancelStops := by
  cases advances_of_advance advanced with
  | start fresh =>
    intro cancelled
    have stopped := stops cancelled
    rw [fresh] at stopped
    exact stopped
  | storeHandle started =>
    intro cancelled
    apply stops
    rwa [Run.write, storeHandle_status] at cancelled
  | finish executing result => exact fun _ => trivial
  | complete returned now => exact fun _ => trivial
  | cancel now => exact absurd rfl (other now)

end Events

section Manager

/-- The runs of the manager by their ids. None is ever removed. -/
abbrev Runs := HashMap String Run

variable (runs : Runs)

def notFound (runId : String) : String := "subagent run not found: " ++ runId

def cancel (runId now : String) : Except String Unit × Runs :=
  match runs.lookup runId with
  | none => (.error (notFound runId), runs)
  | some run => (.ok (), runs.modify runId fun _ => run.cancel now)

/-- A parent may cancel its own runs only. -/
def cancelScoped (runId parentEntityId now : String) : Except String Unit × Runs :=
  match runs.lookup runId with
  | none => (.error (notFound runId), runs)
  | some run =>
    if run.entry.snapshot.parentEntityId ≠ some parentEntityId then (.error (notFound runId), runs)
    else (.ok (), runs.modify runId fun _ => run.cancel now)

/-- The parts of spawns and of their tasks, and the cancels. -/
inductive Action where
  | insert (runId : String) (parentEntityId : Option String)
      (delegation : Option SubagentDelegationConfig)
  | start (runId : String)
  | storeHandle (runId : String)
  | finish (runId : String) (result : Except String String)
  | complete (runId now : String)
  | cancel (runId now : String)
  | cancelScoped (runId parentEntityId now : String)

/-- One event of one run. -/
def advanceRun (runId : String) (event : RunEvent) : Option Runs :=
  (runs.lookup runId).bind fun run =>
    (run.advance event).map fun next => runs.modify runId fun _ => next

/-- The id of a run is a random one, which no other run has. -/
def step : Action → Option Runs
  | .insert runId parentEntityId delegation =>
    if (runs.lookup runId).isSome then none
    else some (AList.insert runId (.new runId parentEntityId delegation) runs)
  | .start runId => advanceRun runs runId .start
  | .storeHandle runId => advanceRun runs runId .storeHandle
  | .finish runId result => advanceRun runs runId (.finish result)
  | .complete runId now => advanceRun runs runId (.complete now)
  | .cancel runId now => some (cancel runs runId now).2
  | .cancelScoped runId parentEntityId now => some (cancelScoped runs runId parentEntityId now).2

/-- The run that a cancel reaches. -/
def cancelTarget : Action → Option Run
  | .cancel runId _ => runs.lookup runId
  | .cancelScoped runId parentEntityId _ =>
    (runs.lookup runId).filter fun run => run.entry.snapshot.parentEntityId = some parentEntityId
  | _ => none

/-- The step cancels no running run whose handle is still to be stored, unless the task
of that run has returned already. -/
def CancelsStoredRun (action : Action) : Prop :=
  ∀ run, cancelTarget runs action = some run → run.Cancellable

def Each (property : Run → Prop) : Prop :=
  ∀ runId run, runs.lookup runId = some run → property run

/-- All that is expected of the runs. -/
structure Lifecycle : Prop where
  recorded : Each runs Run.Recorded
  stops : Each runs Run.CancelStops

structure WellFormed : Prop where
  recorded : Each runs Run.Recorded
  linked : Each runs Run.Linked

end Manager

section Runs

variable {runs after : Runs} {action : Action}

/-- Everything that a step can do: it inserts a run, moves one on, cancels one, or
refuses a cancel. -/
inductive Steps (runs : Runs) (action : Action) : Runs → Prop where
  | insert {runId : String} (fresh : runs.lookup runId = none)
      (parentEntityId : Option String) (delegation : Option SubagentDelegationConfig)
      (none : cancelTarget runs action = none) :
    Steps runs action (AList.insert runId (.new runId parentEntityId delegation) runs)
  | advance {runId : String} {run next : Run} {event : RunEvent}
      (found : runs.lookup runId = some run) (advanced : run.advance event = some next)
      (other : ∀ now, event ≠ .cancel now) (none : cancelTarget runs action = none) :
    Steps runs action (runs.modify runId fun _ => next)
  | cancel {runId : String} {run : Run} (found : runs.lookup runId = some run) (now : String)
      (target : cancelTarget runs action = some run) :
    Steps runs action (runs.modify runId fun _ => run.cancel now)
  | refused (none : cancelTarget runs action = none) : Steps runs action runs

theorem advanceRun_steps {runId : String} {event : RunEvent}
    (stepped : advanceRun runs runId event = some after) (other : ∀ now, event ≠ .cancel now)
    (none : cancelTarget runs action = none) : Steps runs action after := by
  obtain ⟨run, found, stepped⟩ := Option.bind_eq_some_iff.mp stepped
  obtain ⟨next, advanced, rfl⟩ := Option.map_eq_some_iff.mp stepped
  exact .advance found advanced other none

theorem steps_of_step (stepped : step runs action = some after) : Steps runs action after := by
  cases action with
  | insert runId parentEntityId delegation =>
    rw [step] at stepped
    split_ifs at stepped with stored
    cases stepped
    exact .insert (by simpa using stored) parentEntityId delegation rfl
  | start runId => exact advanceRun_steps stepped nofun rfl
  | storeHandle runId => exact advanceRun_steps stepped nofun rfl
  | finish runId result => exact advanceRun_steps stepped nofun rfl
  | complete runId now => exact advanceRun_steps stepped nofun rfl
  | cancel runId now =>
    cases stepped
    rw [cancel]
    cases found : runs.lookup runId with
    | none => exact .refused found
    | some run => exact .cancel found now found
  | cancelScoped runId parentEntityId now =>
    cases stepped
    rw [cancelScoped]
    cases found : runs.lookup runId with
    | none => exact .refused (by rw [cancelTarget, found, Option.filter_none])
    | some run =>
      dsimp only
      split_ifs with foreign
      · exact .refused (by simp [cancelTarget, found, foreign])
      · exact .cancel found now (by simpa [cancelTarget, found] using foreign)

section Each

variable {property : Run → Prop} {runId : String} {run next : Run}

theorem each_insert (each : Each runs property) (new : property next) :
    Each (AList.insert runId next runs) property := by
  intro other stored found
  by_cases same : other = runId
  · subst same
    rw [lookup_insert] at found
    cases found
    exact new
  · rw [lookup_insert_ne same] at found
    exact each other stored found

theorem each_modify_iff (found : runs.lookup runId = some run) (each : Each runs property) :
    Each (runs.modify runId fun _ => next) property ↔ property next := by
  constructor
  · intro after
    apply after runId
    rw [HashMap.lookup_modify, if_pos rfl, found, Option.map_some]
  · intro new other stored looked
    rw [HashMap.lookup_modify] at looked
    split_ifs at looked with same
    · rw [same, found, Option.map_some] at looked
      cases looked
      exact new
    · exact each other stored looked

end Each

theorem step_wellFormed (wellFormed : WellFormed runs) (stepped : step runs action = some after) :
    WellFormed after := by
  obtain ⟨recorded, linked⟩ := wellFormed
  cases steps_of_step stepped with
  | insert fresh parentEntityId delegation =>
    exact ⟨each_insert recorded (new_recorded _ _ _), each_insert linked (new_linked _ _ _)⟩
  | advance found advanced =>
    have sound := recorded _ _ found
    have link := linked _ _ found
    exact ⟨(each_modify_iff found recorded).mpr (advance_recorded sound link advanced),
      (each_modify_iff found linked).mpr (advance_linked link advanced)⟩
  | cancel found now =>
    exact ⟨(each_modify_iff found recorded).mpr (cancel_recorded now (recorded _ _ found)),
      (each_modify_iff found linked).mpr (cancel_linked now (linked _ _ found))⟩
  | refused => exact ⟨recorded, linked⟩

/-- Only a cancel that reaches a run has something to meet. -/
theorem cancels_untargeted (none : cancelTarget runs action = none) :
    CancelsStoredRun runs action := by
  intro run target
  rw [none] at target
  cases target

/-- A step leaves no cancelled run executing exactly if it meets the condition. -/
theorem step_stops_iff (wellFormed : WellFormed runs) (stops : Each runs Run.CancelStops)
    (stepped : step runs action = some after) :
    Each after Run.CancelStops ↔ CancelsStoredRun runs action := by
  cases steps_of_step stepped with
  | insert fresh parentEntityId delegation none =>
    exact iff_of_true (each_insert stops nofun) (cancels_untargeted none)
  | advance found advanced other none =>
    have moved := advance_stops (stops _ _ found) advanced other
    exact iff_of_true ((each_modify_iff found stops).mpr moved) (cancels_untargeted none)
  | cancel found now target =>
    rw [each_modify_iff found stops,
      cancel_stops_iff now (wellFormed.linked _ _ found) (stops _ _ found)]
    simp [CancelsStoredRun, target]
  | refused none => exact iff_of_true stops (cancels_untargeted none)

theorem each_empty (property : Run → Prop) : Each ∅ property := by
  intro runId run found
  cases found

/-- Records and statuses are as expected in every run of the manager. Cancelled runs
have stopped in all of its states exactly if no cancel comes before its handle. -/
theorem run_lifecycle_iff (actions : List Action) :
    Always step (fun runs => Each runs Run.Recorded) ∅ actions ∧
      (Always step Lifecycle ∅ actions ↔ Guarded step CancelsStoredRun ∅ actions) := by
  have initial : WellFormed ∅ := ⟨each_empty _, each_empty _⟩
  constructor
  · exact always_of_guarded WellFormed.recorded
      (fun wellFormed _ stepped => step_wellFormed wellFormed stepped) initial (guarded_true _ _)
  · refine @always_iff_guarded_of_invariant _ _ step CancelsStoredRun Lifecycle WellFormed ?_
      (fun wellFormed _ stepped => step_wellFormed wellFormed stepped) ?_ _ initial
      ⟨each_empty _, each_empty _⟩ actions
    · intro runs action stopped
      cases action with
      | cancel => cases stopped
      | cancelScoped => cases stopped
      | _ => exact cancels_untargeted rfl
    · intro runs after action wellFormed alive stepped
      rw [← step_stops_iff wellFormed alive.stops stepped]
      exact ⟨Lifecycle.stops, fun stops => ⟨(step_wellFormed wellFormed stepped).recorded, stops⟩⟩

/-- The cancel comes between the start of the task and the storing of its handle. -/
def cancelBeforeHandle : List Action :=
  [.insert "subagent_1" (some "person-1") none, .start "subagent_1",
    .cancelScoped "subagent_1" "person-1" "2026-01-01T00:00:00Z", .storeHandle "subagent_1"]

def orphan : Run := .new "subagent_1" (some "person-1") none

/-- The run is cancelled and its task is still executing. -/
theorem cancelled_run_executes :
    ¬ ∀ actions : List Action, Always step Lifecycle ∅ actions := by
  intro always
  have guarded := (run_lifecycle_iff cancelBeforeHandle).2.mp (always cancelBeforeHandle)
  have started : advanceRun (AList.insert "subagent_1" orphan ∅) "subagent_1" .start =
      some (HashMap.modify "subagent_1" (fun _ => { orphan with task := .executing })
        (AList.insert "subagent_1" orphan ∅)) := by
    rw [advanceRun, lookup_insert]
    rfl
  have target : cancelTarget (HashMap.modify "subagent_1" (fun _ => { orphan with task := .executing })
      (AList.insert "subagent_1" orphan ∅))
      (.cancelScoped "subagent_1" "person-1" "2026-01-01T00:00:00Z") =
        some { orphan with task := .executing } := by
    rw [cancelTarget, HashMap.lookup_modify, if_pos rfl, lookup_insert]
    rfl
  obtain ⟨_, later⟩ := guarded
  obtain ⟨_, later⟩ := later _ (by rw [step, lookup_empty]; rfl)
  obtain ⟨stored, _⟩ := later _ started
  rcases stored _ target rfl with handle | ⟨result, returned⟩
  · cases handle
  · cases returned

end Runs

end Asterel.Subagents
