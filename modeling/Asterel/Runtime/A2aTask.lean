import Asterel.Library.HashMap
import Asterel.Library.Transitions

/-!
# Tasks of agent messages

An agent message registers a task, and the turn that executes it completes or fails
the task. A cancel request may arrive at any time, also after the turn. Registering
first evicts what is too old or too much, and refuses when the store is still full.

Completing, failing and canceling write the record without looking at its state. A
task therefore keeps its terminal state, and its response and its error match that
state, exactly in those runs in which no such write reaches a task that has already
reached a different terminal state. The bound on the number of tasks holds in every
run.
-/

namespace Asterel.A2a

open Library Transitions List HashMap
open Library.HashMap (IterationOrder)

def a2aMaxTasks : Nat := 10000

/-- Terminal tasks older than this are evicted. -/
def a2aTaskTtlSecs : Nat := 3600

/-- All other tasks older than this are evicted. -/
def a2aTaskHardTtlSecs : Nat := 14400

inductive A2aTaskState where
  | submitted
  | working
  | completed
  | failed
  | canceled
deriving DecidableEq

def A2aTaskState.terminal (state : A2aTaskState) : Bool :=
  state = .completed || state = .failed || state = .canceled

structure A2aOutboundPart where
  partType : String
  text : String

structure A2aOutboundMessage where
  role : String
  parts : List A2aOutboundPart

/-- Stored task record. -/
structure A2aTask where
  id : String
  conversationId : String
  state : A2aTaskState
  response : Option A2aOutboundMessage
  error : Option String
  createdAt : Nat
  tenantId : Option String
  ownerPrincipal : Option String

abbrev A2aTaskStore := HashMap String A2aTask

section Eviction

/-- The doomed tasks and their ages, the oldest first. -/
def byAge (order : IterationOrder String A2aTask) (doomed : A2aTask → Bool)
    (tasks : A2aTaskStore) : List (String × Nat) :=
  (((order.arrange tasks.entries).filter fun entry => doomed entry.2).map
    fun entry => (entry.1, entry.2.createdAt)).mergeSort fun a b => a.2 ≤ b.2

/-- Remove the oldest of the doomed tasks, as many as the store has too many. -/
def removeOldest (order : IterationOrder String A2aTask) (doomed : A2aTask → Bool)
    (tasks : A2aTaskStore) : A2aTaskStore :=
  if a2aMaxTasks < tasks.len then
    tasks.eraseAll (((byAge order doomed tasks).take (tasks.len - a2aMaxTasks)).map Prod.fst)
  else tasks

/-- Whether a task is young enough to stay. -/
def unexpired (now : Nat) (task : A2aTask) : Bool :=
  let age := now - task.createdAt
  if task.state.terminal then age ≤ a2aTaskTtlSecs else age ≤ a2aTaskHardTtlSecs

/-- Evict expired tasks, then terminal ones and last any ones above the capacity. -/
def evictStaleTasks (order : IterationOrder String A2aTask) (tasks : A2aTaskStore) (now : Nat) :
    A2aTaskStore :=
  let tasks := tasks.retain fun _ task => unexpired now task
  let tasks := removeOldest order (·.state.terminal) tasks
  removeOldest order (fun _ => true) tasks

end Eviction

section Operations

variable (tasks : A2aTaskStore)

/-- Evict, then store a working task unless the store is full. The clock is read once
for the eviction and once for the task. -/
def registerTask (order : IterationOrder String A2aTask) (taskId conversationId : String)
    (tenantId ownerPrincipal : Option String) (now createdAt : Nat) :
    Except String String × A2aTaskStore :=
  let tasks := evictStaleTasks order tasks now
  if a2aMaxTasks ≤ tasks.len then (.error "capacity_exceeded", tasks)
  else
    (.ok taskId, tasks.insert taskId
      { id := taskId, conversationId, state := .working, response := none, error := none,
        createdAt, tenantId, ownerPrincipal })

def completeTask (taskId : String) (response : A2aOutboundMessage) : A2aTaskStore :=
  tasks.modify taskId fun task =>
    { task with state := .completed, response := some response, error := none }

def failTask (taskId : String) : A2aTaskStore :=
  tasks.modify taskId fun task =>
    { task with state := .failed, error := some "LLM request failed", response := none }

/-- The response stays as it is. -/
def cancelTask (taskId : String) : A2aTaskStore :=
  tasks.modify taskId fun task => { task with state := .canceled, error := none }

end Operations

section Evicting

variable {order : IterationOrder String A2aTask} {tasks : A2aTaskStore} {id : String}
  {task : A2aTask}

theorem lookup_of_removeOldest {doomed : A2aTask → Bool}
    (found : (removeOldest order doomed tasks).lookup id = some task) :
    tasks.lookup id = some task := by
  rw [removeOldest] at found
  split_ifs at found with crowded
  · rw [lookup_eraseAll] at found
    split_ifs at found
    exact found
  · exact found

/-- Eviction removes tasks and leaves the others as they are. -/
theorem lookup_of_evicted {now : Nat}
    (found : (evictStaleTasks order tasks now).lookup id = some task) :
    tasks.lookup id = some task := by
  have retained := lookup_of_removeOldest (lookup_of_removeOldest found)
  rw [lookup_retain, Option.filter_eq_some_iff] at retained
  exact retained.1

variable (order : IterationOrder String A2aTask) (tasks : A2aTaskStore)

/-- Without a restriction every task is listed. -/
theorem byAge_all :
    ((byAge order (fun _ => true) tasks).map Prod.fst).Perm tasks.keys := by
  refine ((mergeSort_perm _ _).map Prod.fst).trans ?_
  rw [filter_true, map_map]
  exact (order.perm tasks.entries).map _

/-- Without a restriction all that is too much is removed. -/
theorem len_removeOldest_le :
    (removeOldest order (fun _ => true) tasks).len ≤ a2aMaxTasks := by
  rw [removeOldest]
  split_ifs with crowded
  · have names := byAge_all order tasks
    have count : (byAge order (fun _ => true) tasks).length = tasks.len := by
      rw [len_eq_keys, ← names.length_eq, length_map]
    generalize byAge order (fun _ => true) tasks = listed at names count ⊢
    have chosen := (take_sublist (tasks.len - a2aMaxTasks) listed).map Prod.fst
    have shorter := len_eraseAll ((names.nodup_iff.mpr tasks.keys_nodup).sublist chosen)
      fun key member => AList.mem_keys.mpr (names.subset (chosen.subset member))
    rw [length_map, length_take, count] at shorter
    omega
  · exact Nat.le_of_not_lt crowded

/-- Registering never leaves more tasks than the bound, whatever was stored. -/
theorem len_registerTask_le
    (taskId conversationId : String) (tenantId ownerPrincipal : Option String)
    (now createdAt : Nat) :
    (registerTask tasks order taskId conversationId tenantId ownerPrincipal now createdAt).2.len ≤
      a2aMaxTasks := by
  rw [registerTask]
  by_cases full : a2aMaxTasks ≤ (evictStaleTasks order tasks now).len
  · rw [if_pos full]
    exact len_removeOldest_le order _
  · rw [if_neg full]
    exact (len_insert_le _ _ _).trans (Nat.lt_of_not_le full)

end Evicting

section Runs

/-- The store before the last step and now. -/
structure Observed where
  before : A2aTaskStore
  tasks : A2aTaskStore

def Observed.new : Observed := ⟨∅, ∅⟩

/-- One critical section of the executing request or of a cancel request. -/
inductive TaskAction where
  | register (order : IterationOrder String A2aTask) (taskId conversationId : String)
      (tenantId ownerPrincipal : Option String) (now createdAt : Nat)
  | complete (taskId : String) (response : A2aOutboundMessage)
  | fail (taskId : String)
  | cancel (taskId : String)

/-- A new task id is a random one, which no stored task has. -/
def taskStep (state : Observed) : TaskAction → Option Observed
  | .register order taskId conversationId tenantId ownerPrincipal now createdAt =>
    if taskId ∈ state.tasks then none
    else
      some ⟨state.tasks, (registerTask state.tasks order taskId conversationId tenantId
        ownerPrincipal now createdAt).2⟩
  | .complete taskId response => some ⟨state.tasks, completeTask state.tasks taskId response⟩
  | .fail taskId => some ⟨state.tasks, failTask state.tasks taskId⟩
  | .cancel taskId => some ⟨state.tasks, cancelTask state.tasks taskId⟩

/-- The response and the error of a task match its state. -/
structure A2aTask.Consistent (task : A2aTask) : Prop where
  response : task.response.isSome ↔ task.state = .completed
  error : task.error.isSome ↔ task.state = .failed

/-- What the lifecycle promises of the last step and of the store now. -/
structure Lifecycle (state : Observed) : Prop where
  kept : ∀ id before after, state.before.lookup id = some before → before.state.terminal →
    state.tasks.lookup id = some after → after.state = before.state
  consistent : ∀ id task, state.tasks.lookup id = some task → task.Consistent
  bounded : state.tasks.len ≤ a2aMaxTasks

/-- The task an action writes and the state it writes. -/
def TaskAction.written : TaskAction → Option (String × A2aTaskState)
  | .register .. => none
  | .complete taskId _ => some (taskId, .completed)
  | .fail taskId => some (taskId, .failed)
  | .cancel taskId => some (taskId, .canceled)

/-- The written task is still open, or is in the written state already. -/
def WritesOpenTask (state : Observed) (action : TaskAction) : Prop :=
  ∀ taskId target, action.written = some (taskId, target) →
    ∀ task, state.tasks.lookup taskId = some task → task.state.terminal → task.state = target

variable {state next : Observed}

/-- A write to one task keeps the lifecycle exactly if it does not change a terminal
state, as long as the written record is consistent then. -/
theorem written_lifecycle_iff (alive : Lifecycle state) (taskId : String) (target : A2aTaskState)
    (rewrite : A2aTask → A2aTask) (writes : ∀ task, (rewrite task).state = target)
    (consistent : ∀ task, task.Consistent → (task.state.terminal → task.state = target) →
      (rewrite task).Consistent) :
    Lifecycle ⟨state.tasks, state.tasks.modify taskId rewrite⟩ ↔
      ∀ task, state.tasks.lookup taskId = some task → task.state.terminal →
        task.state = target := by
  constructor
  · intro kept task found settled
    have after := kept.kept taskId task (rewrite task) found settled (by simp [found])
    rw [← after, writes]
  · intro opened
    constructor
    · intro id before after found settled later
      simp only [lookup_modify, found, Option.map_some] at later
      split_ifs at later with same
      · subst same
        cases later
        rw [writes, opened before found settled]
      · cases later
        rfl
    · intro id task later
      rw [lookup_modify] at later
      split_ifs at later with same
      · subst same
        obtain ⟨stored, found, rfl⟩ := Option.map_eq_some_iff.mp later
        exact consistent stored (alive.consistent id stored found) (opened stored found)
      · exact alive.consistent id task later
    · rw [len_modify]
      exact alive.bounded

/-- Registering keeps the lifecycle. -/
theorem register_lifecycle (alive : Lifecycle state) (order : IterationOrder String A2aTask)
    {taskId : String} (fresh : taskId ∉ state.tasks) (conversationId : String)
    (tenantId ownerPrincipal : Option String) (now createdAt : Nat) :
    Lifecycle ⟨state.tasks, (registerTask state.tasks order taskId conversationId tenantId
      ownerPrincipal now createdAt).2⟩ := by
  have stored : ∀ id task, (registerTask state.tasks order taskId conversationId tenantId
      ownerPrincipal now createdAt).2.lookup id = some task →
        state.tasks.lookup id = some task ∨ id = taskId ∧ task.Consistent := by
    intro id task found
    rw [registerTask] at found
    split_ifs at found
    · exact .inl (lookup_of_evicted found)
    · by_cases same : id = taskId
      · subst same
        rw [AList.lookup_insert] at found
        cases found
        exact .inr ⟨rfl, by simp, by simp⟩
      · rw [AList.lookup_insert_ne same] at found
        exact .inl (lookup_of_evicted found)
  constructor
  · intro id before after found settled later
    rcases stored id after later with earlier | ⟨same, _⟩
    · cases found.symm.trans earlier
      rfl
    · subst same
      exact absurd (mem_iff_lookup.mpr ⟨before, found⟩) fresh
  · intro id task later
    rcases stored id task later with earlier | ⟨_, consistent⟩
    · exact alive.consistent id task earlier
    · exact consistent
  · exact len_registerTask_le order state.tasks taskId conversationId tenantId ownerPrincipal now
      createdAt

/-- A step keeps the lifecycle exactly if it meets the condition. -/
theorem step_lifecycle_iff {action : TaskAction} (alive : Lifecycle state)
    (stepped : taskStep state action = some next) :
    Lifecycle next ↔ WritesOpenTask state action := by
  cases action with
  | register order taskId conversationId tenantId ownerPrincipal now createdAt =>
    rw [taskStep] at stepped
    split_ifs at stepped with stored
    cases stepped
    refine iff_of_true ?_ nofun
    exact register_lifecycle alive order stored conversationId tenantId ownerPrincipal now createdAt
  | complete taskId response =>
    cases stepped
    rw [completeTask, written_lifecycle_iff alive taskId .completed _ fun _ => rfl]
    · simp [WritesOpenTask, TaskAction.written]
    · intro task consistent opened
      exact ⟨by simp, by simp⟩
  | fail taskId =>
    cases stepped
    rw [failTask, written_lifecycle_iff alive taskId .failed _ fun _ => rfl]
    · simp [WritesOpenTask, TaskAction.written]
    · intro task consistent opened
      exact ⟨by simp, by simp⟩
  | cancel taskId =>
    cases stepped
    rw [cancelTask, written_lifecycle_iff alive taskId .canceled _ fun _ => rfl]
    · simp [WritesOpenTask, TaskAction.written]
    · intro task consistent opened
      -- An open or canceled task has no response that canceling could leave behind.
      have unanswered : task.response.isSome = false := by
        rw [Bool.eq_false_iff]
        intro answered
        have completed := consistent.response.mp answered
        simp [completed, A2aTaskState.terminal] at opened
      exact ⟨by simp [unanswered], by simp⟩

/-- Every step respects the bound on its own. -/
theorem step_bounded {action : TaskAction} (bounded : state.tasks.len ≤ a2aMaxTasks)
    (stepped : taskStep state action = some next) : next.tasks.len ≤ a2aMaxTasks := by
  cases action with
  | register order taskId conversationId tenantId ownerPrincipal now createdAt =>
    rw [taskStep] at stepped
    split_ifs at stepped with stored
    cases stepped
    exact len_registerTask_le order _ _ _ _ _ _ _
  | complete taskId response =>
    cases stepped
    simpa [completeTask] using bounded
  | fail taskId =>
    cases stepped
    simpa [failTask] using bounded
  | cancel taskId =>
    cases stepped
    simpa [cancelTask] using bounded

/-- The lifecycle is kept along the whole run exactly if every write reaches an open
task or one that is in the written state already; the bound is kept in every run. -/
theorem lifecycle_iff (actions : List TaskAction) :
    (Always taskStep Lifecycle Observed.new actions ↔
        Guarded taskStep WritesOpenTask Observed.new actions) ∧
      ∀ final, run taskStep Observed.new actions = some final → final.tasks.len ≤ a2aMaxTasks := by
  have empty : (∅ : A2aTaskStore).len ≤ a2aMaxTasks := Nat.zero_le _
  constructor
  · refine @always_iff_guarded_of_invariant _ _ taskStep WritesOpenTask Lifecycle (fun _ => True)
      ?_ (fun _ _ _ => trivial) (fun _ alive stepped => step_lifecycle_iff alive stepped)
      Observed.new trivial ?_ actions
    · intro state action stopped
      cases action with
      | register => exact nofun
      | complete => cases stopped
      | fail => cases stopped
      | cancel => cases stopped
    · refine ⟨?_, ?_, empty⟩
      · intro id before after found
        cases found
      · intro id task found
        cases found
  · intro final ran
    exact @run_invariant _ _ taskStep (fun _ _ => True) (fun state => state.tasks.len ≤ a2aMaxTasks)
      (fun bounded _ stepped => step_bounded bounded stepped) _ _ _ empty (guarded_true _ _) ran

/-- A task is completed and canceled afterwards. -/
def cancelAfterCompletion : List TaskAction :=
  [.register .held "task-1" "conv-1" none (some "auth-1") 1000 1000,
    .complete "task-1" ⟨"assistant", [⟨"text", "done"⟩]⟩, .cancel "task-1"]

/-- The completed task becomes a canceled one. -/
theorem completed_task_canceled :
    ¬ ∀ (actions : List TaskAction) (final : Observed),
      run taskStep Observed.new actions = some final → Lifecycle final := by
  intro always
  have alive := always cancelAfterCompletion _ rfl
  have same := alive.kept "task-1" _ _ rfl rfl rfl
  cases same

end Runs

end Asterel.A2a
