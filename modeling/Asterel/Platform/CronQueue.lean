import Asterel.Platform.CronStarts

/-!
# The agent queue

A call that adds a job of agent origin removes the expired rows, counts the pending
jobs of agent origin and inserts its row, in three statements. What the count said may no
longer be true at the insertion. The queue stays within its bound when every count that
lets a caller through leaves room for the callers that were let through before and have
not inserted their rows yet.
-/

namespace Asterel.Cron

open Library Library.Transitions List KeyedTable

/-! ## Pending jobs and callers on their way -/

/-- The row counts as a pending job of agent origin. -/
def pendingAt (now : Time) (job : CronJob) : Bool := job.origin = .agent && ! expired now job

/-- The call has been let through and will insert a job that counts. -/
def Call.admitted (now : Time) : Call → Bool
  | .inserting job _ => pendingAt now job
  | _ => false

/-- The job and the instant of a count. -/
def Call.counted : Call → Option (CronJob × Time)
  | .counting job createdAt => some (job, createdAt)
  | _ => none

/-- The row of an insertion. -/
def Call.row : Call → Option CronJob
  | .inserting job _ => some job
  | _ => none

/-- The identifier of the row that a call is to insert. -/
def Call.rowId : Call → Option String
  | .cleaning job _ | .counting job _ | .inserting job _ => some job.id
  | .preparing _ _ | .updating _ _ => none

/-- The pending jobs of agent origin and those that are on their way into the table. -/
def World.demand (world : World) : Nat :=
  pendingAgentJobs world.jobs world.now + world.calls.countP (Call.admitted world.now)

/-- At most `AGENT_PENDING_CAP` jobs of agent origin are pending. -/
def QueueBounded (world : World) : Prop :=
  pendingAgentJobs world.jobs world.now ≤ agentPendingCap

/-- A count that lets a caller through leaves room for those let through before. -/
def LeavesRoom (world : World) : Action → Prop
  | .proceed index =>
    ∀ counted ∈ world.calls[index]?.bind Call.counted,
      pendingAgentJobs world.jobs counted.2 < agentPendingCap →
        pendingAt world.now counted.1 = true → world.demand < agentPendingCap
  | _ => True

/-- No caller is between its count and its insertion when another one counts. -/
def CountsAlone (world : World) : Action → Prop
  | .proceed index =>
    (world.calls[index]?.bind Call.counted).isSome →
      world.calls.countP (Call.admitted world.now) = 0
  | _ => True

/-- A row that is inserted and counts finds room in the queue. -/
def FindsRoom (world : World) : Action → Prop
  | .proceed index =>
    ∀ job ∈ world.calls[index]?.bind Call.row,
      job.id ∉ addedIds world.log → world.jobs.find job.id = none →
        pendingAt world.now job = true → pendingAgentJobs world.jobs world.now < agentPendingCap
  | _ => True

section Pending

variable {table : CronTable} {now later : Time} {job : CronJob}

theorem pendingAgentJobs_eq (table : CronTable) (now : Time) :
    pendingAgentJobs table now = table.rows.countP (pendingAt now) := rfl

/-- A pending job was pending before. -/
theorem pendingAt_mono (passed : now ≤ later) (pending : pendingAt later job = true) :
    pendingAt now job = true := by
  simp only [pendingAt, Bool.and_eq_true, Bool.not_eq_true'] at pending ⊢
  refine ⟨pending.1, Bool.eq_false_iff.mpr ?_⟩
  intro early
  exact absurd (expired_mono passed early) (Bool.eq_false_iff.mp pending.2)

theorem admitted_mono (passed : now ≤ later) (call : Call) (admitted : call.admitted later = true) :
    call.admitted now = true := by
  cases call with
  | inserting job createdAt => exact pendingAt_mono passed admitted
  | _ => exact admitted

/-- Time takes jobs out of the queue. -/
theorem pendingAgentJobs_mono (table : CronTable) (passed : now ≤ later) :
    pendingAgentJobs table later ≤ pendingAgentJobs table now := by
  apply countP_mono_left
  intro row _ pending
  exact pendingAt_mono passed pending

/-- No job has become pending, and no identifier is new. -/
structure Fewer (before after : CronTable) : Prop where
  pending : ∀ moment, pendingAgentJobs after moment ≤ pendingAgentJobs before moment
  known : ∀ row ∈ after.rows, ∃ old ∈ before.rows, old.id = row.id

theorem Fewer.refl (table : CronTable) : Fewer table table where
  pending _ := le_rfl
  known row member := ⟨row, member, rfl⟩

/-- A deletion puts nothing into the queue. -/
theorem Fewer.deleteWhere (table : CronTable) (condition : CronJob → Bool) :
    Fewer table (table.deleteWhere condition) where
  pending _ := Sublist.countP_le filter_sublist
  known row member := ⟨row, (mem_filter.mp member).1, rfl⟩

/-- An update that keeps the origin and the time of expiry keeps the queue. -/
theorem Fewer.updateWhere (table : CronTable) (condition : CronJob → Bool)
    (set : CronJob → CronJob) (kept : ∀ row, (set row).id = row.id)
    (same : ∀ row, (set row).origin = row.origin ∧ (set row).expiresAt = row.expiresAt) :
    Fewer table (table.updateWhere condition set kept) where
  pending moment := by
    rw [pendingAgentJobs_eq, pendingAgentJobs_eq, rows_updateWhere, countP_map]
    apply le_of_eq
    apply countP_congr
    intro row _
    rw [Function.comp_apply]
    split
    · rw [pendingAt, expired, (same row).1, (same row).2]
      rfl
    · rfl
  known row member := by
    rw [rows_updateWhere] at member
    obtain ⟨old, present, rfl⟩ := mem_map.mp member
    refine ⟨old, present, ?_⟩
    split
    · exact (kept old).symm
    · rfl

/-- An insertion adds the row if it counts. -/
theorem pendingAgentJobs_insert {next : CronTable} (inserted : table.insert job = some next)
    (now : Time) :
    pendingAgentJobs next now =
      pendingAgentJobs table now + if pendingAt now job then 1 else 0 := by
  rw [pendingAgentJobs_eq, (rows_insert inserted).1, countP_append, countP_singleton]
  rfl

end Pending

/-! ## Calls between two statements -/

section Calls

variable {calls : List Call} {index : Nat}
variable {job : CronJob}

theorem call_of_row (inserting : job ∈ calls[index]?.bind Call.row) :
    ∃ createdAt, calls[index]? = some (.inserting job createdAt) := by
  obtain ⟨call, found, row⟩ := Option.bind_eq_some_iff.mp inserting
  cases call with
  | inserting other createdAt =>
    cases row
    exact ⟨createdAt, found⟩
  | _ => cases row

/-- A caller that is let through is one more on its way. -/
theorem countP_cons_inserting (calls : List Call) (job : CronJob) (createdAt moment : Time) :
    (Call.inserting job createdAt :: calls).countP (Call.admitted moment) =
      calls.countP (Call.admitted moment) + if pendingAt moment job then 1 else 0 := by
  rw [countP_cons]
  rfl

/-- The callers on their way are the one at an index and the others. -/
theorem countP_inserting {createdAt : Time}
    (found : calls[index]? = some (.inserting job createdAt)) (moment : Time) :
    calls.countP (Call.admitted moment) = (calls.eraseIdx index).countP (Call.admitted moment) +
        if pendingAt moment job then 1 else 0 := by
  rw [(parties_perm found).countP_eq, countP_cons_inserting]

/-- No caller has been let through, and no identifier has been drawn. -/
structure FewerCalls (before after : List Call) : Prop where
  admitted : ∀ moment, after.countP (Call.admitted moment) ≤ before.countP (Call.admitted moment)
  drawn : ∀ call ∈ after, ∀ id, call.rowId = some id → ∃ old ∈ before, old.rowId = some id

theorem FewerCalls.refl (calls : List Call) : FewerCalls calls calls where
  admitted _ := le_rfl
  drawn call member _ same := ⟨call, member, same⟩

/-- A call ends. -/
theorem FewerCalls.eraseIdx (calls : List Call) (index : Nat) :
    FewerCalls calls (calls.eraseIdx index) where
  admitted _ := (eraseIdx_sublist calls index).countP_le
  drawn call member _ same := ⟨call, mem_of_mem_eraseIdx member, same⟩

/-- A call begins that is not on its way and draws nothing new. -/
theorem FewerCalls.cons {before : List Call} (fewer : FewerCalls before calls) {call : Call}
    (waits : ∀ moment, call.admitted moment = false)
    (known : ∀ id, call.rowId = some id → ∃ old ∈ before, old.rowId = some id) :
    FewerCalls before (call :: calls) where
  admitted moment := by
    rw [countP_cons, waits moment]
    exact fewer.admitted moment
  drawn other member id same := by
    rcases mem_cons.mp member with rfl | member
    · exact known id same
    · exact fewer.drawn other member id same

end Calls

/-! ## What a step does to the queue -/

section Steps

variable {readSchedule : Chars → Option Schedule} {config : ReliabilityConfig}
  {world next : World} {action : Action}
variable {actions : List Action} {index : Nat} (now : Time)

/-- Only a count that lets a caller through and an insertion add to the queue and to the
callers on their way, and only a new call draws an identifier. -/
inductive QueueStep (world next : World) : Action → Prop where
  | fewer (action : Action) (later : world.now ≤ next.now) (jobs : Fewer world.jobs next.jobs)
      (calls : FewerCalls world.calls next.calls)
      (refused : ∀ index job createdAt, action = .proceed index →
        world.calls[index]? = some (.inserting job createdAt) →
        world.jobs.find job.id ≠ none) : QueueStep world next action
  | called (id : String) (expression command : Chars) (metadata : CronJobMetadata) (call : Call)
      (drawn : call.rowId = some id) (waits : ∀ moment, call.admitted moment = false)
      (after : next = { world with calls := call :: world.calls }) :
      QueueStep world next (.addJob id expression command metadata)
  | admitted (index : Nat) (job : CronJob) (createdAt : Time)
      (call : world.calls[index]? = some (.counting job createdAt))
      (room : pendingAgentJobs world.jobs createdAt < agentPendingCap)
      (after : next =
        { world with calls := .inserting job createdAt :: world.calls.eraseIdx index }) :
      QueueStep world next (.proceed index)
  | inserted (index : Nat) (job : CronJob) (createdAt : Time) (jobs : CronTable)
      (call : world.calls[index]? = some (.inserting job createdAt))
      (unknown : job.id ∉ addedIds world.log) (inserted : world.jobs.insert job = some jobs)
      (after : next = { world with
        jobs := jobs
        calls := world.calls.eraseIdx index
        log := .added job createdAt :: world.log }) : QueueStep world next (.proceed index)

theorem proceed_queue_cases {call : Call} (found : world.calls[index]? = some call)
    (stepped : proceed readSchedule world (world.calls.eraseIdx index) call = some next) :
    QueueStep world next (.proceed index) := by
  have ended := FewerCalls.eraseIdx world.calls index
  have other : (∀ job createdAt, call ≠ .inserting job createdAt) →
      ∀ place job createdAt, Action.proceed index = .proceed place →
        world.calls[place]? = some (.inserting job createdAt) → world.jobs.find job.id ≠ none := by
    rintro distinct place job createdAt ⟨rfl⟩ inserting
    rw [found] at inserting
    exact absurd (Option.some.inj inserting) (distinct job createdAt)
  cases call with
  | cleaning job createdAt =>
    cases stepped
    refine .fewer _ le_rfl (.deleteWhere _ _) (ended.cons (fun _ => rfl) ?_) (other (by simp))
    intro id same
    exact ⟨_, mem_of_getElem? found, same⟩
  | counting job createdAt =>
    rw [proceed] at stepped
    split at stepped
    · cases stepped
      exact .fewer _ le_rfl (.refl _) ended (other (by simp))
    · rename_i room
      cases stepped
      exact .admitted index job createdAt found (Nat.lt_of_not_le room) rfl
  | inserting job createdAt =>
    rw [proceed] at stepped
    split at stepped
    · cases stepped
    · rename_i unknown
      split at stepped
      · rename_i refused
        cases stepped
        refine .fewer _ le_rfl (.refl _) ended ?_
        rintro place other createdAt ⟨rfl⟩ inserting absent
        rw [found] at inserting
        cases inserting
        obtain ⟨table, inserted⟩ := insert_of_find_eq_none absent
        rw [refused] at inserted
        cases inserted
      · rename_i jobs inserted
        cases stepped
        exact .inserted index job createdAt jobs found unknown inserted rfl
  | preparing existing request =>
    rw [proceed] at stepped
    split at stepped
    · cases stepped
      exact .fewer _ le_rfl (.refl _) ended (other (by simp))
    · cases stepped
      exact .fewer _ le_rfl (.refl _) (ended.cons (fun _ => rfl) (by simp [Call.rowId]))
        (other (by simp))
  | updating update computedAt =>
    cases stepped
    exact .fewer _ le_rfl (.updateWhere _ _ _ update.set_id fun _ => ⟨rfl, rfl⟩) ended
      (other (by simp))

/-- A step that leaves the calls alone and adds no row. -/
theorem QueueStep.sameCalls (later : world.now ≤ next.now) (jobs : Fewer world.jobs next.jobs)
    (calls : next.calls = world.calls) (elsewhere : ∀ index, action ≠ .proceed index) :
    QueueStep world next action := by
  refine .fewer action later jobs (calls ▸ .refl world.calls) ?_
  intro index job createdAt same
  exact absurd same (elsewhere index)

theorem queue_cases (stepped : step readSchedule config world action = some next) :
    QueueStep world next action := by
  cases action with
  | proceed index =>
    rw [step] at stepped
    split at stepped
    · cases stepped
    · rename_i call found
      exact proceed_queue_cases found stepped
  | addJob id expression command metadata =>
    rw [step] at stepped
    split at stepped
    · cases stepped
      exact .sameCalls le_rfl (.refl _) rfl (by simp)
    · rename_i job made
      cases stepped
      have same : job.id = id := (newJob_fresh made).1
      refine .called id expression command metadata _ ?_ ?_ rfl
      · split
        · rw [Call.rowId, same]
        · rw [Call.rowId, same]
      · intro moment
        split
        · rfl
        · rename_i origin
          simp [Call.admitted, pendingAt, origin]
  | selectJob request =>
    rw [step] at stepped
    split at stepped
    · cases stepped
      exact .sameCalls le_rfl (.refl _) rfl (by simp)
    · cases stepped
      exact .fewer _ le_rfl (.refl _)
        ((FewerCalls.refl world.calls).cons (fun _ => rfl) (by simp [Call.rowId])) (by simp)
  | pass micros =>
    cases stepped
    exact .sameCalls (le_add_of_nonneg_right (Int.natCast_nonneg _)) (.refl _) rfl (by simp)
  | removeJob id =>
    cases stepped
    exact .sameCalls le_rfl (.deleteWhere _ _) rfl (by simp)
  | shutDown =>
    cases stepped
    exact .sameCalls le_rfl (.refl _) rfl (by simp)
  | poll =>
    rw [step] at stepped
    split at stepped
    · cases stepped
      exact .sameCalls le_rfl (.refl _) rfl (by simp)
    · cases stepped
  | cleanup =>
    rw [step] at stepped
    split at stepped
    · cases stepped
      exact .sameCalls le_rfl (.deleteWhere _ _) rfl (by simp)
    · cases stepped
  | fetch jobs =>
    rw [step] at stepped
    split at stepped
    · split at stepped
      · cases stepped
        exact .sameCalls le_rfl (.refl _) rfl (by simp)
      · cases stepped
    · cases stepped
  | start =>
    rw [step] at stepped
    split at stepped
    · split at stepped
      · cases stepped
        exact .sameCalls le_rfl (.refl _) rfl (by simp)
      · cases stepped
        exact .sameCalls le_rfl (.refl _) rfl (by simp)
    · cases stepped
  | finish success =>
    rw [step] at stepped
    split at stepped
    · dsimp only at stepped
      split at stepped
      · cases stepped
        exact .sameCalls le_rfl (.refl _) rfl (by simp)
      · cases stepped
        exact .sameCalls le_rfl (.refl _) rfl (by simp)
    · cases stepped
  | record =>
    rw [step] at stepped
    split at stepped
    · rename_i job record jobs phase
      cases stepped
      exact .sameCalls le_rfl (.updateWhere _ _ _ record.set_id fun _ => ⟨rfl, rfl⟩) rfl (by simp)
    · cases stepped

/-! ## The bound along runs -/

/-- The demand stays within the bound when counts leave room. -/
theorem demand_step (bounded : world.demand ≤ agentPendingCap) (room : LeavesRoom world action)
    (stepped : step readSchedule config world action = some next) :
    next.demand ≤ agentPendingCap := by
  cases queue_cases stepped with
  | fewer _ later jobs calls _ =>
    have pending := (jobs.pending next.now).trans (pendingAgentJobs_mono world.jobs later)
    have waiting : world.calls.countP (Call.admitted next.now) ≤
        world.calls.countP (Call.admitted world.now) :=
      countP_mono_left fun call _ => admitted_mono later call
    have total := (calls.admitted next.now).trans waiting
    simp only [World.demand] at bounded ⊢
    omega
  | called id expression command metadata call drawn waits after =>
    subst after
    simp only [World.demand, countP_cons, waits world.now] at bounded ⊢
    exact bounded
  | admitted index job createdAt call below after =>
    subst after
    have room := room (job, createdAt) (by rw [call]; rfl)
    have others := (FewerCalls.eraseIdx world.calls index).admitted world.now
    simp only [World.demand, countP_cons_inserting] at bounded room ⊢
    split
    · rename_i pending
      have space := room below pending
      omega
    · omega
  | inserted index job createdAt jobs call unknown inserted after =>
    subst after
    have moved := countP_inserting call world.now
    simp only [World.demand, pendingAgentJobs_insert inserted] at bounded ⊢
    omega

/-- Where counts leave room, the queue stays within its bound. -/
theorem bounded_of_leavesRoom
    (room : Guarded (step readSchedule config) LeavesRoom (World.empty now) actions) :
    Always (step readSchedule config) QueueBounded (World.empty now) actions := by
  apply always_of_guarded _ demand_step _ room
  · intro world bounded
    exact (Nat.le_add_right _ _).trans bounded
  · exact Nat.zero_le _

/-- A count by a caller that is alone leaves room. -/
theorem leavesRoom_of_countsAlone (sound : Sound readSchedule world)
    (alone : CountsAlone world action) : LeavesRoom world action := by
  cases action with
  | proceed index =>
    intro counted counts below _
    obtain ⟨call, found, same⟩ := Option.bind_eq_some_iff.mp counts
    have none := alone (by rw [counts]; rfl)
    have began : counted.2 ≤ world.now := by
      have known := sound.calls call (mem_of_getElem? found)
      cases call with
      | counting job createdAt =>
        cases same
        exact known.2
      | _ => cases same
    have later := pendingAgentJobs_mono world.jobs began
    rw [World.demand, none]
    exact later.trans_lt below
  | _ => trivial

/-- Where callers count alone, the queue stays within its bound. -/
theorem bounded_of_countsAlone
    (alone : Guarded (step readSchedule config) CountsAlone (World.empty now) actions) :
    Always (step readSchedule config) QueueBounded (World.empty now) actions := by
  apply bounded_of_leavesRoom
  exact guarded_of_guarded leavesRoom_of_countsAlone (fun sound _ stepped => sound.step stepped)
    (sound_empty now) alone

/-- A step keeps the bound exactly when what it inserts finds room. -/
theorem queueBounded_step_iff (bounded : QueueBounded world)
    (stepped : step readSchedule config world action = some next) :
    QueueBounded next ↔ FindsRoom world action := by
  cases queue_cases stepped with
  | fewer _ later jobs calls refused =>
    have kept : QueueBounded next :=
      ((jobs.pending next.now).trans (pendingAgentJobs_mono world.jobs later)).trans bounded
    refine iff_of_true kept ?_
    cases action with
    | proceed index =>
      intro job inserting _ absent
      obtain ⟨createdAt, call⟩ := call_of_row inserting
      exact absurd absent (refused index job createdAt rfl call)
    | _ => trivial
  | called id expression command metadata call drawn waits after =>
    subst after
    exact iff_of_true bounded trivial
  | admitted index job createdAt call below after =>
    subst after
    refine iff_of_true bounded ?_
    intro other inserting
    rw [call] at inserting
    cases inserting
  | inserted index job createdAt jobs call unknown inserted after =>
    subst after
    have absent := (rows_insert inserted).2
    have condition : FindsRoom world (.proceed index) ↔ (pendingAt world.now job = true →
          pendingAgentJobs world.jobs world.now < agentPendingCap) := by
      simp only [FindsRoom, call, Option.bind_some, Call.row, Option.mem_def, Option.some.injEq,
        forall_eq', unknown, not_false_eq_true, absent, forall_const]
    rw [condition]
    simp only [QueueBounded, pendingAgentJobs_insert inserted] at bounded ⊢
    by_cases pending : pendingAt world.now job = true
    · rw [if_pos pending, Nat.succ_le_iff]
      exact ⟨fun below _ => below, fun implied => implied pending⟩
    · rw [if_neg pending, Nat.add_zero]
      refine iff_of_true bounded ?_
      intro counts
      exact absurd counts pending

/-- A step that cannot be taken inserts nothing. -/
theorem findsRoom_of_disabled (disabled : step readSchedule config world action = none) :
    FindsRoom world action := by
  cases action with
  | proceed index =>
    intro job inserting unknown absent
    obtain ⟨createdAt, call⟩ := call_of_row inserting
    obtain ⟨table, inserted⟩ := insert_of_find_eq_none absent
    simp only [step, call, proceed, if_neg unknown, inserted] at disabled
    cases disabled
  | _ => trivial

/-- The queue stays within its bound exactly when every inserted row finds room. -/
theorem bounded_iff_findsRoom (actions : List Action) :
    Always (step readSchedule config) QueueBounded (World.empty now) actions ↔
      Guarded (step readSchedule config) FindsRoom (World.empty now) actions :=
  @always_iff_guarded_of_invariant World Action (step readSchedule config) FindsRoom QueueBounded
    (fun _ => True) findsRoom_of_disabled (fun _ _ _ => trivial)
    (fun _ bounded stepped => queueBounded_step_iff bounded stepped) (World.empty now) trivial
    (Nat.zero_le _) actions

/-! ## Refused calls -/

/-- No row has the identifier. -/
def Absent (id : String) (world : World) : Prop := ∀ row ∈ world.jobs.rows, row.id ≠ id

/-- No row has the identifier, and no call is to insert one that has it. -/
structure Unused (id : String) (world : World) : Prop where
  absent : Absent id world
  undrawn : ∀ call ∈ world.calls, call.rowId ≠ some id

/-- The action does not draw the identifier. -/
def DrawsOther (id : String) (_ : World) : Action → Prop
  | .addJob drawn _ _ _ => drawn ≠ id
  | _ => True

/-- An identifier comes into use only when it is drawn. -/
theorem Unused.step {id : String} (unused : Unused id world) (other : DrawsOther id world action)
    (stepped : step readSchedule config world action = some next) : Unused id next := by
  cases queue_cases stepped with
  | fewer _ later jobs calls _ =>
    constructor
    · intro row member same
      obtain ⟨old, present, equal⟩ := jobs.known row member
      exact unused.absent old present (equal.trans same)
    · intro call member drawn
      obtain ⟨old, present, equal⟩ := calls.drawn call member id drawn
      exact unused.undrawn old present equal
  | called drawn expression command metadata call same waits after =>
    subst after
    refine ⟨unused.absent, forall_mem_cons.mpr ⟨?_, unused.undrawn⟩⟩
    rw [same]
    intro equal
    exact other (Option.some.inj equal)
  | admitted index job createdAt call room after =>
    subst after
    refine ⟨unused.absent, forall_mem_cons.mpr ⟨?_, ?_⟩⟩
    · have before : (Call.counting job createdAt).rowId ≠ some id :=
        unused.undrawn _ (mem_of_getElem? call)
      exact before
    · intro call member
      exact unused.undrawn call (mem_of_mem_eraseIdx member)
  | inserted index job createdAt jobs call unknown inserted after =>
    subst after
    constructor
    · intro row member
      simp only [(rows_insert inserted).1, mem_append, mem_singleton] at member
      rcases member with member | rfl
      · exact unused.absent row member
      · intro same
        exact unused.undrawn _ (mem_of_getElem? call) (congrArg some same)
    · intro call member
      exact unused.undrawn call (mem_of_mem_eraseIdx member)

/-- A count that finds the queue full ends its call and changes no row. -/
theorem refused_step {job : CronJob} {createdAt : Time}
    (call : world.calls[index]? = some (.counting job createdAt))
    (full : agentPendingCap ≤ pendingAgentJobs world.jobs createdAt)
    (stepped : step readSchedule config world (.proceed index) = some next) :
    next = { world with calls := world.calls.eraseIdx index } := by
  simp only [step, call, proceed, if_pos full, Option.some.injEq] at stepped
  exact stepped.symm

variable (readSchedule config) in
/-- After a count that finds the queue full the rows are as before, and no row ever has
the identifier of the call unless something else has drawn it. -/
def RefusalInsertsNothing (world : World) : Prop :=
  ∀ (index : Nat) (job : CronJob) (createdAt : Time) (next : World),
    world.calls[index]? = some (.counting job createdAt) →
    agentPendingCap ≤ pendingAgentJobs world.jobs createdAt →
    step readSchedule config world (.proceed index) = some next →
    next.jobs = world.jobs ∧ (Unused job.id { world with calls := world.calls.eraseIdx index } →
        ∀ actions, Guarded (step readSchedule config) (DrawsOther job.id) next actions →
          Always (step readSchedule config) (Absent job.id) next actions)

theorem refusalInsertsNothing (world : World) :
    RefusalInsertsNothing readSchedule config world := by
  intro index job createdAt next call full stepped
  have ended := refused_step call full stepped
  subst ended
  refine ⟨rfl, ?_⟩
  intro unused actions others
  exact always_of_guarded (fun unused => unused.absent) Unused.step unused others

/-- Along every run a refused call inserts nothing. The queue stays within its bound where
every count leaves room for those let through before, and it does so exactly where every
row that is inserted and counts finds room. -/
theorem queue_bounded_iff (now : Time) (actions : List Action) :
    (Guarded (step readSchedule config) LeavesRoom (World.empty now) actions →
      Always (step readSchedule config) QueueBounded (World.empty now) actions) ∧
    (Always (step readSchedule config) QueueBounded (World.empty now) actions ↔
      Guarded (step readSchedule config) FindsRoom (World.empty now) actions) ∧
    Always (step readSchedule config) (RefusalInsertsNothing readSchedule config)
      (World.empty now) actions := by
  refine ⟨bounded_of_leavesRoom now, bounded_iff_findsRoom now actions, ?_⟩
  exact always_of_guarded (fun _ => refusalInsertsNothing _) (fun _ _ _ => trivial) trivial
    (guarded_true _ actions)

end Steps

instance (world : World) : (action : Action) → Decidable (LeavesRoom world action)
  | .proceed index =>
    inferInstanceAs (Decidable (∀ counted ∈ world.calls[index]?.bind Call.counted, _))
  | .pass _ | .addJob .. | .selectJob _ | .removeJob _ | .shutDown | .poll | .cleanup | .fetch _
  | .start | .finish _ | .record => isTrue trivial

instance (world : World) : (action : Action) → Decidable (CountsAlone world action)
  | .proceed _ => inferInstanceAs (Decidable (_ → _))
  | .pass _ | .addJob .. | .selectJob _ | .removeJob _ | .shutDown | .poll | .cleanup | .fetch _
  | .start | .finish _ | .record => isTrue trivial

section Samples

/-- A caller that adds a job of agent origin. -/
def agentCall (id : String) : Action :=
  .addJob id "hourly".toList "echo".toList ⟨.agent, .agent, none, 1⟩

/-- The three statements of a call that runs alone. -/
def aloneCall (id : String) : List Action := [agentCall id, .proceed 0, .proceed 0, .proceed 0]

/-- Six calls, one after the other. -/
def sixCalls : List Action := ["a", "b", "c", "d", "e", "f"].flatMap aloneCall

/-- Four calls, and two that both count before either inserts. -/
def racingCalls : List Action :=
  ["a", "b", "c", "d"].flatMap aloneCall ++
    [agentCall "e", .proceed 0, .proceed 0, agentCall "f", .proceed 0, .proceed 0, .proceed 0,
      .proceed 0]

theorem six_calls_bounded :
    Always (step sampleSchedule sampleConfig) QueueBounded (World.empty 0) sixCalls :=
  (queue_bounded_iff 0 sixCalls).1 (by decide +kernel)

theorem six_calls_alone :
    Always (step sampleSchedule sampleConfig) QueueBounded (World.empty 0) sixCalls :=
  bounded_of_countsAlone 0 (by decide +kernel)

/-- Six jobs are pending in the end. -/
theorem queue_overflows :
    ¬ Always (step sampleSchedule sampleConfig) QueueBounded (World.empty 0) racingCalls := by
  intro bounded
  have six : (run (step sampleSchedule sampleConfig) (World.empty 0) racingCalls).map
      (fun world => pendingAgentJobs world.jobs world.now) = some (agentPendingCap + 1) := by
    decide +kernel
  obtain ⟨final, ran, pending⟩ := Option.map_eq_some_iff.mp six
  have within : QueueBounded final := always_final bounded ran
  rw [QueueBounded, pending] at within
  exact Nat.not_succ_le_self agentPendingCap within

end Samples

end Asterel.Cron
