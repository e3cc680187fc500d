import Asterel.Platform.CronEdits
import Mathlib.Data.Set.Card

/-!
# Runs and occurrences

Every run starts for an occurrence that has passed. As long as a run is recorded with a
later occurrence, no two runs of a job start for the same one, so there are no more runs
than occurrences. A schedule whose last occurrence has passed has no later one: its job
stays due.
-/

namespace Asterel.Cron

open Library Library.Transitions List

section Ledger

/-- The occurrences for which the runs of a job have started. -/
def dues (id : String) : List Event → List Time
  | [] => []
  | .started job :: log => if job.id = id then job.nextRun :: dues id log else dues id log
  | _ :: log => dues id log

def starts (id : String) (log : List Event) : Nat := (dues id log).length

def createdAt (id : String) : List Event → Option Time
  | [] => none
  | .added job created :: log => if job.id = id then some created else createdAt id log
  | _ :: log => createdAt id log

/-- The expressions that a job has had. -/
def expressions (id : String) : List Event → List Chars
  | [] => []
  | .added job _ :: log =>
    if job.id = id then job.expression :: expressions id log else expressions id log
  | .edited update :: log =>
    if update.id = id then update.expression :: expressions id log else expressions id log
  | _ :: log => expressions id log

/-- The occurrence of the last run, or the creation of the job. -/
def lastMark (id : String) : List Event → Time
  | [] => 0
  | .added job created :: log => if job.id = id then created else lastMark id log
  | .started job :: log => if job.id = id then job.nextRun else lastMark id log
  | _ :: log => lastMark id log

variable {id : String} {event : Event} {log : List Event}

/-- An event about another job. -/
theorem ledger_other (other : event.id ≠ id) :
    dues id (event :: log) = dues id log ∧ createdAt id (event :: log) = createdAt id log ∧
      expressions id (event :: log) = expressions id log ∧
      lastMark id (event :: log) = lastMark id log := by
  cases event with
  | added job created => exact ⟨rfl, if_neg other, if_neg other, if_neg other⟩
  | edited update => exact ⟨rfl, rfl, if_neg other, rfl⟩
  | started job => exact ⟨if_neg other, rfl, rfl, if_neg other⟩
  | finished ended success now => exact ⟨rfl, rfl, rfl, rfl⟩

theorem expressions_subset (id : String) (event : Event) (log : List Event) :
    expressions id log ⊆ expressions id (event :: log) := by
  cases event with
  | added job created =>
    rw [expressions]
    split
    · exact subset_cons_self _ _
    · exact Subset.refl _
  | edited update =>
    rw [expressions]
    split
    · exact subset_cons_self _ _
    · exact Subset.refl _
  | started job => exact Subset.refl _
  | finished ended success now => exact Subset.refl _

end Ledger

section Property

variable (readSchedule : Chars → Option Schedule)

/-- A moment is an occurrence of an expression that the job has had. -/
def Named (id : String) (log : List Event) (time : Time) : Prop :=
  ∃ expression ∈ expressions id log, OccursAt readSchedule expression time

/-- The occurrences of a job that have passed since its creation. -/
def passed (id : String) (created : Time) (world : World) : Set Time :=
  {time | created < time ∧ time ≤ world.now ∧ Named readSchedule id world.log time}

/-- No job has started more often than its schedule has occurred. -/
def Punctual (world : World) : Prop :=
  ∀ id, ∀ created ∈ createdAt id world.log,
    (starts id world.log : ℕ∞) ≤ (passed readSchedule id created world).encard

/-- The job whose run is in progress or not recorded. -/
def Phase.inFlight : Phase → Option String
  | .running job _ | .recording job _ _ => some job.id
  | _ => none

/-- A run that ends finds a later occurrence. An edit that is not made during a run was
computed after the last occurrence that was run. -/
def Continues (world : World) : Action → Prop
  | .finish _ => ∀ job ∈ world.phase.current, (world.jobs.find job.id).isSome →
      HasLater readSchedule job.expression world.now
  | .proceed index => ∀ edit ∈ world.calls[index]?.bind Call.edit,
      world.phase.inFlight ≠ some edit.1.id → lastMark edit.1.id world.log ≤ edit.2
  | _ => True

end Property

section Invariant

variable (readSchedule : Chars → Option Schedule)

/-- The runs of a job, in the order of their occurrences. -/
structure Charged (id : String) (created now : Time) (log : List Event) : Prop where
  distinct : (dues id log).Nodup
  dues : ∀ due ∈ dues id log, created < due ∧ due ≤ lastMark id log ∧ Named readSchedule id log due
  created : created ≤ lastMark id log
  now : lastMark id log ≤ now

/-- The expression and the next run of a job are its own. -/
structure CronJob.Owned (job : CronJob) (log : List Event) : Prop where
  expression : job.expression ∈ expressions job.id log
  named : Named readSchedule job.id log job.nextRun

/-- Its next run is no occurrence that was run. -/
structure CronJob.Ahead (job : CronJob) (log : List Event) : Prop where
  owned : job.Owned readSchedule log
  ahead : lastMark job.id log < job.nextRun

/-- The job that runs is charged with its next run; those that wait are not yet. -/
def Phase.Charged (log : List Event) : Phase → Prop
  | .waiting jobs => ∀ job ∈ jobs, job.Ahead readSchedule log
  | .polled _ | .cleaned _ => True
  | .running job jobs | .recording job _ jobs =>
    (job.Owned readSchedule log ∧ lastMark job.id log = job.nextRun) ∧
      ∀ other ∈ jobs, other.Ahead readSchedule log

structure OnTime (world : World) : Prop where
  sound : Sound readSchedule world
  unknown : ∀ id, id ∉ addedIds world.log → dues id world.log = []
  charged : ∀ id, ∀ created ∈ createdAt id world.log,
    Charged readSchedule id created world.now world.log
  owned : ∀ job ∈ world.jobs.rows, job.Owned readSchedule world.log
  ahead : ∀ job ∈ world.jobs.rows, world.phase.inFlight ≠ some job.id →
    lastMark job.id world.log < job.nextRun
  phase : world.phase.Charged readSchedule world.log

variable {readSchedule} {world : World}

theorem onTime_empty (now : Time) : OnTime readSchedule (World.empty now) where
  sound := sound_empty now
  unknown := fun _ _ => rfl
  charged := fun _ _ none => absurd none (Option.not_mem_none _)
  owned := fun _ member => absurd member not_mem_nil
  ahead := fun _ member => absurd member not_mem_nil
  phase := fun _ member => absurd member not_mem_nil

/-- Different occurrences are charged with the runs. -/
theorem OnTime.punctual (onTime : OnTime readSchedule world) : Punctual readSchedule world := by
  intro id created found
  have charged := onTime.charged id created found
  have counted : (starts id world.log : ℕ∞) = ((dues id world.log).toFinset : Set Time).encard := by
    rw [Set.encard_coe_eq_coe_finsetCard, toFinset_card_of_nodup charged.distinct, starts]
  rw [counted]
  refine Set.encard_le_encard fun due member => ?_
  obtain ⟨after, before, named⟩ := charged.dues due (mem_toFinset.mp member)
  exact ⟨after, before.trans charged.now, named⟩

end Invariant

section Preservation

variable {readSchedule : Chars → Option Schedule} {config : ReliabilityConfig}
  {world next : World} {action : Action}

section Logs

variable {id : String} {job : CronJob} {created now later : Time} {log more : List Event}

theorem Named.mono {time : Time} (named : Named readSchedule id log time)
    (known : expressions id log ⊆ expressions id more) : Named readSchedule id more time := by
  obtain ⟨expression, member, occurs⟩ := named
  exact ⟨expression, known member, occurs⟩

theorem CronJob.Owned.mono (owned : job.Owned readSchedule log)
    (known : expressions job.id log ⊆ expressions job.id more) : job.Owned readSchedule more :=
  ⟨known owned.expression, owned.named.mono known⟩

theorem CronJob.Ahead.mono (ahead : job.Ahead readSchedule log)
    (known : expressions job.id log ⊆ expressions job.id more)
    (mark : lastMark job.id more = lastMark job.id log) : job.Ahead readSchedule more :=
  ⟨ahead.owned.mono known, mark ▸ ahead.ahead⟩

theorem Charged.mono (charged : Charged readSchedule id created now log)
    (known : expressions id log ⊆ expressions id more) (same : Cron.dues id more = Cron.dues id log)
    (mark : lastMark id more = lastMark id log) (passed : now ≤ later) :
    Charged readSchedule id created later more := by
  refine ⟨same ▸ charged.distinct, fun due member => ?_, mark ▸ charged.created,
    mark ▸ charged.now.trans passed⟩
  rw [same] at member
  obtain ⟨after, before, named⟩ := charged.dues due member
  exact ⟨after, mark ▸ before, named.mono known⟩

theorem Phase.Charged.mono {phase : Phase} (charged : phase.Charged readSchedule log)
    (known : ∀ id, expressions id log ⊆ expressions id more)
    (mark : ∀ job ∈ phase.jobs, lastMark job.id more = lastMark job.id log) :
    phase.Charged readSchedule more := by
  cases phase with
  | waiting jobs => exact fun job member => (charged job member).mono (known _) (mark job member)
  | polled moment => trivial
  | cleaned moment => trivial
  | running job jobs =>
    exact ⟨⟨charged.1.1.mono (known _), (mark job mem_cons_self).trans charged.1.2⟩,
      fun other member => (charged.2 other member).mono (known _)
        (mark other (mem_cons_of_mem _ member))⟩
  | recording job record jobs =>
    exact ⟨⟨charged.1.1.mono (known _), (mark job mem_cons_self).trans charged.1.2⟩,
      fun other member => (charged.2 other member).mono (known _)
        (mark other (mem_cons_of_mem _ member))⟩

/-- A run is charged with an occurrence after the last one. -/
theorem Charged.started (charged : Charged readSchedule job.id created now log)
    (ahead : job.Ahead readSchedule log) (due : job.nextRun ≤ now) :
    Charged readSchedule job.id created now (.started job :: log) := by
  have marks : lastMark job.id (.started job :: log) = job.nextRun := if_pos rfl
  have more : Cron.dues job.id (.started job :: log) = job.nextRun :: Cron.dues job.id log :=
    if_pos rfl
  refine ⟨?_, fun time member => ?_, ?_, ?_⟩
  · rw [more]
    refine nodup_cons.mpr ⟨fun member => ?_, charged.distinct⟩
    exact absurd (charged.dues _ member).2.1 (not_le.mpr ahead.ahead)
  · rw [marks]
    rw [more] at member
    rcases mem_cons.mp member with rfl | earlier
    · exact ⟨lt_of_le_of_lt charged.created ahead.ahead, le_refl _, ahead.owned.named⟩
    · obtain ⟨after, before, named⟩ := charged.dues time earlier
      exact ⟨after, before.trans ahead.ahead.le, named⟩
  · rw [marks]
    exact charged.created.trans ahead.ahead.le
  · rw [marks]
    exact due

/-- A job has not run when it is added. -/
theorem charged_added (none : Cron.dues job.id log = []) (before : created ≤ now) :
    Charged readSchedule job.id created now (.added job created :: log) := by
  have marks : lastMark job.id (.added job created :: log) = created := if_pos rfl
  have same : Cron.dues job.id (.added job created :: log) = [] := none
  refine ⟨?_, fun due member => ?_, marks.ge, marks.trans_le before⟩
  · rw [same]
    exact nodup_nil
  · rw [same] at member
    exact absurd member not_mem_nil

theorem Fresh.ahead (fresh : Fresh readSchedule job created) :
    job.Ahead readSchedule (.added job created :: log) := by
  have expression : job.expression ∈ expressions job.id (.added job created :: log) := by
    rw [expressions, if_pos rfl]
    exact mem_cons_self
  refine ⟨⟨expression, job.expression, expression, occursAt_nextRun fresh.computed⟩, ?_⟩
  rw [lastMark, if_pos rfl]
  exact lt_nextRun fresh.computed

/-- An edited row has the next run of the edit. -/
theorem JobUpdate.owned {update : JobUpdate} {computedAt : Time} (same : job.id = update.id)
    (computed : nextRunFor readSchedule update.expression computedAt = .ok update.nextRun) :
    (update.set job).Owned readSchedule (.edited update :: log) := by
  have expression : update.expression ∈ expressions job.id (.edited update :: log) := by
    rw [expressions, if_pos same.symm]
    exact mem_cons_self
  exact ⟨expression, update.expression, expression, occursAt_nextRun computed⟩

end Logs

/-- The event of a step that starts no run and adds no job changes no mark. -/
theorem OnTime.logged {jobs : CronTable} {phase : Phase} {calls : List Call} {event : Event}
    (onTime : OnTime readSchedule world) (sound : Sound readSchedule
      { world with jobs := jobs, phase := phase, calls := calls, log := event :: world.log })
    (same : ∀ id, dues id (event :: world.log) = dues id world.log ∧
      createdAt id (event :: world.log) = createdAt id world.log ∧
      lastMark id (event :: world.log) = lastMark id world.log)
    (ids : addedIds (event :: world.log) = addedIds world.log)
    (owned : ∀ job ∈ jobs.rows, job.Owned readSchedule (event :: world.log))
    (ahead : ∀ job ∈ jobs.rows, phase.inFlight ≠ some job.id →
      lastMark job.id world.log < job.nextRun)
    (charged : phase.Charged readSchedule world.log) :
    OnTime readSchedule
      { world with jobs := jobs, phase := phase, calls := calls, log := event :: world.log } where
  sound := sound
  unknown := by
    intro id unknown
    rw [(same id).1]
    exact onTime.unknown id (ids ▸ unknown)
  charged := by
    intro id created found
    rw [(same id).2.1] at found
    exact (onTime.charged id created found).mono (expressions_subset id event world.log) (same id).1
      (same id).2.2 (le_refl _)
  owned := owned
  ahead := by
    intro job member landed
    rw [(same job.id).2.2]
    exact ahead job member landed
  phase := charged.mono (fun id => expressions_subset id event world.log)
    fun job _ => (same job.id).2.2

theorem OnTime.inserted {job : CronJob} {created : Time} {jobs : CronTable} {calls : List Call}
    (onTime : OnTime readSchedule world) (sound : Sound readSchedule
      { world with jobs := jobs, calls := calls, log := .added job created :: world.log })
    (fresh : Fresh readSchedule job created) (before : created ≤ world.now)
    (unknown : job.id ∉ addedIds world.log) (inserted : world.jobs.insert job = some jobs) :
    OnTime readSchedule
      { world with jobs := jobs, calls := calls, log := .added job created :: world.log } := by
  have apart : ∀ {id}, id ∈ addedIds world.log → (Event.added job created).id ≠ id := by
    rintro id known rfl
    exact unknown known
  have rows : ∀ row ∈ jobs.rows, row ∈ world.jobs.rows ∨ row = job := by
    intro row member
    rw [(KeyedTable.rows_insert inserted).1, mem_append, mem_singleton] at member
    exact member
  refine ⟨sound, fun id absent => ?_, fun id created' found => ?_, fun row member => ?_,
    fun row member landed => ?_, ?_⟩
  · exact onTime.unknown id fun known => absent (mem_cons_of_mem _ known)
  · by_cases here : job.id = id
    · subst here
      rw [createdAt, if_pos rfl] at found
      cases Option.some.inj found
      exact charged_added (onTime.unknown job.id unknown) before
    · obtain ⟨same, creation, _, mark⟩ := @ledger_other id (.added job created) world.log here
      rw [creation] at found
      exact (onTime.charged id created' found).mono (expressions_subset id _ _) same mark (le_refl _)
  · rcases rows row member with old | rfl
    · exact (onTime.owned row old).mono (expressions_subset _ _ _)
    · exact fresh.ahead.owned
  · rcases rows row member with old | rfl
    · rw [(ledger_other (apart (onTime.sound.rows row old))).2.2.2]
      exact onTime.ahead row old landed
    · exact fresh.ahead.ahead
  · refine onTime.phase.mono (fun id => expressions_subset id _ _) fun row member => ?_
    exact (ledger_other (apart (onTime.sound.phase.known row member))).2.2.2

/-- A recorded row is due again after the occurrence that was run. -/
theorem RunRecord.ahead {record : RunRecord} {job row : CronJob} {now : Time} {log : List Event}
    (sound : record.Sound readSchedule job now) (running : job.Owned readSchedule log)
    (mark : lastMark job.id log = job.nextRun) (same : row.id = record.id)
    (owned : row.Owned readSchedule log) : (record.set row).Ahead readSchedule log := by
  obtain ⟨computedAt, _, due, computed⟩ := sound.computed
  have here : row.id = job.id := same.trans sound.id
  refine ⟨⟨owned.expression, job.expression, ?_, occursAt_nextRun computed⟩, ?_⟩
  · rw [RunRecord.set_id, here]
    exact running.expression
  · rw [RunRecord.set_id, here, mark]
    exact lt_of_le_of_lt due (lt_nextRun computed)

theorem OnTime.started {job : CronJob} {jobs : List CronJob} (onTime : OnTime readSchedule world)
    (phase : world.phase = .waiting (job :: jobs)) (sound : Sound readSchedule
      { world with phase := .running job jobs, log := .started job :: world.log }) :
    OnTime readSchedule
      { world with phase := .running job jobs, log := .started job :: world.log } := by
  have fetched := onTime.sound.phase
  have waiting := onTime.phase
  have ahead := onTime.ahead
  rw [phase] at fetched waiting ahead
  have first : job.Ahead readSchedule world.log := waiting job mem_cons_self
  have other : ∀ {id}, job.id ≠ id → lastMark id (.started job :: world.log) = lastMark id world.log :=
    fun apart => if_neg apart
  refine ⟨sound, fun id absent => ?_, fun id created found => ?_,
    fun row member => (onTime.owned row member).mono (expressions_subset _ _ _),
    fun row member landed => ?_, ⟨first.owned.mono (expressions_subset _ _ _), if_pos rfl⟩,
    fun later member => ?_⟩
  · have apart : job.id ≠ id := by
      rintro rfl
      exact absent (Fetched.known fetched job mem_cons_self)
    exact (if_neg apart).trans (onTime.unknown id absent)
  · by_cases here : job.id = id
    · subst here
      exact (onTime.charged job.id created found).started first
        (Fetched.due fetched job mem_cons_self)
    · exact (onTime.charged id created found).mono (Subset.refl _) (if_neg here) (other here)
        (le_refl _)
  · rw [other fun same => landed (congrArg some same)]
    exact ahead row member (Option.some_ne_none _).symm
  · have apart : job.id ≠ later.id := fun same =>
      (nodup_cons.mp (Fetched.distinct fetched)).1 (same ▸ mem_map_of_mem member)
    exact (waiting later (mem_cons_of_mem _ member)).mono (Subset.refl _) (other apart)

theorem OnTime.step (onTime : OnTime readSchedule world)
    (continues : Continues readSchedule world action)
    (stepped : step readSchedule config world action = some next) : OnTime readSchedule next := by
  have sound := onTime.sound.step stepped
  have fetched := onTime.sound.phase
  have charged := onTime.phase
  have ahead := onTime.ahead
  have kept : ∀ condition, ∀ job ∈ (world.jobs.deleteWhere condition).rows, job ∈ world.jobs.rows :=
    fun condition job member => (mem_filter.mp member).1
  cases step_cases stepped with
  | pass micros =>
    have passed : world.now ≤ world.now + micros := le_add_of_nonneg_right (Int.natCast_nonneg _)
    exact ⟨sound, onTime.unknown, fun id created found =>
      (onTime.charged id created found).mono (Subset.refl _) rfl rfl passed, onTime.owned, ahead,
      charged⟩
  | quiet _ calls shutdown _ =>
    exact ⟨sound, onTime.unknown, onTime.charged, onTime.owned, ahead, charged⟩
  | expired index job created calls _ =>
    exact ⟨sound, onTime.unknown, onTime.charged, fun row member => onTime.owned row (kept _ row member),
      fun row member => ahead row (kept _ row member), charged⟩
  | inserted index job created calls jobs _ call unknown inserted =>
    obtain ⟨fresh, before⟩ := onTime.sound.calls _ call
    exact onTime.inserted sound fresh before unknown inserted
  | updated index update computedAt calls _ call =>
    obtain ⟨computed, _⟩ := onTime.sound.calls _ (mem_of_getElem? call)
    refine onTime.logged sound (fun _ => ⟨rfl, rfl, rfl⟩) rfl (fun row member => ?_)
      (fun row member landed => ?_) charged
    · obtain ⟨old, inRows, rfl⟩ := mem_map.mp member
      split
      case isTrue same => exact JobUpdate.owned (of_decide_eq_true same) computed
      case isFalse => exact (onTime.owned old inRows).mono (expressions_subset _ _ _)
    · obtain ⟨old, inRows, rfl⟩ := mem_map.mp member
      split at landed
      case isTrue same =>
        have here : old.id = update.id := of_decide_eq_true same
        rw [if_pos same]
        rw [JobUpdate.set_id, here] at landed
        rw [Continues, call] at continues
        have before := continues (update, computedAt) rfl landed
        rw [JobUpdate.set_id, here]
        exact lt_of_le_of_lt before (lt_nextRun computed)
      case isFalse other =>
        rw [if_neg other]
        exact ahead old inRows landed
  | removed id =>
    exact ⟨sound, onTime.unknown, onTime.charged, fun row member => onTime.owned row (kept _ row member),
      fun row member => ahead row (kept _ row member), charged⟩
  | polled idle =>
    rw [idle] at ahead
    exact ⟨sound, onTime.unknown, onTime.charged, onTime.owned, ahead, trivial⟩
  | cleaned now phase =>
    rw [phase] at ahead
    exact ⟨sound, onTime.unknown, onTime.charged, fun row member => onTime.owned row (kept _ row member),
      fun row member => ahead row (kept _ row member), trivial⟩
  | fetched now jobs phase due =>
    rw [phase] at ahead
    refine ⟨sound, onTime.unknown, onTime.charged, onTime.owned, ahead, fun job member => ?_⟩
    have inRows := (mem_filter.mp (due.1.mem_iff.mp member)).1
    exact ⟨onTime.owned job inRows, ahead job inRows (Option.some_ne_none _).symm⟩
  | skipped job jobs phase =>
    rw [phase] at ahead charged
    exact ⟨sound, onTime.unknown, onTime.charged, onTime.owned, ahead,
      fun other member => charged other (mem_cons_of_mem _ member)⟩
  | started job jobs phase closed => exact onTime.started phase sound
  | lost job jobs success message phase failed =>
    rw [phase] at ahead charged
    obtain ⟨rest, waiting, fewer⟩ := afterRun_eq world jobs
    rw [Continues, phase] at continues
    refine onTime.logged sound (fun _ => ⟨rfl, rfl, rfl⟩) rfl
      (fun row member => (onTime.owned row member).mono (expressions_subset _ _ _))
      (fun row member _ => ?_) ?_
    · refine ahead row member fun same => ?_
      have here : job.id = row.id := Option.some.inj same
      have stored : (world.jobs.find job.id).isSome = true := by
        rw [here, KeyedTable.find_of_mem member, Option.isSome_some]
      exact absurd failed (recordFor_of_later (continues job rfl stored) message)
    · rw [waiting]
      exact fun other member => charged.2 other (fewer.subset member)
  | finished job jobs success record phase made =>
    rw [phase] at ahead charged
    exact onTime.logged sound (fun _ => ⟨rfl, rfl, rfl⟩) rfl
      (fun row member => (onTime.owned row member).mono (expressions_subset _ _ _)) ahead charged
  | recorded job record jobs phase =>
    rw [phase] at ahead charged fetched
    obtain ⟨rest, waiting, fewer⟩ := afterRun_eq world jobs
    have set : ∀ row ∈ (rescheduleAfterRun world.jobs record).rows,
        row.Ahead readSchedule world.log := by
      intro row member
      obtain ⟨old, inRows, rfl⟩ := mem_map.mp member
      have owned := onTime.owned old inRows
      split
      case isTrue same =>
        exact RunRecord.ahead fetched.2 charged.1.1 charged.1.2 (of_decide_eq_true same) owned
      case isFalse other =>
        refine ⟨owned, ahead old inRows fun same => other (decide_eq_true ?_)⟩
        exact (Option.some.inj same).symm.trans fetched.2.id.symm
    refine ⟨sound, onTime.unknown, onTime.charged, fun row member => (set row member).owned,
      fun row member _ => (set row member).ahead, ?_⟩
    simp only [waiting]
    exact fun other member => charged.2 other (fewer.subset member)

end Preservation

section Runs

variable {readSchedule : Chars → Option Schedule} {config : ReliabilityConfig}

/-- As long as runs are recorded with a later occurrence, no job runs more often than its
schedule occurs. -/
theorem runs_per_occurrence (now : Time) (actions : List Action)
    (continues : Guarded (step readSchedule config) (Continues readSchedule) (World.empty now)
      actions) :
    Always (step readSchedule config) (Punctual readSchedule) (World.empty now) actions :=
  always_of_guarded OnTime.punctual OnTime.step (onTime_empty now) continues

instance (world : World) : (action : Action) → Decidable (Continues readSchedule world action)
  | .finish _ => inferInstanceAs (Decidable (∀ job ∈ world.phase.current, _))
  | .proceed index => inferInstanceAs (Decidable (∀ edit ∈ world.calls[index]?.bind Call.edit, _))
  | .pass _ | .addJob .. | .selectJob _ | .removeJob _ | .shutDown | .poll | .cleanup | .fetch _
  | .start | .record => isTrue trivial

end Runs

section Samples

/-- What has happened to the job of the samples. -/
def history (world : World) : List Time × Option Time × List Chars :=
  (dues "job" world.log, createdAt "job" world.log, expressions "job" world.log)

theorem hourly_run_punctual :
    (run (step sampleSchedule sampleConfig) (World.empty 0)
        (firstStart ++ [.finish true, .record])).map history =
      some ([hour], some 0, ["hourly".toList]) ∧
    Always (step sampleSchedule sampleConfig) (Punctual sampleSchedule) (World.empty 0)
      (firstStart ++ [.finish true, .record]) :=
  ⟨by decide +kernel, runs_per_occurrence 0 _ (by decide +kernel)⟩

/-- A job of the first moment of 2027, as it is added an hour before. -/
def newYearJob : CronJob :=
  { hourlyJob with expression := "0 0 0 1 1 * 2027".toList, nextRun := newYear }

/-- It runs at its occurrence, and again at the next poll. -/
def newYearRun : List Action :=
  [.addJob "job" "0 0 0 1 1 * 2027".toList "echo".toList .default, .proceed 0, .pass 3600000000,
    .poll, .cleanup, .fetch [newYearJob], .start, .finish true, .pass 5000000,
    .poll, .cleanup, .fetch [newYearJob], .start]

theorem scheduleOf_newYear :
    scheduleOf sampleSchedule "0 0 0 1 1 * 2027".toList = .ok (.once newYear) := by
  have normalized : normalizeExpression "0 0 0 1 1 * 2027".toList =
      .ok "0 0 0 1 1 * 2027".toList := by
    decide +kernel
  have notHourly : ¬ "0 0 0 1 1 * 2027".toList = "0 0 * * * *".toList := by decide +kernel
  have notDaily : ¬ "0 0 0 1 1 * 2027".toList = "0 0 0 * * *".toList := by decide +kernel
  simp only [scheduleOf, normalized, sampleSchedule, if_neg notHourly, if_neg notDaily, if_pos]

/-- A job with one occurrence runs twice. -/
theorem last_occurrence_runs_again :
    ∃ final, run (step sampleSchedule sampleConfig) (World.empty (newYear - hour)) newYearRun =
        some final ∧
      starts "job" final.log = 2 ∧ ¬ Punctual sampleSchedule final := by
  have ran : (run (step sampleSchedule sampleConfig) (World.empty (newYear - hour))
      newYearRun).map history =
        some ([newYear, newYear], some (newYear - hour), ["0 0 0 1 1 * 2027".toList]) := by
    decide +kernel
  obtain ⟨final, ran, view⟩ := Option.map_eq_some_iff.mp ran
  obtain ⟨started, created, named⟩ : dues "job" final.log = [newYear, newYear] ∧
      createdAt "job" final.log = some (newYear - hour) ∧
      expressions "job" final.log = ["0 0 0 1 1 * 2027".toList] := by
    simpa [history] using view
  have twice : starts "job" final.log = 2 := by rw [starts, started]; rfl
  refine ⟨final, ran, twice, fun punctual => ?_⟩
  have bounded := punctual "job" (newYear - hour) created
  have only : passed sampleSchedule "job" (newYear - hour) final ⊆ {newYear} := by
    rintro time ⟨_, _, expression, member, schedule, found, occurs⟩
    rw [named, mem_singleton] at member
    rw [member, scheduleOf_newYear] at found
    rw [← Except.ok.inj found] at occurs
    exact occurs
  have atMostOne := (bounded.trans (Set.encard_le_encard only)).trans (Set.encard_singleton _).le
  rw [twice] at atMostOne
  exact absurd atMostOne (by decide)

end Samples

end Asterel.Cron
