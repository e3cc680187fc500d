import Asterel.Memory.Maintenance
import Asterel.Memory.PostgresWrite

/-!
# Promotion of expiring working memory

A hygiene run is due twelve hours after the last one was recorded. It prunes the tables
and then copies the valuable working units that expire within the next six hours into
the episodic layer. A slot is promoted once: the event that a promotion writes keeps
later runs from promoting the slot again.

A call of `run_if_due` is three steps: the check with the pruning, the promotion, and the
record of the run. The archiving of files and the sleep phase between the last two are
left to the changes that others make; a call that fails ends without a record.
-/

namespace Asterel.Hygiene

open Library List KeyedTable Transitions
open Asterel.Memory
open Asterel.Postgres

def hours (count : Int) : Timestamp := count * 3600 * 1000000

def minutes (count : Int) : Timestamp := count * 60 * 1000000

def hygieneInterval : Timestamp := hours 12

def promotionWindow : Timestamp := hours 6

/-- An episodic row that a promotion writes into the event log. Its type is the text
`upsert`, and its provenance is a reference without a class. -/
structure PromotionEvent where
  entityId : Chars
  slotKey : Chars
  value : Chars
  confidence : ℚ
  importance : ℚ
  provenanceReference : Chars
  retentionExpiresAt : Option Timestamp
  signalTier : SignalTier
  privacyLevel : PrivacyLevel
  occurredAt : Timestamp
  deriving DecidableEq

/-- The unit that a promotion copied, and the clock that it read. -/
structure Promotion where
  readAt : Timestamp
  row : UnitRow
  deriving DecidableEq

inductive Phase where
  | idle
  | pruned
  | promoted
  deriving DecidableEq

structure HygieneState where
  db : Database
  accessCount : Chars → Int
  promotionEvents : List PromotionEvent
  lastRunAt : Option Timestamp
  phase : Phase
  promotions : List Promotion

def initialState (db : Database) (accessCount : Chars → Int) (lastRunAt : Option Timestamp) :
    HygieneState :=
  ⟨db, accessCount, [], lastRunAt, .idle, []⟩

section Promotion

def promotedName (name : SlotName) : SlotName := (name.1, "episodic.promoted.".toList ++ name.2)

def promotionReference (slotKey : Chars) : Chars := "memory.promotion.from:".toList ++ slotKey

/-- High importance, or all three signals together. -/
def worthPromoting (accessCount : Int) (row : UnitRow) : Bool :=
  3 / 4 ≤ row.importance ||
    (55 / 100 ≤ row.importance && 7 / 10 ≤ row.reliability && 2 ≤ accessCount)

/-- Whether the log has an episodic event with the reference of a promotion. -/
def alreadyPromoted (state : HygieneState) (name : SlotName) : Bool :=
  (state.db.events.any fun event => event.entityId = name.1 && event.layer = .episodic &&
    event.provenance.any fun provenance => provenance.reference = promotionReference name.2) ||
  state.promotionEvents.any fun event =>
    event.entityId = name.1 && event.provenanceReference = promotionReference name.2

/-- What is given with a promotion: the clock, the time of the transaction, and the order
in which the query returns rows. -/
structure PromotionCall where
  now : Timestamp
  dbNow : Timestamp
  arrange : List UnitRow → List UnitRow
  perm : ∀ rows, (arrange rows).Perm rows

def isCandidate (state : HygieneState) (now : Timestamp) (row : UnitRow) : Bool :=
  row.layer = .working &&
    (row.retentionExpiresAt.any fun expiry => now < expiry && expiry ≤ now + promotionWindow) &&
    worthPromoting (state.accessCount row.unitId) row && !alreadyPromoted state row.name

def loadPromotionCandidates (state : HygieneState) (call : PromotionCall) : List UnitRow :=
  (call.arrange state.db.units.rows).filter (isCandidate state call.now)

def promotedUnit (row : UnitRow) (dbNow : Timestamp) : UnitRow where
  unitId := unitIdOf (promotedName row.name)
  entityId := row.entityId
  slotKey := (promotedName row.name).2
  content := row.content
  signalTier := row.signalTier
  promotionStatus := .promoted
  recencyScore := 1
  importance := row.importance
  reliability := row.reliability
  contradictionPenalty := 0
  visibility := row.visibility
  layer := .episodic
  provenance := none
  retentionTier := .episodic
  retentionExpiresAt := retentionExpiryForLayer .episodic dbNow
  createdAt := dbNow
  updatedAt := dbNow

def promotionEvent (row : UnitRow) (dbNow : Timestamp) : PromotionEvent where
  entityId := row.entityId
  slotKey := (promotedName row.name).2
  value := row.content
  confidence := row.reliability
  importance := row.importance
  provenanceReference := promotionReference row.slotKey
  retentionExpiresAt := retentionExpiryForLayer .episodic dbNow
  signalTier := row.signalTier
  privacyLevel := row.visibility
  occurredAt := dbNow

/-- Insert the promoted unit, and its event and lineage if the unit's id was free. -/
def promoteCandidate (call : PromotionCall) (state : HygieneState) (row : UnitRow) : HygieneState :=
  match state.db.units.insert (promotedUnit row call.dbNow) with
  | none => state
  | some units =>
    let lineage : DerivationRow := ⟨promotedName row.name, row.name⟩
    { state with
      db := { state.db with
        units := units
        derivations :=
          if lineage ∈ state.db.derivations then state.db.derivations
          else state.db.derivations ++ [lineage] }
      promotionEvents := state.promotionEvents ++ [promotionEvent row call.dbNow]
      promotions := state.promotions ++ [⟨call.now, row⟩] }

def promoteExpiringWorkingMemories (state : HygieneState) (call : PromotionCall) : HygieneState :=
  (loadPromotionCandidates state call).foldl (promoteCandidate call) state

end Promotion

section Runs

/-- No run was recorded, or the last one twelve hours ago. -/
def shouldRunNow (state : HygieneState) (now : Timestamp) : Bool :=
  state.lastRunAt.all fun last => hygieneInterval ≤ now - last

/-- The steps of the calls, and what others write in between. -/
inductive Action where
  | check (time : Timestamp) (pass : Pass)
  | promote (call : PromotionCall)
  | record (time : Timestamp)
  | fail (time : Timestamp)
  | change (time : Timestamp) (db : Database) (accessCount : Chars → Int)
      (promotionEvents : List PromotionEvent)

def Action.time : Action → Timestamp
  | check time _ | record time | fail time | change time _ _ _ => time
  | promote call => call.now

def step (state : HygieneState) : Action → Option HygieneState
  | .check time pass =>
    if state.phase ≠ .idle then none
    else if !shouldRunNow state time then some state
    else
      match runPass state.db pass with
      | none => some state
      | some db => some { state with db := db, phase := .pruned }
  | .promote call =>
    if state.phase ≠ .pruned then none
    else some { promoteExpiringWorkingMemories state call with phase := .promoted }
  | .record time =>
    if state.phase ≠ .promoted then none
    else some { state with lastRunAt := some time, phase := .idle }
  | .fail _ => if state.phase = .idle then none else some { state with phase := .idle }
  | .change _ db accessCount promotionEvents => some { state with db, accessCount, promotionEvents }

/-- The times of the calls. -/
def callTimes (actions : List Action) : List Timestamp :=
  actions.filterMap fun action =>
    match action with
    | .check time _ => some time
    | _ => none

/-- Calls at most five minutes apart, from an interval before a time until that time. -/
def CalledOften (expiry : Timestamp) (actions : List Action) : Prop :=
  (callTimes actions).IsChain (fun first second => first ≤ second ∧ second ≤ first + minutes 5) ∧
    (∃ first ∈ (callTimes actions).head?, first ≤ expiry - hygieneInterval) ∧
    ∃ last ∈ (callTimes actions).getLast?, expiry ≤ last

/-- A working unit that expires at a time and is worth promoting. -/
def Valuable (id : Chars) (expiry : Timestamp) (state : HygieneState) : Prop :=
  ∃ row, state.db.units.find id = some row ∧ row.layer = .working ∧
    row.retentionExpiresAt = some expiry ∧ worthPromoting (state.accessCount id) row = true

instance (id : Chars) (expiry : Timestamp) (state : HygieneState) :
    Decidable (Valuable id expiry state) :=
  decidable_of_iff (∃ row ∈ state.db.units.find id, row.layer = .working ∧
    row.retentionExpiresAt = some expiry ∧ worthPromoting (state.accessCount id) row = true) Iff.rfl

/-- The unit is there and valuable during the interval before it expires. -/
def ValuableThroughout (id : Chars) (expiry : Timestamp) (state : HygieneState)
    (actions : List Action) : Prop :=
  Transitions.Guarded step (fun state action => expiry - hygieneInterval ≤ action.time →
    action.time < expiry → Valuable id expiry state) state actions

/-- The unit was promoted before it expired. -/
def PromotedInTime (id : Chars) (expiry : Timestamp) (state : HygieneState) : Prop :=
  ∃ promotion ∈ state.promotions, promotion.row.unitId = id ∧
    promotion.row.retentionExpiresAt = some expiry ∧ promotion.readAt < expiry

/-- No content of a slot was promoted twice. -/
def PromotedOnce (state : HygieneState) : Prop :=
  (state.promotions.map fun promotion => (promotion.row.name, promotion.row.content)).Nodup

/-- A working unit with promoted content has the event of a promotion. -/
def Remembered (state : HygieneState) : Prop :=
  ∀ promotion ∈ state.promotions, ∀ row ∈ state.db.units.rows, row.layer = .working →
    row.name = promotion.row.name → row.content = promotion.row.content →
    alreadyPromoted state row.name = true

/-- What others write brings no promoted content back without the event. -/
def KeepsEvents (state : HygieneState) (action : Action) : Prop :=
  match action with
  | .change _ db accessCount promotionEvents =>
    Remembered { state with db, accessCount, promotionEvents }
  | _ => True

/-- A promotion in the six hours before the expiry finds the slot not promoted yet and the
id for its copy free and wanted by no other candidate. -/
def Caught (id : Chars) (expiry : Timestamp) (start : HygieneState) (actions : List Action) : Prop :=
  ∃ before call after state, actions = before ++ .promote call :: after ∧
    run step start before = some state ∧
    expiry ≤ call.now + promotionWindow ∧ call.now < expiry ∧
    ∀ row, state.db.units.find id = some row → alreadyPromoted state row.name = false ∧
      state.db.units.find (unitIdOf (promotedName row.name)) = none ∧
      ∀ other ∈ loadPromotionCandidates state call,
        unitIdOf (promotedName other.name) = unitIdOf (promotedName row.name) → other = row

end Runs

section Once

variable {state next : HygieneState} {call : PromotionCall} {row : UnitRow}

/-- A step moves the marks of the run, prunes, promotes, or is the change of others. -/
theorem step_cases {action : Action} (stepped : step state action = some next) :
    (∃ lastRunAt phase, next = { state with lastRunAt, phase }) ∨
      (∃ pass db, runPass state.db pass = some db ∧ next = { state with db, phase := .pruned }) ∨
      (∃ call, next = { promoteExpiringWorkingMemories state call with phase := .promoted }) ∨
      ∃ time db accessCount promotionEvents, action = .change time db accessCount promotionEvents ∧
          next = { state with db, accessCount, promotionEvents } := by
  cases action with
  | check time pass =>
    simp only [step] at stepped
    split_ifs at stepped
    · cases stepped
      exact .inl ⟨_, _, rfl⟩
    · cases ran : runPass state.db pass with
      | none =>
        rw [ran] at stepped
        cases stepped
        exact .inl ⟨_, _, rfl⟩
      | some db =>
        rw [ran] at stepped
        cases stepped
        exact .inr (.inl ⟨pass, db, ran, rfl⟩)
  | promote call =>
    simp only [step] at stepped
    split_ifs at stepped
    cases stepped
    exact .inr (.inr (.inl ⟨call, rfl⟩))
  | record time =>
    simp only [step] at stepped
    split_ifs at stepped
    cases stepped
    exact .inl ⟨_, _, rfl⟩
  | fail time =>
    simp only [step] at stepped
    split_ifs at stepped
    cases stepped
    exact .inl ⟨_, _, rfl⟩
  | change time db accessCount promotionEvents =>
    cases stepped
    exact .inr (.inr (.inr ⟨time, db, accessCount, promotionEvents, rfl, rfl⟩))

theorem mem_loadPromotionCandidates :
    row ∈ loadPromotionCandidates state call ↔
      row ∈ state.db.units.rows ∧ isCandidate state call.now row = true := by
  rw [loadPromotionCandidates, mem_filter, (call.perm _).mem_iff]

/-- A candidate is skipped when the id for its copy is taken, or else promoted. -/
theorem promoteCandidate_cases (call : PromotionCall) (state : HygieneState) (row : UnitRow) :
    (promoteCandidate call state row = state ∧
        state.db.units.find (unitIdOf (promotedName row.name)) ≠ none) ∨
      ∃ units, state.db.units.insert (promotedUnit row call.dbNow) = some units ∧
        (promoteCandidate call state row).db.units = units ∧
        (promoteCandidate call state row).db.events = state.db.events ∧
        (promoteCandidate call state row).promotionEvents =
          state.promotionEvents ++ [promotionEvent row call.dbNow] ∧
        (promoteCandidate call state row).promotions = state.promotions ++ [⟨call.now, row⟩] := by
  rw [promoteCandidate]
  cases inserted : state.db.units.insert (promotedUnit row call.dbNow) with
  | none =>
    refine .inl ⟨rfl, fun free => ?_⟩
    have absent : state.db.units.find (promotedUnit row call.dbNow).unitId = none := free
    obtain ⟨units, done⟩ := insert_of_find_eq_none absent
    rw [inserted] at done
    cases done
  | some units => exact .inr ⟨units, rfl, rfl, rfl, rfl, rfl⟩

theorem alreadyPromoted_mono {name : SlotName} (events : next.db.events = state.db.events)
    (grown : state.promotionEvents ⊆ next.promotionEvents)
    (promoted : alreadyPromoted state name = true) : alreadyPromoted next name = true := by
  rw [alreadyPromoted, Bool.or_eq_true, any_eq_true] at promoted ⊢
  rw [events]
  refine promoted.imp_right ?_
  rintro ⟨event, member, named⟩
  exact ⟨event, grown member, named⟩

/-- What holds while the candidates are taken in order. -/
structure Consistent (candidates : List UnitRow) (state : HygieneState) : Prop where
  once : PromotedOnce state
  remembered : Remembered state
  taken : ∀ promotion ∈ state.promotions, ∀ row ∈ candidates, row.name = promotion.row.name →
    row.content = promotion.row.content →
    state.db.units.find (unitIdOf (promotedName row.name)) ≠ none

/-- The event of a promotion names the slot of its candidate. -/
theorem alreadyPromoted_of_event
    (recorded : promotionEvent row call.dbNow ∈ state.promotionEvents) :
    alreadyPromoted state row.name = true := by
  rw [alreadyPromoted, Bool.or_eq_true]
  refine .inr (any_eq_true.mpr ⟨_, recorded, ?_⟩)
  rw [Bool.and_eq_true, decide_eq_true_iff, decide_eq_true_iff]
  exact ⟨rfl, rfl⟩

theorem consistent_promoteCandidate {candidates : List UnitRow} (member : row ∈ candidates)
    (consistent : Consistent candidates state) :
    Consistent candidates (promoteCandidate call state row) := by
  rcases promoteCandidate_cases call state row with ⟨same, _⟩ |
    ⟨units, inserted, unitsNow, events, promotionEvents, promotions⟩
  · rw [same]
    exact consistent
  obtain ⟨rows, free⟩ := rows_insert inserted
  have recorded : alreadyPromoted (promoteCandidate call state row) row.name = true :=
    alreadyPromoted_of_event (by rw [promotionEvents]; exact mem_append_right _ mem_cons_self)
  refine ⟨?once, ?remembered, ?taken⟩
  case once =>
    rw [PromotedOnce, promotions, map_append, map_singleton, ← concat_eq_append]
    refine consistent.once.concat fun before => ?_
    obtain ⟨promotion, earlier, same⟩ := mem_map.mp before
    obtain ⟨name, content⟩ := Prod.mk.inj same
    exact consistent.taken promotion earlier row member name.symm content.symm free
  case remembered =>
    intro promotion promoted unit unitMember working name content
    rw [unitsNow, rows, mem_append, mem_singleton] at unitMember
    rcases unitMember with old | rfl
    · rw [promotions, mem_append, mem_singleton] at promoted
      rcases promoted with earlier | rfl
      · refine alreadyPromoted_mono events ?_
          (consistent.remembered promotion earlier unit old working name content)
        rw [promotionEvents]
        exact subset_append_left _ _
      · rw [name]
        exact recorded
    · cases working
  case taken =>
    intro promotion promoted other otherMember name content
    rw [unitsNow, find_insert inserted]
    split
    · exact Option.some_ne_none _
    case isFalse elsewhere =>
      rw [promotions, mem_append, mem_singleton] at promoted
      rcases promoted with earlier | rfl
      · exact consistent.taken promotion earlier other otherMember name content
      · refine absurd ?_ elsewhere
        rw [name]
        rfl

theorem once_promoteExpiring (once : PromotedOnce state) (remembered : Remembered state) :
    PromotedOnce (promoteExpiringWorkingMemories state call) ∧
      Remembered (promoteExpiringWorkingMemories state call) := by
  have initial : Consistent (loadPromotionCandidates state call) state := by
    refine ⟨once, remembered, fun promotion promoted row member name content => ?_⟩
    obtain ⟨stored, candidate⟩ := mem_loadPromotionCandidates.mp member
    simp only [isCandidate, Bool.and_eq_true, decide_eq_true_iff, Bool.not_eq_true'] at candidate
    have before := remembered promotion promoted row stored candidate.1.1.1 name content
    rw [candidate.2] at before
    cases before
  have final := foldlRecOn (motive := Consistent (loadPromotionCandidates state call))
    (loadPromotionCandidates state call) (promoteCandidate call) initial
    fun _ consistent _ member => consistent_promoteCandidate member consistent
  exact ⟨final.once, final.remembered⟩

/-- A pass keeps the events, and every unit behind it was there with its content. -/
theorem remembered_runPass {pass : Pass} {db : Database} (remembered : Remembered state)
    (ran : runPass state.db pass = some db) : Remembered { state with db } := by
  have events : db.events = state.db.events := events_pruned ran
  intro promotion promoted row member working name content
  obtain ⟨old, stored, same⟩ : ∃ old ∈ state.db.units.rows, SameMemory old row := by
    cases enabled : lifecyclePruningDisabled pass.config with
    | true =>
      rw [runPass, pruneLifecycleRows, if_pos enabled] at ran
      cases ran
      exact ⟨row, member, SameMemory.refl row⟩
    | false =>
      obtain ⟨old, found, pruned⟩ :=
        find_units_runPass enabled ran (find_of_mem member)
      exact ⟨old, mem_of_find found, sameMemory_of_unitPruned pruned⟩
  rw [same.name]
  refine alreadyPromoted_mono events (Subset.refl _) ?_
  exact remembered promotion promoted old stored (same.layer.symm.trans working)
    (same.name.symm.trans name) (same.content.symm.trans content)

theorem once_step {action : Action} (once : PromotedOnce state) (remembered : Remembered state)
    (keeps : KeepsEvents state action) (stepped : step state action = some next) :
    PromotedOnce next ∧ Remembered next := by
  rcases step_cases stepped with ⟨_, _, rfl⟩ | ⟨pass, db, ran, rfl⟩ | ⟨call, rfl⟩ | ⟨_, _, _, _, rfl, rfl⟩
  · exact ⟨once, remembered⟩
  · exact ⟨once, remembered_runPass remembered ran⟩
  · exact once_promoteExpiring once remembered
  · exact ⟨once, keeps⟩

end Once

section InTime

variable {state next : HygieneState} {call : PromotionCall} {row : UnitRow}

theorem promotions_subset_promoteCandidate (call : PromotionCall) (state : HygieneState)
    (row : UnitRow) : state.promotions ⊆ (promoteCandidate call state row).promotions := by
  rcases promoteCandidate_cases call state row with ⟨same, _⟩ | ⟨_, _, _, _, _, promotions⟩
  · rw [same]
    exact Subset.refl _
  · rw [promotions]
    exact subset_append_left _ _

theorem promotions_subset_foldl (call : PromotionCall) (candidates : List UnitRow)
    (state : HygieneState) :
    state.promotions ⊆ (candidates.foldl (promoteCandidate call) state).promotions := by
  induction candidates generalizing state with
  | nil => exact Subset.refl _
  | cons head rest ih =>
    exact Subset.trans (promotions_subset_promoteCandidate call state head)
      (ih _)

theorem promotions_subset_step {action : Action} (stepped : step state action = some next) :
    state.promotions ⊆ next.promotions := by
  rcases step_cases stepped with ⟨_, _, rfl⟩ | ⟨pass, db, ran, rfl⟩ | ⟨call, rfl⟩ | ⟨_, _, _, _, rfl, rfl⟩
  · exact Subset.refl _
  · exact Subset.refl _
  · exact promotions_subset_foldl call _ state
  · exact Subset.refl _

/-- A run keeps the promotions that were made. -/
theorem promotions_subset_run {actions : List Action}
    (ran : run step state actions = some next) : state.promotions ⊆ next.promotions := by
  have preserved : ∀ {reached later : HygieneState} {action : Action},
      state.promotions ⊆ reached.promotions → True → step reached action = some later →
      state.promotions ⊆ later.promotions :=
    fun grown _ stepped => Subset.trans grown (promotions_subset_step stepped)
  exact run_invariant preserved (Subset.refl _)
    (guarded_true state actions) ran

/-- A candidate whose id for the copy is free, and wanted by no other one, is promoted. -/
theorem promoted_foldl {candidates : List UnitRow} (member : row ∈ candidates)
    (free : state.db.units.find (unitIdOf (promotedName row.name)) = none)
    (alone : ∀ other ∈ candidates,
      unitIdOf (promotedName other.name) = unitIdOf (promotedName row.name) → other = row) :
    ⟨call.now, row⟩ ∈ (candidates.foldl (promoteCandidate call) state).promotions := by
  induction candidates generalizing state with
  | nil => cases member
  | cons head rest ih =>
    rw [foldl_cons]
    by_cases here : head = row
    · subst here
      refine promotions_subset_foldl call rest _ ?_
      rcases promoteCandidate_cases call state head with ⟨_, absent⟩ | ⟨_, _, _, _, _, promotions⟩
      · exact absurd free absent
      · rw [promotions]
        exact mem_append_right _ mem_cons_self
    · have later : row ∈ rest := (mem_cons.mp member).resolve_left (Ne.symm here)
      refine ih later ?_ fun other otherMember =>
        alone other (mem_cons_of_mem _ otherMember)
      rcases promoteCandidate_cases call state head with ⟨same, _⟩ | ⟨units, inserted, unitsNow, _⟩
      · rw [same]
        exact free
      · rw [unitsNow, find_insert inserted]
        exact (if_neg fun same => here (alone head mem_cons_self same.symm)).trans free

/-- A valuable unit in the window is a candidate until its slot is promoted. -/
theorem candidate_of_valuable {id : Chars} {expiry : Timestamp}
    (found : state.db.units.find id = some row) (working : row.layer = .working)
    (expires : row.retentionExpiresAt = some expiry)
    (worth : worthPromoting (state.accessCount id) row = true)
    (early : expiry ≤ call.now + promotionWindow) (late : call.now < expiry)
    (fresh : alreadyPromoted state row.name = false) : row ∈ loadPromotionCandidates state call := by
  have key : row.unitId = id := find_key found
  refine mem_loadPromotionCandidates.mpr ⟨mem_of_find found, ?_⟩
  simp only [isCandidate, working, expires, key, worth, fresh, Option.any_some, decide_true,
    Bool.not_false, Bool.and_true, Bool.true_and, Bool.and_eq_true, decide_eq_true_iff]
  exact ⟨late, early⟩

theorem promotedInTime_of_caught {id : Chars} {expiry : Timestamp} {actions : List Action}
    (valuable : ValuableThroughout id expiry state actions)
    (caught : Caught id expiry state actions)
    (ran : run step state actions = some next) : PromotedInTime id expiry next := by
  obtain ⟨before, call, after, reached, rfl, ranBefore, early, late, free⟩ := caught
  have starts : expiry - hygieneInterval ≤ call.now := by
    have shorter : promotionWindow ≤ hygieneInterval := by decide
    exact sub_le_iff_le_add.mpr (early.trans (add_le_add_right shorter _))
  obtain ⟨row, found, working, expires, worth⟩ :=
    (guarded_append valuable ranBefore).2.1 starts late
  obtain ⟨fresh, unused, alone⟩ := free row found
  have member := candidate_of_valuable found working expires worth early late fresh
  rw [run_append ranBefore] at ran
  obtain ⟨promoted, stepped, ranAfter⟩ := run_cons_eq_some ran
  simp only [step] at stepped
  split_ifs at stepped
  cases stepped
  have done : ⟨call.now, row⟩ ∈ (promoteExpiringWorkingMemories reached call).promotions :=
    promoted_foldl member unused alone
  exact ⟨⟨call.now, row⟩, promotions_subset_run ranAfter done, find_key found, expires, late⟩

end InTime

/-- No content is promoted twice, and a valuable unit that a run catches in its last six
hours is promoted before it expires. -/
theorem valuable_promoted {db : Database} {accessCount : Chars → Int}
    {lastRunAt : Option Timestamp} {actions : List Action} {final : HygieneState}
    (ran : run step (initialState db accessCount lastRunAt) actions = some final)
    (keeps : Transitions.Guarded step KeepsEvents (initialState db accessCount lastRunAt) actions) :
    PromotedOnce final ∧ ∀ id expiry,
      ValuableThroughout id expiry (initialState db accessCount lastRunAt) actions →
      Caught id expiry (initialState db accessCount lastRunAt) actions →
      PromotedInTime id expiry final := by
  refine ⟨?_, fun id expiry valuable caught => promotedInTime_of_caught valuable caught ran⟩
  have initial : PromotedOnce (initialState db accessCount lastRunAt) ∧
      Remembered (initialState db accessCount lastRunAt) := by
    refine ⟨nodup_nil, ?_⟩
    intro promotion promoted
    cases promoted
  have preserved : ∀ {state next : HygieneState} {action : Action},
      PromotedOnce state ∧ Remembered state → KeepsEvents state action →
      step state action = some next → PromotedOnce next ∧ Remembered next :=
    fun held met stepped => once_step held.1 held.2 met stepped
  exact (run_invariant preserved initial keeps ran).1

def importantNote (expiry : Timestamp) : UnitRow where
  unitId := unitIdOf (['p'], ['n'])
  entityId := ['p']
  slotKey := ['n']
  content := ['c']
  signalTier := .raw
  promotionStatus := .raw
  recencyScore := 1
  importance := 1
  reliability := 1
  contradictionPenalty := 0
  visibility := .private
  layer := .working
  provenance := none
  retentionTier := .working
  retentionExpiresAt := some expiry
  createdAt := 0
  updatedAt := 0

def withNote (expiry : Timestamp) : Database :=
  { Database.empty [] with units := ⟨[importantNote expiry], nodup_singleton _⟩ }

/-- No retention is configured, and so nothing is pruned. -/
def keepingPass : Pass := ⟨⟨0, none, none, none, none, none, none⟩, ⟨0, fun _ => 0, fun _ => le_refl 0⟩⟩

/-- The steps of a call that is due. -/
def dueCall (now : Timestamp) : List Action :=
  [.check now keepingPass, .promote ⟨now, now, id, fun _ => .refl _⟩, .record now]

/-- Five hours before the note expires, a run is due. -/
theorem valuable_promoted_once :
    ∃ final, run step (initialState (withNote (hours 5)) (fun _ => 0) none) (dueCall 0) =
      some final ∧ PromotedInTime (unitIdOf (['p'], ['n'])) (hours 5) final := by
  obtain ⟨final, ran⟩ := Option.isSome_iff_exists.mp (show (run step
    (initialState (withNote (hours 5)) (fun _ => 0) none) (dueCall 0)).isSome by decide +kernel)
  refine ⟨final, ran, (valuable_promoted ran ?keeps).2 _ _ ?valuable ?caught⟩
  case keeps => simp [Transitions.Guarded, dueCall, KeepsEvents]
  case valuable => unfold ValuableThroughout; decide +kernel
  case caught =>
    refine ⟨[.check 0 keepingPass], _, [.record 0], _, rfl, rfl, by decide, by decide, ?_⟩
    intro row found
    cases found
    decide +kernel

/-- Calls every five minutes for twelve hours. The runs are due eleven hours and a moment
before the note expires, and when it expires. -/
def callsAroundWindow : List Action :=
  dueCall (-hours 1) ++
    (List.range 143).map (fun count => .check (minutes (5 * (count + 1)) - hours 1) keepingPass) ++
    dueCall (hours 11)

theorem isSome_callsAroundWindow : (run step
    (initialState (withNote (hours 11)) (fun _ => 0) none) callsAroundWindow).isSome := by
  decide +kernel

theorem note_expires_unpromoted :
    ¬∀ db accessCount lastRunAt actions final,
      run step (initialState db accessCount lastRunAt) actions = some final →
      PromotedOnce final ∧ ∀ id expiry, CalledOften expiry actions →
        ValuableThroughout id expiry (initialState db accessCount lastRunAt) actions →
        PromotedInTime id expiry final := by
  intro always
  have promoted := (always _ _ _ _ _ (Option.some_get isSome_callsAroundWindow).symm).2
    (unitIdOf (['p'], ['n'])) (hours 11) (by unfold CalledOften; decide +kernel)
    (by unfold ValuableThroughout; decide +kernel)
  exact absurd promoted (by unfold PromotedInTime; decide +kernel)

end Asterel.Hygiene
