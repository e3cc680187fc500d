import Asterel.Memory.PostgresTables
import Mathlib.Tactic.Positivity

/-!
# The writers of the PostgreSQL memory

An append inserts an event, and where the event wins over the active slot it writes the
slot, its retrieval unit and its graph node. A forget leaves a row in the deletion ledger
and hides or deletes what it names. Retention pruning deletes expired events, and restores
each slot whose winning event has expired from the best event that is left.

Every writer is one transaction. Slots are named by entity and key, units and graph nodes by
one text made of both. The order in which a statement lists its rows is a parameter. The
scores of an event lie between zero and one, as the ingress clamps them, so that the score
constraints of the unit table can only fail on a recency score.
-/

namespace Asterel.Postgres

open Library List KeyedTable
open Asterel.Memory
open Asterel.Integrity (F64)

section Replacement

/-- The number that a finite score stands for. -/
def scoreValue (v : F64) : ℚ := (if v.isSignNegative then -1 else 1) * v.magnitude / 2 ^ 1074

def sourcePriority : MemorySource → Nat
  | .explicitUser => 5
  | .toolVerified => 4
  | .externalPrimary => 3
  | .system => 2
  | .externalSecondary => 1
  | .inferred => 0

/-- `timestamp_nanos_opt` of a time stamp of the database. -/
def timestampNanos (timestamp : Timestamp) : Option Int :=
  if -2 ^ 63 ≤ timestamp * 1000 ∧ timestamp * 1000 < 2 ^ 63 then some (timestamp * 1000) else none

def compareNormalizedTimestamps : Option Int → Option Int → Ordering
  | some incoming, some incumbent => compare incoming incumbent
  | some _, none => .gt
  | none, some _ => .lt
  | none, none => .eq

def confidenceEpsilon : ℚ := 1 / 1000

/-- Whether the input replaces the active slot, and the event it supersedes. -/
def decideReplacement (db : Database) (name : SlotName) (source : MemorySource) (confidence : ℚ)
    (occurredAt : Option Int) : Bool × Option String :=
  match (db.slots.find name).filter fun row => row.status = .active with
  | none => (true, none)
  | some incumbent =>
    let shouldReplace : Bool :=
      match compare (sourcePriority source) (sourcePriority incumbent.source) with
      | .gt => true
      | .lt => false
      | .eq =>
        if confidenceEpsilon < |confidence - incumbent.confidence| then
          incumbent.confidence < confidence
        else compareNormalizedTimestamps occurredAt (timestampNanos incumbent.updatedAt) ≠ .lt
    (shouldReplace, if shouldReplace then some incumbent.winnerEventId else none)

end Replacement

section Append

/-- A call: the input with its time stamp in nanoseconds if that parses, the event id that is
drawn, and the clock at the start of the transaction and in it. -/
structure AppendCall where
  input : MemoryEventInput
  signalTier : Option SignalTier
  occurredAt : Option Int
  eventId : String
  startedAt : Timestamp
  now : Timestamp

def normalizeInput (input : MemoryEventInput) : Except String MemoryEventInput :=
  normalizeForIngress
    { input with
      entityId := Text.trim input.entityId
      slotKey := Text.trim input.slotKey
      value := Text.trim input.value }

def retentionExpiryForLayer (layer : MemoryLayer) (occurredAt : Timestamp) : Option Timestamp :=
  match layer with
  | .working => some (occurredAt + days 2)
  | .episodic => some (occurredAt + days 30)
  | .semantic | .procedural | .identity => none

def eventRow (input : MemoryEventInput) (call : AppendCall) (supersedes : Option String) : EventRow where
  eventId := call.eventId
  entityId := input.entityId
  slotKey := input.slotKey
  layer := input.layer
  eventType := input.eventType
  value := input.value
  source := input.source
  confidence := scoreValue input.confidence
  importance := scoreValue input.importance
  provenance := input.provenance
  retentionTier := input.layer
  retentionExpiresAt := retentionExpiryForLayer input.layer call.now
  signalTier := call.signalTier.getD .raw
  privacyLevel := input.privacyLevel
  occurredAt := call.now
  supersedesEventId := supersedes

def insertMemoryEventRow (db : Database) (event : EventRow) : Except String Database :=
  match db.events.insert event with
  | some events => .ok { db with events }
  | none => .error "insert memory_events row"

/-- The slot that an event wins. -/
def slotOf (event : EventRow) (now : Timestamp) : SlotRow where
  entityId := event.entityId
  slotKey := event.slotKey
  value := event.value
  status := .active
  winnerEventId := event.eventId
  source := event.source
  confidence := event.confidence
  importance := event.importance
  privacyLevel := event.privacyLevel
  updatedAt := now

/-- `ON CONFLICT (entity_id, slot_key) DO UPDATE` with all other columns. -/
def SlotRow.writtenOver (row old : SlotRow) : SlotRow :=
  { row with entityId := old.entityId, slotKey := old.slotKey }

@[simp] theorem SlotRow.name_writtenOver (row old : SlotRow) :
    (row.writtenOver old).name = old.name := rfl

def upsertBeliefSlot (db : Database) (row : SlotRow) : Database :=
  { db with slots := db.slots.upsert row row.writtenOver fun _ => SlotRow.name_writtenOver .. }

def graphOf (event : EventRow) (now : Timestamp) : GraphRow where
  graphEntityId := slotGraphId event.name
  ownerEntityId := event.entityId
  value := event.value
  source := event.source
  confidence := event.confidence
  importance := event.importance
  privacyLevel := event.privacyLevel
  updatedAt := now

def GraphRow.writtenOver (row old : GraphRow) : GraphRow :=
  { row with graphEntityId := old.graphEntityId, ownerEntityId := old.ownerEntityId }

@[simp] theorem GraphRow.graphEntityId_writtenOver (row old : GraphRow) :
    (row.writtenOver old).graphEntityId = old.graphEntityId := rfl

def upsertSlotProjection (db : Database) (row : GraphRow) : Database :=
  { db with
    graph := db.graph.upsert row row.writtenOver fun _ => GraphRow.graphEntityId_writtenOver .. }

def clampUnit (score : ℚ) : ℚ := max 0 (min score 1)

def contradictionPenalty (confidence importance : ℚ) : ℚ :=
  clampUnit (12 / 100 + 10 / 100 * clampUnit confidence + 8 / 100 * clampUnit importance)

def UnitRow.penalized (row : UnitRow) (penalty : ℚ) : UnitRow :=
  { row with contradictionPenalty := penalty }

@[simp] theorem UnitRow.unitId_penalized (row : UnitRow) (penalty : ℚ) :
    (row.penalized penalty).unitId = row.unitId := rfl

def updateContradictionPenalty (db : Database) (event : EventRow) : Database :=
  if event.supersedesEventId.isNone then db
  else
    let penalty := contradictionPenalty event.confidence event.importance
    { db with
      units := db.units.updateWhere
        (fun row => row.unitId = unitIdOf event.name && row.contradictionPenalty < penalty)
        (fun row => row.penalized penalty) fun _ => UnitRow.unitId_penalized .. }

def unitOf (event : EventRow) (now : Timestamp) : UnitRow where
  unitId := unitIdOf event.name
  entityId := event.entityId
  slotKey := event.slotKey
  content := event.value
  signalTier := event.signalTier
  promotionStatus := .promoted
  recencyScore := 1
  importance := event.importance
  reliability := 8 / 10
  contradictionPenalty := 0
  visibility := event.privacyLevel
  layer := event.layer
  provenance := event.provenance
  retentionTier := event.retentionTier
  retentionExpiresAt := event.retentionExpiresAt
  createdAt := now
  updatedAt := now

/-- `ON CONFLICT (unit_id) DO UPDATE`: entity, key, status, reliability, penalty and creation
stay. -/
def UnitRow.writtenOver (row : UnitRow) (startedAt : Timestamp) (old : UnitRow) : UnitRow :=
  { old with
    content := row.content
    signalTier := row.signalTier
    recencyScore := max 0 (1 - ((startedAt - old.createdAt : Int) : ℚ) / 1000000 / (90 * 86400))
    importance := row.importance
    visibility := row.visibility
    layer := row.layer
    provenance := row.provenance
    retentionTier := row.retentionTier
    retentionExpiresAt := row.retentionExpiresAt
    updatedAt := row.updatedAt }

@[simp] theorem UnitRow.unitId_writtenOver (row : UnitRow) (startedAt : Timestamp) (old : UnitRow) :
    (row.writtenOver startedAt old).unitId = old.unitId := rfl

/-- Fails on a score that its constraint does not admit. -/
def upsertRetrievalUnit (db : Database) (row : UnitRow) (startedAt : Timestamp) :
    Except String Database :=
  if (db.units.find row.unitId).any fun old => 1 < (row.writtenOver startedAt old).recencyScore then
    .error "upsert retrieval_units"
  else .ok { db with
    units := db.units.upsert row (row.writtenOver startedAt) fun _ => UnitRow.unitId_writtenOver .. }

def UnitRow.candidate (row : UnitRow) : UnitRow := { row with promotionStatus := .candidate }

@[simp] theorem UnitRow.unitId_candidate (row : UnitRow) : row.candidate.unitId = row.unitId := rfl

/-- A raw unit is promoted when two sources have confirmed its slot. -/
def maybePromoteToCandidate (db : Database) (name : SlotName) : Database :=
  let sources := (db.events.rows.filter fun event => event.name = name).map EventRow.source
  if 2 ≤ sources.dedup.length then
    { db with
      units := db.units.updateWhere
        (fun row => row.unitId = unitIdOf name && row.promotionStatus = .raw)
        UnitRow.candidate UnitRow.unitId_candidate }
  else db

/-- What an event that replaces its slot writes. -/
def writeReplacement (db : Database) (event : EventRow) (call : AppendCall) : Except String Database := do
  let db := updateContradictionPenalty (upsertSlotProjection db (graphOf event call.now)) event
  let db := upsertBeliefSlot db (slotOf event call.now)
  let db ← upsertRetrievalUnit db (unitOf event call.now) call.startedAt
  return maybePromoteToCandidate db event.name

/-- The decision on the slot of an input. -/
def replacement (db : Database) (input : MemoryEventInput) (call : AppendCall) : Bool × Option String :=
  decideReplacement db (input.entityId, input.slotKey) input.source (scoreValue input.confidence)
    call.occurredAt

def appendEvent (db : Database) (call : AppendCall) : Except String (Database × EventRow) := do
  let input ← normalizeInput call.input
  let event := eventRow input call (replacement db input call).2
  let inserted ← insertMemoryEventRow db event
  if (replacement db input call).1 then
    let written ← writeReplacement inserted event call
    return (written, event)
  else return (inserted, event)

end Append

section Forget

/-- Slots derived from the given ones in one step that are not among them. -/
def newlyDerived (derivations : List DerivationRow) (targets : List SlotName) : List SlotName :=
  ((derivations.filter fun row => row.source ∈ targets && row.derived ∉ targets).map
    DerivationRow.derived).dedup

/-- `WITH RECURSIVE targets`, round by round. -/
def lineage (derivations : List DerivationRow) : Nat → List SlotName → List SlotName
  | 0, targets => targets
  | fuel + 1, targets =>
    match newlyDerived derivations targets with
    | [] => targets
    | found => lineage derivations fuel (targets ++ found)

def lineageOf (derivations : List DerivationRow) (name : SlotName) : List SlotName :=
  lineage derivations derivations.length [name]

def applyHardDelete (db : Database) (name : SlotName) : Database :=
  let targets := lineageOf db.derivations name
  { slots := db.slots.deleteWhere fun row => row.name ∈ targets
    units := db.units.deleteWhere fun row => row.name ∈ targets
    events := db.events.deleteWhere fun row => row.name ∈ targets
    ledger := db.ledger
    graph := db.graph.deleteWhere fun row => row.graphEntityId ∈ targets.map slotGraphId
    derivations := db.derivations.filter fun row => row.derived ∉ targets && row.source ∉ targets }

def UnitRow.hidden (row : UnitRow) (now : Timestamp) : UnitRow :=
  { row with visibility := .secret, updatedAt := now }

@[simp] theorem UnitRow.unitId_hidden (row : UnitRow) (now : Timestamp) :
    (row.hidden now).unitId = row.unitId := rfl

def applySoftDelete (db : Database) (name : SlotName) (now : Timestamp) : Database :=
  { db with
    slots := db.slots.updateWhere (fun row => row.name = name)
      (fun row => row.marked .softDeleted now) fun _ => SlotRow.name_marked ..
    units := db.units.updateWhere (fun row => row.unitId = unitIdOf name) (fun row => row.hidden now)
      fun _ => UnitRow.unitId_hidden .. }

def tombstoneOf (name : SlotName) (freshId : String) (now : Timestamp) : SlotRow where
  entityId := name.1
  slotKey := name.2
  value := []
  status := .tombstoned
  winnerEventId := freshId
  source := .system
  confidence := 1
  importance := 1
  privacyLevel := .secret
  updatedAt := now

def applyTombstone (db : Database) (name : SlotName) (freshId : String) (now : Timestamp) : Database :=
  let db := upsertBeliefSlot db (tombstoneOf name freshId now)
  { db with units := db.units.deleteWhere fun row => row.unitId = unitIdOf name }

def insertDeletionLedgerEntry (db : Database) (name : SlotName) (phase : LedgerPhase) : Database :=
  { db with ledger := db.ledger ++ [⟨name.1, name.2, phase⟩] }

def applyForgetMode (db : Database) (name : SlotName) (freshId : String) (now : Timestamp) :
    ForgetMode → Database
  | .soft => applySoftDelete db name now
  | .hard => applyHardDelete db name
  | .tombstone => applyTombstone (applyHardDelete db name) name freshId now

def forgetSlot (db : Database) (name : SlotName) (mode : ForgetMode) (freshId : String)
    (now : Timestamp) : Database :=
  applyForgetMode (insertDeletionLedgerEntry db name (.forget mode)) name freshId now mode

end Forget

section Retention

variable (scan : (ρ : Type) → List ρ → List ρ)

/-- The order of the candidates for a slot. -/
def compareRetained (left right : EventRow) : Ordering :=
  match compare (sourcePriority left.source) (sourcePriority right.source) with
  | .eq =>
    if confidenceEpsilon < |left.confidence - right.confidence| then
      compare left.confidence right.confidence
    else compareNormalizedTimestamps (timestampNanos left.occurredAt) (timestampNanos right.occurredAt)
  | order => order

/-- `max_by`: of equal elements the last. -/
def bestRetained : List EventRow → Option EventRow
  | [] => none
  | first :: rest =>
    some (rest.foldl (fun best row => if compareRetained best row = .gt then best else row) first)

def retainedFor (db : Database) (name : SlotName) : List EventRow :=
  db.events.rows.filter fun event => event.name = name

/-- The unit of a slot that is restored. -/
def restoredUnit (event : EventRow) (now : Timestamp) : UnitRow :=
  { unitOf event now with reliability := event.confidence }

def UnitRow.restoredOver (row old : UnitRow) : UnitRow :=
  { row with
    unitId := old.unitId
    entityId := old.entityId
    slotKey := old.slotKey
    recencyScore := old.recencyScore
    contradictionPenalty := old.contradictionPenalty
    createdAt := old.createdAt }

@[simp] theorem UnitRow.unitId_restoredOver (row old : UnitRow) :
    (row.restoredOver old).unitId = old.unitId := rfl

def restoreFrom (db : Database) (event : EventRow) (now : Timestamp) : Database :=
  let db := upsertBeliefSlot db (slotOf event now)
  { db with
    units := db.units.upsert (restoredUnit event now) (restoredUnit event now).restoredOver
      fun _ => UnitRow.unitId_restoredOver ..
    graph := db.graph.updateWhere (fun row => row.graphEntityId = slotGraphId event.name)
      (graphOf event now).writtenOver fun _ => GraphRow.graphEntityId_writtenOver .. }

def restoreRetainedSlotProjection (db : Database) (name : SlotName) (now : Timestamp) :
    Option Database :=
  (bestRetained (scan _ (retainedFor db name))).map fun event => restoreFrom db event now

def deleteProjection (db : Database) (name : SlotName) : Database :=
  { db with
    units := db.units.deleteWhere fun row => row.name = name
    graph := db.graph.deleteWhere fun row => row.graphEntityId = slotGraphId name }

/-- A slot whose winning event is gone. -/
def restoreWinner (now : Timestamp) (db : Database) (name : SlotName) : Database :=
  (restoreRetainedSlotProjection scan db name now).getD (deleteProjection db name)

def expiredAt (now : Timestamp) (expiry : Option Timestamp) : Bool :=
  expiry.any fun moment => moment < now

def eventExpired (now : Timestamp) (event : EventRow) : Bool := expiredAt now event.retentionExpiresAt

def unitExpired (now : Timestamp) (row : UnitRow) : Bool := expiredAt now row.retentionExpiresAt

def pruneEvents (now : Timestamp) (db : Database) : Database :=
  { db with events := db.events.deleteWhere (eventExpired now) }

def lostWinners (eventIds : List String) (db : Database) : List SlotName :=
  (scan _ (db.slots.rows.filter fun slot => slot.winnerEventId ∈ eventIds)).map SlotRow.name

def pruneWinners (eventIds : List String) (now : Timestamp) (db : Database) : Database :=
  let names := lostWinners scan eventIds db
  let db := { db with slots := db.slots.deleteWhere fun slot : SlotRow => slot.winnerEventId ∈ eventIds }
  names.foldl (restoreWinner scan now) db

def retentionName : SlotName := ("system:retention".toList, "expired".toList)

def pruneExpiredRetention (now : Timestamp) (db : Database) : Database :=
  let eventIds := (db.events.rows.filter (eventExpired now)).map EventRow.eventId
  let db := pruneEvents now db
  let db :=
    if eventIds = [] then db
    else insertDeletionLedgerEntry (pruneWinners scan eventIds now db) retentionName .retention
  { db with units := db.units.deleteWhere (unitExpired now) }

end Retention

section Lineage

variable {derivations : List DerivationRow} {targets : List SlotName} {fuel : Nat}

theorem subset_lineage : targets ⊆ lineage derivations fuel targets := by
  induction fuel generalizing targets with
  | zero => exact Subset.refl targets
  | succ fuel ih =>
    rw [lineage]
    split
    · exact Subset.refl targets
    · exact fun name member => ih (mem_append_left _ member)

theorem mem_newlyDerived {name : SlotName} :
    name ∈ newlyDerived derivations targets ↔
      name ∉ targets ∧ ∃ row ∈ derivations, row.source ∈ targets ∧ row.derived = name := by
  simp only [newlyDerived, mem_dedup, mem_map, mem_filter, Bool.and_eq_true, decide_eq_true_eq]
  constructor
  · rintro ⟨row, ⟨member, source, fresh⟩, rfl⟩
    exact ⟨fresh, row, member, source, rfl⟩
  · rintro ⟨fresh, row, member, source, rfl⟩
    exact ⟨row, ⟨member, source, fresh⟩, rfl⟩

/-- A round that finds something leaves fewer derivations to find. -/
theorem countP_fresh_lt (found : newlyDerived derivations targets ≠ []) :
    derivations.countP (fun row => row.derived ∉ targets ++ newlyDerived derivations targets) <
      derivations.countP fun row => row.derived ∉ targets := by
  obtain ⟨name, member⟩ := exists_mem_of_ne_nil _ found
  obtain ⟨fresh, row, inRows, _, rfl⟩ := mem_newlyDerived.mp member
  have fewer : derivations.countP (fun row =>
      row.derived ∉ targets ++ newlyDerived derivations targets) =
        ((derivations.filter fun row => row.derived ∉ targets).filter fun row =>
          row.derived ∉ newlyDerived derivations targets).length := by
    rw [filter_filter, countP_eq_length_filter]
    refine congrArg List.length (filter_congr fun other _ => ?_)
    simp [Bool.and_comm]
  rw [fewer, countP_eq_length_filter, length_filter_lt_length_iff_exists]
  exact ⟨row, by simpa [inRows] using fresh, by simpa using member⟩

theorem lineage_closed (enough : derivations.countP (fun row => row.derived ∉ targets) ≤ fuel)
    {row : DerivationRow} (member : row ∈ derivations)
    (source : row.source ∈ lineage derivations fuel targets) :
    row.derived ∈ lineage derivations fuel targets := by
  induction fuel generalizing targets with
  | zero =>
    have none := countP_eq_zero.mp (Nat.le_zero.mp enough) row member
    rw [lineage]
    simpa using none
  | succ fuel ih =>
    rw [lineage] at source ⊢
    split
    case h_1 done =>
      rw [done] at source
      by_contra fresh
      have found := mem_newlyDerived.mpr ⟨fresh, row, member, source, rfl⟩
      rw [done] at found
      cases found
    case h_2 more =>
      have fewer := countP_fresh_lt more
      split at source
      case h_1 done => exact absurd done more
      case h_2 => exact ih (by omega) source

/-- A hard deletion takes the slot and everything derived from what it takes. -/
theorem lineageOf_closed (derivations : List DerivationRow) (name : SlotName) :
    name ∈ lineageOf derivations name ∧
      ∀ row ∈ derivations, row.source ∈ lineageOf derivations name →
        row.derived ∈ lineageOf derivations name :=
  ⟨subset_lineage (mem_singleton_self name),
    fun _ member source => lineage_closed countP_le_length member source⟩

end Lineage

section Statements

variable {db next : Database} {name : SlotName} {event : EventRow} {call : AppendCall}
  {now : Timestamp}

theorem SlotRow.writtenOver_eq {row old : SlotRow} (same : old.name = row.name) :
    row.writtenOver old = row := by
  obtain ⟨entity, key⟩ := Prod.mk.inj same
  rw [writtenOver, entity, key]

theorem find_upsertBeliefSlot (db : Database) (row : SlotRow) (name : SlotName) :
    (upsertBeliefSlot db row).slots.find name =
      if name = row.name then some row else db.slots.find name := by
  rw [upsertBeliefSlot, find_upsert]
  split
  case isTrue here =>
    cases found : db.slots.find name with
    | none => rfl
    | some old =>
      rw [Option.map_some, Option.getD_some, SlotRow.writtenOver_eq ((find_key found).trans here)]
  case isFalse => rfl

/-- The memory of a unit that recall reads, and its name. -/
structure Carries (row : UnitRow) (name : SlotName) (content : Chars) (visibility : PrivacyLevel) :
    Prop where
  name : row.name = name
  content : row.content = content
  visibility : row.visibility = visibility

/-- The name that a unit has, or that a new one gets. -/
def unitNameOr (db : Database) (name : SlotName) : SlotName :=
  ((db.units.find (unitIdOf name)).map UnitRow.name).getD name

/-- What an event writes that wins its slot. -/
structure Wins (db next : Database) (event : EventRow) (now : Timestamp) : Prop where
  slots : ∀ name, next.slots.find name =
    if name = event.name then some (slotOf event now) else db.slots.find name
  units : ∀ id, id ≠ unitIdOf event.name → next.units.find id = db.units.find id
  unit : ∃ row, next.units.find (unitIdOf event.name) = some row ∧
    Carries row (unitNameOr db event.name) event.value event.privacyLevel
  ledger : next.ledger = db.ledger

theorem find_penalized (db : Database) (event : EventRow) (id : Chars) :
    (updateContradictionPenalty db event).units.find id = db.units.find id ∨
      id = unitIdOf event.name ∧ ∃ row penalty, db.units.find id = some row ∧
        (updateContradictionPenalty db event).units.find id = some (row.penalized penalty) := by
  rw [updateContradictionPenalty]
  split
  · exact .inl rfl
  · refine Or.imp_right ?_ (find_updateWhere_cases _ _ _ _ fun _ => UnitRow.unitId_penalized ..)
    rintro ⟨row, found, holds, after⟩
    rw [Bool.and_eq_true, decide_eq_true_eq] at holds
    exact ⟨(find_key found).symm.trans holds.1, row, _, found, after⟩

/-- A unit keeps what it carries when it becomes a candidate. -/
theorem find_promoted (db : Database) (name : SlotName) (id : Chars) :
    (maybePromoteToCandidate db name).units.find id = db.units.find id ∨
      id = unitIdOf name ∧ ∃ row, db.units.find id = some row ∧
        (maybePromoteToCandidate db name).units.find id = some row.candidate := by
  rw [maybePromoteToCandidate]
  split
  · refine Or.imp_right ?_ (find_updateWhere_cases _ _ _ _ fun _ => UnitRow.unitId_candidate ..)
    rintro ⟨row, found, holds, after⟩
    rw [Bool.and_eq_true, decide_eq_true_eq] at holds
    exact ⟨(find_key found).symm.trans holds.1, row, found, after⟩
  · exact .inl rfl

theorem updateContradictionPenalty_eq (db : Database) (event : EventRow) :
    ∃ units, updateContradictionPenalty db event = { db with units } := by
  rw [updateContradictionPenalty]
  split
  · exact ⟨db.units, rfl⟩
  · exact ⟨_, rfl⟩

theorem maybePromoteToCandidate_eq (db : Database) (name : SlotName) :
    ∃ units, maybePromoteToCandidate db name = { db with units } := by
  rw [maybePromoteToCandidate]
  split
  · exact ⟨_, rfl⟩
  · exact ⟨db.units, rfl⟩

theorem upsertRetrievalUnit_ok {startedAt : Timestamp}
    (done : upsertRetrievalUnit db (unitOf event now) startedAt = .ok next) :
    next = { db with units := next.units } ∧ ∀ id, next.units.find id =
      if id = unitIdOf event.name then
        some (((db.units.find id).map ((unitOf event now).writtenOver startedAt)).getD (unitOf event now))
      else db.units.find id := by
  rw [upsertRetrievalUnit] at done
  split at done
  · cases done
  · cases done
    exact ⟨rfl, fun id => find_upsert ..⟩

/-- Writing over a unit keeps its name. -/
theorem carries_written (old : Option UnitRow) (event : EventRow) (now startedAt : Timestamp) :
    Carries ((old.map ((unitOf event now).writtenOver startedAt)).getD (unitOf event now))
      ((old.map UnitRow.name).getD event.name) event.value event.privacyLevel := by
  cases old <;> exact ⟨rfl, rfl, rfl⟩

/-- The unit is written between its penalty and its promotion. -/
theorem wins_of_steps {projected penalized written : Database} (same : projected = { db with graph := projected.graph })
    (penalty : updateContradictionPenalty projected event = penalized)
    (unit : upsertRetrievalUnit (upsertBeliefSlot penalized (slotOf event now)) (unitOf event now)
      call.startedAt = .ok written) :
    Wins db (maybePromoteToCandidate written event.name) event now := by
  obtain ⟨rest, units⟩ := upsertRetrievalUnit_ok unit
  obtain ⟨others, penalizedEq⟩ := updateContradictionPenalty_eq projected event
  obtain ⟨promoted, promotion⟩ := maybePromoteToCandidate_eq written event.name
  rw [penalty] at penalizedEq
  have before := find_penalized projected event
  have after := find_promoted written event.name
  have projectedUnits : projected.units = db.units := by rw [same]
  rw [penalty, projectedUnits] at before
  refine ⟨fun name => ?_, fun id other => ?_, ?_, ?_⟩
  · rw [promotion, rest, find_upsertBeliefSlot, penalizedEq, same]
    rfl
  · rw [(after id).resolve_right fun here => other here.1, units, if_neg other]
    exact (before id).resolve_right fun here => other here.1
  · have upserted := units (unitIdOf event.name)
    rw [if_pos rfl] at upserted
    have carried := carries_written (penalized.units.find (unitIdOf event.name)) event now call.startedAt
    have sameName : (penalized.units.find (unitIdOf event.name)).map UnitRow.name =
        (db.units.find (unitIdOf event.name)).map UnitRow.name := by
      rcases before (unitIdOf event.name) with same | ⟨_, row, amount, found, same⟩
      · rw [same]
      · rw [same, found]
        rfl
    rw [sameName] at carried
    rcases after (unitIdOf event.name) with same | ⟨_, row, found, same⟩
    · exact ⟨_, same.trans upserted, carried⟩
    · cases upserted.symm.trans found
      exact ⟨_, same, carried.name, carried.content, carried.visibility⟩
  · have kept : penalized.ledger = db.ledger := by rw [penalizedEq, same]
    rw [promotion, rest]
    exact kept

theorem writeReplacement_ok (done : writeReplacement db event call = .ok next) :
    Wins db next event call.now := by
  obtain ⟨written, unit, done⟩ := ok_of_bind done
  cases done
  exact wins_of_steps rfl rfl unit

/-- The charge for a contradiction is the larger of the old penalty and the new one. -/
def charge (event : EventRow) (row : UnitRow) : UnitRow :=
  if event.supersedesEventId.isNone then row
  else if row.contradictionPenalty < contradictionPenalty event.confidence event.importance then
    row.penalized (contradictionPenalty event.confidence event.importance)
  else row

theorem createdAt_charge (event : EventRow) (row : UnitRow) :
    (charge event row).createdAt = row.createdAt := by
  rw [charge]
  split
  · rfl
  · split <;> rfl

theorem find_charged (db : Database) (event : EventRow) :
    (updateContradictionPenalty db event).units.find (unitIdOf event.name) =
      (db.units.find (unitIdOf event.name)).map (charge event) := by
  rw [updateContradictionPenalty]
  split
  case isTrue kept =>
    cases db.units.find (unitIdOf event.name) with
    | none => rfl
    | some row => rw [Option.map_some, charge, if_pos kept]
  case isFalse superseded =>
    refine find_updateWhere_of (fun _ => UnitRow.unitId_penalized ..) fun row same => ?_
    simp only [charge, if_neg superseded, same, decide_true, Bool.true_and, decide_eq_true_eq]

/-- What stands in the unit of a slot after it was won. -/
structure WonUnit (old : Option UnitRow) (event : EventRow) (now : Timestamp) (row : UnitRow) :
    Prop where
  content : row.content = event.value
  createdAt : row.createdAt = (old.map UnitRow.createdAt).getD now
  penalty : row.contradictionPenalty =
    (old.map fun row => (charge event row).contradictionPenalty).getD 0

theorem wonUnit_written (old : Option UnitRow) (event : EventRow) (now startedAt : Timestamp) :
    WonUnit old event now
      (((old.map (charge event)).map ((unitOf event now).writtenOver startedAt)).getD
        (unitOf event now)) := by
  cases old with
  | none => exact ⟨rfl, rfl, rfl⟩
  | some row => exact ⟨rfl, createdAt_charge event row, rfl⟩

theorem unit_writeReplacement (done : writeReplacement db event call = .ok next) :
    ∃ row, next.units.find (unitIdOf event.name) = some row ∧
      WonUnit (db.units.find (unitIdOf event.name)) event call.now row := by
  obtain ⟨written, unit, done⟩ := ok_of_bind done
  cases done
  have upserted := (upsertRetrievalUnit_ok unit).2 (unitIdOf event.name)
  have charged := find_charged (upsertSlotProjection db (graphOf event call.now)) event
  have found := upserted.trans (if_pos rfl)
  rw [upsertBeliefSlot, charged] at found
  have won := wonUnit_written (db.units.find (unitIdOf event.name)) event call.now call.startedAt
  rcases find_promoted written event.name (unitIdOf event.name) with
    same | ⟨_, row, before, after⟩
  · exact ⟨_, same.trans found, won⟩
  · cases found.symm.trans before
    exact ⟨_, after, won.content, won.createdAt, won.penalty⟩

/-- A winner is written unless the unit of its slot was created later. -/
theorem writeReplacement_succeeds
    (created : ∀ old, db.units.find (unitIdOf event.name) = some old → old.createdAt ≤ call.startedAt) :
    ∃ next, writeReplacement db event call = .ok next := by
  have charged := find_charged (upsertSlotProjection db (graphOf event call.now)) event
  have admitted : ¬ (((upsertBeliefSlot (updateContradictionPenalty
      (upsertSlotProjection db (graphOf event call.now)) event) (slotOf event call.now)).units.find
        (unitOf event call.now).unitId).any fun old =>
          1 < ((unitOf event call.now).writtenOver call.startedAt old).recencyScore) = true := by
    rw [Option.any_eq_true]
    rintro ⟨old, found, beyond⟩
    have before := charged.symm.trans found
    obtain ⟨row, inUnits, rfl⟩ := Option.map_eq_some_iff.mp before
    have early := created row inUnits
    rw [← createdAt_charge event row] at early
    refine absurd (of_decide_eq_true beyond) (not_lt.mpr ?_)
    refine max_le zero_le_one (sub_le_self _ ?_)
    have elapsed : (0 : ℚ) ≤ ((call.startedAt - (charge event row).createdAt : Int) : ℚ) :=
      Int.cast_nonneg (Int.sub_nonneg.mpr early)
    positivity
  simp only [writeReplacement, upsertRetrievalUnit, if_neg admitted]
  exact ⟨_, rfl⟩

section

variable (done : appendEvent db call = .ok (next, event))
include done

/-- An append inserts its event, and the slot before decides whether it writes more. -/
theorem appendEvent_cases :
    ∃ input events, normalizeInput call.input = .ok input ∧
      event = eventRow input call (replacement db input call).2 ∧
      db.events.insert event = some events ∧
      ((replacement db input call).1 = false ∧ next = { db with events } ∨
        (replacement db input call).1 = true ∧
          writeReplacement { db with events } event call = .ok next) := by
  obtain ⟨input, normalized, done⟩ := ok_of_bind done
  obtain ⟨inserted, insertion, done⟩ := ok_of_bind done
  rw [insertMemoryEventRow] at insertion
  split at insertion
  · rename_i events logged
    cases insertion
    cases replaces : (replacement db input call).1 with
    | false =>
      rw [if_neg (by rw [replaces]; decide)] at done
      cases done
      exact ⟨input, events, normalized, rfl, logged, .inl ⟨replaces, rfl⟩⟩
    | true =>
      rw [if_pos replaces] at done
      obtain ⟨written, replaced, done⟩ := ok_of_bind done
      cases done
      exact ⟨input, events, normalized, rfl, logged, .inr ⟨replaces, replaced⟩⟩
  · cases insertion

/-- The log grows by the event. -/
theorem events_appended :
    next.events.rows = db.events.rows ++ [event] ∧ db.events.find event.eventId = none := by
  obtain ⟨input, events, _, _, logged, ⟨_, rfl⟩ | ⟨_, replaced⟩⟩ := appendEvent_cases done
  · exact rows_insert logged
  · obtain ⟨upserted, unit, promoted⟩ := ok_of_bind replaced
    cases promoted
    obtain ⟨units, promotion⟩ := maybePromoteToCandidate_eq upserted event.name
    obtain ⟨others, penalty⟩ := updateContradictionPenalty_eq
      (upsertSlotProjection { db with events } (graphOf event call.now)) event
    rw [promotion, (upsertRetrievalUnit_ok unit).1, upsertBeliefSlot, penalty]
    exact rows_insert logged

theorem appendEvent_ok :
    ∃ input, normalizeInput call.input = .ok input ∧
      event = eventRow input call (replacement db input call).2 ∧
      ((replacement db input call).1 = false ∧ next = { db with events := next.events } ∨
        (replacement db input call).1 = true ∧ Wins db next event call.now) := by
  obtain ⟨input, events, normalized, made, _, outcome⟩ := appendEvent_cases done
  refine ⟨input, normalized, made, ?_⟩
  rcases outcome with ⟨kept, rfl⟩ | ⟨replaces, replaced⟩
  · exact .inl ⟨kept, rfl⟩
  · have wins := writeReplacement_ok replaced
    exact .inr ⟨replaces, wins.slots, wins.units, wins.unit, wins.ledger⟩

/-- What an append does to the unit of its slot. -/
theorem unit_appended :
    ∃ input, normalizeInput call.input = .ok input ∧
      event = eventRow input call (replacement db input call).2 ∧
      ((replacement db input call).1 = false ∧ next.units = db.units ∨
        (replacement db input call).1 = true ∧
          ∃ row, next.units.find (unitIdOf event.name) = some row ∧
            WonUnit (db.units.find (unitIdOf event.name)) event call.now row) := by
  obtain ⟨input, events, normalized, made, _, outcome⟩ := appendEvent_cases done
  refine ⟨input, normalized, made, ?_⟩
  rcases outcome with ⟨kept, rfl⟩ | ⟨replaces, replaced⟩
  · exact .inl ⟨kept, rfl⟩
  · have won := unit_writeReplacement replaced
    exact .inr ⟨replaces, won⟩

end

/-- An append succeeds under a fresh id, unless the unit of its slot was created later. -/
theorem appendEvent_succeeds {input : MemoryEventInput}
    (normalized : normalizeInput call.input = .ok input)
    (fresh : db.events.find call.eventId = none)
    (created : ∀ old, db.units.find (unitIdOf (input.entityId, input.slotKey)) = some old →
      old.createdAt ≤ call.startedAt) : ∃ next event, appendEvent db call = .ok (next, event) := by
  obtain ⟨events, inserted⟩ := @insert_of_find_eq_none _ _ _ _ db.events
    (eventRow input call (replacement db input call).2) fresh
  obtain ⟨written, replaced⟩ := @writeReplacement_succeeds { db with events }
    (eventRow input call (replacement db input call).2) call created
  rw [appendEvent, normalized]
  simp only [bind, Except.bind, insertMemoryEventRow, inserted, replaced]
  split
  · exact ⟨written, _, rfl⟩
  · exact ⟨_, _, rfl⟩

theorem find_slots_softDelete (db : Database) (name : SlotName) (now : Timestamp) (other : SlotName) :
    (applySoftDelete db name now).slots.find other =
      (db.slots.find other).map fun row => if other = name then row.marked .softDeleted now else row :=
  find_updateWhere_of (fun _ => SlotRow.name_marked ..) fun row same => by
    rw [same, if_congr decide_eq_true_iff rfl rfl]

theorem find_slots_hardDelete (db : Database) (name other : SlotName) :
    (applyHardDelete db name).slots.find other =
      (db.slots.find other).filter fun _ => other ∉ lineageOf db.derivations name := by
  have statement : (applyHardDelete db name).slots.find other =
      (db.slots.find other).filter fun _ => !decide (other ∈ lineageOf db.derivations name) :=
    find_deleteWhere_of fun row same => by rw [same]
  simpa only [decide_not] using statement

end Statements

section Pruning

variable {scan : (ρ : Type) → List ρ → List ρ} {db : Database} {name other : SlotName}
  {now : Timestamp} {names : List SlotName} {rows : List EventRow} {event : EventRow}

theorem mem_of_bestRetained (best : bestRetained rows = some event) : event ∈ rows := by
  cases rows with
  | nil => cases best
  | cons first rest =>
    cases best
    have kept : ∀ (rest : List EventRow) (first : EventRow), (rest.foldl (fun best row =>
        if compareRetained best row = .gt then best else row) first) ∈ first :: rest := by
      intro rest
      induction rest with
      | nil => exact fun first => mem_singleton_self first
      | cons row rest ih =>
        intro first
        rw [foldl_cons]
        have later := ih (if compareRetained first row = .gt then first else row)
        rcases mem_cons.mp later with same | member
        · rw [same]
          split
          · exact mem_cons_self
          · exact mem_cons_of_mem _ mem_cons_self
        · exact mem_cons_of_mem _ (mem_cons_of_mem _ member)
    exact kept rest first

theorem bestRetained_eq_none_iff : bestRetained rows = none ↔ rows = [] := by
  cases rows <;> simp [bestRetained]

/-- The event that a slot is restored from. -/
def bestFor (scan : (ρ : Type) → List ρ → List ρ) (db : Database) (name : SlotName) : Option EventRow :=
  bestRetained (scan _ (retainedFor db name))

theorem mem_retainedFor : event ∈ retainedFor db name ↔ event ∈ db.events.rows ∧ event.name = name := by
  rw [retainedFor, mem_filter, decide_eq_true_eq]

theorem bestFor_name (listed : ∀ ρ rows, (scan ρ rows).Perm rows) (best : bestFor scan db name = some event) :
    event.name = name :=
  (mem_retainedFor.mp ((listed _ _).mem_iff.mp (mem_of_bestRetained best))).2

theorem bestFor_eq_none_iff (listed : ∀ ρ rows, (scan ρ rows).Perm rows) :
    bestFor scan db name = none ↔ ∀ event ∈ db.events.rows, event.name ≠ name := by
  have empty : scan _ (retainedFor db name) = [] ↔ retainedFor db name = [] := by
    rw [← length_eq_zero_iff, (listed _ _).length_eq, length_eq_zero_iff]
  rw [bestFor, bestRetained_eq_none_iff, empty, eq_nil_iff_forall_not_mem]
  simp only [mem_retainedFor, not_and, ne_eq]

theorem restoreWinner_eq (db : Database) :
    restoreWinner scan now db name =
      (bestFor scan db name).elim (deleteProjection db name) fun event => restoreFrom db event now := by
  rw [restoreWinner, restoreRetainedSlotProjection, bestFor]
  cases bestRetained (scan _ (retainedFor db name)) <;> rfl

theorem events_restoreWinner (db : Database) : (restoreWinner scan now db name).events = db.events := by
  rw [restoreWinner_eq]
  cases bestFor scan db name <;> rfl

section

variable (listed : ∀ ρ rows, (scan ρ rows).Perm rows)
include listed

theorem find_slots_restoreWinner :
    (restoreWinner scan now db name).slots.find other = if other = name then
        (bestFor scan db name).elim (db.slots.find other) fun event => some (slotOf event now)
      else db.slots.find other := by
  rw [restoreWinner_eq]
  cases best : bestFor scan db name with
  | none => exact (ite_self _).symm
  | some event =>
    have same : (slotOf event now).name = name := bestFor_name listed best
    have written := find_upsertBeliefSlot db (slotOf event now) other
    rw [same] at written
    exact written

theorem find_slots_foldl_restoreWinner :
    (names.foldl (restoreWinner scan now) db).slots.find name = if name ∈ names then
        (bestFor scan db name).elim (db.slots.find name) fun event => some (slotOf event now)
      else db.slots.find name := by
  induction names generalizing db with
  | nil => rfl
  | cons first rest ih =>
    have best : bestFor scan (restoreWinner scan now db first) name = bestFor scan db name := by
      rw [bestFor, retainedFor, events_restoreWinner]
      rfl
    rw [foldl_cons, ih, best, find_slots_restoreWinner listed]
    by_cases here : name = first
    · subst here
      cases bestFor scan db name <;> simp
    · simp [here]

theorem mem_lostWinners {eventIds : List String} :
    name ∈ lostWinners scan eventIds db ↔
      ∃ slot, db.slots.find name = some slot ∧ slot.winnerEventId ∈ eventIds := by
  rw [lostWinners, mem_map]
  constructor
  · rintro ⟨slot, member, rfl⟩
    obtain ⟨inSlots, lost⟩ := mem_filter.mp ((listed _ _).mem_iff.mp member)
    exact ⟨slot, find_of_mem inSlots, of_decide_eq_true lost⟩
  · rintro ⟨slot, found, lost⟩
    refine ⟨slot, (listed _ _).mem_iff.mpr ?_, find_key found⟩
    exact mem_filter.mpr ⟨mem_of_find found, decide_eq_true lost⟩

end

/-- Whether the event of a slot has expired. -/
def winnerLost (now : Timestamp) (db : Database) (slot : SlotRow) : Bool :=
  (db.events.find slot.winnerEventId).any (eventExpired now)

theorem mem_expiredIds {id : String} :
    id ∈ (db.events.rows.filter (eventExpired now)).map EventRow.eventId ↔
      (db.events.find id).any (eventExpired now) = true := by
  rw [mem_map, Option.any_eq_true]
  constructor
  · rintro ⟨event, member, rfl⟩
    obtain ⟨inEvents, expired⟩ := mem_filter.mp member
    exact ⟨event, find_of_mem inEvents, expired⟩
  · rintro ⟨event, found, expired⟩
    exact ⟨event, mem_filter.mpr ⟨mem_of_find found, expired⟩, find_key found⟩

theorem find_slots_pruneWinners (listed : ∀ ρ rows, (scan ρ rows).Perm rows)
    (eventIds : List String) (db : Database) :
    (pruneWinners scan eventIds now db).slots.find name = (db.slots.find name).bind fun slot =>
        if slot.winnerEventId ∈ eventIds then
          (bestFor scan db name).map fun event => slotOf event now
        else some slot := by
  have events : ∀ slots, bestFor scan { db with slots } name = bestFor scan db name := fun _ => rfl
  rw [pruneWinners, find_slots_foldl_restoreWinner listed, events, find_deleteWhere]
  split
  case isTrue lost =>
    obtain ⟨slot, found, gone⟩ := (mem_lostWinners listed).mp lost
    rw [found, Option.bind_some, if_pos gone, Option.filter_some, if_neg (by simp [gone])]
    cases bestFor scan db name <;> rfl
  case isFalse kept =>
    cases found : db.slots.find name with
    | none => rfl
    | some slot =>
      have stays : slot.winnerEventId ∉ eventIds := fun gone =>
        kept ((mem_lostWinners listed).mpr ⟨slot, found, gone⟩)
      rw [Option.bind_some, if_neg stays, Option.filter_some, if_pos (by simp [stays])]

/-- Retention pruning restores or deletes exactly the slots whose event has expired. -/
theorem find_slots_pruneExpiredRetention (listed : ∀ ρ rows, (scan ρ rows).Perm rows)
    (now : Timestamp) (db : Database) (name : SlotName) :
    (pruneExpiredRetention scan now db).slots.find name = (db.slots.find name).bind fun slot =>
        if winnerLost now db slot then
          (bestFor scan (pruneEvents now db) name).map fun event => slotOf event now
        else some slot := by
  have lost : ∀ slot : SlotRow, (winnerLost now db slot = true ↔
      slot.winnerEventId ∈ (db.events.rows.filter (eventExpired now)).map EventRow.eventId) :=
    fun slot => mem_expiredIds.symm
  simp only [lost]
  rw [pruneExpiredRetention]
  by_cases none : (db.events.rows.filter (eventExpired now)).map EventRow.eventId = []
  · simp only [none, if_true, not_mem_nil, if_false]
    exact (Option.bind_fun_some _).symm
  · simp only [none, if_false]
    exact find_slots_pruneWinners listed _ (pruneEvents now db)

end Pruning

end Asterel.Postgres
