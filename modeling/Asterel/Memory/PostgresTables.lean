import Asterel.Library.KeyedTable
import Asterel.Memory.Ingress
import Mathlib.Algebra.Order.Ring.Unbundled.Rat

/-!
# The tables of the PostgreSQL memory

Belief slots hold the current value of every slot, retrieval units are what a recall
searches, the event log keeps what was appended, and the deletion ledger what was to be
forgotten. Of the graph only the slot nodes are read here.

Time stamps are microseconds. Scores are exact rationals. The ids that a search finds and
the score of a candidate are parameters.
-/

namespace Asterel.Postgres

open Library
open Asterel.Memory
open Asterel.Integrity (F64)

abbrev Timestamp := Int

def days (count : Int) : Timestamp := count * 86400 * 1000000

inductive SlotStatus where
  | active
  | softDeleted
  | hardDeleted
  | tombstoned
  deriving DecidableEq

inductive SignalTier where
  | raw
  | belief
  | inferred
  | governance
  deriving DecidableEq

inductive PromotionStatus where
  | raw
  | candidate
  | promoted
  | demoted
  deriving DecidableEq

inductive ForgetMode where
  | soft
  | hard
  | tombstone
  deriving DecidableEq

inductive LedgerPhase where
  | forget (mode : ForgetMode)
  | retention
  deriving DecidableEq

/-- Ids are compared as texts. -/
scoped instance lawfulChars : LawfulBEq Chars := inferInstance

/-- An entity and a key. -/
abbrev SlotName := Chars × Chars

section Rows

structure SlotRow where
  entityId : Chars
  slotKey : Chars
  value : Chars
  status : SlotStatus
  winnerEventId : String
  source : MemorySource
  confidence : ℚ
  importance : ℚ
  privacyLevel : PrivacyLevel
  updatedAt : Timestamp
  deriving DecidableEq

structure UnitRow where
  unitId : Chars
  entityId : Chars
  slotKey : Chars
  content : Chars
  signalTier : SignalTier
  promotionStatus : PromotionStatus
  recencyScore : ℚ
  importance : ℚ
  reliability : ℚ
  contradictionPenalty : ℚ
  visibility : PrivacyLevel
  layer : MemoryLayer
  provenance : Option MemoryProvenance
  retentionTier : MemoryLayer
  retentionExpiresAt : Option Timestamp
  createdAt : Timestamp
  updatedAt : Timestamp
  deriving DecidableEq

structure EventRow where
  eventId : String
  entityId : Chars
  slotKey : Chars
  layer : MemoryLayer
  eventType : MemoryEventType
  value : Chars
  source : MemorySource
  confidence : ℚ
  importance : ℚ
  provenance : Option MemoryProvenance
  retentionTier : MemoryLayer
  retentionExpiresAt : Option Timestamp
  signalTier : SignalTier
  privacyLevel : PrivacyLevel
  occurredAt : Timestamp
  supersedesEventId : Option String
  deriving DecidableEq

structure LedgerRow where
  entityId : Chars
  targetSlotKey : Chars
  phase : LedgerPhase
  deriving DecidableEq

/-- The graph node of a slot. -/
structure GraphRow where
  graphEntityId : Chars
  ownerEntityId : Chars
  value : Chars
  source : MemorySource
  confidence : ℚ
  importance : ℚ
  privacyLevel : PrivacyLevel
  updatedAt : Timestamp
  deriving DecidableEq

structure DerivationRow where
  derived : SlotName
  source : SlotName
  deriving DecidableEq

def SlotRow.name (row : SlotRow) : SlotName := (row.entityId, row.slotKey)

def SlotRow.marked (row : SlotRow) (status : SlotStatus) (updatedAt : Timestamp) : SlotRow :=
  { row with status, updatedAt }

@[simp] theorem SlotRow.name_marked (row : SlotRow) (status : SlotStatus) (updatedAt : Timestamp) :
    (row.marked status updatedAt).name = row.name := rfl

def UnitRow.name (row : UnitRow) : SlotName := (row.entityId, row.slotKey)

def EventRow.name (row : EventRow) : SlotName := (row.entityId, row.slotKey)

def unitIdOf (name : SlotName) : Chars := name.1 ++ "::".toList ++ name.2

def slotGraphId (name : SlotName) : Chars := "slot::".toList ++ unitIdOf name

end Rows

structure Database where
  slots : KeyedTable SlotRow.name
  units : KeyedTable UnitRow.unitId
  events : KeyedTable EventRow.eventId
  ledger : List LedgerRow
  graph : KeyedTable GraphRow.graphEntityId
  derivations : List DerivationRow

def Database.empty (derivations : List DerivationRow) : Database :=
  ⟨.empty, .empty, .empty, [], .empty, derivations⟩

section Resolve

structure BeliefSlot where
  entityId : Chars
  slotKey : Chars
  value : Chars
  source : MemorySource
  confidence : ℚ
  importance : ℚ
  privacyLevel : PrivacyLevel
  updatedAt : Timestamp
  deriving DecidableEq

/-- Whether the ledger has a deletion of the slot. -/
def denylisted (db : Database) (name : SlotName) : Bool :=
  db.ledger.any fun row =>
    row.entityId = name.1 && row.targetSlotKey = name.2 && row.phase ≠ .retention

def SlotRow.toBeliefSlot (row : SlotRow) : BeliefSlot where
  entityId := row.entityId
  slotKey := row.slotKey
  value := row.value
  source := row.source
  confidence := row.confidence
  importance := row.importance
  privacyLevel := row.privacyLevel
  updatedAt := row.updatedAt

def resolveSlotFromGraph (db : Database) (name : SlotName) : Option BeliefSlot :=
  (db.graph.find (slotGraphId name)).map fun row =>
    { entityId := name.1
      slotKey := name.2
      value := row.value
      source := row.source
      confidence := row.confidence
      importance := row.importance
      privacyLevel := row.privacyLevel
      updatedAt := row.updatedAt }

def resolveSlot (db : Database) (name : SlotName) : Option BeliefSlot :=
  match db.slots.find name with
  | some row => if row.status = .active then some row.toBeliefSlot else none
  | none => if denylisted db name then none else resolveSlotFromGraph db name

end Resolve

section Recall

structure RecallMetadata where
  unitId : Chars
  entityId : Chars
  slotKey : Chars
  content : Chars
  signalTier : SignalTier
  recencyScore : ℚ
  confidence : ℚ
  importance : ℚ
  reliability : ℚ
  contradictionPenalty : ℚ
  visibility : PrivacyLevel
  layer : MemoryLayer
  source : Option MemorySource
  slotStatus : Option SlotStatus
  denylisted : Bool
  updatedAt : Timestamp

structure MemoryRecallEntry where
  entityId : Chars
  slotKey : Chars
  value : Chars
  source : MemorySource
  confidence : ℚ
  importance : ℚ
  privacyLevel : PrivacyLevel
  score : ℚ
  occurredAt : Timestamp
  deriving DecidableEq

/-- A unit with its belief slot, if there is one, and the ledger. -/
def recallMetadata (db : Database) (row : UnitRow) : RecallMetadata where
  unitId := row.unitId
  entityId := row.entityId
  slotKey := row.slotKey
  content := row.content
  signalTier := row.signalTier
  recencyScore := row.recencyScore
  confidence := ((db.slots.find row.name).map SlotRow.confidence).getD (1 / 2)
  importance := row.importance
  reliability := row.reliability
  contradictionPenalty := row.contradictionPenalty
  visibility := row.visibility
  layer := row.layer
  source := (db.slots.find row.name).map SlotRow.source
  slotStatus := (db.slots.find row.name).map SlotRow.status
  denylisted := denylisted db row.name
  updatedAt := row.updatedAt

def loadRecallMetadata (db : Database) (entityId candidateId : Chars) : Option RecallMetadata :=
  ((db.units.find candidateId).filter fun row => row.entityId = entityId).map (recallMetadata db)

def allowedForReplay (metadata : RecallMetadata) : Bool :=
  if metadata.denylisted then false
  else
    match metadata.slotStatus with
    | some .softDeleted | some .tombstoned => false
    | _ => metadata.visibility ≠ .secret

variable (search : Database → RecallQuery → List Chars) (finalScore : Chars → RecallMetadata → ℚ)

def scoreCandidate (candidateId : Chars) (metadata : RecallMetadata) : Option (MemoryRecallEntry × ℚ) :=
  if allowedForReplay metadata then
    some ({
      entityId := metadata.entityId
      slotKey := metadata.slotKey
      value := metadata.content
      source := metadata.source.getD .system
      confidence := metadata.confidence
      importance := metadata.importance
      privacyLevel := metadata.visibility
      score := finalScore candidateId metadata
      occurredAt := metadata.updatedAt }, finalScore candidateId metadata)
  else none

def scoreCandidates (db : Database) (query : RecallQuery) (candidateIds : List Chars) :
    List (MemoryRecallEntry × ℚ) :=
  candidateIds.filterMap fun candidateId =>
    ((loadRecallMetadata db query.entityId candidateId).filter fun metadata =>
      query.layerFilter.all fun layer => metadata.layer = layer).bind
        (scoreCandidate finalScore candidateId)

def recallScoped (db : Database) (query : RecallQuery) : Except String (List MemoryRecallEntry) := do
  Tenant.enforceRecallScope query.policyContext (String.ofList query.entityId)
  if (Text.trim query.query).isEmpty ∨ query.limit = 0 then return []
  if 2 ^ 64 ≤ query.limit * 3 then throw "recall search limit overflow"
  let scored := scoreCandidates finalScore db query (search db query)
  let sorted := scored.insertionSort fun a b => b.2 ≤ a.2
  return (sorted.take query.limit).map Prod.fst

end Recall

end Asterel.Postgres
