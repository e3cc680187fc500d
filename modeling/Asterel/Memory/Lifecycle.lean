import Asterel.Memory.PostgresTables

/-!
# Lifecycle pruning

One pass in one transaction: belief slots whose retrieval unit has expired are deleted
softly and after a grace period for good, expired units are purged, weak units are
demoted, recency scores are computed again, stale trends are demoted, and every layer
with a retention period is cleaned up.

What a pass does to a unit depends on the unit alone, and what it does to a slot on the
slot and on its units. A pass that computes a score above one violates a constraint of
the table and is rolled back.
-/

namespace Asterel.Postgres

open Library List KeyedTable
open Asterel.Memory

section Config

structure MemoryConfig where
  conversationRetentionDays : Nat
  layerRetentionWorkingDays : Option Nat
  layerRetentionEpisodicDays : Option Nat
  layerRetentionSemanticDays : Option Nat
  layerRetentionProceduralDays : Option Nat
  layerRetentionIdentityDays : Option Nat
  ledgerRetentionDays : Option Nat

def layerRetentionDays (config : MemoryConfig) : MemoryLayer → Nat
  | .working => config.layerRetentionWorkingDays.getD config.conversationRetentionDays
  | .episodic => config.layerRetentionEpisodicDays.getD config.conversationRetentionDays
  | .semantic => config.layerRetentionSemanticDays.getD config.conversationRetentionDays
  | .procedural => config.layerRetentionProceduralDays.getD config.conversationRetentionDays
  | .identity => config.layerRetentionIdentityDays.getD config.conversationRetentionDays

def ledgerRetentionOrDefault (config : MemoryConfig) : Nat :=
  config.ledgerRetentionDays.getD config.conversationRetentionDays

def layers : List MemoryLayer := [.working, .episodic, .semantic, .procedural, .identity]

def lifecyclePruningDisabled (config : MemoryConfig) : Bool :=
  layers.all (fun layer => layerRetentionDays config layer = 0) &&
    ledgerRetentionOrDefault config = 0

/-- The clock readings of a pass: at its start, and at the cleanup of each layer. -/
structure PassClock where
  now : Timestamp
  layerNow : MemoryLayer → Timestamp
  later : ∀ layer, now ≤ layerNow layer

end Config

section Ttl

def ttlGrace : Timestamp := days 7

def expiredBy (cutoff : Timestamp) (row : UnitRow) : Bool :=
  row.retentionExpiresAt.any fun expiry => expiry ≤ cutoff

def hasUnit (db : Database) (name : SlotName) (condition : UnitRow → Bool) : Bool :=
  db.units.any fun row => row.name = name && condition row

def deletedStatuses : List SlotStatus := [.softDeleted, .hardDeleted, .tombstoned]

def softDeleteExpired (now : Timestamp) (db : Database) : Database :=
  { db with
    slots := db.slots.updateWhere
      (fun slot => slot.status ∉ deletedStatuses && hasUnit db slot.name (expiredBy now))
      (fun slot => slot.marked .softDeleted now) fun _ => SlotRow.name_marked .. }

def hardDeleteExpired (now cutoff : Timestamp) (db : Database) : Database :=
  { db with
    slots := db.slots.updateWhere
      (fun slot => slot.status = .softDeleted && slot.updatedAt ≤ cutoff &&
        hasUnit db slot.name (expiredBy cutoff))
      (fun slot => slot.marked .hardDeleted now) fun _ => SlotRow.name_marked .. }

def purgeExpired (cutoff : Timestamp) (db : Database) : Database :=
  { db with units := db.units.deleteWhere (expiredBy cutoff) }

def applyTtlPruning (now : Timestamp) (db : Database) : Database :=
  purgeExpired (now - ttlGrace)
    (hardDeleteExpired now (now - ttlGrace) (softDeleteExpired now db))

end Ttl

section Quality

variable (row : UnitRow)

def UnitRow.demoted (row : UnitRow) (status : PromotionStatus) (now : Timestamp) : UnitRow :=
  { row with promotionStatus := status, updatedAt := now }

@[simp] theorem UnitRow.unitId_demoted (status : PromotionStatus) (now : Timestamp) :
    (row.demoted status now).unitId = row.unitId := rfl

def lowConfidence (row : UnitRow) : Bool :=
  row.promotionStatus = .raw && row.signalTier = .raw && row.reliability < 3 / 10

def highContradiction (row : UnitRow) : Bool :=
  (row.promotionStatus = .promoted || row.promotionStatus = .candidate) &&
    row.signalTier ≠ .governance && 1 / 2 < row.contradictionPenalty

/-- `slot_key LIKE` one of the four patterns. -/
def isTrendKey (slotKey : Chars) : Bool :=
  "trend.".toList.isPrefixOf slotKey || "trend/".toList.isPrefixOf slotKey ||
    Text.occurs ".trend.".toList slotKey || Text.occurs "/trend/".toList slotKey

def staleTrend (now : Timestamp) (row : UnitRow) : Bool :=
  row.promotionStatus = .promoted && row.signalTier ≠ .governance && isTrendKey row.slotKey &&
    row.updatedAt ≤ now - days 30

/-- A linear window of 90 days with a floor. -/
def nextRecency (now updatedAt : Timestamp) : ℚ :=
  max (1 / 5) (1 - ((now - updatedAt : Int) : ℚ) / 1000000 / 86400 / 90)

def recencyStale (now : Timestamp) (row : UnitRow) : Bool :=
  1 / 10000 < |row.recencyScore - nextRecency now row.updatedAt|

def UnitRow.refreshed (row : UnitRow) (now : Timestamp) : UnitRow :=
  { row with recencyScore := nextRecency now row.updatedAt }

@[simp] theorem UnitRow.unitId_refreshed (now : Timestamp) :
    (row.refreshed now).unitId = row.unitId := rfl

def recencyRefreshBatchSize : Nat := 5000

def beforeUnit (a b : UnitRow) : Bool :=
  a.updatedAt < b.updatedAt || (a.updatedAt = b.updatedAt && a.unitId ≤ b.unitId)

/-- The ids of the oldest stale units. -/
def refreshCandidates (now : Timestamp) (units : KeyedTable UnitRow.unitId) : List Chars :=
  (((units.rows.filter (recencyStale now)).insertionSort fun a b => beforeUnit a b).take
    recencyRefreshBatchSize).map UnitRow.unitId

def refreshBatch (now : Timestamp) (units : KeyedTable UnitRow.unitId) : KeyedTable UnitRow.unitId :=
  units.updateWhere (fun row => row.unitId ∈ refreshCandidates now units)
    (fun row => row.refreshed now) fun _ => UnitRow.unitId_refreshed ..

/-- Batch after batch, until no unit is stale. -/
def refreshRecencyScores (now : Timestamp) :
    Nat → KeyedTable UnitRow.unitId → KeyedTable UnitRow.unitId
  | 0, units => units
  | fuel + 1, units =>
    if refreshCandidates now units = [] then units
    else refreshRecencyScores now fuel (refreshBatch now units)

def violatesScoreRange (now : Timestamp) (row : UnitRow) : Bool :=
  recencyStale now row && 1 < nextRecency now row.updatedAt

def demoteWhere (units : KeyedTable UnitRow.unitId) (condition : UnitRow → Bool)
    (status : PromotionStatus) (now : Timestamp) : KeyedTable UnitRow.unitId :=
  units.updateWhere condition (fun row => row.demoted status now) fun _ => UnitRow.unitId_demoted ..

def applyQualityPruning (now : Timestamp) (db : Database) : Option Database :=
  let units := demoteWhere db.units lowConfidence .demoted now
  let units := demoteWhere units highContradiction .demoted now
  if units.any (violatesScoreRange now) then none
  else
    let units := refreshRecencyScores now (units.rows.length + 1) units
    some { db with units := demoteWhere units (staleTrend now) .candidate now }

end Quality

section Layers

def ofLayer (layer : MemoryLayer) (row : UnitRow) : Bool := row.layer = layer

def hardDeleteOfLayer (layer : MemoryLayer) (cutoff : Timestamp) (db : Database) : Database :=
  { db with
    slots := db.slots.updateWhere
      (fun slot => slot.status = .softDeleted && slot.updatedAt < cutoff &&
        hasUnit db slot.name (ofLayer layer))
      (fun slot => slot.marked .hardDeleted cutoff) fun _ => SlotRow.name_marked .. }

def dropTombstonedOfLayer (layer : MemoryLayer) (cutoff : Timestamp) (db : Database) : Database :=
  { db with
    slots := db.slots.deleteWhere fun slot : SlotRow =>
      slot.status = .tombstoned && slot.updatedAt < cutoff && hasUnit db slot.name (ofLayer layer) }

def secretOfLayer (layer : MemoryLayer) (cutoff : Timestamp) (row : UnitRow) : Bool :=
  row.visibility = .secret && row.layer = layer && row.updatedAt < cutoff

def dropSecretOfLayer (layer : MemoryLayer) (cutoff : Timestamp) (db : Database) : Database :=
  { db with units := db.units.deleteWhere (secretOfLayer layer cutoff) }

def layerCutoff (config : MemoryConfig) (clock : PassClock) (layer : MemoryLayer) : Timestamp :=
  clock.layerNow layer - days (layerRetentionDays config layer)

def pruneLayer (config : MemoryConfig) (clock : PassClock) (db : Database) (layer : MemoryLayer) :
    Database :=
  if layerRetentionDays config layer = 0 then db
  else
    let cutoff := layerCutoff config clock layer
    dropSecretOfLayer layer cutoff (dropTombstonedOfLayer layer cutoff (hardDeleteOfLayer layer cutoff db))

def pruneLayers (config : MemoryConfig) (clock : PassClock) (db : Database) : Database :=
  layers.foldl (pruneLayer config clock) db

end Layers

/-- One pass; a pass that is rolled back has no result. -/
def pruneLifecycleRows (config : MemoryConfig) (clock : PassClock) (db : Database) :
    Option Database :=
  if lifecyclePruningDisabled config then some db
  else (applyQualityPruning clock.now (applyTtlPruning clock.now db)).map (pruneLayers config clock)

section Refresh

variable {now : Timestamp}
variable {units : KeyedTable UnitRow.unitId} {row : UnitRow}

theorem recencyStale_refreshed (now : Timestamp) (row : UnitRow) :
    recencyStale now (row.refreshed now) = false := by
  have same : (row.refreshed now).recencyScore = nextRecency now (row.refreshed now).updatedAt := rfl
  rw [recencyStale, same, sub_self, abs_zero, decide_eq_false_iff_not, not_lt]
  decide +kernel

theorem mem_refreshCandidates
    (member : row ∈ units.rows) (candidate : row.unitId ∈ refreshCandidates now units) :
    recencyStale now row = true := by
  obtain ⟨other, inBatch, sameId⟩ := mem_map.mp candidate
  have sorted := mem_of_mem_take inBatch
  obtain ⟨inUnits, stale⟩ := mem_filter.mp ((mem_insertionSort _).mp sorted)
  rwa [← inj_on_of_nodup_map units.distinct inUnits member sameId]

theorem recencyStale_refreshBatch :
    recencyStale now (if row.unitId ∈ refreshCandidates now units then row.refreshed now else row) =
      (recencyStale now row && row.unitId ∉ refreshCandidates now units) := by
  by_cases candidate : row.unitId ∈ refreshCandidates now units
  · rw [if_pos candidate, recencyStale_refreshed]
    simp [candidate]
  · rw [if_neg candidate]
    simp [candidate]

/-- A batch leaves fewer stale units. -/
theorem countP_refreshBatch_lt (some : refreshCandidates now units ≠ []) :
    (refreshBatch now units).rows.countP (recencyStale now) <
      units.rows.countP (recencyStale now) := by
  rw [refreshBatch, rows_updateWhere, countP_map]
  have fewer : units.rows.countP (recencyStale now ∘ fun row =>
      if decide (row.unitId ∈ refreshCandidates now units) = true then row.refreshed now else row) =
      ((units.rows.filter (recencyStale now)).filter fun row =>
        row.unitId ∉ refreshCandidates now units).length := by
    rw [filter_filter, ← countP_eq_length_filter]
    refine countP_congr fun row _ => ?_
    rw [Function.comp_apply, if_congr decide_eq_true_iff rfl rfl, recencyStale_refreshBatch,
      Bool.and_comm]
  rw [fewer, countP_eq_length_filter, length_filter_lt_length_iff_exists]
  obtain ⟨id, candidate⟩ := exists_mem_of_ne_nil _ some
  obtain ⟨row, inBatch, rfl⟩ := mem_map.mp candidate
  refine ⟨row, (mem_insertionSort _).mp (mem_of_mem_take inBatch), ?_⟩
  simpa using candidate

theorem refreshCandidates_eq_nil_iff :
    refreshCandidates now units = [] ↔ ∀ row ∈ units.rows, ¬ recencyStale now row = true := by
  have size : recencyRefreshBatchSize ≠ 0 := by decide
  rw [refreshCandidates, map_eq_nil_iff, take_eq_nil_iff, or_iff_right size,
    ← length_eq_zero_iff, length_insertionSort, length_eq_zero_iff,
    filter_eq_nil_iff]

/-- The batches refresh every stale unit. -/
theorem refreshRecencyScores_eq {fuel : Nat}
    (enough : units.rows.countP (recencyStale now) ≤ fuel) :
    refreshRecencyScores now fuel units =
      units.updateWhere (recencyStale now) (fun row => row.refreshed now)
        fun _ => UnitRow.unitId_refreshed .. := by
  induction fuel generalizing units with
  | zero =>
    have none := countP_eq_zero.mp (Nat.le_zero.mp enough)
    exact (updateWhere_of_none none).symm
  | succ fuel ih =>
    rw [refreshRecencyScores]
    split
    case isTrue done =>
      exact (updateWhere_of_none (refreshCandidates_eq_nil_iff.mp done)).symm
    case isFalse some =>
      have fewer := countP_refreshBatch_lt some
      rw [ih (by omega)]
      refine ext ?_
      rw [rows_updateWhere, rows_updateWhere, refreshBatch, rows_updateWhere, map_map]
      refine map_congr_left fun row member => ?_
      rw [Function.comp_apply, if_congr decide_eq_true_iff rfl rfl, recencyStale_refreshBatch]
      by_cases candidate : row.unitId ∈ refreshCandidates now units
      · rw [if_pos candidate, if_pos (mem_refreshCandidates member candidate), if_neg (by simp [candidate])]
      · simp [candidate]

end Refresh

section Units

variable {config : MemoryConfig} {clock : PassClock} {db next : Database} {now : Timestamp}
variable (condition : Bool) (id : Chars) {other row : UnitRow}

/-- What the quality rules make of a unit. -/
def qualityPruned (now : Timestamp) (row : UnitRow) : UnitRow :=
  let row := if lowConfidence row then row.demoted .demoted now else row
  let row := if highContradiction row then row.demoted .demoted now else row
  let row := if recencyStale now row then row.refreshed now else row
  if staleTrend now row then row.demoted .candidate now else row

/-- The columns that no rule of a pass writes. -/
structure SameMemory (row other : UnitRow) : Prop where
  unitId : other.unitId = row.unitId
  name : other.name = row.name
  content : other.content = row.content
  signalTier : other.signalTier = row.signalTier
  reliability : other.reliability = row.reliability
  contradictionPenalty : other.contradictionPenalty = row.contradictionPenalty
  visibility : other.visibility = row.visibility
  layer : other.layer = row.layer
  retentionExpiresAt : other.retentionExpiresAt = row.retentionExpiresAt

theorem SameMemory.refl (row : UnitRow) : SameMemory row row :=
  ⟨rfl, rfl, rfl, rfl, rfl, rfl, rfl, rfl, rfl⟩

theorem SameMemory.trans {third : UnitRow} (first : SameMemory row other)
    (second : SameMemory other third) : SameMemory row third :=
  ⟨second.unitId.trans first.unitId, second.name.trans first.name,
    second.content.trans first.content, second.signalTier.trans first.signalTier,
    second.reliability.trans first.reliability,
    second.contradictionPenalty.trans first.contradictionPenalty,
    second.visibility.trans first.visibility, second.layer.trans first.layer,
    second.retentionExpiresAt.trans first.retentionExpiresAt⟩

theorem sameMemory_ite_demoted (status : PromotionStatus) (now : Timestamp)
    (row : UnitRow) : SameMemory row (if condition then row.demoted status now else row) := by
  split
  · exact ⟨rfl, rfl, rfl, rfl, rfl, rfl, rfl, rfl, rfl⟩
  · exact SameMemory.refl row

theorem sameMemory_ite_refreshed (now : Timestamp) (row : UnitRow) :
    SameMemory row (if condition then row.refreshed now else row) := by
  split
  · exact ⟨rfl, rfl, rfl, rfl, rfl, rfl, rfl, rfl, rfl⟩
  · exact SameMemory.refl row

theorem sameMemory_qualityPruned (now : Timestamp) (row : UnitRow) :
    SameMemory row (qualityPruned now row) :=
  (((sameMemory_ite_demoted _ _ now row).trans (sameMemory_ite_demoted _ _ now _)).trans
    (sameMemory_ite_refreshed _ now _)).trans (sameMemory_ite_demoted _ _ now _)

theorem find_demoteWhere (units : KeyedTable UnitRow.unitId) (condition : UnitRow → Bool)
    (status : PromotionStatus) (now : Timestamp) (id : Chars) :
    (demoteWhere units condition status now).find id =
      (units.find id).map fun row => if condition row then row.demoted status now else row :=
  find_updateWhere ..

theorem applyQualityPruning_eq (done : applyQualityPruning now db = some next) :
    next = { db with units := next.units } ∧
      ∀ id, next.units.find id = (db.units.find id).map (qualityPruned now) := by
  rw [applyQualityPruning] at done
  split at done
  · cases done
  · cases done
    refine ⟨rfl, fun id => ?_⟩
    rw [refreshRecencyScores_eq (countP_le_length.trans (Nat.le_succ _)), find_demoteWhere,
      find_updateWhere, find_demoteWhere, find_demoteWhere, Option.map_map,
      Option.map_map, Option.map_map]
    rfl

/-- Whether the cleanup of its layer deletes a unit. -/
def secretExpired (config : MemoryConfig) (clock : PassClock) (row : UnitRow) : Bool :=
  layerRetentionDays config row.layer ≠ 0 && row.visibility = .secret &&
    row.updatedAt < layerCutoff config clock row.layer

theorem find_units_pruneLayer (layer : MemoryLayer) (id : Chars) :
    (pruneLayer config clock db layer).units.find id =
      (db.units.find id).filter fun row => !(row.layer = layer && secretExpired config clock row) := by
  rw [pruneLayer]
  split
  case isTrue off =>
    cases db.units.find id with
    | none => rfl
    | some row =>
      have kept : (row.layer = layer && secretExpired config clock row) = false := by
        by_cases same : row.layer = layer
        · simp [secretExpired, same, off]
        · simp [same]
      rw [Option.filter_some, kept]
      rfl
  case isFalse on =>
    have statement := find_deleteWhere db.units id
      (secretOfLayer layer (layerCutoff config clock layer))
    refine statement.trans (congrArg (fun keep => (db.units.find id).filter keep) ?_)
    funext row
    by_cases same : row.layer = layer
    · subst same
      simp [secretOfLayer, secretExpired, on]
    · simp [secretOfLayer, same]

theorem find_units_pruneLayers :
    (pruneLayers config clock db).units.find id =
      (db.units.find id).filter fun row => !secretExpired config clock row := by
  simp only [pruneLayers, layers, foldl_cons, foldl_nil, find_units_pruneLayer]
  cases found : db.units.find id with
  | none => rfl
  | some row =>
    simp only [Option.filter_some]
    cases shape : row.layer <;> cases secret : secretExpired config clock row <;> simp [shape, secret]

/-- What a pass makes of a unit. -/
def unitPruned (config : MemoryConfig) (clock : PassClock) (row : UnitRow) : Option UnitRow :=
  if expiredBy (clock.now - ttlGrace) row then none
  else if secretExpired config clock (qualityPruned clock.now row) then none
  else some (qualityPruned clock.now row)

theorem find_units_applyTtlPruning :
    (applyTtlPruning now db).units.find id =
      (db.units.find id).filter fun row => !expiredBy (now - ttlGrace) row :=
  find_deleteWhere ..

section

variable (enabled : lifecyclePruningDisabled config = false)
  (ran : pruneLifecycleRows config clock db = some next)
include enabled ran

theorem pruneLifecycleRows_eq :
    ∃ graded, applyQualityPruning clock.now (applyTtlPruning clock.now db) = some graded ∧
      pruneLayers config clock graded = next := by
  rw [pruneLifecycleRows, if_neg (by rw [enabled]; decide)] at ran
  exact Option.map_eq_some_iff.mp ran

/-- A pass treats every unit by itself. -/
theorem find_units_pruned (id : Chars) :
    next.units.find id = (db.units.find id).bind (unitPruned config clock) := by
  obtain ⟨graded, done, rfl⟩ := pruneLifecycleRows_eq enabled ran
  rw [find_units_pruneLayers, (applyQualityPruning_eq done).2, find_units_applyTtlPruning]
  cases db.units.find id with
  | none => rfl
  | some row =>
    rw [Option.filter_some, Option.bind_some, unitPruned]
    cases expiredBy (clock.now - ttlGrace) row with
    | true => rfl
    | false =>
      simp only [Bool.not_false, if_true, Option.map_some, Option.filter_some]
      cases secretExpired config clock (qualityPruned clock.now row) <;> rfl

end

theorem events_pruneLayer (config : MemoryConfig) (clock : PassClock) (db : Database)
    (layer : MemoryLayer) : (pruneLayer config clock db layer).events = db.events := by
  rw [pruneLayer]
  split <;> rfl

/-- A pass writes no event. -/
theorem events_pruned (ran : pruneLifecycleRows config clock db = some next) :
    next.events = db.events := by
  rw [pruneLifecycleRows] at ran
  split at ran
  · cases ran
    rfl
  · obtain ⟨graded, done, rfl⟩ := Option.map_eq_some_iff.mp ran
    have kept : (pruneLayers config clock graded).events = graded.events := by
      simp only [pruneLayers, layers, foldl_cons, foldl_nil, events_pruneLayer]
    rw [kept, (applyQualityPruning_eq done).1]
    rfl

theorem sameMemory_of_unitPruned (kept : unitPruned config clock row = some other) :
    SameMemory row other := by
  rw [unitPruned] at kept
  split at kept
  · cases kept
  · split at kept
    · cases kept
    · cases kept
      exact sameMemory_qualityPruned clock.now row

end Units

section Slots

variable {config : MemoryConfig} {clock : PassClock} {db next : Database} {now : Timestamp}
  {name : SlotName} {unit : Option UnitRow}

/-- The slot has at most this unit. -/
def OnlyUnit (db : Database) (name : SlotName) (unit : Option UnitRow) : Prop :=
  ∀ id row, db.units.find id = some row ∧ row.name = name ↔ unit = some row ∧ id = row.unitId

theorem hasUnit_of_onlyUnit (only : OnlyUnit db name unit) (condition : UnitRow → Bool) :
    hasUnit db name condition = unit.any condition := by
  rw [Bool.eq_iff_iff, hasUnit, any_iff, Option.any_eq_true]
  simp only [Bool.and_eq_true, decide_eq_true_eq]
  constructor
  · rintro ⟨id, row, found, same, holds⟩
    exact ⟨row, ((only id row).mp ⟨found, same⟩).1, holds⟩
  · rintro ⟨row, isUnit, holds⟩
    obtain ⟨found, same⟩ := (only row.unitId row).mpr ⟨isUnit, rfl⟩
    exact ⟨row.unitId, row, found, same, holds⟩

/-- Statements that treat units by themselves and keep their names. -/
theorem OnlyUnit.bind (only : OnlyUnit db name unit) {change : UnitRow → Option UnitRow}
    (units : ∀ id, next.units.find id = (db.units.find id).bind change)
    (kept : ∀ row other, change row = some other → SameMemory row other) :
    OnlyUnit next name (unit.bind change) := by
  intro id row
  rw [units id, Option.bind_eq_some_iff, Option.bind_eq_some_iff]
  constructor
  · rintro ⟨⟨old, found, changed⟩, same⟩
    have memory := kept old row changed
    obtain ⟨isUnit, sameId⟩ := (only id old).mp ⟨found, memory.name.symm.trans same⟩
    exact ⟨⟨old, isUnit, changed⟩, sameId.trans memory.unitId.symm⟩
  · rintro ⟨⟨old, isUnit, changed⟩, rfl⟩
    have memory := kept old row changed
    obtain ⟨found, same⟩ := (only old.unitId old).mpr ⟨isUnit, rfl⟩
    exact ⟨⟨old, memory.unitId ▸ found, changed⟩, memory.name.trans same⟩

def slotExpired (now : Timestamp) (unit : Option UnitRow) (slot : SlotRow) : SlotRow :=
  if slot.status ∉ deletedStatuses && unit.any (expiredBy now) then slot.marked .softDeleted now
  else slot

def slotGraceOver (now cutoff : Timestamp) (unit : Option UnitRow) (slot : SlotRow) : SlotRow :=
  if slot.status = .softDeleted && slot.updatedAt ≤ cutoff && unit.any (expiredBy cutoff) then
    slot.marked .hardDeleted now
  else slot

theorem find_slots_applyTtlPruning (only : OnlyUnit db name unit) :
    (applyTtlPruning now db).slots.find name = ((db.slots.find name).map (slotExpired now unit)).map
        (slotGraceOver now (now - ttlGrace) unit) := by
  have soft : (softDeleteExpired now db).slots.find name =
      (db.slots.find name).map (slotExpired now unit) :=
    find_updateWhere_of (fun _ => SlotRow.name_marked ..) fun slot same => by
      rw [same, hasUnit_of_onlyUnit only, slotExpired]
  have untouched : OnlyUnit (softDeleteExpired now db) name unit := only
  rw [← soft]
  exact find_updateWhere_of (fun _ => SlotRow.name_marked ..) fun slot same => by
    rw [same, hasUnit_of_onlyUnit untouched, slotGraceOver]

/-- What the cleanup of a layer makes of a slot. -/
def slotCleaned (config : MemoryConfig) (clock : PassClock) (layer : MemoryLayer)
    (unit : Option UnitRow) (slot : SlotRow) : Option SlotRow :=
  if layerRetentionDays config layer = 0 || !unit.any (ofLayer layer) then some slot
  else if slot.status = .softDeleted && slot.updatedAt < layerCutoff config clock layer then
    some (slot.marked .hardDeleted (layerCutoff config clock layer))
  else if slot.status = .tombstoned && slot.updatedAt < layerCutoff config clock layer then none
  else some slot

theorem find_slots_pruneLayer (only : OnlyUnit db name unit) (layer : MemoryLayer) :
    (pruneLayer config clock db layer).slots.find name =
      (db.slots.find name).bind (slotCleaned config clock layer unit) := by
  rw [pruneLayer]
  split
  case isTrue off =>
    cases db.slots.find name with
    | none => rfl
    | some slot => rw [Option.bind_some, slotCleaned, if_pos (by simp [off])]
  case isFalse on =>
    have hard : (hardDeleteOfLayer layer (layerCutoff config clock layer) db).slots.find name =
        (db.slots.find name).map fun slot =>
          if slot.status = .softDeleted && slot.updatedAt < layerCutoff config clock layer &&
              unit.any (ofLayer layer) then
            slot.marked .hardDeleted (layerCutoff config clock layer)
          else slot :=
      find_updateWhere_of (fun _ => SlotRow.name_marked ..) fun slot same => by
        rw [same, hasUnit_of_onlyUnit only]
    have untouched : OnlyUnit (hardDeleteOfLayer layer (layerCutoff config clock layer) db) name unit :=
      only
    have dropped : (dropTombstonedOfLayer layer (layerCutoff config clock layer)
        (hardDeleteOfLayer layer (layerCutoff config clock layer) db)).slots.find name =
          ((hardDeleteOfLayer layer (layerCutoff config clock layer) db).slots.find name).filter
            fun slot => !(slot.status = .tombstoned &&
              slot.updatedAt < layerCutoff config clock layer && unit.any (ofLayer layer)) :=
      find_deleteWhere_of fun slot same => by rw [same, hasUnit_of_onlyUnit untouched]
    refine dropped.trans ?_
    rw [hard]
    cases db.slots.find name with
    | none => rfl
    | some slot =>
      rw [Option.map_some, Option.bind_some, Option.filter_some, slotCleaned]
      cases ofThis : unit.any (ofLayer layer) with
      | false => simp
      | true =>
        by_cases soft : slot.status = .softDeleted ∧ slot.updatedAt < layerCutoff config clock layer
        · simp [on, soft, SlotRow.marked]
        · have kept : (slot.status = .softDeleted && slot.updatedAt < layerCutoff config clock layer) =
              false := by simpa using soft
          rw [Bool.and_true, kept]
          by_cases old : slot.status = .tombstoned ∧ slot.updatedAt < layerCutoff config clock layer
          · simp [on, old]
          · have same : (slot.status = .tombstoned && slot.updatedAt < layerCutoff config clock layer) =
                false := by simpa using old
            simp only [Bool.false_eq_true, if_false, Bool.and_true, same]
            simp [on]

theorem OnlyUnit.filter (only : OnlyUnit db name unit) {keep : UnitRow → Bool}
    (units : ∀ id, next.units.find id = (db.units.find id).filter keep) :
    OnlyUnit next name (unit.filter keep) := by
  have same : ∀ found : Option UnitRow,
      found.filter keep = found.bind fun row => if keep row then some row else none := by
    rintro (_ | row) <;> rfl
  rw [same]
  refine only.bind (fun id => (units id).trans (same _)) fun row other kept => ?_
  split at kept
  · cases kept
    exact SameMemory.refl row
  · cases kept

theorem OnlyUnit.map (only : OnlyUnit db name unit) {change : UnitRow → UnitRow}
    (units : ∀ id, next.units.find id = (db.units.find id).map change)
    (kept : ∀ row, SameMemory row (change row)) : OnlyUnit next name (unit.map change) := by
  rw [Option.map_eq_bind]
  refine only.bind (fun id => (units id).trans Option.map_eq_bind) ?_
  rintro row _ ⟨⟩
  exact kept row

/-- What the cleanup of all layers makes of a slot with this unit. -/
def layersCleaned (config : MemoryConfig) (clock : PassClock) (unit : Option UnitRow)
    (slot : SlotRow) : Option SlotRow :=
  unit.elim (some slot) fun row => slotCleaned config clock row.layer (some row) slot

theorem slotCleaned_other {layer : MemoryLayer} {row : UnitRow} (other : row.layer ≠ layer)
    (slot : SlotRow) : slotCleaned config clock layer (some row) slot = some slot := by
  rw [slotCleaned, if_pos]
  simp [ofLayer, other]

theorem slotCleaned_none (layer : MemoryLayer) (slot : SlotRow) :
    slotCleaned config clock layer none slot = some slot := by
  rw [slotCleaned, if_pos]
  simp

/-- A slot is cleaned up with the layer of its unit. -/
theorem find_slots_foldl_pruneLayer (only : OnlyUnit db name unit) {remaining : List MemoryLayer}
    (once : remaining.Nodup) :
    (remaining.foldl (pruneLayer config clock) db).slots.find name =
      (db.slots.find name).bind (layersCleaned config clock
        (unit.filter fun row => row.layer ∈ remaining)) := by
  induction remaining generalizing db unit with
  | nil =>
    have none : (unit.filter fun row => decide (row.layer ∈ ([] : List MemoryLayer))) = none := by
      cases unit <;> simp
    rw [none, foldl_nil]
    cases db.slots.find name <;> rfl
  | cons layer rest ih =>
    obtain ⟨fresh, once⟩ := nodup_cons.mp once
    have after : OnlyUnit (pruneLayer config clock db layer) name (unit.filter fun row =>
        !(row.layer = layer && secretExpired config clock row)) :=
      only.filter (find_units_pruneLayer layer)
    rw [foldl_cons, ih after once, find_slots_pruneLayer only layer]
    cases db.slots.find name with
    | none => rfl
    | some slot =>
      rw [Option.bind_some, Option.bind_some]
      cases unit with
      | none =>
        rw [slotCleaned_none]
        rfl
      | some row =>
        by_cases here : row.layer = layer
        · have later : (((some row).filter fun row =>
              !(row.layer = layer && secretExpired config clock row)).filter
                fun row => row.layer ∈ rest) = none := by
            rw [Option.filter_filter, Option.filter_some, if_neg]
            simp [here, fresh]
          have member : row.layer ∈ layer :: rest := here ▸ mem_cons_self
          rw [later, Option.filter_some, if_pos (decide_eq_true member), layersCleaned,
            Option.elim_some, here]
          cases slotCleaned config clock layer (some row) slot <;> rfl
        · have kept : ((some row).filter fun row =>
              !(row.layer = layer && secretExpired config clock row)) = some row := by
            rw [Option.filter_some, if_pos]
            simp [here]
          rw [kept, slotCleaned_other here, Option.bind_some, Option.filter_some, Option.filter_some]
          simp [here]

/-- What a pass makes of a slot with this unit. -/
def slotPruned (config : MemoryConfig) (clock : PassClock) (unit : Option UnitRow) (slot : SlotRow) :
    Option SlotRow :=
  layersCleaned config clock
    ((unit.filter fun row => !expiredBy (clock.now - ttlGrace) row).map (qualityPruned clock.now))
    (slotGraceOver clock.now (clock.now - ttlGrace) unit (slotExpired clock.now unit slot))

/-- A pass treats every slot with its unit. -/
theorem find_slots_pruned (enabled : lifecyclePruningDisabled config = false)
    (ran : pruneLifecycleRows config clock db = some next) (only : OnlyUnit db name unit) :
    next.slots.find name = (db.slots.find name).bind (slotPruned config clock unit) := by
  obtain ⟨graded, done, rfl⟩ := pruneLifecycleRows_eq enabled ran
  obtain ⟨others, units⟩ := applyQualityPruning_eq done
  have slots : graded.slots = (applyTtlPruning clock.now db).slots := by rw [others]
  have left := (only.filter find_units_applyTtlPruning).map units (sameMemory_qualityPruned clock.now)
  have every : ∀ found : Option UnitRow, (found.filter fun row => row.layer ∈ layers) = found := by
    rintro (_ | row)
    · rfl
    · cases shape : row.layer <;> simp [Option.filter_some, shape, layers]
  rw [pruneLayers, find_slots_foldl_pruneLayer left (by decide), every, slots,
    find_slots_applyTtlPruning only]
  cases db.slots.find name <;> rfl

end Slots

end Asterel.Postgres
