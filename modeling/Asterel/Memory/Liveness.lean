import Asterel.Memory.Maintenance
import Asterel.Memory.PostgresWrite

/-!
# Which memories are live

A slot resolves while it is active, and where there is no slot row from its graph node,
unless the ledger has a deletion of it. A unit is recalled unless the ledger has a deletion of
its slot, the slot is deleted softly or tombstoned, or the unit is secret.

What was forgotten stays so until retention pruning restores the slot from an older event.
Both readers agree while no slot is learned again that the ledger knows as deleted, the layer
cleanup deletes no slot for good whose unit is still visible, and no two slots share a unit.
-/

namespace Asterel.Postgres

open Library List
open Library.Transitions
open Asterel.Memory

inductive Operation where
  | append (call : AppendCall)
  | forget (name : SlotName) (mode : ForgetMode) (freshId : String) (now : Timestamp)
  | lifecycle (pass : Pass)
  | retention (now : Timestamp)

variable (scan : (ρ : Type) → List ρ → List ρ)

/-- An operation that is rolled back has no result. -/
def perform (db : Database) : Operation → Option Database
  | .append call => (appendEvent db call).toOption.map Prod.fst
  | .forget name mode freshId now => some (forgetSlot db name mode freshId now)
  | .lifecycle pass => runPass db pass
  | .retention now => some (pruneExpiredRetention scan now db)

variable {scan} {db next : Database} {name : SlotName} {operation : Operation}

section Ledger

theorem denylisted_of_ledger {rows : List LedgerRow} (kept : next.ledger = db.ledger ++ rows)
    (denied : denylisted db name = true) : denylisted next name = true := by
  rw [denylisted, kept, any_append, Bool.or_eq_true]
  exact .inl denied

theorem ledger_pruneLayer (config : MemoryConfig) (clock : PassClock) (db : Database)
    (layer : MemoryLayer) : (pruneLayer config clock db layer).ledger = db.ledger := by
  rw [pruneLayer]
  split <;> rfl

theorem ledger_pruned {config : MemoryConfig} {clock : PassClock}
    (ran : pruneLifecycleRows config clock db = some next) : next.ledger = db.ledger := by
  cases enabled : lifecyclePruningDisabled config with
  | true =>
    rw [pruneLifecycleRows, if_pos enabled] at ran
    cases ran
    rfl
  | false =>
    obtain ⟨graded, done, rfl⟩ := pruneLifecycleRows_eq enabled ran
    have others := (applyQualityPruning_eq done).1
    simp only [pruneLayers, layers, foldl_cons, foldl_nil, ledger_pruneLayer]
    rw [others]
    rfl

theorem ledger_restoreWinner (db : Database) (name : SlotName) (now : Timestamp) :
    (restoreWinner scan now db name).ledger = db.ledger := by
  rw [restoreWinner_eq]
  cases bestFor scan db name <;> rfl

theorem ledger_foldl_restoreWinner (names : List SlotName) (db : Database) (now : Timestamp) :
    (names.foldl (restoreWinner scan now) db).ledger = db.ledger := by
  induction names generalizing db with
  | nil => rfl
  | cons first rest ih =>
    exact (ih _).trans (ledger_restoreWinner db first now)

theorem ledger_pruneExpiredRetention (scan : (ρ : Type) → List ρ → List ρ) (now : Timestamp)
    (db : Database) : (pruneExpiredRetention scan now db).ledger = db.ledger ∨
      (pruneExpiredRetention scan now db).ledger =
        db.ledger ++ [⟨retentionName.1, retentionName.2, .retention⟩] := by
  rw [pruneExpiredRetention]
  split
  · exact .inl rfl
  · exact .inr (congrArg (fun ledger : List LedgerRow => ledger ++ _)
      (ledger_foldl_restoreWinner _ _ now))

theorem ledger_forgetSlot (db : Database) (name : SlotName) (mode : ForgetMode) (freshId : String)
    (now : Timestamp) :
    (forgetSlot db name mode freshId now).ledger = db.ledger ++ [⟨name.1, name.2, .forget mode⟩] := by
  cases mode <;> rfl

theorem perform_append {call : AppendCall} (done : perform scan db (.append call) = some next) :
    ∃ event, appendEvent db call = .ok (next, event) := by
  obtain ⟨⟨other, event⟩, appended, rfl⟩ := Option.map_eq_some_iff.mp done
  cases shape : appendEvent db call with
  | error message => rw [shape] at appended; cases appended
  | ok result =>
    rw [shape] at appended
    cases appended
    exact ⟨event, rfl⟩

/-- The ledger only grows. -/
theorem ledger_perform (done : perform scan db operation = some next) :
    ∃ rows, next.ledger = db.ledger ++ rows := by
  cases operation with
  | append call =>
    obtain ⟨event, appended⟩ := perform_append done
    obtain ⟨_, _, _, ⟨_, same⟩ | ⟨_, wins⟩⟩ := appendEvent_ok appended
    · exact ⟨[], by rw [same, append_nil]⟩
    · exact ⟨[], by rw [wins.ledger, append_nil]⟩
  | forget name mode freshId now =>
    cases done
    exact ⟨_, ledger_forgetSlot db name mode freshId now⟩
  | lifecycle pass => exact ⟨[], by rw [ledger_pruned done, append_nil]⟩
  | retention now =>
    cases done
    rcases ledger_pruneExpiredRetention scan now db with same | same
    · exact ⟨[], by rw [same, append_nil]⟩
    · exact ⟨_, same⟩

end Ledger

section Live

def HasStatus (db : Database) (name : SlotName) (status : SlotStatus) : Prop :=
  ∃ slot, db.slots.find name = some slot ∧ slot.status = status

/-- A slot that resolves from its own row. -/
def Live (db : Database) (name : SlotName) : Prop := HasStatus db name .active

theorem resolveSlot_of_denylisted (denied : denylisted db name = true) :
    resolveSlot db name = none ↔ ¬ Live db name := by
  rw [resolveSlot, Live, HasStatus]
  cases db.slots.find name with
  | none => simp [denied]
  | some slot => by_cases active : slot.status = .active <;> simp [active]

/-- Entries of a recall come from units that are allowed. -/
theorem recallScoped_mem {search : Database → RecallQuery → List Chars}
    {finalScore : Chars → RecallMetadata → ℚ} {query : RecallQuery} {entries : List MemoryRecallEntry}
    (recalled : recallScoped search finalScore db query = .ok entries) {entry : MemoryRecallEntry}
    (member : entry ∈ entries) :
    ∃ id row, db.units.find id = some row ∧ (entry.entityId, entry.slotKey) = row.name ∧
      allowedForReplay (recallMetadata db row) = true := by
  have scored : entry ∈ (scoreCandidates finalScore db query (search db query)).map Prod.fst := by
    obtain ⟨_, _, recalled⟩ := ok_of_bind recalled
    split at recalled
    · cases recalled
      cases member
    · split at recalled
      · cases recalled
      · cases recalled
        obtain ⟨pair, taken, rfl⟩ := mem_map.mp member
        exact mem_map_of_mem ((mem_insertionSort _).mp (mem_of_mem_take taken))
  obtain ⟨⟨_, score⟩, inScored, rfl⟩ := mem_map.mp scored
  obtain ⟨id, _, found⟩ := mem_filterMap.mp inScored
  obtain ⟨metadata, loaded, found⟩ := Option.bind_eq_some_iff.mp found
  obtain ⟨row, stored, rfl⟩ := Option.map_eq_some_iff.mp (Option.filter_eq_some_iff.mp loaded).1
  rw [scoreCandidate] at found
  split at found
  · rename_i allowed
    cases found
    exact ⟨id, row, (Option.filter_eq_some_iff.mp stored).1, rfl, allowed⟩
  · cases found

end Live

section Revival

variable {config : MemoryConfig} {clock : PassClock} {wanted : SlotStatus}

theorem hasStatus_marked {condition : SlotRow → Bool} {status : SlotStatus} {stamp : Timestamp}
    {kept : ∀ row : SlotRow, (row.marked status stamp).name = row.name} (other : wanted ≠ status)
    (after : HasStatus { db with
      slots := db.slots.updateWhere condition (fun row => row.marked status stamp) kept } name wanted) :
    HasStatus db name wanted := by
  obtain ⟨slot, found, isWanted⟩ := after
  rw [KeyedTable.find_updateWhere] at found
  obtain ⟨old, before, same⟩ := Option.map_eq_some_iff.mp found
  refine ⟨old, before, ?_⟩
  split at same
  · subst same
    exact absurd isWanted.symm other
  · exact same ▸ isWanted

theorem hasStatus_deleteWhere {condition : SlotRow → Bool}
    (after : HasStatus { db with slots := db.slots.deleteWhere condition } name wanted) :
    HasStatus db name wanted := by
  obtain ⟨slot, found, isWanted⟩ := after
  rw [KeyedTable.find_deleteWhere] at found
  exact ⟨slot, (Option.filter_eq_some_iff.mp found).1, isWanted⟩

theorem hasStatus_pruneLayer {layer : MemoryLayer} (other : wanted ≠ .hardDeleted)
    (after : HasStatus (pruneLayer config clock db layer) name wanted) : HasStatus db name wanted := by
  rw [pruneLayer] at after
  split at after
  · exact after
  · have kept : HasStatus (dropTombstonedOfLayer layer (layerCutoff config clock layer)
        (hardDeleteOfLayer layer (layerCutoff config clock layer) db)) name wanted := after
    exact hasStatus_marked other (hasStatus_deleteWhere kept)

theorem hasStatus_foldl_pruneLayer {remaining : List MemoryLayer} (other : wanted ≠ .hardDeleted)
    (after : HasStatus (remaining.foldl (pruneLayer config clock) db) name wanted) :
    HasStatus db name wanted := by
  induction remaining generalizing db with
  | nil => exact after
  | cons layer rest ih => exact hasStatus_pruneLayer other (ih after)

/-- A lifecycle pass brings no slot into a status other than the two it deletes with. -/
theorem hasStatus_pruned (soft : wanted ≠ .softDeleted) (hard : wanted ≠ .hardDeleted)
    (ran : pruneLifecycleRows config clock db = some next) (after : HasStatus next name wanted) :
    HasStatus db name wanted := by
  cases enabled : lifecyclePruningDisabled config with
  | true =>
    rw [pruneLifecycleRows, if_pos enabled] at ran
    cases ran
    exact after
  | false =>
    obtain ⟨graded, done, rfl⟩ := pruneLifecycleRows_eq enabled ran
    have graded := hasStatus_foldl_pruneLayer hard after
    rw [(applyQualityPruning_eq done).1] at graded
    have expired : HasStatus (hardDeleteExpired clock.now (clock.now - ttlGrace)
        (softDeleteExpired clock.now db)) name wanted := graded
    exact hasStatus_marked soft (hasStatus_marked hard expired)

theorem live_forgetSlot {forgotten : SlotName} {mode : ForgetMode} {freshId : String} {now : Timestamp}
    (live : Live (forgetSlot db forgotten mode freshId now) name) :
    Live db name ∧ name ≠ forgotten := by
  obtain ⟨slot, found, active⟩ := live
  cases mode with
  | soft =>
    have updated := (find_slots_softDelete (insertDeletionLedgerEntry db forgotten (.forget .soft))
      forgotten now name).symm.trans found
    obtain ⟨old, before, same⟩ := Option.map_eq_some_iff.mp updated
    split at same
    · subst same
      cases active
    · rename_i other
      exact ⟨⟨old, before, same ▸ active⟩, other⟩
  | hard =>
    have filtered := (find_slots_hardDelete (insertDeletionLedgerEntry db forgotten (.forget .hard))
      forgotten name).symm.trans found
    obtain ⟨before, kept⟩ := Option.filter_eq_some_iff.mp filtered
    refine ⟨⟨slot, before, active⟩, ?_⟩
    rintro rfl
    exact absurd (lineageOf_closed db.derivations name).1 (of_decide_eq_true kept)
  | tombstone =>
    have written := (find_upsertBeliefSlot (applyHardDelete
      (insertDeletionLedgerEntry db forgotten (.forget .tombstone)) forgotten)
      (tombstoneOf forgotten freshId now) name).symm.trans found
    split at written
    · cases written
      cases active
    · rename_i other
      have filtered := (find_slots_hardDelete
        (insertDeletionLedgerEntry db forgotten (.forget .tombstone)) forgotten name).symm.trans written
      exact ⟨⟨slot, (Option.filter_eq_some_iff.mp filtered).1, active⟩, other⟩

end Revival

section Forgotten

/-- Neither reader returns anything for the slot. -/
def Forgotten (db : Database) (name : SlotName) : Prop :=
  resolveSlot db name = none ∧
    ∀ search finalScore query entries, recallScoped search finalScore db query = .ok entries →
      ∀ entry ∈ entries, (entry.entityId, entry.slotKey) ≠ name

theorem forgotten_iff (denied : denylisted db name = true) : Forgotten db name ↔ ¬ Live db name := by
  rw [Forgotten, resolveSlot_of_denylisted denied, and_iff_left]
  rintro search finalScore query entries recalled entry member rfl
  obtain ⟨id, row, _, same, allowed⟩ := recallScoped_mem recalled member
  rw [allowedForReplay, recallMetadata, ← same, if_pos denied] at allowed
  cases allowed

/-- Whether an operation is an append to the slot. -/
def AppendsTo (name : SlotName) : Operation → Prop
  | .append call => ∃ input, normalizeInput call.input = .ok input ∧
      (input.entityId, input.slotKey) = name
  | _ => False

/-- Whether retention pruning finds the event of the slot expired, and another one left. -/
def Restores (name : SlotName) (db : Database) : Operation → Prop
  | .retention now => ∃ slot event, db.slots.find name = some slot ∧ winnerLost now db slot = true ∧
      event ∈ db.events.rows ∧ event.name = name ∧ eventExpired now event = false
  | _ => False

theorem live_retention_iff (listed : ∀ ρ rows, (scan ρ rows).Perm rows) {now : Timestamp}
    (dead : ¬ Live db name) :
    Live (pruneExpiredRetention scan now db) name ↔ Restores name db (.retention now) := by
  have best : bestFor scan (pruneEvents now db) name = none ↔
      ∀ event ∈ db.events.rows, eventExpired now event = false → event.name ≠ name := by
    rw [bestFor_eq_none_iff listed]
    have kept : ∀ event, event ∈ (pruneEvents now db).events.rows ↔
        event ∈ db.events.rows ∧ eventExpired now event = false := by
      intro event
      rw [pruneEvents, KeyedTable.deleteWhere, mem_filter, Bool.not_eq_true']
    simp only [kept, and_imp]
  have slots := find_slots_pruneExpiredRetention listed now db name
  constructor
  · rintro ⟨slot, found, active⟩
    obtain ⟨old, before, after⟩ := Option.bind_eq_some_iff.mp (slots.symm.trans found)
    split at after
    · rename_i lost
      obtain ⟨event, restored, _⟩ := Option.map_eq_some_iff.mp after
      have some : bestFor scan (pruneEvents now db) name ≠ none := by
        rw [restored]
        exact Option.some_ne_none event
      rw [ne_eq, best] at some
      push Not at some
      obtain ⟨retained, member, left, same⟩ := some
      exact ⟨old, retained, before, lost, member, same, left⟩
    · cases after
      exact absurd ⟨slot, before, active⟩ dead
  · rintro ⟨slot, event, found, lost, member, same, left⟩
    cases restored : bestFor scan (pruneEvents now db) name with
    | none => exact absurd same (best.mp restored event member left)
    | some winner =>
      refine ⟨slotOf winner now, ?_, rfl⟩
      rw [slots, found, Option.bind_some, if_pos lost, restored]
      rfl

/-- What revives a slot that does not resolve. -/
theorem live_perform_iff (listed : ∀ ρ rows, (scan ρ rows).Perm rows)
    (other : ¬ AppendsTo name operation) (dead : ¬ Live db name)
    (done : perform scan db operation = some next) :
    Live next name ↔ Restores name db operation := by
  cases operation with
  | append call =>
    refine iff_of_false ?_ not_false
    obtain ⟨event, appended⟩ := perform_append done
    obtain ⟨input, normalized, rfl, ⟨_, same⟩ | ⟨_, wins⟩⟩ := appendEvent_ok appended
    · rw [same]
      exact dead
    · rintro ⟨slot, found, active⟩
      rw [wins.slots, if_neg fun same => other ⟨input, normalized, same.symm⟩] at found
      exact dead ⟨slot, found, active⟩
  | forget forgotten mode freshId now =>
    cases done
    exact iff_of_false (fun live => dead (live_forgetSlot live).1) not_false
  | lifecycle pass => exact iff_of_false (fun live =>
    dead (hasStatus_pruned (by decide) (by decide) done live)) not_false
  | retention now =>
    cases done
    exact live_retention_iff listed dead

/-- The operations that append no event to the slot. -/
abbrev OtherOperation (name : SlotName) := { operation : Operation // ¬ AppendsTo name operation }

def performOther (scan : (ρ : Type) → List ρ → List ρ) (name : SlotName) (db : Database)
    (operation : OtherOperation name) : Option Database :=
  perform scan db operation.1

/-- What was forgotten stays so exactly until retention pruning restores it. -/
theorem stays_forgotten_iff (listed : ∀ ρ rows, (scan ρ rows).Perm rows) (db : Database)
    (name : SlotName) (mode : ForgetMode) (freshId : String) (now : Timestamp)
    (operations : List (OtherOperation name)) :
    Always (performOther scan name) (fun db => Forgotten db name)
        (forgetSlot db name mode freshId now) operations ↔
      Guarded (performOther scan name) (fun db operation => ¬ Restores name db operation.1)
        (forgetSlot db name mode freshId now) operations := by
  have denied : denylisted (forgetSlot db name mode freshId now) name = true := by
    rw [denylisted, ledger_forgetSlot, any_append, Bool.or_eq_true]
    exact .inr (by simp)
  refine @always_iff_guarded_of_invariant _ _ (performOther scan name)
    (fun db operation => ¬ Restores name db operation.1) (fun db => Forgotten db name)
    (fun db => denylisted db name = true) ?_ ?_ ?_ _ denied ?_ operations
  · rintro state ⟨operation, _⟩ stopped
    cases operation with
    | retention now => cases stopped
    | append | forget | lifecycle => exact not_false
  · intro state after operation denied _ done
    obtain ⟨rows, kept⟩ := ledger_perform done
    exact denylisted_of_ledger kept denied
  · rintro state after ⟨operation, other⟩ denied forgotten done
    obtain ⟨rows, kept⟩ := ledger_perform done
    rw [forgotten_iff (denylisted_of_ledger kept denied),
      live_perform_iff listed other ((forgotten_iff denied).mp forgotten) done]
  · rw [forgotten_iff denied]
    exact fun live => (live_forgetSlot live).2 rfl

/-- Rows in the order of their table. -/
def asStored : (ρ : Type) → List ρ → List ρ := fun _ rows => rows

theorem tea_stays_forgotten :
    Always (performOther asStored teaSlot.name) (fun db => Forgotten db teaSlot.name)
      (forgetSlot (expiring 5) teaSlot.name .soft "unused" (days 1))
      [⟨.retention (days 3), not_false⟩, ⟨.lifecycle (passOn 6 20), not_false⟩] := by
  refine (stays_forgotten_iff (fun _ _ => .refl _) (expiring 5) teaSlot.name .soft "unused" (days 1)
    [⟨.retention (days 3), not_false⟩, ⟨.lifecycle (passOn 6 20), not_false⟩]).mpr ?_
  refine ⟨?_, fun _ _ => ⟨not_false, fun _ _ => trivial⟩⟩
  rintro ⟨_, event, _, _, member, _⟩
  cases member

def appendOn (day : Nat) (eventId entityId slotKey value : String) (layer : MemoryLayer)
    (source : MemorySource) : AppendCall where
  input := {
    entityId := entityId.toList
    slotKey := slotKey.toList
    layer := layer
    eventType := .factAdded
    value := value.toList
    source := source
    confidence := ⟨0x3FF0000000000000⟩
    importance := ⟨0⟩
    provenance := none
    privacyLevel := .private }
  signalTier := none
  occurredAt := timestampNanos (days day)
  eventId := eventId
  startedAt := days day
  now := days day

def valueAfter (name : SlotName) (operations : List Operation) : Option (Option Chars) :=
  (run (perform asStored) (Database.empty []) operations).map fun db =>
    (resolveSlot db name).map BeliefSlot.value

/-- The event that was current when the slot was forgotten expires, and the slot is restored
from the older one. -/
theorem retention_restores_forgotten :
    valueAfter teaSlot.name [ .append (appendOn 0 "first" "alice" "tea" "green" .episodic .system),
        .append (appendOn 0 "second" "alice" "tea" "black" .working .explicitUser),
        .forget teaSlot.name .soft "unused" (days 1)] = some none ∧
    valueAfter teaSlot.name [ .append (appendOn 0 "first" "alice" "tea" "green" .episodic .system),
        .append (appendOn 0 "second" "alice" "tea" "black" .working .explicitUser),
        .forget teaSlot.name .soft "unused" (days 1),
        .retention (days 3)] = some (some "green".toList) := by
  decide +kernel

end Forgotten

end Asterel.Postgres
