import Asterel.Memory.Liveness

/-!
# Recall and slot resolution

Recall decides from the visibility of a unit, the status of its slot and the ledger whether the
unit is live; slot resolution from the status of the slot alone, while there is a slot row.
The invariant says for each unit what the two readers need to agree: a slot that is deleted
for good has a hidden unit, and an active slot that is not secret has a visible one with its
value.
-/

namespace Asterel.Postgres

open Library List Option KeyedTable
open Library.Transitions
open Asterel.Memory

variable {scan : (ρ : Type) → List ρ → List ρ} {db next : Database} {name : SlotName}
  {row : UnitRow} {slot : SlotRow}

section Agreement

/-- Recall and slot resolution agree on which memories are live. -/
structure Agree (db : Database) : Prop where
  dead : ∀ id row slot, db.units.find id = some row → db.slots.find row.name = some slot →
    slot.status ≠ .active → allowedForReplay (recallMetadata db row) = false
  live : ∀ name belief id row, resolveSlot db name = some belief → belief.privacyLevel ≠ .secret →
    db.units.find id = some row → row.name = name →
      allowedForReplay (recallMetadata db row) = true ∧ row.content = belief.value

/-- A slot, whether the ledger denies it, and its unit. -/
def Coherent (slot : Option SlotRow) (denied : Bool) (row : UnitRow) : Prop :=
  slot.elim (denied = true) fun slot =>
    (slot.status = .hardDeleted → denied = true ∨ row.visibility = .secret) ∧
      (slot.status = .active → slot.privacyLevel ≠ .secret →
        denied = false ∧ row.visibility ≠ .secret ∧ row.content = slot.value)

/-- The invariant, but for the units of slots that retention pruning has still to restore. -/
structure SoundBut (pending : List SlotName) (db : Database) : Prop where
  ids : ∀ id row, db.units.find id = some row → id = unitIdOf row.name
  tombstones : ∀ name, HasStatus db name .tombstoned → denylisted db name = true
  coherent : ∀ id row, db.units.find id = some row → row.name ∉ pending →
    Coherent (db.slots.find row.name) (denylisted db row.name) row

/-- What every reachable state has when no operation breaks it. -/
def Sound (db : Database) : Prop := SoundBut [] db

theorem Sound.at (sound : Sound db) {id : Chars} (found : db.units.find id = some row) :
    Coherent (db.slots.find row.name) (denylisted db row.name) row :=
  sound.coherent id row found not_mem_nil

theorem allowedForReplay_recallMetadata (db : Database) (row : UnitRow) :
    allowedForReplay (recallMetadata db row) =
      (!denylisted db row.name && (db.slots.find row.name).all (fun slot =>
        slot.status ≠ .softDeleted && slot.status ≠ .tombstoned) && row.visibility ≠ .secret) := by
  rw [allowedForReplay, recallMetadata]
  cases denylisted db row.name with
  | true => rfl
  | false =>
    cases db.slots.find row.name with
    | none => rfl
    | some slot =>
      rw [map_some]
      cases shape : slot.status <;> simp [shape]

theorem Sound.agree (sound : Sound db) : Agree db := by
  constructor
  · intro id row slot found foundSlot inactive
    have coherent := sound.at found
    rw [foundSlot] at coherent
    rw [allowedForReplay_recallMetadata, foundSlot]
    cases shape : slot.status with
    | active => exact absurd shape inactive
    | softDeleted => simp [shape]
    | tombstoned => simp [shape]
    | hardDeleted => rcases coherent.1 shape with denied | hidden <;> simp [*]
  · rintro name belief id row resolved visible found rfl
    have coherent := sound.at found
    rw [resolveSlot] at resolved
    rw [allowedForReplay_recallMetadata]
    cases foundSlot : db.slots.find row.name with
    | none =>
      rw [foundSlot] at coherent resolved
      have denied : denylisted db row.name = true := coherent
      simp [denied] at resolved
    | some slot =>
      rw [foundSlot] at coherent resolved
      simp only at resolved
      split at resolved
      · rename_i active
        cases resolved
        obtain ⟨denied, shown, same⟩ := coherent.2 active visible
        exact ⟨by simp [denied, active, shown], same⟩
      · cases resolved

end Agreement

section Append

variable {event : EventRow} {now : Timestamp}

theorem denylisted_congr (same : next.ledger = db.ledger) (name : SlotName) :
    denylisted next name = denylisted db name := by
  rw [denylisted, same, denylisted]

/-- No unit of another slot has the unit id of the slot. -/
def OwnUnit (db : Database) (name : SlotName) : Prop :=
  ∀ row, db.units.find (unitIdOf name) = some row → row.name = name

/-- A value that is secret, or whose slot the ledger does not deny. -/
def Showable (db : Database) (name : SlotName) (privacyLevel : PrivacyLevel) : Prop :=
  privacyLevel = .secret ∨ denylisted db name = false

theorem unitNameOr_of_ownUnit (own : OwnUnit db name) : unitNameOr db name = name := by
  rw [unitNameOr]
  cases found : db.units.find (unitIdOf name) with
  | none => rfl
  | some row => exact own row found

/-- The slot that an event wins, and the unit with its value. -/
theorem coherent_won (carries : Carries row event.name event.value event.privacyLevel)
    (showable : Showable db event.name event.privacyLevel) :
    Coherent (some (slotOf event now)) (denylisted db event.name) row := by
  refine ⟨nofun, fun _ visible => ?_⟩
  have shown : event.privacyLevel ≠ .secret := visible
  exact ⟨showable.resolve_left shown, carries.visibility.symm ▸ shown, carries.content⟩

theorem SoundBut.wins {pending : List SlotName}
    (sound : SoundBut (event.name :: pending) db) (wins : Wins db next event now)
    (own : OwnUnit db event.name) (showable : Showable db event.name event.privacyLevel) :
    SoundBut pending next := by
  have denied := denylisted_congr wins.ledger
  obtain ⟨won, foundWon, carries⟩ := wins.unit
  rw [unitNameOr_of_ownUnit own] at carries
  have others : ∀ id, id ≠ unitIdOf event.name → ∀ row, next.units.find id = some row →
      db.units.find id = some row ∧ row.name ≠ event.name := by
    intro id other row found
    rw [wins.units id other] at found
    exact ⟨found, fun same => other (same ▸ sound.ids id row found)⟩
  constructor
  · intro id row found
    by_cases here : id = unitIdOf event.name
    · subst here
      cases foundWon.symm.trans found
      rw [carries.name]
    · exact sound.ids id row (others id here row found).1
  · rintro name ⟨slot, found, tombstoned⟩
    rw [denied]
    rw [wins.slots] at found
    split at found
    · cases found
      cases tombstoned
    · exact sound.tombstones name ⟨slot, found, tombstoned⟩
  · intro id row found settled
    rw [denied]
    by_cases here : id = unitIdOf event.name
    · subst here
      cases foundWon.symm.trans found
      rw [wins.slots, carries.name, if_pos rfl]
      exact coherent_won carries showable
    · obtain ⟨before, other⟩ := others id here row found
      rw [wins.slots, if_neg other]
      exact sound.coherent id row before (not_mem_cons_of_ne_of_not_mem other settled)

theorem Sound.wins (sound : Sound db) (wins : Wins db next event now) (own : OwnUnit db event.name)
    (showable : Showable db event.name event.privacyLevel) : Sound next := by
  have weaker : SoundBut [event.name] db :=
    ⟨sound.ids, sound.tombstones, fun _ _ found _ => sound.at found⟩
  exact weaker.wins wins own showable

end Append

section Forget

variable {forgotten : SlotName} {mode : ForgetMode} {freshId : String} {now : Timestamp}

theorem denylisted_forgetSlot (name : SlotName) :
    denylisted (forgetSlot db forgotten mode freshId now) name =
      (denylisted db name || decide (name = forgotten)) := by
  rw [denylisted, ledger_forgetSlot, any_append, denylisted]
  congr 1
  rw [any_cons, any_nil, Bool.or_false, Bool.eq_iff_iff]
  simp only [Bool.and_eq_true, decide_eq_true_eq]
  constructor
  · rintro ⟨⟨entity, key⟩, _⟩
    exact Prod.ext entity.symm key.symm
  · rintro rfl
    exact ⟨⟨rfl, rfl⟩, LedgerPhase.noConfusion⟩

theorem coherent_denied {slot : Option SlotRow} (inactive : ∀ found ∈ slot, found.status ≠ .active) :
    Coherent slot true row := by
  cases slot with
  | none => rfl
  | some slot => exact ⟨fun _ => .inl rfl, fun active => absurd active (inactive slot rfl)⟩

/-- What a forget leaves of the units and slots of other names. -/
theorem Sound.forgets (sound : Sound db)
    (units : ∀ id row, (forgetSlot db forgotten mode freshId now).units.find id = some row →
      db.units.find id = some row ∧ (row.name ≠ forgotten →
        (forgetSlot db forgotten mode freshId now).slots.find row.name = db.slots.find row.name) ∨
      id = unitIdOf forgotten ∧ row.name = forgotten)
    (slots : ∀ name, name ≠ forgotten →
      HasStatus (forgetSlot db forgotten mode freshId now) name .tombstoned →
        HasStatus db name .tombstoned) :
    Sound (forgetSlot db forgotten mode freshId now) := by
  have atForgotten : ∀ row : UnitRow, row.name = forgotten →
      Coherent ((forgetSlot db forgotten mode freshId now).slots.find row.name)
        (denylisted (forgetSlot db forgotten mode freshId now) row.name) row := by
    rintro row rfl
    rw [denylisted_forgetSlot, decide_eq_true rfl, Bool.or_true]
    exact coherent_denied fun slot found active =>
      (live_forgetSlot ⟨slot, found, active⟩).2 rfl
  constructor
  · intro id row found
    rcases units id row found with ⟨before, _⟩ | ⟨same, named⟩
    · exact sound.ids id row before
    · rw [named, same]
  · intro name tombstoned
    rw [denylisted_forgetSlot]
    by_cases here : name = forgotten
    · simp [here]
    · rw [sound.tombstones name (slots name here tombstoned), Bool.true_or]
  · intro id row found _
    by_cases here : row.name = forgotten
    · exact atForgotten row here
    · rcases units id row found with ⟨before, kept⟩ | ⟨_, named⟩
      · rw [denylisted_forgetSlot, decide_eq_false here, Bool.or_false, kept here]
        exact sound.at before
      · exact absurd named here

theorem find_units_softDelete (db : Database) (name : SlotName) (now : Timestamp) (id : Chars) :
    (applySoftDelete db name now).units.find id =
      (db.units.find id).map fun row => if id = unitIdOf name then row.hidden now else row :=
  find_updateWhere_of (fun _ => UnitRow.unitId_hidden ..) fun row same => by
    rw [same, if_congr decide_eq_true_iff rfl rfl]

theorem Sound.softDelete (sound : Sound db) (own : OwnUnit db forgotten) :
    Sound (forgetSlot db forgotten .soft freshId now) := by
  refine sound.forgets ?_ ?_
  · intro id row found
    have updated := (find_units_softDelete (insertDeletionLedgerEntry db forgotten (.forget .soft))
      forgotten now id).symm.trans found
    obtain ⟨old, before, same⟩ := map_eq_some_iff.mp updated
    split at same
    · rename_i here
      subst here same
      exact .inr ⟨rfl, own old before⟩
    · subst same
      refine .inl ⟨before, fun other => ?_⟩
      refine (find_slots_softDelete (insertDeletionLedgerEntry db forgotten (.forget .soft))
        forgotten now _).trans ?_
      simp only [if_neg other]
      exact Option.map_id'
  · rintro name other ⟨slot, found, tombstoned⟩
    have updated := (find_slots_softDelete (insertDeletionLedgerEntry db forgotten (.forget .soft))
      forgotten now name).symm.trans found
    obtain ⟨old, before, same⟩ := map_eq_some_iff.mp updated
    rw [if_neg other] at same
    exact ⟨old, before, same ▸ tombstoned⟩

theorem find_units_hardDelete (db : Database) (name : SlotName) (id : Chars) :
    (applyHardDelete db name).units.find id =
      (db.units.find id).filter fun row => !decide (row.name ∈ lineageOf db.derivations name) :=
  find_deleteWhere ..

/-- Rows that a hard deletion leaves have names outside of the lineage. -/
theorem find_slots_hardDelete_of {name other : SlotName}
    (outside : other ∉ lineageOf db.derivations name) :
    (applyHardDelete db name).slots.find other = db.slots.find other := by
  rw [find_slots_hardDelete]
  cases db.slots.find other with
  | none => rfl
  | some slot => rw [filter_some, if_pos (decide_eq_true outside)]

theorem Sound.hardDelete (sound : Sound db) : Sound (forgetSlot db forgotten .hard freshId now) := by
  refine sound.forgets ?_ ?_
  · intro id row found
    have filtered := (find_units_hardDelete (insertDeletionLedgerEntry db forgotten (.forget .hard))
      forgotten id).symm.trans found
    obtain ⟨before, outside⟩ := filter_eq_some_iff.mp filtered
    refine .inl ⟨before, fun _ => ?_⟩
    exact find_slots_hardDelete_of (by simpa using outside)
  · rintro name _ ⟨slot, found, tombstoned⟩
    have filtered := (find_slots_hardDelete (insertDeletionLedgerEntry db forgotten (.forget .hard))
      forgotten name).symm.trans found
    exact ⟨slot, (filter_eq_some_iff.mp filtered).1, tombstoned⟩

theorem Sound.tombstone (sound : Sound db) :
    Sound (forgetSlot db forgotten .tombstone freshId now) := by
  have written := find_upsertBeliefSlot (applyHardDelete
    (insertDeletionLedgerEntry db forgotten (.forget .tombstone)) forgotten)
    (tombstoneOf forgotten freshId now)
  refine sound.forgets ?_ ?_
  · intro id row found
    have remaining := (find_deleteWhere _ id _).symm.trans found
    have filtered := (find_units_hardDelete
      (insertDeletionLedgerEntry db forgotten (.forget .tombstone)) forgotten id).symm.trans
        (filter_eq_some_iff.mp remaining).1
    obtain ⟨before, outside⟩ := filter_eq_some_iff.mp filtered
    refine .inl ⟨before, fun other => ?_⟩
    refine (written row.name).trans ((if_neg other).trans ?_)
    exact find_slots_hardDelete_of (by simpa using outside)
  · rintro name other ⟨slot, found, tombstoned⟩
    have before := ((written name).trans (if_neg other)).symm.trans found
    have filtered := (find_slots_hardDelete
      (insertDeletionLedgerEntry db forgotten (.forget .tombstone)) forgotten name).symm.trans before
    exact ⟨slot, (filter_eq_some_iff.mp filtered).1, tombstoned⟩

end Forget

section Lifecycle

variable {config : MemoryConfig} {clock : PassClock}

theorem Sound.onlyUnit (sound : Sound db) {id : Chars} (found : db.units.find id = some row) :
    OnlyUnit db row.name (some row) := by
  intro other unit
  constructor
  · rintro ⟨foundOther, same⟩
    have sameId : other = id := by
      rw [sound.ids other unit foundOther, sound.ids id row found, same]
    subst sameId
    cases found.symm.trans foundOther
    exact ⟨rfl, (find_key found).symm⟩
  · rintro ⟨⟨⟩, rfl⟩
    exact ⟨(find_key found).symm ▸ found, rfl⟩

/-- Whether a slot whose unit stays is deleted for good by a layer that is cleaned up. -/
def hardDeletedByLayer (config : MemoryConfig) (clock : PassClock) (row : UnitRow) (slot : SlotRow) :
    Bool :=
  layerRetentionDays config row.layer ≠ 0 &&
    (slot.status = .softDeleted && slot.updatedAt < layerCutoff config clock row.layer ||
      slot.status = .active && expiredBy clock.now row &&
        clock.now < layerCutoff config clock row.layer)

/-- A unit stays visible only with a slot that no layer deletes for good. -/
def StaysHidden (db : Database) (pass : Pass) : Prop :=
  ∀ id row slot, db.units.find id = some row → db.slots.find row.name = some slot →
    lifecyclePruningDisabled pass.config = true ∨
    expiredBy (pass.clock.now - ttlGrace) row = true ∨
    denylisted db row.name = true ∨ row.visibility = .secret ∨
    hardDeletedByLayer pass.config pass.clock row slot = false

theorem slotPruned_kept (kept : expiredBy (clock.now - ttlGrace) row = false) (slot : SlotRow) :
    slotPruned config clock (some row) slot =
      slotCleaned config clock row.layer (some (qualityPruned clock.now row))
        (slotExpired clock.now (some row) slot) := by
  have grace : slotGraceOver clock.now (clock.now - ttlGrace) (some row)
      (slotExpired clock.now (some row) slot) = slotExpired clock.now (some row) slot := by
    simp [slotGraceOver, kept]
  rw [slotPruned, grace, filter_some, if_pos (by simp [kept]), map_some, layersCleaned,
    elim_some, (sameMemory_qualityPruned clock.now row).layer]

/-- What a pass makes of a slot whose unit stays. -/
theorem slotPruned_cases (kept : expiredBy (clock.now - ttlGrace) row = false) (slot : SlotRow) :
    slotPruned config clock (some row) slot = some slot ∨
      slotPruned config clock (some row) slot = none ∧ slot.status = .tombstoned ∨
      (∃ stamp, slotPruned config clock (some row) slot = some (slot.marked .softDeleted stamp)) ∨
      (∃ stamp, slotPruned config clock (some row) slot = some (slot.marked .hardDeleted stamp)) ∧
        hardDeletedByLayer config clock row slot = true := by
  have ofThis : (some (qualityPruned clock.now row)).any (ofLayer row.layer) = true := by
    simp [ofLayer, (sameMemory_qualityPruned clock.now row).layer]
  rw [slotPruned_kept kept, slotCleaned, ofThis, Bool.not_true, Bool.or_false]
  by_cases off : layerRetentionDays config row.layer = 0
  · rw [if_pos (decide_eq_true off), slotExpired]
    split
    · exact .inr (.inr (.inl ⟨_, rfl⟩))
    · exact .inl rfl
  · rw [if_neg (by simpa using off), slotExpired]
    cases shape : slot.status with
    | active =>
      cases due : expiredBy clock.now row with
      | false => exact .inl (by simp [deletedStatuses, shape, due])
      | true =>
        by_cases early : clock.now < layerCutoff config clock row.layer
        · refine .inr (.inr (.inr ⟨⟨layerCutoff config clock row.layer, ?_⟩, ?_⟩))
          · simp [deletedStatuses, due, SlotRow.marked, early]
          · simp [hardDeletedByLayer, off, shape, due, early]
        · refine .inr (.inr (.inl ⟨clock.now, ?_⟩))
          simp [deletedStatuses, due, SlotRow.marked, early]
    | softDeleted =>
      by_cases old : slot.updatedAt < layerCutoff config clock row.layer
      · refine .inr (.inr (.inr ⟨⟨layerCutoff config clock row.layer, ?_⟩, ?_⟩))
        · simp [deletedStatuses, shape, old]
        · simp [hardDeletedByLayer, off, shape, old]
      · exact .inl (by simp [deletedStatuses, shape, old])
    | hardDeleted => exact .inl (by simp [deletedStatuses, shape])
    | tombstoned =>
      by_cases old : slot.updatedAt < layerCutoff config clock row.layer
      · exact .inr (.inl ⟨by simp [deletedStatuses, shape, old], rfl⟩)
      · exact .inl (by simp [deletedStatuses, shape, old])

theorem Sound.pruned (sound : Sound db) {pass : Pass} (hidden : StaysHidden db pass)
    (ran : runPass db pass = some next) : Sound next := by
  have denied := denylisted_congr (ledger_pruned ran)
  cases enabled : lifecyclePruningDisabled pass.config with
  | true =>
    rw [runPass, pruneLifecycleRows, if_pos enabled] at ran
    cases ran
    exact sound
  | false =>
    constructor
    · intro id row found
      obtain ⟨old, before, pruned⟩ := find_units_runPass enabled ran found
      rw [(sameMemory_of_unitPruned pruned).name]
      exact sound.ids id old before
    · intro name tombstoned
      rw [denied]
      exact sound.tombstones name (hasStatus_pruned (by decide) (by decide) ran tombstoned)
    · intro id row found _
      obtain ⟨old, before, pruned⟩ := find_units_runPass enabled ran found
      have memory := sameMemory_of_unitPruned pruned
      have kept : expiredBy (pass.clock.now - ttlGrace) old = false := by
        rw [← Bool.not_eq_true]
        intro expired
        rw [unitPruned, if_pos expired] at pruned
        cases pruned
      have coherent := sound.at before
      rw [denied, memory.name, find_slots_pruned enabled ran (sound.onlyUnit before)]
      cases foundSlot : db.slots.find old.name with
      | none =>
        rw [foundSlot] at coherent
        exact coherent
      | some slot =>
        rw [foundSlot] at coherent
        rw [bind_some]
        rcases @slotPruned_cases old pass.config pass.clock kept slot with
          same | ⟨gone, tombstoned⟩ | ⟨stamp, soft⟩ | ⟨⟨stamp, hard⟩, byLayer⟩
        · rw [same]
          refine ⟨fun dead => ?_, fun active visible => ?_⟩
          · rw [memory.visibility]
            exact coherent.1 dead
          · rw [memory.visibility, memory.content]
            exact coherent.2 active visible
        · rw [gone]
          exact sound.tombstones old.name ⟨slot, foundSlot, tombstoned⟩
        · rw [soft]
          refine ⟨fun dead => ?_, fun active _ => ?_⟩
          · cases dead
          · cases active
        · rw [hard]
          refine ⟨fun _ => ?_, fun active _ => by cases active⟩
          rw [memory.visibility]
          rcases hidden id old slot before foundSlot with off | expired | deny | secret | left
          · rw [enabled] at off
            cases off
          · rw [kept] at expired
            cases expired
          · exact .inl deny
          · exact .inr secret
          · rw [byLayer] at left
            cases left

end Lifecycle

section Retention

variable {now : Timestamp} {pending names : List SlotName} {event : EventRow}

theorem find_units_restoreFrom (db : Database) (event : EventRow) (now : Timestamp) (id : Chars) :
    (restoreFrom db event now).units.find id = if id = unitIdOf event.name then
        some (((db.units.find id).map (restoredUnit event now).restoredOver).getD
          (restoredUnit event now))
      else db.units.find id :=
  find_upsert ..

/-- A slot that is restored is won by the event it is restored from. -/
theorem wins_restoreFrom (db : Database) (event : EventRow) (now : Timestamp) :
    Wins db (restoreFrom db event now) event now := by
  refine ⟨find_upsertBeliefSlot db (slotOf event now), fun id other => ?_, ?_, rfl⟩
  · rw [find_units_restoreFrom, if_neg other]
  · refine ⟨_, (find_units_restoreFrom db event now _).trans (if_pos rfl), ?_⟩
    rw [unitNameOr]
    cases db.units.find (unitIdOf event.name) <;> exact ⟨rfl, rfl, rfl⟩

/-- What retention pruning needs of the slots it is still to restore. -/
structure Mends (scan : (ρ : Type) → List ρ → List ρ) (pending : List SlotName) (db : Database) :
    Prop where
  own : ∀ name ∈ pending, ∀ event, bestFor scan db name = some event → OwnUnit db name
  showable : ∀ name ∈ pending, ∀ event, bestFor scan db name = some event →
    Showable db name event.privacyLevel
  apart : ∀ name ∈ pending, ∀ other ∈ pending, bestFor scan db name ≠ none →
    bestFor scan db other ≠ none → unitIdOf name = unitIdOf other → name = other

theorem bestFor_restoreWinner (db : Database) (name other : SlotName) :
    bestFor scan (restoreWinner scan now db name) other = bestFor scan db other := by
  rw [bestFor, retainedFor, events_restoreWinner]
  rfl

section

variable (listed : ∀ ρ rows, (scan ρ rows).Perm rows)
include listed

theorem SoundBut.restore
    (sound : SoundBut (name :: pending) db) (mends : Mends scan (name :: pending) db) :
    SoundBut pending (restoreWinner scan now db name) := by
  rw [restoreWinner_eq]
  cases best : bestFor scan db name with
  | some event =>
    have same := bestFor_name listed best
    subst same
    exact sound.wins (wins_restoreFrom db event now)
      (mends.own _ mem_cons_self event best) (mends.showable _ mem_cons_self event best)
  | none =>
    have units : ∀ id row, (deleteProjection db name).units.find id = some row →
        db.units.find id = some row ∧ row.name ≠ name := by
      intro id row found
      obtain ⟨before, other⟩ :=
        filter_eq_some_iff.mp ((find_deleteWhere ..).symm.trans found)
      exact ⟨before, by simpa using other⟩
    refine ⟨fun id row found => sound.ids id row (units id row found).1, sound.tombstones, ?_⟩
    intro id row found settled
    obtain ⟨before, other⟩ := units id row found
    exact sound.coherent id row before (not_mem_cons_of_ne_of_not_mem other settled)

theorem Mends.restore
    (mends : Mends scan (name :: pending) db) : Mends scan pending (restoreWinner scan now db name) := by
  have ledger := @ledger_restoreWinner scan db name now
  constructor
  · intro other member event best row found
    rw [bestFor_restoreWinner] at best
    have before := mends.own other (mem_cons_of_mem _ member) event best
    rw [restoreWinner_eq] at found
    cases restored : bestFor scan db name with
    | none =>
      rw [restored] at found
      exact before row (filter_eq_some_iff.mp ((find_deleteWhere ..).symm.trans found)).1
    | some winner =>
      rw [restored] at found
      have wins := wins_restoreFrom db winner now
      have same := bestFor_name listed restored
      by_cases here : unitIdOf other = unitIdOf winner.name
      · have sameName : other = name := by
          refine mends.apart other (mem_cons_of_mem _ member) name mem_cons_self ?_ ?_
            (same ▸ here)
          · rw [best]
            exact some_ne_none event
          · rw [restored]
            exact some_ne_none winner
        obtain ⟨unit, foundUnit, carries⟩ := wins.unit
        rw [here] at found
        cases foundUnit.symm.trans found
        rw [carries.name, same, ← sameName, unitNameOr_of_ownUnit before]
      · exact before row ((wins.units _ here).symm.trans found)
  · intro other member event best
    rw [bestFor_restoreWinner] at best
    rw [Showable, denylisted_congr ledger]
    exact mends.showable other (mem_cons_of_mem _ member) event best
  · intro first memberFirst second memberSecond someFirst someSecond same
    rw [bestFor_restoreWinner] at someFirst someSecond
    exact mends.apart first (mem_cons_of_mem _ memberFirst) second
      (mem_cons_of_mem _ memberSecond) someFirst someSecond same

theorem SoundBut.restoreAll (sound : SoundBut names db) (mends : Mends scan names db) :
    Sound (names.foldl (restoreWinner scan now) db) := by
  induction names generalizing db with
  | nil => exact sound
  | cons first rest ih =>
    exact ih (sound.restore listed mends) (mends.restore listed)

end

/-- Deleting units, and events that no reader looks at. -/
theorem Sound.fewerUnits (sound : Sound db) (slots : next.slots = db.slots)
    (denied : ∀ name, denylisted next name = denylisted db name)
    (units : ∀ id row, next.units.find id = some row → db.units.find id = some row) : Sound next := by
  refine ⟨fun id row found => sound.ids id row (units id row found), ?_, ?_⟩
  · intro name tombstoned
    rw [HasStatus, slots] at tombstoned
    rw [denied]
    exact sound.tombstones name tombstoned
  · intro id row found _
    rw [denied, slots]
    exact sound.at (units id row found)

/-- Slots whose winning event expires. -/
def lostAt (scan : (ρ : Type) → List ρ → List ρ) (now : Timestamp) (db : Database) : List SlotName :=
  lostWinners scan ((db.events.rows.filter (eventExpired now)).map EventRow.eventId) db

theorem denylisted_retention (db : Database) (retained name : SlotName) :
    denylisted (insertDeletionLedgerEntry db retained .retention) name = denylisted db name := by
  rw [denylisted, insertDeletionLedgerEntry, any_append, denylisted]
  simp

/-- Deleting the slots to be restored leaves the others with their units. -/
theorem Sound.deleteLost (listed : ∀ ρ rows, (scan ρ rows).Perm rows) (sound : Sound db)
    (eventIds : List String) :
    SoundBut (lostWinners scan eventIds db)
      { db with slots := db.slots.deleteWhere fun slot : SlotRow => slot.winnerEventId ∈ eventIds } := by
  refine ⟨sound.ids, fun name tombstoned => sound.tombstones name (hasStatus_deleteWhere tombstoned), ?_⟩
  intro id row found settled
  have kept : (db.slots.deleteWhere fun slot : SlotRow => slot.winnerEventId ∈ eventIds).find row.name =
      db.slots.find row.name := by
    rw [find_deleteWhere]
    cases foundSlot : db.slots.find row.name with
    | none => rfl
    | some slot =>
      have stays : slot.winnerEventId ∉ eventIds := fun lost =>
        settled ((mem_lostWinners listed).mpr ⟨slot, foundSlot, lost⟩)
      rw [filter_some, if_pos (by simp [stays])]
  have coherent := sound.at found
  rw [← kept] at coherent
  exact coherent

theorem Sound.retention (listed : ∀ ρ rows, (scan ρ rows).Perm rows) (sound : Sound db)
    (mends : Mends scan (lostAt scan now db) (pruneEvents now db)) :
    Sound (pruneExpiredRetention scan now db) := by
  have pruned : Sound (pruneEvents now db) :=
    sound.fewerUnits rfl (fun _ => rfl) fun _ _ found => found
  have purge : ∀ {state : Database}, Sound state →
      Sound { state with units := state.units.deleteWhere (unitExpired now) } := by
    intro state settled
    refine settled.fewerUnits rfl (fun _ => rfl) fun id row found => ?_
    exact (filter_eq_some_iff.mp ((find_deleteWhere ..).symm.trans found)).1
  rw [pruneExpiredRetention]
  by_cases none : (db.events.rows.filter (eventExpired now)).map EventRow.eventId = []
  · simp only [none, if_true]
    exact purge pruned
  · simp only [none, if_false]
    have lost := pruned.deleteLost listed
      ((db.events.rows.filter (eventExpired now)).map EventRow.eventId)
    have restored : Sound (pruneWinners scan
        ((db.events.rows.filter (eventExpired now)).map EventRow.eventId) now (pruneEvents now db)) :=
      lost.restoreAll listed ⟨mends.own, mends.showable, mends.apart⟩
    exact purge (restored.fewerUnits rfl (denylisted_retention _ _) fun _ _ found => found)

end Retention

section Runs

/-- What an operation must meet for both readers to agree after it: no slot that the ledger
denies is learned again, no slot shares the unit of another, and no layer deletes a slot for
good whose unit is still visible. -/
def Keeps (scan : (ρ : Type) → List ρ → List ρ) (db : Database) : Operation → Prop
  | .append call => ∀ input, normalizeInput call.input = .ok input →
      (replacement db input call).1 = true → OwnUnit db (input.entityId, input.slotKey) ∧
          Showable db (input.entityId, input.slotKey) input.privacyLevel
  | .forget name .soft _ _ => OwnUnit db name
  | .forget _ _ _ _ => True
  | .lifecycle pass => StaysHidden db pass
  | .retention now => Mends scan (lostAt scan now db) (pruneEvents now db)

theorem Sound.perform (listed : ∀ ρ rows, (scan ρ rows).Perm rows) {operation : Operation}
    (sound : Sound db) (keeps : Keeps scan db operation)
    (done : perform scan db operation = some next) : Sound next := by
  cases operation with
  | append call =>
    obtain ⟨event, appended⟩ := perform_append done
    obtain ⟨input, normalized, rfl, ⟨_, same⟩ | ⟨replaces, wins⟩⟩ := appendEvent_ok appended
    · rw [same]
      exact sound.fewerUnits rfl (fun _ => rfl) fun _ _ found => found
    · obtain ⟨own, showable⟩ := keeps input normalized replaces
      exact sound.wins wins own showable
  | forget name mode freshId now =>
    cases done
    cases mode with
    | soft => exact sound.softDelete keeps
    | hard => exact sound.hardDelete
    | tombstone => exact sound.tombstone
  | lifecycle pass => exact sound.pruned keeps done
  | retention now =>
    cases done
    exact sound.retention listed keeps

theorem sound_empty (derivations : List DerivationRow) : Sound (Database.empty derivations) := by
  have units : ∀ id, (Database.empty derivations).units.find id = none := find_empty
  have slots : ∀ name, (Database.empty derivations).slots.find name = none := find_empty
  refine ⟨fun id row found => ?_, fun name ⟨slot, found, _⟩ => ?_, fun id row found _ => ?_⟩
  · cases (units id).symm.trans found
  · cases (slots name).symm.trans found
  · cases (units id).symm.trans found

/-- In every state of a run whose operations keep the two readers together, they agree. -/
theorem readers_agree (listed : ∀ ρ rows, (scan ρ rows).Perm rows) (derivations : List DerivationRow)
    (operations : List Operation)
    (guarded : Guarded (perform scan) (Keeps scan) (Database.empty derivations) operations) :
    Always (perform scan) Agree (Database.empty derivations) operations :=
  always_of_guarded Sound.agree (Sound.perform listed) (sound_empty derivations) guarded

theorem tea_readers_agree :
    Always (perform asStored) Agree (Database.empty [])
      [.append (appendOn 0 "first" "alice" "tea" "green" .semantic .system),
        .forget teaSlot.name .hard "unused" (days 1)] := by
  refine readers_agree (fun _ _ => .refl _) [] _ ⟨?_, fun _ _ => ⟨trivial, fun _ _ => trivial⟩⟩
  intro input _ _
  refine ⟨fun row found => ?_, .inr rfl⟩
  cases (find_empty _).symm.trans found

structure Readers where
  resolved : Option Chars
  status : Option SlotStatus
  allowed : Option Bool
  content : Option Chars
  deriving DecidableEq

/-- What the two readers make of a slot and its unit. -/
def readersAfter (name : SlotName) (operations : List Operation) : Option Readers :=
  (run (perform asStored) (Database.empty []) operations).map fun db =>
    { resolved := (resolveSlot db name).map BeliefSlot.value
      status := (db.slots.find name).map SlotRow.status
      allowed := ((db.units.find (unitIdOf name)).filter fun row => row.name = name).map fun row =>
        allowedForReplay (recallMetadata db row)
      content := ((db.units.find (unitIdOf name)).filter fun row => row.name = name).map
        UnitRow.content }

/-- A slot that is learned again stays denied, a slot that a layer deletes for good keeps its
visible unit, and two slots with one unit id share its value. -/
theorem readers_disagree :
    readersAfter teaSlot.name [
        .append (appendOn 0 "first" "alice" "tea" "green" .semantic .system),
        .forget teaSlot.name .soft "unused" (days 1),
        .append (appendOn 2 "second" "alice" "tea" "black" .semantic .system)] =
      some ⟨some "black".toList, some .active, some false, some "black".toList⟩ ∧
    readersAfter teaSlot.name [ .append (appendOn 0 "first" "alice" "tea" "green" .working .system),
        .lifecycle (passOn 3 1), .lifecycle (passOn 5 1)] =
      some ⟨none, some .hardDeleted, some true, some "green".toList⟩ ∧
    readersAfter ("alice::tea".toList, "time".toList) [
        .append (appendOn 0 "first" "alice::tea" "time" "noon" .semantic .system),
        .append (appendOn 1 "second" "alice" "tea::time" "night" .semantic .system)] =
      some ⟨some "noon".toList, some .active, some true, some "night".toList⟩ := by
  decide +kernel

end Runs

end Asterel.Postgres
