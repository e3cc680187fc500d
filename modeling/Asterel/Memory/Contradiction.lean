import Asterel.Memory.ArrivalOrder
import Asterel.Memory.Maintenance

/-!
# The penalty for contradictions

An append that supersedes an active winner charges the unit of the slot, whatever value
the superseded event had, and then writes the new value into the unit that it has
charged. The unit keeps the largest charge until it is purged.

No charge is large enough for a lifecycle pass to demote the unit for it.
-/

namespace Asterel.Postgres

open Library Library.Contest Library.Transitions
open Asterel.Memory

/-- What happens to one slot and its unit. -/
inductive SlotStep (name : SlotName) where
  | append (arrival : Arrival name)
  | lifecycle (pass : Pass)

section Charges

variable {name : SlotName} {db next : Database} {arrival : Arrival name} {step : SlotStep name}
variable {event : EventRow} {old : Option UnitRow} {now : Timestamp} {row : UnitRow}

def performStep (db : Database) : SlotStep name → Option Database
  | .append arrival => appendStep db arrival
  | .lifecycle pass => runPass db pass

/-- The charge of an append that supersedes a winner. -/
def Arrival.charge (arrival : Arrival name) : ℚ :=
  contradictionPenalty arrival.event.confidence arrival.event.importance

/-- The unit of the slot carries no penalty. -/
def Unpunished (name : SlotName) (db : Database) : Prop :=
  ∀ row, db.units.find (unitIdOf name) = some row → row.contradictionPenalty = 0

/-- Whenever a pass comes, its rule on contradictions does not demote the unit. -/
def Undemoted (name : SlotName) (db : Database) : Prop :=
  ∀ row, db.units.find (unitIdOf name) = some row → ∀ now,
    highContradiction (if lowConfidence row then row.demoted .demoted now else row) = false

/-- The append supersedes an active winner while the unit of the slot stands. -/
structure Charges (db : Database) (arrival : Arrival name) : Prop where
  superseded : (replacement db arrival.fact.input arrival.call).2 ≠ none
  unit : db.units.find (unitIdOf name) ≠ none

/-- An append that goes through charges nothing. -/
def Spares (db : Database) : SlotStep name → Prop
  | .append arrival => (appendStep db arrival).isSome → ¬ Charges db arrival
  | .lifecycle _ => True

/-- The unit holds the new value and carries the charge of its append. -/
def CarriesCharge (db : Database) (arrival : Arrival name) : Prop :=
  ∃ row, db.units.find (unitIdOf name) = some row ∧ row.content = arrival.fact.input.value ∧
    arrival.charge ≤ row.contradictionPenalty

theorem clampUnit_mem (score : ℚ) : 0 ≤ clampUnit score ∧ clampUnit score ≤ 1 :=
  ⟨le_max_left _ _, max_le zero_le_one (min_le_right _ _)⟩

/-- A charge lies between 0.12 and 0.3. -/
theorem contradictionPenalty_mem (confidence importance : ℚ) :
    12 / 100 ≤ contradictionPenalty confidence importance ∧
      contradictionPenalty confidence importance ≤ 3 / 10 := by
  obtain ⟨low, high⟩ := clampUnit_mem confidence
  obtain ⟨low', high'⟩ := clampUnit_mem importance
  rw [contradictionPenalty]
  constructor
  · refine le_max_of_le_right (le_min ?_ (by norm_num))
    linarith
  · refine max_le (by norm_num) (min_le_of_left_le ?_)
    linarith

/-- What an append of the slot leaves in the unit. -/
theorem unit_appendStep (done : appendStep db arrival = some next) :
    (replacement db arrival.fact.input arrival.call).1 = false ∧ next.units = db.units ∨
      (replacement db arrival.fact.input arrival.call).1 = true ∧
        ∃ row, next.units.find (unitIdOf name) = some row ∧ WonUnit (db.units.find (unitIdOf name))
            (eventRow arrival.fact.input arrival.call
              (replacement db arrival.fact.input arrival.call).2) arrival.now row := by
  obtain ⟨event, appended⟩ := appendStep_ok done
  obtain ⟨input, normalized, rfl, written⟩ := unit_appended appended
  cases Except.ok.inj (arrival.fact.normalized.symm.trans normalized)
  have ofSlot : (eventRow arrival.fact.input arrival.call
      (replacement db arrival.fact.input arrival.call).2).name = name := arrival.fact.ofSlot
  rwa [ofSlot] at written

theorem replaced_of_superseded {input : MemoryEventInput} {call : AppendCall}
    (superseded : (replacement db input call).2 ≠ none) : (replacement db input call).1 = true := by
  rw [replacement, decideReplacement] at superseded ⊢
  split
  · rfl
  · rename_i incumbent active
    rw [active] at superseded
    by_contra kept
    exact superseded (if_neg kept)

/-- A unit that is charged has at least the charge, and at most the larger one. -/
theorem charge_eq (event : EventRow) (row : UnitRow) :
    (charge event row).contradictionPenalty =
      if event.supersedesEventId.isNone then row.contradictionPenalty
      else max row.contradictionPenalty (contradictionPenalty event.confidence event.importance) := by
  rw [charge]
  split
  · rfl
  · split
    case isTrue less => exact (max_eq_right less.le).symm
    case isFalse more => exact (max_eq_left (not_lt.mp more)).symm

/-- The unit is charged exactly when it stands and a winner is superseded. -/
theorem carries_charge_of_won (won : WonUnit old event now row)
    (unpaid : ∀ unit ∈ old, event.supersedesEventId = none →
      unit.contradictionPenalty < contradictionPenalty event.confidence event.importance) :
    contradictionPenalty event.confidence event.importance ≤ row.contradictionPenalty ↔
      event.supersedesEventId ≠ none ∧ old ≠ none := by
  have positive : 0 < contradictionPenalty event.confidence event.importance :=
    (by norm_num : (0 : ℚ) < 12 / 100).trans_le (contradictionPenalty_mem _ _).1
  rw [won.penalty]
  cases old with
  | none => simpa using positive
  | some unit =>
    rw [Option.map_some, Option.getD_some, charge_eq]
    cases superseded : event.supersedesEventId with
    | none => simpa using unpaid unit rfl superseded
    | some id => simp

theorem penalty_of_won
    (won : WonUnit old event now row) (unpunished : ∀ unit ∈ old, unit.contradictionPenalty = 0) :
    row.contradictionPenalty = 0 ↔ ¬ (event.supersedesEventId ≠ none ∧ old ≠ none) := by
  have positive : 0 < contradictionPenalty event.confidence event.importance :=
    (by norm_num : (0 : ℚ) < 12 / 100).trans_le (contradictionPenalty_mem _ _).1
  rw [won.penalty]
  cases old with
  | none => simp
  | some unit =>
    rw [Option.map_some, Option.getD_some, charge_eq, unpunished unit rfl]
    cases event.supersedesEventId with
    | none => simp
    | some id => simp [max_eq_right positive.le, positive.ne']

/-- A lifecycle pass leaves the penalty as it is. -/
theorem unit_runPass {pass : Pass} (ran : runPass db pass = some next) {id : Chars}
    (found : next.units.find id = some row) :
    ∃ old, db.units.find id = some old ∧ row.contradictionPenalty = old.contradictionPenalty := by
  cases enabled : lifecyclePruningDisabled pass.config with
  | true =>
    rw [runPass, pruneLifecycleRows, if_pos enabled] at ran
    cases ran
    exact ⟨row, found, rfl⟩
  | false =>
    obtain ⟨old, before, pruned⟩ := find_units_runPass enabled ran found
    exact ⟨old, before, (sameMemory_of_unitPruned pruned).contradictionPenalty⟩

/-- One step leaves the unit without penalty exactly when it charges nothing. -/
theorem unpunished_step_iff (unpunished : Unpunished name db) (done : performStep db step = some next) :
    Unpunished name next ↔ Spares db step := by
  cases step with
  | lifecycle pass =>
    refine iff_of_true (fun row found => ?_) trivial
    obtain ⟨old, before, same⟩ := unit_runPass done found
    rw [same]
    exact unpunished old before
  | append arrival =>
    have through : (appendStep db arrival).isSome = true := Option.isSome_of_eq_some done
    have charges : Spares db (.append arrival) ↔ ¬ Charges db arrival := ⟨fun spared => spared through,
      fun spared _ => spared⟩
    rw [charges]
    rcases unit_appendStep done with ⟨kept, same⟩ | ⟨replaced, row, found, won⟩
    · refine iff_of_true ?_ fun charged => ?_
      · rwa [Unpunished, same]
      · rw [replaced_of_superseded charged.superseded] at kept
        cases kept
    · have only : Unpunished name next ↔ row.contradictionPenalty = 0 := by
        rw [Unpunished, found]
        simp
      rw [only, penalty_of_won won fun unit before => unpunished unit before, not_iff_not]
      exact ⟨fun charged => ⟨charged.1, charged.2⟩, fun charged => ⟨charged.1, charged.2⟩⟩

/-- Penalties stay too small for a pass to act on them. -/
def Bounded (name : SlotName) (db : Database) : Prop :=
  ∀ row, db.units.find (unitIdOf name) = some row → row.contradictionPenalty ≤ 3 / 10

theorem undemoted_of_bounded (bounded : Bounded name db) : Undemoted name db := by
  intro row found now
  have below : ¬ 1 / 2 < row.contradictionPenalty := not_lt.mpr
    ((bounded row found).trans (by norm_num))
  have same : (if lowConfidence row then row.demoted .demoted now else row).contradictionPenalty =
      row.contradictionPenalty := by
    split <;> rfl
  rw [highContradiction, same, decide_eq_false below, Bool.and_false]

theorem bounded_step (bounded : Bounded name db) (done : performStep db step = some next) :
    Bounded name next := by
  intro row found
  cases step with
  | lifecycle pass =>
    obtain ⟨old, before, same⟩ := unit_runPass done found
    rw [same]
    exact bounded old before
  | append arrival =>
    rcases unit_appendStep done with ⟨_, same⟩ | ⟨_, unit, foundUnit, won⟩
    · exact bounded row (same ▸ found)
    · cases foundUnit.symm.trans found
      rw [won.penalty]
      cases before : db.units.find (unitIdOf name) with
      | none => exact (by norm_num : (0 : ℚ) ≤ 3 / 10)
      | some old =>
        rw [Option.map_some, Option.getD_some, charge_eq]
        split
        · exact bounded old before
        · exact max_le (bounded old before) (contradictionPenalty_mem _ _).2

/-- A value that replaces a different one carries the charge if and only if a unit was there
to be charged. -/
theorem carriesCharge_iff {slot winner : SlotRow} (found : db.slots.find name = some slot)
    (active : slot.status = .active) (done : appendStep db arrival = some next)
    (won : next.slots.find name = some winner)
    (wonBy : winner.value = arrival.fact.input.value) (different : slot.value ≠ winner.value) :
    CarriesCharge next arrival ↔ Charges db arrival := by
  have replaced : (replacement db arrival.fact.input arrival.call).1 = true := by
    obtain ⟨event, appended⟩ := appendStep_ok done
    obtain ⟨input, normalized, _, ⟨_, same⟩ | ⟨replaced, _⟩⟩ := appendEvent_ok appended
    · rw [same] at won
      cases found.symm.trans won
      exact absurd rfl different
    · cases Except.ok.inj (arrival.fact.normalized.symm.trans normalized)
      exact replaced
  have superseded : (replacement db arrival.fact.input arrival.call).2 ≠ none := by
    rw [replacement, arrival.fact.ofSlot, decideReplacement, found, Option.filter_some,
      if_pos (decide_eq_true active)] at replaced ⊢
    exact fun none => by cases (if_pos replaced).symm.trans none
  rcases unit_appendStep done with ⟨kept, _⟩ | ⟨_, row, foundUnit, wonUnit⟩
  · rw [replaced] at kept
    cases kept
  · have carries := carries_charge_of_won wonUnit fun _ _ none => absurd none superseded
    constructor
    · rintro ⟨unit, foundAgain, _, charged⟩
      cases foundUnit.symm.trans foundAgain
      obtain ⟨_, stood⟩ := carries.mp charged
      exact ⟨superseded, stood⟩
    · intro charged
      exact ⟨row, foundUnit, wonUnit.content, carries.mpr ⟨charged.superseded, charged.unit⟩⟩

/-- Along a run, with one value or many, the unit stays without penalty exactly as long as no
append supersedes a winner whose unit stands, and no pass demotes it for a contradiction.
A value that replaces a different one escapes the charge exactly when no unit stood. -/
theorem unpunished_iff (name : SlotName) :
    (∀ (db : Database) (steps : List (SlotStep name)), Unpunished name db →
      (Always performStep (Unpunished name) db steps ↔ Guarded performStep Spares db steps) ∧
        Always performStep (Undemoted name) db steps) ∧
      ∀ (db next : Database) (arrival : Arrival name) (slot winner : SlotRow),
        db.slots.find name = some slot → slot.status = .active →
        appendStep db arrival = some next → next.slots.find name = some winner →
        winner.value = arrival.fact.input.value → slot.value ≠ winner.value →
        (¬ CarriesCharge next arrival ↔ ¬ Charges db arrival) := by
  refine ⟨fun db steps unpunished => ⟨?_, ?_⟩, fun db next arrival slot winner found active done
    won wonBy different => not_congr (carriesCharge_iff found active done won wonBy different)⟩
  · refine always_iff_guarded_of_invariant ?_ (fun _ _ _ => trivial)
      (fun _ clean done => unpunished_step_iff clean done) trivial unpunished steps
    intro state step stopped
    cases step with
    | append arrival =>
      exact fun through => absurd stopped (Option.ne_none_iff_isSome.mpr through)
    | lifecycle pass => trivial
  · have bounded : Bounded name db := fun row found => by
      rw [unpunished row found]
      norm_num
    exact always_of_guarded undemoted_of_bounded (fun bounded _ done => bounded_step bounded done)
      bounded (guarded_true db steps)

def penaltyAfter (steps : List (SlotStep teaName)) : Option (Option (Chars × ℚ)) :=
  (run performStep (Database.empty []) steps).map fun db =>
    (db.units.find (unitIdOf teaName)).map fun row => (row.content, row.contradictionPenalty)

/-- One append and a pass. -/
theorem tea_unpunished : Always performStep (Unpunished teaName) (Database.empty [])
    [.append ⟨guessedGreen, 0, 0⟩, .lifecycle (passOn 1 20)] := by
  refine ((unpunished_iff teaName).1 (Database.empty []) _ fun _ found => ?_).1.mpr ?_
  · cases found
  · exact ⟨fun _ charged => charged.superseded rfl, fun _ _ => ⟨trivial, fun _ _ => trivial⟩⟩

/-- A guess that is repeated counts as a contradiction, and so does one that is replaced. -/
theorem repetition_is_charged :
    penaltyAfter [.append ⟨guessedGreen, 0, 0⟩] = some (some ("green".toList, 0)) ∧
      penaltyAfter [.append ⟨guessedGreen, 0, 0⟩,
          .append ⟨{ guessedGreen with eventId := "again" }, 0, 0⟩] =
        some (some ("green".toList, 22 / 100)) ∧
      penaltyAfter [.append ⟨guessedGreen, 0, 0⟩, .append ⟨guessedBlack, 0, 0⟩] =
        some (some ("black".toList, 22 / 100)) := by
  decide +kernel

end Charges

end Asterel.Postgres
