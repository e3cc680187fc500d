import Asterel.Memory.Lifecycle
import Mathlib.Tactic.Linarith

/-!
# Sequences of lifecycle passes

Passes at increasing times with no writes in between. A unit is purged a grace period after
its expiry, a slot a grace period after the pass that deleted it softly, and the statement
that deletes the slot for good looks for the unit: where the unit goes first, the slot stays
as it is. A demotion stamps the unit with the time of the pass, which the recency score and
the retention of secret units are computed from.

A pass that is rolled back leaves the database as it was; the passes of a sequence are those
that commit.
-/

namespace Asterel.Postgres

open Library List Option
open Library.Transitions
open Asterel.Memory

structure Pass where
  config : MemoryConfig
  clock : PassClock

def runPass (db : Database) (pass : Pass) : Option Database :=
  pruneLifecycleRows pass.config pass.clock db

def InOrder (passes : List Pass) : Prop :=
  passes.Pairwise fun first second => first.clock.now < second.clock.now

section Demotion

variable {now : Timestamp} {row : UnitRow}

/-- Whether a rule of a pass demotes the unit. -/
def demotes (now : Timestamp) (row : UnitRow) : Bool :=
  lowConfidence row || highContradiction row || staleTrend now row

/-- Whether a pass demotes the unit as a stale trend, after it has refreshed its score. -/
def staleDemotes (now : Timestamp) (row : UnitRow) : Bool :=
  staleTrend now row && !highContradiction row

/-- The score alone. -/
def rescored (now : Timestamp) (row : UnitRow) : UnitRow :=
  if recencyStale now row then row.refreshed now else row

variable (now : Timestamp) (row : UnitRow)

theorem rescored_cases :
    rescored now row = row ∧ recencyStale now row = false ∨
      rescored now row = row.refreshed now ∧ recencyStale now row = true := by
  rw [rescored]
  cases recencyStale now row with
  | false => exact .inl ⟨rfl, rfl⟩
  | true => exact .inr ⟨rfl, rfl⟩

theorem staleTrend_rescored :
    staleTrend now (rescored now row) = staleTrend now row := by
  rcases rescored_cases now row with ⟨same, _⟩ | ⟨same, _⟩ <;> rw [same]
  rfl

/-- A unit is demoted for low confidence or for contradiction and then scored, or it is
scored and then perhaps demoted as a stale trend. -/
theorem qualityPruned_cases :
    (lowConfidence row || highContradiction row) = true ∧
        qualityPruned now row = rescored now (row.demoted .demoted now) ∨
      lowConfidence row = false ∧ highContradiction row = false ∧ qualityPruned now row =
          if staleTrend now row then (rescored now row).demoted .candidate now
          else rescored now row := by
  have settle : ∀ base : UnitRow, (if staleTrend now (rescored now base) = true then
      (rescored now base).demoted .candidate now else rescored now base) =
        if staleTrend now base then (rescored now base).demoted .candidate now
        else rescored now base := by
    intro base
    rw [staleTrend_rescored]
  cases low : lowConfidence row with
  | true =>
    refine .inl ⟨rfl, ?_⟩
    simp only [qualityPruned, low, if_true]
    exact settle (row.demoted .demoted now)
  | false =>
    cases high : highContradiction row with
    | true =>
      refine .inl ⟨rfl, ?_⟩
      simp only [qualityPruned, low, high, Bool.false_eq_true, if_false, if_true]
      exact settle (row.demoted .demoted now)
    | false =>
      refine .inr ⟨rfl, rfl, ?_⟩
      simp only [qualityPruned, low, high, Bool.false_eq_true, if_false]
      exact settle row

/-- A pass stamps exactly the units it demotes. -/
theorem updatedAt_qualityPruned :
    (qualityPruned now row).updatedAt = if demotes now row then now else row.updatedAt := by
  have scored : ∀ base : UnitRow, (rescored now base).updatedAt = base.updatedAt := by
    intro base
    rcases rescored_cases now base with ⟨same, _⟩ | ⟨same, _⟩ <;> rw [same]
    rfl
  rcases qualityPruned_cases now row with ⟨demoted, same⟩ | ⟨low, high, same⟩
  · rw [same, scored, demotes, demoted]
    rfl
  · rw [same, demotes, low, high, Bool.false_or, Bool.false_or]
    cases staleTrend now row with
    | true => rfl
    | false => exact scored row

end Demotion

section Recency

variable {now later : Timestamp} {row : UnitRow}

theorem nextRecency_antitone (order : now ≤ later) (updatedAt : Timestamp) :
    nextRecency later updatedAt ≤ nextRecency now updatedAt := by
  have gap : ((now - updatedAt : Int) : ℚ) ≤ ((later - updatedAt : Int) : ℚ) := by
    exact_mod_cast Int.sub_le_sub_right order updatedAt
  refine max_le_max le_rfl ?_
  linarith [div_le_div_of_nonneg_right (div_le_div_of_nonneg_right
    (div_le_div_of_nonneg_right gap (by norm_num : (0 : ℚ) ≤ 1000000)) (by norm_num : (0 : ℚ) ≤ 86400))
    (by norm_num : (0 : ℚ) ≤ 90)]

/-- A unit as a pass leaves it: no demotion is due, and the score is not behind. -/
structure Settled (now : Timestamp) (row : UnitRow) : Prop where
  low : lowConfidence row = false
  high : highContradiction row = false
  score : nextRecency now row.updatedAt - 1 / 10000 ≤ row.recencyScore

theorem score_rescored (now : Timestamp) (row : UnitRow) :
    nextRecency now (rescored now row).updatedAt - 1 / 10000 ≤ (rescored now row).recencyScore := by
  rcases rescored_cases now row with ⟨same, fresh⟩ | ⟨same, _⟩ <;> rw [same]
  · rw [recencyStale, decide_eq_false_iff_not, not_lt] at fresh
    linarith [(abs_le.mp fresh).1]
  · exact sub_le_self _ (by norm_num)

theorem lowConfidence_rescored (now : Timestamp) (row : UnitRow) :
    lowConfidence (rescored now row) = lowConfidence row := by
  rcases rescored_cases now row with ⟨same, _⟩ | ⟨same, _⟩ <;> rw [same]
  rfl

theorem highContradiction_rescored (now : Timestamp) (row : UnitRow) :
    highContradiction (rescored now row) = highContradiction row := by
  rcases rescored_cases now row with ⟨same, _⟩ | ⟨same, _⟩ <;> rw [same]
  rfl

theorem settled_qualityPruned (kept : staleDemotes now row = false) :
    Settled now (qualityPruned now row) := by
  rcases qualityPruned_cases now row with ⟨_, same⟩ | ⟨low, high, same⟩
  · rw [same]
    exact ⟨lowConfidence_rescored now _, highContradiction_rescored now _, score_rescored now _⟩
  · have trend : staleTrend now row = false := by simpa [staleDemotes, high] using kept
    rw [same, trend, if_neg (by decide)]
    exact ⟨(lowConfidence_rescored now row).trans low,
      (highContradiction_rescored now row).trans high, score_rescored now row⟩

/-- A later pass does not raise the score of a settled unit. -/
theorem recencyScore_qualityPruned_le (settled : Settled now row) (order : now ≤ later)
    (kept : staleDemotes later row = false) :
    (qualityPruned later row).recencyScore ≤ row.recencyScore := by
  have trend : staleTrend later row = false := by simpa [staleDemotes, settled.high] using kept
  rcases qualityPruned_cases later row with ⟨demoted, _⟩ | ⟨_, _, same⟩
  · rw [settled.low, settled.high] at demoted
    cases demoted
  · rw [same, trend, if_neg (by decide)]
    rcases rescored_cases later row with ⟨same, _⟩ | ⟨same, stale⟩ <;> rw [same]
    rw [recencyStale, decide_eq_true_iff] at stale
    have behind := nextRecency_antitone order row.updatedAt
    change nextRecency later row.updatedAt ≤ row.recencyScore
    rcases lt_abs.mp stale with above | below
    · linarith
    · linarith [settled.score]

end Recency

section Fresher

variable {db mid final : Database} {id : Chars} {pass : Pass} {passes earlier later : List Pass}

/-- The pass runs, and does not demote the unit as a stale trend. -/
structure KeepsTrend (id : Chars) (db : Database) (pass : Pass) : Prop where
  enabled : lifecyclePruningDisabled pass.config = false
  trend : ∀ row, db.units.find id = some row → staleDemotes pass.clock.now row = false

/-- The pass runs, and no rule demotes the unit. -/
structure KeepsStatus (id : Chars) (db : Database) (pass : Pass) : Prop where
  enabled : lifecyclePruningDisabled pass.config = false
  status : ∀ row, db.units.find id = some row → demotes pass.clock.now row = false

theorem unitPruned_eq_some {config : MemoryConfig} {clock : PassClock} {row other : UnitRow}
    (kept : unitPruned config clock row = some other) : other = qualityPruned clock.now row := by
  rw [unitPruned] at kept
  split_ifs at kept
  cases kept
  rfl

/-- A unit behind a pass is what the pass made of it. -/
theorem find_units_runPass (enabled : lifecyclePruningDisabled pass.config = false)
    (ran : runPass db pass = some final) {row : UnitRow} (found : final.units.find id = some row) :
    ∃ old, db.units.find id = some old ∧ unitPruned pass.config pass.clock old = some row :=
  bind_eq_some_iff.mp ((find_units_pruned enabled ran id).symm.trans found)

/-- Scores do not rise behind a settled state. -/
theorem recencyScore_run_le {now : Timestamp} {bound : ℚ} (order : InOrder later)
    (after : ∀ pass ∈ later, now ≤ pass.clock.now)
    (settled : ∀ row, mid.units.find id = some row → Settled now row ∧ row.recencyScore ≤ bound)
    (guarded : Guarded runPass (KeepsTrend id) mid later)
    (ran : run runPass mid later = some final) {row : UnitRow}
    (found : final.units.find id = some row) : row.recencyScore ≤ bound := by
  induction later generalizing mid now with
  | nil =>
    cases ran
    exact (settled row found).2
  | cons pass rest ih =>
    obtain ⟨first, order⟩ := pairwise_cons.mp order
    obtain ⟨next, stepped, ran⟩ := run_cons_eq_some ran
    obtain ⟨met, guarded⟩ := guarded
    refine ih order (fun other member => (first other member).le) ?_
      (guarded next stepped) ran
    intro unit foundUnit
    obtain ⟨old, foundOld, pruned⟩ := find_units_runPass met.enabled stepped foundUnit
    obtain ⟨settledOld, below⟩ := settled old foundOld
    have kept := met.trend old foundOld
    rw [unitPruned_eq_some pruned]
    refine ⟨settled_qualityPruned kept, le_trans ?_ below⟩
    exact recencyScore_qualityPruned_le settledOld (after pass mem_cons_self) kept

/-- A unit with the memory and the time stamp of another. -/
def Unstamped (row other : UnitRow) : Prop :=
  SameMemory row other ∧ other.updatedAt = row.updatedAt

/-- Passes that do not demote a unit leave it as it was, or delete it. -/
theorem untouched_run {row : UnitRow} (found : db.units.find id = some row)
    (guarded : Guarded runPass (KeepsStatus id) db passes) (ran : run runPass db passes = some final) :
    ∀ other, final.units.find id = some other → Unstamped row other := by
  have initial : ∀ other, db.units.find id = some other → Unstamped row other := by
    intro other same
    cases found.symm.trans same
    exact ⟨SameMemory.refl row, rfl⟩
  have preserved : ∀ {state next : Database} {pass : Pass},
      (∀ other, state.units.find id = some other → Unstamped row other) →
      KeepsStatus id state pass → runPass state pass = some next →
      ∀ other, next.units.find id = some other → Unstamped row other := by
    intro state next pass kept met stepped other foundOther
    obtain ⟨old, foundOld, pruned⟩ := find_units_runPass met.enabled stepped foundOther
    obtain ⟨memory, stamp⟩ := kept old foundOld
    refine ⟨memory.trans (sameMemory_of_unitPruned pruned), ?_⟩
    rw [unitPruned_eq_some pruned, updatedAt_qualityPruned, met.status old foundOld]
    exact stamp
  exact @run_invariant _ _ runPass (KeepsStatus id)
    (fun state => ∀ other, state.units.find id = some other → Unstamped row other) preserved
    db final passes initial guarded ran

/-- A secret unit past the retention of its layer does not survive a pass that does not
demote it. -/
theorem unitPruned_secret {row : UnitRow} (kept : demotes pass.clock.now row = false)
    (secret : row.visibility = .secret) (on : layerRetentionDays pass.config row.layer ≠ 0)
    (past : row.updatedAt + days (layerRetentionDays pass.config row.layer) < pass.clock.now) :
    unitPruned pass.config pass.clock row = none := by
  have memory := sameMemory_qualityPruned pass.clock.now row
  have stamp : (qualityPruned pass.clock.now row).updatedAt = row.updatedAt := by
    rw [updatedAt_qualityPruned, kept]
    rfl
  have due : secretExpired pass.config pass.clock (qualityPruned pass.clock.now row) = true := by
    have later := pass.clock.later row.layer
    have old : row.updatedAt < layerCutoff pass.config pass.clock row.layer := by
      exact lt_sub_iff_add_lt.mpr (past.trans_le later)
    rw [secretExpired, memory.layer, memory.visibility, stamp]
    simp [on, secret, old]
  rw [unitPruned, due, if_pos rfl]
  split <;> rfl

/-- No later pass leaves a higher score where none demotes a stale trend, and a secret unit
is deleted by every pass later than its retention where no pass demotes it. -/
theorem never_fresher (db : Database) (id : Chars) :
    (∀ earlier later mid final u v, earlier ≠ [] → InOrder (earlier ++ later) →
      Guarded runPass (KeepsTrend id) db (earlier ++ later) →
      run runPass db earlier = some mid → run runPass mid later = some final →
      mid.units.find id = some u → final.units.find id = some v →
      v.recencyScore ≤ u.recencyScore) ∧
    ∀ passes pass final u, Guarded runPass (KeepsStatus id) db (passes ++ [pass]) →
      run runPass db (passes ++ [pass]) = some final →
      db.units.find id = some u → u.visibility = .secret →
      layerRetentionDays pass.config u.layer ≠ 0 →
      u.updatedAt + days (layerRetentionDays pass.config u.layer) < pass.clock.now →
      final.units.find id = none := by
  constructor
  · intro earlier later mid final u v some order guarded ranEarlier ranLater foundU foundV
    obtain ⟨before, pass, rfl⟩ := (eq_nil_or_concat earlier).resolve_left some
    rw [concat_eq_append] at *
    obtain ⟨_, rest, apart⟩ := pairwise_append.mp order
    have after : ∀ other ∈ later, pass.clock.now ≤ other.clock.now := fun other member =>
      (apart pass mem_concat_self other member).le
    obtain ⟨guardedEarlier, guardedLater⟩ := guarded_append guarded ranEarlier
    obtain ⟨state, ranBefore, stepped⟩ := run_concat_eq_some ranEarlier
    have met := (guarded_append guardedEarlier ranBefore).2.1
    refine recencyScore_run_le rest after ?_ guardedLater ranLater foundV
    intro row found
    cases foundU.symm.trans found
    obtain ⟨old, foundOld, pruned⟩ := find_units_runPass met.enabled stepped foundU
    refine ⟨?_, le_rfl⟩
    rw [unitPruned_eq_some pruned]
    exact settled_qualityPruned (met.trend old foundOld)
  · intro passes pass final u guarded ran found secret on past
    obtain ⟨mid, ranPasses, stepped⟩ := run_concat_eq_some ran
    obtain ⟨guardedPasses, met, _⟩ := guarded_append guarded ranPasses
    have kept := untouched_run found guardedPasses ranPasses
    cases deleted : final.units.find id with
    | none => rfl
    | some row =>
      obtain ⟨old, foundOld, pruned⟩ := find_units_runPass met.enabled stepped deleted
      obtain ⟨memory, stamp⟩ := kept old foundOld
      have gone : unitPruned pass.config pass.clock old = none := by
        refine unitPruned_secret (met.status old foundOld) (memory.visibility.trans secret) ?_ ?_
        · rwa [memory.layer]
        · rwa [memory.layer, stamp]
      rw [gone] at pruned
      cases pruned

instance : Decidable (KeepsTrend id db pass) :=
  decidable_of_iff (lifecyclePruningDisabled pass.config = false ∧
      (db.units.find id).all (fun row => !staleDemotes pass.clock.now row) = true) <| by
    rw [Option.all_eq_true]
    simp only [Bool.not_eq_true']
    exact ⟨fun both => ⟨both.1, both.2⟩, fun both => ⟨both.1, both.2⟩⟩

instance : Decidable (KeepsStatus id db pass) :=
  decidable_of_iff (lifecyclePruningDisabled pass.config = false ∧
      (db.units.find id).all (fun row => !demotes pass.clock.now row) = true) <| by
    rw [Option.all_eq_true]
    simp only [Bool.not_eq_true']
    exact ⟨fun both => ⟨both.1, both.2⟩, fun both => ⟨both.1, both.2⟩⟩

def passOn (day retention : Nat) : Pass where
  config := ⟨retention, none, none, none, none, none, none⟩
  clock := ⟨days day, fun _ => days day, fun _ => le_rfl⟩

def teaUnit : UnitRow where
  unitId := "alice::tea".toList
  entityId := "alice".toList
  slotKey := "tea".toList
  content := "green".toList
  signalTier := .belief
  promotionStatus := .promoted
  recencyScore := 1
  importance := 1 / 2
  reliability := 8 / 10
  contradictionPenalty := 0
  visibility := .secret
  layer := .working
  provenance := none
  retentionTier := .working
  retentionExpiresAt := none
  createdAt := 0
  updatedAt := 0

def unitsOnly (unit : UnitRow) : Database :=
  { Database.empty [] with units := ⟨[unit], nodup_singleton _⟩ }

def scoreAfter (db : Database) (id : Chars) (passes : List Pass) : Option ℚ :=
  ((run runPass db passes).bind fun final => final.units.find id).map UnitRow.recencyScore

theorem scoreAfter_eq_some {score : ℚ} (scored : scoreAfter db id passes = some score) :
    ∃ final row, run runPass db passes = some final ∧ final.units.find id = some row ∧
      row.recencyScore = score := by
  obtain ⟨row, found, same⟩ := map_eq_some_iff.mp scored
  obtain ⟨final, ran, found⟩ := bind_eq_some_iff.mp found
  exact ⟨final, row, ran, found, same⟩

theorem tea_not_fresher :
    (∃ earlier later, scoreAfter (unitsOnly teaUnit) teaUnit.unitId [passOn 9 20] = some earlier ∧
      scoreAfter (unitsOnly teaUnit) teaUnit.unitId [passOn 9 20, passOn 18 20] = some later ∧
      later ≤ earlier) ∧
    ∃ final, run runPass (unitsOnly teaUnit) [passOn 9 20, passOn 27 20] = some final ∧
      final.units.find teaUnit.unitId = none := by
  obtain ⟨scores, secrets⟩ := never_fresher (unitsOnly teaUnit) teaUnit.unitId
  constructor
  · have first : scoreAfter (unitsOnly teaUnit) teaUnit.unitId [passOn 9 20] = some (9 / 10) := by
      decide +kernel
    have second : scoreAfter (unitsOnly teaUnit) teaUnit.unitId [passOn 9 20, passOn 18 20] =
        some (8 / 10) := by decide +kernel
    obtain ⟨mid, u, ranMid, foundU, scoreU⟩ := scoreAfter_eq_some first
    obtain ⟨final, v, ranFinal, foundV, scoreV⟩ := scoreAfter_eq_some second
    have ranLater : run runPass mid [passOn 18 20] = some final := (run_append ranMid).symm.trans ranFinal
    have below := scores [passOn 9 20] [passOn 18 20] mid final u v (cons_ne_nil _ _)
      (by simp [InOrder, passOn, days]) (by decide +kernel) ranMid ranLater foundU foundV
    exact ⟨_, _, first, second, scoreU ▸ scoreV ▸ below⟩
  · have ends : (run runPass (unitsOnly teaUnit) [passOn 9 20, passOn 27 20]).isSome = true := by
      decide +kernel
    obtain ⟨final, ran⟩ := isSome_iff_exists.mp ends
    exact ⟨final, ran, secrets [passOn 9 20] (passOn 27 20) final teaUnit
      (by decide +kernel) ran rfl rfl (by decide) (by decide)⟩

def trendUnit : UnitRow :=
  { teaUnit with unitId := "alice::trend.tea".toList, slotKey := "trend.tea".toList }

def rawUnit : UnitRow :=
  { teaUnit with signalTier := .raw, promotionStatus := .raw, reliability := 1 / 4 }

/-- A stale trend looks fresher after the next pass, and a secret unit of low confidence
is kept when it is demoted. -/
theorem demotion_refreshes :
    (scoreAfter (unitsOnly trendUnit) trendUnit.unitId [passOn 30 60] = some (2 / 3) ∧
      scoreAfter (unitsOnly trendUnit) trendUnit.unitId [passOn 30 60, passOn 31 60] =
        some (89 / 90)) ∧
    rawUnit.visibility = .secret ∧
    scoreAfter (unitsOnly rawUnit) rawUnit.unitId [passOn 30 20] = some 1 := by
  decide +kernel

end Fresher

section Expiry

variable {config : MemoryConfig} {clock : PassClock} {row : UnitRow} {slot : SlotRow}
  {unit : Option UnitRow}

/-- Whether the layer cleanup of a pass deletes the unit, by its time stamp before the pass. -/
def secretDue (config : MemoryConfig) (clock : PassClock) (row : UnitRow) : Bool :=
  layerRetentionDays config row.layer ≠ 0 && row.visibility = .secret &&
    (if demotes clock.now row then clock.now else row.updatedAt) < layerCutoff config clock row.layer

/-- Whether a pass deletes the unit. -/
def unitDue (config : MemoryConfig) (clock : PassClock) (row : UnitRow) : Bool :=
  expiredBy (clock.now - ttlGrace) row || secretDue config clock row

/-- Whether a slot is deleted for good, at the latest by this pass. -/
def slotDue (config : MemoryConfig) (clock : PassClock) (row : UnitRow) (slot : SlotRow) : Bool :=
  slot.status = .hardDeleted || slot.status = .softDeleted &&
      if expiredBy (clock.now - ttlGrace) row then slot.updatedAt ≤ clock.now - ttlGrace
      else layerRetentionDays config row.layer ≠ 0 &&
        slot.updatedAt < layerCutoff config clock row.layer

theorem unitPruned_eq_none_iff : unitPruned config clock row = none ↔ unitDue config clock row = true := by
  have memory := sameMemory_qualityPruned clock.now row
  have same : secretExpired config clock (qualityPruned clock.now row) = secretDue config clock row := by
    rw [secretExpired, memory.layer, memory.visibility, updatedAt_qualityPruned, secretDue]
  rw [unitPruned, same, unitDue]
  cases expiredBy (clock.now - ttlGrace) row <;> cases secretDue config clock row <;> simp

theorem expiredBy_eq {expiry cutoff : Timestamp} (expires : row.retentionExpiresAt = some expiry) :
    expiredBy cutoff row = decide (expiry ≤ cutoff) := by
  rw [expiredBy, expires]
  rfl

/-- A pass leaves the slots that are deleted for good. -/
theorem slotPruned_hard (hard : slot.status = .hardDeleted) :
    slotPruned config clock unit slot = some slot := by
  have live : slotExpired clock.now unit slot = slot := by simp [slotExpired, deletedStatuses, hard]
  have grace : slotGraceOver clock.now (clock.now - ttlGrace) unit slot = slot := by
    simp [slotGraceOver, hard]
  rw [slotPruned, live, grace, layersCleaned]
  cases (unit.filter fun row => !expiredBy (clock.now - ttlGrace) row).map (qualityPruned clock.now) with
  | none => rfl
  | some row => simp [slotCleaned, hard]

/-- A pass before the expiry leaves the slot. -/
theorem slotPruned_waiting (live : slot.status ∉ deletedStatuses)
    (early : expiredBy clock.now row = false) :
    slotPruned config clock (some row) slot = some slot := by
  have soft : slot.status ≠ .softDeleted := fun same => live (same ▸ by decide)
  have tombstoned : slot.status ≠ .tombstoned := fun same => live (same ▸ by decide)
  have expired : slotExpired clock.now (some row) slot = slot := by simp [slotExpired, early]
  have grace : slotGraceOver clock.now (clock.now - ttlGrace) (some row) slot = slot := by
    simp [slotGraceOver, soft]
  rw [slotPruned, expired, grace, layersCleaned]
  cases ((some row).filter fun row => !expiredBy (clock.now - ttlGrace) row).map
      (qualityPruned clock.now) with
  | none => rfl
  | some row => simp [slotCleaned, soft, tombstoned]

/-- A pass in the grace period after the expiry deletes the slot softly. -/
theorem slotPruned_first (cutoffs : ∀ layer, layerRetentionDays config layer ≠ 0 →
      layerCutoff config clock layer ≤ clock.now)
    (live : slot.status ∉ deletedStatuses) (due : expiredBy clock.now row = true) :
    slotPruned config clock (some row) slot = some (slot.marked .softDeleted clock.now) := by
  have expired : slotExpired clock.now (some row) slot = slot.marked .softDeleted clock.now := by
    simp [slotExpired, live, due]
  have fresh : ¬ clock.now ≤ clock.now - ttlGrace := by
    rw [not_le]
    exact sub_lt_self _ (by decide)
  have grace : slotGraceOver clock.now (clock.now - ttlGrace) (some row)
      (slot.marked .softDeleted clock.now) = slot.marked .softDeleted clock.now := by
    simp [slotGraceOver, SlotRow.marked, fresh]
  rw [slotPruned, expired, grace, layersCleaned]
  cases ((some row).filter fun row => !expiredBy (clock.now - ttlGrace) row).map
      (qualityPruned clock.now) with
  | none => rfl
  | some left =>
    rw [elim_some, slotCleaned]
    by_cases off : layerRetentionDays config left.layer = 0
    · simp [off]
    · have kept : ¬ clock.now < layerCutoff config clock left.layer := not_lt.mpr (cutoffs _ off)
      simp [off, SlotRow.marked, kept]

/-- A slot that is deleted softly stays so or is deleted for good. -/
theorem slotPruned_soft (soft : slot.status = .softDeleted) :
    slotPruned config clock unit slot = some slot ∨
      ∃ stamp, slotPruned config clock unit slot = some (slot.marked .hardDeleted stamp) := by
  have expired : slotExpired clock.now unit slot = slot := by simp [slotExpired, deletedStatuses, soft]
  rw [slotPruned, expired, slotGraceOver, layersCleaned]
  split
  case isTrue =>
    refine .inr ⟨clock.now, ?_⟩
    cases (unit.filter fun row => !expiredBy (clock.now - ttlGrace) row).map
        (qualityPruned clock.now) with
    | none => rfl
    | some row => simp [slotCleaned, SlotRow.marked]
  case isFalse =>
    cases (unit.filter fun row => !expiredBy (clock.now - ttlGrace) row).map
        (qualityPruned clock.now) with
    | none => exact .inl rfl
    | some row =>
      rw [elim_some, slotCleaned]
      split_ifs with off old
      · exact .inl rfl
      · exact .inr ⟨_, rfl⟩
      · rename_i tombstoned
        simp [soft] at tombstoned
      · exact .inl rfl

/-- A slot that is due is deleted for good. -/
theorem slotPruned_due (due : slotDue config clock row slot = true) :
    ∃ final, slotPruned config clock (some row) slot = some final ∧ final.status = .hardDeleted := by
  rw [slotDue, Bool.or_eq_true, Bool.and_eq_true, decide_eq_true_eq, decide_eq_true_eq] at due
  rcases due with hard | ⟨soft, due⟩
  · exact ⟨slot, slotPruned_hard hard, hard⟩
  · have expired : slotExpired clock.now (some row) slot = slot := by
      simp [slotExpired, deletedStatuses, soft]
    split at due
    case isTrue past =>
      have grace : slotGraceOver clock.now (clock.now - ttlGrace) (some row) slot =
          slot.marked .hardDeleted clock.now := by
        rw [slotGraceOver, if_pos]
        simp [soft, past, of_decide_eq_true due]
      refine ⟨slot.marked .hardDeleted clock.now, ?_, rfl⟩
      rw [slotPruned, expired, grace, filter_some, if_neg (by simp [past])]
      rfl
    case isFalse kept =>
      rw [Bool.not_eq_true] at kept
      have grace : slotGraceOver clock.now (clock.now - ttlGrace) (some row) slot = slot := by
        simp [slotGraceOver, kept]
      rw [Bool.and_eq_true, decide_eq_true_eq, decide_eq_true_eq] at due
      refine ⟨slot.marked .hardDeleted (layerCutoff config clock row.layer), ?_, rfl⟩
      rw [slotPruned, expired, grace, filter_some, if_pos (by simp [kept]), map_some,
        layersCleaned, elim_some, (sameMemory_qualityPruned clock.now row).layer, slotCleaned]
      simp [ofLayer, (sameMemory_qualityPruned clock.now row).layer, due.1, due.2, soft]

end Expiry

section Deletion

variable {db next mid final : Database} {name : SlotName} {pass : Pass} {passes : List Pass}
  {slot : SlotRow} {unit : Option UnitRow} {row : UnitRow} {expiry stamp : Timestamp}

/-- The pass runs, no layer is cleaned up with a cutoff behind its start, and the unit of the
slot goes only with the slot. -/
structure Timely (name : SlotName) (db : Database) (pass : Pass) : Prop where
  enabled : lifecyclePruningDisabled pass.config = false
  cutoffs : ∀ layer, layerRetentionDays pass.config layer ≠ 0 →
    layerCutoff pass.config pass.clock layer ≤ pass.clock.now
  together : ∀ id row slot, db.units.find id = some row → row.name = name →
    db.slots.find name = some slot → unitDue pass.config pass.clock row = true →
      slotDue pass.config pass.clock row slot = true

theorem onlyUnit_runPass (enabled : lifecyclePruningDisabled pass.config = false)
    (ran : runPass db pass = some next) (only : OnlyUnit db name unit) :
    OnlyUnit next name (unit.bind (unitPruned pass.config pass.clock)) :=
  only.bind (find_units_pruned enabled ran) fun _ _ => sameMemory_of_unitPruned

/-- The only unit of the slot, and when it expires. -/
def Expires (db : Database) (name : SlotName) (expiry : Timestamp) : Prop :=
  ∃ row, OnlyUnit db name (some row) ∧ row.retentionExpiresAt = some expiry

/-- A unit that stays keeps its expiry. -/
theorem expires_runPass (enabled : lifecyclePruningDisabled pass.config = false)
    (ran : runPass db pass = some next) (only : OnlyUnit db name (some row))
    (expires : row.retentionExpiresAt = some expiry)
    (stays : unitDue pass.config pass.clock row = false) : Expires next name expiry := by
  have after := onlyUnit_runPass enabled ran only
  cases pruned : unitPruned pass.config pass.clock row with
  | none =>
    rw [unitPruned_eq_none_iff, stays] at pruned
    cases pruned
  | some other =>
    rw [bind_some, pruned] at after
    exact ⟨other, after, (sameMemory_of_unitPruned pruned).retentionExpiresAt.trans expires⟩

section

variable (timely : Timely name db pass) (only : OnlyUnit db name (some row))
  (found : db.slots.find name = some slot)
include timely only found

theorem Timely.due (due : unitDue pass.config pass.clock row = true) :
    slotDue pass.config pass.clock row slot = true := by
  obtain ⟨foundUnit, same⟩ := (only row.unitId row).mpr ⟨rfl, rfl⟩
  exact timely.together row.unitId row slot foundUnit same found due

theorem Timely.stays (live : slot.status ∉ deletedStatuses) :
    unitDue pass.config pass.clock row = false := by
  rw [← Bool.not_eq_true]
  intro due
  have slotIs := timely.due only found due
  rw [slotDue, Bool.or_eq_true, Bool.and_eq_true, decide_eq_true_eq, decide_eq_true_eq] at slotIs
  rcases slotIs with hard | ⟨soft, _⟩
  · exact live (hard ▸ by decide)
  · exact live (soft ▸ by decide)

end

/-- A slot that is not deleted, with a unit that expires. -/
def Waiting (name : SlotName) (expiry : Timestamp) (db : Database) : Prop :=
  ∃ slot, db.slots.find name = some slot ∧ slot.status ∉ deletedStatuses ∧ Expires db name expiry

/-- A slot that is deleted softly since a pass, or for good. -/
def Deleting (name : SlotName) (expiry stamp : Timestamp) (db : Database) : Prop :=
  ∃ slot, db.slots.find name = some slot ∧
    (slot.status = .hardDeleted ∧ (∃ unit, OnlyUnit db name unit) ∨
      slot.status = .softDeleted ∧ slot.updatedAt = stamp ∧ Expires db name expiry)

theorem waiting_runPass (waiting : Waiting name expiry db) (timely : Timely name db pass)
    (early : pass.clock.now < expiry) (ran : runPass db pass = some next) :
    Waiting name expiry next := by
  obtain ⟨slot, found, live, row, only, expires⟩ := waiting
  have notYet : expiredBy pass.clock.now row = false := by
    rw [expiredBy_eq expires, decide_eq_false_iff_not, not_le]
    exact early
  refine ⟨slot, ?_, live, expires_runPass timely.enabled ran only expires (timely.stays only found live)⟩
  rw [find_slots_pruned timely.enabled ran only, found, bind_some, slotPruned_waiting live notYet]

theorem deleting_of_waiting (waiting : Waiting name expiry db) (timely : Timely name db pass)
    (due : expiry ≤ pass.clock.now) (ran : runPass db pass = some next) :
    (next.slots.find name).map SlotRow.status = some .softDeleted ∧
      Deleting name expiry pass.clock.now next := by
  obtain ⟨slot, found, live, row, only, expires⟩ := waiting
  have past : expiredBy pass.clock.now row = true := by
    rw [expiredBy_eq expires]
    exact decide_eq_true due
  have after : next.slots.find name = some (slot.marked .softDeleted pass.clock.now) := by
    rw [find_slots_pruned timely.enabled ran only, found, bind_some,
      slotPruned_first timely.cutoffs live past]
  refine ⟨by rw [after]; rfl, _, after, .inr ⟨rfl, rfl, ?_⟩⟩
  exact expires_runPass timely.enabled ran only expires (timely.stays only found live)

theorem deleting_runPass (deleting : Deleting name expiry stamp db) (timely : Timely name db pass)
    (ran : runPass db pass = some next) : Deleting name expiry stamp next := by
  obtain ⟨slot, found, ⟨hard, unit, only⟩ | ⟨soft, since, row, only, expires⟩⟩ := deleting
  · refine ⟨slot, ?_, .inl ⟨hard, _, onlyUnit_runPass timely.enabled ran only⟩⟩
    rw [find_slots_pruned timely.enabled ran only, found, bind_some, slotPruned_hard hard]
  · have after : next.slots.find name = slotPruned pass.config pass.clock (some row) slot := by
      rw [find_slots_pruned timely.enabled ran only, found, bind_some]
    have units := onlyUnit_runPass timely.enabled ran only
    cases due : unitDue pass.config pass.clock row with
    | true =>
      obtain ⟨last, pruned, hard⟩ := slotPruned_due (timely.due only found due)
      exact ⟨last, after.trans pruned, .inl ⟨hard, _, units⟩⟩
    | false =>
      rcases @slotPruned_soft pass.config pass.clock slot (some row) soft with same | ⟨moment, pruned⟩
      · exact ⟨slot, after.trans same,
          .inr ⟨soft, since, expires_runPass timely.enabled ran only expires due⟩⟩
      · exact ⟨_, after.trans pruned, .inl ⟨rfl, _, units⟩⟩

theorem deleted_of_deleting (deleting : Deleting name expiry stamp db) (timely : Timely name db pass)
    (order : expiry ≤ stamp) (grace : stamp + ttlGrace ≤ pass.clock.now)
    (ran : runPass db pass = some next) :
    (next.slots.find name).map SlotRow.status = some .hardDeleted := by
  obtain ⟨slot, found, ⟨hard, unit, only⟩ | ⟨soft, since, row, only, expires⟩⟩ := deleting
  · rw [find_slots_pruned timely.enabled ran only, found, bind_some, slotPruned_hard hard,
      map_some, hard]
  · have old : stamp ≤ pass.clock.now - ttlGrace := le_sub_iff_add_le.mpr grace
    have due : slotDue pass.config pass.clock row slot = true := by
      have past : expiredBy (pass.clock.now - ttlGrace) row = true := by
        rw [expiredBy_eq expires]
        exact decide_eq_true (order.trans old)
      rw [slotDue, past, since]
      simp [soft, old]
    obtain ⟨last, pruned, hard⟩ := slotPruned_due due
    rw [find_slots_pruned timely.enabled ran only, found, bind_some, pruned, map_some, hard]

theorem waiting_run (waiting : Waiting name expiry db)
    (guarded : Guarded runPass (Timely name) db passes)
    (early : ∀ pass ∈ passes, pass.clock.now < expiry) (ran : run runPass db passes = some final) :
    Waiting name expiry final := by
  induction passes generalizing db with
  | nil =>
    cases ran
    exact waiting
  | cons pass rest ih =>
    obtain ⟨next, stepped, ran⟩ := run_cons_eq_some ran
    obtain ⟨first, others⟩ := forall_mem_cons.mp early
    exact ih (waiting_runPass waiting guarded.1 first stepped)
      (guarded.2 next stepped) others ran

/-- Where every pass takes the unit of a slot only with the slot, the first pass at the expiry
deletes the slot softly, and every pass a grace period later has deleted it for good. -/
theorem expired_slot_deleted {before between : List Pass} {first last : Pass}
    (found : db.slots.find name = some slot) (live : slot.status ∉ deletedStatuses)
    (only : OnlyUnit db name (some row)) (expires : row.retentionExpiresAt = some expiry)
    (guarded : Guarded runPass (Timely name) db (before ++ first :: (between ++ [last])))
    (early : ∀ pass ∈ before, pass.clock.now < expiry) (due : expiry ≤ first.clock.now)
    (ranFirst : run runPass db (before ++ [first]) = some mid)
    (ranLast : run runPass mid (between ++ [last]) = some final) :
    (mid.slots.find name).map SlotRow.status = some .softDeleted ∧
      (first.clock.now + ttlGrace ≤ last.clock.now →
        (final.slots.find name).map SlotRow.status = some .hardDeleted) := by
  obtain ⟨state, ranBefore, stepped⟩ := run_concat_eq_some ranFirst
  obtain ⟨guardedBefore, timely, guardedLater⟩ := guarded_append guarded ranBefore
  have waiting := waiting_run ⟨slot, found, live, row, only, expires⟩ guardedBefore early ranBefore
  obtain ⟨soft, deleting⟩ := deleting_of_waiting waiting timely due stepped
  refine ⟨soft, fun grace => ?_⟩
  obtain ⟨reached, ranBetween, lastStep⟩ := run_concat_eq_some ranLast
  obtain ⟨guardedBetween, timelyLast, _⟩ := guarded_append (guardedLater mid stepped) ranBetween
  have still : Deleting name expiry first.clock.now reached :=
    run_invariant deleting_runPass deleting guardedBetween ranBetween
  exact deleted_of_deleting still timelyLast due grace lastStep

instance : Decidable (Timely name db pass) :=
  decidable_of_iff (lifecyclePruningDisabled pass.config = false ∧
    (∀ layer ∈ layers, layerRetentionDays pass.config layer ≠ 0 →
      layerCutoff pass.config pass.clock layer ≤ pass.clock.now) ∧
    ∀ row ∈ db.units.rows, row.name = name → unitDue pass.config pass.clock row = true →
      (db.slots.find name).all (fun slot => slotDue pass.config pass.clock row slot) = true) <| by
    constructor
    · rintro ⟨enabled, cutoffs, together⟩
      refine ⟨enabled, fun layer => cutoffs layer (by cases layer <;> decide), ?_⟩
      intro id row slot found same foundSlot due
      exact (Option.all_eq_true _ _).mp (together row (KeyedTable.mem_of_find found) same due) slot foundSlot
    · rintro ⟨enabled, cutoffs, together⟩
      refine ⟨enabled, fun layer _ => cutoffs layer, fun row member same due => ?_⟩
      rw [Option.all_eq_true]
      intro slot foundSlot
      exact together row.unitId row slot (KeyedTable.find_of_mem member) same foundSlot due

def teaSlot : SlotRow where
  entityId := "alice".toList
  slotKey := "tea".toList
  value := "green".toList
  status := .active
  winnerEventId := "event"
  source := .explicitUser
  confidence := 1
  importance := 1 / 2
  privacyLevel := .private
  updatedAt := 0

def expiringUnit (day : Int) : UnitRow :=
  { teaUnit with visibility := .private, retentionExpiresAt := some (days day) }

def expiring (day : Int) : Database :=
  { unitsOnly (expiringUnit day) with slots := ⟨[teaSlot], nodup_singleton _⟩ }

def statusAfter (db : Database) (name : SlotName) (passes : List Pass) : Option SlotStatus :=
  ((run runPass db passes).bind fun final => final.slots.find name).map SlotRow.status

theorem onlyUnit_expiring (day : Int) :
    OnlyUnit (expiring day) teaSlot.name (some (expiringUnit day)) := by
  intro id row
  rw [KeyedTable.find_eq_some_iff, expiring, unitsOnly, mem_singleton]
  constructor
  · rintro ⟨⟨rfl, rfl⟩, _⟩
    exact ⟨rfl, rfl⟩
  · rintro ⟨⟨⟩, rfl⟩
    exact ⟨⟨rfl, rfl⟩, rfl⟩

theorem tea_expires :
    statusAfter (expiring 5) teaSlot.name [passOn 3 20, passOn 6 20, passOn 8 20, passOn 13 20] =
      some .hardDeleted := by
  have ends : (run runPass (expiring 5)
      [passOn 3 20, passOn 6 20, passOn 8 20, passOn 13 20]).isSome = true := by decide +kernel
  obtain ⟨final, ran⟩ := isSome_iff_exists.mp ends
  obtain ⟨mid, ranFirst, ranLast⟩ :=
    @run_append_eq_some _ _ _ _ _ [passOn 3 20, passOn 6 20] [passOn 8 20, passOn 13 20] ran
  have deleted := @expired_slot_deleted (expiring 5) mid final teaSlot.name teaSlot (expiringUnit 5)
    (days 5) [passOn 3 20] [passOn 8 20] (passOn 6 20) (passOn 13 20) rfl (by decide)
    (onlyUnit_expiring 5) rfl (by decide +kernel) (by decide) (by decide) ranFirst ranLast
  rw [statusAfter, ran]
  exact deleted.2 (by decide)

/-- A first pass more than the grace period after the expiry, or a second one in between,
purges the unit of a slot that then stays deleted softly. -/
theorem late_pass_strands_slot :
    teaSlot.status ∉ deletedStatuses ∧
    OnlyUnit (expiring 0) teaSlot.name (some (expiringUnit 0)) ∧
    statusAfter (expiring 0) teaSlot.name [passOn 10 20, passOn 20 20] = some .softDeleted ∧
    statusAfter (expiring 0) teaSlot.name [passOn 3 20, passOn 8 20, passOn 11 20] =
      some .softDeleted :=
  ⟨by decide, onlyUnit_expiring 0, by decide +kernel, by decide +kernel⟩

end Deletion

end Asterel.Postgres
