import Asterel.Core.SpawnTree

/-!
# Concurrent calls for a delegation slot

A call reads the budget of its agent, gives up if that is zero, and otherwise exchanges it for one
less if it is still what was read. Another read follows an exchange that fails. The reads are
relaxed, so they may show any earlier budget.
-/

namespace Asterel.SpawnTree

open Library.Transitions List

section Slots

/-- Where a call of `try_consume_child_delegation_slot` is. -/
inductive SlotCall
  | begun
  | loaded (current : Nat)
  | finished (consumed : Bool)
  deriving DecidableEq

inductive SlotStep
  | load (seen : Nat)
  | giveUp
  | exchange
  | reload (seen : Nat)

/-- The budget of an agent, what it was at first, and the calls. -/
structure Slots where
  quota : Nat
  remainingChildDelegations : Nat
  calls : List SlotCall

/-- What a step makes of its call and of the budget. -/
def SlotStep.advance (slots : Slots) : SlotStep → SlotCall → Option (SlotCall × Nat)
  | .load seen, .begun =>
    if slots.remainingChildDelegations ≤ seen ∧ seen ≤ slots.quota then
      some (.loaded seen, slots.remainingChildDelegations)
    else none
  | .giveUp, .loaded 0 => some (.finished false, slots.remainingChildDelegations)
  | .exchange, .loaded (current + 1) =>
    if slots.remainingChildDelegations = current + 1 then some (.finished true, current) else none
  | .reload seen, .loaded (current + 1) =>
    if slots.remainingChildDelegations ≤ seen ∧ seen ≤ slots.quota ∧ seen ≠ current + 1 then
      some (.loaded seen, slots.remainingChildDelegations)
    else none
  | _, _ => none

/-- One step of the call at an index. -/
def Slots.step (slots : Slots) (action : Nat × SlotStep) : Option Slots :=
  match slots.calls[action.1]? with
  | none => none
  | some call =>
    match action.2.advance slots call with
    | none => none
    | some (next, remaining) =>
      some { slots with
        remainingChildDelegations := remaining
        calls := slots.calls.set action.1 next }

/-- The start of this many calls. -/
def Slots.begin (quota calls : Nat) : Slots := ⟨quota, quota, replicate calls .begun⟩

/-- What a call knows of the budget holds. -/
def SlotCall.Knows (remaining : Nat) : SlotCall → Prop
  | .begun => True
  | .loaded current => remaining ≤ current
  | .finished consumed => consumed = false → remaining = 0

/-- Every slot is left or consumed by one call. -/
structure Slots.Accounted (slots : Slots) : Prop where
  total : slots.remainingChildDelegations + slots.calls.count (.finished true) = slots.quota
  known : ∀ call ∈ slots.calls, call.Knows slots.remainingChildDelegations

variable {slots next : Slots} {action : Nat × SlotStep} {call after : SlotCall} {remaining : Nat}

theorem SlotCall.Knows.lower {less : Nat} (knows : call.Knows remaining) (lower : less ≤ remaining) :
    call.Knows less := by
  cases call with
  | begun => trivial
  | loaded current => exact Nat.le_trans lower knows
  | finished consumed => exact fun refused => Nat.le_zero.mp (knows refused ▸ lower)

/-- A step consumes a slot exactly when its call ends with one. -/
theorem SlotStep.advance_spec {kind : SlotStep}
    (stepped : kind.advance slots call = some (after, remaining))
    (knows : call.Knows slots.remainingChildDelegations) :
    call ≠ .finished true ∧ after.Knows remaining ∧
      slots.remainingChildDelegations = remaining + if after = .finished true then 1 else 0 := by
  revert stepped
  fun_cases SlotStep.advance slots kind call
  all_goals
    intro stepped
    cases stepped
  case case1 seen shown => exact ⟨by decide, shown.1, rfl⟩
  case case3 => exact ⟨by decide, fun _ => Nat.le_zero.mp knows, rfl⟩
  case case4 same => exact ⟨by simp, (by intro refused; cases refused), same⟩
  case case6 seen current shown => exact ⟨by simp, shown.1, rfl⟩

theorem Slots.Accounted.step (accounted : slots.Accounted) (stepped : slots.step action = some next) :
    next.Accounted ∧ next.quota = slots.quota ∧ next.calls.length = slots.calls.length := by
  rw [Slots.step] at stepped
  split at stepped
  · cases stepped
  · rename_i call found
    split at stepped
    · cases stepped
    · rename_i after remaining advanced
      cases stepped
      have knows := accounted.known call (mem_of_getElem? found)
      obtain ⟨started, known, consumed⟩ := SlotStep.advance_spec advanced knows
      have before := (parties_perm found).count_eq (SlotCall.finished true)
      have behind := (advanced_perm found after).count_eq (SlotCall.finished true)
      rw [count_cons_of_ne started] at before
      simp only [count_cons, beq_iff_eq] at behind
      have lower : remaining ≤ slots.remainingChildDelegations := Nat.le.intro consumed.symm
      refine ⟨⟨?_, fun other member => ?_⟩, rfl, length_set⟩
      · have total := accounted.total
        dsimp only
        omega
      · obtain same | rfl := mem_or_eq_of_mem_set member
        · exact (accounted.known other same).lower lower
        · exact known

/-- However the calls interleave, every slot is left or consumed by one call, a call is refused only
when none is left, and calls that have all ended consumed as many slots as there were for them. -/
theorem slots_exact {quota calls : Nat} {actions : List (Nat × SlotStep)} {final : Slots}
    (ran : run Slots.step (.begin quota calls) actions = some final) :
    final.remainingChildDelegations + final.calls.count (.finished true) = quota ∧
      (.finished false ∈ final.calls → final.remainingChildDelegations = 0) ∧
      ((∀ call ∈ final.calls, ∃ consumed, call = .finished consumed) →
        final.calls.count (.finished true) = min quota calls) := by
  have start : (Slots.begin quota calls).Accounted := by
    refine ⟨?_, fun call member => ?_⟩
    · rw [Slots.begin, count_replicate, if_neg (by decide), Nat.add_zero]
    · rw [eq_of_mem_replicate member]
      trivial
  have kept : ∀ {slots next : Slots} {action : Nat × SlotStep},
      slots.Accounted ∧ slots.quota = quota ∧ slots.calls.length = calls → True →
        slots.step action = some next →
          next.Accounted ∧ next.quota = quota ∧ next.calls.length = calls := by
    rintro slots next action ⟨accounted, rfl, rfl⟩ _ stepped
    exact accounted.step stepped
  obtain ⟨accounted, rfl, rfl⟩ := run_invariant kept ⟨start, rfl, length_replicate⟩
    (guarded_true _ actions) ran
  have refused : .finished false ∈ final.calls → final.remainingChildDelegations = 0 :=
    fun member => accounted.known _ member rfl
  refine ⟨accounted.total, refused, fun ended => ?_⟩
  have total := accounted.total
  by_cases none : .finished false ∈ final.calls
  · rw [refused none, Nat.zero_add] at total
    rw [← total, min_eq_left count_le_length]
  · have all : final.calls.count (.finished true) = final.calls.length := by
      rw [count_eq_length]
      intro call member
      obtain ⟨consumed, rfl⟩ := ended call member
      cases consumed with
      | true => rfl
      | false => exact absurd member none
    omega

theorem slots_exact_contended :
    0 + [SlotCall.finished true, .finished false].count (.finished true) = 1 :=
  (@slots_exact 1 2 [(0, .load 1), (1, .load 1), (0, .exchange), (1, .reload 0), (1, .giveUp)]
    ⟨1, 0, [.finished true, .finished false]⟩ rfl).1

end Slots

end Asterel.SpawnTree
