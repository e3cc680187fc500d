import Mathlib.Data.List.Induction

/-!
# Machines whose readings should leave no trace

A machine takes actions one after the other; some actions only read. Reading is
harmless when the machine after any actions answers as the machine that took the
same actions without the readings among them. The rule here carries a relation
between the two machines through both runs: a reading moves one machine only, any
other action moves both.

The condition under which a step keeps the relation may speak of all the actions
before it.
-/

namespace Library.Readings

open List

universe u v

variable {σ : Type u} {α : Type v}
variable {actions : List α} {condition : List α → α → Prop} {action : α} {reads : α → Bool}
  (step : σ → α → σ)

/-- Take the actions in order. -/
def run (step : σ → α → σ) (start : σ) (actions : List α) : σ := actions.foldl step start

@[simp] theorem run_nil (start : σ) : run step start [] = start := rfl

@[simp] theorem run_concat (start : σ) (actions : List α) (action : α) :
    run step start (actions ++ [action]) = step (run step start actions) action := by
  simp [run]

/-- The actions that are no readings. -/
def unread (reads : α → Bool) (actions : List α) : List α :=
  actions.filter fun action => !reads action

@[simp] theorem unread_nil (reads : α → Bool) : unread reads [] = [] := rfl

theorem unread_concat_of_reads (actions : List α)
    (reading : reads action = true) : unread reads (actions ++ [action]) = unread reads actions := by
  simp [unread, reading]

theorem unread_concat_of_not_reads (actions : List α) (writing : reads action = false) :
    unread reads (actions ++ [action]) = unread reads actions ++ [action] := by
  simp [unread, writing]

theorem mem_unread :
    action ∈ unread reads actions ↔ action ∈ actions ∧ reads action = false := by
  simp [unread]

/-- Every action meets the condition on what came before it. -/
def EachStep (condition : List α → α → Prop) (actions : List α) : Prop :=
  ∀ before action after, actions = before ++ action :: after → condition before action

theorem eachStep_nil (condition : List α → α → Prop) : EachStep condition [] := by
  intro before action after split
  exact absurd split (by simp)

theorem EachStep.append_left {first second : List α}
    (met : EachStep condition (first ++ second)) : EachStep condition first := by
  intro before action after split
  apply met before action (after ++ second)
  rw [split, append_assoc, cons_append]

theorem eachStep_concat {last : α} :
    EachStep condition (actions ++ [last]) ↔ EachStep condition actions ∧ condition actions last := by
  constructor
  · intro met
    exact ⟨met.append_left, met actions last [] rfl⟩
  · rintro ⟨earlier, final⟩ before action after split
    rcases eq_nil_or_concat after with rfl | ⟨middle, other, rfl⟩
    · obtain ⟨rfl, same⟩ := append_inj' split rfl
      cases same
      exact final
    · rw [concat_eq_append, ← cons_append, ← append_assoc] at split
      obtain ⟨rfl, _⟩ := append_inj' split rfl
      exact earlier before action middle rfl

/-- Two machines stay related, one of which takes all actions and the other all but the
readings. -/
theorem related_of_eachStep {step : σ → α → σ} {related : List α → σ → σ → Prop} {start : σ}
    (initial : related [] start start)
    (reading : ∀ (before : List α) (action : α) (all rest : σ), condition before action →
      reads action = true → all = run step start before → related before all rest →
      related (before ++ [action]) (step all action) rest)
    (writing : ∀ (before : List α) (action : α) (all rest : σ), condition before action →
      reads action = false → related before all rest →
      related (before ++ [action]) (step all action) (step rest action))
    (met : EachStep condition actions) :
    related actions (run step start actions) (run step start (unread reads actions)) := by
  induction actions using reverseRecOn with
  | nil => exact initial
  | append_singleton before action ih =>
    obtain ⟨earlier, final⟩ := eachStep_concat.mp met
    have soFar := ih earlier
    rw [run_concat]
    cases read : reads action with
    | true =>
      rw [unread_concat_of_reads before read]
      exact reading before action _ _ final read rfl soFar
    | false =>
      rw [unread_concat_of_not_reads before read, run_concat]
      exact writing before action _ _ final read soFar

end Library.Readings
