import Mathlib

/-!
# The first least entry, and loops that select

A selection takes the first entry with the least key. A loop repeats a step until the step
has no result; it is given an amount of fuel, and a measure that falls with every step shows
that the fuel is enough.
-/

namespace Library

universe u v

section FirstMin

variable {α : Type u} {ν : Type v} [LinearOrder ν]

/-- The first of the entries whose key is least. -/
def firstMin (key : α → ν) : List α → Option α
  | [] => none
  | entry :: rest =>
    match firstMin key rest with
    | none => some entry
    | some other => if key other < key entry then some other else some entry

variable {key : α → ν} {entries : List α} {entry : α}

theorem firstMin_eq_none_iff : firstMin key entries = none ↔ entries = [] := by
  cases entries with
  | nil => exact iff_of_true rfl rfl
  | cons entry rest =>
    refine iff_of_false ?_ (List.cons_ne_nil entry rest)
    rw [firstMin]
    split
    · exact Option.some_ne_none entry
    · split <;> exact Option.some_ne_none _

theorem firstMin_eq_some (found : firstMin key entries = some entry) :
    entry ∈ entries ∧ ∀ other ∈ entries, key entry ≤ key other := by
  induction entries generalizing entry with
  | nil => cases found
  | cons head rest ih =>
    rw [firstMin] at found
    split at found
    · rename_i none
      cases found
      rw [firstMin_eq_none_iff.mp none]
      exact ⟨List.mem_cons_self, by simp⟩
    · rename_i least some
      obtain ⟨member, below⟩ := ih some
      split at found
      · rename_i smaller
        cases found
        refine ⟨List.mem_cons_of_mem head member, fun other among => ?_⟩
        rcases List.mem_cons.mp among with rfl | among
        · exact le_of_lt smaller
        · exact below other among
      · rename_i smaller
        cases found
        refine ⟨List.mem_cons_self, fun other among => ?_⟩
        rcases List.mem_cons.mp among with rfl | among
        · exact le_refl _
        · exact le_trans (not_lt.mp smaller) (below other among)

end FirstMin

section Loop

variable {σ : Type u} {step : σ → Option σ}

/-- Repeat a step until it has no result. -/
def repeatStep (step : σ → Option σ) : Nat → σ → σ
  | 0, state => state
  | fuel + 1, state =>
    match step state with
    | none => state
    | some next => repeatStep step fuel next

/-- What a step does, the loop does any number of times. -/
theorem repeatStep_related {invariant : σ → Prop} {related : σ → σ → Prop}
    (stepped : ∀ before after, invariant before → step before = some after →
      invariant after ∧ related before after)
    (fuel : Nat) {state : σ} (holds : invariant state) :
    Relation.ReflTransGen related state (repeatStep step fuel state) := by
  induction fuel generalizing state with
  | zero => exact .refl
  | succ fuel ih =>
    rw [repeatStep]
    split
    · exact .refl
    · rename_i next taken
      obtain ⟨kept, step⟩ := stepped state next holds taken
      exact .head step (ih kept)

/-- A loop whose steps lower a measure ends where no step can be taken. -/
theorem repeatStep_stops {invariant : σ → Prop} {measure : σ → Nat}
    (lowers : ∀ before after, invariant before → step before = some after →
      invariant after ∧ measure after < measure before)
    {fuel : Nat} {state : σ} (holds : invariant state) (enough : measure state ≤ fuel) :
    invariant (repeatStep step fuel state) ∧ step (repeatStep step fuel state) = none := by
  induction fuel generalizing state with
  | zero =>
    refine ⟨holds, ?_⟩
    cases stepped : step state with
    | none => exact stepped
    | some next =>
      have lower := (lowers state next holds stepped).2
      omega
  | succ fuel ih =>
    rw [repeatStep]
    split
    · rename_i stopped
      exact ⟨holds, stopped⟩
    · rename_i next stepped
      obtain ⟨kept, lower⟩ := lowers state next holds stepped
      exact ih kept (by omega)

end Loop

end Library
