import Mathlib.Data.List.Forall2

/-!
# Draining a consumer

A consumer takes some of its input with every output, and it stops when there is no
input left. Taking outputs until it stops cuts the whole input into the groups that
the outputs were made of, in the order of the input.

What an output has to do with its group is a parameter, as is an invariant of the
consumer that this may rest on.
-/

namespace Library

universe u v w

variable {σ : Type u} {α : Type v} {β : Type w} (next : σ → Option (β × σ))

/-- The outputs until the consumer stops, each with the state after it. -/
inductive Drained : σ → List (β × σ) → Prop
  | stopped {state : σ} (empty : next state = none) : Drained state []
  | taken {state after : σ} {output : β} {later : List (β × σ)}
      (took : next state = some (output, after)) (rest : Drained after later) :
      Drained state ((output, after) :: later)

variable {next}

section Groups

variable {unread : σ → List α} {group : List α → β → Prop} {invariant : σ → Prop}
variable {outputs : List (β × σ)} {state : σ}

/-- The consumer takes the first members of its input as the group of its output. -/
def Consumes (next : σ → Option (β × σ)) (unread : σ → List α) (group : List α → β → Prop)
    (invariant : σ → Prop) : Prop :=
  ∀ state output after, invariant state → next state = some (output, after) →
    invariant after ∧ ∃ members, members ≠ [] ∧ unread state = members ++ unread after ∧
      group members output

variable (consumes : Consumes next unread group invariant)
include consumes

/-- It stops after finitely many outputs. -/
theorem exists_drained (sound : invariant state) :
    ∃ outputs, Drained next state outputs := by
  generalize length : (unread state).length = left
  induction left using Nat.strongRecOn generalizing state with
  | ind left ih =>
    cases took : next state with
    | none => exact ⟨[], .stopped took⟩
    | some pair =>
      obtain ⟨output, after⟩ := pair
      obtain ⟨soundAfter, members, some, cut, _⟩ := consumes state output after sound took
      have shorter : (unread after).length < left := by
        have positive := List.length_pos_of_ne_nil some
        rw [← length, cut, List.length_append]
        omega
      obtain ⟨outputs, rest⟩ := ih _ shorter soundAfter rfl
      exact ⟨_, .taken took rest⟩

/-- The groups of the outputs are the whole input, in its order, if the consumer only
stops without input. -/
theorem Drained.partition (stops : ∀ state, next state = none → unread state = [])
    (sound : invariant state) (drained : Drained next state outputs) :
    ∃ groups, groups.flatten = unread state ∧ List.Forall₂ group groups (outputs.map Prod.fst) := by
  induction drained with
  | stopped empty => exact ⟨[], (stops _ empty).symm, .nil⟩
  | taken took _ ih =>
    obtain ⟨soundAfter, members, _, cut, made⟩ := consumes _ _ _ sound took
    obtain ⟨groups, flat, all⟩ := ih soundAfter
    refine ⟨members :: groups, ?_, .cons made all⟩
    rw [List.flatten_cons, flat, cut]

/-- The invariant holds after every output. -/
theorem Drained.always (sound : invariant state)
    (drained : Drained next state outputs) : ∀ output ∈ outputs, invariant output.2 := by
  induction drained with
  | stopped _ => exact nofun
  | taken took _ ih =>
    have soundAfter := (consumes _ _ _ sound took).1
    intro output member
    rcases List.mem_cons.mp member with rfl | later
    · exact soundAfter
    · exact ih soundAfter output later

end Groups

end Library
