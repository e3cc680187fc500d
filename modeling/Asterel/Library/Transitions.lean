import Mathlib.Data.List.Perm.Basic

/-!
# Runs of interleaved atomic steps

A concurrent component is a partial step function: each action is one atomic
step of one party, and an action that is not enabled has no result. A run is a
list of actions. Some guarantees only hold for runs whose steps meet a side
condition in the state they start from; the invariant rule takes that condition
into account.
-/

namespace Library.Transitions

universe u v

variable {σ : Type u} {α : Type v} (step : σ → α → Option σ)

/-- Take the actions in order; a run with an action that is not enabled has no
result. -/
def run : σ → List α → Option σ
  | state, [] => some state
  | state, action :: rest =>
    match step state action with
    | some next => run next rest
    | none => none

/-- Every action taken meets the condition in the state it is taken from. -/
def Guarded (condition : σ → α → Prop) : σ → List α → Prop
  | _, [] => True
  | state, action :: rest =>
    condition state action ∧ ∀ next, step state action = some next → Guarded condition next rest

/-- The property holds in the start and in every state the run reaches. -/
def Always (property : σ → Prop) : σ → List α → Prop
  | state, [] => property state
  | state, action :: rest =>
    property state ∧ ∀ next, step state action = some next → Always property next rest

variable {step} {condition : σ → α → Prop}

theorem run_cons_eq_some {start final : σ} {action : α} {rest : List α}
    (ran : run step start (action :: rest) = some final) :
    ∃ next, step start action = some next ∧ run step next rest = some final := by
  rw [run] at ran
  cases stepped : step start action with
  | none => simp [stepped] at ran
  | some next => exact ⟨next, rfl, by simpa only [stepped] using ran⟩

/-- What holds along a run holds at its end. -/
theorem always_final {property : σ → Prop} {start final : σ} {actions : List α}
    (always : Always step property start actions) (ran : run step start actions = some final) :
    property final := by
  induction actions generalizing start with
  | nil =>
    cases ran
    exact always
  | cons action rest ih =>
    obtain ⟨next, stepped, ran⟩ := run_cons_eq_some ran
    exact ih (always.2 next stepped) ran

/-- What follows from an invariant of the conditioned steps holds along every
conditioned run. -/
theorem always_of_guarded {property invariant : σ → Prop}
    (implied : ∀ {state : σ}, invariant state → property state)
    (preserved : ∀ {state next : σ} {action : α}, invariant state → condition state action →
      step state action = some next → invariant next)
    {start : σ} (initial : invariant start) {actions : List α}
    (guarded : Guarded step condition start actions) : Always step property start actions := by
  induction actions generalizing start with
  | nil => exact implied initial
  | cons action rest ih =>
    obtain ⟨met, later⟩ := guarded
    refine ⟨implied initial, ?_⟩
    intro next stepped
    exact ih (preserved initial met stepped) (later next stepped)

/-- What every conditioned step preserves holds after every conditioned run. -/
theorem run_invariant {invariant : σ → Prop}
    (preserved : ∀ {state next : σ} {action : α}, invariant state → condition state action →
      step state action = some next → invariant next)
    {start final : σ} {actions : List α} (initial : invariant start)
    (guarded : Guarded step condition start actions)
    (ran : run step start actions = some final) : invariant final :=
  always_final (always_of_guarded (fun held => held) preserved initial guarded) ran

/-- Steps that meet one condition meet another one that follows from it in the states
they reach. -/
theorem guarded_of_guarded {wanted : σ → α → Prop} {invariant : σ → Prop}
    (implied : ∀ {state : σ} {action : α}, invariant state → condition state action →
      wanted state action)
    (preserved : ∀ {state next : σ} {action : α}, invariant state → condition state action →
      step state action = some next → invariant next)
    {start : σ} (initial : invariant start) {actions : List α}
    (guarded : Guarded step condition start actions) : Guarded step wanted start actions := by
  induction actions generalizing start with
  | nil => trivial
  | cons action rest ih =>
    obtain ⟨met, later⟩ := guarded
    refine ⟨implied initial met, ?_⟩
    intro next stepped
    exact ih (preserved initial met stepped) (later next stepped)

/-- A property that a step keeps exactly when it meets the condition holds along a
run exactly when every step does. The exactness may rest on an invariant that steps
keep as long as the property holds. -/
theorem always_iff_guarded_of_invariant {property invariant : σ → Prop}
    (disabled : ∀ {state : σ} {action : α}, step state action = none → condition state action)
    (kept : ∀ {state next : σ} {action : α}, invariant state → property state →
      step state action = some next → invariant next)
    (exact : ∀ {state next : σ} {action : α}, invariant state → property state →
      step state action = some next → (property next ↔ condition state action))
    {start : σ} (sound : invariant start) (initial : property start) (actions : List α) :
    Always step property start actions ↔ Guarded step condition start actions := by
  induction actions generalizing start with
  | nil => exact iff_of_true initial trivial
  | cons action rest ih =>
    rw [Always, Guarded]
    cases stepped : step start action with
    | none => simp [initial, disabled stepped]
    | some next =>
      have only : ∀ {predicate : σ → Prop},
          (∀ other, some next = some other → predicate other) ↔ predicate next := by
        intro predicate
        simp
      rw [only, only]
      constructor
      · rintro ⟨_, later⟩
        have reached : property next := by
          cases rest with
          | nil => exact later
          | cons _ _ => exact later.1
        exact ⟨(exact sound initial stepped).mp reached,
          (ih (kept sound initial stepped) reached).mp later⟩
      · rintro ⟨met, later⟩
        have reached : property next := (exact sound initial stepped).mpr met
        exact ⟨initial, (ih (kept sound initial stepped) reached).mpr later⟩

/-- The same for steps that are always enabled, without an invariant. -/
theorem always_iff_guarded {property : σ → Prop}
    (enabled : ∀ state action, ∃ next, step state action = some next)
    (exact : ∀ {state next : σ} {action : α}, property state → step state action = some next →
      (property next ↔ condition state action))
    {start : σ} (initial : property start) (actions : List α) :
    Always step property start actions ↔ Guarded step condition start actions := by
  have disabled : ∀ {state : σ} {action : α}, step state action = none → condition state action := by
    intro state action stopped
    obtain ⟨next, stepped⟩ := enabled state action
    rw [stepped] at stopped
    cases stopped
  exact @always_iff_guarded_of_invariant σ α step condition property (fun _ => True) disabled
    (fun _ _ _ => trivial) (fun _ held stepped => exact held stepped) start trivial initial actions

/-- A run of two parts. -/
theorem run_append {start middle : σ} {first second : List α}
    (ran : run step start first = some middle) :
    run step start (first ++ second) = run step middle second := by
  induction first generalizing start with
  | nil =>
    cases ran
    rfl
  | cons action rest ih =>
    obtain ⟨next, stepped, ran⟩ := run_cons_eq_some ran
    rw [List.cons_append, run, stepped]
    exact ih ran

/-- A run of two parts that has a result reaches a state between them. -/
theorem run_append_eq_some {start final : σ} {first second : List α}
    (ran : run step start (first ++ second) = some final) :
    ∃ middle, run step start first = some middle ∧ run step middle second = some final := by
  induction first generalizing start with
  | nil => exact ⟨start, rfl, ran⟩
  | cons action rest ih =>
    obtain ⟨next, stepped, ran⟩ := run_cons_eq_some ran
    rw [run, stepped]
    exact ih ran

/-- A run and its last step. -/
theorem run_concat_eq_some {start final : σ} {actions : List α} {action : α}
    (ran : run step start (actions ++ [action]) = some final) :
    ∃ middle, run step start actions = some middle ∧ step middle action = some final := by
  obtain ⟨middle, ran, last⟩ := run_append_eq_some ran
  obtain ⟨next, stepped, done⟩ := run_cons_eq_some last
  cases done
  exact ⟨middle, ran, stepped⟩

/-- The condition on a run of two parts. -/
theorem guarded_append {start middle : σ} {first second : List α}
    (guarded : Guarded step condition start (first ++ second))
    (ran : run step start first = some middle) :
    Guarded step condition start first ∧ Guarded step condition middle second := by
  induction first generalizing start with
  | nil =>
    cases ran
    exact ⟨trivial, guarded⟩
  | cons action rest ih =>
    obtain ⟨met, later⟩ := guarded
    obtain ⟨next, stepped, ran⟩ := run_cons_eq_some ran
    obtain ⟨left, right⟩ := ih (later next stepped) ran
    refine ⟨⟨met, fun other same => ?_⟩, right⟩
    cases stepped.symm.trans same
    exact left

/-- Steps that meet every condition are guarded by the trivial one. -/
theorem guarded_true (start : σ) (actions : List α) :
    Guarded step (fun _ _ => True) start actions := by
  induction actions generalizing start with
  | nil => trivial
  | cons action rest ih =>
    exact ⟨trivial, fun next _ => ih next⟩

instance decidableGuarded [∀ state action, Decidable (condition state action)] :
    (start : σ) → (actions : List α) → Decidable (Guarded step condition start actions)
  | _, [] => isTrue trivial
  | start, action :: rest =>
    match stepped : step start action with
    | some next =>
      have := decidableGuarded next rest
      decidable_of_iff (condition start action ∧ Guarded step condition next rest) (by
        simp [Guarded, stepped])
    | none => decidable_of_iff (condition start action) (by simp [Guarded, stepped])

section Parties

variable {π : Type u} {parties : List π} {index : Nat} {party : π}

/-- The parties are the one at an index and the others. -/
theorem parties_perm (found : parties[index]? = some party) :
    parties.Perm (party :: parties.eraseIdx index) := by
  obtain ⟨inside, same⟩ := List.getElem?_eq_some_iff.mp found
  rw [← same]
  exact (List.getElem_cons_eraseIdx_perm inside).symm

/-- Advancing one party replaces it among the others. -/
theorem advanced_perm (found : parties[index]? = some party) (next : π) :
    (parties.set index next).Perm (next :: parties.eraseIdx index) := by
  obtain ⟨inside, _⟩ := List.getElem?_eq_some_iff.mp found
  exact List.set_perm_cons_eraseIdx inside next

end Parties

end Library.Transitions
