import Asterel.Core.CircuitBreaker
import Asterel.Library.Text

/-!
# Retries and fallback providers

A provider is called again after an error that a retry may resolve, as often as retries are
allowed. The next one is called once it is given up.
-/

namespace Asterel.ReliableProvider

open CircuitBreaker (ProviderCallError)
open Library List

/-- An error with its text. -/
structure CallError where
  kind : ProviderCallError
  text : List Char

def isQuotaExhausted (message : List Char) : Bool :=
  ["insufficient_quota", "exceeded your current quota", "billing"].any fun pattern =>
    Text.occurs pattern.toList (message.map Char.toLower)

/-- The value of a run of digits, unless it is empty. -/
def code (word : List Char) : Option Nat := (String.ofList word).toNat?

def CallError.isNonRetryable (error : CallError) : Bool :=
  match error.kind with
  | .provider .auth | .provider .clientError | .provider .quotaExhausted
  | .provider .missingCredentials | .provider .responseParse | .provider .emptyResponse => true
  | .provider _ => false
  | .other => isQuotaExhausted error.text ||
    ((((error.text.splitOnP (!·.isDigit)).filterMap code).find? fun code =>
      400 ≤ code ∧ code < 500).any fun code => code ≠ 429 ∧ code ≠ 408)

variable {σ T : Type}

/-- A provider, with what a call makes of everything outside. -/
structure Provider (σ T : Type) where
  name : String
  call : σ → Except CallError T × σ

/-- A failed attempt, and the wait after it. -/
structure Failure where
  providerName : String
  attempt : Nat
  error : CallError
  backoffMs : Option Nat

section Calls

variable (maxRetries : Nat)

/-- The attempts from one on. -/
def callFrom (provider : Provider σ T) (attempt backoffMs : Nat) (state : σ) :
    Option T × σ × List Failure :=
  match provider.call state with
  | (.ok response, state) => (some response, state, [])
  | (.error error, state) =>
    if error.isNonRetryable then (none, state, [⟨provider.name, attempt + 1, error, none⟩])
    else if attempt < maxRetries then
      let (response, state, failures) := callFrom provider (attempt + 1) (min (backoffMs * 2) 10000) state
      (response, state, ⟨provider.name, attempt + 1, error, some backoffMs⟩ :: failures)
    else (none, state, [⟨provider.name, attempt + 1, error, none⟩])
termination_by maxRetries - attempt

/-- `ReliableProvider::new` raises a lower base to 50. -/
def executeWithFallback (baseBackoffMs : Nat) :
    List (Provider σ T) → σ → Except (List Failure) T × σ
  | [], state => (.error [], state)
  | provider :: rest, state =>
    match callFrom maxRetries provider 0 (max baseBackoffMs 50) state with
    | (some response, state, _) => (.ok response, state)
    | (none, state, failures) =>
      let (outcome, state) := executeWithFallback baseBackoffMs rest state
      (outcome.mapError (failures ++ ·), state)

end Calls

section Specification

variable {maxRetries : Nat} {provider : Provider σ T}

/-- Call after call fails with these errors. -/
inductive Fails (call : σ → Except CallError T × σ) : σ → List CallError → σ → Prop
  | nil {state : σ} : Fails call state [] state
  | cons {state next final : σ} {error : CallError} {errors : List CallError}
      (failed : call state = (.error error, next)) (later : Fails call next errors final) :
      Fails call state (error :: errors) final

/-- The retries end with the first error that no retry resolves, or as there are no more. -/
def Exhausts (retries : Nat) (errors : List CallError) : Prop :=
  ∃ front last, errors = front ++ [last] ∧ (∀ error ∈ front, error.isNonRetryable = false) ∧
    front.length ≤ retries ∧ (last.isNonRetryable = true ∨ front.length = retries)

/-- Every provider is given up, in order, with these failures. -/
inductive GivenUp (maxRetries : Nat) : List (Provider σ T) → σ → List (String × CallError) → σ → Prop
  | nil {state : σ} : GivenUp maxRetries [] state [] state
  | cons {provider : Provider σ T} {rest : List (Provider σ T)} {state next final : σ}
      {errors : List CallError} {later : List (String × CallError)}
      (failed : Fails provider.call state errors next) (exhausted : Exhausts maxRetries errors)
      (others : GivenUp maxRetries rest next later final) :
      GivenUp maxRetries (provider :: rest) state (errors.map (provider.name, ·) ++ later) final

theorem callFrom_spec (attempt backoffMs : Nat) (state : σ) (begun : attempt ≤ maxRetries) :
    ∃ response final failures, callFrom maxRetries provider attempt backoffMs state =
        (response, final, failures) ∧ ∃ errors last, Fails provider.call state errors last ∧
      match response with
      | some response => provider.call last = (.ok response, final) ∧
        (∀ error ∈ errors, error.isNonRetryable = false) ∧ attempt + errors.length ≤ maxRetries
      | none => last = final ∧ Exhausts (maxRetries - attempt) errors ∧
        failures.map (fun failure => (failure.providerName, failure.error)) =
          errors.map (provider.name, ·) := by
  fun_induction callFrom maxRetries provider attempt backoffMs state with
  | case1 attempt backoffMs state response next answered =>
    exact ⟨_, _, _, rfl, [], state, .nil, answered, by simp, begun⟩
  | case2 attempt backoffMs state error next failed final =>
    refine ⟨_, _, _, rfl, [error], next, .cons failed .nil, rfl, ⟨[], error, rfl, ?_⟩, rfl⟩
    exact ⟨by simp, Nat.zero_le _, Or.inl final⟩
  | case3 attempt backoffMs state error next failed retryable more response final failures later ih =>
    obtain ⟨_, _, _, same, errors, last, fails, meaning⟩ := ih more
    cases later.symm.trans same
    refine ⟨_, _, _, rfl, error :: errors, last, .cons failed fails, ?_⟩
    rw [Bool.not_eq_true] at retryable
    cases response with
    | some response =>
      obtain ⟨answered, others, bound⟩ := meaning
      exact ⟨answered, forall_mem_cons.mpr ⟨retryable, others⟩, by rw [length_cons]; omega⟩
    | none =>
      obtain ⟨rfl, ⟨front, end_, rfl, others, bound, exhausted⟩, listed⟩ := meaning
      refine ⟨rfl, ⟨error :: front, end_, rfl, forall_mem_cons.mpr ⟨retryable, others⟩, ?_⟩, ?_⟩
      · exact ⟨by rw [length_cons]; omega, exhausted.imp_right fun _ => by rw [length_cons]; omega⟩
      · rw [map_cons, map_cons, listed]
  | case4 attempt backoffMs state error next failed retryable none =>
    refine ⟨_, _, _, rfl, [error], next, .cons failed .nil, rfl, ⟨[], error, rfl, ?_⟩, rfl⟩
    exact ⟨by simp, Nat.zero_le _, Or.inr (Nat.sub_eq_zero_of_le (Nat.not_lt.mp none)).symm⟩

/-- A response is that of the first provider that is not given up, within its retries. Without one
every provider was given up in order, and the failures are all of theirs. -/
theorem executeWithFallback_spec (maxRetries baseBackoffMs : Nat) (providers : List (Provider σ T))
    (state : σ) :
    match executeWithFallback maxRetries baseBackoffMs providers state with
    | (.ok response, final) => ∃ before provider after failures reached errors last,
      providers = before ++ provider :: after ∧ GivenUp maxRetries before state failures reached ∧
        Fails provider.call reached errors last ∧ errors.length ≤ maxRetries ∧
          (∀ error ∈ errors, error.isNonRetryable = false) ∧ provider.call last = (.ok response, final)
    | (.error failures, final) => GivenUp maxRetries providers state
      (failures.map fun failure => (failure.providerName, failure.error)) final := by
  induction providers generalizing state with
  | nil => exact .nil
  | cons provider rest ih =>
    obtain ⟨response, next, failures, called, errors, last, fails, meaning⟩ :=
      @callFrom_spec _ _ maxRetries provider 0 (max baseBackoffMs 50) state (Nat.zero_le _)
    rw [executeWithFallback, called]
    cases response with
    | some response =>
      obtain ⟨answered, retryable, bound⟩ := meaning
      exact ⟨[], provider, rest, [], state, errors, last, rfl, .nil, fails, by omega, retryable, answered⟩
    | none =>
      obtain ⟨rfl, exhausted, listed⟩ := meaning
      have found := ih last
      revert found
      dsimp only
      rcases executeWithFallback maxRetries baseBackoffMs rest last with ⟨more | response, final⟩
      · intro others
        have all := GivenUp.cons fails exhausted others
        rw [← listed, ← map_append] at all
        exact all
      · rintro ⟨before, other, after, more, reached, _, _, rfl, givenUp, answer⟩
        exact ⟨provider :: before, other, after, _, reached, _, _, rfl, .cons fails exhausted givenUp, answer⟩

end Specification

end Asterel.ReliableProvider
