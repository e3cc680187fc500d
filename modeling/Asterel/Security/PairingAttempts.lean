import Asterel.Library.SlidingWindow
import Asterel.Library.Transitions
import Asterel.Security.Pairing

/-!
# How many codes concurrent pairing attempts can try

A pairing attempt checks the lockout, compares the submitted code and counts its
failure in three critical sections of their own, so attempts of several callers
interleave between them. The section that compares holds the lock of the pairing
code until the code is consumed, hence the code is used at most once.

An attempt that passed the lockout check is not counted until it fails. While
many attempts are between the check and the count, more codes are compared than
the lockout allows. The lockout bounds the comparisons of every window of its
length in every run in which an attempt passes the check only while the counted
failures and the attempts under way are together fewer than the limit.
-/

namespace Asterel.Pairing

open Library List Transitions
open Library.SlidingWindow
open Library.Transitions (parties_perm advanced_perm)

/-- The lockout in nanoseconds. -/
def lockoutNanos : Nat := pairLockoutSecs * nanosPerSec

/-- Where one call of `try_pair` stands. Between `matched` and its return the
call holds the lock of the pairing code. A failed comparison carries its instant;
without an expected code there was none. -/
inductive CallPhase where
  | checked (submitted : String)
  | matched
  | cleared
  | failed (comparedAt : Option Nat)
deriving DecidableEq

/-- Whether the call holds the lock of the pairing code. -/
def CallPhase.holdsCode : CallPhase → Bool
  | .matched => true
  | .cleared => true
  | _ => false

/-- When a call that is still to be counted compared its code. -/
def CallPhase.comparedAt : CallPhase → Option Nat
  | .failed comparedAt => comparedAt
  | _ => none

/-- The guard, the clock and the calls under way. The instants of comparisons and
of successful returns, and of the comparisons counted as failures, are
bookkeeping of the model; no step reads them. -/
structure Attempting where
  guard : PairingGuard
  clock : Nat
  calls : List CallPhase
  comparisons : List Nat
  successes : List Nat
  counted : List Nat

def Attempting.new (guard : PairingGuard) (clock : Nat) : Attempting :=
  ⟨guard, clock, [], [], [], []⟩

/-- One critical section of one call, or time passing. -/
inductive AttemptAction where
  | check (submitted : String)
  | compare (index : Nat)
  | clear (index : Nat)
  | issue (index : Nat) (tokenHash : String) (issuedAt : Nat)
  | count (index : Nat)
  | tick (later : Nat)

/-- The lockout check; a locked out call returns at once. -/
def Attempting.check (state : Attempting) (submitted : String) : Attempting :=
  match checkLockout state.guard.failedAttempts state.clock with
  | .error _ => state
  | .ok attempts =>
    { state with
      guard := { state.guard with failedAttempts := attempts }
      calls := state.calls ++ [.checked submitted] }

/-- The comparison, once the lock of the pairing code is free. -/
def Attempting.compare (state : Attempting) (index : Nat) (submitted : String) :
    Option Attempting :=
  if state.calls.any CallPhase.holdsCode then none
  else
    match state.guard.pairingCode with
    | none => some { state with calls := state.calls.set index (.failed none) }
    | some expected =>
      let phase := if codeMatches submitted expected then .matched else .failed (some state.clock)
      some { state with
        calls := state.calls.set index phase
        comparisons := state.comparisons ++ [state.clock] }

/-- A successful call stores its token, consumes the code and returns. -/
def Attempting.issue (state : Attempting) (index : Nat) (tokenHash : String) (issuedAt : Nat) :
    Attempting :=
  { state with
    guard := { state.guard with
      pairedTokens := state.guard.pairedTokens.insert tokenHash issuedAt
      pairingCode := none }
    calls := state.calls.eraseIdx index
    successes := state.successes ++ [state.clock] }

/-- A failed call is counted and returns. -/
def Attempting.count (state : Attempting) (index : Nat) (comparedAt : Option Nat) : Attempting :=
  { state with
    guard := { state.guard with
      failedAttempts := countFailure state.guard.failedAttempts state.clock }
    calls := state.calls.eraseIdx index
    counted := state.counted ++ comparedAt.toList }

def attemptStep (state : Attempting) : AttemptAction → Option Attempting
  | .check submitted => some (state.check submitted)
  | .compare index =>
    match state.calls[index]? with
    | some (.checked submitted) => state.compare index submitted
    | _ => none
  | .clear index =>
    match state.calls[index]? with
    | some .matched =>
      some { state with
        guard := { state.guard with failedAttempts := (0, none) }
        calls := state.calls.set index .cleared }
    | _ => none
  | .issue index tokenHash issuedAt =>
    match state.calls[index]? with
    | some .cleared => some (state.issue index tokenHash issuedAt)
    | _ => none
  | .count index =>
    match state.calls[index]? with
    | some (.failed comparedAt) => some (state.count index comparedAt)
    | _ => none
  | .tick later => if state.clock ≤ later then some { state with clock := later } else none

/-- The bound on guessing: one success at most, and no window of the lockout's length
without a success holds more comparisons than the limit. -/
def BruteForceBounded (state : Attempting) : Prop :=
  state.successes.length ≤ 1 ∧ ∀ start, within start lockoutNanos state.successes = 0 →
      within start lockoutNanos state.comparisons ≤ maxPairAttempts

/-- An attempt passes the lockout check only while the counted failures and the
attempts under way are fewer than the limit. -/
def Metered (state : Attempting) : AttemptAction → Prop
  | .check _ =>
    match checkLockout state.guard.failedAttempts state.clock with
    | .error _ => True
    | .ok attempts => attempts.1 + state.calls.length < maxPairAttempts
  | _ => True

instance (state : Attempting) (action : AttemptAction) : Decidable (Metered state action) := by
  cases action with
  | check =>
    simp only [Metered]
    split
    · infer_instance
    · infer_instance
  | _ => exact inferInstanceAs (Decidable True)

/-- Nobody holds the code twice, and once it is used it is gone. -/
structure SingleUse (state : Attempting) : Prop where
  once : state.calls.countP CallPhase.holdsCode + state.successes.length ≤ 1
  gone : state.successes ≠ [] → state.guard.pairingCode = none

/-- The code can still be compared: it is unused and nobody is about to use it. -/
def Live (state : Attempting) : Prop :=
  state.calls.countP CallPhase.holdsCode = 0 ∧ state.guard.pairingCode ≠ none

/-- Every comparison is counted or waiting to be. The counted ones that are still
recent are within the counter, and once the counter locks pairing out, the
lockout started after all of them. -/
structure Counting (state : Attempting) : Prop where
  split : state.comparisons.Perm (state.counted ++ state.calls.filterMap CallPhase.comparedAt)
  past : ∀ compared ∈ state.comparisons, compared ≤ state.clock
  recent : recent lockoutNanos state.clock state.counted ≤ state.guard.failedAttempts.1
  locked : maxPairAttempts ≤ state.guard.failedAttempts.1 →
    ∃ lockedAt, state.guard.failedAttempts.2 = some lockedAt ∧
      ∀ compared ∈ state.counted, compared ≤ lockedAt

/-- Every comparison was admitted by the sliding window of the lockout. -/
structure Rationed (state : Attempting) : Prop where
  admitted : Admitted lockoutNanos maxPairAttempts state.comparisons
  room : state.guard.failedAttempts.1 + state.calls.length ≤ maxPairAttempts
  counting : Live state → Counting state

section Steps

variable {state next : Attempting}
variable {action : AttemptAction} {index : Nat} {submitted : String}

/-- What each action requires of the call it advances, and what it does. -/
def Attempted (state next : Attempting) : AttemptAction → Prop
  | .check submitted => next = state.check submitted
  | .compare index =>
    ∃ submitted, state.calls[index]? = some (.checked submitted) ∧
      state.compare index submitted = some next
  | .clear index =>
    state.calls[index]? = some .matched ∧ next = { state with
        guard := { state.guard with failedAttempts := (0, none) }
        calls := state.calls.set index .cleared }
  | .issue index tokenHash issuedAt =>
    state.calls[index]? = some .cleared ∧ next = state.issue index tokenHash issuedAt
  | .count index =>
    ∃ comparedAt, state.calls[index]? = some (.failed comparedAt) ∧
      next = state.count index comparedAt
  | .tick later => state.clock ≤ later ∧ next = { state with clock := later }

theorem attempted_of_step (stepped : attemptStep state action = some next) :
    Attempted state next action := by
  cases action with
  | check submitted => exact (Option.some.inj stepped).symm
  | compare index =>
    rw [attemptStep] at stepped
    split at stepped
    · exact ⟨_, ‹_›, stepped⟩
    · cases stepped
  | clear index =>
    rw [attemptStep] at stepped
    split at stepped
    · exact ⟨‹_›, (Option.some.inj stepped).symm⟩
    · cases stepped
  | issue index tokenHash issuedAt =>
    rw [attemptStep] at stepped
    split at stepped
    · exact ⟨‹_›, (Option.some.inj stepped).symm⟩
    · cases stepped
  | count index =>
    rw [attemptStep] at stepped
    split at stepped
    · exact ⟨_, ‹_›, (Option.some.inj stepped).symm⟩
    · cases stepped
  | tick later =>
    rw [attemptStep] at stepped
    split_ifs at stepped with advanced
    exact ⟨advanced, (Option.some.inj stepped).symm⟩

/-- What a comparison does: it finds no expected code, a match, or a mismatch. -/
theorem compare_cases (compared : state.compare index submitted = some next) :
    state.calls.countP CallPhase.holdsCode = 0 ∧ ((state.guard.pairingCode = none ∧
          next = { state with calls := state.calls.set index (.failed none) }) ∨
        (state.guard.pairingCode ≠ none ∧ (next = { state with
              calls := state.calls.set index .matched
              comparisons := state.comparisons ++ [state.clock] } ∨
            next = { state with
              calls := state.calls.set index (.failed (some state.clock))
              comparisons := state.comparisons ++ [state.clock] }))) := by
  rw [Attempting.compare] at compared
  split_ifs at compared with held
  have free : state.calls.countP CallPhase.holdsCode = 0 := by
    rw [countP_eq_zero]
    intro phase member holds
    exact held (any_eq_true.mpr ⟨phase, member, holds⟩)
  refine ⟨free, ?_⟩
  cases code : state.guard.pairingCode with
  | none =>
    simp only [code] at compared
    cases compared
    exact .inl ⟨rfl, rfl⟩
  | some expected =>
    simp only [code] at compared
    cases compared
    refine .inr ⟨Option.some_ne_none expected, ?_⟩
    by_cases same : codeMatches submitted expected
    · exact .inl (by simp [same])
    · exact .inr (by simp [same])

/-- Every step hands the code to at most one call, and only while it is unused. -/
theorem SingleUse.step (single : SingleUse state)
    (stepped : attemptStep state action = some next) : SingleUse next := by
  have attempted := attempted_of_step stepped
  have once := single.once
  cases action with
  | check submitted =>
    rw [attempted, Attempting.check]
    split
    · exact single
    · refine ⟨?_, single.gone⟩
      simpa [countP_append, CallPhase.holdsCode] using once
  | compare index =>
    obtain ⟨submitted, found, compared⟩ := attempted
    obtain ⟨free, outcome⟩ := compare_cases compared
    have others : (state.calls.eraseIdx index).countP CallPhase.holdsCode = 0 := by
      have total := (parties_perm found).countP_eq CallPhase.holdsCode
      rw [free, countP_cons] at total
      omega
    have advanced : ∀ phase, (state.calls.set index phase).countP CallPhase.holdsCode =
        if phase.holdsCode then 1 else 0 := by
      intro phase
      rw [(advanced_perm found phase).countP_eq, countP_cons, others, Nat.zero_add]
    rcases outcome with ⟨_, rfl⟩ | ⟨unused, rfl | rfl⟩
    · refine ⟨?_, single.gone⟩
      simp only [advanced, CallPhase.holdsCode, Bool.false_eq_true, ↓reduceIte]
      omega
    · have none : state.successes = [] := by
        by_contra used
        exact unused (single.gone used)
      refine ⟨?_, single.gone⟩
      simp [advanced, CallPhase.holdsCode, none]
    · refine ⟨?_, single.gone⟩
      simp only [advanced, CallPhase.holdsCode, Bool.false_eq_true, ↓reduceIte]
      omega
  | clear index =>
    obtain ⟨found, rfl⟩ := attempted
    refine ⟨?_, single.gone⟩
    rw [(parties_perm found).countP_eq, countP_cons] at once
    simpa [(advanced_perm found .cleared).countP_eq, countP_cons, CallPhase.holdsCode]
      using once
  | issue index tokenHash issuedAt =>
    obtain ⟨found, rfl⟩ := attempted
    refine ⟨?_, fun _ => rfl⟩
    rw [(parties_perm found).countP_eq, countP_cons] at once
    simp only [CallPhase.holdsCode, ↓reduceIte, Attempting.issue, length_append,
      length_singleton] at once ⊢
    omega
  | count index =>
    obtain ⟨comparedAt, found, rfl⟩ := attempted
    refine ⟨?_, single.gone⟩
    rw [(parties_perm found).countP_eq, countP_cons] at once
    simpa [Attempting.count, CallPhase.holdsCode] using once
  | tick later =>
    obtain ⟨_, rfl⟩ := attempted
    exact ⟨once, single.gone⟩

variable (rationed : Rationed state)
include rationed

/-- Passing the check keeps the counters, dropping those of an ended lockout. -/
theorem Rationed.check
    (metered : Metered state (.check submitted)) : Rationed (state.check submitted) := by
  rw [Metered] at metered
  rw [Attempting.check]
  split
  · exact rationed
  · rename_i attempts passed
    simp only [passed] at metered
    have room : attempts.1 + (state.calls ++ [CallPhase.checked submitted]).length ≤
        maxPairAttempts := by
      rw [length_append, length_singleton]
      omega
    refine ⟨rationed.admitted, room, ?_⟩
    rintro ⟨free, unused⟩
    have live : Live state := by
      refine ⟨?_, unused⟩
      simpa [countP_append, CallPhase.holdsCode] using free
    have counting := rationed.counting live
    have waiting : (state.calls ++ [CallPhase.checked submitted]).filterMap CallPhase.comparedAt =
        state.calls.filterMap CallPhase.comparedAt := by
      simp [filterMap_append, CallPhase.comparedAt]
    rcases checkLockout_ok passed with rfl | ⟨rfl, limit, ended⟩
    · exact ⟨by simpa only [waiting] using counting.split, counting.past, counting.recent,
        counting.locked⟩
    · obtain ⟨lockedAt, started, before⟩ := counting.locked limit
      have aged : ∀ compared ∈ state.counted, compared + lockoutNanos ≤ state.clock := by
        intro compared member
        have after := ended lockedAt started
        have earlier := before compared member
        rw [lockoutNanos]
        omega
      refine ⟨by simpa only [waiting] using counting.split, counting.past, ?_, ?_⟩
      · exact (recent_eq_zero aged).le
      · intro impossible
        exact absurd impossible (show ¬ maxPairAttempts ≤ 0 by decide)

/-- A comparison finds fewer recent ones than the limit. -/
theorem Rationed.admits (live : Live state)
    (found : state.calls[index]? = some (.checked submitted)) :
    Admitted lockoutNanos maxPairAttempts (state.comparisons ++ [state.clock]) := by
  have counting := rationed.counting live
  apply rationed.admitted.snoc _ _
  have calls := parties_perm found
  have waiting : (state.calls.filterMap CallPhase.comparedAt).length + 1 ≤ state.calls.length := by
    have kept := (calls.filterMap CallPhase.comparedAt).length_eq
    have total := calls.length_eq
    have others := length_filterMap_le CallPhase.comparedAt (state.calls.eraseIdx index)
    simp only [filterMap_cons, CallPhase.comparedAt, length_cons] at kept total
    omega
  have recentSplit : recent lockoutNanos state.clock state.comparisons =
      recent lockoutNanos state.clock state.counted +
        recent lockoutNanos state.clock (state.calls.filterMap CallPhase.comparedAt) := by
    rw [← recent_append]
    exact counting.split.countP_eq _
  have bounded : recent lockoutNanos state.clock (state.calls.filterMap CallPhase.comparedAt) ≤
      (state.calls.filterMap CallPhase.comparedAt).length := countP_le_length
  have counted := counting.recent
  have room := rationed.room
  omega

/-- Comparing moves one instant to the calls waiting to be counted. -/
theorem Rationed.compare (found : state.calls[index]? = some (.checked submitted))
    (compared : state.compare index submitted = some next) : Rationed next := by
  obtain ⟨free, outcome⟩ := compare_cases compared
  have calls := parties_perm found
  rcases outcome with ⟨missing, rfl⟩ | ⟨unused, rfl | rfl⟩
  · refine ⟨rationed.admitted, by simpa using rationed.room, ?_⟩
    rintro ⟨_, unused⟩
    exact absurd missing unused
  · refine ⟨rationed.admits ⟨free, unused⟩ found, by simpa using rationed.room, ?_⟩
    rintro ⟨held, _⟩
    rw [(advanced_perm found .matched).countP_eq, countP_cons] at held
    simp [CallPhase.holdsCode] at held
  · refine ⟨rationed.admits ⟨free, unused⟩ found, by simpa using rationed.room, fun _ => ?_⟩
    have counting := rationed.counting ⟨free, unused⟩
    refine ⟨?_, ?_, counting.recent, counting.locked⟩
    · have advanced := (advanced_perm found (.failed (some state.clock))).filterMap
        CallPhase.comparedAt
      have kept := calls.filterMap CallPhase.comparedAt
      simp only [filterMap_cons, CallPhase.comparedAt] at advanced kept
      calc Perm (state.comparisons ++ [state.clock]) (state.clock :: state.comparisons) :=
            perm_append_singleton _ _
        Perm _ (state.clock :: (state.counted ++ state.calls.filterMap CallPhase.comparedAt)) :=
          counting.split.cons _
        Perm _ (state.counted ++ state.clock :: state.calls.filterMap CallPhase.comparedAt) :=
          perm_middle.symm
        Perm _ (state.counted ++
            (state.calls.set index (.failed (some state.clock))).filterMap CallPhase.comparedAt) :=
          ((kept.cons state.clock).trans advanced.symm).append_left state.counted
    · intro instant member
      rcases mem_append.mp member with earlier | new
      · exact counting.past instant earlier
      · exact (mem_singleton.mp new).le

/-- Counting a failure moves its comparison to the counted ones. -/
theorem Rationed.count {comparedAt : Option Nat}
    (found : state.calls[index]? = some (.failed comparedAt)) :
    Rationed (state.count index comparedAt) := by
  have calls := parties_perm found
  have room := rationed.room
  have fewer : (state.calls.eraseIdx index).length + 1 = state.calls.length := calls.length_eq.symm
  have unwrapped : (state.guard.failedAttempts.1 + 1) % 2 ^ 32 =
      state.guard.failedAttempts.1 + 1 := by
    simp only [maxPairAttempts] at room
    omega
  refine ⟨rationed.admitted, ?_, ?_⟩
  · simp only [Attempting.count, countFailure, unwrapped]
    omega
  · rintro ⟨free, unused⟩
    have live : Live state := by
      refine ⟨?_, unused⟩
      rw [calls.countP_eq, countP_cons]
      simpa [CallPhase.holdsCode, Attempting.count] using free
    have counting := rationed.counting live
    have waiting := calls.filterMap CallPhase.comparedAt
    have split : Perm state.comparisons ((state.counted ++ comparedAt.toList) ++
        (state.calls.eraseIdx index).filterMap CallPhase.comparedAt) := by
      refine counting.split.trans ?_
      rw [append_assoc]
      refine Perm.append_left state.counted (waiting.trans ?_)
      cases comparedAt with
      | none => exact .refl _
      | some instant => exact .refl _
    have past : ∀ compared ∈ state.counted ++ comparedAt.toList, compared ≤ state.clock := by
      intro compared member
      exact counting.past compared (split.mem_iff.mpr (mem_append_left _ member))
    refine ⟨split, counting.past, ?_, ?_⟩
    · have added : recent lockoutNanos state.clock comparedAt.toList ≤ comparedAt.toList.length :=
        countP_le_length
      have single : comparedAt.toList.length ≤ 1 := by cases comparedAt <;> simp
      have before := counting.recent
      simp only [Attempting.count, countFailure, unwrapped, recent_append]
      omega
    · intro limit
      simp only [Attempting.count, countFailure, unwrapped] at limit ⊢
      exact ⟨state.clock, if_pos limit, past⟩

/-- Every metered step keeps the comparisons rationed. -/
theorem Rationed.step
    (metered : Metered state action) (stepped : attemptStep state action = some next) :
    Rationed next := by
  have attempted := attempted_of_step stepped
  cases action with
  | check submitted =>
    rw [attempted]
    exact rationed.check metered
  | compare index =>
    obtain ⟨submitted, found, compared⟩ := attempted
    exact rationed.compare found compared
  | clear index =>
    obtain ⟨found, rfl⟩ := attempted
    have room := rationed.room
    refine ⟨rationed.admitted, ?_, ?_⟩
    · simp only [length_set]
      omega
    · rintro ⟨held, _⟩
      rw [(advanced_perm found .cleared).countP_eq, countP_cons] at held
      simp [CallPhase.holdsCode] at held
  | issue index tokenHash issuedAt =>
    obtain ⟨found, rfl⟩ := attempted
    have room := rationed.room
    have fewer := (parties_perm found).length_eq
    refine ⟨rationed.admitted, ?_, fun live => absurd rfl live.2⟩
    simp only [Attempting.issue, length_cons] at fewer ⊢
    omega
  | count index =>
    obtain ⟨comparedAt, found, rfl⟩ := attempted
    exact rationed.count found
  | tick later =>
    obtain ⟨advanced, rfl⟩ := attempted
    refine ⟨rationed.admitted, rationed.room, fun live => ?_⟩
    have counting := rationed.counting live
    exact ⟨counting.split, fun compared member => (counting.past compared member).trans advanced,
      (recent_advance lockoutNanos state.counted advanced).trans counting.recent, counting.locked⟩

end Steps

section Runs

variable (guard : PairingGuard)

/-- A new guard has no calls, comparisons or successes. -/
theorem singleUse_new (clock : Nat) :
    SingleUse (Attempting.new guard clock) :=
  ⟨Nat.zero_le 1, fun used => absurd rfl used⟩

theorem rationed_new (clock : Nat) (fresh : guard.failedAttempts = (0, none)) :
    Rationed (Attempting.new guard clock) := by
  refine ⟨.nil, ?_, fun _ => ⟨.refl _, ?_, ?_, ?_⟩⟩
  · simp only [Attempting.new, fresh, length_nil, Nat.zero_add]
    decide
  · intro compared member
    cases member
  · exact Nat.zero_le _
  · rw [Attempting.new, fresh]
    intro impossible
    exact absurd impossible (by decide)

variable (requirePairing : Bool) (existingTokens : List String) (tokenTtlSecs : Option Nat)
  (file : Option (List PersistedPairingToken)) (now : Nat) (generatedCode : String)

/-- A newly constructed guard at a reading of the monotonic clock. -/
def newAttempting (clock : Nat) : Attempting :=
  .new (newWithStorage requirePairing existingTokens tokenTtlSecs file now generatedCode) clock

/-- One guard pairs at most once in any run, and in every metered run its
comparisons stay within the limit in every window of the lockout's length. -/
theorem pairing_brute_force_bounded (clock : Nat) (actions : List AttemptAction)
    (final : Attempting)
    (ran : run attemptStep (newAttempting requirePairing existingTokens tokenTtlSecs
      file now generatedCode clock) actions = some final) :
    final.successes.length ≤ 1 ∧
      (Transitions.Guarded attemptStep Metered (newAttempting requirePairing existingTokens
          tokenTtlSecs file now generatedCode clock) actions → BruteForceBounded final) := by
  have single : SingleUse final :=
    run_invariant (fun single _ stepped => single.step stepped) (singleUse_new _ clock)
      (guarded_true _ actions) ran
  have once : final.successes.length ≤ 1 := by
    have := single.once
    omega
  refine ⟨once, fun metered => ⟨once, fun start _ => ?_⟩⟩
  have rationed : Rationed final :=
    run_invariant (fun rationed => rationed.step) (rationed_new _ clock rfl) metered ran
  exact rationed.admitted.window_bound start

end Runs

/-- Two callers in turn: a wrong code, then the right one. -/
theorem pairing_brute_force_bounded_in_turn :
    ∃ final, run attemptStep (newAttempting true [] none none 0 "123456" 0)
        [.check "000000", .compare 0, .check "123456", .count 0, .tick 7, .compare 0, .clear 0,
          .issue 0 "hash" 1] = some final ∧
      BruteForceBounded final := by
  obtain ⟨final, ran⟩ := Option.isSome_iff_exists.mp (show (run attemptStep
      (newAttempting true [] none none 0 "123456" 0)
      [.check "000000", .compare 0, .check "123456", .count 0, .tick 7, .compare 0, .clear 0,
        .issue 0 "hash" 1]).isSome = true by decide)
  exact ⟨final, ran, (pairing_brute_force_bounded true [] none none 0 "123456" 0 _ final ran).2
    (by decide)⟩

/-- Six callers that all pass the check first compare six codes at once. -/
theorem six_codes_compared :
    ¬ ∀ (actions : List AttemptAction) (final : Attempting),
      run attemptStep (newAttempting true [] none none 0 "123456" 0) actions = some final →
        BruteForceBounded final := by
  intro bounded
  have observed : ((run attemptStep (newAttempting true [] none none 0 "123456" 0)
      (replicate 6 (.check "000000") ++ (List.range 6).map .compare)).any fun final =>
      final.successes == [] && final.comparisons == [0, 0, 0, 0, 0, 0]) = true := by decide
  obtain ⟨final, ran, shown⟩ := (Option.any_eq_true _ _).mp observed
  simp only [Bool.and_eq_true, beq_iff_eq] at shown
  have within := (bounded _ final ran).2 0
  rw [shown.1, shown.2] at within
  exact absurd (within (by decide)) (by decide)

end Asterel.Pairing
