import Asterel.Library.Transitions
import Mathlib.Data.List.Infix

/-!
# The circuit breaker around a provider

The breaker's state is behind one lock, so its three operations are atomic. A
guarded call takes the lock twice, to be admitted and to report its result, and
the reports of several calls arrive in any order. A call admitted while the
breaker was closed may report its success after the breaker opened; that report
closes the breaker at once and ends the open window. In every run without such a
report the window is kept, and the breaker closes only after the configured
number of successes in the half-open state.
-/

namespace Asterel.CircuitBreaker

open Library Transitions

/-- Times are in nanoseconds. -/
structure CircuitBreakerConfig where
  failureThreshold : Nat
  recoveryTimeout : Nat
  halfOpenMaxCalls : Nat
  deriving DecidableEq

inductive CircuitState
  | closed
  | opened
  | halfOpen
  deriving DecidableEq

structure BreakerState where
  state : CircuitState
  consecutiveFailures : Nat
  openedAt : Option Nat
  halfOpenSuccesses : Nat
  deriving DecidableEq

def BreakerState.new : BreakerState := ⟨.closed, 0, none, 0⟩

/-- The kinds of errors of a provider. -/
inductive ProviderError
  | auth
  | rateLimited
  | clientError
  | serverError
  | quotaExhausted
  | missingCredentials
  | network
  | responseParse
  | emptyResponse
  | allProvidersFailed
  deriving DecidableEq

inductive ProviderCallError
  | provider (error : ProviderError)
  | other
  deriving DecidableEq

/-- Errors that indicate a degraded provider. -/
def isTransient : ProviderCallError → Bool
  | .provider .rateLimited => true
  | .provider .serverError => true
  | .provider .network => true
  | .provider _ => false
  | .other => true

/-- What the error of a rejected call reports. -/
structure Rejection where
  status : Nat
  consecutiveFailures : Nat
  remaining : Nat
  deriving DecidableEq

section Operations

variable (config : CircuitBreakerConfig)

/-- Whether a call is allowed now. -/
def checkAllowed (breaker : BreakerState) (now : Nat) :
    Except Rejection Unit × BreakerState :=
  match breaker.state with
  | .closed => (.ok (), breaker)
  | .halfOpen => (.ok (), breaker)
  | .opened =>
    match breaker.openedAt with
    | some openedAt =>
      if config.recoveryTimeout ≤ now - openedAt then
        (.ok (), { breaker with state := .halfOpen, halfOpenSuccesses := 0 })
      else
        (.error ⟨503, breaker.consecutiveFailures, config.recoveryTimeout - (now - openedAt)⟩,
          breaker)
    | none => (.ok (), { breaker with state := .closed })

def recordSuccess (breaker : BreakerState) : BreakerState :=
  match breaker.state with
  | .closed => { breaker with consecutiveFailures := 0 }
  | .halfOpen =>
    let breaker := { breaker with halfOpenSuccesses := breaker.halfOpenSuccesses + 1 }
    if config.halfOpenMaxCalls ≤ breaker.halfOpenSuccesses then
      { breaker with state := .closed, consecutiveFailures := 0, openedAt := none }
    else
      breaker
  | .opened => { breaker with state := .closed, consecutiveFailures := 0, openedAt := none }

def recordFailure (breaker : BreakerState) (now : Nat) (err : ProviderCallError) :
    BreakerState :=
  if isTransient err then
    match breaker.state with
    | .closed =>
      let breaker := { breaker with consecutiveFailures := breaker.consecutiveFailures + 1 }
      if config.failureThreshold ≤ breaker.consecutiveFailures then
        { breaker with state := .opened, openedAt := some now }
      else
        breaker
    | .halfOpen => { breaker with state := .opened, openedAt := some now, halfOpenSuccesses := 0 }
    | .opened => breaker
  else
    breaker

end Operations

/-- What one holder of the lock did. -/
inductive Event
  | check (admitted : Bool)
  | success
  | failure (transient : Bool)
  deriving DecidableEq

/-- An event with its instant and the state of the circuit around it. -/
structure Record where
  event : Event
  instant : Nat
  before : CircuitState
  after : CircuitState
  deriving DecidableEq

/-- The breaker, the clock and the number of calls between their admission and
their report. The history, newest first, is bookkeeping of the model; no step
reads it. -/
structure System where
  breaker : BreakerState
  clock : Nat
  inFlight : Nat
  history : List Record

def System.new (clock : Nat) : System := ⟨BreakerState.new, clock, 0, []⟩

def System.record (system : System) (event : Event) (next : BreakerState) (inFlight : Nat) :
    System :=
  { system with
    breaker := next
    inFlight
    history := ⟨event, system.clock, system.breaker.state, next.state⟩ :: system.history }

/-- One call asks for admission, an admitted call reports its result or is
dropped, or time passes. -/
inductive Action
  | call
  | finish (result : Except ProviderCallError Unit)
  | abandon
  | tick (later : Nat)

section Runs

variable (config : CircuitBreakerConfig)

def step (system : System) : Action → Option System
  | .call =>
    match checkAllowed config system.breaker system.clock with
    | (.ok (), next) => some (system.record (.check true) next (system.inFlight + 1))
    | (.error _, next) => some (system.record (.check false) next system.inFlight)
  | .finish result =>
    if system.inFlight = 0 then
      none
    else
      match result with
      | .ok () =>
        some (system.record .success (recordSuccess config system.breaker) (system.inFlight - 1))
      | .error err =>
        some (system.record (.failure (isTransient err))
          (recordFailure config system.breaker system.clock err) (system.inFlight - 1))
  | .abandon =>
    if system.inFlight = 0 then none else some { system with inFlight := system.inFlight - 1 }
  | .tick later => if system.clock ≤ later then some { system with clock := later } else none

/-- The event moved the circuit to the open state. -/
def Record.Opens (record : Record) : Prop := record.before ≠ .opened ∧ record.after = .opened

/-- After an opening, a check before the recovery timeout is over is rejected. -/
def KeepsOpenWindow (history : List Record) : Prop :=
  history.Pairwise fun newer older =>
    older.Opens → newer.instant < older.instant + config.recoveryTimeout → newer.event ≠ .check true

/-- A success recorded in the half-open state. -/
def Record.isProbeSuccess (record : Record) : Bool :=
  record.event = .success && record.before = .halfOpen

/-- The events up to a return to the closed state end in enough successes in the
half-open state, with no transient failure between them. -/
def ClosesAfterProbes (history : List Record) : Prop :=
  ∀ closing earlier, closing :: earlier <:+ history → closing.before ≠ .closed →
    closing.after = .closed → ∃ probes rest, closing :: earlier = probes ++ rest ∧
        (∀ probe ∈ probes, probe.event ≠ .failure true) ∧
          config.halfOpenMaxCalls ≤ (probes.filter Record.isProbeSuccess).length

/-- The step does not report a success to the open breaker. -/
def NoLateSuccess (system : System) : Action → Prop
  | .finish (.ok ()) => system.breaker.state ≠ .opened
  | _ => True

instance (system : System) : (action : Action) → Decidable (NoLateSuccess system action)
  | .finish (.ok ()) => inferInstanceAs (Decidable (_ ≠ _))
  | .finish (.error _) => isTrue trivial
  | .call => isTrue trivial
  | .abandon => isTrue trivial
  | .tick _ => isTrue trivial

instance (record : Record) : Decidable record.Opens :=
  inferInstanceAs (Decidable (_ ∧ _))

instance (history : List Record) : Decidable (KeepsOpenWindow config history) :=
  inferInstanceAs (Decidable (List.Pairwise _ _))

end Runs

section Counters

variable (config : CircuitBreakerConfig)

/-- Neither counter passes the configured bound that resets it, so 32 bits hold
both whenever they hold the configuration. -/
structure Fits (breaker : BreakerState) : Prop where
  failures : breaker.consecutiveFailures ≤ max config.failureThreshold 1
  successes : breaker.halfOpenSuccesses ≤ max config.halfOpenMaxCalls 1
  closed : breaker.state = .closed →
    breaker.consecutiveFailures = 0 ∨ breaker.consecutiveFailures < config.failureThreshold
  halfOpen : breaker.state = .halfOpen →
    breaker.halfOpenSuccesses = 0 ∨ breaker.halfOpenSuccesses < config.halfOpenMaxCalls
  opened : breaker.state = .opened → breaker.openedAt.isSome

variable {config} {breaker : BreakerState}

theorem checkAllowed_fits (fits : Fits config breaker) (now : Nat) :
    Fits config (checkAllowed config breaker now).2 := by
  obtain ⟨failures, successes, closed, halfOpen, opened⟩ := fits
  cases state : breaker.state with
  | closed => simpa [checkAllowed, state] using ⟨failures, successes, closed, halfOpen, opened⟩
  | halfOpen => simpa [checkAllowed, state] using ⟨failures, successes, closed, halfOpen, opened⟩
  | opened =>
    obtain ⟨openedAt, found⟩ := Option.isSome_iff_exists.mp (opened state)
    simp only [checkAllowed, state, found]
    split
    · exact ⟨failures, Nat.zero_le _, by simp, by simp, by simp⟩
    · exact ⟨failures, successes, closed, halfOpen, opened⟩

theorem recordSuccess_fits (fits : Fits config breaker) :
    Fits config (recordSuccess config breaker) := by
  obtain ⟨failures, successes, closed, halfOpen, opened⟩ := fits
  cases state : breaker.state with
  | closed =>
    simp only [recordSuccess, state]
    exact ⟨Nat.zero_le _, successes, by simp, by simp, by simp⟩
  | halfOpen =>
    have counted := halfOpen state
    simp only [recordSuccess, state]
    split
    · exact ⟨Nat.zero_le _, by simp only; omega, by simp, by simp, by simp⟩
    · exact ⟨failures, by simp only; omega, by simp, by simp only; omega, by simp⟩
  | opened =>
    simp only [recordSuccess, state]
    exact ⟨Nat.zero_le _, successes, by simp, by simp, by simp⟩

theorem recordFailure_fits (fits : Fits config breaker) (now : Nat) (err : ProviderCallError) :
    Fits config (recordFailure config breaker now err) := by
  obtain ⟨failures, successes, closed, halfOpen, opened⟩ := fits
  by_cases transient : isTransient err
  · cases state : breaker.state with
    | closed =>
      have counted := closed state
      simp only [recordFailure, transient, state, ↓reduceIte]
      split
      · exact ⟨by simp only; omega, successes, by simp, by simp, by simp⟩
      · exact ⟨by simp only; omega, successes, by simp only; omega, by simp, by simp⟩
    | halfOpen =>
      simp only [recordFailure, transient, state, ↓reduceIte]
      exact ⟨failures, Nat.zero_le _, by simp, by simp, by simp⟩
    | opened =>
      simpa [recordFailure, transient, state] using
        ⟨failures, successes, closed, halfOpen, opened⟩
  · simpa [recordFailure, transient] using ⟨failures, successes, closed, halfOpen, opened⟩

theorem step_fits {state next : System} {action : Action} (fits : Fits config state.breaker)
    (stepped : step config state action = some next) : Fits config next.breaker := by
  cases action with
  | call =>
    have kept := checkAllowed_fits fits state.clock
    simp only [step] at stepped
    split at stepped <;>
    · rename_i answered
      cases stepped
      simpa [answered, System.record] using kept
  | finish result =>
    simp only [step] at stepped
    split at stepped
    · cases stepped
    · cases result with
      | ok _ =>
        cases stepped
        exact recordSuccess_fits fits
      | error err =>
        cases stepped
        exact recordFailure_fits fits state.clock err
  | abandon =>
    simp only [step] at stepped
    split at stepped
    · cases stepped
    · cases stepped
      exact fits
  | tick later =>
    simp only [step] at stepped
    split at stepped
    · cases stepped
      exact fits
    · cases stepped

/-- The counters fit in every run. -/
theorem counters_fit {clock : Nat} {actions : List Action} {final : System}
    (ran : run (step config) (System.new clock) actions = some final) :
    Fits config final.breaker := by
  have initial : Fits config (System.new clock).breaker :=
    ⟨Nat.zero_le _, Nat.zero_le _, fun _ => Or.inl rfl, fun _ => Or.inl rfl, fun opened => by
      cases opened⟩
  have preserved : ∀ {state next : System} {action : Action}, Fits config state.breaker →
      True → step config state action = some next → Fits config next.breaker := by
    intro state next action fits _ stepped
    exact step_fits fits stepped
  have kept : (fun system : System => Fits config system.breaker) final :=
    run_invariant preserved initial
      (guarded_true (System.new clock) actions) ran
  exact kept

theorem counters_fit_failure : Fits ⟨1, 5, 1⟩ ⟨.opened, 1, some 0, 0⟩ :=
  @counters_fit ⟨1, 5, 1⟩ 0 [.call, .finish (.error .other)] ⟨⟨.opened, 1, some 0, 0⟩, 0, 0, _⟩ rfl

end Counters

section Lawfulness

variable (config : CircuitBreakerConfig)

/-- What one event may do to the breaker: an open window lasts, admission from
the open state follows it, only enough successes in the half-open state close
the breaker, and they are counted from the entry into that state. -/
structure Lawful (clock : Nat) (event : Event) (before after : BreakerState) : Prop where
  lasts : ∀ openedAt, before.state = .opened → before.openedAt = some openedAt →
    clock < openedAt + config.recoveryTimeout →
      event ≠ .check true ∧ after.state = .opened ∧ after.openedAt = some openedAt
  dated : after.state = .opened →
    after.openedAt = if before.state = .opened then before.openedAt else some clock
  closes : before.state ≠ .closed → after.state = .closed →
    before.state = .halfOpen ∧ event = .success ∧
      config.halfOpenMaxCalls ≤ before.halfOpenSuccesses + 1
  counts : after.state = .halfOpen → after.halfOpenSuccesses = 0 ∨
      (before.state = .halfOpen ∧ event = .success ∧
        after.halfOpenSuccesses ≤ before.halfOpenSuccesses + 1) ∨
      (before.state = .halfOpen ∧ event ≠ .failure true ∧
        after.halfOpenSuccesses = before.halfOpenSuccesses)

/-- An open breaker knows since when. -/
def Dated (breaker : BreakerState) (clock : Nat) : Prop :=
  breaker.state = .opened → ∃ openedAt, breaker.openedAt = some openedAt ∧ openedAt ≤ clock

variable {config} {breaker : BreakerState} {clock : Nat}

/-- A breaker that no event changes. -/
theorem lawful_unchanged {event : Event} (notAdmitted : breaker.state = .opened →
    event ≠ .check true) (notFailed : breaker.state = .halfOpen → event ≠ .failure true) :
    Lawful config clock event breaker breaker where
  lasts _ opened found _ := ⟨notAdmitted opened, opened, found⟩
  dated opened := by rw [if_pos opened]
  closes differs same := absurd same differs
  counts halfOpen := Or.inr (Or.inr ⟨halfOpen, notFailed halfOpen, rfl⟩)

theorem checkAllowed_ok_lawful (dated : Dated breaker clock) {next : BreakerState}
    (admitted : checkAllowed config breaker clock = (.ok (), next)) :
    Lawful config clock (.check true) breaker next := by
  cases state : breaker.state with
  | closed =>
    simp only [checkAllowed, state, Prod.mk.injEq, true_and] at admitted
    subst admitted
    exact lawful_unchanged (fun same => by simp [state] at same) (fun _ => by simp)
  | halfOpen =>
    simp only [checkAllowed, state, Prod.mk.injEq, true_and] at admitted
    subst admitted
    exact lawful_unchanged (fun same => by simp [state] at same) (fun _ => by simp)
  | opened =>
    obtain ⟨openedAt, found, past⟩ := dated state
    simp only [checkAllowed, state, found] at admitted
    by_cases elapsed : config.recoveryTimeout ≤ clock - openedAt
    · rw [if_pos elapsed] at admitted
      cases admitted
      refine ⟨fun other _ sameFound inside => ?_, fun opened => by simp at opened,
        fun _ closed => by simp at closed, fun _ => Or.inl rfl⟩
      rw [found, Option.some.injEq] at sameFound
      omega
    · rw [if_neg elapsed] at admitted
      simp at admitted

theorem checkAllowed_error_lawful (dated : Dated breaker clock) {next : BreakerState}
    {rejection : Rejection}
    (rejected : checkAllowed config breaker clock = (.error rejection, next)) :
    Lawful config clock (.check false) breaker next := by
  cases state : breaker.state with
  | closed => simp [checkAllowed, state] at rejected
  | halfOpen => simp [checkAllowed, state] at rejected
  | opened =>
    obtain ⟨openedAt, found, _⟩ := dated state
    simp only [checkAllowed, state, found] at rejected
    by_cases elapsed : config.recoveryTimeout ≤ clock - openedAt
    · rw [if_pos elapsed] at rejected
      simp at rejected
    · rw [if_neg elapsed, Prod.mk.injEq] at rejected
      obtain ⟨_, rfl⟩ := rejected
      exact lawful_unchanged (fun _ => by simp) (fun _ => by simp)

/-- A success reported to a breaker that is not open. -/
theorem recordSuccess_lawful (onTime : breaker.state ≠ .opened) :
    Lawful config clock .success breaker (recordSuccess config breaker) := by
  cases state : breaker.state with
  | opened => exact absurd state onTime
  | closed =>
    have kept : (recordSuccess config breaker).state = .closed := by simp [recordSuccess, state]
    refine ⟨fun _ opened => absurd opened onTime, fun opened => ?_,
      fun differs => absurd state differs, fun halfOpen => ?_⟩
    · rw [kept] at opened
      cases opened
    · rw [kept] at halfOpen
      cases halfOpen
  | halfOpen =>
    by_cases enough : config.halfOpenMaxCalls ≤ breaker.halfOpenSuccesses + 1
    · have closed : (recordSuccess config breaker).state = .closed := by
        simp [recordSuccess, state, enough]
      refine ⟨fun _ opened => absurd opened onTime, fun opened => ?_,
        fun _ _ => ⟨state, rfl, enough⟩, fun halfOpen => ?_⟩
      · rw [closed] at opened
        cases opened
      · rw [closed] at halfOpen
        cases halfOpen
    · have kept : (recordSuccess config breaker).state = .halfOpen := by
        simp [recordSuccess, state, enough]
      have counted : (recordSuccess config breaker).halfOpenSuccesses =
          breaker.halfOpenSuccesses + 1 := by
        simp [recordSuccess, state, enough]
      refine ⟨fun _ opened => absurd opened onTime, fun opened => ?_, fun _ closed => ?_,
        fun _ => Or.inr (Or.inl ⟨state, rfl, Nat.le_of_eq counted⟩)⟩
      · rw [kept] at opened
        cases opened
      · rw [kept] at closed
        cases closed

theorem recordFailure_lawful (err : ProviderCallError) :
    Lawful config clock (.failure (isTransient err)) breaker
      (recordFailure config breaker clock err) := by
  cases transient : isTransient err with
  | false =>
    have unchanged : recordFailure config breaker clock err = breaker := by
      simp [recordFailure, transient]
    rw [unchanged]
    exact lawful_unchanged (fun _ => by simp) (fun _ => by simp)
  | true =>
    cases state : breaker.state with
    | opened =>
      have unchanged : recordFailure config breaker clock err = breaker := by
        simp [recordFailure, transient, state]
      rw [unchanged]
      exact lawful_unchanged (fun _ => by simp) (fun same => by simp [state] at same)
    | halfOpen =>
      simp only [recordFailure, transient, state, ↓reduceIte]
      exact ⟨fun _ opened => by simp [state] at opened, fun _ => by simp [state],
        fun _ closed => by simp at closed, fun halfOpen => by simp at halfOpen⟩
    | closed =>
      simp only [recordFailure, transient, state, ↓reduceIte]
      by_cases many : config.failureThreshold ≤ breaker.consecutiveFailures + 1
      · rw [if_pos many]
        exact ⟨fun _ opened => by simp [state] at opened, fun _ => by simp [state],
          fun differs => absurd state differs, fun halfOpen => by simp at halfOpen⟩
      · rw [if_neg many]
        exact ⟨fun _ opened => by simp [state] at opened, fun opened => by simp at opened,
          fun differs => absurd state differs, fun halfOpen => by simp at halfOpen⟩

/-- An open breaker keeps the instant of its opening, or has just got it. -/
theorem Lawful.dated_after {event : Event} {next : BreakerState}
    (lawful : Lawful config clock event breaker next) (dated : Dated breaker clock) :
    Dated next clock := by
  intro opened
  by_cases before : breaker.state = .opened
  · obtain ⟨openedAt, found, past⟩ := dated before
    have same := lawful.dated opened
    rw [if_pos before, found] at same
    exact ⟨openedAt, same, past⟩
  · have now := lawful.dated opened
    rw [if_neg before] at now
    exact ⟨clock, now, Nat.le_refl clock⟩

end Lawfulness

section Invariant

variable (config : CircuitBreakerConfig)

/-- The newest events, back to the entry into the half-open state: no transient
failure among them, and as many successes as the breaker has counted. -/
def Probing (system : System) : Prop :=
  ∃ probes rest, system.history = probes ++ rest ∧ (∀ probe ∈ probes, probe.event ≠ .failure true) ∧
      system.breaker.halfOpenSuccesses ≤ (probes.filter Record.isProbeSuccess).length

/-- What every run without a late success maintains. -/
structure Sound (system : System) : Prop where
  dated : Dated system.breaker system.clock
  window : ∀ opening ∈ system.history, opening.Opens →
    system.clock < opening.instant + config.recoveryTimeout →
      system.breaker.state = .opened ∧ system.breaker.openedAt = some opening.instant
  kept : KeepsOpenWindow config system.history
  probing : system.breaker.state = .halfOpen → Probing system
  closed : ClosesAfterProbes config system.history

variable {config}

theorem sound_new (clock : Nat) : Sound config (System.new clock) where
  dated opened := by cases opened
  window opening member := by cases member
  kept := List.Pairwise.nil
  probing halfOpen := by cases halfOpen
  closed closing earlier suffix := by simp [System.new] at suffix

variable {system : System} {event : Event} {next : BreakerState}

/-- A further event that is no transient failure is among the newest ones too. -/
theorem Probing.cons (probing : Probing system) {record : Record}
    (noFailure : record.event ≠ .failure true) :
    ∃ probes rest, record :: system.history = probes ++ rest ∧
      (∀ probe ∈ probes, probe.event ≠ .failure true) ∧
        system.breaker.halfOpenSuccesses + (if record.isProbeSuccess then 1 else 0) ≤
          (probes.filter Record.isProbeSuccess).length := by
  obtain ⟨probes, rest, split, clear, counted⟩ := probing
  refine ⟨record :: probes, rest, congrArg (List.cons _) split, ?_, ?_⟩
  · rw [List.forall_mem_cons]
    exact ⟨noFailure, clear⟩
  · rw [List.filter_cons]
    split
    · exact Nat.add_le_add_right counted 1
    · exact counted

variable (sound : Sound config system)
include sound

/-- A lawful success or check leaves as many successes among the newest events
as it counts. -/
theorem probing_record (inFlight : Nat)
    (lawful : Lawful config system.clock event system.breaker next)
    (halfOpen : next.state = .halfOpen) : Probing (system.record event next inFlight) := by
  rcases lawful.counts halfOpen with fresh | ⟨before, rfl, more⟩ | ⟨before, noFailure, same⟩
  · exact ⟨[], _, rfl, by simp, by simp [System.record, fresh]⟩
  · obtain ⟨probes, rest, split, clear, counted⟩ := @Probing.cons _ (sound.probing before)
      ⟨.success, system.clock, system.breaker.state, next.state⟩ nofun
    refine ⟨probes, rest, split, clear, more.trans ?_⟩
    simpa [Record.isProbeSuccess, before] using counted
  · obtain ⟨probes, rest, split, clear, counted⟩ := @Probing.cons _ (sound.probing before)
      ⟨event, system.clock, system.breaker.state, next.state⟩ noFailure
    exact ⟨probes, rest, split, clear, same.le.trans (Nat.le_of_add_right_le counted)⟩

/-- A lawful return to the closed state has its successes before it. -/
theorem closes_record (inFlight : Nat)
    (lawful : Lawful config system.clock event system.breaker next) :
    ClosesAfterProbes config (system.record event next inFlight).history := by
  intro closing earlier suffix differs nowClosed
  rcases List.suffix_cons_iff.mp suffix with newest | older
  · obtain ⟨rfl, rfl⟩ := List.cons.inj newest
    obtain ⟨before, rfl, enough⟩ := lawful.closes differs nowClosed
    obtain ⟨probes, rest, split, clear, counted⟩ := @Probing.cons _ (sound.probing before)
      ⟨.success, system.clock, system.breaker.state, next.state⟩ nofun
    refine ⟨probes, rest, split, clear, enough.trans ?_⟩
    simpa [Record.isProbeSuccess, before] using counted
  · exact sound.closed closing earlier older differs nowClosed

/-- A lawful event keeps the invariant. -/
theorem sound_record (inFlight : Nat)
    (lawful : Lawful config system.clock event system.breaker next) :
    Sound config (system.record event next inFlight) where
  dated := lawful.dated_after sound.dated
  window := by
    intro opening member opens inside
    rcases List.mem_cons.mp member with rfl | older
    · have now := lawful.dated opens.2
      rw [if_neg opens.1] at now
      exact ⟨opens.2, now⟩
    · obtain ⟨opened, found⟩ := sound.window opening older opens inside
      exact (lawful.lasts opening.instant opened found inside).2
  kept := by
    refine List.Pairwise.cons ?_ sound.kept
    intro opening older opens inside
    obtain ⟨opened, found⟩ := sound.window opening older opens inside
    exact (lawful.lasts opening.instant opened found inside).1
  probing := probing_record sound inFlight lawful
  closed := closes_record sound inFlight lawful

/-- Neither the clock nor a dropped call disturbs the invariant. -/
theorem sound_later {later : Nat} (inFlight : Nat) (forward : system.clock ≤ later) :
    Sound config { system with clock := later, inFlight } where
  dated opened := by
    obtain ⟨openedAt, found, past⟩ := sound.dated opened
    exact ⟨openedAt, found, Nat.le_trans past forward⟩
  window opening member opens inside :=
    sound.window opening member opens (Nat.lt_of_le_of_lt forward inside)
  kept := sound.kept
  probing := sound.probing
  closed := sound.closed

/-- Every step that is no late success keeps the invariant. -/
theorem step_sound {action : Action} {after : System}
    (onTime : NoLateSuccess system action) (stepped : step config system action = some after) :
    Sound config after := by
  cases action with
  | call =>
    simp only [step] at stepped
    split at stepped
    · rename_i admitted
      cases stepped
      exact sound_record sound _ (checkAllowed_ok_lawful sound.dated admitted)
    · rename_i rejected
      cases stepped
      exact sound_record sound _ (checkAllowed_error_lawful sound.dated rejected)
  | finish result =>
    simp only [step] at stepped
    split at stepped
    · cases stepped
    · cases result with
      | ok _ =>
        cases stepped
        exact sound_record sound _ (recordSuccess_lawful onTime)
      | error err =>
        cases stepped
        exact sound_record sound _ (recordFailure_lawful err)
  | abandon =>
    simp only [step] at stepped
    split at stepped
    · cases stepped
    · cases stepped
      exact sound_later sound _ (Nat.le_refl _)
  | tick later =>
    simp only [step] at stepped
    split at stepped
    · rename_i forward
      cases stepped
      exact sound_later sound _ forward
    · cases stepped

end Invariant

/-- In every run of guarded calls without a late success the open window is kept,
and the breaker closes only after the configured successes in the half-open
state. -/
theorem keeps_open_window (config : CircuitBreakerConfig) (clock : Nat) (actions : List Action)
    (final : System)
    (onTime : Transitions.Guarded (step config) NoLateSuccess (System.new clock) actions)
    (ran : run (step config) (System.new clock) actions = some final) :
    KeepsOpenWindow config final.history ∧ ClosesAfterProbes config final.history := by
  have sound : Sound config final :=
    run_invariant (fun sound onTime stepped => step_sound sound onTime stepped)
      (sound_new clock) onTime ran
  exact ⟨sound.kept, sound.closed⟩

/-- One transient failure opens the breaker for a minute. -/
def sampleConfig : CircuitBreakerConfig := ⟨1, 60000000000, 2⟩

/-- The breaker opens, and after the window two successes close it. -/
def sampleRecovery : List Action :=
  [.call, .finish (.error (.provider .serverError)), .tick 60000000000, .call, .call,
    .finish (.ok ()), .finish (.ok ())]

theorem keeps_open_window_sample :
    ∃ final, run (step sampleConfig) (System.new 0) sampleRecovery = some final ∧
      final.breaker.state = .closed ∧ KeepsOpenWindow sampleConfig final.history ∧
          ClosesAfterProbes sampleConfig final.history := by
  have onTime : Transitions.Guarded (step sampleConfig) NoLateSuccess (System.new 0)
      sampleRecovery := by decide
  exact ⟨_, rfl, rfl, keeps_open_window sampleConfig 0 sampleRecovery _ onTime rfl⟩

/-- Two calls are admitted; one fails and opens the breaker, the other succeeds
and closes it again, and a third is admitted within the window. -/
def lateSuccess : List Action :=
  [.call, .call, .finish (.error (.provider .serverError)), .tick 1, .finish (.ok ()), .call]

theorem late_success_ends_window :
    ∃ final, run (step sampleConfig) (System.new 0) lateSuccess = some final ∧
      ¬ KeepsOpenWindow sampleConfig final.history :=
  ⟨_, rfl, by decide⟩

end Asterel.CircuitBreaker
