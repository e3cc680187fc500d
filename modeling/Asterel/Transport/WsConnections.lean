import Asterel.Transport.TenantResolution

/-!
# The WebSocket connection counter

The upgrade handler counts a request once it has passed the checks, and gives the
place back itself if there were too many connections already. Otherwise the place
is given back at the end of the callback that serves the connection. A handshake
that does not complete drops that callback unrun.

The counter hence is the number of connections and pending handshakes, plus the
number of handshakes that were ever abandoned.
-/

namespace Asterel.WsConnections

open Library.Transitions
open Asterel.Gateway
open Asterel.Pairing (newWithStorage)
open Asterel.Permissions (TenantPolicyContext)
open Asterel.TenantResolution (requestPolicyContext)

def maxWsConnections : Nat := 128

/-- What the handler reads of an upgrade request. -/
structure WsUpgrade where
  token : Option String
  headers : HeaderMap
  hasAuthorization : Bool

/-- A header value as far as it is a text. -/
def headerText (value : String) : Option String :=
  if value.toList.all fun char => char = '\t' ∨ ' ' ≤ char ∧ char ≤ '~' then some value else none

/-- The token of the query stands in for a missing header. -/
def WsUpgrade.effectiveHeaders (upgrade : WsUpgrade) : HeaderMap :=
  match upgrade.token with
  | some token =>
    if upgrade.hasAuthorization then upgrade.headers
    else Function.update upgrade.headers "authorization" (headerText ("Bearer " ++ token))
  | none => upgrade.headers

section Handler

variable (sha256 : List UInt8 → List UInt8)

/-- The checks are those of every other request. -/
def enforceWsUpgradeAuth (gateway : AppState) (headers : HeaderMap) : Option Response :=
  enforceRequestAuth sha256 gateway headers

/-- What the handler does before it counts the request. -/
def wsChecks (gateway : AppState) (upgrade : WsUpgrade) : Except Response TenantPolicyContext :=
  match enforceWsUpgradeAuth sha256 gateway upgrade.effectiveHeaders with
  | some response => .error response
  | none => (requestPolicyContext sha256 gateway upgrade.effectiveHeaders).mapError .problem

end Handler

section Handshakes

/-- Where an upgrade request is. -/
inductive Handshake where
  | checked
  | refusing
  | pending
  | running
  | denied (response : Response)
  | tooManyConnections
  | abandoned
  | ended
deriving DecidableEq

/-- The atomic steps of one request after its checks. -/
inductive Event where
  | count
  | refuse
  | upgrade
  | abandon
  | finish
deriving DecidableEq

/-- What a step makes of the request and of the counter. -/
def advance (active : Nat) : Event → Handshake → Option (Handshake × Nat)
  | .count, .checked =>
    some (if maxWsConnections ≤ active then .refusing else .pending, active + 1)
  | .refuse, .refusing => some (.tooManyConnections, active - 1)
  | .upgrade, .pending => some (.running, active)
  -- The callback is dropped, and the decrement with it.
  | .abandon, .pending => some (.abandoned, active)
  | .finish, .running => some (.ended, active - 1)
  | _, _ => none

/-- A counted request that is not answered yet, or whose handshake is under way. -/
def Handshake.isPending : Handshake → Bool
  | .refusing | .pending => true
  | _ => false

def Handshake.isRunning : Handshake → Bool
  | .running => true
  | _ => false

def Handshake.isAbandoned : Handshake → Bool
  | .abandoned => true
  | _ => false

/-- The share of a request in the counter. -/
def Handshake.weight (handshake : Handshake) : Nat :=
  handshake.isRunning.toNat + handshake.isPending.toNat + handshake.isAbandoned.toNat

/-- A step changes the counter as it changes the share of its request. -/
theorem advance_weight {active after : Nat} {event : Event} {handshake next : Handshake}
    (stepped : advance active event handshake = some (next, after))
    (counted : handshake.weight ≤ active) :
    after + handshake.weight = active + next.weight := by
  cases event <;> cases handshake <;> cases stepped
  case count.checked.refl =>
    split_ifs
    · rfl
    · rfl
  case refuse.refusing.refl => exact Nat.sub_add_cancel counted
  case upgrade.pending.refl => rfl
  case abandon.pending.refl => rfl
  case finish.running.refl => exact Nat.sub_add_cancel counted

/-- Only an abandoned handshake is left behind. -/
theorem advance_abandoned {active after : Nat} {event : Event} {handshake next : Handshake}
    (stepped : advance active event handshake = some (next, after)) :
    handshake.isAbandoned = false ∧
      (next.isAbandoned = true ↔ event = .abandon ∧ handshake = .pending) := by
  cases event <;> cases handshake <;> cases stepped
  case count.checked.refl =>
    split_ifs
    · decide
    · decide
  all_goals decide

end Handshakes

section Runs

/-- The requests that reached the gateway, in order, and the counter. -/
structure Connections where
  activeWsConnections : Nat
  handshakes : List Handshake
deriving DecidableEq

def Connections.initial : Connections := ⟨0, []⟩

def Connections.running (state : Connections) : Nat :=
  state.handshakes.countP Handshake.isRunning

def Connections.pending (state : Connections) : Nat :=
  state.handshakes.countP Handshake.isPending

def Connections.abandoned (state : Connections) : Nat :=
  state.handshakes.countP Handshake.isAbandoned

inductive Action where
  | request (gateway : AppState) (upgrade : WsUpgrade)
  | handshake (index : Nat) (event : Event)

variable (sha256 : List UInt8 → List UInt8)

def arrived (gateway : AppState) (upgrade : WsUpgrade) : Handshake :=
  match wsChecks sha256 gateway upgrade with
  | .error response => .denied response
  | .ok _ => .checked

/-- The atomic steps of the gateway. -/
def step (state : Connections) : Action → Option Connections
  | .request gateway upgrade =>
    some { state with handshakes := state.handshakes ++ [arrived sha256 gateway upgrade] }
  | .handshake index event =>
    state.handshakes[index]?.bind fun handshake =>
      (advance state.activeWsConnections event handshake).map fun (next, active) =>
        ⟨active, state.handshakes.set index next⟩

/-- The counter is the number of running connections and pending handshakes. -/
def Exact (state : Connections) : Prop :=
  state.activeWsConnections = state.running + state.pending

/-- No connection runs and no handshake is pending. -/
def Connections.Idle (state : Connections) : Prop :=
  state.running = 0 ∧ state.pending = 0

/-- The next client to be counted is not refused. -/
def AdmitsNew (state : Connections) : Prop :=
  ∀ index next, state.handshakes[index]? = some .checked →
    step sha256 state (.handshake index .count) = some next →
      next.handshakes[index]? = some .pending

/-- What the counter is for. -/
def CounterHolds (state : Connections) : Prop :=
  Exact state ∧ (state.Idle → state.activeWsConnections = 0 ∧ AdmitsNew sha256 state)

/-- The step does not abandon a pending handshake. -/
def CompletesHandshake (state : Connections) : Action → Prop
  | .request _ _ => True
  | .handshake index event => event = .abandon → state.handshakes[index]? ≠ some .pending

/-- What every step keeps: abandoned handshakes keep their place. -/
def Accounted (state : Connections) : Prop :=
  state.activeWsConnections = state.running + state.pending + state.abandoned

theorem accounted_initial : Accounted Connections.initial := rfl

theorem exact_iff {state : Connections} (accounted : Accounted state) :
    Exact state ↔ state.abandoned = 0 := by
  rw [Accounted] at accounted
  rw [Exact]
  omega

variable {sha256} {state next : Connections}

/-- One request of the list moves on. -/
theorem countP_advanced {handshakes : List Handshake} {index : Nat} {handshake : Handshake}
    (found : handshakes[index]? = some handshake) (after : Handshake)
    (predicate : Handshake → Bool) :
    (handshakes.set index after).countP predicate + (predicate handshake).toNat =
      handshakes.countP predicate + (predicate after).toNat := by
  rw [(parties_perm found).countP_eq, (advanced_perm found after).countP_eq, List.countP_cons,
    List.countP_cons]
  cases predicate handshake <;> cases predicate after <;> simp

/-- A request that has only just arrived has no share. -/
theorem arrived_weight (gateway : AppState) (upgrade : WsUpgrade) :
    (arrived sha256 gateway upgrade).weight = 0 := by
  rw [arrived]
  cases wsChecks sha256 gateway upgrade with
  | error response => rfl
  | ok context => rfl

/-- A step of a request is one of its own. -/
theorem handshake_step {index : Nat} {event : Event}
    (stepped : step sha256 state (.handshake index event) = some next) :
    ∃ before after, state.handshakes[index]? = some before ∧
      advance state.activeWsConnections event before = some (after, next.activeWsConnections) ∧
      next.handshakes = state.handshakes.set index after := by
  rw [step, Option.bind_eq_some_iff] at stepped
  obtain ⟨before, found, stepped⟩ := stepped
  obtain ⟨⟨after, active⟩, advanced, rfl⟩ := Option.map_eq_some_iff.mp stepped
  exact ⟨before, after, found, advanced, rfl⟩

/-- A request that arrives changes no total. -/
theorem request_totals (gateway : AppState) (upgrade : WsUpgrade)
    (stepped : step sha256 state (.request gateway upgrade) = some next) :
    next.activeWsConnections = state.activeWsConnections ∧ next.running = state.running ∧
      next.pending = state.pending ∧ next.abandoned = state.abandoned := by
  cases stepped
  have weight := @arrived_weight sha256 gateway upgrade
  rw [Handshake.weight] at weight
  simp only [Connections.running, Connections.pending, Connections.abandoned, List.countP_append,
    List.countP_singleton]
  grind

theorem step_accounted {action : Action} (accounted : Accounted state)
    (stepped : step sha256 state action = some next) : Accounted next := by
  rw [Accounted] at accounted ⊢
  cases action with
  | request gateway upgrade =>
    obtain ⟨active, running, pending, abandoned⟩ := request_totals gateway upgrade stepped
    rw [active, running, pending, abandoned, accounted]
  | handshake index event =>
    obtain ⟨before, after, found, advanced, same⟩ := handshake_step stepped
    have running := countP_advanced found after Handshake.isRunning
    have pending := countP_advanced found after Handshake.isPending
    have abandoned := countP_advanced found after Handshake.isAbandoned
    rw [← same] at running pending abandoned
    simp only [Connections.running, Connections.pending, Connections.abandoned] at accounted ⊢
    have one : ∀ predicate : Handshake → Bool,
        (predicate before).toNat ≤ state.handshakes.countP predicate := by
      intro predicate
      rw [(parties_perm found).countP_eq, List.countP_cons]
      cases predicate before <;> simp
    have counted : before.weight ≤ state.activeWsConnections := by
      rw [Handshake.weight, accounted]
      exact Nat.add_le_add (Nat.add_le_add (one _) (one _)) (one _)
    have weight := advance_weight advanced counted
    rw [Handshake.weight, Handshake.weight] at weight
    omega

/-- What a step adds to the abandoned handshakes. -/
theorem step_abandoned {action : Action} (stepped : step sha256 state action = some next) :
    next.abandoned = state.abandoned ↔ CompletesHandshake state action := by
  cases action with
  | request gateway upgrade =>
    exact iff_of_true (request_totals gateway upgrade stepped).2.2.2 trivial
  | handshake index event =>
    obtain ⟨before, after, found, advanced, same⟩ := handshake_step stepped
    obtain ⟨kept, left⟩ := advance_abandoned advanced
    have total := countP_advanced found after Handshake.isAbandoned
    rw [← same, kept, Bool.toNat_false, Nat.add_zero] at total
    have completes : CompletesHandshake state (.handshake index event) ↔
        after.isAbandoned = false := by
      rw [CompletesHandshake, found, ← Bool.not_eq_true, left, not_and, Ne, Option.some.injEq]
    rw [completes, Connections.abandoned, Connections.abandoned, total]
    cases after.isAbandoned <;> simp

/-- An idle gateway counts nothing and takes the next client. -/
theorem counterHolds_iff : CounterHolds sha256 state ↔ Exact state := by
  constructor
  · exact And.left
  · intro exact
    refine ⟨exact, ?_⟩
    rintro ⟨none, nonePending⟩
    have empty : state.activeWsConnections = 0 := by
      rw [Exact, none, nonePending] at exact
      exact exact
    refine ⟨empty, ?_⟩
    intro index next found stepped
    obtain ⟨before, after, found', advanced, same⟩ := handshake_step stepped
    have checked : before = .checked := Option.some.inj (found'.symm.trans found)
    subst checked
    rw [empty, advance, if_neg (by decide), Option.some.injEq, Prod.mk.injEq] at advanced
    have pending : after = .pending := advanced.1.symm
    rw [same, pending, List.getElem?_set_self (List.getElem?_eq_some_iff.mp found).1]

end Runs

section Exactness

variable (sha256 : List UInt8 → List UInt8)

/-- The counter is exact in every state of a run, and zero again whenever all
connections have ended, exactly if the run abandons no pending handshake. -/
theorem counter_exact_iff (actions : List Action) :
    Always (step sha256) (CounterHolds sha256) Connections.initial actions ↔
      Guarded (step sha256) CompletesHandshake Connections.initial actions := by
  refine @always_iff_guarded_of_invariant _ _ (step sha256) CompletesHandshake
    (CounterHolds sha256) Accounted ?_ (fun accounted _ => step_accounted accounted) ?_
    Connections.initial accounted_initial (counterHolds_iff.mpr rfl) actions
  · intro state action stopped
    cases action with
    | request gateway upgrade => trivial
    | handshake index event =>
      rintro rfl found
      simp [step, found, advance] at stopped
  · intro state next action accounted holds stepped
    have none : state.abandoned = 0 := (exact_iff accounted).mp holds.1
    rw [counterHolds_iff, exact_iff (step_accounted accounted stepped), ← step_abandoned stepped,
      none]

/-- The places of abandoned handshakes are lost for good. With all of them lost every
later client is refused, however few connections there are. -/
theorem refused_when_places_lost {actions : List Action} {state next : Connections} {index : Nat}
    (ran : run (step sha256) Connections.initial actions = some state)
    (lost : maxWsConnections ≤ state.abandoned)
    (counted : step sha256 state (.handshake index .count) = some next) :
    next.handshakes[index]? = some .refusing := by
  have accounted : Accounted state :=
    @run_invariant _ _ _ (fun _ _ => True) _
      (fun accounted _ stepped => step_accounted accounted stepped) _ _ _ accounted_initial
      (guarded_true _ _) ran
  obtain ⟨before, after, found, advanced, same⟩ := handshake_step counted
  have full : maxWsConnections ≤ state.activeWsConnections := by
    rw [accounted]
    exact lost.trans (Nat.le_add_left _ _)
  have refusing : after = .refusing := by
    cases before with
    | checked =>
      rw [advance, if_pos full, Option.some.injEq, Prod.mk.injEq] at advanced
      exact advanced.1.symm
    | _ => cases advanced
  rw [same, refusing, List.getElem?_set_self (List.getElem?_eq_some_iff.mp found).1]

/-- A gateway without pairing and secret that only audits. -/
def openGateway : AppState where
  pairing := newWithStorage false [] none none 1000 ""
  webhookSecret := none
  defenseMode := .audit
  defenseKillSwitch := false
  now := 1000
  tenantBindings := ∅
  bindingFile := ∅
  fileReadable := true
  environment := ⟨none, none⟩

def plainUpgrade : WsUpgrade := ⟨none, fun _ => none, false⟩

/-- The client closes before its handshake is done. -/
def abandonedHandshake : List Action :=
  [.request openGateway plainUpgrade, .handshake 0 .count, .handshake 0 .abandon]

/-- The gateway is idle afterwards and still counts one connection. -/
theorem abandoned_handshake_counts :
    ¬ ∀ (sha256 : List UInt8 → List UInt8) (actions : List Action),
      Always (step sha256) (CounterHolds sha256) Connections.initial actions := by
  intro always
  have guarded := (counter_exact_iff id abandonedHandshake).mp (always id abandonedHandshake)
  have checked : arrived id openGateway plainUpgrade = .checked := by decide +kernel
  obtain ⟨_, later⟩ := guarded
  obtain ⟨_, later⟩ := later ⟨0, [.checked]⟩ (by rw [step, checked]; rfl)
  obtain ⟨completes, _⟩ := later ⟨1, [.pending]⟩ rfl
  exact completes rfl rfl

/-- As many abandoned handshakes as there are places, and another client. -/
def lostPlaces : List Action :=
  (List.range 128).flatMap (fun index =>
    [.request openGateway plainUpgrade, .handshake index .count, .handshake index .abandon]) ++
    [.request openGateway plainUpgrade]

theorem refused_after_lostPlaces :
    (List.replicate 128 Handshake.abandoned ++ [.refusing])[128]? = some .refusing :=
  @refused_when_places_lost id lostPlaces ⟨128, List.replicate 128 .abandoned ++ [.checked]⟩
    ⟨129, List.replicate 128 .abandoned ++ [.refusing]⟩ 128
    (by decide +kernel) (by decide +kernel) (by decide +kernel)

end Exactness

end Asterel.WsConnections
