import Asterel.Security.Permissions

/-!
# The orchestrator of tool calls

Every middleware of a chain may let a call through, block it or have it approved, by a grant of
the permission store or by the broker. The tool runs when all of them let the call through, again
after a transient error, and all of them then see its result. The result of a call that is stopped
is only shown to those that want it.
-/

namespace Asterel.ToolOrchestrator

open Asterel.Permissions Library List

/-- `Extras` stands for the attachments, the taint labels and the metadata. -/
structure ToolResult (Extras : Type) where
  success : Bool
  output : String
  error : Option String
  extras : Extras

/-- An intent, with the risk of its kind and payload and the summary in the payload. -/
structure ActionIntent where
  intentId : String
  actionKind : String
  operator : String
  argsSummary : Option String
  riskLevel : RiskLevel

structure ApprovalRequest where
  intentId : String
  toolName : String
  argsSummary : String
  riskLevel : RiskLevel
  entityId : String
  channel : String

def approvalRequestFromIntent (intent : ActionIntent) : ApprovalRequest where
  intentId := intent.intentId
  toolName := intent.actionKind
  argsSummary := intent.argsSummary.getD ""
  riskLevel := intent.riskLevel
  entityId := intent.operator
  channel := String.ofList (intent.operator.toList.takeWhile (· ≠ ':'))

inductive ApprovalDecision
  | approved
  | denied (reason : String)
  | approvedWithGrant (grant : PermissionGrant)

inductive ApprovalResolution
  | approved
  | denied (reason : String)

inductive MiddlewareDecision
  | continue_
  | block (reason : String)
  | requireApproval (intent : ActionIntent)

variable {σ Extras : Type}

/-- The permission store, and everything else that a call can change. -/
structure State (σ : Type) where
  permissionStore : Option PermissionStore
  world : σ

structure Middleware (σ Extras : Type) where
  middlewareName : String
  runsAfterPreExecutionReturn : Bool
  beforeExecute : State σ → Except String MiddlewareDecision × State σ
  afterExecute : ToolResult Extras → State σ → ToolResult Extras × State σ

/-- What a call reads of its context. -/
structure ExecutionContext (σ Extras : Type) where
  entityId : String
  allowedTools : Option (List String)
  tenantContext : TenantPolicyContext
  approvalBroker : Option (ApprovalRequest → State σ → Except String ApprovalDecision × State σ)
  /-- The time of a grant, and the outcome of writing the permissions file. -/
  saving : State σ → String × Except String Unit
  /-- What the tracker makes of a success or a violation. -/
  trustTracker : Option (Bool → State σ → State σ)
  executionAuditSink : Option (ToolResult Extras → State σ → State σ)

/-- What a call does after its checks. -/
inductive Event
  | execute
  | sleep (milliseconds : Nat)
  | record (success : Bool)
  | afterExecute (middlewareName : String)
  | audit (success : Bool)
  deriving DecidableEq

section Calls

variable [Inhabited Extras] (ctx : ExecutionContext σ Extras)

def requestApprovalWithCache (request : ApprovalRequest) (cacheToolName cacheArgsSummary : String)
    (state : State σ) : Except String ApprovalResolution × State σ :=
  let state := { state with
    permissionStore := state.permissionStore.map (setEntityAllowlist · ctx.entityId ctx.allowedTools) }
  if state.permissionStore.any
      (isGranted · cacheToolName cacheArgsSummary ctx.entityId ctx.tenantContext) then
    (.ok .approved, state)
  else
    match ctx.approvalBroker with
    | none =>
      (.error ("tool execution requires approval: action_kind='" ++ request.toolName ++
        "' intent_id='" ++ request.intentId ++ "'"), state)
    | some broker =>
      match broker request state with
      | (.error err, state) => (.error err, state)
      | (.ok .approved, state) => (.ok .approved, state)
      | (.ok (.denied reason), state) => (.ok (.denied reason), state)
      | (.ok (.approvedWithGrant grant), state) =>
        match state.permissionStore with
        | none => (.ok .approved, state)
        | some store =>
          let (grantedAt, persisted) := ctx.saving state
          match addGrant store grant ctx.entityId ctx.tenantContext grantedAt persisted with
          | .ok store => (.ok .approved, { state with permissionStore := some store })
          | .error _ =>
            (.error ("failed to persist approval grant for entity '" ++ ctx.entityId ++ "'"), state)

def resolveActionIntent (intent : ActionIntent) (state : State σ) :
    Except String ApprovalResolution × State σ :=
  let request := approvalRequestFromIntent intent
  requestApprovalWithCache ctx request request.toolName request.argsSummary state

def blockedToolResult (reason : String) : ToolResult Extras := ⟨false, "", some reason, default⟩

/-- The result of a call that is stopped, or none for one that goes on. -/
def beforeExecute : List (Middleware σ Extras) → State σ →
    Except String (Option (ToolResult Extras)) × State σ
  | [], state => (.ok none, state)
  | middleware :: rest, state =>
    match middleware.beforeExecute state with
    | (.error err, state) => (.error err, state)
    | (.ok .continue_, state) => beforeExecute rest state
    | (.ok (.block reason), state) => (.ok (some (blockedToolResult reason)), state)
    | (.ok (.requireApproval intent), state) =>
      match resolveActionIntent ctx intent state with
      | (.error err, state) => (.error err, state)
      | (.ok .approved, state) => beforeExecute rest state
      | (.ok (.denied reason), state) =>
        (.ok (some (blockedToolResult ("tool execution denied by approval broker: " ++ reason))), state)

def maxTransientToolAttempts : Nat := 3

def isRetryableToolError (error : String) : Bool :=
  ["timeout", "timed out", "temporarily unavailable", "temporary failure", "try again",
    "connection reset", "connection refused", "broken pipe", "service unavailable",
    "deadline exceeded", "econnreset", "econnrefused", "429", "rate limit"].any
      fun pattern => Text.occurs pattern.toList (error.toList.map Char.toLower)

/-- The loop around the tool, from an attempt and a backoff on. -/
def executeFrom (tool : State σ → Except String (ToolResult Extras) × State σ)
    (attempt backoffMs : Nat) (state : State σ) : ToolResult Extras × State σ × List Event :=
  match tool state with
  | (.ok result, state) => (result, state, [.execute])
  | (.error err, state) =>
    if isRetryableToolError err ∧ attempt < maxTransientToolAttempts then
      let (result, state, events) := executeFrom tool (attempt + 1) (min (backoffMs * 2) 1000) state
      (result, state, .execute :: .sleep backoffMs :: events)
    else if isRetryableToolError err ∧ 1 < attempt then
      (blockedToolResult ("tool execution failed after " ++ toString attempt ++ " attempt(s): " ++ err),
        state, [.execute])
    else (blockedToolResult err, state, [.execute])
termination_by maxTransientToolAttempts - attempt

def executeWithRetry (tool : State σ → Except String (ToolResult Extras) × State σ) (state : State σ) :
    ToolResult Extras × State σ × List Event :=
  executeFrom tool 1 150 state

/-- The second phase of the middleware. -/
def afterExecute : List (Middleware σ Extras) → ToolResult Extras → State σ →
    ToolResult Extras × State σ × List Event
  | [], result, state => (result, state, [])
  | middleware :: rest, result, state =>
    let (result, state) := middleware.afterExecute result state
    let (result, state, events) := afterExecute rest result state
    (result, state, .afterExecute middleware.middlewareName :: events)

def emitToolExecutionAudit (result : ToolResult Extras) (state : State σ) : State σ × List Event :=
  ctx.executionAuditSink.elim (state, []) fun sink => (sink result state, [.audit result.success])

def execute (chain : List (Middleware σ Extras))
    (tool : State σ → Except String (ToolResult Extras) × State σ) (state : State σ) :
    Except String (ToolResult Extras) × State σ × List Event :=
  match beforeExecute ctx chain state with
  | (.error err, state) => (.error err, state, [])
  | (.ok (some result), state) =>
    let (result, state, after) :=
      afterExecute (chain.filter Middleware.runsAfterPreExecutionReturn) result state
    let (state, audited) := emitToolExecutionAudit ctx result state
    (.ok result, state, after ++ audited)
  | (.ok none, state) =>
    let (result, state, ran) := executeWithRetry tool state
    let (state, recorded) := ctx.trustTracker.elim (state, []) fun tracker =>
      (tracker result.success state, [.record result.success])
    let (result, state, after) := afterExecute chain result state
    let (state, audited) := emitToolExecutionAudit ctx result state
    (.ok result, state, ran ++ recorded ++ after ++ audited)

end Calls

section Effects

variable {ctx : ExecutionContext σ Extras} {chain : List (Middleware σ Extras)} {state reached : State σ}
variable {tool : State σ → Except String (ToolResult Extras) × State σ}

/-- The second phase of these middlewares. -/
def shown (chain : List (Middleware σ Extras)) : List Event :=
  chain.map fun middleware => .afterExecute middleware.middlewareName

def audited (ctx : ExecutionContext σ Extras) (result : ToolResult Extras) : List Event :=
  ctx.executionAuditSink.elim [] fun _ => [.audit result.success]

/-- The attempts of a tool and the waits between them. -/
def attempts : Nat → Nat → List Event
  | 0, _ => [.execute]
  | retries + 1, backoffMs => .execute :: .sleep backoffMs :: attempts retries (min (backoffMs * 2) 1000)

theorem afterExecute_events (result : ToolResult Extras) :
    (afterExecute chain result state).2.2 = shown chain := by
  induction chain generalizing result state with
  | nil => rfl
  | cons middleware rest ih => rw [afterExecute, shown, map_cons, ← shown, ← ih]

theorem emitToolExecutionAudit_events (result : ToolResult Extras) :
    (emitToolExecutionAudit ctx result state).2 = audited ctx result := by
  rw [emitToolExecutionAudit, audited]
  cases ctx.executionAuditSink with
  | none => rfl
  | some sink => rfl

variable [Inhabited Extras]

/-- Every middleware lets the call through, or has it approved. -/
inductive Admitted (ctx : ExecutionContext σ Extras) :
    List (Middleware σ Extras) → State σ → State σ → Prop
  | nil {state : State σ} : Admitted ctx [] state state
  | continued {middleware : Middleware σ Extras} {rest : List (Middleware σ Extras)}
      {state next reached : State σ} (decided : middleware.beforeExecute state = (.ok .continue_, next))
      (later : Admitted ctx rest next reached) : Admitted ctx (middleware :: rest) state reached
  | approved {middleware : Middleware σ Extras} {rest : List (Middleware σ Extras)}
      {intent : ActionIntent} {state asked next reached : State σ}
      (decided : middleware.beforeExecute state = (.ok (.requireApproval intent), asked))
      (resolved : resolveActionIntent ctx intent asked = (.ok .approved, next))
      (later : Admitted ctx rest next reached) : Admitted ctx (middleware :: rest) state reached

theorem beforeExecute_eq_none_iff :
    beforeExecute ctx chain state = (.ok none, reached) ↔ Admitted ctx chain state reached := by
  constructor
  · intro passed
    fun_induction beforeExecute ctx chain state with
    | case1 =>
      cases passed
      exact .nil
    | case3 _ _ _ _ decided ih => exact .continued decided (ih passed)
    | case6 _ _ _ _ _ decided _ resolved ih => exact .approved decided resolved (ih passed)
    | _ => cases passed
  · intro admitted
    induction admitted with
    | nil => rfl
    | continued decided _ ih => rw [beforeExecute, decided, ← ih]
    | approved decided resolved _ ih => simp only [beforeExecute, decided, resolved, ih]

theorem executeFrom_events (attempt backoffMs : Nat) (state : State σ) :
    ∃ retries ≤ maxTransientToolAttempts - attempt,
      (executeFrom tool attempt backoffMs state).2.2 = attempts retries backoffMs := by
  fun_induction executeFrom tool attempt backoffMs state with
  | case2 attempt backoffMs state err next failed retried result final events later ih =>
    obtain ⟨retries, bound, same⟩ := ih
    refine ⟨retries + 1, by omega, ?_⟩
    rw [later] at same
    rw [attempts, ← same]
  | _ => exact ⟨0, Nat.zero_le _, rfl⟩

/-- The tool runs exactly for the calls that every middleware admits, at most three times. Such a
call is recorded once and shown to the whole chain; any other call is not recorded. -/
theorem execute_effects (ctx : ExecutionContext σ Extras) (chain : List (Middleware σ Extras))
    (tool : State σ → Except String (ToolResult Extras) × State σ) (state : State σ) :
    ∃ outcome final events, execute ctx chain tool state = (outcome, final, events) ∧
      ((∃ reached result, ∃ retries < maxTransientToolAttempts, Admitted ctx chain state reached ∧
        outcome = .ok result ∧ events = attempts retries 150 ++
          (ctx.trustTracker.elim [] fun _ => [.record (executeWithRetry tool reached).1.success]) ++
          shown chain ++ audited ctx result) ∨
      (∀ reached, ¬ Admitted ctx chain state reached) ∧
        ((∃ err, outcome = .error err ∧ events = []) ∨ ∃ result, outcome = .ok result ∧
          events = shown (chain.filter Middleware.runsAfterPreExecutionReturn) ++ audited ctx result)) := by
  simp only [← beforeExecute_eq_none_iff]
  rcases before : beforeExecute ctx chain state with ⟨_ | _ | blocked, reached⟩
  case error err =>
    refine ⟨_, _, _, by rw [execute, before], Or.inr ⟨?_, Or.inl ⟨err, rfl, rfl⟩⟩⟩
    intro _ same
    cases same
  case ok.none =>
    obtain ⟨retries, bound, ran⟩ := @executeFrom_events _ _ tool _ 1 150 reached
    refine ⟨_, _, _, by rw [execute, before], Or.inl ⟨reached, _, retries, ?_, rfl, rfl, ?_⟩⟩
    · exact Nat.lt_succ_of_le bound
    · rw [afterExecute_events, emitToolExecutionAudit_events, ← ran]
      cases ctx.trustTracker with
      | none => rfl
      | some tracker => rfl
  case ok.some =>
    refine ⟨_, _, _, by rw [execute, before], Or.inr ⟨?_, Or.inr ⟨_, rfl, ?_⟩⟩⟩
    · intro _ same
      cases same
    · rw [afterExecute_events, emitToolExecutionAudit_events]

end Effects

end Asterel.ToolOrchestrator
