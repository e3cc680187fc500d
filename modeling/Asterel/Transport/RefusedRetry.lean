import Asterel.Runtime.A2aTask
import Asterel.Transport.ReplayGuard
import Asterel.Transport.TenantResolution

/-!
# Sending a refused request again

Both handlers record the nonce of a request before they know whether they can
process it. What may refuse it later are the action cost, the rate limit of its
entity, the capacity for tasks, the workspace and the provider. The webhook handler
forgets the nonce when the provider fails; no other refusal of either handler does.

A refused request can hence be sent again at once only if it is an agent message in
a conversation of its own making, or a webhook whose provider failed. Otherwise the
nonce has to expire first, unless the table was so full that it was evicted when it
was recorded. What the rest of the gateway answers during the turn is an argument of
the handlers.
-/

namespace Asterel.RefusedRetry

open Library
open Library.HashMap (IterationOrder)
open Asterel.A2a (A2aTask A2aTaskStore registerTask completeTask failTask)
open Asterel.Gateway
open Asterel.Permissions (trimmed)
open Asterel.Replay
open Asterel.Tenant (sanitizePersonId)
open Asterel.TenantResolution

/-- What the handlers change. -/
structure Shared where
  replayGuard : ReplayGuard
  a2aTasks : A2aTaskStore

/-- What the gateway answers during a turn, and the second of the replay check. -/
structure Turn where
  order : IterationOrder String Nat
  second : Nat
  actionCost : Except String Unit
  rateLimit : Except String Unit
  workspace : Except String Unit
  toolLoop : Except String String

/-- The same for an agent message, with the random ids and the clock of its task. -/
structure A2aTurn extends Turn where
  conversation : String
  taskOrder : IterationOrder String A2aTask
  taskId : String
  evictedAt : Nat
  createdAt : Nat

section Problems

def invalidJsonPayload (detail : String) : Problem :=
  problem 400 "invalid_json_payload" "Bad Request" detail

def externalContentBlocked : Problem :=
  problem 400 "external_content_blocked" "Bad Request"
    "External content blocked by safety policy"

def policyLimitExceeded (policyError : String) : Problem :=
  problem 429 "policy_limit_exceeded" "Too Many Requests" policyError

def rateLimitExceeded (detail : String) : Problem :=
  problem 429 "rate_limit_exceeded" "Too Many Requests" detail

def tenantWorkspaceUnavailable : Problem :=
  problem 500 "tenant_workspace_unavailable" "Internal Server Error"
    "Failed to resolve tenant workspace"

def llmRequestFailed : Problem :=
  problem 500 "llm_request_failed" "Internal Server Error" "LLM request failed"

def replayDetected : Problem :=
  a2aProblem (problem 409 "replay_detected" "Conflict"
    "Duplicate A2A request detected and rejected")

def registrationRefused (error : String) : Problem :=
  if error = "capacity_exceeded" then
    a2aProblem (problem 429 "capacity_exceeded" "Too Many Requests"
      "A2A task capacity exceeded after eviction. Try again later.")
  else
    a2aProblem (problem 500 "a2a_task_registration_failed" "Internal Server Error"
      "Failed to register A2A task.")

end Problems

variable (sha256 : List UInt8 → List UInt8)

section Webhook

def maxWebhookSourceLen : Nat := 128

def resolveWebhookSourceIdentifier (headers : HeaderMap) : Except Problem String :=
  match bearerToken headers with
  | some token => .ok (hashedAuthPrincipal sha256 token)
  | none =>
    match ((headers "x-asterel-source").map trimmed).filter (· ≠ "") with
    | none =>
      .error (problem 400 "missing_webhook_source" "Bad Request"
        "Shared-secret webhook requests must include x-asterel-source.")
    | some rawSource =>
      if maxWebhookSourceLen < rawSource.utf8ByteSize then
        .error (problem 400 "invalid_webhook_source" "Bad Request"
          "x-asterel-source must be 128 characters or fewer.")
      else
        let sanitized := sanitizePersonId sha256 rawSource
        if sanitized = "" then
          .error (problem 400 "invalid_webhook_source" "Bad Request"
            "x-asterel-source must contain at least one ASCII letter or digit.")
        else .ok sanitized

def replayScopeForRequest (base : String) (tenantId : Option String) (sourceIdentifier : String) :
    String :=
  base ++ ":tenant=" ++ tenantId.getD "_" ++ ":source=" ++ sourceIdentifier

/-- The replay scope of a webhook request. -/
def webhookReplayScope (state : AppState) (headers : HeaderMap) : Except Problem String := do
  let policyContext ← requestPolicyContext sha256 state headers
  let sourceIdentifier ← resolveWebhookSourceIdentifier sha256 headers
  return replayScopeForRequest "webhook" policyContext.tenantId sourceIdentifier

/-- What the handler decides before it looks at the replay guard. -/
def admitWebhook (parse : List UInt8 → Option String) (state : AppState) (headers : HeaderMap)
    (body : List UInt8) : Except Response (String × String) :=
  match (enforceRequestAuth sha256 state headers).or (enforceJsonContentType headers) with
  | some response => .error response
  | none =>
    match parse body with
    | none =>
      .error (.problem (invalidJsonPayload "Invalid JSON payload. Expected: \x7b\"message\": \"...\"\x7d"))
    | some message =>
      match webhookReplayScope sha256 state headers with
      | .error problem => .error (.problem problem)
      | .ok replayScope => .ok (message, replayScope)

/-- What the handler does once the nonce is recorded. -/
def processWebhook (blocked : String → Bool) (shared : Shared) (message replayScope : String)
    (body : List UInt8) (turn : Turn) : Response × Shared :=
  if blocked message then (.problem externalContentBlocked, shared)
  else
    match turn.actionCost with
    | .error policyError => (.problem (policyLimitExceeded policyError), shared)
    | .ok () =>
      match turn.rateLimit with
      | .error detail => (.problem (rateLimitExceeded detail), shared)
      | .ok () =>
        match turn.workspace with
        | .error _ => (.problem tenantWorkspaceUnavailable, shared)
        | .ok () =>
          match turn.toolLoop with
          | .ok _ => (.ok, shared)
          | .error _ =>
            (.problem llmRequestFailed,
              { shared with replayGuard := forgetScoped sha256 shared.replayGuard replayScope body })

def handleWebhook (parse : List UInt8 → Option String) (blocked : String → Bool)
    (state : AppState) (shared : Shared) (headers : HeaderMap) (body : List UInt8) (turn : Turn) :
    Response × Shared :=
  match admitWebhook sha256 parse state headers body with
  | .error response => (response, shared)
  | .ok (message, replayScope) =>
    let checked :=
      checkAndRecordHash sha256 turn.order shared.replayGuard replayScope body turn.second
    let reserved := { shared with replayGuard := checked.2 }
    if !checked.1 then (.duplicateIgnored, reserved)
    else processWebhook sha256 blocked reserved message replayScope body turn

end Webhook

section A2aMessages

def replayScopeForA2a (tenantId : Option String) (sourceIdentifier source : String) : String :=
  "a2a:tenant=" ++ tenantId.getD "_" ++ ":conversation=" ++ sourceIdentifier ++ ":source=" ++ source

/-- The replay scope of an agent message. -/
def messageReplayScope (tenantId : Option String) (conversationId : String) : String :=
  replayScopeForA2a tenantId conversationId "gateway:a2a"

def admitA2aMessage (parse : List UInt8 → Option A2aMessageRequest)
    (blocked : A2aMessageRequest → Bool) (state : AppState) (headers : HeaderMap)
    (body : List UInt8) (fresh : String) : Except Response ResolvedA2aContext :=
  match (enforceRequestAuth sha256 state headers).or (enforceJsonContentType headers) with
  | some response => .error response
  | none =>
    match parse body with
    | none =>
      .error (.problem (a2aProblem
        (invalidJsonPayload "Invalid JSON payload. Expected A2A message envelope.")))
    | some payload =>
      match prepareA2aMessage payload with
      | .error problem => .error (.problem problem)
      | .ok _ =>
        if blocked payload then .error (.problem (a2aProblem externalContentBlocked))
        else
          match resolveA2aContext sha256 state payload headers fresh with
          | .error problem => .error (.problem problem)
          | .ok context => .ok context

/-- A workspace failure leaves the task as it is. -/
def executeA2aToolLoop (shared : Shared) (taskId : String) (turn : A2aTurn) : Response × Shared :=
  match turn.workspace with
  | .error _ => (.problem (a2aProblem tenantWorkspaceUnavailable), shared)
  | .ok () =>
    match turn.toolLoop with
    | .ok finalText =>
      let response := ⟨"assistant", [⟨"text", finalText⟩]⟩
      (.ok, { shared with a2aTasks := completeTask shared.a2aTasks taskId response })
    | .error _ =>
      (.problem (a2aProblem llmRequestFailed),
        { shared with a2aTasks := failTask shared.a2aTasks taskId })

def processA2aMessage (shared : Shared) (context : ResolvedA2aContext) (turn : A2aTurn) :
    Response × Shared :=
  match turn.actionCost with
  | .error policyError => (.problem (policyLimitExceeded policyError), shared)
  | .ok () =>
    match turn.rateLimit with
    | .error detail => (.problem (rateLimitExceeded detail), shared)
    | .ok () =>
      let registered := registerTask shared.a2aTasks turn.taskOrder turn.taskId
        context.conversationId context.tenantId context.ownerPrincipal turn.evictedAt turn.createdAt
      let shared := { shared with a2aTasks := registered.2 }
      match registered.1 with
      | .error error => (.problem (registrationRefused error), shared)
      | .ok taskId => executeA2aToolLoop shared taskId turn

def handleA2aMessage (parse : List UInt8 → Option A2aMessageRequest)
    (blocked : A2aMessageRequest → Bool) (state : AppState) (shared : Shared)
    (headers : HeaderMap) (body : List UInt8) (turn : A2aTurn) : Response × Shared :=
  match admitA2aMessage sha256 parse blocked state headers body turn.conversation with
  | .error response => (response, shared)
  | .ok context =>
    let replayScope := messageReplayScope context.tenantId context.conversationId
    let checked :=
      checkAndRecordHash sha256 turn.order shared.replayGuard replayScope body turn.second
    let reserved := { shared with replayGuard := checked.2 }
    if !checked.1 then (.problem replayDetected, reserved)
    else processA2aMessage reserved context turn

end A2aMessages

section Retries

/-- The guard would answer the same bytes as a replay. -/
def Remembered (guard : ReplayGuard) (scope : String) (body : List UInt8) (second : Nat) : Prop :=
  ∃ ts, guard.seen.lookup (buildNonce sha256 scope body) = some ts ∧ second - ts < guard.ttlSecs

/-- From the second of the response on, the same bytes are not answered as a replay. -/
def Retryable (guard : ReplayGuard) (scope : String) (body : List UInt8) (responded : Nat) : Prop :=
  ∀ order second, responded ≤ second →
    (checkAndRecordHash sha256 order guard scope body second).1 = true

/-- The nonce is evicted by the prune of the check that records it. -/
def EvictedAtOnce (guard : ReplayGuard) (order : IterationOrder String Nat) (nonce : String)
    (second : Nat) : Prop :=
  let seen : Seen := guard.seen.insert nonce second
  (maxEntries < seen.len ∨ (guard.mutationCount + 1) % 2 ^ 64 % defaultPruneIntervalOps = 0) ∧
    (pruneEntries order seen second guard.ttlSecs).lookup nonce = none

/-- A recorded nonce is gone when the response is sent. -/
def Lapsed (guard : ReplayGuard) (scope : String) (body : List UInt8) (turn : Turn)
    (responded : Nat) : Prop :=
  guard.ttlSecs ≤ responded - turn.second ∨
    EvictedAtOnce guard turn.order (buildNonce sha256 scope body) turn.second

variable {sha256} {guard : ReplayGuard} {scope : String} {body : List UInt8} {responded : Nat}

theorem retryable_iff :
    Retryable sha256 guard scope body responded ↔ ¬ Remembered sha256 guard scope body responded := by
  constructor
  · rintro retryable ⟨ts, stored, live⟩
    have accepted := retryable .held responded (Nat.le_refl _)
    rw [checkAndRecordHash, recordIfFresh_refused _ _ stored live] at accepted
    cases accepted
  · intro forgotten order second later
    rw [checkAndRecordHash]
    rcases recordIfFresh_cases order ((guard.mutationCount + 1) % 2 ^ 64) guard.seen
      (buildNonce sha256 scope body) second guard.ttlSecs with
      ⟨⟨ts, stored, live⟩, _⟩ | ⟨_, recorded | pruned⟩
    · exact absurd ⟨ts, stored, by omega⟩ forgotten
    · rw [recorded]
    · rw [pruned]

/-- After a check that accepts, the nonce is in the table unless it was evicted at
once. -/
theorem retryable_reserved_iff (turn : Turn)
    (accepted : (checkAndRecordHash sha256 turn.order guard scope body turn.second).1 = true) :
    Retryable sha256 (checkAndRecordHash sha256 turn.order guard scope body turn.second).2 scope body
        responded ↔
      Lapsed sha256 guard scope body turn responded := by
  rw [retryable_iff, Remembered, Lapsed, EvictedAtOnce]
  simp only [checkAndRecordHash] at accepted ⊢
  generalize (guard.mutationCount + 1) % 2 ^ 64 = mutation at accepted ⊢
  generalize buildNonce sha256 scope body = nonce at accepted ⊢
  rw [recordIfFresh] at accepted ⊢
  by_cases replayed : (guard.seen.lookup nonce).any fun ts => turn.second - ts < guard.ttlSecs
  · rw [if_pos replayed] at accepted
    cases accepted
  · rw [if_neg replayed]
    dsimp only
    split_ifs with crowded
    · cases kept : (pruneEntries turn.order (guard.seen.insert nonce turn.second) turn.second
        guard.ttlSecs).lookup nonce with
      | none => simp [crowded]
      | some ts =>
        have inserted := (lookup_of_pruned kept).1
        rw [AList.lookup_insert] at inserted
        cases inserted
        simp
    · simp [crowded, AList.lookup_insert]

theorem retryable_forgotten :
    Retryable sha256 (forgetScoped sha256 guard scope body) scope body responded := by
  rw [retryable_iff]
  rintro ⟨ts, stored, _⟩
  rw [forgetScoped, AList.lookup_erase] at stored
  cases stored

end Retries

section Refusals

variable {payload : A2aMessageRequest} {blocked : A2aMessageRequest → Bool}
  {parse : List UInt8 → Option String} {problem : Problem} {response : Response} {fresh : String}

/-- The answer asks the sender to try again later. -/
def Refused (response : Response) : Prop := response.status = 429 ∨ 500 ≤ response.status

variable {sha256} {state : AppState} {headers : HeaderMap} {body : List UInt8}

theorem not_refused (status : response.status < 429) : ¬ Refused response := by
  rintro (limit | server) <;> omega

theorem requestPolicyContext_status
    (refused : requestPolicyContext sha256 state headers = .error problem) :
    problem.status = 403 := by
  rw [requestPolicyContext] at refused
  split at refused
  · split at refused
    · rw [tenantScopeForHeader] at refused
      split_ifs at refused
      cases refused
      rfl
    · cases refused
      rfl
  · cases refused

theorem resolveA2aContext_status
    (refused : resolveA2aContext sha256 state payload headers fresh = .error problem) :
    problem.status = 403 := by
  simp only [resolveA2aContext] at refused
  split_ifs at refused with unpaired named
  · cases refused
    rfl
  · cases refused
  · cases resolved : requestPolicyContext sha256 state headers with
    | error raised =>
      rw [resolved] at refused
      cases refused
      exact requestPolicyContext_status resolved
    | ok context =>
      rw [resolved] at refused
      cases refused

theorem resolveWebhookSourceIdentifier_badRequests (headers : HeaderMap) :
    BadRequests (resolveWebhookSourceIdentifier sha256 headers) := by
  rw [resolveWebhookSourceIdentifier]
  split
  · exact badRequests_ok _
  · split
    · exact badRequests_error rfl
    · dsimp only
      split_ifs
      · exact badRequests_error rfl
      · exact badRequests_error rfl
      · exact badRequests_ok _

theorem webhookReplayScope_status
    (refused : webhookReplayScope sha256 state headers = .error problem) : problem.status < 429 := by
  simp only [webhookReplayScope, bind, Except.bind] at refused
  cases resolved : requestPolicyContext sha256 state headers with
  | error raised =>
    simp only [resolved] at refused
    cases refused
    rw [requestPolicyContext_status resolved]
    decide
  | ok context =>
    simp only [resolved] at refused
    cases identified : resolveWebhookSourceIdentifier sha256 headers with
    | error raised =>
      simp only [identified] at refused
      cases refused
      rw [resolveWebhookSourceIdentifier_badRequests headers _ identified]
      decide
    | ok source =>
      simp only [identified] at refused
      cases refused

/-- With the kill switch off, the first checks answer with no server error. -/
theorem guards_status (off : state.defenseKillSwitch = false)
    (refused : (enforceRequestAuth sha256 state headers).or (enforceJsonContentType headers) =
      some response) : response.status < 429 := by
  rcases Option.or_eq_some_iff.mp refused with auth | ⟨_, contentType⟩
  · exact enforceRequestAuth_status off auth
  · exact enforceJsonContentType_status contentType

/-- The kill switch answers before everything else. -/
theorem guards_killed (on : state.defenseKillSwitch = true) :
    (enforceRequestAuth sha256 state headers).or (enforceJsonContentType headers) =
      some PolicyViolation.killSwitchEnabled.enforceResponse := by
  rw [enforceRequestAuth, if_pos on, Option.some_or]

theorem admitWebhook_killed (on : state.defenseKillSwitch = true)
    (parse : List UInt8 → Option String) :
    admitWebhook sha256 parse state headers body =
      .error PolicyViolation.killSwitchEnabled.enforceResponse := by
  rw [admitWebhook, guards_killed on]

theorem admitA2aMessage_killed (on : state.defenseKillSwitch = true)
    (parse : List UInt8 → Option A2aMessageRequest) (blocked : A2aMessageRequest → Bool)
    (fresh : String) :
    admitA2aMessage sha256 parse blocked state headers body fresh =
      .error PolicyViolation.killSwitchEnabled.enforceResponse := by
  rw [admitA2aMessage, guards_killed on]

/-- With the kill switch off, a webhook request that is not admitted is not asked to
try again. -/
theorem admitWebhook_error (off : state.defenseKillSwitch = false)
    (stopped : admitWebhook sha256 parse state headers body = .error response) :
    response.status < 429 := by
  rw [admitWebhook] at stopped
  split at stopped
  next early =>
    cases stopped
    exact guards_status off early
  next =>
    split at stopped
    · cases stopped
      decide
    · split at stopped
      next unscoped =>
        cases stopped
        exact webhookReplayScope_status unscoped
      next => cases stopped

/-- An admitted webhook request has its scope. -/
theorem admitWebhook_ok {message scope : String}
    (admitted : admitWebhook sha256 parse state headers body = .ok (message, scope)) :
    webhookReplayScope sha256 state headers = .ok scope := by
  rw [admitWebhook] at admitted
  split at admitted
  · cases admitted
  · split at admitted
    · cases admitted
    · split at admitted
      next => cases admitted
      next found =>
        cases admitted
        exact found

theorem admitA2aMessage_error (off : state.defenseKillSwitch = false)
    {parse : List UInt8 → Option A2aMessageRequest}
    (stopped : admitA2aMessage sha256 parse blocked state headers body fresh = .error response) :
    response.status < 429 := by
  rw [admitA2aMessage] at stopped
  split at stopped
  next early =>
    cases stopped
    exact guards_status off early
  next =>
    split at stopped
    · cases stopped
      decide
    · split at stopped
      next unprepared =>
        cases stopped
        have status := prepareA2aMessage_badRequests _ _ unprepared
        rw [Response.status, status]
        decide
      next =>
        split_ifs at stopped
        · cases stopped
          decide
        · split at stopped
          next unresolved =>
            cases stopped
            have status := resolveA2aContext_status unresolved
            rw [Response.status, status]
            decide
          next => cases stopped

/-- An admitted message has its context. -/
theorem admitA2aMessage_ok {parse : List UInt8 → Option A2aMessageRequest}
    {context : ResolvedA2aContext} (parsed : parse body = some payload)
    (admitted : admitA2aMessage sha256 parse blocked state headers body fresh = .ok context) :
    resolveA2aContext sha256 state payload headers fresh = .ok context := by
  rw [admitA2aMessage, parsed] at admitted
  split at admitted
  · cases admitted
  · dsimp only at admitted
    split at admitted
    · cases admitted
    · split_ifs at admitted
      split at admitted
      next => cases admitted
      next resolved =>
        cases admitted
        exact resolved

end Refusals

section Releases

/-- The request gets as far as the provider. -/
def ReachesProvider (turn : Turn) : Prop :=
  turn.actionCost = .ok () ∧ turn.rateLimit = .ok () ∧ turn.workspace = .ok ()

variable {sha256} {state : AppState} {shared : Shared} {headers : HeaderMap} {body : List UInt8}

/-- A recorded webhook request that is refused forgets its nonce exactly if it got as
far as the provider. -/
theorem processWebhook_refused {blocked : String → Bool} {message scope : String} {turn : Turn}
    (refused : Refused (processWebhook sha256 blocked shared message scope body turn).1) :
    ReachesProvider turn ∧
        (processWebhook sha256 blocked shared message scope body turn).2.replayGuard =
          forgetScoped sha256 shared.replayGuard scope body ∨
      ¬ ReachesProvider turn ∧
        (processWebhook sha256 blocked shared message scope body turn).2.replayGuard =
          shared.replayGuard := by
  rw [ReachesProvider]
  rw [processWebhook] at refused ⊢
  by_cases unsafeContent : blocked message
  · rw [if_pos unsafeContent] at refused
    have status : (Response.problem externalContentBlocked).status < 429 := by decide
    exact absurd refused (not_refused status)
  · rw [if_neg unsafeContent] at refused ⊢
    cases cost : turn.actionCost with
    | error policyError => exact .inr ⟨by simp, rfl⟩
    | ok _ =>
      cases rate : turn.rateLimit with
      | error detail => exact .inr ⟨by simp, rfl⟩
      | ok _ =>
        cases workspace : turn.workspace with
        | error detail => exact .inr ⟨by simp, rfl⟩
        | ok _ =>
          simp only [cost, rate, workspace] at refused
          cases answered : turn.toolLoop with
          | ok finalText =>
            simp only [answered] at refused
            have status : Response.ok.status < 429 := by decide
            exact absurd refused (not_refused status)
          | error detail => exact .inl ⟨by simp, rfl⟩

/-- Nothing after the check of an agent message touches the replay guard. -/
theorem processA2aMessage_replayGuard (shared : Shared) (context : ResolvedA2aContext)
    (turn : A2aTurn) :
    (processA2aMessage shared context turn).2.replayGuard = shared.replayGuard := by
  rw [processA2aMessage]
  cases turn.actionCost with
  | error policyError => rfl
  | ok _ =>
    cases turn.rateLimit with
    | error detail => rfl
    | ok _ =>
      dsimp only
      split
      · rfl
      · rw [executeA2aToolLoop]
        cases turn.workspace with
        | error detail => rfl
        | ok _ => cases turn.toolLoop <;> rfl

/-- The condition under which a refused webhook request can be sent again. -/
def WebhookReleased (sha256 : List UInt8 → List UInt8) (state : AppState) (guard : ReplayGuard)
    (scope : String) (body : List UInt8) (turn : Turn) (responded : Nat) : Prop :=
  if state.defenseKillSwitch then ¬ Remembered sha256 guard scope body responded
  else ReachesProvider turn ∨ Lapsed sha256 guard scope body turn responded

theorem webhook_retryable_iff (parse : List UInt8 → Option String) (blocked : String → Bool)
    (turn : Turn) (responded : Nat) {scope : String}
    (found : webhookReplayScope sha256 state headers = .ok scope)
    (refused : Refused (handleWebhook sha256 parse blocked state shared headers body turn).1) :
    Retryable sha256 (handleWebhook sha256 parse blocked state shared headers body turn).2.replayGuard
        scope body responded ↔
      WebhookReleased sha256 state shared.replayGuard scope body turn responded := by
  rw [WebhookReleased]
  cases killed : state.defenseKillSwitch with
  | true => rw [handleWebhook, admitWebhook_killed killed, if_pos rfl, retryable_iff]
  | false =>
    rw [if_neg Bool.false_ne_true]
    rw [handleWebhook] at refused ⊢
    cases admitted : admitWebhook sha256 parse state headers body with
    | error response =>
      simp only [admitted] at refused
      exact absurd refused (not_refused (admitWebhook_error killed admitted))
    | ok admission =>
      obtain ⟨message, other⟩ := admission
      cases found.symm.trans (admitWebhook_ok admitted)
      simp only [admitted] at refused ⊢
      cases accepted : (checkAndRecordHash sha256 turn.order shared.replayGuard scope body
        turn.second).1 with
      | false =>
        simp only [accepted, Bool.not_false, if_true] at refused
        have status : Response.duplicateIgnored.status < 429 := by decide
        exact absurd refused (not_refused status)
      | true =>
        simp only [accepted, Bool.not_true, Bool.false_eq_true, if_false] at refused ⊢
        rcases processWebhook_refused refused with ⟨reaches, released⟩ | ⟨stops, kept⟩
        · rw [released]
          exact iff_of_true retryable_forgotten (.inl reaches)
        · rw [kept, retryable_reserved_iff turn accepted]
          exact ⟨.inr, fun condition => condition.resolve_left stops⟩

/-- The same bytes sent again are not answered as a replay, where a random id of a
conversation is one that the guard has not seen. -/
def MessageRetryable (sha256 : List UInt8 → List UInt8) (guard : ReplayGuard)
    (payload : A2aMessageRequest) (headers : HeaderMap) (tenantId : Option String)
    (body : List UInt8) (responded : Nat) : Prop :=
  ∀ fresh, (ownConversationId sha256 payload headers = none →
      buildNonce sha256 (messageReplayScope tenantId fresh) body ∉ guard.seen) →
    Retryable sha256 guard
      (messageReplayScope tenantId (resolveA2aConversationId sha256 payload headers fresh)) body
      responded

/-- The condition under which a refused agent message can be sent again. -/
def MessageReleased (sha256 : List UInt8 → List UInt8) (state : AppState) (guard : ReplayGuard)
    (payload : A2aMessageRequest) (headers : HeaderMap) (context : ResolvedA2aContext)
    (body : List UInt8) (turn : Turn) (responded : Nat) : Prop :=
  ownConversationId sha256 payload headers = none ∨
    let scope := messageReplayScope context.tenantId context.conversationId
    if state.defenseKillSwitch then ¬ Remembered sha256 guard scope body responded
    else Lapsed sha256 guard scope body turn responded

theorem message_retryable_iff (parse : List UInt8 → Option A2aMessageRequest)
    (blocked : A2aMessageRequest → Bool) (turn : A2aTurn) (responded : Nat)
    {payload : A2aMessageRequest} {context : ResolvedA2aContext}
    (parsed : parse body = some payload)
    (resolved : resolveA2aContext sha256 state payload headers turn.conversation = .ok context)
    (refused : Refused (handleA2aMessage sha256 parse blocked state shared headers body turn).1) :
    MessageRetryable sha256
        (handleA2aMessage sha256 parse blocked state shared headers body turn).2.replayGuard payload
        headers context.tenantId body responded ↔
      MessageReleased sha256 state shared.replayGuard payload headers context body turn.toTurn
        responded := by
  rw [MessageRetryable, MessageReleased]
  have conversation : context.conversationId =
      (ownConversationId sha256 payload headers).getD turn.conversation := by
    simp only [resolveA2aContext] at resolved
    split_ifs at resolved
    · cases resolved
      rfl
    · cases requested : requestPolicyContext sha256 state headers with
      | error problem =>
        rw [requested] at resolved
        cases resolved
      | ok policyContext =>
        rw [requested] at resolved
        cases resolved
        rfl
  cases own : ownConversationId sha256 payload headers with
  | none =>
    refine iff_of_true ?_ (.inl rfl)
    intro fresh unseen
    rw [resolveA2aConversationId, own, Option.getD_none, retryable_iff]
    rintro ⟨ts, stored, _⟩
    exact unseen rfl (HashMap.mem_iff_lookup.mpr ⟨ts, stored⟩)
  | some conversationId =>
    rw [own, Option.getD_some] at conversation
    have fixed : ∀ fresh, resolveA2aConversationId sha256 payload headers fresh =
        context.conversationId := by
      intro fresh
      rw [resolveA2aConversationId, own, Option.getD_some, conversation]
    simp only [fixed, reduceCtorEq, false_implies, forall_const, false_or]
    cases killed : state.defenseKillSwitch with
    | true => rw [handleA2aMessage, admitA2aMessage_killed killed, if_pos rfl, retryable_iff]
    | false =>
      rw [if_neg Bool.false_ne_true]
      rw [handleA2aMessage] at refused ⊢
      cases admitted : admitA2aMessage sha256 parse blocked state headers body turn.conversation with
      | error response =>
        simp only [admitted] at refused
        exact absurd refused (not_refused (admitA2aMessage_error killed admitted))
      | ok found =>
        cases resolved.symm.trans (admitA2aMessage_ok parsed admitted)
        simp only [admitted] at refused ⊢
        cases accepted : (checkAndRecordHash sha256 turn.order shared.replayGuard
          (messageReplayScope context.tenantId context.conversationId) body turn.second).1 with
        | false =>
          simp only [accepted, Bool.not_false, if_true] at refused
          have status : (Response.problem replayDetected).status < 429 := by decide
          exact absurd refused (not_refused status)
        | true =>
          simp only [accepted, Bool.not_true, Bool.false_eq_true, if_false] at refused ⊢
          rw [processA2aMessage_replayGuard]
          exact retryable_reserved_iff turn.toTurn accepted

end Releases

/-- A refused request can be sent again exactly under the condition of its handler. -/
theorem refused_retryable_iff (sha256 : List UInt8 → List UInt8) :
    (∀ (parse : List UInt8 → Option A2aMessageRequest) (blocked : A2aMessageRequest → Bool)
        (state : AppState) (shared : Shared) (headers : HeaderMap) (body : List UInt8)
        (turn : A2aTurn) (responded : Nat) (payload : A2aMessageRequest)
        (context : ResolvedA2aContext),
        parse body = some payload →
        resolveA2aContext sha256 state payload headers turn.conversation = .ok context →
        Refused (handleA2aMessage sha256 parse blocked state shared headers body turn).1 →
          (MessageRetryable sha256
              (handleA2aMessage sha256 parse blocked state shared headers body turn).2.replayGuard
              payload headers context.tenantId body responded ↔
            MessageReleased sha256 state shared.replayGuard payload headers context body turn.toTurn
              responded)) ∧
      ∀ (parse : List UInt8 → Option String) (blocked : String → Bool) (state : AppState)
        (shared : Shared) (headers : HeaderMap) (body : List UInt8) (turn : Turn) (responded : Nat)
        (scope : String),
        webhookReplayScope sha256 state headers = .ok scope →
        Refused (handleWebhook sha256 parse blocked state shared headers body turn).1 →
          (Retryable sha256
              (handleWebhook sha256 parse blocked state shared headers body turn).2.replayGuard scope
              body responded ↔
            WebhookReleased sha256 state shared.replayGuard scope body turn responded) :=
  ⟨fun parse blocked _ _ _ _ turn responded _ _ parsed resolved refused =>
      message_retryable_iff parse blocked turn responded parsed resolved refused,
    fun parse blocked _ _ _ _ turn responded _ found refused =>
      webhook_retryable_iff parse blocked turn responded found refused⟩

section FailingProvider

open Asterel.Pairing (newWithStorage)

/-- A gateway without pairing that expects a shared secret. -/
def secretState : AppState where
  pairing := newWithStorage false [] none none 1000 ""
  webhookSecret := some "test-secret"
  defenseMode := .enforce
  defenseKillSwitch := false
  now := 1000
  tenantBindings := ∅
  bindingFile := ∅
  fileReadable := true
  environment := ⟨none, none⟩

def secretHeaders : HeaderMap := fun name =>
  if name = "content-type" then some "application/json"
  else if name = "x-webhook-secret" then some "test-secret"
  else if name = "x-asterel-source" then some "retry-test"
  else none

/-- Nothing recorded yet. -/
def unused : Shared := ⟨⟨∅, defaultTtlSecs, 0⟩, ∅⟩

/-- A turn in which the provider fails. -/
def failingTurn : Turn :=
  ⟨.held, 1000, .ok (), .ok (), .ok (), .error "provider temporarily unavailable"⟩

def webhookBody : List UInt8 :=
  "\x7b\"message\":\"retry me\"\x7d".toUTF8.data.toList

/-- The SHA-256 digest of the hashed text of that body. -/
def webhookDigest : List UInt8 :=
  [243, 108, 228, 133, 119, 149, 43, 56, 4, 193, 122, 175, 24, 135, 140, 167,
    132, 34, 1, 60, 51, 153, 166, 184, 186, 179, 80, 31, 73, 211, 193, 138]

/-- The webhook request that the provider failed can be sent again. -/
theorem failed_webhook_retryable :
    Retryable (fun _ => webhookDigest)
      (handleWebhook (fun _ => webhookDigest) (fun _ => some "retry me") (fun _ => false) secretState
        unused secretHeaders webhookBody failingTurn).2.replayGuard
      "webhook:tenant=_:source=retry-test" webhookBody 1000 :=
  ((refused_retryable_iff fun _ => webhookDigest).2 (fun _ => some "retry me") (fun _ => false)
    secretState unused secretHeaders webhookBody failingTurn 1000
    "webhook:tenant=_:source=retry-test" (by decide +kernel)
    (.inr (by decide +kernel))).mpr (.inl ⟨rfl, rfl, rfl⟩)

def messageBody : List UInt8 :=
  "\x7b\"conversation_id\":\"conv-1\",\"message\":\x7b\"role\":\"user\",\"parts\":[\x7b\"type\":\"text\",\"text\":\"hello\"\x7d]\x7d\x7d".toUTF8.data.toList

def helloMessage : A2aMessageRequest := ⟨none, some "conv-1", none, [⟨"text", some "hello"⟩]⟩

/-- The SHA-256 digest of the hashed text of that message. -/
def messageDigest : List UInt8 :=
  [33, 123, 62, 81, 235, 93, 92, 55, 67, 69, 160, 33, 114, 224, 191, 155,
    52, 227, 8, 214, 135, 68, 153, 190, 204, 90, 20, 22, 121, 52, 30, 96]

def failingMessageTurn : A2aTurn :=
  { failingTurn with
    conversation := "6f1c"
    taskOrder := .held
    taskId := "task-1"
    evictedAt := 1000
    createdAt := 1000 }

/-- The agent message that the provider failed is answered as a replay. -/
theorem failed_message_replayed :
    ¬ ∀ (sha256 : List UInt8 → List UInt8) (parse : List UInt8 → Option A2aMessageRequest)
      (blocked : A2aMessageRequest → Bool) (state : AppState) (shared : Shared)
      (headers : HeaderMap) (body : List UInt8) (turn : A2aTurn) (payload : A2aMessageRequest)
      (context : ResolvedA2aContext),
      parse body = some payload →
      resolveA2aContext sha256 state payload headers turn.conversation = .ok context →
      Refused (handleA2aMessage sha256 parse blocked state shared headers body turn).1 →
        MessageRetryable sha256
          (handleA2aMessage sha256 parse blocked state shared headers body turn).2.replayGuard
          payload headers context.tenantId body turn.second := by
  intro always
  have retryable := always (fun _ => messageDigest) (fun _ => some helloMessage) (fun _ => false)
    secretState unused secretHeaders messageBody failingMessageTurn helloMessage
    ⟨"conv-1", none, none, Tenant.disabled⟩ rfl rfl (.inr (by decide +kernel))
  have accepted := retryable "" nofun .held 1000 (by decide)
  revert accepted
  decide +kernel

end FailingProvider

end Asterel.RefusedRetry
