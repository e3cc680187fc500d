import Asterel.Transport.GatewayRequest

/-!
# The tenant a request runs under

A request names its tenant in a header, an agent message also in its body. Without
a name the management endpoints take the tenant its principal is bound to, and
every endpoint falls back to the environment of the process.

A tenant named in the header of an ordinary request has to be the bound one. The
tenant that an agent message names is taken without that comparison, and so is the
one of the environment. The three resolvers below therefore keep to the bound tenant
under different conditions, each of which is exact.
-/

namespace Asterel.TenantResolution

open Library Option
open Asterel.Gateway
open Asterel.Pairing (hashToken isAcceptedToken)
open Asterel.Permissions (TenantPolicyContext)
open Asterel.Tenant (sanitizeTenantId enabled disabled)
open Asterel.TenantBinding (resolveSelectedTenantForPrincipal)

/-- What an agent message runs under. -/
structure ResolvedA2aContext where
  conversationId : String
  tenantId : Option String
  ownerPrincipal : Option String
  policyContext : TenantPolicyContext

def tenantScopeMismatch : Problem :=
  problem 403 "tenant_scope_mismatch" "Forbidden"
    "Requested tenant scope does not match the paired bearer tenant context."

def tenantScopeRequiresPairedBearer : Problem :=
  problem 403 "tenant_scope_requires_paired_bearer" "Forbidden"
    "Tenant-scoped gateway requests require an authenticated paired bearer token."

def resolveRuntimeTenantId (environment : Environment) (tenantId : Option String) :
    Option String :=
  (tenantId.bind sanitizeTenantId).or environment.tenant

/-- Builds a tenant policy context from an optional tenant id, falling back to
environment variables. -/
def gatewayRuntimePolicyContext (environment : Environment) (tenantId : Option String) :
    TenantPolicyContext :=
  match resolveRuntimeTenantId environment tenantId with
  | some tenant => enabled tenant
  | none => disabled

def requestTenantId (headers : HeaderMap) : Option String :=
  (headers "x-asterel-tenant").bind sanitizeTenantId

section Resolvers

variable (sha256 : List UInt8 → List UInt8) (state : AppState)

def pairedBearerPrincipal (headers : HeaderMap) : Option String :=
  if !state.isPaired then none
  else
    ((bearerToken headers).filter fun token =>
      (isAcceptedToken sha256 state.pruned token state.now).1).map (hashedAuthPrincipal sha256)

def selectedTenantForPrincipal (principal : String) : Option String :=
  (resolveSelectedTenantForPrincipal state.tenantBindings state.bindingFile state.fileReadable
    principal).1

def tenantScopeForHeader (principal tenantId : String) : Except Problem TenantPolicyContext :=
  if (selectedTenantForPrincipal state principal).any (· ≠ tenantId) then
    .error tenantScopeMismatch
  else .ok (gatewayRuntimePolicyContext state.environment (some tenantId))

def requestPolicyContext (headers : HeaderMap) : Except Problem TenantPolicyContext :=
  match requestTenantId headers with
  | some tenantId =>
    match pairedBearerPrincipal sha256 state headers with
    | some principal => tenantScopeForHeader state principal tenantId
    | none => .error tenantScopeRequiresPairedBearer
  | none => .ok (gatewayRuntimePolicyContext state.environment none)

def requestManagementPolicyContext (headers : HeaderMap) : Except Problem TenantPolicyContext :=
  match requestTenantId headers with
  | some tenantId =>
    match pairedBearerPrincipal sha256 state headers with
    | some principal => tenantScopeForHeader state principal tenantId
    | none => .error tenantScopeRequiresPairedBearer
  | none =>
    match (pairedBearerPrincipal sha256 state headers).bind (selectedTenantForPrincipal state) with
    | some selectedTenant => .ok (gatewayRuntimePolicyContext state.environment (some selectedTenant))
    | none => .ok (gatewayRuntimePolicyContext state.environment none)

/-- The conversation a message belongs to without a random id. -/
def ownConversationId (payload : A2aMessageRequest) (headers : HeaderMap) : Option String :=
  payload.conversationId.or
    ((bearerToken headers).map fun token => "conv-" ++ hashedAuthPrincipal sha256 token)

def resolveA2aConversationId (payload : A2aMessageRequest) (headers : HeaderMap)
    (fresh : String) : String :=
  (ownConversationId sha256 payload headers).getD fresh

/-- The tenant named in the body, or else in the header. -/
def resolveA2aTenantId (payload : A2aMessageRequest) (headers : HeaderMap) : Option String :=
  ((payload.configuration.bind (·.tenant)).bind sanitizeTenantId).or (requestTenantId headers)

def resolveA2aContext (payload : A2aMessageRequest) (headers : HeaderMap) (fresh : String) :
    Except Problem ResolvedA2aContext :=
  let conversationId := resolveA2aConversationId sha256 payload headers fresh
  let explicitTenantId := resolveA2aTenantId payload headers
  let ownerPrincipal := pairedBearerPrincipal sha256 state headers
  if explicitTenantId.isSome && ownerPrincipal.isNone then
    .error (a2aProblem tenantScopeRequiresPairedBearer)
  else
    -- The tenant is not compared with the bound one here.
    let policyContext :=
      if explicitTenantId.isSome then
        .ok (gatewayRuntimePolicyContext state.environment explicitTenantId)
      else requestPolicyContext sha256 state headers
    policyContext.map fun context => ⟨conversationId, context.tenantId, ownerPrincipal, context⟩

end Resolvers

section Contexts

variable {environment : Environment} {headers : HeaderMap}

@[simp] theorem gatewayRuntimePolicyContext_tenantId (tenantId : Option String) :
    (gatewayRuntimePolicyContext environment tenantId).tenantId =
      resolveRuntimeTenantId environment tenantId := by
  rw [gatewayRuntimePolicyContext]
  cases resolveRuntimeTenantId environment tenantId <;> rfl

/-- A sanitized tenant is the one that the context gets. -/
theorem resolveRuntimeTenantId_sanitized {raw tenantId : String}
    (accepted : sanitizeTenantId raw = some tenantId) :
    resolveRuntimeTenantId environment (some tenantId) = some tenantId := by
  rw [resolveRuntimeTenantId, bind_some, Tenant.sanitizeTenantId_idem accepted, some_or]

theorem requestTenantId_sanitized {tenantId : String}
    (named : requestTenantId headers = some tenantId) :
    ∃ raw, sanitizeTenantId raw = some tenantId := by
  obtain ⟨raw, _, accepted⟩ := bind_eq_some_iff.mp named
  exact ⟨raw, accepted⟩

/-- A tenant that an agent message names, in the body or in the header, is a
sanitized one. -/
theorem resolveA2aTenantId_sanitized {payload : A2aMessageRequest} {tenantId : String}
    (named : resolveA2aTenantId payload headers = some tenantId) :
    ∃ raw, sanitizeTenantId raw = some tenantId := by
  rcases or_eq_some_iff.mp named with inBody | ⟨_, inHeader⟩
  · obtain ⟨raw, _, accepted⟩ := bind_eq_some_iff.mp inBody
    exact ⟨raw, accepted⟩
  · exact requestTenantId_sanitized inHeader

theorem environment_sanitized {tenantId : String} (named : environment.tenant = some tenantId) :
    sanitizeTenantId tenantId = some tenantId := by
  obtain ⟨raw, _, accepted⟩ := bind_eq_some_iff.mp named
  exact Tenant.sanitizeTenantId_idem accepted

end Contexts

section OneTenant

/-- An accepted request runs under the selected tenant or under none. -/
def OneTenant (selected : String) (resolved : Except Problem TenantPolicyContext) : Prop :=
  ∀ context, resolved = .ok context → context.tenantId = none ∨ context.tenantId = some selected

/-- The environment names the selected tenant or none. -/
def EnvironmentAgrees (environment : Environment) (selected : String) : Prop :=
  environment.tenant = none ∨ environment.tenant = some selected

/-- The tenant that a message names is the selected one; without a name the
environment agrees with it. -/
def MessageAgrees (state : AppState) (selected : String) (payload : A2aMessageRequest)
    (headers : HeaderMap) : Prop :=
  (resolveA2aTenantId payload headers).elim (EnvironmentAgrees state.environment selected)
    (· = selected)

/-- Without a tenant in the header the environment agrees with the selected one. -/
def RequestAgrees (state : AppState) (selected : String) (headers : HeaderMap) : Prop :=
  requestTenantId headers = none → EnvironmentAgrees state.environment selected

/-- Without a tenant in the header, the selected tenant passes the sanitizer
unchanged, or it does not pass and the environment names none. -/
def ManagementAgrees (state : AppState) (selected : String) (headers : HeaderMap) : Prop :=
  requestTenantId headers = none → sanitizeTenantId selected = some selected ∨
      sanitizeTenantId selected = none ∧ state.environment.tenant = none

variable {sha256 : List UInt8 → List UInt8} {state : AppState} {headers : HeaderMap}
  {principal selected : String}

theorem oneTenant_ok (context : TenantPolicyContext) :
    OneTenant selected (.ok context) ↔
      context.tenantId = none ∨ context.tenantId = some selected := by
  constructor
  · intro one
    exact one context rfl
  · rintro agrees other ⟨⟩
    exact agrees

theorem oneTenant_unnamed (environment : Environment) :
    OneTenant selected (.ok (gatewayRuntimePolicyContext environment none)) ↔
      EnvironmentAgrees environment selected := by
  rw [oneTenant_ok, gatewayRuntimePolicyContext_tenantId, resolveRuntimeTenantId, bind_none,
    none_or, EnvironmentAgrees]

/-- A tenant in the header is compared with the selected one. -/
theorem oneTenant_header (bound : selectedTenantForPrincipal state principal = some selected)
    {tenantId : String} (accepted : ∃ raw, sanitizeTenantId raw = some tenantId) :
    OneTenant selected (tenantScopeForHeader state principal tenantId) := by
  rw [tenantScopeForHeader, bound]
  by_cases same : selected = tenantId
  · subst same
    obtain ⟨raw, accepted⟩ := accepted
    have matching : ¬ (some selected).any (· ≠ selected) := by simp
    rw [if_neg matching, oneTenant_ok, gatewayRuntimePolicyContext_tenantId,
      resolveRuntimeTenantId_sanitized accepted]
    exact .inr rfl
  · have different : (some selected).any (· ≠ tenantId) := by simpa using same
    rw [if_pos different]
    intro context resolved
    cases resolved

section

variable (bearer : pairedBearerPrincipal sha256 state headers = some principal)
  (bound : selectedTenantForPrincipal state principal = some selected)
include bearer bound

theorem request_oneTenant_iff :
    OneTenant selected (requestPolicyContext sha256 state headers) ↔
      RequestAgrees state selected headers := by
  rw [requestPolicyContext, RequestAgrees, bearer]
  cases named : requestTenantId headers with
  | some tenantId =>
    exact iff_of_true (oneTenant_header bound (requestTenantId_sanitized named)) nofun
  | none =>
    rw [oneTenant_unnamed]
    exact ⟨fun agrees _ => agrees, fun agrees => agrees rfl⟩

theorem management_oneTenant_iff :
    OneTenant selected (requestManagementPolicyContext sha256 state headers) ↔
      ManagementAgrees state selected headers := by
  rw [requestManagementPolicyContext, ManagementAgrees, bearer, bind_some, bound]
  cases named : requestTenantId headers with
  | some tenantId =>
    exact iff_of_true (oneTenant_header bound (requestTenantId_sanitized named)) nofun
  | none =>
    simp only [oneTenant_ok, gatewayRuntimePolicyContext_tenantId, resolveRuntimeTenantId,
      bind_some, true_implies]
    cases passes : sanitizeTenantId selected with
    | some tenant => simp
    | none =>
      have foreign : state.environment.tenant ≠ some selected := by
        intro same
        rw [environment_sanitized same] at passes
        cases passes
      simp [foreign]

end

/-- An agent message is not compared with the binding at all. -/
theorem message_oneTenant_iff (selected : String) (payload : A2aMessageRequest) (fresh : String)
    (bearer : pairedBearerPrincipal sha256 state headers = some principal) :
    OneTenant selected ((resolveA2aContext sha256 state payload headers fresh).map
        ResolvedA2aContext.policyContext) ↔
      MessageAgrees state selected payload headers := by
  simp only [resolveA2aContext, MessageAgrees, bearer]
  cases named : resolveA2aTenantId payload headers with
  | some tenantId =>
    obtain ⟨raw, accepted⟩ := resolveA2aTenantId_sanitized named
    have resolved := @resolveRuntimeTenantId_sanitized state.environment _ _ accepted
    simp [Except.map, oneTenant_ok, resolved]
  | none =>
    have unnamed : requestTenantId headers = none := (or_eq_none_iff.mp named).2
    simp only [requestPolicyContext, unnamed]
    simp [Except.map, oneTenant_unnamed]

variable (sha256 state headers)

/-- For a bound principal, each of the three resolvers keeps to the selected tenant
exactly under its own condition. -/
theorem one_tenant_iff (payload : A2aMessageRequest) (fresh : String)
    (bearer : pairedBearerPrincipal sha256 state headers = some principal)
    (bound : selectedTenantForPrincipal state principal = some selected) :
    (OneTenant selected ((resolveA2aContext sha256 state payload headers fresh).map
          ResolvedA2aContext.policyContext) ↔
        MessageAgrees state selected payload headers) ∧
      (OneTenant selected (requestPolicyContext sha256 state headers) ↔
        RequestAgrees state selected headers) ∧
      (OneTenant selected (requestManagementPolicyContext sha256 state headers) ↔
        ManagementAgrees state selected headers) :=
  ⟨message_oneTenant_iff selected payload fresh bearer, request_oneTenant_iff bearer bound,
    management_oneTenant_iff bearer bound⟩

end OneTenant

section Bound

open Asterel.Pairing (validDigest validGuard)

/-- A gateway whose only principal is bound to `alpha`. -/
def boundState : AppState where
  pairing := validGuard
  webhookSecret := none
  defenseMode := .enforce
  defenseKillSwitch := false
  now := 1001
  tenantBindings := AList.insert "auth-dc7643c32a910875" "alpha" ∅
  bindingFile := ∅
  fileReadable := true
  environment := ⟨none, none⟩

/-- The headers of that principal, without a tenant. -/
def boundHeaders : HeaderMap := fun name =>
  if name = "authorization" then some "Bearer zc_valid" else none

/-- A message that names this tenant in its body. -/
def messageTo (tenant : String) : A2aMessageRequest where
  schemaVersion := none
  conversationId := none
  configuration := some ⟨none, some tenant, [], [], none⟩
  parts := [⟨"text", some "hello"⟩]

theorem bound_bearer :
    pairedBearerPrincipal (fun _ => validDigest) boundState boundHeaders =
      some "auth-dc7643c32a910875" := by
  decide +kernel

theorem bound_selected :
    selectedTenantForPrincipal boundState "auth-dc7643c32a910875" = some "alpha" := by
  decide +kernel

/-- A message that names the bound tenant runs under it. -/
theorem message_to_bound_tenant :
    OneTenant "alpha" ((resolveA2aContext (fun _ => validDigest) boundState
      (messageTo "alpha") boundHeaders "").map ResolvedA2aContext.policyContext) :=
  (one_tenant_iff (fun _ => validDigest) boundState boundHeaders (messageTo "alpha") ""
    bound_bearer bound_selected).1.mpr (by
      have named : resolveA2aTenantId (messageTo "alpha") boundHeaders = some "alpha" := by
        decide +kernel
      rw [MessageAgrees, named]
      rfl)

/-- A message that names another tenant in its body runs under that one. -/
theorem message_to_foreign_tenant :
    ¬ ∀ (sha256 : List UInt8 → List UInt8) (state : AppState) (headers : HeaderMap)
      (payload : A2aMessageRequest) (fresh principal selected : String),
      pairedBearerPrincipal sha256 state headers = some principal →
      selectedTenantForPrincipal state principal = some selected →
        OneTenant selected ((resolveA2aContext sha256 state payload headers fresh).map
          ResolvedA2aContext.policyContext) := by
  intro always
  have one := always (fun _ => validDigest) boundState boundHeaders (messageTo "beta") ""
    _ _ bound_bearer bound_selected
  rw [message_oneTenant_iff _ _ _ bound_bearer] at one
  have named : resolveA2aTenantId (messageTo "beta") boundHeaders = some "beta" := by
    decide +kernel
  rw [MessageAgrees, named, elim_some] at one
  revert one
  decide

end Bound

end Asterel.TenantResolution
