import Asterel.Contracts.Tenant
import Asterel.Runtime.TenantBinding
import Asterel.Security.TokenAcceptance

/-!
# What a gateway handler checks first

A handler sees a request as its headers and its bytes. Before anything else it
checks the kill switch and the credentials and then the content type. An agent
message is parsed and prepared after that: versions, delivery mode, capabilities and
output modes have to be supported, and some text has to be there.

All of these refusals are final for the request. Only the kill switch answers with
a server error.
-/

namespace Asterel.Gateway

open Library
open Asterel.Pairing (PairingGuard hashToken isAcceptedToken retainNonExpiredTokens constantTimeEq)
open Asterel.Permissions (trimmed)
open Asterel.Tenant (sanitizeTenantId)
open Asterel.TenantBinding (Bindings)

/-- The first value of each header, as far as it is a text. -/
abbrev HeaderMap := String → Option String

/-- An error body; those of agent messages also carry the protocol version. -/
structure Problem where
  status : Nat
  code : String
  title : String
  detail : String
  a2a : Bool
deriving DecidableEq

def problem (status : Nat) (code title detail : String) : Problem :=
  ⟨status, code, title, detail, false⟩

def a2aProblem (problem : Problem) : Problem := { problem with a2a := true }

/-- What a handler answers. -/
inductive Response where
  | problem (body : Problem)
  | warning (reason : String)
  | duplicateIgnored
  | ok
deriving DecidableEq

def Response.status : Response → Nat
  | .problem body => body.status
  | .warning _ => 202
  | .duplicateIgnored => 409
  | .ok => 200

/-- The environment variables that name a tenant. -/
structure Environment where
  asterelTenantId : Option String
  tenantId : Option String

def Environment.tenant (environment : Environment) : Option String :=
  (environment.asterelTenantId.or environment.tenantId).bind sanitizeTenantId

inductive GatewayDefenseMode where
  | audit
  | warn
  | enforce
deriving DecidableEq

/-- What the checks and resolvers read of the gateway. -/
structure AppState where
  pairing : PairingGuard
  webhookSecret : Option String
  defenseMode : GatewayDefenseMode
  defenseKillSwitch : Bool
  now : Nat
  tenantBindings : Bindings
  bindingFile : Bindings
  fileReadable : Bool
  environment : Environment

section Authentication

inductive PolicyViolation where
  | killSwitchEnabled
  | missingOrInvalidBearer
  | missingOrInvalidWebhookSecret
  | noAuthConfigured

def PolicyViolation.reason : PolicyViolation → String
  | .killSwitchEnabled => "kill_switch_enabled"
  | .missingOrInvalidBearer => "missing_or_invalid_bearer"
  | .missingOrInvalidWebhookSecret => "missing_or_invalid_webhook_secret"
  | .noAuthConfigured => "no_auth_configured"

def PolicyViolation.enforceResponse : PolicyViolation → Response
  | .killSwitchEnabled =>
    .problem (problem 503 "kill_switch_enabled" "Service Unavailable"
      "Service unavailable — gateway defense kill switch is enabled.")
  | .missingOrInvalidBearer =>
    .problem (problem 401 "missing_or_invalid_bearer" "Unauthorized"
      "Unauthorized — pair first via POST /pair, then send Authorization: Bearer <token>")
  | .missingOrInvalidWebhookSecret =>
    .problem (problem 401 "missing_or_invalid_webhook_secret" "Unauthorized"
      "Unauthorized — invalid or missing X-Webhook-Secret header")
  | .noAuthConfigured =>
    .problem (problem 403 "no_auth_configured" "Forbidden"
      "Forbidden — no authentication configured. Pair first via POST /pair or configure a webhook secret.")

/-- A violation that is not about authentication depends on the mode. -/
def policyViolationResponse (mode : GatewayDefenseMode) (violation : PolicyViolation) :
    Option Response :=
  match mode with
  | .audit => none
  | .warn => some (.warning violation.reason)
  | .enforce => some violation.enforceResponse

/-- An authentication violation is enforced in every mode. -/
def mustEnforceAuthViolation (mode : GatewayDefenseMode) : Bool :=
  match mode with
  | .audit => true
  | .warn => true
  | .enforce => true

variable (sha256 : List UInt8 → List UInt8) (state : AppState) (headers : HeaderMap)

/-- The text behind the bearer mark. -/
def stripBearer (raw : String) : Option String :=
  (raw.toList.dropPrefix? "Bearer ".toList).map String.ofList

def bearerToken : Option String :=
  ((headers "authorization").bind stripBearer).filter (· ≠ "")

def hashedAuthPrincipal (token : String) : String :=
  "auth-" ++ String.ofList ((hashToken sha256 token).toList.take 16)

/-- The guard after a look whether it is paired, which drops expired tokens. -/
def AppState.pruned : PairingGuard :=
  { state.pairing with
    pairedTokens :=
      retainNonExpiredTokens state.pairing.pairedTokens state.now state.pairing.tokenTtlSecs }

def AppState.isPaired : Bool := !state.pruned.pairedTokens.entries.isEmpty

def isAuthenticated (guard : PairingGuard) (token : String) (now : Nat) : Bool :=
  if !guard.requirePairing then true else (isAcceptedToken sha256 guard token now).1

def bearerViolation : Option Response :=
  if state.isPaired then
    let token := (((headers "authorization").getD "") |> stripBearer).getD ""
    if !isAuthenticated sha256 state.pruned token state.now &&
        mustEnforceAuthViolation state.defenseMode then
      some PolicyViolation.missingOrInvalidBearer.enforceResponse
    else none
  else none

def secretViolation : Option Response :=
  state.webhookSecret.bind fun secret =>
    if !((headers "x-webhook-secret").any fun value =>
          constantTimeEq value.toUTF8.data.toList secret.toUTF8.data.toList) &&
        mustEnforceAuthViolation state.defenseMode then
      some PolicyViolation.missingOrInvalidWebhookSecret.enforceResponse
    else none

def enforceRequestAuth : Option Response :=
  if state.defenseKillSwitch then some PolicyViolation.killSwitchEnabled.enforceResponse
  else
    (bearerViolation sha256 state headers).or <| (secretViolation state headers).or <|
      if !state.isPaired && state.webhookSecret.isNone then
        policyViolationResponse state.defenseMode .noAuthConfigured
      else none

def enforceJsonContentType : Option Response :=
  if (headers "content-type").any fun contentType =>
      "application/json".toList.isPrefixOf (contentType.toList.map Char.toLower) then none
  else
    some (.problem (problem 415 "unsupported_content_type" "Unsupported Media Type"
      "Content-Type must be application/json"))

end Authentication

section Messages

def a2aProtocolVersion : String := "asterel.a2a/v1"
def a2aContextEnvelopeVersion : String := "asterel.a2a.context/v1"
def a2aTextOutputMode : String := "text/plain"
def a2aCapabilityTools : String := "tools"

structure A2aInboundPart where
  partType : String
  text : Option String

structure A2aContextEnvelope where
  version : String

structure A2aMessageConfiguration where
  blocking : Option Bool
  tenant : Option String
  acceptedOutputModes : List String
  requiredCapabilities : List String
  context : Option A2aContextEnvelope

structure A2aMessageRequest where
  schemaVersion : Option String
  conversationId : Option String
  configuration : Option A2aMessageConfiguration
  parts : List A2aInboundPart

def a2aUnsupportedContract (code detail : String) : Problem :=
  a2aProblem (problem 400 code "Bad Request" detail)

/-- The trimmed texts of the text parts, one a line. -/
def extractA2aUserText (payload : A2aMessageRequest) : String :=
  String.intercalate "\n" (payload.parts.filterMap fun part =>
    if part.partType ≠ "text" then none else (part.text.map trimmed).filter (· ≠ ""))

def normalizeTokens (values : List String) : List String :=
  (values.map fun value => String.ofList ((trimmed value).toList.map Char.toLower)).filter (· ≠ "")

def selectOutputMode (payload : A2aMessageRequest) : Except Problem String :=
  let requested := ((payload.configuration.map (·.acceptedOutputModes)).map normalizeTokens).getD []
  if requested = [] ∨ a2aTextOutputMode ∈ requested then .ok a2aTextOutputMode
  else
    .error (a2aUnsupportedContract "unsupported_output_mode"
      ("Unsupported accepted_output_modes: " ++ String.intercalate ", " requested ++
        ". Supported output modes: " ++ a2aTextOutputMode))

def validateRequiredCapabilities (payload : A2aMessageRequest) : Except Problem Unit :=
  let requested := ((payload.configuration.map (·.requiredCapabilities)).map normalizeTokens).getD []
  let unsupported := requested.filter (· ≠ a2aCapabilityTools)
  if unsupported = [] then .ok ()
  else
    .error (a2aUnsupportedContract "unsupported_capability_requirement"
      ("Unsupported required_capabilities: " ++ String.intercalate ", " unsupported ++
        ". Supported capabilities: " ++ a2aCapabilityTools))

def validateContractVersions (payload : A2aMessageRequest) : Except Problem Unit :=
  match payload.schemaVersion.filter fun version => trimmed version ≠ a2aProtocolVersion with
  | some version =>
    .error (a2aUnsupportedContract "unsupported_schema_version"
      ("Unsupported schema_version '" ++ version ++ "'. Expected '" ++ a2aProtocolVersion ++ "'."))
  | none =>
    match (payload.configuration.bind (·.context)).filter fun context =>
        trimmed context.version ≠ a2aContextEnvelopeVersion with
    | some context =>
      .error (a2aUnsupportedContract "unsupported_context_version"
        ("Unsupported context.version '" ++ context.version ++ "'. Expected '" ++
          a2aContextEnvelopeVersion ++ "'."))
    | none => .ok ()

def validateBlockingMode (payload : A2aMessageRequest) : Except Problem Unit :=
  if payload.configuration.bind (·.blocking) = some false then
    .error (a2aUnsupportedContract "unsupported_async_delivery"
      "A2A asynchronous delivery is not supported; omit blocking or set it to true.")
  else .ok ()

/-- The output mode and the user's text. -/
def prepareA2aMessage (payload : A2aMessageRequest) : Except Problem (String × String) := do
  validateContractVersions payload
  validateBlockingMode payload
  validateRequiredCapabilities payload
  let outputMode ← selectOutputMode payload
  let userText := extractA2aUserText payload
  if userText = "" then
    .error (a2aProblem (problem 400 "a2a_message_parts_required" "Bad Request"
      "A2A message must include at least one non-empty text part"))
  else .ok (outputMode, userText)

end Messages

section Refusals

variable {sha256 : List UInt8 → List UInt8} {state : AppState} {headers : HeaderMap}
  {response : Response}

theorem policyViolationResponse_status {mode : GatewayDefenseMode}
    (refused : policyViolationResponse mode .noAuthConfigured = some response) :
    response.status < 429 := by
  cases mode with
  | audit => cases refused
  | warn =>
    cases refused
    decide
  | enforce =>
    cases refused
    decide

/-- With the kill switch off, a refusal for missing credentials is no server error. -/
theorem enforceRequestAuth_status (off : state.defenseKillSwitch = false)
    (refused : enforceRequestAuth sha256 state headers = some response) : response.status < 429 := by
  rw [enforceRequestAuth, off, if_neg Bool.false_ne_true] at refused
  rcases Option.or_eq_some_iff.mp refused with bearer | ⟨_, later⟩
  · simp only [bearerViolation] at bearer
    split_ifs at bearer
    cases bearer
    decide
  · rcases Option.or_eq_some_iff.mp later with secret | ⟨_, configured⟩
    · obtain ⟨_, _, secret⟩ := Option.bind_eq_some_iff.mp secret
      split_ifs at secret
      cases secret
      decide
    · split_ifs at configured
      exact policyViolationResponse_status configured

theorem enforceJsonContentType_status
    (refused : enforceJsonContentType headers = some response) : response.status < 429 := by
  rw [enforceJsonContentType] at refused
  split_ifs at refused
  cases refused
  decide

/-- Every error is a bad request. -/
def BadRequests {α : Type} (outcome : Except Problem α) : Prop :=
  ∀ problem, outcome = .error problem → problem.status = 400

theorem badRequests_ok {α : Type} (value : α) : BadRequests (.ok value) := by
  intro problem refused
  cases refused

theorem badRequests_error {α : Type} {problem : Problem} (status : problem.status = 400) :
    BadRequests (.error problem : Except Problem α) := by
  rintro other ⟨⟩
  exact status

theorem BadRequests.bind {α β : Type} {first : Except Problem α} {next : α → Except Problem β}
    (early : BadRequests first) (late : ∀ value, BadRequests (next value)) :
    BadRequests (first >>= next) := by
  cases first with
  | error problem => exact badRequests_error (early problem rfl)
  | ok value => exact late value

variable (payload : A2aMessageRequest)

theorem validateContractVersions_badRequests : BadRequests (validateContractVersions payload) := by
  rw [validateContractVersions]
  split
  · exact badRequests_error rfl
  · split
    · exact badRequests_error rfl
    · exact badRequests_ok ()

theorem validateBlockingMode_badRequests : BadRequests (validateBlockingMode payload) := by
  rw [validateBlockingMode]
  split_ifs
  · exact badRequests_error rfl
  · exact badRequests_ok ()

theorem validateRequiredCapabilities_badRequests :
    BadRequests (validateRequiredCapabilities payload) := by
  simp only [validateRequiredCapabilities]
  split_ifs
  · exact badRequests_ok ()
  · exact badRequests_error rfl

theorem selectOutputMode_badRequests : BadRequests (selectOutputMode payload) := by
  simp only [selectOutputMode]
  split_ifs
  · exact badRequests_ok _
  · exact badRequests_error rfl

/-- A message that cannot be prepared is a bad request. -/
theorem prepareA2aMessage_badRequests : BadRequests (prepareA2aMessage payload) := by
  refine (validateContractVersions_badRequests payload).bind fun _ => ?_
  refine (validateBlockingMode_badRequests payload).bind fun _ => ?_
  refine (validateRequiredCapabilities_badRequests payload).bind fun _ => ?_
  refine (selectOutputMode_badRequests payload).bind fun outputMode => ?_
  dsimp only
  split_ifs
  · exact badRequests_error rfl
  · exact badRequests_ok _

end Refusals

end Asterel.Gateway
