import Asterel.Security.PolicyPath

/-!
# Rules that decide about tool calls

A rule set is scanned in file order and the first rule that matches the call
decides. The documented precedence is by the kind of decision instead: a deny
rule before an ask rule, an ask rule before an allow rule. The scan keeps that
precedence exactly when the first matching rule is the strictest one.
-/

namespace Asterel.ToolPolicy

open Library Policy

/-- The decision a rule declares. -/
inductive PolicyDecisionRule
  | deny
  | ask
  | allow
  deriving DecidableEq

/-- A tool pattern, a subject pattern and the decision for the calls they match. -/
structure PolicyRule where
  tool : String
  subject : String
  decision : PolicyDecisionRule
  reason : String
  deriving DecidableEq

/-- `*` alone matches every text, a trailing `*` every text with that start. -/
def matchesGlob (pattern text : String) : Bool :=
  if pattern = "*" then
    true
  else if pattern.toList.getLast? = some '*' then
    pattern.toList.dropLast.isPrefixOf text.toList
  else
    pattern = text

def PolicyRule.matches (rule : PolicyRule) (toolName argsSummary : String) : Bool :=
  matchesGlob rule.tool toolName && matchesGlob rule.subject argsSummary

/-- The rules in file order. -/
structure PolicyRuleSet where
  rules : List PolicyRule
  deriving DecidableEq

def PolicyRuleSet.evaluate (ruleSet : PolicyRuleSet) (toolName argsSummary : String) :
    Option PolicyRule :=
  ruleSet.rules.find? (·.matches toolName argsSummary)

/-- The engine's final decision for a tool call. -/
inductive PolicyDecisionKind
  | allow
  | deny
  | requireApproval
  deriving DecidableEq

/-- Which stage of the precedence chain produced the decision. -/
inductive PolicySource
  | denyRule
  | askRule
  | allowRule
  | permissionGrant
  | autonomyFallback
  | defaultDeny
  deriving DecidableEq

structure PolicyEvaluation where
  decision : PolicyDecisionKind
  source : PolicySource
  reason : String
  deriving DecidableEq

structure PolicyEngine where
  rules : PolicyRuleSet
  deriving DecidableEq

def supervisedFallbackApprovalReason : String :=
  "approval required: supervised fallback (no matching policy rule or permission grant)"

def PolicyEngine.evaluate (engine : PolicyEngine) (toolName argsSummary : String)
    (hasGrant : Bool) (autonomy : AutonomyLevel) : PolicyEvaluation :=
  match engine.rules.evaluate toolName argsSummary with
  | some rule =>
    match rule.decision with
    | .deny =>
      { decision := .deny
        source := .denyRule
        reason := if rule.reason.isEmpty then "denied by policy rule: tool=" ++ rule.tool
          else rule.reason }
    | .ask =>
      { decision := .requireApproval
        source := .askRule
        reason := if rule.reason.isEmpty then "approval required by policy rule: tool=" ++ rule.tool
          else rule.reason }
    | .allow =>
      { decision := .allow
        source := .allowRule
        reason := if rule.reason.isEmpty then "allowed by policy rule: tool=" ++ rule.tool
          else rule.reason }
  | none =>
    if hasGrant then
      { decision := .allow
        source := .permissionGrant
        reason := "allowed by permission grant" }
    else
      match autonomy with
      | .readOnly =>
        { decision := .deny
          source := .autonomyFallback
          reason := "read-only autonomy level" }
      | .supervised =>
        { decision := .requireApproval
          source := .autonomyFallback
          reason := supervisedFallbackApprovalReason }
      | .full =>
        { decision := .allow
          source := .autonomyFallback
          reason := "autonomous mode" }

/-- The decision of the engine that a rule asks for. -/
def PolicyDecisionRule.kind : PolicyDecisionRule → PolicyDecisionKind
  | .deny => .deny
  | .ask => .requireApproval
  | .allow => .allow

/-- The documented precedence of the kinds of rules. -/
def PolicyDecisionRule.strictness : PolicyDecisionRule → Nat
  | .deny => 2
  | .ask => 1
  | .allow => 0

section Precedence

variable (engine : PolicyEngine) (toolName argsSummary : String) (hasGrant : Bool)
  (autonomy : AutonomyLevel)
variable {rest : List PolicyRule} {first : PolicyRule}

/-- Some rule with the decision matches the call. -/
def SomeRule (decision : PolicyDecisionRule) : Prop :=
  ∃ rule ∈ engine.rules.rules, rule.matches toolName argsSummary = true ∧ rule.decision = decision

/-- Any matching deny rule denies; else any matching ask rule asks; else any
matching allow rule allows. -/
def SafetyFloor : Prop :=
  let decision := (engine.evaluate toolName argsSummary hasGrant autonomy).decision
  (SomeRule engine toolName argsSummary .deny → decision = .deny) ∧
    (¬ SomeRule engine toolName argsSummary .deny → SomeRule engine toolName argsSummary .ask →
      decision = .requireApproval) ∧
    (¬ SomeRule engine toolName argsSummary .deny → ¬ SomeRule engine toolName argsSummary .ask →
      SomeRule engine toolName argsSummary .allow → decision = .allow)

/-- No matching rule is stricter than the first one. -/
def FirstStrictest : Prop :=
  ∀ first rest, engine.rules.rules.filter (·.matches toolName argsSummary) = first :: rest →
      ∀ rule ∈ rest, rule.decision.strictness ≤ first.decision.strictness

variable {engine toolName argsSummary hasGrant autonomy}

theorem kind_injective : Function.Injective PolicyDecisionRule.kind := by
  intro decision other same
  cases decision <;> cases other <;> first | rfl | cases same

section

variable (found : engine.rules.rules.filter (·.matches toolName argsSummary) = first :: rest)
include found

/-- The first matching rule decides, whatever the grants and the autonomy. -/
theorem evaluate_first :
    (engine.evaluate toolName argsSummary hasGrant autonomy).decision = first.decision.kind := by
  have scanned : engine.rules.evaluate toolName argsSummary = some first := by
    rw [PolicyRuleSet.evaluate, ← List.head?_filter, found, List.head?_cons]
  simp only [PolicyEngine.evaluate, scanned]
  cases first.decision <;> rfl

theorem someRule_iff {decision : PolicyDecisionRule} :
    SomeRule engine toolName argsSummary decision ↔
      first.decision = decision ∨ ∃ rule ∈ rest, rule.decision = decision := by
  have members : SomeRule engine toolName argsSummary decision ↔
      ∃ rule ∈ first :: rest, rule.decision = decision := by
    rw [← found]
    simp only [SomeRule, List.mem_filter, and_assoc]
  simpa using members

end

/-- Without a matching rule the precedence says nothing. -/
theorem safetyFloor_of_none
    (none : engine.rules.rules.filter (·.matches toolName argsSummary) = []) :
    SafetyFloor engine toolName argsSummary hasGrant autonomy := by
  have absent : ∀ decision, ¬ SomeRule engine toolName argsSummary decision := by
    rintro decision ⟨rule, member, applies, _⟩
    exact List.filter_eq_nil_iff.mp none rule member applies
  exact ⟨fun some => absurd some (absent _), fun _ some => absurd some (absent _),
    fun _ _ some => absurd some (absent _)⟩

/-- When some rule matches, the precedence holds exactly when the first one is
the strictest. -/
theorem safetyFloor_first_iff
    (found : engine.rules.rules.filter (·.matches toolName argsSummary) = first :: rest) :
    SafetyFloor engine toolName argsSummary hasGrant autonomy ↔
      ∀ rule ∈ rest, rule.decision.strictness ≤ first.decision.strictness := by
  rw [SafetyFloor, evaluate_first found]
  simp only [someRule_iff found]
  constructor
  · rintro ⟨denied, asked, _⟩ rule member
    cases kind : rule.decision with
    | deny =>
      have decided : first.decision = .deny := kind_injective (denied (Or.inr ⟨rule, member, kind⟩))
      rw [decided]
    | ask =>
      by_cases someDeny : first.decision = .deny ∨ ∃ rule ∈ rest, rule.decision = .deny
      · have decided : first.decision = .deny := kind_injective (denied someDeny)
        rw [decided]
        decide
      · have decided : first.decision = .ask :=
          kind_injective (asked someDeny (Or.inr ⟨rule, member, kind⟩))
        rw [decided]
    | allow => exact Nat.zero_le _
  · intro strictest
    have bounded : ∀ {decision}, (first.decision = decision ∨
        ∃ rule ∈ rest, rule.decision = decision) →
          decision.strictness ≤ first.decision.strictness := by
      rintro decision (rfl | ⟨rule, member, rfl⟩)
      · exact Nat.le_refl _
      · exact strictest rule member
    refine ⟨fun someDeny => ?_, fun noDeny someAsk => ?_, fun noDeny noAsk _ => ?_⟩
    · have floor := bounded someDeny
      cases decided : first.decision with
      | deny => rfl
      | ask => exact absurd (decided ▸ floor) (by decide)
      | allow => exact absurd (decided ▸ floor) (by decide)
    · have floor := bounded someAsk
      cases decided : first.decision with
      | deny => exact absurd (Or.inl decided) noDeny
      | ask => rfl
      | allow => exact absurd (decided ▸ floor) (by decide)
    · cases decided : first.decision with
      | deny => exact absurd (Or.inl decided) noDeny
      | ask => exact absurd (Or.inl decided) noAsk
      | allow => rfl

end Precedence

/-- Evaluation keeps the documented precedence exactly when no matching rule is
stricter than the first matching rule in file order. -/
theorem safetyFloor_iff (engine : PolicyEngine) (toolName argsSummary : String)
    (hasGrant : Bool) (autonomy : AutonomyLevel) :
    SafetyFloor engine toolName argsSummary hasGrant autonomy ↔
      FirstStrictest engine toolName argsSummary := by
  cases found : engine.rules.rules.filter (·.matches toolName argsSummary) with
  | nil =>
    apply iff_of_true (safetyFloor_of_none found)
    intro first rest same
    rw [found] at same
    cases same
  | cons first rest =>
    rw [safetyFloor_first_iff found, FirstStrictest, found]
    constructor
    · intro strictest head others same
      cases same
      exact strictest
    · intro strictest
      exact strictest first rest rfl

/-- Every shell command is allowed, and deletion is denied by a later rule. -/
def allowThenDeny : PolicyEngine :=
  ⟨⟨[⟨"shell", "*", .allow, ""⟩, ⟨"shell", "rm *", .deny, "no rm"⟩]⟩⟩

/-- The deletion is allowed, since the rule for every command stands first. -/
theorem deny_behind_allow_ignored :
    ¬ SafetyFloor allowThenDeny "shell" "rm -rf /" false .supervised := by
  intro floor
  have denied : (allowThenDeny.evaluate "shell" "rm -rf /" false .supervised).decision = .deny :=
    floor.1 ⟨⟨"shell", "rm *", .deny, "no rm"⟩, by decide⟩
  revert denied
  decide

end Asterel.ToolPolicy
