import Asterel.Contracts.Tenant
import Asterel.Core.SessionMetadata
import Asterel.Library.Search

/-!
# Owner scopes of gateway sessions

A session carries its owner as one text: the session key alone, or the key behind
the tenant, the principal or both, joined by double colons. A caller may use a
session when the parsed text names the caller's tenant and principal.

Tenants and principals hold no colon, so a text with a principal parses back to its
parts whatever the key is. The key itself is not escaped: without a principal, a
key that begins like an owner takes part in the parse.
-/

namespace Asterel.OwnerScope

open Library List
open Asterel.Permissions (TenantPolicyContext trimmed normalizeTenantId)
open Asterel.Sessions (Session)
open Asterel.Tenant (sanitizeTenantId)

inductive SessionOwnerScope where
  | unscoped (key : String)
  | principal (principal key : String)
  | tenant (tenantId key : String)
  | tenantPrincipal (tenantId principal key : String)
  | opaqueScope (raw : String)
  deriving DecidableEq

def tenantMark : String := "tenant::"

def principalMark : String := "principal::"

def separator : String := "::"

/-- The owner and the rest around the first double colon; neither may be empty. -/
def splitOwner (text : List Char) : Option (String × String) :=
  match find separator.toList text with
  | none => none
  | some (owner, rest) =>
    if owner = [] ∨ rest = [] then none else some (String.ofList owner, String.ofList rest)

def SessionOwnerScope.parse (raw : String) : SessionOwnerScope :=
  match raw.toList.dropPrefix? tenantMark.toList with
  | some rest =>
    match splitOwner rest with
    | none => .opaqueScope raw
    | some (tenantId, remainder) =>
      match remainder.toList.dropPrefix? principalMark.toList with
      | some principalRest =>
        match splitOwner principalRest with
        | none => .opaqueScope raw
        | some (owner, key) => .tenantPrincipal tenantId owner key
      | none => .tenant tenantId remainder
  | none =>
    match raw.toList.dropPrefix? principalMark.toList with
    | some rest =>
      match splitOwner rest with
      | none => .opaqueScope raw
      | some (owner, key) => .principal owner key
    | none => if trimmed raw = "" then .opaqueScope raw else .unscoped raw

def renderTenantOwnerScope (tenantId key : String) : String :=
  tenantMark ++ tenantId ++ separator ++ key

def renderPrincipalOwnerScope (principal key : String) : String :=
  principalMark ++ principal ++ separator ++ key

def renderTenantPrincipalOwnerScope (tenantId principal key : String) : String :=
  tenantMark ++ tenantId ++ separator ++ principalMark ++ principal ++ separator ++ key

/-- The owner of a session that the caller creates under this key. -/
def tenantScopedOwnerScope (sessionKey : String) (policyContext : TenantPolicyContext)
    (principal : Option String) : String :=
  match normalizeTenantId policyContext.tenantId, normalizeTenantId principal with
  | some tenant, some principal => renderTenantPrincipalOwnerScope tenant principal sessionKey
  | some tenant, none => renderTenantOwnerScope tenant sessionKey
  | none, some principal => renderPrincipalOwnerScope principal sessionKey
  | none, none => sessionKey

/-- Whether a caller with this tenant and this principal may use a session of the
owner. -/
def SessionOwnerScope.admits (owner : SessionOwnerScope) (tenant principal : Option String) : Bool :=
  match tenant, principal, owner with
  | some expectedTenant, some expectedPrincipal, .tenantPrincipal tenantId principal _ =>
    tenantId = expectedTenant && principal = expectedPrincipal
  | some expectedTenant, none, .tenant tenantId _ => tenantId = expectedTenant
  | some expectedTenant, none, .tenantPrincipal tenantId _ _ => tenantId = expectedTenant
  | none, some expectedPrincipal, .principal principal _ => principal = expectedPrincipal
  | none, none, .unscoped _ => true
  | _, _, _ => false

def sessionMatchesGatewayScope (session : Session) (surface : String)
    (policyContext : TenantPolicyContext) (principal : Option String) : Bool :=
  if session.surface ≠ surface then false
  else
    (SessionOwnerScope.parse session.ownerScope).admits (normalizeTenantId policyContext.tenantId)
      (normalizeTenantId principal)

section Callers

def isHexDigit (ch : Char) : Bool := "0123456789abcdef".toList.contains ch

/-- The form of a hashed principal: `auth-` and hexadecimal digits. -/
def isAuthPrincipal (principal : String) : Bool :=
  ((principal.toList.dropPrefix? "auth-".toList).filter fun digits =>
    digits ≠ [] ∧ digits.all isHexDigit).isSome

/-- The tenant and the principal a request acts under. -/
structure CallerScope where
  context : TenantPolicyContext
  principal : Option String
  tenantAccepted : ∀ tenantId, context.tenantId = some tenantId →
    ∃ raw, sanitizeTenantId raw = some tenantId
  principalHashed : ∀ name, principal = some name → isAuthPrincipal name

end Callers

section Parsing

@[simp] theorem dropPrefix?_append (mark rest : List Char) :
    (mark ++ rest).dropPrefix? mark = some rest :=
  List.dropPrefix?_append_of_beq rest (by simp)

theorem splitOwner_behind {owner key : String} (colonFree : ':' ∉ owner.toList)
    (named : owner ≠ "") (keyed : key ≠ "") :
    splitOwner (owner.toList ++ separator.toList ++ key.toList) = some (owner, key) := by
  have filled : ¬ (owner.toList = [] ∨ key.toList = []) := by
    simpa [String.toList_eq_nil_iff] using ⟨named, keyed⟩
  have colons : separator.toList = ':' :: [':'] := by decide
  rw [splitOwner, colons, find_behind [':'] key.toList colonFree]
  simp only [if_neg filled, String.ofList_toList]

variable {tenantId principal key : String}

theorem renderPrincipalOwnerScope_toList :
    (renderPrincipalOwnerScope principal key).toList =
      principalMark.toList ++ (principal.toList ++ separator.toList ++ key.toList) := by
  simp only [renderPrincipalOwnerScope, String.toList_append, append_assoc]

/-- A text with a principal alone parses to its parts, whatever the key is. -/
theorem parse_renderPrincipal (colonFree : ':' ∉ principal.toList) (named : principal ≠ "")
    (keyed : key ≠ "") :
    SessionOwnerScope.parse (renderPrincipalOwnerScope principal key) =
      .principal principal key := by
  have noTenant : ∀ rest, (principalMark.toList ++ rest).dropPrefix? tenantMark.toList = none :=
    fun rest => rfl
  rw [SessionOwnerScope.parse, renderPrincipalOwnerScope_toList, noTenant]
  simp only [dropPrefix?_append, splitOwner_behind colonFree named keyed]

/-- A text with a tenant parses to what follows the tenant. -/
theorem parse_behind_tenant (colonFree : ':' ∉ tenantId.toList) (named : tenantId ≠ "")
    (keyed : key ≠ "") :
    SessionOwnerScope.parse (renderTenantOwnerScope tenantId key) =
      (key.toList.dropPrefix? principalMark.toList).elim (.tenant tenantId key)
        fun principalRest =>
          (splitOwner principalRest).elim (.opaqueScope (renderTenantOwnerScope tenantId key))
            fun parts => .tenantPrincipal tenantId parts.1 parts.2 := by
  have whole : (renderTenantOwnerScope tenantId key).toList =
      tenantMark.toList ++ (tenantId.toList ++ separator.toList ++ key.toList) := by
    simp only [renderTenantOwnerScope, String.toList_append, append_assoc]
  rw [SessionOwnerScope.parse, whole, dropPrefix?_append]
  simp only [splitOwner_behind colonFree named keyed]
  cases key.toList.dropPrefix? principalMark.toList with
  | none => rfl
  | some principalRest =>
    simp only [Option.elim_some]
    cases splitOwner principalRest with
    | none => rfl
    | some parts => rfl

/-- A text with a tenant and a principal parses to its parts, whatever the key is. -/
theorem parse_renderTenantPrincipal (tenantColonFree : ':' ∉ tenantId.toList)
    (tenantNamed : tenantId ≠ "") (principalColonFree : ':' ∉ principal.toList)
    (principalNamed : principal ≠ "") (keyed : key ≠ "") :
    SessionOwnerScope.parse (renderTenantPrincipalOwnerScope tenantId principal key) =
      .tenantPrincipal tenantId principal key := by
  have nested : renderTenantPrincipalOwnerScope tenantId principal key =
      renderTenantOwnerScope tenantId (renderPrincipalOwnerScope principal key) := by
    simp only [renderTenantPrincipalOwnerScope, renderTenantOwnerScope, renderPrincipalOwnerScope,
      String.append_assoc]
  have something : renderPrincipalOwnerScope principal key ≠ "" := by
    intro empty
    have texts := congrArg String.toList empty
    rw [renderPrincipalOwnerScope_toList] at texts
    simp [keyed] at texts
  rw [nested, parse_behind_tenant tenantColonFree tenantNamed something,
    renderPrincipalOwnerScope_toList, dropPrefix?_append, Option.elim_some,
    splitOwner_behind principalColonFree principalNamed keyed, Option.elim_some]

end Parsing

section Admission

variable (tenant principal : Option String)

@[simp] theorem admits_tenantPrincipal (tenantId name key : String) :
    (SessionOwnerScope.tenantPrincipal tenantId name key).admits tenant principal ↔
      tenant = some tenantId ∧ (principal = some name ∨ principal = none) := by
  cases tenant <;> cases principal <;>
    simp [SessionOwnerScope.admits, @eq_comm String tenantId, @eq_comm String name]

@[simp] theorem admits_tenant (tenantId key : String) :
    (SessionOwnerScope.tenant tenantId key).admits tenant principal ↔
      tenant = some tenantId ∧ principal = none := by
  cases tenant <;> cases principal <;> simp [SessionOwnerScope.admits, @eq_comm String tenantId]

@[simp] theorem admits_principal (name key : String) :
    (SessionOwnerScope.principal name key).admits tenant principal ↔
      tenant = none ∧ principal = some name := by
  cases tenant <;> cases principal <;> simp [SessionOwnerScope.admits, @eq_comm String name]

@[simp] theorem admits_unscoped (key : String) :
    (SessionOwnerScope.unscoped key).admits tenant principal ↔
      tenant = none ∧ principal = none := by
  cases tenant <;> cases principal <;> simp [SessionOwnerScope.admits]

@[simp] theorem admits_opaque (raw : String) :
    (SessionOwnerScope.opaqueScope raw).admits tenant principal = false := by
  cases tenant <;> cases principal <;> rfl

end Admission

section Normalized

/-- The characters of a hashed principal. -/
def principalAlphabet : List Char := "auth-".toList ++ "0123456789abcdef".toList

theorem principalAlphabet_visible : principalAlphabet.all fun ch => !Text.isWhitespace ch := by
  decide +kernel

theorem isAuthPrincipal_chars {name : String} (hashed : isAuthPrincipal name) :
    name ≠ "" ∧ ∀ ch ∈ name.toList, ch ∈ principalAlphabet := by
  obtain ⟨digits, kept⟩ := Option.isSome_iff_exists.mp hashed
  obtain ⟨found, hexadecimal⟩ := Option.filter_eq_some_iff.mp kept
  obtain ⟨mark, split, same⟩ := List.dropPrefix?_eq_some_iff.mp found
  rw [beq_iff_eq] at same
  subst same
  have allDigits : ∀ ch ∈ digits, isHexDigit ch := by
    have both := of_decide_eq_true hexadecimal
    exact all_eq_true.mp both.2
  refine ⟨?_, ?_⟩
  · rintro rfl
    cases split
  · intro ch member
    rw [split, mem_append] at member
    rcases member with letter | digit
    · exact mem_append_left _ letter
    · have listed := allDigits ch digit
      rw [isHexDigit, contains_iff_mem] at listed
      exact mem_append_right _ listed

theorem normalizeTenantId_kept {name : String} (named : name ≠ "") (tidy : trimmed name = name) :
    normalizeTenantId (some name) = some name := by
  simp [normalizeTenantId, Option.filter, tidy, named]

variable (caller : CallerScope)

/-- The code reads the caller's tenant and principal as they are. -/
theorem CallerScope.tenant_normalized :
    normalizeTenantId caller.context.tenantId = caller.context.tenantId := by
  cases tenant : caller.context.tenantId with
  | none => rfl
  | some tenantId =>
    let accepted : Tenant.TenantId := ⟨tenantId, caller.tenantAccepted tenantId tenant⟩
    exact normalizeTenantId_kept accepted.nonempty accepted.trimmed_text

theorem CallerScope.principal_normalized :
    normalizeTenantId caller.principal = caller.principal := by
  cases principal : caller.principal with
  | none => rfl
  | some name =>
    obtain ⟨named, chars⟩ := isAuthPrincipal_chars (caller.principalHashed name principal)
    apply normalizeTenantId_kept named
    apply String.toList_inj.mp
    rw [Tenant.trimmed_toList]
    apply Text.trim_eq_self
    intro ch member
    simpa using all_eq_true.mp principalAlphabet_visible ch (chars ch member)

theorem CallerScope.principal_colonFree {name : String} (principal : caller.principal = some name) :
    ':' ∉ name.toList ∧ name ≠ "" := by
  obtain ⟨named, chars⟩ := isAuthPrincipal_chars (caller.principalHashed name principal)
  exact ⟨fun member => absurd (chars ':' member) (by decide +kernel), named⟩

theorem CallerScope.tenant_colonFree {tenantId : String}
    (tenant : caller.context.tenantId = some tenantId) : ':' ∉ tenantId.toList ∧ tenantId ≠ "" :=
  let accepted : Tenant.TenantId := ⟨tenantId, caller.tenantAccepted tenantId tenant⟩
  ⟨accepted.atomic.1, accepted.nonempty⟩

end Normalized

section Visibility

/-- The callers a session of this owner is meant for: the tenant's callers with the
same principal, and the tenant's callers without one. -/
def Entitled (owner caller : CallerScope) : Prop :=
  caller.context.tenantId = owner.context.tenantId ∧ (caller.principal = owner.principal ∨
      caller.context.tenantId.isSome ∧ caller.principal = none)

/-- A key that does not begin like an owner where the code would read one. -/
structure PlainKey (owner : CallerScope) (key : String) : Prop where
  alone : owner.context.tenantId = none → owner.principal = none →
    key.toList.dropPrefix? tenantMark.toList = none ∧
      key.toList.dropPrefix? principalMark.toList = none
  behindTenant : owner.context.tenantId ≠ none → owner.principal = none →
    ∀ rest, key.toList.dropPrefix? principalMark.toList = some rest →
      ∃ parts, splitOwner rest = some parts ∧ ¬ isAuthPrincipal parts.1

/-- The owner scope admits exactly the callers it is meant for. -/
def AdmitsEntitled (owner : CallerScope) (scope : String) : Prop :=
  ∀ caller : CallerScope,
    (SessionOwnerScope.parse scope).admits caller.context.tenantId caller.principal ↔
      Entitled owner caller

variable (owner : CallerScope) {key : String}

theorem sessionMatchesGatewayScope_eq (session : Session) (caller : CallerScope) :
    sessionMatchesGatewayScope session session.surface caller.context caller.principal =
      (SessionOwnerScope.parse session.ownerScope).admits caller.context.tenantId
        caller.principal := by
  rw [sessionMatchesGatewayScope, if_neg (by simp), caller.tenant_normalized,
    caller.principal_normalized]

/-- Without a principal, a session is meant for the tenant's callers without one. -/
theorem entitled_without_principal (principal : owner.principal = none) (caller : CallerScope) :
    Entitled owner caller ↔
      caller.context.tenantId = owner.context.tenantId ∧ caller.principal = none := by
  rw [Entitled, principal]
  constructor
  · rintro ⟨same, none | ⟨_, none⟩⟩
    · exact ⟨same, none⟩
    · exact ⟨same, none⟩
  · rintro ⟨same, none⟩
    exact ⟨same, .inl none⟩

/-- With a principal every key is safe. -/
theorem admits_with_principal {name : String} (principal : owner.principal = some name)
    (keyed : key ≠ "") :
    AdmitsEntitled owner (tenantScopedOwnerScope key owner.context owner.principal) := by
  obtain ⟨colonFree, named⟩ := owner.principal_colonFree principal
  intro caller
  rw [tenantScopedOwnerScope, owner.tenant_normalized, owner.principal_normalized, principal]
  cases tenant : owner.context.tenantId with
  | none =>
    simp only [parse_renderPrincipal colonFree named keyed, admits_principal, Entitled, tenant,
      principal]
    constructor
    · rintro ⟨noTenant, same⟩
      exact ⟨noTenant, .inl same⟩
    · rintro ⟨noTenant, same | ⟨some, _⟩⟩
      · exact ⟨noTenant, same⟩
      · simp [noTenant] at some
  | some tenantId =>
    obtain ⟨tenantColonFree, tenantNamed⟩ := owner.tenant_colonFree tenant
    simp only [parse_renderTenantPrincipal tenantColonFree tenantNamed colonFree named keyed,
      admits_tenantPrincipal, Entitled, tenant, principal]
    constructor
    · rintro ⟨sameTenant, same | none⟩
      · exact ⟨sameTenant, .inl same⟩
      · exact ⟨sameTenant, .inr ⟨by simp [sameTenant], none⟩⟩
    · rintro ⟨sameTenant, same | ⟨_, none⟩⟩
      · exact ⟨sameTenant, .inl same⟩
      · exact ⟨sameTenant, .inr none⟩

/-- Whoever holds a tenant and no principal is a caller, and so is whoever holds a
principal of the form that the gateway makes. -/
def CallerScope.withPrincipal (caller : CallerScope) (name : String)
    (hashed : isAuthPrincipal name) : CallerScope where
  context := caller.context
  principal := some name
  tenantAccepted := caller.tenantAccepted
  principalHashed := by
    rintro _ ⟨⟩
    exact hashed

/-- Behind a tenant alone, a key must not name a principal of a caller, nor spoil the
parse. -/
theorem admits_behind_tenant_iff {tenantId : String}
    (tenant : owner.context.tenantId = some tenantId) (principal : owner.principal = none)
    (keyed : key ≠ "") :
    AdmitsEntitled owner (tenantScopedOwnerScope key owner.context owner.principal) ↔
      ∀ rest, key.toList.dropPrefix? principalMark.toList = some rest →
        ∃ parts, splitOwner rest = some parts ∧ ¬ isAuthPrincipal parts.1 := by
  obtain ⟨colonFree, named⟩ := owner.tenant_colonFree tenant
  have scope : tenantScopedOwnerScope key owner.context owner.principal =
      renderTenantOwnerScope tenantId key := by
    rw [tenantScopedOwnerScope, owner.tenant_normalized, owner.principal_normalized, principal,
      tenant]
  rw [AdmitsEntitled, scope, parse_behind_tenant colonFree named keyed]
  simp only [entitled_without_principal owner principal, tenant]
  cases key.toList.dropPrefix? principalMark.toList with
  | none => simp
  | some rest =>
    simp only [Option.elim_some, Option.some.injEq, forall_eq']
    cases splitOwner rest with
    | none =>
      refine iff_of_false ?_ (by simp)
      intro exact
      exact absurd ((exact owner).mpr ⟨tenant, principal⟩) (by simp)
    | some parts =>
      simp only [Option.elim_some, admits_tenantPrincipal, Option.some.injEq, exists_eq_left']
      constructor
      · intro exact hashed
        have foreign := (exact (owner.withPrincipal parts.1 hashed)).mp ⟨tenant, .inl rfl⟩
        cases foreign.2
      · intro plain caller
        constructor
        · rintro ⟨sameTenant, same | none⟩
          · exact absurd (caller.principalHashed _ same) plain
          · exact ⟨sameTenant, none⟩
        · rintro ⟨sameTenant, none⟩
          exact ⟨sameTenant, .inr none⟩

/-- A text that admits callers without tenant and principal has no mark. -/
theorem markless_of_admits {raw : String} (admitted : (SessionOwnerScope.parse raw).admits none none) :
    raw.toList.dropPrefix? tenantMark.toList = none ∧
      raw.toList.dropPrefix? principalMark.toList = none := by
  rw [SessionOwnerScope.parse] at admitted
  cases tenantRest : raw.toList.dropPrefix? tenantMark.toList with
  | some rest =>
    simp only [tenantRest] at admitted
    split at admitted
    · simp at admitted
    · split at admitted
      · split at admitted <;> simp at admitted
      · simp at admitted
  | none =>
    cases principalRest : raw.toList.dropPrefix? principalMark.toList with
    | some rest =>
      simp only [tenantRest, principalRest] at admitted
      split at admitted <;> simp at admitted
    | none => exact ⟨rfl, rfl⟩

/-- A key alone is read as a key exactly if it has neither mark. -/
theorem admits_alone_iff (noTenant : owner.context.tenantId = none)
    (noPrincipal : owner.principal = none) (keyed : trimmed key ≠ "") :
    AdmitsEntitled owner (tenantScopedOwnerScope key owner.context owner.principal) ↔
      key.toList.dropPrefix? tenantMark.toList = none ∧
        key.toList.dropPrefix? principalMark.toList = none := by
  have scope : tenantScopedOwnerScope key owner.context owner.principal = key := by
    rw [tenantScopedOwnerScope, owner.tenant_normalized, owner.principal_normalized, noPrincipal,
      noTenant]
  rw [AdmitsEntitled, scope]
  simp only [entitled_without_principal owner noPrincipal, noTenant]
  constructor
  · intro exact
    have own := (exact owner).mpr ⟨noTenant, noPrincipal⟩
    rw [noTenant, noPrincipal] at own
    exact markless_of_admits own
  · rintro ⟨noTenantMark, noPrincipalMark⟩ caller
    have parsed : SessionOwnerScope.parse key = .unscoped key := by
      simp only [SessionOwnerScope.parse, noTenantMark, noPrincipalMark, if_neg keyed]
    rw [parsed]
    exact admits_unscoped _ _ _

/-- A session is visible to exactly the callers it is meant for, if and only if its
key is plain for its owner. -/
theorem visible_to_entitled_iff {session : Session} (keyed : key ≠ "") (tidy : trimmed key = key)
    (created : session.ownerScope = tenantScopedOwnerScope key owner.context owner.principal) :
    (∀ caller : CallerScope,
      sessionMatchesGatewayScope session session.surface caller.context caller.principal ↔
        Entitled owner caller) ↔
      PlainKey owner key := by
  have visible : (∀ caller : CallerScope,
      sessionMatchesGatewayScope session session.surface caller.context caller.principal ↔
        Entitled owner caller) ↔
      AdmitsEntitled owner (tenantScopedOwnerScope key owner.context owner.principal) := by
    simp only [sessionMatchesGatewayScope_eq, created, AdmitsEntitled]
  rw [visible]
  cases principal : owner.principal with
  | some name =>
    rw [← principal]
    apply iff_of_true (admits_with_principal owner principal keyed)
    constructor <;> simp [principal]
  | none =>
    rw [← principal]
    cases tenant : owner.context.tenantId with
    | none =>
      rw [admits_alone_iff owner tenant principal (by rwa [tidy])]
      constructor
      · intro markless
        exact ⟨fun _ _ => markless, fun named => absurd tenant named⟩
      · intro plain
        exact plain.alone tenant principal
    | some tenantId =>
      rw [admits_behind_tenant_iff owner tenant principal keyed]
      constructor
      · intro plain
        exact ⟨fun noTenant => by simp [tenant] at noTenant, fun _ _ => plain⟩
      · intro plain
        exact plain.behindTenant (by simp [tenant]) principal

/-- A caller of the tenant `alpha` without a principal. -/
def alphaCaller : CallerScope where
  context := Tenant.enabled "alpha"
  principal := none
  tenantAccepted := by
    rintro _ ⟨⟩
    exact ⟨"alpha", by decide⟩
  principalHashed := by simp

/-- The session that the caller creates under a key. -/
def sessionUnder (key : String) : Session :=
  { Sessions.sampleSession with
    ownerScope := tenantScopedOwnerScope key alphaCaller.context alphaCaller.principal }

theorem visible_to_entitled_iff_plain :
    "notes" ≠ "" ∧ trimmed "notes" = "notes" ∧
      ((∀ caller : CallerScope, sessionMatchesGatewayScope (sessionUnder "notes")
          (sessionUnder "notes").surface caller.context caller.principal ↔
            Entitled alphaCaller caller) ↔
        PlainKey alphaCaller "notes") :=
  ⟨by decide, by decide, visible_to_entitled_iff alphaCaller (by decide) (by decide) rfl⟩

/-- A key that names the principal of another caller lets that caller in. -/
theorem foreign_principal_admitted :
    ¬ ∀ (owner caller : CallerScope) (key : String) (session : Session), key ≠ "" →
      trimmed key = key →
      session.ownerScope = tenantScopedOwnerScope key owner.context owner.principal →
      (sessionMatchesGatewayScope session session.surface caller.context caller.principal ↔
        Entitled owner caller) := by
  intro always
  have same := always alphaCaller (alphaCaller.withPrincipal "auth-0123456789abcdef" (by decide))
    "principal::auth-0123456789abcdef::notes"
    (sessionUnder "principal::auth-0123456789abcdef::notes") (by decide) (by decide) rfl
  have admitted := same.mp (by decide)
  exact absurd admitted.2 (by decide)

end Visibility

end Asterel.OwnerScope
