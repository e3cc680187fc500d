import Asterel.Library.Hex
import Asterel.Security.Permissions
import Mathlib.Data.String.Basic

/-!
# Tenant scoping of entity ids

In tenant mode an entity id stands in the scope of a tenant when it is the tenant
id itself or begins with it, followed by a colon or a slash. One function prefixes
ids, a second one does the same for the gateway, and a third one checks them
before a recall.

A tenant id holds neither of the two separators. Hence every id belongs to exactly
one scope, the text before its first separator, and the check compares that text
with the tenant. Two names coincide with texts that mean something else: an
unscoped person id belongs to the scope `person`, and the id `default` is refused
before its scope is looked at.
-/

namespace Asterel.Tenant

open Library List Text
open Asterel.Permissions (TenantPolicyContext trimmed trimmed_trimmed)

def maxTenantIdLen : Nat := 64

/-- `char::is_ascii_alphanumeric`. -/
def isAsciiAlphanumeric (ch : Char) : Bool :=
  ('a' ≤ ch ∧ ch ≤ 'z') ∨ ('A' ≤ ch ∧ ch ≤ 'Z') ∨ ('0' ≤ ch ∧ ch ≤ '9')

/-- Empty, overlong and non-alphanumeric values are rejected. -/
def sanitizeTenantId (raw : String) : Option String :=
  let trimmed := trimmed raw
  if trimmed = "" ∨ maxTenantIdLen < trimmed.utf8ByteSize then none
  else if trimmed = "." ∨ trimmed = ".." then none
  else if !trimmed.toList.all fun ch => isAsciiAlphanumeric ch || ch = '-' || ch = '_' then none
  else some trimmed

/-- A tenant id as the sanitizer returns it. -/
structure TenantId where
  text : String
  accepted : ∃ raw, sanitizeTenantId raw = some text

def disabled : TenantPolicyContext := ⟨false, none⟩

def enabled (tenantId : String) : TenantPolicyContext := ⟨true, some tenantId⟩

def tenantDefaultScopeFallbackDeniedError : String :=
  "blocked by security policy: tenant mode forbids default recall scope"

def tenantRecallCrossScopeDeniedError : String :=
  "blocked by security policy: tenant recall scope mismatch"

/-- Whether an id is the tenant id or begins with it and a separator. -/
def inScope (tenantId requested : String) : Bool :=
  requested = tenantId || (requested.toList.dropPrefix? tenantId.toList).any fun suffix =>
      suffix.head? = some ':' || suffix.head? = some '/'

/-- Prefix an entity id with the active tenant. -/
def scopeEntityId (context : TenantPolicyContext) (entityId : String) : String :=
  let requested := trimmed entityId
  if !context.tenantModeEnabled || requested = "" then requested
  else
    match context.tenantId.filter (· ≠ "") with
    | none => requested
    | some tenantId =>
      if inScope tenantId requested then requested else tenantId ++ ":" ++ requested

def enforceRecallScope (context : TenantPolicyContext) (entityId : String) : Except String Unit :=
  if !context.tenantModeEnabled then .ok ()
  else
    let requested := trimmed entityId
    if requested = "" ∨ requested = "default" then .error tenantDefaultScopeFallbackDeniedError
    else
      match context.tenantId.filter (· ≠ "") with
      | none => .error tenantRecallCrossScopeDeniedError
      | some tenantId =>
        if inScope tenantId requested then .ok () else .error tenantRecallCrossScopeDeniedError

/-- The prefixer of the gateway. -/
def tenantScopedEntityId (baseEntityId : String) (policyContext : TenantPolicyContext) : String :=
  if policyContext.tenantModeEnabled then
    match policyContext.tenantId with
    | some tenantId => tenantId ++ ":" ++ baseEntityId
    | none => baseEntityId
  else baseEntityId

section PersonIdentity

variable (sha256 : List UInt8 → List UInt8)

def defaultPersonId : String := "local-default"

def entityPrefixPerson : String := "person:"

/-- `str::trim_matches` for one character. -/
def trimMatches (edge : Char) (text : List Char) : List Char :=
  ((text.dropWhile (· = edge)).reverse.dropWhile (· = edge)).reverse

/-- The characters an identifier keeps. -/
def isIdentifierChar (ch : Char) : Bool :=
  isAsciiAlphanumeric ch || ch = '-' || ch = '_' || ch = '.'

def stablePersonIdHash (raw : String) : String :=
  Hex.encode ((sha256 raw.toUTF8.data.toList).take 6)

/-- Replace unsafe characters; a text that changed gets a hash of the original. -/
def sanitizePersonId (raw : String) : String :=
  let trimmed := trim raw.toList
  let out := trimmed.map fun ch => if isIdentifierChar ch then ch else '_'
  let withoutEdgeSeparators := trimMatches '_' out
  let changed := trimmed.length ≠ raw.toList.length || !trimmed.all isIdentifierChar ||
    withoutEdgeSeparators.length ≠ out.length
  if withoutEdgeSeparators = [] then ""
  else if !changed then String.ofList withoutEdgeSeparators
  else String.ofList withoutEdgeSeparators ++ "__h" ++ stablePersonIdHash sha256 raw

def personEntityId (personId : String) : String :=
  let normalized := sanitizePersonId sha256 personId
  entityPrefixPerson ++ if normalized = "" then defaultPersonId else normalized

/-- The entity id of a sender on a channel. -/
def channelEntityId (channel sender : String) : String :=
  personEntityId sha256 (channel ++ "." ++ sender)

end PersonIdentity

section Scope

/-- The scope an entity id belongs to: the text before its first separator. -/
def scopeOf (entityId : List Char) : List Char :=
  entityId.takeWhile fun ch => ch ≠ ':' ∧ ch ≠ '/'

/-- A text without separators. -/
def Atomic (text : List Char) : Prop := ':' ∉ text ∧ '/' ∉ text

theorem scopeOf_atomic {text : List Char} (atomic : Atomic text) : scopeOf text = text := by
  apply takeWhile_eq_self_iff.mpr
  intro ch member
  have notColon : ch ≠ ':' := fun same => atomic.1 (same ▸ member)
  have notSlash : ch ≠ '/' := fun same => atomic.2 (same ▸ member)
  simp [notColon, notSlash]

theorem scopeOf_separated {text : List Char} (atomic : Atomic text) {separator : Char}
    (separates : separator = ':' ∨ separator = '/') (rest : List Char) :
    scopeOf (text ++ separator :: rest) = text := by
  have whole := scopeOf_atomic atomic
  rw [scopeOf, takeWhile_append_of_pos (takeWhile_eq_self_iff.mp whole),
    takeWhile_cons_of_neg (by rcases separates with rfl | rfl <;> decide), append_nil]

/-- What follows the scope of an id begins with a separator. -/
theorem scopeOf_cases (entityId : List Char) :
    entityId = scopeOf entityId ∨ ∃ separator rest, (separator = ':' ∨ separator = '/') ∧
      entityId = scopeOf entityId ++ separator :: rest := by
  have split := (takeWhile_append_dropWhile
    (p := fun ch => decide (ch ≠ ':' ∧ ch ≠ '/')) (l := entityId)).symm
  cases later : entityId.dropWhile fun ch => decide (ch ≠ ':' ∧ ch ≠ '/') with
  | nil =>
    rw [later, append_nil] at split
    exact .inl split
  | cons separator rest =>
    rw [later] at split
    refine .inr ⟨separator, rest, ?_, split⟩
    have stopped := head_dropWhile_not
      (fun ch => decide (ch ≠ ':' ∧ ch ≠ '/')) (l := entityId)
      (by rw [later]; exact cons_ne_nil _ _)
    simp only [later, head_cons, decide_eq_false_iff_not, not_and_or, not_not] at stopped
    exact stopped

/-- For a tenant id without separators the check compares scopes. -/
theorem inScope_iff {tenantId : String} (atomic : Atomic tenantId.toList) (requested : String) :
    inScope tenantId requested ↔ scopeOf requested.toList = tenantId.toList := by
  simp only [inScope, Bool.or_eq_true, decide_eq_true_eq, Option.any_eq_true,
    dropPrefix?_eq_some_iff]
  constructor
  · rintro (rfl | ⟨suffix, ⟨lead, split, same⟩, separated⟩)
    · exact scopeOf_atomic atomic
    · rw [beq_iff_eq] at same
      subst same
      cases suffix with
      | nil => simp at separated
      | cons separator rest =>
        rw [split]
        exact scopeOf_separated atomic (by simpa using separated) rest
  · intro same
    rcases scopeOf_cases requested.toList with whole | ⟨separator, rest, separates, split⟩
    · exact .inl (String.toList_inj.mp (whole.trans same))
    · rw [same] at split
      refine .inr ⟨separator :: rest, ⟨tenantId.toList, split, by simp⟩, ?_⟩
      simpa using separates

end Scope

section Sanitizing

/-- What the sanitizer returns is the trimmed text, made of letters, digits, hyphens
and underscores. -/
theorem sanitizeTenantId_eq_some {raw tenant : String}
    (accepted : sanitizeTenantId raw = some tenant) :
    tenant = trimmed raw ∧ tenant ≠ "" ∧
      ∀ ch ∈ tenant.toList, isAsciiAlphanumeric ch ∨ ch = '-' ∨ ch = '_' := by
  simp only [sanitizeTenantId] at accepted
  split_ifs at accepted with overlong dots unsafeChar
  cases accepted
  refine ⟨rfl, fun empty => overlong (.inl empty), ?_⟩
  simpa only [Bool.not_eq_true', Bool.not_eq_false, all_eq_true, Bool.or_eq_true,
    decide_eq_true_eq, or_assoc] using unsafeChar

/-- The sanitizer changes nothing of what it returned. -/
theorem sanitizeTenantId_idem {raw tenant : String}
    (accepted : sanitizeTenantId raw = some tenant) : sanitizeTenantId tenant = some tenant := by
  have whole := (sanitizeTenantId_eq_some accepted).1
  subst whole
  rw [← accepted, sanitizeTenantId, sanitizeTenantId, trimmed_trimmed]

variable (tenant : TenantId)

theorem TenantId.chars :
    ∀ ch ∈ tenant.text.toList, isAsciiAlphanumeric ch ∨ ch = '-' ∨ ch = '_' := by
  obtain ⟨raw, accepted⟩ := tenant.accepted
  exact (sanitizeTenantId_eq_some accepted).2.2

theorem TenantId.nonempty : tenant.text ≠ "" := by
  obtain ⟨raw, accepted⟩ := tenant.accepted
  exact (sanitizeTenantId_eq_some accepted).2.1

theorem TenantId.trimmed_text : trimmed tenant.text = tenant.text := by
  obtain ⟨raw, accepted⟩ := tenant.accepted
  rw [(sanitizeTenantId_eq_some accepted).1, trimmed_trimmed]

theorem TenantId.atomic : Atomic tenant.text.toList := by
  constructor
  · intro member
    exact absurd (tenant.chars _ member) (by decide)
  · intro member
    exact absurd (tenant.chars _ member) (by decide)

theorem TenantId.active : (enabled tenant.text).tenantId.filter (· ≠ "") = some tenant.text := by
  simp [enabled, Option.filter, tenant.nonempty]

end Sanitizing

section Scoping

variable (tenant : TenantId) (entityId : String)

@[simp] theorem trimmed_toList : (trimmed entityId).toList = trim entityId.toList := by
  simp [trimmed]

/-- With a tenant, an id outside its scope is prefixed. -/
theorem scopeEntityId_enabled (nonblank : trimmed entityId ≠ "") :
    scopeEntityId (enabled tenant.text) entityId =
      if scopeOf (trimmed entityId).toList = tenant.text.toList then trimmed entityId
      else tenant.text ++ ":" ++ trimmed entityId := by
  have inactive : ¬ (!(enabled tenant.text).tenantModeEnabled || decide (trimmed entityId = "")) := by
    simp [enabled, nonblank]
  rw [scopeEntityId, if_neg inactive, tenant.active]
  simp only [inScope_iff tenant.atomic]

/-- A scoped id belongs to the scope of its tenant. -/
theorem scopeOf_scopeEntityId (nonblank : trimmed entityId ≠ "") :
    scopeOf (scopeEntityId (enabled tenant.text) entityId).toList = tenant.text.toList := by
  rw [scopeEntityId_enabled tenant entityId nonblank]
  by_cases inside : scopeOf (trimmed entityId).toList = tenant.text.toList
  · rw [if_pos inside]
    exact inside
  · rw [if_neg inside, String.toList_append, String.toList_append, append_assoc]
    exact scopeOf_separated tenant.atomic (.inl rfl) _

/-- A scoped id has no white space at its ends. -/
theorem trimmed_scopeEntityId (nonblank : trimmed entityId ≠ "") :
    trimmed (scopeEntityId (enabled tenant.text) entityId) =
      scopeEntityId (enabled tenant.text) entityId := by
  rw [scopeEntityId_enabled tenant entityId nonblank]
  by_cases inside : scopeOf (trimmed entityId).toList = tenant.text.toList
  · rw [if_pos inside, trimmed_trimmed]
  · rw [if_neg inside]
    apply String.toList_inj.mp
    have some : trim entityId.toList ≠ [] := by
      rw [← trimmed_toList]
      exact fun empty => nonblank (String.toList_inj.mp empty)
    have named : tenant.text.toList ≠ [] := fun empty =>
      tenant.nonempty (String.toList_inj.mp empty)
    have kept : trim tenant.text.toList = tenant.text.toList := by
      rw [← trimmed_toList, tenant.trimmed_text]
    simp only [trimmed_toList, String.toList_append]
    apply trim_append_trim (by simp) _ some
    rw [head?_append_of_ne_nil _ named]
    exact head_visible kept

/-- The check accepts the ids of the tenant's scope, except the id `default`. -/
theorem enforceRecallScope_iff :
    enforceRecallScope (enabled tenant.text) entityId = .ok () ↔
      trimmed entityId ≠ "default" ∧ scopeOf (trimmed entityId).toList = tenant.text.toList := by
  have active : ¬ (!(enabled tenant.text).tenantModeEnabled) := by simp [enabled]
  rw [enforceRecallScope, if_neg active, tenant.active]
  by_cases fallback : trimmed entityId = "" ∨ trimmed entityId = "default"
  · rw [if_pos fallback]
    apply iff_of_false (by simp)
    rintro ⟨named, inside⟩
    rcases fallback with empty | same
    · rw [empty] at inside
      exact tenant.nonempty (String.toList_inj.mp inside.symm)
    · exact named same
  · rw [if_neg fallback]
    simp only [inScope_iff tenant.atomic]
    split_ifs with inside
    · exact iff_of_true rfl ⟨fun same => fallback (.inr same), inside⟩
    · exact iff_of_false (by simp) fun both => inside both.2

/-- The ids of a person on a channel belong to the scope `person`. -/
theorem scopeOf_channelEntityId (sha256 : List UInt8 → List UInt8) (channel sender : String) :
    scopeOf (trimmed (channelEntityId sha256 channel sender)).toList = "person".toList := by
  have begins : ∃ rest, (channelEntityId sha256 channel sender).toList =
      "person".toList ++ ':' :: rest := by
    rw [channelEntityId, personEntityId]
    exact ⟨_, by rw [entityPrefixPerson, String.toList_append]; rfl⟩
  obtain ⟨rest, whole⟩ := begins
  have start : trimStart ("person".toList ++ ':' :: rest) = "person".toList ++ ':' :: rest := by
    apply trimStart_eq_self
    intro char first
    cases first
    decide
  rw [trimmed_toList, whole, trim, start, trimEnd_append_cons (by decide)]
  exact scopeOf_separated (by constructor <;> decide) (.inl rfl) _

theorem scopeEntityId_idem (nonblank : trimmed entityId ≠ "") :
    scopeEntityId (enabled tenant.text) (scopeEntityId (enabled tenant.text) entityId) =
      scopeEntityId (enabled tenant.text) entityId := by
  have kept := trimmed_scopeEntityId tenant entityId nonblank
  have inside := scopeOf_scopeEntityId tenant entityId nonblank
  have something : trimmed (scopeEntityId (enabled tenant.text) entityId) ≠ "" := by
    intro empty
    rw [← kept, empty] at inside
    exact tenant.nonempty (String.toList_inj.mp inside.symm)
  rw [scopeEntityId_enabled tenant _ something, kept, if_pos inside]

/-- A scoped id is `default` only for the tenant and the id of that name. -/
theorem scopeEntityId_eq_default_iff (nonblank : trimmed entityId ≠ "") :
    scopeEntityId (enabled tenant.text) entityId = "default" ↔
      tenant.text = "default" ∧ trimmed entityId = "default" := by
  have inside := scopeOf_scopeEntityId tenant entityId nonblank
  constructor
  · intro same
    have named : tenant.text = "default" := by
      rw [same] at inside
      exact String.toList_inj.mp (inside.symm.trans (by decide))
    refine ⟨named, ?_⟩
    rw [scopeEntityId_enabled tenant entityId nonblank] at same
    split_ifs at same with already
    · exact same
    · exact absurd (congrArg (':' ∈ String.toList ·) same) (by simp)
  · rintro ⟨named, same⟩
    rw [scopeEntityId_enabled tenant entityId nonblank, named, same, if_pos (by decide)]

end Scoping

section Isolation

variable (sha256 : List UInt8 → List UInt8) (tenant : TenantId) (baseEntityId : String)

/-- What scoping promises of a tenant and an id: the tenant may recall the scoped id
and no other tenant may, ids written without tenant mode are refused, and the two
prefixers agree where there is something to prefix. -/
structure Isolates : Prop where
  own : enforceRecallScope (enabled tenant.text)
    (scopeEntityId (enabled tenant.text) baseEntityId) = .ok ()
  foreign : ∀ other : TenantId, other.text ≠ tenant.text → enforceRecallScope (enabled other.text)
      (scopeEntityId (enabled tenant.text) baseEntityId) ≠ .ok ()
  unscoped : ∀ channel sender, enforceRecallScope (enabled tenant.text)
    (channelEntityId sha256 channel sender) ≠ .ok ()
  idempotent : scopeEntityId (enabled tenant.text)
      (scopeEntityId (enabled tenant.text) baseEntityId) =
    scopeEntityId (enabled tenant.text) baseEntityId
  agrees : ¬ inScope tenant.text (trimmed baseEntityId) →
    tenantScopedEntityId baseEntityId (enabled tenant.text) =
      scopeEntityId (enabled tenant.text) baseEntityId

/-- Another tenant never recalls a scoped id. -/
theorem foreign_refused (nonblank : trimmed baseEntityId ≠ "") {other : TenantId}
    (different : other.text ≠ tenant.text) :
    enforceRecallScope (enabled other.text)
      (scopeEntityId (enabled tenant.text) baseEntityId) ≠ .ok () := by
  intro accepted
  have inside := ((enforceRecallScope_iff other _).mp accepted).2
  rw [trimmed_scopeEntityId tenant _ nonblank, scopeOf_scopeEntityId tenant _ nonblank] at inside
  exact different (String.toList_inj.mp inside.symm)

theorem unscoped_refused_iff (channel sender : String) :
    enforceRecallScope (enabled tenant.text) (channelEntityId sha256 channel sender) ≠ .ok () ↔
      tenant.text ≠ "person" := by
  have scope := scopeOf_channelEntityId sha256 channel sender
  rw [ne_eq, enforceRecallScope_iff, scope]
  constructor
  · intro refused same
    refine refused ⟨?_, by rw [same]⟩
    intro fallback
    rw [fallback] at scope
    exact absurd scope (by decide)
  · intro different both
    exact different (String.toList_inj.mp both.2.symm)

theorem prefixers_agree_iff (nonblank : trimmed baseEntityId ≠ "")
    (outside : ¬ inScope tenant.text (trimmed baseEntityId)) :
    tenantScopedEntityId baseEntityId (enabled tenant.text) =
        scopeEntityId (enabled tenant.text) baseEntityId ↔
      trimmed baseEntityId = baseEntityId := by
  rw [inScope_iff tenant.atomic] at outside
  rw [scopeEntityId_enabled tenant _ nonblank, if_neg outside]
  simp only [tenantScopedEntityId, enabled, if_true]
  constructor
  · intro same
    have texts := congrArg String.toList same
    simp only [String.toList_append, append_cancel_left_eq] at texts
    exact (String.toList_inj.mp texts).symm
  · intro same
    rw [same]

/-- Scoping isolates a tenant exactly when the tenant is not called `person`, the id
is not the fallback id of a tenant called `default`, and an id still to be prefixed
has no white space around it. -/
theorem isolates_iff (nonblank : trimmed baseEntityId ≠ "") :
    Isolates sha256 tenant baseEntityId ↔
      tenant.text ≠ "person" ∧ ¬ (tenant.text = "default" ∧ trimmed baseEntityId = "default") ∧
        (inScope tenant.text (trimmed baseEntityId) ∨ trimmed baseEntityId = baseEntityId) := by
  have accepted : enforceRecallScope (enabled tenant.text)
      (scopeEntityId (enabled tenant.text) baseEntityId) = .ok () ↔
        ¬ (tenant.text = "default" ∧ trimmed baseEntityId = "default") := by
    rw [enforceRecallScope_iff, trimmed_scopeEntityId tenant _ nonblank,
      ← scopeEntityId_eq_default_iff tenant _ nonblank]
    exact and_iff_left (scopeOf_scopeEntityId tenant _ nonblank)
  constructor
  · intro isolates
    refine ⟨(unscoped_refused_iff sha256 tenant "" "").mp (isolates.unscoped "" ""),
      accepted.mp isolates.own, ?_⟩
    by_cases inside : inScope tenant.text (trimmed baseEntityId)
    · exact .inl inside
    · exact .inr ((prefixers_agree_iff tenant _ nonblank inside).mp (isolates.agrees inside))
  · rintro ⟨notPerson, notDefault, spaceless⟩
    constructor
    · exact accepted.mpr notDefault
    · intro other different
      exact foreign_refused tenant _ nonblank different
    · intro channel sender
      exact (unscoped_refused_iff sha256 tenant channel sender).mpr notPerson
    · exact scopeEntityId_idem tenant _ nonblank
    · intro outside
      exact (prefixers_agree_iff tenant _ nonblank outside).mpr (spaceless.resolve_left outside)

/-- The tenant id of a text that the sanitizer leaves as it is. -/
def personTenant : TenantId := ⟨"person", "person", by decide⟩

/-- A tenant may be called `person`, and then recalls the ids written without
tenant mode. -/
theorem person_recalls_unscoped : ¬ ∀ (tenant : TenantId) (baseEntityId : String),
    trimmed baseEntityId ≠ "" → Isolates (fun _ => []) tenant baseEntityId := by
  intro always
  have isolates := always personTenant "notes" (by decide)
  exact isolates.unscoped "discord" "alice" (by decide)

theorem isolates_iff_person :
    trimmed "notes" ≠ "" ∧ (Isolates (fun _ => []) personTenant "notes" ↔
      personTenant.text ≠ "person" ∧
        ¬ (personTenant.text = "default" ∧ trimmed "notes" = "default") ∧
          (inScope personTenant.text (trimmed "notes") ∨ trimmed "notes" = "notes")) :=
  ⟨by decide, isolates_iff _ personTenant "notes" (by decide)⟩

end Isolation

end Asterel.Tenant
