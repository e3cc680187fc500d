import Asterel.Library.HashMap
import Asterel.Library.Text
import Asterel.Library.Transitions

/-!
# Permission grants and the allowlists of entities

An entity may have an allowlist of tools. It is consulted when a grant is added,
under the trimmed id of the entity, while the allowlist is stored under the id as
given; whether a call is granted is answered from the grants alone. Grants
outlive a change of the allowlist, and permanent grants come back from disk.

The grants stay within the allowlists exactly in those runs that set no allowlist
narrower than the grants already held, and add no grant past an allowlist stored
under an id with white space around it.
-/

namespace Asterel.Permissions

open Library List

/-- `str::trim`. -/
def trimmed (text : String) : String := String.ofList (Text.trim text.toList)

inductive RiskLevel
  | low
  | medium
  | high
  deriving DecidableEq

def classifyRisk (toolName : String) : RiskLevel :=
  if toolName = "shell" ∨ toolName = "composio" then .high
  else if toolName = "codespace" then .medium
  else if "mcp_".toList.isPrefixOf toolName.toList then .high
  else if toolName ∈ ["file_write", "memory_forget", "memory_governance", "delegate",
      "subagent_spawn", "subagent_output", "subagent_cancel"] then .medium
  else .low

inductive GrantScope
  | session
  | permanent
  deriving DecidableEq

structure PermissionGrant where
  tool : String
  pattern : String
  scope : GrantScope
  deriving DecidableEq

structure TenantPolicyContext where
  tenantModeEnabled : Bool
  tenantId : Option String
  deriving DecidableEq

/-- A record of the permissions file. -/
structure StoredGrant where
  tool : String
  pattern : String
  scope : GrantScope
  grantedAt : String
  grantedBy : String
  entityId : Option String
  tenantModeEnabled : Option Bool
  tenantId : Option String
  deriving DecidableEq

def normalizeTenantId (raw : Option String) : Option String :=
  (raw.map trimmed).filter (· ≠ "")

/-- Whom a grant is for; the tenant id is normalized. -/
structure GrantSubject where
  entityId : String
  tenantModeEnabled : Bool
  tenantId : Option String
  normalized : normalizeTenantId tenantId = tenantId
  deriving DecidableEq

section Normalizing

@[simp] theorem trimmed_trimmed (text : String) : trimmed (trimmed text) = trimmed text := by
  simp [trimmed, Text.trim_trim]

theorem normalizeTenantId_idem (raw : Option String) :
    normalizeTenantId (normalizeTenantId raw) = normalizeTenantId raw := by
  cases raw with
  | none => rfl
  | some tenant =>
    by_cases empty : trimmed tenant = ""
    · have none : normalizeTenantId (some tenant) = none := by
        simp [normalizeTenantId, Option.filter, empty]
      rw [none]
      rfl
    · have kept : normalizeTenantId (some tenant) = some (trimmed tenant) := by
        simp [normalizeTenantId, Option.filter, empty]
      rw [kept]
      simp [normalizeTenantId, Option.filter, empty]

end Normalizing

def GrantSubject.fromContext (entityId : String) (tenantContext : TenantPolicyContext) :
    GrantSubject where
  entityId := trimmed entityId
  tenantModeEnabled := tenantContext.tenantModeEnabled
  tenantId := normalizeTenantId tenantContext.tenantId
  normalized := normalizeTenantId_idem tenantContext.tenantId

@[simp] theorem fromContext_entityId (entityId : String) (tenantContext : TenantPolicyContext) :
    (GrantSubject.fromContext entityId tenantContext).entityId = trimmed entityId := rfl

/-- Records without an entity are skipped. -/
def GrantSubject.fromStored (grant : StoredGrant) : Option GrantSubject :=
  match (grant.entityId.map trimmed).filter (· ≠ "") with
  | none => none
  | some entityId =>
    some {
      entityId
      tenantModeEnabled :=
        grant.tenantModeEnabled.getD (normalizeTenantId grant.tenantId).isSome
      tenantId := normalizeTenantId grant.tenantId
      normalized := normalizeTenantId_idem grant.tenantId }

structure ScopedGrant where
  grant : PermissionGrant
  subject : GrantSubject
  deriving DecidableEq

def storedToScopedGrant (grant : StoredGrant) : Option ScopedGrant :=
  (GrantSubject.fromStored grant).map fun subject =>
    ⟨⟨grant.tool, grant.pattern, grant.scope⟩, subject⟩

/-- `*` alone, a trailing ` *` for a word and its arguments, or a trailing `*` at
a boundary; every other pattern is literal. -/
def patternMatches (pattern value : List Char) : Bool :=
  if pattern = ['*'] then
    true
  else if [' ', '*'].isSuffixOf pattern then
    let stem := pattern.dropLast.dropLast
    stem.isPrefixOf value && (value.drop stem.length).head? = some ' '
  else if pattern.getLast? = some '*' then
    let stem := pattern.dropLast
    if stem = [] ∨ stem.getLast? = some ' ' ∨ stem.getLast? = some '/' ∨
        stem.getLast? = some '\\' then
      stem.isPrefixOf value
    else
      pattern = value
  else
    pattern = value

structure PermissionStore where
  sessionGrants : List ScopedGrant
  permanentGrants : List ScopedGrant
  permanentRecords : List StoredGrant
  entityAllowlists : HashMap String (List String)

section Operations

/-- The store after reading these records from the permissions file. -/
def load (records : List StoredGrant) : PermissionStore where
  sessionGrants := []
  permanentGrants := records.filterMap storedToScopedGrant
  permanentRecords := records
  entityAllowlists := ∅

def setEntityAllowlist (store : PermissionStore) (entityId : String)
    (allowlist : Option (List String)) : PermissionStore :=
  match allowlist with
  | some allowlist =>
    { store with entityAllowlists := store.entityAllowlists.insert entityId allowlist }
  | none => { store with entityAllowlists := store.entityAllowlists.erase entityId }

/-- The checks of a grant's own fields. -/
def checkGrant (grant : PermissionGrant) (subject : GrantSubject) : Except String Unit :=
  if trimmed grant.tool = "" then .error "grant tool must not be empty"
  else if trimmed grant.pattern = "" then .error "grant pattern must not be empty"
  else if subject.entityId = "" then .error "grant entity id must not be empty"
  else if grant.pattern = "*" ∧ classifyRisk grant.tool = .high then
    .error ("wildcard grants are not allowed for high-risk tool '" ++ grant.tool ++ "'")
  else .ok ()

/-- The entity has no allowlist, or one with the tool. -/
def allowlisted (store : PermissionStore) (entityId tool : String) : Bool :=
  (store.entityAllowlists.lookup entityId).all (·.contains tool)

/-- `persisted` is the outcome of writing the permissions file. -/
def addGrant (store : PermissionStore) (grant : PermissionGrant) (entityId : String)
    (tenantContext : TenantPolicyContext) (grantedAt : String) (persisted : Except String Unit) :
    Except String PermissionStore :=
  let subject := GrantSubject.fromContext entityId tenantContext
  match checkGrant grant subject with
  | .error err => .error err
  | .ok () =>
    if !allowlisted store subject.entityId grant.tool then
      .error ("cannot grant tool '" ++ grant.tool ++ "' for entity '" ++ subject.entityId ++
        "': tool not in allowlist")
    else
      match grant.scope with
      | .session => .ok { store with sessionGrants := store.sessionGrants ++ [⟨grant, subject⟩] }
      | .permanent =>
        let record : StoredGrant :=
          { tool := grant.tool
            pattern := grant.pattern
            scope := .permanent
            grantedAt
            grantedBy := subject.entityId
            entityId := some subject.entityId
            tenantModeEnabled := some subject.tenantModeEnabled
            tenantId := subject.tenantId }
        match persisted with
        | .error err => .error err
        | .ok () =>
          .ok { store with
            permanentRecords := store.permanentRecords ++ [record]
            permanentGrants := store.permanentGrants ++ [⟨grant, subject⟩] }

def isGranted (store : PermissionStore) (toolName argsSummary entityId : String)
    (tenantContext : TenantPolicyContext) : Bool :=
  let covers := fun held : ScopedGrant =>
    held.grant.tool == toolName && patternMatches held.grant.pattern.toList argsSummary.toList &&
      held.subject == GrantSubject.fromContext entityId tenantContext
  store.sessionGrants.any covers || store.permanentGrants.any covers

end Operations

/-- One operation of the store, or a restart that reads the file again. -/
inductive Action
  | setEntityAllowlist (entityId : String) (allowlist : Option (List String))
  | addGrant (grant : PermissionGrant) (entityId : String) (tenantContext : TenantPolicyContext)
      (grantedAt : String) (persisted : Except String Unit)
  | isGranted (toolName argsSummary entityId : String) (tenantContext : TenantPolicyContext)
  | restart

/-- A rejected grant leaves the store as it is. -/
def step (store : PermissionStore) : Action → Option PermissionStore
  | .setEntityAllowlist entityId allowlist => some (setEntityAllowlist store entityId allowlist)
  | .addGrant grant entityId tenantContext grantedAt persisted =>
    match addGrant store grant entityId tenantContext grantedAt persisted with
    | .ok next => some next
    | .error _ => some store
  | .isGranted _ _ _ _ => some store
  | .restart => some (load store.permanentRecords)

section Specification

/-- No call of a tool outside the allowlist of the entity is granted. -/
def GrantsWithinAllowlists (store : PermissionStore) : Prop :=
  ∀ entityId allowlist, store.entityAllowlists.lookup entityId = some allowlist →
    ∀ tool ∉ allowlist, ∀ argsSummary tenantContext,
      isGranted store tool argsSummary entityId tenantContext = false

/-- All grants held. -/
def PermissionStore.grants (store : PermissionStore) : List ScopedGrant :=
  store.sessionGrants ++ store.permanentGrants

/-- A new allowlist lists the tool of every grant the entity holds; a grant that
is added is within the allowlists under every spelling of the entity's id. -/
def StaysWithin (store : PermissionStore) : Action → Prop
  | .setEntityAllowlist entityId (some allowlist) =>
    ∀ held ∈ store.grants, held.subject.entityId = trimmed entityId → held.grant.tool ∈ allowlist
  | .addGrant grant entityId tenantContext _ persisted =>
    checkGrant grant (GrantSubject.fromContext entityId tenantContext) = .ok () →
      allowlisted store (trimmed entityId) grant.tool = true →
        (grant.scope = .permanent → persisted = .ok ()) →
          ∀ other allowlist, store.entityAllowlists.lookup other = some allowlist →
            trimmed other = trimmed entityId → grant.tool ∈ allowlist
  | _ => True

/-- Every grant held for an entity is within the entity's allowlist. -/
def NoConflict (store : PermissionStore) : Prop :=
  ∀ entityId allowlist, store.entityAllowlists.lookup entityId = some allowlist →
    ∀ held ∈ store.grants, held.subject.entityId = trimmed entityId → held.grant.tool ∈ allowlist

end Specification

section Exactness

theorem patternMatches_self (pattern : List Char) : patternMatches pattern pattern = true := by
  rw [patternMatches]
  split
  · rfl
  · split
    · rename_i suffixed
      obtain ⟨stem, rfl⟩ := isSuffixOf_iff_suffix.mp suffixed
      simp
    · split
      · dsimp only
        split
        · exact isPrefixOf_iff_prefix.mpr (List.dropLast_prefix pattern)
        · simp
      · simp

theorem isGranted_iff {store : PermissionStore} {tool argsSummary entityId : String}
    {tenantContext : TenantPolicyContext} :
    isGranted store tool argsSummary entityId tenantContext = true ↔
      ∃ held ∈ store.grants, held.grant.tool = tool ∧
        patternMatches held.grant.pattern.toList argsSummary.toList = true ∧
          held.subject = GrantSubject.fromContext entityId tenantContext := by
  simp only [isGranted, PermissionStore.grants, Bool.or_eq_true, any_eq_true,
    Bool.and_eq_true, beq_iff_eq, mem_append, and_assoc]
  constructor
  · rintro (⟨held, member, covered⟩ | ⟨held, member, covered⟩)
    · exact ⟨held, Or.inl member, covered⟩
    · exact ⟨held, Or.inr member, covered⟩
  · rintro ⟨held, member | member, covered⟩
    · exact Or.inl ⟨held, member, covered⟩
    · exact Or.inr ⟨held, member, covered⟩

/-- The subject of a grant is that of a call of its entity in some tenant context. -/
theorem subject_eq_fromContext {subject : GrantSubject} {entityId : String}
    (same : subject.entityId = trimmed entityId) :
    subject = GrantSubject.fromContext entityId
      ⟨subject.tenantModeEnabled, subject.tenantId⟩ := by
  obtain ⟨entity, enabled, tenant, normalized⟩ := subject
  simp only [GrantSubject.fromContext, GrantSubject.mk.injEq]
  exact ⟨same, trivial, normalized.symm⟩

/-- Calls stay within the allowlists exactly when the grants do. -/
theorem grantsWithinAllowlists_iff (store : PermissionStore) :
    GrantsWithinAllowlists store ↔ NoConflict store := by
  constructor
  · intro within entityId allowlist set held member same
    by_contra outside
    have refused := within entityId allowlist set held.grant.tool outside held.grant.pattern
      ⟨held.subject.tenantModeEnabled, held.subject.tenantId⟩
    have granted := isGranted_iff.mpr ⟨held, member, rfl,
      patternMatches_self held.grant.pattern.toList, subject_eq_fromContext same⟩
    rw [refused] at granted
    cases granted
  · intro within entityId allowlist set tool outside argsSummary tenantContext
    by_contra granted
    obtain ⟨held, member, rfl, _, subject⟩ := isGranted_iff.mp (Bool.not_eq_false _ ▸ granted)
    exact outside (within entityId allowlist set held member (by rw [subject]; rfl))

/-- A freshly loaded store has no allowlist to violate. -/
theorem load_noConflict (records : List StoredGrant) : NoConflict (load records) := by
  intro entityId allowlist set
  simp [load] at set

section Adding

variable {store next : PermissionStore} {grant : PermissionGrant} {entityId : String}
  {tenantContext : TenantPolicyContext} {grantedAt : String} {persisted : Except String Unit}

/-- What an accepted grant passed, and what it adds. -/
theorem addGrant_ok
    (added : addGrant store grant entityId tenantContext grantedAt persisted = .ok next) :
    (checkGrant grant (GrantSubject.fromContext entityId tenantContext) = .ok () ∧
      allowlisted store (trimmed entityId) grant.tool = true ∧
        (grant.scope = .permanent → persisted = .ok ())) ∧
      next.entityAllowlists = store.entityAllowlists ∧
        ∀ held, held ∈ next.grants ↔ held ∈ store.grants ∨
          held = ⟨grant, GrantSubject.fromContext entityId tenantContext⟩ := by
  cases checked : checkGrant grant (GrantSubject.fromContext entityId tenantContext) with
  | error err => simp [addGrant, checked] at added
  | ok _ =>
    cases listed : allowlisted store (trimmed entityId) grant.tool with
    | false => simp [addGrant, checked, fromContext_entityId, listed] at added
    | true =>
      cases scope : grant.scope with
      | session =>
        simp only [addGrant, checked, fromContext_entityId, listed, scope, Bool.not_true,
          Bool.false_eq_true, ↓reduceIte, Except.ok.injEq] at added
        subst added
        refine ⟨⟨rfl, rfl, fun permanent => by cases permanent⟩, rfl, fun held => ?_⟩
        simp only [PermissionStore.grants, mem_append, mem_singleton]
        exact or_right_comm
      | permanent =>
        cases persisted with
        | error err =>
          simp [addGrant, checked, fromContext_entityId, listed, scope] at added
        | ok _ =>
          simp only [addGrant, checked, fromContext_entityId, listed, scope, Bool.not_true,
            Bool.false_eq_true, ↓reduceIte, Except.ok.injEq] at added
          subst added
          refine ⟨⟨rfl, rfl, fun _ => rfl⟩, rfl, fun held => ?_⟩
          simp only [PermissionStore.grants, mem_append, mem_singleton, or_assoc]

/-- A grant that passes its checks and is persisted when permanent is accepted. -/
theorem addGrant_accepts (grantedAt : String)
    (checked : checkGrant grant (GrantSubject.fromContext entityId tenantContext) = .ok ())
    (listed : allowlisted store (trimmed entityId) grant.tool = true)
    (written : grant.scope = .permanent → persisted = .ok ()) :
    ∃ next, addGrant store grant entityId tenantContext grantedAt persisted = .ok next := by
  cases scope : grant.scope with
  | session =>
    simp only [addGrant, checked, fromContext_entityId, listed, scope, Bool.not_true,
      Bool.false_eq_true, ↓reduceIte]
    exact ⟨_, rfl⟩
  | permanent =>
    simp only [addGrant, checked, fromContext_entityId, listed, scope, written scope, Bool.not_true,
      Bool.false_eq_true, ↓reduceIte]
    exact ⟨_, rfl⟩

/-- Adding a grant keeps the grants within the allowlists exactly when it is
within them under every spelling of its entity. -/
theorem addGrant_noConflict_iff (within : NoConflict store)
    (added : addGrant store grant entityId tenantContext grantedAt persisted = .ok next) :
    NoConflict next ↔ ∀ other allowlist, store.entityAllowlists.lookup other = some allowlist →
        trimmed other = trimmed entityId → grant.tool ∈ allowlist := by
  obtain ⟨_, allowlists, grants⟩ := addGrant_ok added
  rw [NoConflict, allowlists]
  constructor
  · intro kept other allowlist set same
    exact kept other allowlist set _ ((grants _).mpr (Or.inr rfl)) same.symm
  · intro spelled other allowlist set held member same
    rcases (grants held).mp member with older | rfl
    · exact within other allowlist set held older same
    · exact spelled other allowlist set same.symm

end Adding

/-- Setting an allowlist keeps the grants within the allowlists exactly when it
lists the tools the entity has grants for. -/
theorem setEntityAllowlist_noConflict_iff {store : PermissionStore} (within : NoConflict store)
    (entityId : String) (allowlist : List String) :
    NoConflict (setEntityAllowlist store entityId (some allowlist)) ↔
      ∀ held ∈ store.grants, held.subject.entityId = trimmed entityId →
        held.grant.tool ∈ allowlist := by
  constructor
  · intro kept held member same
    exact kept entityId allowlist (by simp [setEntityAllowlist]) held member same
  · intro lists other otherList set held member same
    by_cases given : other = entityId
    · subst given
      simp only [setEntityAllowlist, AList.lookup_insert, Option.some.injEq] at set
      exact set ▸ lists held member same
    · simp only [setEntityAllowlist, AList.lookup_insert_ne given] at set
      exact within other otherList set held member same

theorem clearEntityAllowlist_noConflict {store : PermissionStore} (within : NoConflict store)
    (entityId : String) : NoConflict (setEntityAllowlist store entityId none) := by
  intro other allowlist set held member same
  by_cases given : other = entityId
  · subst given
    simp [setEntityAllowlist] at set
  · simp only [setEntityAllowlist, AList.lookup_erase_ne given] at set
    exact within other allowlist set held member same

/-- A step from grants within the allowlists stays within them exactly when it
meets the condition. -/
theorem step_exact {store next : PermissionStore} {action : Action}
    (within : GrantsWithinAllowlists store) (stepped : step store action = some next) :
    GrantsWithinAllowlists next ↔ StaysWithin store action := by
  rw [grantsWithinAllowlists_iff] at within ⊢
  cases action with
  | setEntityAllowlist entityId allowlist =>
    cases stepped
    cases allowlist with
    | some allowlist => exact setEntityAllowlist_noConflict_iff within entityId allowlist
    | none => exact iff_of_true (clearEntityAllowlist_noConflict within entityId) trivial
  | addGrant grant entityId tenantContext grantedAt persisted =>
    rw [step] at stepped
    cases added : addGrant store grant entityId tenantContext grantedAt persisted with
    | ok accepted =>
      simp only [added, Option.some.injEq] at stepped
      subst stepped
      obtain ⟨⟨checked, listed, written⟩, _⟩ := addGrant_ok added
      rw [addGrant_noConflict_iff within added]
      exact ⟨fun spelled _ _ _ => spelled, fun stays => stays checked listed written⟩
    | error err =>
      simp only [added, Option.some.injEq] at stepped
      subst stepped
      refine iff_of_true within fun checked listed written => ?_
      obtain ⟨accepted, otherwise⟩ := addGrant_accepts grantedAt checked listed written
      rw [added] at otherwise
      cases otherwise
  | isGranted toolName argsSummary entityId tenantContext =>
    cases stepped
    exact iff_of_true within trivial
  | restart =>
    cases stepped
    exact iff_of_true (load_noConflict store.permanentRecords) trivial

end Exactness

/-- In a run from any permissions file, the grants stay within the allowlists in
every state exactly when every step meets the condition. -/
theorem grants_within_allowlists_iff (records : List StoredGrant) (actions : List Action) :
    Transitions.Always step GrantsWithinAllowlists (load records) actions ↔
      Transitions.Guarded step StaysWithin (load records) actions := by
  have initial : GrantsWithinAllowlists (load records) :=
    (grantsWithinAllowlists_iff _).mpr (load_noConflict records)
  refine Transitions.always_iff_guarded (fun store action => ?_) step_exact initial actions
  cases action with
  | addGrant grant entityId tenantContext grantedAt persisted =>
    rw [step]
    split
    · exact ⟨_, rfl⟩
    · exact ⟨_, rfl⟩
  | setEntityAllowlist entityId allowlist => exact ⟨_, rfl⟩
  | isGranted toolName argsSummary entityId tenantContext => exact ⟨_, rfl⟩
  | restart => exact ⟨_, rfl⟩

/-- A grant for the shell, and an allowlist without the shell after it. -/
def grantThenNarrow : List Action :=
  [.addGrant ⟨"shell", "cargo *", .session⟩ "entity:1" ⟨false, none⟩ "2026-01-01T00:00:00+00:00"
      (.ok ()),
    .setEntityAllowlist "entity:1" (some ["file_read"])]

/-- The shell stays granted after the allowlist is narrowed. -/
theorem narrowed_allowlist_ignored :
    ¬ Transitions.Always step GrantsWithinAllowlists (load []) grantThenNarrow := by
  intro always
  obtain ⟨_, afterGrant⟩ := always
  obtain ⟨_, afterNarrowing⟩ := afterGrant _ rfl
  have within := afterNarrowing _ rfl
  have refused := within "entity:1" ["file_read"] (by decide) "shell" (by decide) "cargo test"
    ⟨false, none⟩
  revert refused
  decide

end Asterel.Permissions
