import Asterel.Security.Permissions

/-!
# Permanent grants across a reload

The store keeps its permanent grants twice: as records, in the form of the permissions
file, and as the grants that it answers from. A permanent grant is written to a file
beside the permissions file and renamed over it; only then do the records and the grants
take it up. So the grants in memory are always those that the records stand for, and the
file always holds the records, whichever writes have failed.
-/

namespace Asterel.PermissionReload

open Library
open Asterel.Permissions

/-! ## The permissions file -/

/-- The TOML library, for the records of the file. -/
structure Toml where
  encode : List StoredGrant → Except String String
  decode : String → Option (List StoredGrant)

/-- What is written is read back; it is never blank. -/
def Toml.Faithful (toml : Toml) : Prop :=
  ∀ records content, toml.encode records = .ok content →
    trimmed content ≠ "" ∧ toml.decode content = some records

/-- The permissions file and the file beside it. -/
structure Files where
  permissions : Option String
  temporary : Option String

/-- The call that fails while the file is persisted. A failed write may leave part of the
text behind, and the removal of the temporary file may fail as well. -/
inductive Fault
  | createDir
  | write (left : Option String)
  | restrict (removed : Bool)
  | rename (removed : Bool)

def storePath (workspaceDir : String) : String := workspaceDir ++ "/permissions.toml"

def tmpPath (workspaceDir : String) : String := workspaceDir ++ "/permissions.toml.tmp"

def Files.dropTemporary (files : Files) (content : String) (removed : Bool) : Files :=
  { files with temporary := if removed then none else some content }

def persistPermissionFile (toml : Toml) (workspaceDir : String) (fault : Option Fault)
    (records : List StoredGrant) (files : Files) : Files × Except String Unit :=
  match toml.encode records with
  | .error _ => (files, .error "failed to serialize permissions")
  | .ok content =>
    match fault with
    | some .createDir =>
      (files, .error ("failed to create permissions parent directory '" ++ workspaceDir ++ "'"))
    | some (.write left) =>
      ({ files with temporary := left },
        .error ("failed to write temp file '" ++ tmpPath workspaceDir ++ "'"))
    | some (.restrict removed) =>
      (files.dropTemporary content removed,
        .error ("failed to set permission grant store permissions on '" ++ tmpPath workspaceDir ++
          "': expected 0600"))
    | some (.rename removed) =>
      (files.dropTemporary content removed,
        .error ("failed to rename '" ++ tmpPath workspaceDir ++ "' → '" ++
          storePath workspaceDir ++ "'"))
    | none => (⟨some content, none⟩, .ok ())

/-! ## The store and its file -/

structure World where
  files : Files
  store : PermissionStore

/-- The records that a permissions file gives. -/
def recordsIn (toml : Toml) (permissions : Option String) : List StoredGrant :=
  match permissions with
  | none => []
  | some content => if trimmed content = "" then [] else (toml.decode content).getD []

/-- A missing file is written without records; a file that cannot be read counts as empty. -/
def loadFrom (toml : Toml) (workspaceDir : String) (readable : Bool) (fault : Option Fault)
    (files : Files) : World :=
  match readable, files.permissions with
  | true, some content => ⟨files, load (recordsIn toml (some content))⟩
  | true, none => ⟨(persistPermissionFile toml workspaceDir fault [] files).1, load []⟩
  | false, _ => ⟨files, load []⟩

/-- The record of a permanent grant. -/
def storedRecord (grant : PermissionGrant) (subject : GrantSubject) (grantedAt : String) :
    StoredGrant where
  tool := grant.tool
  pattern := grant.pattern
  scope := .permanent
  grantedAt := grantedAt
  grantedBy := subject.entityId
  entityId := some subject.entityId
  tenantModeEnabled := some subject.tenantModeEnabled
  tenantId := subject.tenantId

/-- A call of `add_grant`. -/
structure GrantCall where
  grant : PermissionGrant
  entityId : String
  tenantContext : TenantPolicyContext
  grantedAt : String
  fault : Option Fault

def GrantCall.subject (call : GrantCall) : GrantSubject :=
  .fromContext call.entityId call.tenantContext

/-- A permanent grant that passes the checks is written with the records before it. -/
def GrantCall.persist (toml : Toml) (workspaceDir : String) (call : GrantCall) (world : World) :
    Files × Except String Unit :=
  if (checkGrant call.grant call.subject).isOk &&
      allowlisted world.store call.subject.entityId call.grant.tool &&
      call.grant.scope = .permanent then
    persistPermissionFile toml workspaceDir call.fault
      (world.store.permanentRecords ++ [storedRecord call.grant call.subject call.grantedAt])
      world.files
  else (world.files, .ok ())

/-- `add_grant` with the write that it attempts. -/
def GrantCall.add (toml : Toml) (workspaceDir : String) (call : GrantCall) (world : World) :
    World × Except String Unit :=
  let attempt := call.persist toml workspaceDir world
  match addGrant world.store call.grant call.entityId call.tenantContext call.grantedAt
      attempt.2 with
  | .ok next => (⟨attempt.1, next⟩, .ok ())
  | .error error => (⟨attempt.1, world.store⟩, .error error)

/-- One operation of the store, or a restart that reads the file again. -/
inductive Event
  | setEntityAllowlist (entityId : String) (allowlist : Option (List String))
  | addGrant (call : GrantCall)
  | restart (fault : Option Fault)

def Event.apply (toml : Toml) (workspaceDir : String) (world : World) : Event → World
  | .setEntityAllowlist entityId allowlist =>
    { world with store := Permissions.setEntityAllowlist world.store entityId allowlist }
  | .addGrant call => (call.add toml workspaceDir world).1
  | .restart fault => loadFrom toml workspaceDir true fault world.files

def runEvents (toml : Toml) (workspaceDir : String) (world : World) (events : List Event) : World :=
  events.foldl (Event.apply toml workspaceDir) world

/-- The store without its session grants. -/
def permanentPart (store : PermissionStore) : PermissionStore := { store with sessionGrants := [] }

/-! ## What persisting leaves in the file -/

section Persisting

variable (toml : Toml) (workspaceDir : String) (fault : Option Fault)
  (records : List StoredGrant) (files : Files)

/-- The file holds what was to be written, or what it held before. -/
theorem persist_cases :
    ((persistPermissionFile toml workspaceDir fault records files).2 = .ok () ∧
        ∃ content, toml.encode records = .ok content ∧
          (persistPermissionFile toml workspaceDir fault records files).1.permissions =
            some content) ∨
      (∃ error, (persistPermissionFile toml workspaceDir fault records files).2 = .error error) ∧
        (persistPermissionFile toml workspaceDir fault records files).1.permissions =
          files.permissions := by
  rw [persistPermissionFile]
  cases toml.encode records with
  | error _ => exact .inr ⟨⟨_, rfl⟩, rfl⟩
  | ok content =>
    cases fault with
    | none => exact .inl ⟨rfl, content, rfl, rfl⟩
    | some fault =>
      right
      cases fault with
      | createDir => exact ⟨⟨_, rfl⟩, rfl⟩
      | write left => exact ⟨⟨_, rfl⟩, rfl⟩
      | restrict removed => exact ⟨⟨_, rfl⟩, rfl⟩
      | rename removed => exact ⟨⟨_, rfl⟩, rfl⟩

/-- What is written does not depend on the file that is replaced. -/
theorem persist_alike {other : Files} (same : files.permissions = other.permissions) :
    (persistPermissionFile toml workspaceDir fault records files).2 =
        (persistPermissionFile toml workspaceDir fault records other).2 ∧
      (persistPermissionFile toml workspaceDir fault records files).1.permissions =
        (persistPermissionFile toml workspaceDir fault records other).1.permissions := by
  rw [persistPermissionFile, persistPermissionFile]
  cases toml.encode records with
  | error _ => exact ⟨rfl, same⟩
  | ok content =>
    cases fault with
    | none => exact ⟨rfl, rfl⟩
    | some fault =>
      cases fault with
      | createDir => exact ⟨rfl, same⟩
      | write left => exact ⟨rfl, same⟩
      | restrict removed => exact ⟨rfl, same⟩
      | rename removed => exact ⟨rfl, same⟩

theorem attempt_alike (call : GrantCall) (store : PermissionStore) {files other : Files}
    (same : files.permissions = other.permissions) :
    (call.persist toml workspaceDir ⟨files, store⟩).2 =
        (call.persist toml workspaceDir ⟨other, store⟩).2 ∧
      (call.persist toml workspaceDir ⟨files, store⟩).1.permissions =
        (call.persist toml workspaceDir ⟨other, store⟩).1.permissions := by
  have written := persist_alike toml workspaceDir call.fault
    (store.permanentRecords ++ [storedRecord call.grant call.subject call.grantedAt]) files same
  rw [GrantCall.persist, GrantCall.persist]
  split
  · exact written
  · exact ⟨rfl, same⟩

variable {toml workspaceDir fault records files}

theorem recordsIn_of_encode (faithful : toml.Faithful) {content : String}
    (encoded : toml.encode records = .ok content) : recordsIn toml (some content) = records := by
  obtain ⟨filled, decoded⟩ := faithful records content encoded
  rw [recordsIn, if_neg filled, decoded, Option.getD_some]

/-- A write of no records leaves a file without records. -/
theorem recordsIn_initialized (faithful : toml.Faithful) (missing : files.permissions = none) :
    recordsIn toml (persistPermissionFile toml workspaceDir fault [] files).1.permissions = [] := by
  obtain ⟨_, content, encoded, written⟩ | ⟨_, kept⟩ :=
    persist_cases toml workspaceDir fault [] files
  · rw [written]
    exact recordsIn_of_encode faithful encoded
  · rw [kept, missing, recordsIn]

end Persisting

/-! ## Records and grants -/

/-- The records of a store stand for its permanent grants, and the file holds them. -/
structure Durable (toml : Toml) (world : World) : Prop where
  held : world.store.permanentGrants = world.store.permanentRecords.filterMap storedToScopedGrant
  filed : recordsIn toml world.files.permissions = world.store.permanentRecords

/-- The record of a grant that passes the checks stands for the grant. -/
theorem storedToScopedGrant_storedRecord {grant : PermissionGrant} {entityId grantedAt : String}
    {tenantContext : TenantPolicyContext}
    (checked : checkGrant grant (.fromContext entityId tenantContext) = .ok ())
    (permanent : grant.scope = .permanent) :
    storedToScopedGrant (storedRecord grant (.fromContext entityId tenantContext) grantedAt) =
      some ⟨grant, .fromContext entityId tenantContext⟩ := by
  have named : trimmed entityId ≠ "" := by
    intro empty
    rw [checkGrant, fromContext_entityId, if_pos empty] at checked
    repeat' split at checked
    all_goals cases checked
  have entity : ((storedRecord grant (.fromContext entityId tenantContext) grantedAt).entityId.map
      trimmed).filter (· ≠ "") = some (trimmed entityId) := by
    rw [storedRecord, fromContext_entityId, Option.map_some, trimmed_trimmed]
    exact Option.filter_some_pos (by simpa using named)
  obtain ⟨tool, pattern, scope⟩ := grant
  subst permanent
  rw [storedToScopedGrant, GrantSubject.fromStored, entity]
  simp only [storedRecord, GrantSubject.fromContext, Option.getD_some, normalizeTenantId_idem,
    Option.map_some]

/-! ## What a call does -/

section Adding

/-- A call fails and leaves the store and the file as they were, or it adds a session grant,
or it writes the record of a permanent grant and takes it up. -/
inductive Outcome (toml : Toml) (call : GrantCall) (world : World) :
    World × Except String Unit → Prop
  | failed (files : Files) (error : String)
      (kept : files.permissions = world.files.permissions) :
      Outcome toml call world (⟨files, world.store⟩, .error error)
  | session :
      Outcome toml call world (⟨world.files, { world.store with
        sessionGrants := world.store.sessionGrants ++ [⟨call.grant, call.subject⟩] }⟩, .ok ())
  | permanent (files : Files) (content : String)
      (checked : checkGrant call.grant call.subject = .ok ())
      (scope : call.grant.scope = .permanent)
      (encoded : toml.encode (world.store.permanentRecords ++
        [storedRecord call.grant call.subject call.grantedAt]) = .ok content)
      (written : files.permissions = some content) :
      Outcome toml call world (⟨files, { world.store with
        permanentRecords := world.store.permanentRecords ++
          [storedRecord call.grant call.subject call.grantedAt]
        permanentGrants := world.store.permanentGrants ++ [⟨call.grant, call.subject⟩] }⟩, .ok ())

variable (toml : Toml) (workspaceDir : String) (call : GrantCall) (world : World)

theorem add_outcome : Outcome toml call world (call.add toml workspaceDir world) := by
  rw [GrantCall.add, GrantCall.persist, addGrant, ← GrantCall.subject]
  cases checked : checkGrant call.grant call.subject with
  | error error => exact .failed world.files error rfl
  | ok _ =>
    cases listed : allowlisted world.store call.subject.entityId call.grant.tool with
    | false => exact .failed world.files _ rfl
    | true =>
      cases scope : call.grant.scope with
      | session => exact .session
      | permanent =>
        have reached : ((Except.ok PUnit.unit : Except String Unit).isOk && true &&
            decide (GrantScope.permanent = .permanent)) = true := rfl
        rw [if_pos reached]
        dsimp only
        obtain ⟨ok, content, encoded, written⟩ | ⟨⟨error, failed⟩, kept⟩ :=
          persist_cases toml workspaceDir call.fault (world.store.permanentRecords ++
            [storedRecord call.grant call.subject call.grantedAt]) world.files
        · rw [ok]
          exact .permanent _ content checked scope encoded written
        · rw [failed]
          exact .failed _ error kept

end Adding

/-! ## Runs -/

section Runs

variable {toml : Toml} {workspaceDir : String} {world other : World}

theorem loadFrom_of_missing {files : Files} (missing : files.permissions = none)
    (fault : Option Fault) : loadFrom toml workspaceDir true fault files =
      ⟨(persistPermissionFile toml workspaceDir fault [] files).1, load []⟩ := by
  simp only [loadFrom, missing]

theorem loadFrom_of_present {files : Files} {content : String}
    (present : files.permissions = some content) (fault : Option Fault) :
    loadFrom toml workspaceDir true fault files =
      ⟨files, load (recordsIn toml files.permissions)⟩ := by
  simp only [loadFrom, present]

/-- A readable file is loaded with the records that it gives. -/
theorem loadFrom_store (fault : Option Fault) (files : Files) :
    (loadFrom toml workspaceDir true fault files).store =
      load (recordsIn toml files.permissions) := by
  cases content : files.permissions with
  | none =>
    rw [loadFrom_of_missing content]
    rfl
  | some text => rw [loadFrom_of_present content, content]

theorem loadFrom_durable (faithful : toml.Faithful) (fault : Option Fault) (files : Files) :
    Durable toml (loadFrom toml workspaceDir true fault files) := by
  cases content : files.permissions with
  | none =>
    rw [loadFrom_of_missing content]
    exact ⟨rfl, recordsIn_initialized faithful content⟩
  | some text =>
    rw [loadFrom_of_present content]
    exact ⟨rfl, rfl⟩

theorem add_durable (faithful : toml.Faithful) (durable : Durable toml world) (call : GrantCall) :
    Durable toml (call.add toml workspaceDir world).1 := by
  obtain ⟨held, filed⟩ := durable
  have outcome := add_outcome toml workspaceDir call world
  generalize call.add toml workspaceDir world = result at outcome ⊢
  cases outcome with
  | failed files error kept => exact ⟨held, kept ▸ filed⟩
  | session => exact ⟨held, filed⟩
  | permanent files content checked scope encoded written =>
    constructor
    · have read := @storedToScopedGrant_storedRecord call.grant call.entityId call.grantedAt
        call.tenantContext checked scope
      rw [← GrantCall.subject] at read
      dsimp only
      rw [List.filterMap_append, ← held, List.filterMap_cons_some read, List.filterMap_nil]
    · dsimp only
      rw [written]
      exact recordsIn_of_encode faithful encoded

theorem apply_durable (faithful : toml.Faithful) (durable : Durable toml world) (event : Event) :
    Durable toml (event.apply toml workspaceDir world) := by
  cases event with
  | setEntityAllowlist entityId allowlist =>
    obtain ⟨held, filed⟩ := durable
    cases allowlist with
    | none => exact ⟨held, filed⟩
    | some allowlist => exact ⟨held, filed⟩
  | addGrant call => exact add_durable faithful durable call
  | restart fault => exact loadFrom_durable faithful fault world.files

theorem runEvents_durable (faithful : toml.Faithful) (durable : Durable toml world)
    (events : List Event) : Durable toml (runEvents toml workspaceDir world events) := by
  induction events generalizing world with
  | nil => exact durable
  | cons event events ih =>
    exact ih (apply_durable faithful durable event)

/-- The temporary file aside, two worlds are the same. -/
structure Alike (first second : World) : Prop where
  store : first.store = second.store
  permissions : first.files.permissions = second.files.permissions

theorem add_alike (alike : Alike world other) (call : GrantCall) :
    Alike (call.add toml workspaceDir world).1 (call.add toml workspaceDir other).1 := by
  obtain ⟨files, store⟩ := world
  obtain ⟨otherFiles, otherStore⟩ := other
  obtain ⟨rfl, same⟩ := alike
  dsimp only at same
  obtain ⟨sameResult, sameFile⟩ := attempt_alike toml workspaceDir call store same
  rw [GrantCall.add, GrantCall.add]
  dsimp only
  rw [sameResult]
  split
  all_goals
    constructor
    · rfl
    · dsimp only
      exact sameFile

theorem apply_alike (alike : Alike world other) (event : Event) :
    Alike (event.apply toml workspaceDir world) (event.apply toml workspaceDir other) := by
  cases event with
  | setEntityAllowlist entityId allowlist =>
    exact ⟨congrArg (fun store => Permissions.setEntityAllowlist store entityId allowlist)
      alike.store, alike.permissions⟩
  | addGrant call => exact add_alike alike call
  | restart fault =>
    rw [Event.apply, Event.apply]
    have same := alike.permissions
    cases content : world.files.permissions with
    | none =>
      rw [loadFrom_of_missing content, loadFrom_of_missing (same ▸ content)]
      exact ⟨rfl, (persist_alike toml workspaceDir fault [] world.files same).2⟩
    | some text =>
      rw [loadFrom_of_present content, loadFrom_of_present (same ▸ content), same]
      exact ⟨rfl, same⟩

theorem runEvents_alike (alike : Alike world other) (events : List Event) :
    Alike (runEvents toml workspaceDir world events) (runEvents toml workspaceDir other events) := by
  induction events generalizing world other with
  | nil => exact alike
  | cons event events ih =>
    exact ih (apply_alike alike event)

end Runs

/-! ## Reloading -/

section Reloading

variable (toml : Toml) (workspaceDir : String) (world : World)

/-- A store that is loaded from the file answers as the permanent part of this one. -/
def ReloadAnswers : Prop :=
  ∀ fault toolName argsSummary entityId tenantContext,
    isGranted (loadFrom toml workspaceDir true fault world.files).store toolName argsSummary
        entityId tenantContext =
      isGranted (permanentPart world.store) toolName argsSummary entityId tenantContext

/-- A call that fails changes neither the file nor any later answer. -/
def FailureHarmless : Prop :=
  ∀ call error, (GrantCall.add toml workspaceDir call world).2 = .error error →
    (GrantCall.add toml workspaceDir call world).1.files.permissions = world.files.permissions ∧
      ∀ later toolName argsSummary entityId tenantContext,
        isGranted (runEvents toml workspaceDir (GrantCall.add toml workspaceDir call world).1
            later).store toolName argsSummary entityId tenantContext =
          isGranted (runEvents toml workspaceDir world later).store toolName argsSummary entityId
            tenantContext

variable {toml workspaceDir world}

theorem reloadAnswers_of_durable (durable : Durable toml world) :
    ReloadAnswers toml workspaceDir world := by
  intro fault toolName argsSummary entityId tenantContext
  rw [loadFrom_store, durable.filed, isGranted, isGranted, load, permanentPart, durable.held]

theorem failureHarmless (toml : Toml) (workspaceDir : String) (world : World) :
    FailureHarmless toml workspaceDir world := by
  intro call error failed
  have unchanged : Alike (call.add toml workspaceDir world).1 world := by
    have outcome := add_outcome toml workspaceDir call world
    generalize call.add toml workspaceDir world = result at outcome failed ⊢
    cases outcome with
    | failed files error kept => exact ⟨rfl, kept⟩
    | session => cases failed
    | permanent files content checked scope encoded written => cases failed
  refine ⟨unchanged.permissions, ?_⟩
  intro later toolName argsSummary entityId tenantContext
  rw [(runEvents_alike unchanged later).store]

end Reloading

/-- Whatever calls have succeeded and failed since the store was loaded, the file brings back
its permanent grants, and a call that fails leaves no trace. -/
theorem permanent_grants_survive_reload {toml : Toml} (faithful : toml.Faithful)
    (workspaceDir : String) (files : Files) (fault : Option Fault) (events : List Event) :
    ReloadAnswers toml workspaceDir
        (runEvents toml workspaceDir (loadFrom toml workspaceDir true fault files) events) ∧
      FailureHarmless toml workspaceDir
        (runEvents toml workspaceDir (loadFrom toml workspaceDir true fault files) events) :=
  ⟨reloadAnswers_of_durable (runEvents_durable faithful (loadFrom_durable faithful fault files)
    events), failureHarmless toml workspaceDir _⟩

/-! ## One grant, refused by the disk at first -/

def cargoCall (fault : Option Fault) : GrantCall where
  grant := ⟨"shell", "cargo *", .permanent⟩
  entityId := " cli:local"
  tenantContext := ⟨true, some "tenant-alpha"⟩
  grantedAt := "2026-01-01T00:00:00+00:00"
  fault := fault

def cargoRecord : StoredGrant :=
  storedRecord (cargoCall none).grant (cargoCall none).subject (cargoCall none).grantedAt

def cargoFields : String :=
  "tool = \"shell\"\npattern = \"cargo *\"\nscope = \"permanent\"\n" ++
    "granted_at = \"2026-01-01T00:00:00+00:00\"\ngranted_by = \"cli:local\"\n" ++
    "entity_id = \"cli:local\"\ntenant_mode_enabled = true\ntenant_id = \"tenant-alpha\"\n"

def cargoText : String := "[[grants]]\n" ++ cargoFields

/-- The codec on a file without records and on the file with the one record. -/
def cargoToml : Toml where
  encode records :=
    if records = [] then .ok "grants = []\n"
    else if records = [cargoRecord] then .ok cargoText
    else .error "unsupported"
  decode content :=
    if content = "grants = []\n" then some []
    else if content = cargoText then some [cargoRecord]
    else none

theorem cargoText_visible : trimmed cargoText ≠ "" := by
  intro empty
  have blank : Text.Blank cargoText.toList := by
    rw [trimmed, ← String.toList_inj, String.toList_ofList] at empty
    exact Text.trim_eq_nil_iff.mp empty
  have bracket : '[' ∈ cargoText.toList := by
    rw [cargoText, String.toList_append]
    exact List.mem_append_left _ (by decide)
  exact absurd (blank '[' bracket) (by decide)

theorem cargoToml_faithful : cargoToml.Faithful := by
  intro records content encoded
  by_cases none : records = []
  · subst none
    cases encoded
    decide
  by_cases one : records = [cargoRecord]
  · subst one
    have written : content = cargoText := by
      cases encoded
      rfl
    subst written
    refine ⟨cargoText_visible, ?_⟩
    have filled : cargoText ≠ "grants = []\n" := by decide
    rw [cargoToml]
    dsimp only
    rw [if_neg filled, if_pos rfl]
  · rw [cargoToml] at encoded
    dsimp only at encoded
    rw [if_neg none, if_neg one] at encoded
    cases encoded

theorem permanent_grants_survive_reload_cargo :
    isGranted (loadFrom cargoToml "/srv" true none (runEvents cargoToml "/srv"
        (loadFrom cargoToml "/srv" true none ⟨none, none⟩)
        [.addGrant (cargoCall (some (.rename true))), .addGrant (cargoCall none)]).files).store
      "shell" "cargo test" "cli:local" ⟨true, some "tenant-alpha"⟩ = true := by
  rw [(permanent_grants_survive_reload cargoToml_faithful "/srv" ⟨none, none⟩ none
    [.addGrant (cargoCall (some (.rename true))), .addGrant (cargoCall none)]).1]
  decide

end Asterel.PermissionReload
