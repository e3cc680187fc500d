import Asterel.Security.Permissions

/-!
# Tenant bindings of principals

The binding of a principal to a tenant is held in memory and in a file. An update
changes the memory and writes all of it to the file under one lock; when the file
cannot be written the memory is put back. A resolution looks the principal up, and
when it is missing reads the file without the lock and then adds the entries of the
file that the memory lacks.

A binding that is cleared between the reading of the file and the merge comes back
with the merge. Memory and file keep to the last update of every principal exactly
in those runs in which no merge brings an entry that was cleared since the file was
read.
-/

namespace Asterel.TenantBinding

open Library Transitions List AList
open Asterel.Permissions (trimmed)

/-- Tenants by principal. -/
abbrev Bindings := HashMap String String

/-- What a file holds that can be read, and nothing otherwise. -/
def loadPersistedBindingsBestEffort (file : Bindings) (readable : Bool) : Bindings :=
  if readable then file else ∅

/-- The requested tenant; a blank one clears the binding. -/
def requestedTenant (tenantId : Option String) : Option String :=
  (tenantId.map trimmed).filter (· ≠ "")

/-- The outcome of an update, the memory and the file after it. -/
structure Updated where
  outcome : Except String (Option String)
  memory : Bindings
  file : Bindings

/-- One critical section; `saved` is the outcome of writing the file. -/
def updateOperatorTenantContext (memory file : Bindings) (principal : String)
    (tenantId : Option String) (saved : Except String Unit) : Updated :=
  match requestedTenant tenantId with
  | some tenant =>
    let previous := memory.lookup principal
    let runtimeBindings : Bindings := memory.insert principal tenant
    match saved with
    | .error error =>
      match previous with
      | some previousTenant => ⟨.error error, runtimeBindings.insert principal previousTenant, file⟩
      | none => ⟨.error error, runtimeBindings.erase principal, file⟩
    | .ok () => ⟨.ok (some tenant), runtimeBindings, runtimeBindings⟩
  | none =>
    let previous := memory.lookup principal
    let runtimeBindings : Bindings := memory.erase principal
    match saved with
    | .error error =>
      match previous with
      | some previousTenant => ⟨.error error, runtimeBindings.insert principal previousTenant, file⟩
      | none => ⟨.error error, runtimeBindings, file⟩
    | .ok () => ⟨.ok none, runtimeBindings, runtimeBindings⟩

/-- The second critical section of a resolution. -/
def mergePersisted (memory persisted : Bindings) : Bindings :=
  memory.insertMissing persisted.entries

/-- A resolution that nothing interrupts. -/
def resolveSelectedTenantForPrincipal (memory file : Bindings) (readable : Bool)
    (principal : String) : Option String × Bindings :=
  match memory.lookup principal with
  | some bound => (some bound, memory)
  | none =>
    let merged := mergePersisted memory (loadPersistedBindingsBestEffort file readable)
    (merged.lookup principal, merged)

section Lookups

variable {memory file persisted : Bindings} {principal : String}

@[simp] theorem lookup_mergePersisted (memory persisted : Bindings) (principal : String) :
    (mergePersisted memory persisted).lookup principal =
      (memory.lookup principal).or (persisted.lookup principal) :=
  HashMap.lookup_insertMissing persisted.nodupKeys memory principal

/-- An update that fails leaves every binding as it was. -/
theorem update_failed (memory file : Bindings) (principal : String) (tenantId : Option String)
    (error : String) :
    (∀ other, (updateOperatorTenantContext memory file principal tenantId (.error error)).memory.lookup
        other = memory.lookup other) ∧
      (updateOperatorTenantContext memory file principal tenantId (.error error)).file = file := by
  rw [updateOperatorTenantContext]
  cases requestedTenant tenantId with
  | some tenant =>
    cases previous : memory.lookup principal with
    | some previousTenant =>
      refine ⟨fun other => ?_, rfl⟩
      by_cases same : other = principal
      · rw [same, lookup_insert, previous]
      · rw [lookup_insert_ne same, lookup_insert_ne same]
    | none =>
      refine ⟨fun other => ?_, rfl⟩
      by_cases same : other = principal
      · rw [same, lookup_erase, previous]
      · rw [lookup_erase_ne same, lookup_insert_ne same]
  | none =>
    cases previous : memory.lookup principal with
    | some previousTenant =>
      refine ⟨fun other => ?_, rfl⟩
      by_cases same : other = principal
      · rw [same, lookup_insert, previous]
      · rw [lookup_insert_ne same, lookup_erase_ne same]
    | none =>
      refine ⟨fun other => ?_, rfl⟩
      by_cases same : other = principal
      · rw [same, lookup_erase, previous]
      · rw [lookup_erase_ne same]

/-- An update that succeeds sets the binding of its principal, in memory and file. -/
theorem update_made (memory file : Bindings) (principal : String) (tenantId : Option String) :
    (updateOperatorTenantContext memory file principal tenantId (.ok ())).file =
        (updateOperatorTenantContext memory file principal tenantId (.ok ())).memory ∧
      ∀ other, (updateOperatorTenantContext memory file principal tenantId (.ok ())).memory.lookup
          other = if other = principal then requestedTenant tenantId else memory.lookup other := by
  rw [updateOperatorTenantContext]
  cases requested : requestedTenant tenantId with
  | some tenant =>
    refine ⟨rfl, fun other => ?_⟩
    split_ifs with same
    · rw [same, lookup_insert]
    · rw [lookup_insert_ne same]
  | none =>
    refine ⟨rfl, fun other => ?_⟩
    split_ifs with same
    · rw [same, lookup_erase]
    · rw [lookup_erase_ne same]

end Lookups

section Log

/-- The last update of a principal in a log: its tenant, or nothing for a clear. -/
def lastUpdate (made : List (String × Option String)) (principal : String) :
    Option (Option String) :=
  ((made.filter (·.1 = principal)).getLast?).map Prod.snd

theorem lastUpdate_append (earlier later : List (String × Option String)) (principal : String) :
    lastUpdate (earlier ++ later) principal =
      (lastUpdate later principal).or (lastUpdate earlier principal) := by
  rw [lastUpdate, filter_append, getLast?_append, lastUpdate, lastUpdate]
  cases (later.filter (·.1 = principal)).getLast? <;> simp

theorem lastUpdate_concat (made : List (String × Option String)) (principal other : String)
    (tenant : Option String) :
    lastUpdate (made ++ [(principal, tenant)]) other =
      if other = principal then some tenant else lastUpdate made other := by
  rw [lastUpdate_append]
  split_ifs with same
  · simp [lastUpdate, same]
  · simp [lastUpdate, Ne.symm same]

end Log

section Runs

/-- A resolution under way: it missed the principal in memory, or it has read the
file. How many updates had been made when it read is bookkeeping of the model. -/
inductive ResolveCall where
  | missed (principal : String)
  | read (principal : String) (persisted : Bindings) (readAt : Nat)

/-- What a resolution returned, and the updates made until then. -/
structure Answer where
  principal : String
  result : Option String
  made : List (String × Option String)

/-- Memory, file and the resolutions under way. The updates made and the answers
given are bookkeeping of the model; no step reads them. -/
structure Binding where
  memory : Bindings
  file : Bindings
  calls : List ResolveCall
  made : List (String × Option String)
  answers : List Answer

def Binding.new (memory file : Bindings) : Binding := ⟨memory, file, [], [], []⟩

inductive BindingAction where
  | update (principal : String) (tenantId : Option String) (saved : Except String Unit)
  | lookup (principal : String)
  | readFile (index : Nat) (readable : Bool)
  | merge (index : Nat)

def Binding.update (state : Binding) (principal : String) (tenantId : Option String)
    (saved : Except String Unit) : Binding :=
  let updated := updateOperatorTenantContext state.memory state.file principal tenantId saved
  { state with
    memory := updated.memory
    file := updated.file
    made :=
      match updated.outcome with
      | .ok tenant => state.made ++ [(principal, tenant)]
      | .error _ => state.made }

/-- A principal found in memory is answered at once. -/
def Binding.lookup (state : Binding) (principal : String) : Binding :=
  match state.memory.lookup principal with
  | some bound => { state with answers := state.answers ++ [⟨principal, some bound, state.made⟩] }
  | none => { state with calls := state.calls ++ [.missed principal] }

def Binding.readFile (state : Binding) (index : Nat) (principal : String) (readable : Bool) :
    Binding :=
  let persisted := loadPersistedBindingsBestEffort state.file readable
  { state with calls := state.calls.set index (.read principal persisted state.made.length) }

def Binding.merge (state : Binding) (index : Nat) (principal : String) (persisted : Bindings) :
    Binding :=
  let memory := mergePersisted state.memory persisted
  { state with
    memory
    calls := state.calls.eraseIdx index
    answers := state.answers ++ [⟨principal, memory.lookup principal, state.made⟩] }

def bindingStep (state : Binding) : BindingAction → Option Binding
  | .update principal tenantId saved => some (state.update principal tenantId saved)
  | .lookup principal => some (state.lookup principal)
  | .readFile index readable =>
    match state.calls[index]? with
    | some (.missed principal) => some (state.readFile index principal readable)
    | _ => none
  | .merge index =>
    match state.calls[index]? with
    | some (.read principal persisted _) => some (state.merge index principal persisted)
    | _ => none

/-- Memory and file keep to the last update of every principal, and so did every
answer when it was given. -/
structure BindingsAgree (state : Binding) : Prop where
  agree : ∀ principal tenant, lastUpdate state.made principal = some tenant →
    state.memory.lookup principal = tenant ∧ state.file.lookup principal = tenant
  answered : ∀ answer ∈ state.answers, ∀ tenant,
    lastUpdate answer.made answer.principal = some tenant → answer.result = tenant

/-- A merge brings no entry that was cleared since the file was read. -/
def NothingClearedSinceRead (state : Binding) : BindingAction → Prop
  | .merge index => ∀ principal persisted readAt,
    state.calls[index]? = some (.read principal persisted readAt) →
      ∀ other ∈ persisted, lastUpdate (state.made.drop readAt) other ≠ some none
  | _ => True

/-- What was read from the file lacks the principals cleared before. -/
def ReadsOfFile (state : Binding) : Prop :=
  ∀ principal persisted readAt, .read principal persisted readAt ∈ state.calls →
    readAt ≤ state.made.length ∧ ∀ other, lastUpdate (state.made.take readAt) other = some none →
        persisted.lookup other = none

variable {state next : Binding}

theorem readFile_cases {index : Nat} {readable : Bool}
    (stepped : bindingStep state (.readFile index readable) = some next) :
    ∃ principal, state.calls[index]? = some (.missed principal) ∧
      next = state.readFile index principal readable := by
  simp only [bindingStep] at stepped
  split at stepped
  next principal missed =>
    cases stepped
    exact ⟨principal, missed, rfl⟩
  next => cases stepped

theorem merge_cases {index : Nat} (stepped : bindingStep state (.merge index) = some next) :
    ∃ principal persisted readAt, state.calls[index]? = some (.read principal persisted readAt) ∧
      next = state.merge index principal persisted := by
  simp only [bindingStep] at stepped
  split at stepped
  next principal persisted readAt reading =>
    cases stepped
    exact ⟨principal, persisted, readAt, reading, rfl⟩
  next => cases stepped

theorem update_agree (agreeing : BindingsAgree state) (principal : String)
    (tenantId : Option String) (saved : Except String Unit) :
    BindingsAgree (state.update principal tenantId saved) := by
  cases saved with
  | error error =>
    obtain ⟨memory, file⟩ := update_failed state.memory state.file principal tenantId error
    have made : (state.update principal tenantId (.error error)).made = state.made := by
      simp only [Binding.update, updateOperatorTenantContext]
      cases requestedTenant tenantId <;> cases state.memory.lookup principal <;> rfl
    constructor
    · intro other tenant last
      rw [made] at last
      obtain ⟨held, persisted⟩ := agreeing.agree other tenant last
      exact ⟨(memory other).trans held, (congrArg (AList.lookup other) file).trans persisted⟩
    · exact agreeing.answered
  | ok saved =>
    obtain ⟨file, memory⟩ := update_made state.memory state.file principal tenantId
    have made : (state.update principal tenantId (.ok saved)).made =
        state.made ++ [(principal, requestedTenant tenantId)] := by
      simp only [Binding.update, updateOperatorTenantContext]
      cases requestedTenant tenantId <;> rfl
    constructor
    · intro other tenant last
      rw [made, lastUpdate_concat] at last
      have held : (state.update principal tenantId (.ok saved)).memory.lookup other = tenant := by
        refine (memory other).trans ?_
        split_ifs at last ⊢
        · exact Option.some.inj last
        · exact (agreeing.agree other tenant last).1
      exact ⟨held, (congrArg (AList.lookup other) file).trans held⟩
    · exact agreeing.answered

theorem lookup_agree (agreeing : BindingsAgree state) (principal : String) :
    BindingsAgree (state.lookup principal) := by
  rw [Binding.lookup]
  cases found : state.memory.lookup principal with
  | none => exact ⟨agreeing.agree, agreeing.answered⟩
  | some bound =>
    refine ⟨agreeing.agree, ?_⟩
    intro answer member tenant last
    rcases mem_append.mp member with earlier | new
    · exact agreeing.answered answer earlier tenant last
    · rw [mem_singleton] at new
      subst new
      exact found.symm.trans (agreeing.agree principal tenant last).1

/-- A merge keeps to the updates exactly if it brings nothing that was cleared since
the file was read. -/
theorem merge_agree_iff (agreeing : BindingsAgree state) (sound : ReadsOfFile state) {index : Nat}
    {principal : String} {persisted : Bindings} {readAt : Nat}
    (reading : state.calls[index]? = some (.read principal persisted readAt)) :
    BindingsAgree (state.merge index principal persisted) ↔
      ∀ other ∈ persisted, lastUpdate (state.made.drop readAt) other ≠ some none := by
  obtain ⟨_, clearedBefore⟩ := sound principal persisted readAt (mem_of_getElem? reading)
  have split : ∀ other, lastUpdate state.made other = (lastUpdate (state.made.drop readAt) other).or
        (lastUpdate (state.made.take readAt) other) := by
    intro other
    rw [← lastUpdate_append, take_append_drop]
  constructor
  · intro merged other member cleared
    have last : lastUpdate state.made other = some none := by rw [split, cleared, Option.some_or]
    obtain ⟨tenant, held⟩ := HashMap.mem_iff_lookup.mp member
    have gone := (merged.agree other none last).1
    simp only [Binding.merge, lookup_mergePersisted, held] at gone
    cases inMemory : state.memory.lookup other <;> simp [inMemory] at gone
  · intro kept
    have agree : ∀ other tenant, lastUpdate state.made other = some tenant →
        (mergePersisted state.memory persisted).lookup other = tenant := by
      intro other tenant last
      have held := (agreeing.agree other tenant last).1
      rw [lookup_mergePersisted, held]
      cases tenant with
      | some tenant => rfl
      | none =>
        rw [Option.none_or]
        by_contra present
        have member : other ∈ persisted := by
          rw [← lookup_isSome]
          exact Option.isSome_iff_ne_none.mpr present
        have notSince := kept other member
        rw [split] at last
        cases since : lastUpdate (state.made.drop readAt) other with
        | some tenant =>
          rw [since, Option.some_or] at last
          exact notSince (since.trans last)
        | none =>
          rw [since, Option.none_or] at last
          exact present (clearedBefore other last)
    constructor
    · intro other tenant last
      exact ⟨agree other tenant last, (agreeing.agree other tenant last).2⟩
    · intro answer member tenant last
      rcases mem_append.mp member with earlier | new
      · exact agreeing.answered answer earlier tenant last
      · rw [mem_singleton] at new
        subst new
        exact agree principal tenant last

/-- As long as memory and file agree, what is read from the file is up to date. -/
theorem step_readsOfFile {action : BindingAction} (sound : ReadsOfFile state)
    (agreeing : BindingsAgree state) (stepped : bindingStep state action = some next) :
    ReadsOfFile next := by
  cases action with
  | update principal tenantId saved =>
    cases stepped
    intro other persisted readAt member
    obtain ⟨inside, cleared⟩ := sound other persisted readAt member
    have grows : ∃ later, (state.update principal tenantId saved).made = state.made ++ later := by
      simp only [Binding.update]
      split
      · exact ⟨_, rfl⟩
      · exact ⟨[], (append_nil _).symm⟩
    obtain ⟨later, made⟩ := grows
    rw [made, take_append_of_le_length inside, length_append]
    exact ⟨Nat.le_add_right_of_le inside, cleared⟩
  | lookup principal =>
    cases stepped
    intro other persisted readAt member
    rw [Binding.lookup] at member ⊢
    cases found : state.memory.lookup principal with
    | some bound =>
      simp only [found] at member ⊢
      exact sound other persisted readAt member
    | none =>
      simp only [found] at member ⊢
      have earlier : .read other persisted readAt ∈ state.calls := by simpa using member
      exact sound other persisted readAt earlier
  | readFile index readable =>
    obtain ⟨principal, _, rfl⟩ := readFile_cases stepped
    intro other persisted readAt member
    rcases mem_or_eq_of_mem_set member with earlier | new
    · exact sound other persisted readAt earlier
    · cases new
      refine ⟨Nat.le_refl _, ?_⟩
      intro cleared last
      simp only [Binding.readFile, take_length] at last
      rw [loadPersistedBindingsBestEffort]
      split
      · exact (agreeing.agree cleared none last).2
      · rfl
  | merge index =>
    obtain ⟨principal, persisted, readAt, _, rfl⟩ := merge_cases stepped
    intro other otherPersisted otherReadAt member
    exact sound other otherPersisted otherReadAt (mem_of_mem_eraseIdx member)

/-- A step keeps to the updates exactly if it meets the condition. -/
theorem step_agree_iff {action : BindingAction} (sound : ReadsOfFile state)
    (agreeing : BindingsAgree state) (stepped : bindingStep state action = some next) :
    BindingsAgree next ↔ NothingClearedSinceRead state action := by
  cases action with
  | update principal tenantId saved =>
    cases stepped
    exact iff_of_true (update_agree agreeing principal tenantId saved) trivial
  | lookup principal =>
    cases stepped
    exact iff_of_true (lookup_agree agreeing principal) trivial
  | readFile index readable =>
    obtain ⟨_, _, rfl⟩ := readFile_cases stepped
    exact iff_of_true ⟨agreeing.agree, agreeing.answered⟩ trivial
  | merge index =>
    obtain ⟨principal, persisted, readAt, reading, rfl⟩ := merge_cases stepped
    rw [merge_agree_iff agreeing sound reading, NothingClearedSinceRead]
    constructor
    · intro kept otherPrincipal otherPersisted otherReadAt same
      cases reading.symm.trans same
      exact kept
    · intro kept
      exact kept principal persisted readAt reading

/-- Memory, file and answers keep to the last update of every principal along the
whole run exactly if no merge brings an entry that was cleared since the file was
read; an update that fails never changes a binding in memory. -/
theorem bindings_agree_iff (memory file : Bindings) (actions : List BindingAction) :
    (Always bindingStep BindingsAgree (Binding.new memory file) actions ↔
        Guarded bindingStep NothingClearedSinceRead (Binding.new memory file) actions) ∧
      ∀ (held stored : Bindings) (principal : String) (tenantId : Option String) (error : String)
        (other : String),
        (updateOperatorTenantContext held stored principal tenantId (.error error)).memory.lookup
          other = held.lookup other := by
  constructor
  · apply always_iff_guarded_of_invariant _ step_readsOfFile step_agree_iff
    · intro principal persisted readAt member
      cases member
    · constructor
      · intro principal tenant last
        cases last
      · intro answer member
        cases member
    · intro state action stopped
      cases action with
      | update principal tenantId saved => cases stopped
      | lookup principal => cases stopped
      | readFile index readable => trivial
      | merge index =>
        intro principal persisted readAt reading
        simp [bindingStep, reading] at stopped
  · intro held stored principal tenantId error other
    exact (update_failed held stored principal tenantId error).1 other

/-- A resolution reads the file, the binding is cleared, and the resolution merges
what it read. -/
def clearDuringResolution : List BindingAction :=
  [.update "auth-1" (some "alpha") (.ok ()), .lookup "auth-2", .readFile 0 true,
    .update "auth-1" none (.ok ()), .merge 0, .lookup "auth-1"]

/-- The cleared binding is back. -/
theorem cleared_binding_returns :
    ¬ ∀ (memory file : Bindings) (actions : List BindingAction) (final : Binding),
      run bindingStep (Binding.new memory file) actions = some final → final.calls = [] →
        BindingsAgree final := by
  intro always
  have agreeing := always ∅ ∅ clearDuringResolution _ rfl rfl
  have gone := (agreeing.agree "auth-1" none (by decide)).1
  exact absurd gone (by decide)

end Runs

end Asterel.TenantBinding
