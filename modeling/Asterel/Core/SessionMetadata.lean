import Asterel.Core.SessionCompaction
import Asterel.Library.Transitions

/-!
# Concurrent updates of the session metadata

The metadata of a session is one JSON column. Five operations change one field of
it: each reads the session row, changes the field in what it read and writes the
whole column back. Between the read and the write other operations may write, and
the write puts their fields back to what they were at the read.

After every run the stored fields are what the completed operations made of them
exactly if each write finds the fields it does not set as it read them.

The column is modelled by the record it holds; the JSON text is left out.
-/

namespace Asterel.Sessions

open Library Transitions

inductive ThinkingLevel
  | off
  | low
  | medium
  | high
  deriving DecidableEq

inductive ConversationMode
  | chitchat
  | empathy
  | task
  | deepDive
  deriving DecidableEq

inductive ExpectedDensity
  | brief
  | normal
  | expanded
  deriving DecidableEq

inductive AvoidBehavior
  | overexplain
  | preachy
  | suddenOrganize
  | analysisBeforeEmpathy
  deriving DecidableEq

structure SessionControlState where
  mode : ConversationMode
  density : ExpectedDensity
  avoid : List AvoidBehavior
  modeTurns : UInt32
  deriving DecidableEq

structure SessionCompanionAffectState where
  schemaVersion : UInt16
  source : Option String
  capturedAt : Option String
  expiresAt : Option String
  affectSurface : List (String × UInt16)
  affectSuppressed : List (String × UInt16)
  deriving DecidableEq

structure SessionMetadata where
  title : Option String := none
  thinkingLevel : Option ThinkingLevel := none
  sessionControl : Option SessionControlState := none
  companionAffect : Option SessionCompanionAffectState := none
  forkedFromSessionId : Option String := none
  forkMessageCount : Option Nat := none
  forkEstimatedTokens : Option Nat := none
  deriving DecidableEq

structure Session where
  id : String
  surface : String
  ownerScope : String
  state : SessionState
  model : Option String
  metadata : Option SessionMetadata
  createdAt : String
  updatedAt : String
  archivedAt : Option String
  deriving DecidableEq

/-- `unwrap_or_default` on the column. -/
def Session.fields (session : Session) : SessionMetadata := session.metadata.getD {}

section Operations

def withThinkingLevelMetadata (session : Session) (level : ThinkingLevel) : SessionMetadata :=
  { session.fields with thinkingLevel := some level }

def clearedThinkingLevelMetadata (session : Session) : Option SessionMetadata :=
  session.metadata.map fun metadata => { metadata with thinkingLevel := none }

def withSessionControlMetadata (session : Session) (state : SessionControlState) :
    SessionMetadata :=
  { session.fields with sessionControl := some state }

def withCompanionAffectMetadata (session : Session) (state : SessionCompanionAffectState) :
    SessionMetadata :=
  { session.fields with companionAffect := some state }

def withoutCompanionAffectMetadata (session : Session) : Option SessionMetadata :=
  if session.fields.companionAffect.isNone then none
  else some { session.fields with companionAffect := none }

/-- The operations that change one field of the metadata. -/
inductive MetadataCall where
  | saveThinkingLevel (level : ThinkingLevel)
  | clearSessionThinkingLevel
  | saveSessionControl (state : SessionControlState)
  | saveCompanionAffectState (state : SessionCompanionAffectState)
  | clearCompanionAffectState
  deriving DecidableEq

/-- What a call does with the row it read: it fails, returns at once, or goes on to
write the metadata. -/
def MetadataCall.afterRead (sessionId : String) (found : Option Session) :
    MetadataCall → Except String (Option SessionMetadata)
  | .saveThinkingLevel level =>
    match found with
    | none => .error
        ("cannot persist thinking level for unknown canonical session '" ++ sessionId ++ "'")
    | some session => .ok (some (withThinkingLevelMetadata session level))
  | .clearSessionThinkingLevel =>
    match found with
    | none => .ok none
    | some session => .ok (clearedThinkingLevelMetadata session)
  | .saveSessionControl state =>
    match found with
    | none => .error ("session not found: " ++ sessionId)
    | some session => .ok (some (withSessionControlMetadata session state))
  | .saveCompanionAffectState state =>
    match found with
    | none => .error ("session not found: " ++ sessionId)
    | some session => .ok (some (withCompanionAffectMetadata session state))
  | .clearCompanionAffectState =>
    match found with
    | none => .error ("session not found: " ++ sessionId)
    | some session => .ok (withoutCompanionAffectMetadata session)

/-- The whole column is replaced. -/
def updateSessionMetadata (sessionId : String) (found : Option Session)
    (metadata : Option SessionMetadata) (timestamp : String) : Except String Session :=
  match found with
  | none => .error ("session not found: " ++ sessionId)
  | some session => .ok { session with metadata, updatedAt := timestamp }

end Operations

section Fields

/-- The fields that calls set. -/
inductive MetadataField where
  | thinkingLevel
  | sessionControl
  | companionAffect
  deriving DecidableEq

def MetadataCall.field : MetadataCall → MetadataField
  | .saveThinkingLevel _ => .thinkingLevel
  | .clearSessionThinkingLevel => .thinkingLevel
  | .saveSessionControl _ => .sessionControl
  | .saveCompanionAffectState _ => .companionAffect
  | .clearCompanionAffectState => .companionAffect

/-- The metadata with the field of the call set to the value of the call. -/
def MetadataCall.apply (metadata : SessionMetadata) : MetadataCall → SessionMetadata
  | .saveThinkingLevel level => { metadata with thinkingLevel := some level }
  | .clearSessionThinkingLevel => { metadata with thinkingLevel := none }
  | .saveSessionControl state => { metadata with sessionControl := some state }
  | .saveCompanionAffectState state => { metadata with companionAffect := some state }
  | .clearCompanionAffectState => { metadata with companionAffect := none }

/-- What completed calls in this order make of the metadata. -/
def replay (metadata : SessionMetadata) (completed : List MetadataCall) : SessionMetadata :=
  completed.foldl MetadataCall.apply metadata

/-- The two records agree in every field but this one. -/
structure SameOutside (field : MetadataField) (first second : SessionMetadata) : Prop where
  title : first.title = second.title
  thinkingLevel : field ≠ .thinkingLevel → first.thinkingLevel = second.thinkingLevel
  sessionControl : field ≠ .sessionControl → first.sessionControl = second.sessionControl
  companionAffect : field ≠ .companionAffect → first.companionAffect = second.companionAffect
  forkedFromSessionId : first.forkedFromSessionId = second.forkedFromSessionId
  forkMessageCount : first.forkMessageCount = second.forkMessageCount
  forkEstimatedTokens : first.forkEstimatedTokens = second.forkEstimatedTokens

theorem apply_eq_apply_iff (call : MetadataCall) (first second : SessionMetadata) :
    call.apply first = call.apply second ↔ SameOutside call.field first second := by
  constructor
  · intro same
    cases call <;> simp only [MetadataCall.apply, SessionMetadata.mk.injEq] at same <;>
      constructor <;> simp [MetadataCall.field, same]
  · rintro ⟨title, thinkingLevel, sessionControl, companionAffect, forked, count, tokens⟩
    cases call <;> simp_all [MetadataCall.apply, MetadataCall.field]

/-- A call that writes writes its field into what it read, and a call that does not
write finds its field as it would set it. -/
theorem afterRead_cases (call : MetadataCall) (session : Session) :
    call.afterRead session.id (some session) = .ok (some (call.apply session.fields)) ∨
      call.afterRead session.id (some session) = .ok none ∧
        call.apply session.fields = session.fields := by
  cases call with
  | saveThinkingLevel level => exact .inl rfl
  | saveSessionControl state => exact .inl rfl
  | saveCompanionAffectState state => exact .inl rfl
  | clearSessionThinkingLevel =>
    simp only [MetadataCall.afterRead, clearedThinkingLevelMetadata, Session.fields]
    cases session.metadata with
    | none => exact .inr ⟨rfl, rfl⟩
    | some metadata => exact .inl rfl
  | clearCompanionAffectState =>
    simp only [MetadataCall.afterRead, withoutCompanionAffectMetadata]
    cases absent : session.fields.companionAffect with
    | none =>
      refine .inr ⟨rfl, ?_⟩
      rw [MetadataCall.apply, ← absent]
    | some state => exact .inl rfl

end Fields

section Runs

/-- A call between its read and its write. -/
structure PendingCall where
  call : MetadataCall
  read : Session
  metadata : SessionMetadata
  computed : call.afterRead read.id (some read) = .ok (some metadata)

/-- The session row and the calls under way. The completed calls are bookkeeping of
the model; no step reads them. -/
structure Updating where
  row : Session
  pending : List PendingCall
  completed : List MetadataCall

def Updating.new (session : Session) : Updating := ⟨session, [], []⟩

/-- A call reads the row, or the call at an index writes it. -/
inductive UpdateAction where
  | read (call : MetadataCall)
  | write (index : Nat) (timestamp : String)

/-- A call that has nothing to write returns at once; a failed call changes nothing. -/
def Updating.read (state : Updating) (call : MetadataCall) : Updating :=
  match computed : call.afterRead state.row.id (some state.row) with
  | .error _ => state
  | .ok none => { state with completed := state.completed ++ [call] }
  | .ok (some metadata) =>
    { state with pending := state.pending ++ [⟨call, state.row, metadata, computed⟩] }

def Updating.write (state : Updating) (index : Nat) (pending : PendingCall) (timestamp : String) :
    Updating :=
  match updateSessionMetadata pending.read.id (some state.row) (some pending.metadata) timestamp with
  | .error _ => { state with pending := state.pending.eraseIdx index }
  | .ok row => ⟨row, state.pending.eraseIdx index, state.completed ++ [pending.call]⟩

/-- Writing for a call that is not under way changes nothing. -/
def updateStep (state : Updating) : UpdateAction → Option Updating
  | .read call => some (state.read call)
  | .write index timestamp =>
    match state.pending[index]? with
    | none => some state
    | some pending => some (state.write index pending timestamp)

/-- The value of the last completed call that sets a field, or the initial one. -/
def lastValue {α : Type} (value : MetadataCall → Option α) (completed : List MetadataCall)
    (initial : α) : α :=
  (completed.filterMap value).getLast?.getD initial

def MetadataCall.thinkingLevel : MetadataCall → Option (Option ThinkingLevel)
  | .saveThinkingLevel level => some (some level)
  | .clearSessionThinkingLevel => some none
  | _ => none

def MetadataCall.sessionControl : MetadataCall → Option (Option SessionControlState)
  | .saveSessionControl state => some (some state)
  | _ => none

def MetadataCall.companionAffect : MetadataCall → Option (Option SessionCompanionAffectState)
  | .saveCompanionAffectState state => some (some state)
  | .clearCompanionAffectState => some none
  | _ => none

/-- Every field holds the value of the last completed call that sets it; without one
it is as it was at the start. -/
structure UpToDate (initial : SessionMetadata) (state : Updating) : Prop where
  title : state.row.fields.title = initial.title
  thinkingLevel : state.row.fields.thinkingLevel =
    lastValue MetadataCall.thinkingLevel state.completed initial.thinkingLevel
  sessionControl : state.row.fields.sessionControl =
    lastValue MetadataCall.sessionControl state.completed initial.sessionControl
  companionAffect : state.row.fields.companionAffect =
    lastValue MetadataCall.companionAffect state.completed initial.companionAffect
  forkedFromSessionId : state.row.fields.forkedFromSessionId = initial.forkedFromSessionId
  forkMessageCount : state.row.fields.forkMessageCount = initial.forkMessageCount
  forkEstimatedTokens : state.row.fields.forkEstimatedTokens = initial.forkEstimatedTokens

/-- A write finds the fields it does not set as its call read them. -/
def NothingOverwritten (state : Updating) : UpdateAction → Prop
  | .read _ => True
  | .write index _ => ∀ pending, state.pending[index]? = some pending →
    SameOutside pending.call.field pending.read.fields state.row.fields

@[simp] theorem replay_concat (metadata : SessionMetadata) (completed : List MetadataCall)
    (call : MetadataCall) :
    replay metadata (completed ++ [call]) = call.apply (replay metadata completed) := by
  simp [replay]

theorem lastValue_concat {α : Type} (value : MetadataCall → Option α)
    (completed : List MetadataCall) (call : MetadataCall) (initial : α) :
    lastValue value (completed ++ [call]) initial =
      (value call).getD (lastValue value completed initial) := by
  cases sets : value call <;> simp [lastValue, sets]

/-- The fields of a replay are those of the last calls that set them. -/
theorem replay_fields (initial : SessionMetadata) (completed : List MetadataCall) :
    replay initial completed = { initial with
      thinkingLevel := lastValue MetadataCall.thinkingLevel completed initial.thinkingLevel
      sessionControl := lastValue MetadataCall.sessionControl completed initial.sessionControl
      companionAffect :=
        lastValue MetadataCall.companionAffect completed initial.companionAffect } := by
  induction completed using List.reverseRecOn with
  | nil => rfl
  | append_singleton completed call ih =>
    rw [replay_concat, ih]
    simp only [lastValue_concat]
    cases call <;> rfl

theorem upToDate_iff (initial : SessionMetadata) (state : Updating) :
    UpToDate initial state ↔ state.row.fields = replay initial state.completed := by
  rw [replay_fields]
  constructor
  · rintro ⟨title, thinkingLevel, sessionControl, companionAffect, forked, count, tokens⟩
    cases read : state.row.fields
    simp_all
  · intro same
    constructor <;> rw [same]

/-- Reading keeps the fields up to date. -/
theorem read_upToDate {initial : SessionMetadata} {state : Updating} (call : MetadataCall)
    (current : UpToDate initial state) : UpToDate initial (state.read call) := by
  rw [upToDate_iff] at current ⊢
  rw [Updating.read]
  rcases afterRead_cases call state.row with writes | ⟨returns, same⟩
  · split
    next failed => simp [failed] at writes
    next done => simp [done] at writes
    next => exact current
  · split
    next failed => simp [failed] at returns
    next => simpa [← current] using same.symm
    next => exact current

/-- After a write the fields are up to date exactly if it overwrote nothing. -/
theorem write_upToDate_iff {initial : SessionMetadata} {state : Updating} (index : Nat)
    (pending : PendingCall) (timestamp : String) (current : UpToDate initial state) :
    UpToDate initial (state.write index pending timestamp) ↔
      SameOutside pending.call.field pending.read.fields state.row.fields := by
  have metadata : pending.metadata = pending.call.apply pending.read.fields := by
    rcases afterRead_cases pending.call pending.read with writes | ⟨returns, _⟩
    · simpa using pending.computed.symm.trans writes
    · cases pending.computed.symm.trans returns
  rw [upToDate_iff] at current ⊢
  rw [← apply_eq_apply_iff, current, ← metadata]
  simp [Updating.write, updateSessionMetadata, Session.fields]

/-- Every field keeps the value of the last completed call that sets it, along the
whole run, exactly if each write finds the fields it does not set as it read them. -/
theorem metadata_up_to_date_iff (session : Session) (actions : List UpdateAction) :
    Always updateStep (UpToDate session.fields) (Updating.new session) actions ↔
      Guarded updateStep NothingOverwritten (Updating.new session) actions := by
  apply always_iff_guarded
  · intro state action
    cases action with
    | read call => exact ⟨_, rfl⟩
    | write index timestamp =>
      cases found : state.pending[index]? with
      | none => exact ⟨state, by simp [updateStep, found]⟩
      | some pending => exact ⟨state.write index pending timestamp, by simp only [updateStep, found]⟩
  · intro state next action current stepped
    cases action with
    | read call =>
      cases stepped
      exact iff_of_true (read_upToDate call current) trivial
    | write index timestamp =>
      rw [updateStep] at stepped
      cases found : state.pending[index]? with
      | none =>
        simp only [found] at stepped
        cases stepped
        exact iff_of_true current (by simp [NothingOverwritten, found])
      | some pending =>
        simp only [found] at stepped
        cases stepped
        rw [write_upToDate_iff index pending timestamp current]
        simp [NothingOverwritten, found]
  · rw [upToDate_iff]
    rfl

def sampleSession : Session where
  id := "session-1"
  surface := "gateway_ws"
  ownerScope := "user-1"
  state := .active
  model := none
  metadata := none
  createdAt := "2026-01-01T00:00:00Z"
  updatedAt := "2026-01-01T00:00:00Z"
  archivedAt := none

/-- Two calls that set different fields read the row before either writes it. -/
def overlappingCalls : List UpdateAction :=
  [.read (.saveThinkingLevel .high), .read (.saveSessionControl ⟨.task, .brief, [], 1⟩),
    .write 0 "2026-01-01T00:00:01Z", .write 0 "2026-01-01T00:00:02Z"]

/-- The second write loses the thinking level that the first one stored. -/
theorem thinking_level_lost :
    ¬ ∀ (session : Session) (actions : List UpdateAction) (final : Updating),
      run updateStep (Updating.new session) actions = some final → final.pending = [] →
        UpToDate session.fields final := by
  intro always
  have current := always sampleSession overlappingCalls _ rfl rfl
  exact absurd current.thinkingLevel (by decide)

end Runs

end Asterel.Sessions
