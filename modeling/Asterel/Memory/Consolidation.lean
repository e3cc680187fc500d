import Asterel.Core.SessionCompaction
import Asterel.Library.Transitions

/-!
# Consolidation checkpoints

`run_consolidation` takes the lock of its entity and then the lock of the state
file, compares the checkpoint with the watermark of the entity, appends the episode
to the memory and saves the watermark. All calls of a workspace share the lock of
the state file, and a lock of the registry is only pruned when no call has a copy.

The append and the save are two steps over two stores. An append that took effect
without its save leaves the watermark behind the last episode.
-/

namespace Asterel.Consolidation

open Library Library.Transitions List Function
open Asterel.Sessions (truncateEllipsis)

abbrev EntityId := String

structure ConsolidationInput where
  entityId : EntityId
  checkpointEventCount : Nat
  userMessage : String
  assistantResponse : String
  deriving DecidableEq

structure ConsolidatedEpisode where
  schemaVersion : Nat
  episodeId : String
  entityId : EntityId
  checkpointEventCount : Nat
  occurredAt : String
  actors : List String
  action : String
  outcome : String
  contextTags : List String
  userMessage : String
  assistantResponse : String
  deriving DecidableEq

inductive ConsolidationDisposition where
  | consolidated
  | skippedNoSignal
  | skippedCheckpoint
  deriving DecidableEq

structure ConsolidationOutput where
  disposition : ConsolidationDisposition
  previousWatermark : Nat
  appliedWatermark : Nat
  deriving DecidableEq

section Episodes

def joinWhitespace (raw : String) : String :=
  String.ofList ([' '].intercalate (Text.splitWhitespace raw.toList))

def asciiLowercase (text : List Char) : List Char := text.map Char.toLower

/-- The tags and the markers that call for them, in the order of the tags. -/
def tagMarkers : List (String × List String) :=
  [("debug", ["error", "exception", "failed"]), ("memory", ["remember", "memory", "recall"]),
    ("qa", ["why", "?"]), ("security", ["security", "policy", "tenant"]),
    ("structured_reasoning", ["plan", "step", "roadmap"]), ("testing", ["test", "assert"])]

def collectContextTags (user assistant : String) : List String :=
  let merged := user.toList ++ ' ' :: assistant.toList
  let lower := asciiLowercase merged
  let code := if Text.occurs "```".toList merged then ["code"] else []
  let marked := tagMarkers.filter fun entry =>
    entry.2.any fun marker => Text.occurs marker.toList lower
  let tags := code ++ marked.map Prod.fst
  if tags.isEmpty then ["general"] else tags

/-- The episode that `build_consolidation_value` writes down. -/
def buildConsolidationValue (input : ConsolidationInput) (occurredAt : String) :
    ConsolidatedEpisode :=
  let user := truncateEllipsis (joinWhitespace input.userMessage) 240
  let assistant := truncateEllipsis (joinWhitespace input.assistantResponse) 480
  { schemaVersion := 1
    episodeId := "episode:" ++ input.entityId ++ ":" ++ Nat.repr input.checkpointEventCount
    entityId := input.entityId
    checkpointEventCount := input.checkpointEventCount
    occurredAt
    actors := ["user", "assistant"]
    action := truncateEllipsis ("respond_to_user_request: " ++ user) 180
    outcome := truncateEllipsis assistant 180
    contextTags := collectContextTags user assistant
    userMessage := user
    assistantResponse := assistant }

def blank (text : String) : Bool := (Text.trim text.toList).isEmpty

/-- There is nothing to consolidate. -/
def ConsolidationInput.noSignal (input : ConsolidationInput) : Bool :=
  blank input.userMessage && blank input.assistantResponse

end Episodes

section Locks

abbrev LockId := Nat

def maxConsolidationLocks : Nat := 1024

variable (inUse : LockId → Bool)

def pruneIdleConsolidationLocks (locks : List (EntityId × LockId)) : List (EntityId × LockId) :=
  locks.filter fun entry => inUse entry.2

/-- The registry after the lookup, and the lock of the entity. -/
def consolidationLock (locks : List (EntityId × LockId)) (fresh : LockId) (entityId : EntityId) :
    List (EntityId × LockId) × LockId :=
  let known := fun entry : EntityId × LockId => entry.1 = entityId
  let locks :=
    if maxConsolidationLocks ≤ locks.length && !locks.any known then
      pruneIdleConsolidationLocks inUse locks
    else locks
  match locks.find? known with
  | some entry => (locks, entry.2)
  | none => (locks ++ [(entityId, fresh)], fresh)

end Locks

section Calls

/-- The content of the state file. -/
structure ConsolidationState where
  watermarks : EntityId → Option Nat

def ConsolidationState.default : ConsolidationState := ⟨fun _ => none⟩

/-- Where a call of `run_consolidation` is. -/
inductive Phase where
  | called
  | waiting (lock : LockId)
  | entityLocked (lock : LockId)
  | stateLocked (lock : LockId)
  | ready (lock : LockId) (state : ConsolidationState)
  | appended (lock : LockId) (state : ConsolidationState)
  | finished (output : ConsolidationOutput)
  | failed

/-- The copy of an entity lock that the call has. -/
def Phase.lock : Phase → Option LockId
  | .waiting lock | .entityLocked lock | .stateLocked lock => some lock
  | .ready lock _ | .appended lock _ => some lock
  | .called | .finished _ | .failed => none

/-- The call has the lock of the state file. -/
def Phase.inState : Phase → Bool
  | .stateLocked _ | .ready _ _ | .appended _ _ => true
  | _ => false

/-- The call is between its append and its save. -/
def Phase.isAppended : Phase → Bool
  | .appended _ _ => true
  | _ => false

structure Call where
  input : ConsolidationInput
  phase : Phase

/-- The two stores, which survive the process, and what the process holds. -/
structure System where
  episodes : List ConsolidatedEpisode
  stateFile : Option ConsolidationState
  consolidationLocks : List (EntityId × LockId)
  nextLock : LockId
  entityLocks : LockId → Option Nat
  stateLock : Option Nat
  calls : List Call

def System.initial : System :=
  { episodes := [], stateFile := none, consolidationLocks := [], nextLock := 0,
    entityLocks := fun _ => none, stateLock := none, calls := [] }

/-- More than the registry has a copy of the lock. -/
def System.inUse (system : System) (lock : LockId) : Bool :=
  system.calls.any fun call => call.phase.lock = some lock

/-- A failed append may have written the episode all the same. -/
inductive AppendOutcome where
  | written
  | failed
  | writtenFailed
  deriving DecidableEq

/-- The atomic steps of a call. -/
inductive Event where
  | begin
  | lockEntity
  | lockState
  | load
  | failLoad
  | append (outcome : AppendOutcome) (occurredAt : String)
  | save
  | failSave
  deriving DecidableEq

inductive Action where
  | runConsolidation (input : ConsolidationInput)
  | call (index : Nat) (event : Event)
  | restart

def System.loadState (system : System) : ConsolidationState :=
  system.stateFile.getD .default

def System.move (system : System) (index : Nat) (call : Call) (phase : Phase) : System :=
  { system with calls := system.calls.set index { call with phase } }

/-- The call ends and drops its guards. -/
def System.leave (system : System) (index : Nat) (call : Call) (lock : LockId) (phase : Phase) :
    System :=
  { system.move index call phase with
    entityLocks := update system.entityLocks lock none
    stateLock := none }

def advance (system : System) (index : Nat) (call : Call) : Event → Phase → Option System
  | .begin, .called =>
    if call.input.noSignal then some (system.move index call (.finished ⟨.skippedNoSignal, 0, 0⟩))
    else
      let (locks, lock) := consolidationLock system.inUse system.consolidationLocks system.nextLock
        call.input.entityId
      some { system.move index call (.waiting lock) with
        consolidationLocks := locks
        nextLock := system.nextLock + 1 }
  | .lockEntity, .waiting lock =>
    if (system.entityLocks lock).isSome then none
    else
      some { system.move index call (.entityLocked lock) with
        entityLocks := update system.entityLocks lock (some index) }
  | .lockState, .entityLocked lock =>
    if system.stateLock.isSome then none
    else some { system.move index call (.stateLocked lock) with stateLock := some index }
  | .load, .stateLocked lock =>
    let state := system.loadState
    let previousWatermark := (state.watermarks call.input.entityId).getD 0
    if call.input.checkpointEventCount ≤ previousWatermark then
      let output := ⟨.skippedCheckpoint, previousWatermark, previousWatermark⟩
      some (system.leave index call lock (.finished output))
    else some (system.move index call (.ready lock state))
  | .failLoad, .stateLocked lock => some (system.leave index call lock .failed)
  | .append outcome occurredAt, .ready lock state =>
    let episodes := system.episodes ++ [buildConsolidationValue call.input occurredAt]
    match outcome with
    | .written => some { system.move index call (.appended lock state) with episodes }
    | .failed => some (system.leave index call lock .failed)
    | .writtenFailed => some { system.leave index call lock .failed with episodes }
  | .save, .appended lock state =>
    let previousWatermark := (state.watermarks call.input.entityId).getD 0
    let watermark := call.input.checkpointEventCount
    let output := ⟨.consolidated, previousWatermark, watermark⟩
    let watermarks := update state.watermarks call.input.entityId (some watermark)
    some { system.leave index call lock (.finished output) with stateFile := some ⟨watermarks⟩ }
  | .failSave, .appended lock _ => some (system.leave index call lock .failed)
  | _, _ => none

def step (system : System) : Action → Option System
  | .runConsolidation input => some { system with calls := system.calls ++ [⟨input, .called⟩] }
  | .call index event =>
    system.calls[index]?.bind fun call => advance system index call event call.phase
  | .restart =>
    some { System.initial with episodes := system.episodes, stateFile := system.stateFile }

/-- The checkpoints of the episodes of an entity, in the order of their appends. -/
def System.checkpoints (system : System) (entityId : EntityId) : List Nat :=
  (system.episodes.filter fun episode => episode.entityId = entityId).map
    ConsolidatedEpisode.checkpointEventCount

def System.watermark (system : System) (entityId : EntityId) : Option Nat :=
  system.loadState.watermarks entityId

/-- No call for the entity is between its append and its save. -/
def System.Settled (system : System) (entityId : EntityId) : Prop :=
  ∀ call ∈ system.calls, call.phase.isAppended = true → call.input.entityId ≠ entityId

/-- Checkpoints of an entity only rise, and its watermark is the last of them. -/
structure CheckpointsHold (system : System) : Prop where
  increasing : ∀ entityId, (system.checkpoints entityId).Pairwise (· < ·)
  watermark : ∀ entityId, system.Settled entityId →
    system.watermark entityId = (system.checkpoints entityId).getLast?

/-- Whatever is appended is saved: an append that fails has written nothing, the save
behind an append succeeds, and the process does not stop between the two. -/
def SavesAppends (system : System) : Action → Prop
  | .call index (.append .writtenFailed _) =>
    ∀ call ∈ system.calls[index]?, ∀ lock state, call.phase ≠ .ready lock state
  | .call index .failSave => ∀ call ∈ system.calls[index]?, call.phase.isAppended = false
  | .restart => ∀ call ∈ system.calls, call.phase.isAppended = false
  | _ => True

end Calls

section Invariant

variable {system next : System}
variable {call : Call} {event : Event} {index : Nat} {phase : Phase}

/-- What every step keeps while the checkpoints hold. -/
structure Sound (system : System) : Prop where
  locked : ∀ index call, system.calls[index]? = some call → call.phase.inState = true →
    system.stateLock = some index
  ready : ∀ call ∈ system.calls, ∀ lock state, call.phase = .ready lock state →
    state = system.loadState ∧
      (system.watermark call.input.entityId).getD 0 < call.input.checkpointEventCount
  appended : ∀ call ∈ system.calls, ∀ lock state, call.phase = .appended lock state →
    state = system.loadState ∧
      (system.watermark call.input.entityId).getD 0 < call.input.checkpointEventCount ∧
      (system.checkpoints call.input.entityId).getLast? = some call.input.checkpointEventCount

theorem initial_sound : Sound System.initial where
  locked _ _ found := by cases found
  ready _ member := by cases member
  appended _ member := by cases member

theorem initial_checkpointsHold : CheckpointsHold System.initial where
  increasing _ := List.Pairwise.nil
  watermark _ _ := rfl

/-- Only one call at a time has the lock of the state file. -/
theorem Sound.only (sound : Sound system) {other : Nat} {otherCall : Call}
    (found : system.calls[index]? = some call) (inside : call.phase.inState = true)
    (otherFound : system.calls[other]? = some otherCall)
    (otherInside : otherCall.phase.inState = true) : index = other := by
  have mine := sound.locked index call found inside
  have theirs := sound.locked other otherCall otherFound otherInside
  exact Option.some.inj (mine.symm.trans theirs)

theorem isAppended_inState (appended : phase.isAppended = true) :
    phase.inState = true := by
  cases phase <;> first | rfl | cases appended

theorem episode_checkpoints (system : System) (input : ConsolidationInput) (occurredAt : String)
    (entityId : EntityId) :
    System.checkpoints { system with
        episodes := system.episodes ++ [buildConsolidationValue input occurredAt] } entityId =
      system.checkpoints entityId ++
        if input.entityId = entityId then [input.checkpointEventCount] else [] := by
  by_cases same : input.entityId = entityId
  · simp [System.checkpoints, buildConsolidationValue, same]
  · simp [System.checkpoints, buildConsolidationValue, same]

/-- A settled watermark bounds all checkpoints of its entity. -/
theorem CheckpointsHold.le_watermark (hold : CheckpointsHold system) {entityId : EntityId}
    (settled : system.Settled entityId) :
    ∀ checkpoint ∈ system.checkpoints entityId,
      checkpoint ≤ (system.watermark entityId).getD 0 := by
  intro checkpoint member
  rw [hold.watermark entityId settled]
  have increasing := hold.increasing entityId
  rcases eq_nil_or_concat' (system.checkpoints entityId) with empty | ⟨before, last, whole⟩
  · rw [empty] at member
    cases member
  · rw [whole] at member increasing ⊢
    rw [getLast?_concat, Option.getD_some]
    rcases mem_append.mp member with earlier | same
    · exact Nat.le_of_lt ((pairwise_append.mp increasing).2.2 checkpoint earlier last mem_cons_self)
    · exact Nat.le_of_eq (mem_singleton.mp same)

/-- A step moves one call, and leaves the stores to the calls that have the lock. -/
theorem sound_move (sound : Sound system) (found : system.calls[index]? = some call)
    (moved : next.calls = system.calls.set index { call with phase })
    (locked : phase.inState = true → next.stateLock = some index)
    (ready : ∀ lock state, phase = .ready lock state → state = next.loadState ∧
        (next.watermark call.input.entityId).getD 0 < call.input.checkpointEventCount)
    (appended : ∀ lock state, phase = .appended lock state → state = next.loadState ∧
        (next.watermark call.input.entityId).getD 0 < call.input.checkpointEventCount ∧
        (next.checkpoints call.input.entityId).getLast? = some call.input.checkpointEventCount)
    (others : ∀ other otherCall, other ≠ index → system.calls[other]? = some otherCall →
      otherCall.phase.inState = true →
        next.stateLock = some other ∧ next.stateFile = system.stateFile ∧
          next.episodes = system.episodes) : Sound next := by
  have cases : ∀ other otherCall, next.calls[other]? = some otherCall →
      other = index ∧ otherCall = { call with phase } ∨
        other ≠ index ∧ system.calls[other]? = some otherCall := by
    intro other otherCall otherFound
    rw [moved] at otherFound
    by_cases same : other = index
    · subst same
      rw [List.getElem?_set_self (List.getElem?_eq_some_iff.mp found).1] at otherFound
      exact Or.inl ⟨rfl, (Option.some.inj otherFound).symm⟩
    · rw [List.getElem?_set_ne (Ne.symm same)] at otherFound
      exact Or.inr ⟨same, otherFound⟩
  refine ⟨?_, ?_, ?_⟩
  · intro other otherCall otherFound inside
    rcases cases other otherCall otherFound with ⟨rfl, rfl⟩ | ⟨differs, old⟩
    · exact locked inside
    · exact (others other otherCall differs old inside).1
  · intro otherCall member lock state isReady
    obtain ⟨other, otherFound⟩ := mem_iff_getElem?.mp member
    rcases cases other otherCall otherFound with ⟨rfl, rfl⟩ | ⟨differs, old⟩
    · exact ready lock state isReady
    · obtain ⟨_, file, _⟩ := others other otherCall differs old (by rw [isReady]; rfl)
      have kept := sound.ready otherCall (mem_of_getElem? old) lock state isReady
      rwa [System.watermark, System.loadState, file]
  · intro otherCall member lock state isAppended
    obtain ⟨other, otherFound⟩ := mem_iff_getElem?.mp member
    rcases cases other otherCall otherFound with ⟨rfl, rfl⟩ | ⟨differs, old⟩
    · exact appended lock state isAppended
    · obtain ⟨_, file, episodes⟩ := others other otherCall differs old (by rw [isAppended]; rfl)
      have kept := sound.appended otherCall (mem_of_getElem? old) lock state isAppended
      rwa [System.watermark, System.loadState, file, System.checkpoints, episodes]

theorem call_step (stepped : step system (.call index event) = some next) :
    ∃ call, system.calls[index]? = some call ∧
      advance system index call event call.phase = some next :=
  Option.bind_eq_some_iff.mp stepped

section

variable (sound : Sound system) (found : system.calls[index]? = some call)
  (inside : call.phase.inState = true)
include sound found inside

/-- A call with the lock is the only one to have it. -/
theorem no_others {property : Nat → Call → Prop} :
    ∀ other otherCall, other ≠ index → system.calls[other]? = some otherCall →
      otherCall.phase.inState = true → property other otherCall :=
  fun _ _ differs otherFound otherInside =>
    absurd (sound.only otherFound otherInside found inside) differs

/-- A call that leaves the lock takes nothing with it. -/
theorem sound_leave (moved : next.calls = system.calls.set index { call with phase })
    (outside : phase.inState = false) : Sound next := by
  refine sound_move sound found moved ?_ ?_ ?_ (no_others sound found inside)
  · intro inState
    exact absurd (outside.symm.trans inState) Bool.false_ne_true
  · rintro lock state rfl
    cases outside
  · rintro lock state rfl
    cases outside

end

/-- What an append writes goes behind the checkpoints of its entity. -/
theorem last_checkpoint (system : System) (input : ConsolidationInput) (occurredAt : String) :
    (System.checkpoints { system with
        episodes := system.episodes ++ [buildConsolidationValue input occurredAt] }
      input.entityId).getLast? = some input.checkpointEventCount := by
  rw [episode_checkpoints, if_pos rfl, getLast?_concat]

theorem advance_sound (sound : Sound system) (found : system.calls[index]? = some call)
    (advanced : advance system index call event call.phase = some next) : Sound next := by
  rcases call with ⟨input, phase⟩
  cases event <;> cases phase <;> first | cases advanced | skip
  case begin.called =>
    rw [advance] at advanced
    have same : next.stateLock = system.stateLock ∧ next.stateFile = system.stateFile ∧
        next.episodes = system.episodes ∧ ∃ phase, phase.inState = false ∧
          next.calls = system.calls.set index ⟨input, phase⟩ := by
      split at advanced
      · cases advanced
        exact ⟨rfl, rfl, rfl, _, rfl, rfl⟩
      · cases advanced
        exact ⟨rfl, rfl, rfl, _, rfl, rfl⟩
    obtain ⟨lock, file, episodes, phase, outside, moved⟩ := same
    refine sound_move sound found moved ?_ ?_ ?_ ?_
    · intro inState
      exact absurd (outside.symm.trans inState) Bool.false_ne_true
    · rintro _ _ rfl
      cases outside
    · rintro _ _ rfl
      cases outside
    · intro other otherCall _ otherFound inside
      exact ⟨lock.trans (sound.locked other otherCall otherFound inside), file, episodes⟩
  case lockEntity.waiting lock =>
    rw [advance] at advanced
    split at advanced
    · cases advanced
    · cases advanced
      refine sound_move sound found rfl nofun nofun nofun ?_
      intro other otherCall _ otherFound inside
      exact ⟨sound.locked other otherCall otherFound inside, rfl, rfl⟩
  case lockState.entityLocked lock =>
    rw [advance] at advanced
    split at advanced
    case isTrue => cases advanced
    case isFalse free =>
      cases advanced
      refine sound_move sound found rfl (fun _ => rfl) nofun nofun ?_
      intro other otherCall _ otherFound inside
      rw [sound.locked other otherCall otherFound inside] at free
      exact absurd rfl free
  case load.stateLocked lock =>
    rw [advance] at advanced
    split at advanced
    case isTrue =>
      cases advanced
      exact sound_leave sound found rfl rfl rfl
    case isFalse fresh =>
      cases advanced
      refine sound_move sound found rfl (fun _ => sound.locked index _ found rfl) ?_ nofun
        (no_others sound found rfl)
      rintro _ _ ⟨⟩
      exact ⟨rfl, Nat.lt_of_not_le fresh⟩
  case failLoad.stateLocked.refl lock =>
    exact sound_leave sound found rfl rfl rfl
  case append.ready outcome occurredAt lock state =>
    obtain ⟨loaded, fresh⟩ := sound.ready _ (mem_of_getElem? found) lock state rfl
    cases outcome with
    | written =>
      cases advanced
      refine sound_move sound found rfl (fun _ => sound.locked index _ found rfl) nofun ?_
        (no_others sound found rfl)
      rintro _ _ ⟨⟩
      exact ⟨loaded, fresh, last_checkpoint system input occurredAt⟩
    | failed =>
      cases advanced
      exact sound_leave sound found rfl rfl rfl
    | writtenFailed =>
      cases advanced
      exact sound_leave sound found rfl rfl rfl
  case save.appended.refl lock state =>
    exact sound_leave sound found rfl rfl rfl
  case failSave.appended.refl lock state =>
    exact sound_leave sound found rfl rfl rfl

theorem step_sound {action : Action} (sound : Sound system)
    (stepped : step system action = some next) : Sound next := by
  cases action with
  | runConsolidation input =>
    cases stepped
    have member : ∀ call ∈ system.calls ++ [⟨input, .called⟩],
        call ∈ system.calls ∨ call.phase = .called := by
      intro call inside
      rcases mem_append.mp inside with old | new
      · exact Or.inl old
      · exact Or.inr (by rw [mem_singleton.mp new])
    refine ⟨?_, ?_, ?_⟩
    · intro index call found inside
      rcases Nat.lt_or_ge index system.calls.length with old | new
      · rw [List.getElem?_append_left old] at found
        exact sound.locked index call found inside
      · rcases member call (mem_of_getElem? found) with inCalls | called
        · rw [List.getElem?_append_right new, List.getElem?_singleton] at found
          split at found
          · cases found
            cases inside
          · cases found
        · rw [called] at inside
          cases inside
    · intro call inside lock state isReady
      rcases member call inside with old | called
      · exact sound.ready call old lock state isReady
      · cases called.symm.trans isReady
    · intro call inside lock state isAppended
      rcases member call inside with old | called
      · exact sound.appended call old lock state isAppended
      · cases called.symm.trans isAppended
  | call index event =>
    obtain ⟨call, found, advanced⟩ := call_step stepped
    exact advance_sound sound found advanced
  | restart =>
    cases stepped
    exact ⟨nofun, nofun, nofun⟩

end Invariant

section Exactness

variable {system next : System}
variable {action : Action} {call : Call} {input : ConsolidationInput} {state : ConsolidationState}
  {entityId : EntityId} {lock : LockId} {index : Nat}

/-- Only the call with the lock can be between its append and its save. -/
theorem settled_of_inState (sound : Sound system)
    (found : system.calls[index]? = some call) (inside : call.phase.inState = true)
    (own : call.phase.isAppended = true → call.input.entityId ≠ entityId) :
    system.Settled entityId := by
  intro other member appended
  obtain ⟨place, otherFound⟩ := mem_iff_getElem?.mp member
  have same := sound.only otherFound (isAppended_inState appended) found inside
  subst same
  cases found.symm.trans otherFound
  exact own appended

/-- A move of a call that has appended nothing does not settle anything. -/
theorem settled_of_move {phase : Phase}
    (found : system.calls[index]? = some call) (before : call.phase.isAppended = false)
    (moved : next.calls = system.calls.set index { call with phase })
    (settled : next.Settled entityId) : system.Settled entityId := by
  intro other member appended
  obtain ⟨place, otherFound⟩ := mem_iff_getElem?.mp member
  refine settled other ?_ appended
  rw [moved]
  apply mem_of_getElem?
  rw [List.getElem?_set_ne, otherFound]
  rintro rfl
  cases found.symm.trans otherFound
  exact Bool.false_ne_true (before.symm.trans appended)

/-- A step that leaves both stores and settles nothing keeps the checkpoints. -/
theorem quiet_step (hold : CheckpointsHold system) (episodes : next.episodes = system.episodes)
    (file : next.stateFile = system.stateFile)
    (settled : ∀ entityId, next.Settled entityId → system.Settled entityId) :
    CheckpointsHold next := by
  have checkpoints : ∀ entityId, next.checkpoints entityId = system.checkpoints entityId := by
    intro entityId
    rw [System.checkpoints, episodes, System.checkpoints]
  have watermark : ∀ entityId, next.watermark entityId = system.watermark entityId := by
    intro entityId
    rw [System.watermark, System.loadState, file, System.watermark, System.loadState]
  refine ⟨?_, ?_⟩
  · intro entityId
    rw [checkpoints]
    exact hold.increasing entityId
  · intro entityId holds
    rw [checkpoints, watermark]
    exact hold.watermark entityId (settled entityId holds)

theorem written_hold (sound : Sound system) (hold : CheckpointsHold system)
    (found : system.calls[index]? = some ⟨input, .ready lock state⟩) (occurredAt : String) :
    CheckpointsHold { system.move index ⟨input, .ready lock state⟩ (.appended lock state) with
      episodes := system.episodes ++ [buildConsolidationValue input occurredAt] } := by
  obtain ⟨_, fresh⟩ := sound.ready _ (mem_of_getElem? found) lock state rfl
  have settled : ∀ entityId, system.Settled entityId := fun _ =>
    settled_of_inState sound found rfl nofun
  refine ⟨?_, ?_⟩
  · intro entityId
    refine (congrArg (List.Pairwise (· < ·))
      (episode_checkpoints system input occurredAt entityId)).mpr ?_
    split
    case isTrue same =>
      subst same
      refine pairwise_append.mpr ⟨hold.increasing _, pairwise_singleton _ _, ?_⟩
      intro earlier member last isLast
      rw [mem_singleton.mp isLast]
      exact Nat.lt_of_le_of_lt (hold.le_watermark (settled _) earlier member) fresh
    case isFalse =>
      rw [append_nil]
      exact hold.increasing entityId
  · intro entityId settledNext
    have differs : input.entityId ≠ entityId := by
      refine settledNext ⟨input, .appended lock state⟩ ?_ rfl
      exact mem_set (List.getElem?_eq_some_iff.mp found).1 _
    refine (hold.watermark entityId (settled entityId)).trans (congrArg getLast? ?_)
    exact (append_nil _).symm.trans
      (((episode_checkpoints system input occurredAt entityId).trans (by rw [if_neg differs])).symm)

/-- A watermark below the last checkpoint breaks the agreement. -/
theorem not_hold_of_last {checkpoint : Nat} (settled : next.Settled entityId)
    (low : (next.watermark entityId).getD 0 < checkpoint)
    (last : (next.checkpoints entityId).getLast? = some checkpoint) : ¬ CheckpointsHold next := by
  intro hold
  rw [hold.watermark entityId settled, last] at low
  exact Nat.lt_irrefl _ low

section

variable (sound : Sound system) (hold : CheckpointsHold system)
include sound hold

theorem saved_hold (found : system.calls[index]? = some ⟨input, .appended lock state⟩)
    (saved : advance system index ⟨input, .appended lock state⟩ .save (.appended lock state) =
      some next) : CheckpointsHold next := by
  obtain ⟨loaded, _, last⟩ := sound.appended _ (mem_of_getElem? found) lock state rfl
  cases saved
  refine ⟨hold.increasing, ?_⟩
  intro entityId _
  by_cases same : entityId = input.entityId
  · subst same
    exact (update_self ..).trans last.symm
  · have settled : system.Settled entityId :=
      settled_of_inState sound found rfl fun _ => Ne.symm same
    subst loaded
    exact (update_of_ne same ..).trans (hold.watermark entityId settled)

/-- The step of a call keeps the checkpoints exactly if it saves what is appended. -/
theorem advance_hold_iff {event : Event} (found : system.calls[index]? = some call)
    (advanced : advance system index call event call.phase = some next) :
    CheckpointsHold next ↔ SavesAppends system (.call index event) := by
  rcases call with ⟨input, phase⟩
  have quiet : phase.isAppended = false → next.episodes = system.episodes →
      next.stateFile = system.stateFile →
      (∃ after, next.calls = system.calls.set index ⟨input, after⟩) → CheckpointsHold next := by
    rintro before episodes file ⟨after, moved⟩
    exact quiet_step hold episodes file fun _ => settled_of_move found before moved
  cases event <;> cases phase <;> first | cases advanced | skip
  case begin.called =>
    rw [advance] at advanced
    refine iff_of_true ?_ trivial
    split at advanced
    · cases advanced
      exact quiet rfl rfl rfl ⟨_, rfl⟩
    · cases advanced
      exact quiet rfl rfl rfl ⟨_, rfl⟩
  case lockEntity.waiting lock =>
    rw [advance] at advanced
    refine iff_of_true ?_ trivial
    split at advanced
    · cases advanced
    · cases advanced
      exact quiet rfl rfl rfl ⟨_, rfl⟩
  case lockState.entityLocked lock =>
    rw [advance] at advanced
    refine iff_of_true ?_ trivial
    split at advanced
    · cases advanced
    · cases advanced
      exact quiet rfl rfl rfl ⟨_, rfl⟩
  case load.stateLocked lock =>
    rw [advance] at advanced
    refine iff_of_true ?_ trivial
    split at advanced
    · cases advanced
      exact quiet rfl rfl rfl ⟨_, rfl⟩
    · cases advanced
      exact quiet rfl rfl rfl ⟨_, rfl⟩
  case failLoad.stateLocked.refl lock =>
    exact iff_of_true (quiet rfl rfl rfl ⟨_, rfl⟩) trivial
  case append.ready outcome occurredAt lock state =>
    obtain ⟨_, fresh⟩ := sound.ready _ (mem_of_getElem? found) lock state rfl
    cases outcome with
    | written =>
      cases advanced
      exact iff_of_true (written_hold sound hold found occurredAt) trivial
    | failed =>
      cases advanced
      exact iff_of_true (quiet rfl rfl rfl ⟨_, rfl⟩) trivial
    | writtenFailed =>
      cases advanced
      refine iff_of_false ?_ fun saves => saves _ found lock state rfl
      refine not_hold_of_last ?_ fresh (last_checkpoint system input occurredAt)
      intro other member
      rcases mem_or_eq_of_mem_set member with old | rfl
      · exact settled_of_inState sound found rfl nofun other old
      · exact nofun
  case save.appended lock state =>
    exact iff_of_true (saved_hold sound hold found rfl) trivial
  case failSave.appended.refl lock state =>
    obtain ⟨_, fresh, last⟩ := sound.appended _ (mem_of_getElem? found) lock state rfl
    refine iff_of_false ?_ fun saves => Bool.false_ne_true (saves _ found).symm
    refine not_hold_of_last ?_ fresh last
    intro other member appended
    obtain ⟨place, otherFound⟩ := mem_iff_getElem?.mp member
    by_cases here : index = place
    · subst here
      have inside := (List.getElem?_eq_some_iff.mp found).1
      cases (List.getElem?_set_self inside).symm.trans otherFound
      cases appended
    · have unmoved := (List.getElem?_set_ne here).symm.trans otherFound
      exact absurd (sound.only found rfl unmoved (isAppended_inState appended)) here

/-- Without a call between its append and its save a restart settles nothing. -/
theorem restart_hold_iff (restarted : step system .restart = some next) :
    CheckpointsHold next ↔ SavesAppends system .restart := by
  cases restarted
  constructor
  · intro holds call member
    cases appended : call.phase.isAppended
    case false => rfl
    case true =>
      obtain ⟨lock, state, phase⟩ : ∃ lock state, call.phase = .appended lock state := by
        generalize call.phase = phase at appended
        cases phase <;> first | exact ⟨_, _, rfl⟩ | cases appended
      obtain ⟨_, fresh, last⟩ := sound.appended call member lock state phase
      exact absurd holds (not_hold_of_last nofun fresh last)
  · intro saves
    refine quiet_step hold rfl rfl ?_
    intro entityId _ call member appended
    exact absurd ((saves call member).symm.trans appended) Bool.false_ne_true

theorem step_hold_iff (stepped : step system action = some next) :
    CheckpointsHold next ↔ SavesAppends system action := by
  cases action with
  | runConsolidation input =>
    cases stepped
    refine iff_of_true (quiet_step hold rfl rfl ?_) trivial
    intro entityId settled call member
    exact settled call (mem_append_left _ member)
  | call index event =>
    obtain ⟨call, found, advanced⟩ := call_step stepped
    exact advance_hold_iff sound hold found advanced
  | restart => exact restart_hold_iff sound hold stepped

end

/-- What cannot be stepped loses nothing. -/
theorem step_disabled (disabled : step system action = none) :
    SavesAppends system action := by
  cases action with
  | runConsolidation input => trivial
  | restart => cases disabled
  | call index event =>
    cases found : system.calls[index]? with
    | none =>
      cases event <;> first | trivial | skip
      case append outcome occurredAt =>
        cases outcome <;> first | trivial | (rw [SavesAppends, found]; nofun)
      case failSave =>
        rw [SavesAppends, found]
        nofun
    | some call =>
      rw [step, found, Option.bind_some] at disabled
      cases event <;> first | trivial | skip
      case append outcome occurredAt =>
        cases outcome <;> first | trivial | skip
        rw [SavesAppends, found]
        rintro _ ⟨⟩ lock state phase
        rw [phase] at disabled
        cases disabled
      case failSave =>
        rw [SavesAppends, found]
        rintro _ ⟨⟩
        generalize call.phase = phase at disabled
        cases phase <;> first | rfl | cases disabled

/-- The checkpoints of every entity rise and its watermark follows, in exactly the runs
that save what they append. -/
theorem checkpoints_hold_iff (actions : List Action) :
    Always step CheckpointsHold System.initial actions ↔
      Guarded step SavesAppends System.initial actions :=
  always_iff_guarded_of_invariant step_disabled (fun sound _ => step_sound sound) step_hold_iff
    initial_sound initial_checkpointsHold actions

end Exactness

section Reruns

def aliceTurn : ConsolidationInput := ⟨"alice", 4, "remember the tea", "noted"⟩

/-- The calls up to the save of the append. -/
def callEvents (index : Nat) (occurredAt : String) : List Action :=
  [.runConsolidation aliceTurn, .call index .begin, .call index .lockEntity,
    .call index .lockState, .call index .load, .call index (.append .written occurredAt)]

/-- The save of the first call fails, and the turn is consolidated again. -/
def failedSaveRun : List Action :=
  callEvents 0 "2026-02-01T08:00:00+00:00" ++ .call 0 .failSave ::
    callEvents 1 "2026-02-01T08:00:05+00:00" ++ [.call 1 .save]

/-- The checkpoint of a failed save is written twice. -/
theorem failed_save_repeats_checkpoint :
    (run step System.initial failedSaveRun).map (System.checkpoints · "alice") = some [4, 4] := by
  decide +kernel

theorem rerun_not_increasing :
    ¬ ∀ actions, Always step CheckpointsHold System.initial actions := by
  intro always
  cases ran : run step System.initial failedSaveRun with
  | none =>
    have repeated := failed_save_repeats_checkpoint
    rw [ran] at repeated
    cases repeated
  | some final =>
    have repeated := failed_save_repeats_checkpoint
    rw [ran, Option.map_some, Option.some.injEq] at repeated
    have increasing := (always_final (always failedSaveRun) ran).increasing "alice"
    rw [repeated] at increasing
    exact absurd increasing (by decide)

end Reruns

end Asterel.Consolidation
