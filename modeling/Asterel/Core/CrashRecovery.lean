import Asterel.Library.Transitions
import Mathlib.Data.List.Infix

/-!
# Recovery of the tool loop after a crash

The loop writes a checkpoint before and after each tool call and removes the file when
the turn completes. A run that starts with a checkpoint in the file tells the model
what it says. Writing truncates the file first, so a process that dies in between
leaves a file that cannot be read.

A run starts with an empty checkpoint of its own. The file therefore describes exactly
the calls that crashed runs have lost as long as every run but a completing one leaves
it alone, or starts with nothing to recover, crashes, and does so outside of a write.

A call counts as dispatched, and later as finished, once the checkpoint is written that
says so. Until its result is on record a crash interrupts it.
-/

namespace Asterel.CrashRecovery

open Library.Transitions List

section Checkpoints

/-- A tool result that was completed before the crash. -/
structure CompletedToolResult where
  toolCallId : String
  toolName : String
  output : String
  success : Bool
deriving DecidableEq

/-- Snapshot of an in-flight turn that can be restored after a crash. -/
structure TurnCheckpoint where
  sessionId : String
  assistantMessage : String
  completedToolResults : List CompletedToolResult
  pendingToolCallIds : List String
  sequence : Nat
deriving DecidableEq

def TurnCheckpoint.new (sessionId : String) : TurnCheckpoint := ⟨sessionId, "", [], [], 0⟩

def TurnCheckpoint.markDispatched (checkpoint : TurnCheckpoint) (toolCallId : String) :
    TurnCheckpoint :=
  { checkpoint with
    pendingToolCallIds := checkpoint.pendingToolCallIds ++ [toolCallId]
    sequence := checkpoint.sequence + 1 }

def TurnCheckpoint.markCompleted (checkpoint : TurnCheckpoint) (result : CompletedToolResult) :
    TurnCheckpoint :=
  { checkpoint with
    pendingToolCallIds := checkpoint.pendingToolCallIds.filter (· ≠ result.toolCallId)
    completedToolResults := checkpoint.completedToolResults ++ [result]
    sequence := checkpoint.sequence + 1 }

def TurnCheckpoint.interruptedTools (checkpoint : TurnCheckpoint) : List String :=
  checkpoint.pendingToolCallIds

/-- The checkpoint file of a session. -/
inductive CheckpointFile where
  | absent
  | malformed
  | stored (checkpoint : TurnCheckpoint)

/-- A checkpoint of another session is ignored; a malformed file is an error. -/
def CheckpointFile.loadPrior (file : CheckpointFile) (sessionId : String) :
    Except Unit (Option TurnCheckpoint) :=
  match file with
  | .absent => .ok none
  | .malformed => .error ()
  | .stored prior => .ok (if prior.sessionId ≠ sessionId then none else some prior)

/-- What a run does to the file: it truncates the file, has written a checkpoint to it,
or removes it. -/
inductive Write where
  | truncate
  | written (checkpoint : TurnCheckpoint)
  | clear

def CheckpointFile.apply (_ : CheckpointFile) : Write → CheckpointFile
  | .truncate => .malformed
  | .written checkpoint => .stored checkpoint
  | .clear => .absent

def TurnCheckpoint.save (checkpoint : TurnCheckpoint) : List Write :=
  [.truncate, .written checkpoint]

end Checkpoints

section Replay

inductive MessageRole where
  | user
  | assistant
deriving DecidableEq

/-- The parts of a replayed message. The input of a tool use is null. -/
inductive ContentBlock where
  | text (text : String)
  | toolUse (id name : String)
  | toolResult (toolUseId content : String) (isError : Bool)
deriving DecidableEq

structure ProviderMessage where
  role : MessageRole
  content : List ContentBlock
deriving DecidableEq

def ProviderMessage.toolResult (toolUseId content : String) (isError : Bool) : ProviderMessage :=
  ⟨.user, [.toolResult toolUseId content isError]⟩

/-- Completed results are replayed verbatim, interrupted calls get an error marker. -/
def replayCheckpointMessages (prior : TurnCheckpoint) : List ProviderMessage :=
  if prior.completedToolResults = [] ∧ prior.pendingToolCallIds = [] then []
  else
    ⟨.assistant, (if prior.assistantMessage = "" then [] else [.text prior.assistantMessage]) ++
        prior.completedToolResults.map (fun completed =>
          .toolUse completed.toolCallId completed.toolName) ++
        prior.interruptedTools.map fun pendingId => .toolUse pendingId "interrupted_tool"⟩ ::
      (prior.completedToolResults.map fun completed =>
          .toolResult completed.toolCallId completed.output !completed.success) ++
        prior.interruptedTools.map fun pendingId =>
          .toolResult pendingId
            "tool execution was interrupted by a process crash; result is unknown" true

/-- What a run tells the model at its start. -/
def recoveryMessages (sessionId : String) (file : CheckpointFile) : List ProviderMessage :=
  match file.loadPrior sessionId with
  | .ok (some prior) => replayCheckpointMessages prior
  | .ok none => []
  | .error _ => []

end Replay

section Loop

inductive LoopStopReason where
  | completed
  | maxIterations
  | error (message : String)
  | approvalDenied
  | rateLimited
deriving DecidableEq

def containsAsciiIgnoreCase (haystack needle : String) : Bool :=
  decide (needle.toList.map Char.toLower <:+: haystack.toList.map Char.toLower)

def isActionLimitMessage (message : String) : Bool :=
  containsAsciiIgnoreCase message "action limit"

def classifyExecuteError (message : String) : Option LoopStopReason :=
  if containsAsciiIgnoreCase message "action limit" then some .rateLimited
  else if containsAsciiIgnoreCase message "requires approval" then some .approvalDenied
  else none

structure ToolResult where
  success : Bool
  output : String
  error : Option String

/-- A tool call of a response and what its execution will return. -/
structure ToolUse where
  id : String
  name : String
  outcome : Except String ToolResult

/-- The result of an execution, or the reason to stop. -/
def ToolUse.result (use : ToolUse) : Except LoopStopReason ToolResult :=
  match use.outcome with
  | .ok result => .ok result
  | .error message =>
    match classifyExecuteError message with
    | some reason => .error reason
    | none => .ok ⟨false, "", some message⟩

/-- What the provider does in an iteration. A response may be one that loop detection
halts at. -/
inductive ProviderTurn where
  | failed (message : String)
  | response (halted : Option String) (toolUses : List ToolUse)

structure ToolUseExecutionOutcome where
  writes : List Write
  checkpoint : TurnCheckpoint
  stopReason : Option LoopStopReason

/-- Execute the calls of a response in order, up to one that stops the loop. -/
def executeToolUses (checkpoint : TurnCheckpoint) : List ToolUse → ToolUseExecutionOutcome
  | [] => ⟨[], checkpoint, none⟩
  | use :: rest =>
    let dispatched := checkpoint.markDispatched use.id
    match use.result with
    -- The call stays pending in the checkpoint.
    | .error reason => ⟨dispatched.save, dispatched, some reason⟩
    | .ok result =>
      let completed := dispatched.markCompleted ⟨use.id, use.name, result.output, result.success⟩
      if result.error.any isActionLimitMessage then
        ⟨dispatched.save ++ completed.save, completed, some .rateLimited⟩
      else
        let later := executeToolUses completed rest
        { later with writes := dispatched.save ++ completed.save ++ later.writes }

/-- The writes and the exit of the loop with the given number of iterations left. Only a
completed turn clears the file. -/
def runLoop (turns : Nat → ProviderTurn) (checkpoint : TurnCheckpoint) (iteration : Nat) :
    Nat → List Write × LoopStopReason
  | 0 => ([], .maxIterations)
  | left + 1 =>
    match turns iteration with
    | .failed message => ([], .error message)
    | .response (some halt) _ => ([], .error halt)
    | .response none [] => ([.clear], .completed)
    | .response none (use :: rest) =>
      let outcome := executeToolUses checkpoint (use :: rest)
      match outcome.stopReason with
      | some reason => (outcome.writes, reason)
      | none =>
        let later := runLoop turns outcome.checkpoint (iteration + 1) left
        (outcome.writes ++ later.1, later.2)

end Loop

section Writes

variable {sessionId : String}
variable {first second : List Write} (checkpoint : TurnCheckpoint)

/-- A checkpoint that the loop of a session makes. -/
structure Owned (sessionId : String) (checkpoint : TurnCheckpoint) : Prop where
  session : checkpoint.sessionId = sessionId
  message : checkpoint.assistantMessage = ""

/-- The checkpoint mentions no call. -/
def TurnCheckpoint.Empty (checkpoint : TurnCheckpoint) : Prop :=
  checkpoint.completedToolResults = [] ∧ checkpoint.pendingToolCallIds = []

/-- Everything written belongs to the session and mentions a call. -/
def Sound (sessionId : String) (writes : List Write) : Prop :=
  ∀ checkpoint, .written checkpoint ∈ writes → Owned sessionId checkpoint ∧ ¬ checkpoint.Empty

/-- Nothing is written, or the last write is a checkpoint. -/
def Settled (writes : List Write) : Prop :=
  writes = [] ∨ ∃ before checkpoint, writes = before ++ [.written checkpoint]

theorem owned_new (sessionId : String) : Owned sessionId (.new sessionId) := ⟨rfl, rfl⟩

theorem Sound.append (early : Sound sessionId first)
    (late : Sound sessionId second) : Sound sessionId (first ++ second) := by
  intro checkpoint member
  rcases mem_append.mp member with inFirst | inSecond
  · exact early checkpoint inFirst
  · exact late checkpoint inSecond

theorem Settled.append (early : Settled first)
    (late : Settled second) : Settled (first ++ second) := by
  rcases late with rfl | ⟨before, checkpoint, rfl⟩
  · rwa [append_nil]
  · exact .inr ⟨first ++ before, checkpoint, (append_assoc _ _ _).symm⟩

theorem sound_save {checkpoint : TurnCheckpoint} (owned : Owned sessionId checkpoint)
    (mentions : ¬ checkpoint.Empty) : Sound sessionId checkpoint.save := by
  intro other member
  simp only [TurnCheckpoint.save, mem_cons, reduceCtorEq, Write.written.injEq,
    not_mem_nil, or_false, false_or] at member
  subst member
  exact ⟨owned, mentions⟩

theorem settled_save : Settled checkpoint.save :=
  .inr ⟨[.truncate], checkpoint, rfl⟩

theorem markDispatched_mentions (id : String) :
    ¬ (checkpoint.markDispatched id).Empty := by
  simp [TurnCheckpoint.markDispatched, TurnCheckpoint.Empty]

theorem markCompleted_mentions (result : CompletedToolResult) :
    ¬ (checkpoint.markCompleted result).Empty := by
  simp [TurnCheckpoint.markCompleted, TurnCheckpoint.Empty]

theorem result_not_completed (use : ToolUse) : use.result ≠ .error .completed := by
  rw [ToolUse.result]
  cases use.outcome with
  | ok result => exact nofun
  | error message =>
    dsimp only
    rw [classifyExecuteError]
    split_ifs <;> exact nofun

/-- A stopped response does not complete the turn. -/
theorem executeToolUses_stop (uses : List ToolUse) :
    (executeToolUses checkpoint uses).stopReason ≠ some .completed := by
  induction uses generalizing checkpoint with
  | nil => exact nofun
  | cons use rest ih =>
    rw [executeToolUses]
    cases outcome : use.result with
    | error reason =>
      rintro ⟨⟩
      exact result_not_completed use outcome
    | ok result =>
      dsimp only
      split_ifs
      · exact nofun
      · exact ih _

/-- The writes of the calls of a response, and the checkpoint after them. -/
theorem executeToolUses_sound {checkpoint : TurnCheckpoint} (owned : Owned sessionId checkpoint)
    (uses : List ToolUse) :
    Sound sessionId (executeToolUses checkpoint uses).writes ∧
      Settled (executeToolUses checkpoint uses).writes ∧
      Owned sessionId (executeToolUses checkpoint uses).checkpoint := by
  induction uses generalizing checkpoint with
  | nil => exact ⟨by simp [executeToolUses, Sound], .inl rfl, owned⟩
  | cons use rest ih =>
    have dispatched : Owned sessionId (checkpoint.markDispatched use.id) :=
      ⟨owned.session, owned.message⟩
    have first := sound_save dispatched (markDispatched_mentions _ _)
    rw [executeToolUses]
    cases use.result with
    | error reason => exact ⟨first, settled_save _, dispatched⟩
    | ok result =>
      dsimp only
      set completed := (checkpoint.markDispatched use.id).markCompleted
        ⟨use.id, use.name, result.output, result.success⟩ with made
      have later : Owned sessionId completed := ⟨owned.session, owned.message⟩
      have both := first.append (sound_save later (markCompleted_mentions _ _))
      have ended : Settled ((checkpoint.markDispatched use.id).save ++ completed.save) :=
        (settled_save _).append (settled_save _)
      split_ifs
      · exact ⟨both, ended, later⟩
      · obtain ⟨sound, settled, final⟩ := ih later
        exact ⟨both.append sound, ended.append settled, final⟩

/-- What a whole run writes: a completed one removes the file at the end, any other
leaves a checkpoint if it writes at all. -/
structure WellEnded (sessionId : String) (ended : List Write × LoopStopReason) : Prop where
  sound : Sound sessionId ended.1
  cleared : ended.2 = .completed → ∃ before, ended.1 = before ++ [.clear]
  settled : ended.2 ≠ .completed → Settled ended.1

theorem runLoop_wellEnded (turns : Nat → ProviderTurn) {checkpoint : TurnCheckpoint}
    (owned : Owned sessionId checkpoint) (iteration left : Nat) :
    WellEnded sessionId (runLoop turns checkpoint iteration left) := by
  have stopped (reason : LoopStopReason) (other : reason ≠ .completed) :
      WellEnded sessionId ([], reason) :=
    ⟨by simp [Sound], fun completed => absurd completed other, fun _ => .inl rfl⟩
  induction left generalizing checkpoint iteration with
  | zero => exact stopped .maxIterations nofun
  | succ left ih =>
    rw [runLoop]
    cases turns iteration with
    | failed message => exact stopped (.error message) nofun
    | response halted uses =>
      cases halted with
      | some halt => exact stopped (.error halt) nofun
      | none =>
        cases uses with
        | nil => exact ⟨by simp [Sound], fun _ => ⟨[], rfl⟩, fun other => absurd rfl other⟩
        | cons use rest =>
          obtain ⟨sound, settled, next⟩ := executeToolUses_sound owned (use :: rest)
          have stop := executeToolUses_stop checkpoint (use :: rest)
          dsimp only
          cases reached : (executeToolUses checkpoint (use :: rest)).stopReason with
          | some reason =>
            rw [reached, Ne, Option.some.injEq] at stop
            exact ⟨sound, fun completed => absurd completed stop, fun _ => settled⟩
          | none =>
            have later := ih next (iteration + 1)
            refine ⟨sound.append later.sound, ?_, fun other => settled.append (later.settled other)⟩
            intro completed
            obtain ⟨before, same⟩ := later.cleared completed
            exact ⟨_ ++ before, by rw [same, append_assoc]⟩

end Writes

section Sessions

/-- The calls that crashed runs have lost since a run last returned. -/
structure Lost where
  finished : List CompletedToolResult
  interrupted : List String

def Lost.nothing : Lost := ⟨[], []⟩

def Lost.add (lost : Lost) (checkpoint : TurnCheckpoint) : Lost :=
  ⟨lost.finished ++ checkpoint.completedToolResults, lost.interrupted ++ checkpoint.pendingToolCallIds⟩

/-- What a run should tell the model about them. -/
def Lost.messages (lost : Lost) (sessionId : String) : List ProviderMessage :=
  replayCheckpointMessages
    { TurnCheckpoint.new sessionId with
      completedToolResults := lost.finished
      pendingToolCallIds := lost.interrupted }

/-- A run of the loop. It may crash after a number of its writes. -/
structure LoopRun where
  turns : Nat → ProviderTurn
  maxIterations : Nat
  crash : Option Nat

/-- A session between two runs. -/
structure Session where
  file : CheckpointFile
  lost : Lost

def Session.new : Session := ⟨.absent, .nothing⟩

variable (sessionId : String)

/-- All that the run would write, and its exit. -/
def LoopRun.outcome (loop : LoopRun) : List Write × LoopStopReason :=
  runLoop loop.turns (.new sessionId) 0 loop.maxIterations

/-- What it writes. -/
def LoopRun.writes (loop : LoopRun) : List Write :=
  match loop.crash with
  | none => (loop.outcome sessionId).1
  | some count => (loop.outcome sessionId).1.take count

/-- The last checkpoint that is on record. -/
def recorded (writes : List Write) : TurnCheckpoint :=
  writes.foldl (fun latest write =>
    match write with
    | .written checkpoint => checkpoint
    | .truncate => latest
    | .clear => latest) (.new sessionId)

/-- A run that returns has told the caller all it did, so nothing is lost any more. -/
def step (session : Session) (loop : LoopRun) : Option Session :=
  some
    { file := (loop.writes sessionId).foldl CheckpointFile.apply session.file
      lost :=
        match loop.crash with
        | none => .nothing
        | some _ => session.lost.add (recorded sessionId (loop.writes sessionId)) }

/-- The next run tells the model exactly what the crashed ones have lost. -/
def Replays (session : Session) : Prop :=
  recoveryMessages sessionId session.file = session.lost.messages sessionId

/-- The calls of the run are not yet on record. -/
def Unrecorded (loop : LoopRun) : Prop := (recorded sessionId (loop.writes sessionId)).Empty

/-- The run leaves the file as it finds it, or it completes, or it starts with nothing to
recover and crashes when its last checkpoint is completely written or the first one is
not. -/
def LeavesRecord (session : Session) (loop : LoopRun) : Prop :=
  match loop.crash with
  | none => (loop.outcome sessionId).2 = .completed ∨
      loop.writes sessionId = [] ∧ session.lost = .nothing
  | some _ => loop.writes sessionId = [] ∨
      session.lost = .nothing ∧ (Settled (loop.writes sessionId) ∨ Unrecorded sessionId loop)

section Messages

variable {sessionId} {checkpoint : TurnCheckpoint} {lost : Lost}

/-- One message for the calls and one for each of them. -/
theorem length_replay (mentions : ¬ checkpoint.Empty) :
    (replayCheckpointMessages checkpoint).length =
      checkpoint.completedToolResults.length + checkpoint.pendingToolCallIds.length + 1 := by
  have calls : ¬ (checkpoint.completedToolResults = [] ∧ checkpoint.pendingToolCallIds = []) :=
    mentions
  rw [replayCheckpointMessages, if_neg calls, length_append, length_cons,
    length_map, length_map, TurnCheckpoint.interruptedTools]
  omega

theorem replay_eq_nil : replayCheckpointMessages checkpoint = [] ↔ checkpoint.Empty := by
  constructor
  · intro none
    by_contra mentions
    have length := length_replay mentions
    rw [none] at length
    cases length
  · intro empty
    exact if_pos empty

theorem messages_eq_nil : lost.messages sessionId = [] ↔ lost = .nothing := by
  rw [Lost.messages, replay_eq_nil, TurnCheckpoint.Empty, Lost.nothing, Lost.mk.injEq]

/-- A checkpoint tells all that is lost exactly if nothing was lost before. -/
theorem replay_eq_add_iff (owned : Owned sessionId checkpoint) (mentions : ¬ checkpoint.Empty) :
    replayCheckpointMessages checkpoint = (lost.add checkpoint).messages sessionId ↔
      lost = .nothing := by
  constructor
  · intro same
    have length := congrArg List.length same
    have both : ¬ (TurnCheckpoint.Empty
        { TurnCheckpoint.new sessionId with
          completedToolResults := (lost.add checkpoint).finished
          pendingToolCallIds := (lost.add checkpoint).interrupted }) := by
      intro empty
      exact mentions ⟨(append_eq_nil_iff.mp empty.1).2, (append_eq_nil_iff.mp empty.2).2⟩
    rw [length_replay mentions, Lost.messages, length_replay both] at length
    simp only [Lost.add, length_append] at length
    rw [Lost.nothing, Lost.mk.injEq, ← length_eq_zero_iff, ← length_eq_zero_iff]
    omega
  · rintro rfl
    simp [Lost.messages, Lost.add, Lost.nothing, replayCheckpointMessages,
      TurnCheckpoint.interruptedTools, owned.message, TurnCheckpoint.new]

theorem add_eq_nothing_iff : lost.add checkpoint = .nothing ↔ lost = .nothing ∧ checkpoint.Empty := by
  obtain ⟨finished, interrupted⟩ := lost
  simp only [Lost.add, Lost.nothing, Lost.mk.injEq, append_eq_nil_iff, TurnCheckpoint.Empty]
  tauto

end Messages

section Steps

variable {sessionId} {session next : Session} {loop : LoopRun}

theorem outcome_wellEnded : WellEnded sessionId (loop.outcome sessionId) :=
  runLoop_wellEnded loop.turns (owned_new sessionId) 0 loop.maxIterations

theorem writes_sound : Sound sessionId (loop.writes sessionId) := by
  have sound := (@outcome_wellEnded sessionId loop).sound
  rw [LoopRun.writes]
  split
  · exact sound
  · intro checkpoint member
    exact sound checkpoint (mem_of_mem_take member)

theorem foldl_apply_concat (file : CheckpointFile) (before : List Write) (last : Write) :
    (before ++ [last]).foldl CheckpointFile.apply file = file.apply last := by
  rw [foldl_append]
  cases last <;> rfl

theorem recorded_concat (before : List Write) (last : Write) :
    recorded sessionId (before ++ [last]) = match last with
      | .written checkpoint => checkpoint
      | .truncate => recorded sessionId before
      | .clear => recorded sessionId before := by
  rw [recorded, foldl_append]
  cases last <;> rfl

/-- A stored checkpoint of the session is replayed. -/
theorem recovery_stored {checkpoint : TurnCheckpoint} (owned : Owned sessionId checkpoint) :
    recoveryMessages sessionId (.stored checkpoint) = replayCheckpointMessages checkpoint := by
  rw [recoveryMessages, CheckpointFile.loadPrior, if_neg (not_not.mpr owned.session)]

/-- A run that returns leaves nothing to recover exactly if it completes, or writes
nothing and finds nothing. -/
theorem returned_iff (replays : Replays sessionId session) (returned : loop.crash = none) :
    recoveryMessages sessionId ((loop.writes sessionId).foldl CheckpointFile.apply session.file) =
        [] ↔
      (loop.outcome sessionId).2 = .completed ∨
        loop.writes sessionId = [] ∧ session.lost = .nothing := by
  have ended := @outcome_wellEnded sessionId loop
  have all : (loop.outcome sessionId).1 = loop.writes sessionId := by
    rw [LoopRun.writes, returned]
  by_cases completed : (loop.outcome sessionId).2 = .completed
  · obtain ⟨before, same⟩ := ended.cleared completed
    rw [← all, same, foldl_apply_concat]
    exact iff_of_true rfl (.inl completed)
  · have settled := ended.settled completed
    rw [all] at settled
    rcases settled with same | ⟨before, checkpoint, same⟩
    · rw [same, foldl_nil, replays, messages_eq_nil]
      simp [completed]
    · have ⟨owned, mentions⟩ := (@writes_sound sessionId loop) checkpoint
        (by simp [same])
      rw [same, foldl_apply_concat, CheckpointFile.apply, recovery_stored owned, replay_eq_nil]
      simp [completed, mentions]

/-- A crash loses nothing for the next run exactly if it wrote nothing, or if there was
nothing to lose and the file now says what the run did. -/
theorem crashed_iff (replays : Replays sessionId session) :
    recoveryMessages sessionId ((loop.writes sessionId).foldl CheckpointFile.apply session.file) =
        (session.lost.add (recorded sessionId (loop.writes sessionId))).messages sessionId ↔
      loop.writes sessionId = [] ∨
        session.lost = .nothing ∧ (Settled (loop.writes sessionId) ∨ Unrecorded sessionId loop) := by
  have sound := @writes_sound sessionId loop
  rw [Unrecorded]
  generalize loop.writes sessionId = writes at sound ⊢
  rcases eq_nil_or_concat writes with rfl | ⟨before, last, rfl⟩
  · refine iff_of_true ?_ (.inl rfl)
    rw [foldl_nil, replays]
    simp [recorded, Lost.add, TurnCheckpoint.new]
  · rw [concat_eq_append] at sound ⊢
    have some : before ++ [last] ≠ [] := by simp
    rw [foldl_apply_concat, recorded_concat]
    cases last with
    | written checkpoint =>
      obtain ⟨owned, mentions⟩ := sound checkpoint (by simp)
      have settled : Settled (before ++ [.written checkpoint]) := .inr ⟨before, checkpoint, rfl⟩
      rw [CheckpointFile.apply, recovery_stored owned, replay_eq_add_iff owned mentions]
      simp [settled]
    | truncate =>
      have unsettled : ¬ Settled (before ++ [.truncate]) := by simp [Settled]
      have nothing : recoveryMessages sessionId (session.file.apply .truncate) = [] := rfl
      rw [nothing, eq_comm, messages_eq_nil, add_eq_nothing_iff]
      simp [unsettled]
    | clear =>
      have unsettled : ¬ Settled (before ++ [.clear]) := by simp [Settled]
      have nothing : recoveryMessages sessionId (session.file.apply .clear) = [] := rfl
      rw [nothing, eq_comm, messages_eq_nil, add_eq_nothing_iff]
      simp [unsettled]

theorem step_replays_iff (replays : Replays sessionId session)
    (stepped : step sessionId session loop = some next) :
    Replays sessionId next ↔ LeavesRecord sessionId session loop := by
  cases stepped
  rw [Replays, LeavesRecord]
  cases crash : loop.crash with
  | none =>
    have nothing : Lost.nothing.messages sessionId = [] := messages_eq_nil.mpr rfl
    simp only [nothing]
    exact returned_iff replays crash
  | some count => exact crashed_iff replays

/-- Every run of a session is told exactly what crashed runs have lost since one last
returned, exactly if every run leaves the record as it should be. -/
theorem recovery_exact_iff (sessionId : String) (loops : List LoopRun) :
    Always (step sessionId) (Replays sessionId) Session.new loops ↔
      Guarded (step sessionId) (LeavesRecord sessionId) Session.new loops := by
  apply always_iff_guarded
  · intro session loop
    exact ⟨_, rfl⟩
  · exact step_replays_iff
  · rfl

/-- A turn with one tool call that has no iteration left to complete. -/
def exhaustedTurn : LoopRun where
  turns _ := .response none [⟨"call-1", "shell", .ok ⟨true, "ok", none⟩⟩]
  maxIterations := 1
  crash := none

/-- The next run is told about a crash that never happened. -/
theorem returned_turn_replayed :
    ¬ ∀ (sessionId : String) (loops : List LoopRun),
      Always (step sessionId) (Replays sessionId) Session.new loops := by
  intro always
  have guarded := (recovery_exact_iff "s" [exhaustedTurn]).mp (always "s" [exhaustedTurn])
  rcases guarded.1 with completed | ⟨unwritten, _⟩
  · cases completed
  · cases unwritten

end Steps

end Sessions

end Asterel.CrashRecovery
