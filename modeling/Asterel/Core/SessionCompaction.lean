import Asterel.Library.OrderedTable
import Asterel.Library.Text
import Mathlib.Data.String.Basic

/-!
# Compaction of a session

A long session is cut in two. The older messages are summarised; the store
deletes what was created before the last of them and inserts the summary and the
rehydration blocks, all in one transaction. The comparison is strict, so the last
summarised message survives, and the inserted messages carry the instants of
their insertion, so a later read finds them behind all kept messages.

Instants are RFC 3339 texts, ordered as the column orders them. The rendering of
the companion state is a parameter: a text for every generation number, empty
when there is nothing to restore.
-/

namespace Asterel.Sessions

open Library OrderedTable List Text

inductive MessageRole
  | user
  | assistant
  | system
  deriving DecidableEq

structure ChatMessage where
  id : String
  sessionId : String
  role : MessageRole
  content : String
  inputTokens : Option Nat
  outputTokens : Option Nat
  createdAt : String
  deriving DecidableEq

/-- Limits and switches of a compaction. -/
structure CompactionConfig where
  tokenThreshold : Nat
  keepFraction : Float
  summaryMaxChars : Nat
  enableMicrocompaction : Bool
  toolOutputPruneThreshold : Nat
  hotTailChars : Nat
  enableRehydration : Bool

structure CompactionResult where
  compacted : Bool
  messagesRemoved : Nat
  tokensBefore : Nat
  tokensAfter : Nat
  toolOutputsPruned : Nat
  deriving DecidableEq

def CompactionResult.skipped : CompactionResult := ⟨false, 0, 0, 0, 0⟩

section Tokens

/-- About four ASCII characters, or two others, make a token. -/
def estimateTokens (content : String) : Nat :=
  let asciiChars := content.toList.countP fun char => char.toNat < 128
  let nonAsciiChars := content.toList.countP fun char => ¬ char.toNat < 128
  (asciiChars + 3) / 4 + (nonAsciiChars + 1) / 2

def ChatMessage.estimatedTokens (message : ChatMessage) : Nat :=
  match message.inputTokens, message.outputTokens with
  | some input, _ => input
  | none, some output => output
  | none, none => estimateTokens message.content

def sessionTokenTotal (messages : List ChatMessage) : Nat :=
  messages.foldl (fun total message => total + message.estimatedTokens) 0

def shouldCompact (messages : List ChatMessage) (config : CompactionConfig) : Bool :=
  if messages.isEmpty then
    false
  else
    let hasTrackedTokenData :=
      messages.any fun message => message.inputTokens.isSome || message.outputTokens.isSome
    if config.tokenThreshold = 0 then false
    else if !hasTrackedTokenData then false
    else config.tokenThreshold < sessionTokenTotal messages

end Tokens

section Microcompaction

def microcompactHeadChars : Nat := 200

/-- `str::lines`: a line ends in a line feed, with or without a carriage return
before it, or at the end of a text that does not end in a line feed. -/
def lines (text : List Char) : List (List Char) :=
  let pieces := text.splitOn '\n'
  let ended := pieces.dropLast.map fun line =>
    if line.getLast? = some '\r' then line.dropLast else line
  match pieces.getLast? with
  | some (char :: rest) => ended ++ [char :: rest]
  | _ => ended

/-- The last characters of a text. -/
def tailChars (value : List Char) (count : Nat) : List Char := value.drop (value.length - count)

def containsToolOutputPattern (content : String) : Bool :=
  (lines content.toList).any fun line =>
    "Tool result:".toList.isPrefixOf (trimStart line)

def pruneToolOutput (content : String) (hotTailChars : Nat) : String :=
  if content.utf8ByteSize ≤ microcompactHeadChars + hotTailChars then
    content
  else
    let totalChars := content.toList.length
    let headLen := min totalChars microcompactHeadChars
    let tailLen := min totalChars hotTailChars
    let retained := headLen + tailLen
    if totalChars ≤ retained then
      content
    else
      String.ofList (content.toList.take headLen) ++ "[... " ++
        toString (totalChars - retained) ++ " chars pruned ...]" ++
        String.ofList (tailChars content.toList tailLen)

def microcompactMessage (config : CompactionConfig) (message : ChatMessage) : ChatMessage :=
  if message.role ≠ .assistant then
    message
  else if message.content.utf8ByteSize ≤ config.toolOutputPruneThreshold then
    message
  else
    let contentLen := message.content.toList.length
    let looksLikeToolOutput := containsToolOutputPattern message.content ||
      decide (config.toolOutputPruneThreshold < contentLen)
    if !looksLikeToolOutput || contentLen ≤ config.toolOutputPruneThreshold then
      message
    else
      { message with content := pruneToolOutput message.content config.hotTailChars }

def microcompactMessages (messages : List ChatMessage) (config : CompactionConfig) :
    List ChatMessage :=
  if config.enableMicrocompaction then messages.map (microcompactMessage config) else messages

end Microcompaction

section Summary

def keyExchangeItemChars : Nat := 300

def toolActivityLimit : Nat := 5

def keyExchangeLimit : Nat := 5

def truncateEllipsis (text : String) (maxChars : Nat) : String :=
  if maxChars < text.toList.length then
    String.ofList (trimEnd (text.toList.take maxChars)) ++ "..."
  else
    text

def decisionMarkers : List String :=
  ["進めて", "お願いします", "でいい", "いいよ", "go ahead", "sounds good", "approved", "approve"]

def activeContextLine (messages : List ChatMessage) : String :=
  match messages.reverse.find? (·.role = .user) with
  | none => "No active user goal captured."
  | some message => truncateEllipsis message.content keyExchangeItemChars

/-- Each assistant message answers the last user message not yet answered. -/
def collectExchangePairs (pendingUser : Option String) :
    List ChatMessage → List (String × String)
  | [] => []
  | message :: rest =>
    let item := truncateEllipsis message.content keyExchangeItemChars
    match message.role, pendingUser with
    | .user, _ => collectExchangePairs (some item) rest
    | .assistant, some userContent => (userContent, item) :: collectExchangePairs none rest
    | .assistant, none => collectExchangePairs none rest
    | .system, pending => collectExchangePairs pending rest

/-- The newest items, in their order. -/
def newest {α : Type} (limit : Nat) (items : List α) : List α := items.drop (items.length - limit)

def keyExchanges (messages : List ChatMessage) : String :=
  let pairs := newest keyExchangeLimit (collectExchangePairs none messages)
  "## Key exchanges\n" ++ if pairs.isEmpty then
      "- No user/assistant exchange pairs available.\n\n"
    else
      String.join (pairs.mapIdx fun index pair =>
        "- Pair " ++ toString (index + 1) ++ "\n  user: " ++ pair.1 ++ "\n  assistant: " ++
          pair.2 ++ "\n") ++ "\n"

def collectToolMentions (messages : List ChatMessage) : List String :=
  let contents := (messages.filter (·.role = .assistant)).map fun message =>
    trim message.content.toList
  let mentions := contents.filter fun content =>
    occurs "tool".toList (toLowercase content) || occurs "Tool result:".toList content
  mentions.map fun content => truncateEllipsis (String.ofList content) keyExchangeItemChars

def toolActivity (messages : List ChatMessage) : String :=
  let mentions := newest toolActivityLimit (collectToolMentions messages)
  "## Tool activity\n" ++ if mentions.isEmpty then
      "- No notable tool output activity captured.\n\n"
    else
      String.join (mentions.map fun mention => "- " ++ mention ++ "\n") ++ "\n"

def collectDecisions (messages : List ChatMessage) : List String :=
  let decided := messages.filter fun message =>
    message.role = .user && decisionMarkers.any fun marker =>
      occurs marker.toList (toLowercase message.content.toList)
  decided.map fun message => truncateEllipsis message.content keyExchangeItemChars

def decisions (messages : List ChatMessage) : String :=
  let recent := newest toolActivityLimit (collectDecisions messages)
  "## Decisions\n" ++ if recent.isEmpty then
      "- No explicit decisions captured.\n"
    else
      String.join (recent.map fun decision => "- " ++ decision ++ "\n")

def buildStructuredSummary (messages : List ChatMessage) (maxChars : Nat) : String :=
  truncateEllipsis
    ("[Session compacted: " ++ toString messages.length ++ " messages → structured summary]\n\n" ++
      "## Active context\n- " ++ activeContextLine messages ++ "\n\n" ++ keyExchanges messages ++
      toolActivity messages ++ decisions messages)
    maxChars

def buildRehydrationContext (summary : String) (recentMessages : List ChatMessage) :
    Option String :=
  if recentMessages.isEmpty then
    none
  else
    some ("[Compaction rehydration]\n- Previous summary context available (" ++
      toString summary.toList.length ++ " chars)\n- Last " ++ toString recentMessages.length ++
      " messages preserved for continuity\n- Continue from where we left off.")

end Summary

section Generations

def companionStateHeader : String := "## Companion State (restored after compaction)"

def companionGenerationPrefix : String := "Compaction generation: "

def u32Max : Nat := 4294967295

/-- `str::parse::<u32>`. -/
def parseU32 (text : List Char) : Option Nat :=
  let digits := if text.head? = some '+' then text.tail else text
  if digits.isEmpty || !digits.all Char.isDigit then
    none
  else
    let value := Nat.ofDigitChars 10 digits 0
    if value ≤ u32Max then some value else none

def companionStateGeneration (content : String) : Option Nat :=
  if companionStateHeader.toList.isPrefixOf content.toList then
    (lines content.toList).findSome? fun line =>
      if companionGenerationPrefix.toList.isPrefixOf line then
        parseU32 (trim (line.drop companionGenerationPrefix.toList.length))
      else
        none
  else
    none

def nextCompanionRehydrationGeneration (messages : List ChatMessage) : Nat :=
  let generations := (messages.filter (·.role = .system)).filterMap fun message =>
    companionStateGeneration message.content
  min (generations.foldl max 0 + 1) u32Max

def buildCompanionRehydrationBlock (config : CompactionConfig)
    (companionSnapshot : Option (Nat → String)) (generation : Nat) : Option String :=
  if config.enableRehydration then
    match companionSnapshot with
    | none => none
    | some render => if (render generation).isEmpty then none else some (render generation)
  else
    none

end Generations

section Splitting

/-- `f64::clamp`. -/
def clamp (value low high : Float) : Float :=
  if value < low then low else if high < value then high else value

/-- The rounded share of the messages to keep, before it is bounded. -/
def keepShare (config : CompactionConfig) (count : Nat) : Nat :=
  (Float.ofNat count * clamp config.keepFraction 0.0 1.0).round.toUInt64.toNat

def keepCount (config : CompactionConfig) (count : Nat) : Nat :=
  if count ≤ keepShare config count then count - 1 else keepShare config count

/-- How many messages are summarised. -/
def splitIndex (config : CompactionConfig) (count : Nat) : Nat := count - keepCount config count

/-- The contents of the inserted messages: the summary, then the rehydration blocks. -/
def compactionMessages (config : CompactionConfig) (companionSnapshot : Option (Nat → String))
    (messages : List ChatMessage) : List String :=
  let microcompacted := microcompactMessages messages config
  let index := splitIndex config microcompacted.length
  let summary := buildStructuredSummary (microcompacted.take index) config.summaryMaxChars
  let rehydration := if config.enableRehydration then
    buildRehydrationContext summary (microcompacted.drop index) else none
  let companion := buildCompanionRehydrationBlock config companionSnapshot
    (nextCompanionRehydrationGeneration messages)
  summary :: rehydration.toList ++ companion.toList

end Splitting

section Store

inductive SessionState
  | active
  | archived
  | compacted
  deriving DecidableEq

structure SessionRow where
  id : String
  state : SessionState
  updatedAt : String
  deriving DecidableEq

/-- The tables that compaction reads and writes; the id of a message is its
primary key. -/
structure Store where
  sessions : List SessionRow
  chatMessages : List ChatMessage
  idsDistinct : (chatMessages.map ChatMessage.id).Nodup

/-- `ORDER BY created_at ASC`; rows with equal instants come in table order, one
of the orders the query allows. -/
def Store.getMessages (store : Store) (sessionId : String) : List ChatMessage :=
  ordered ChatMessage.createdAt (store.chatMessages.filter (·.sessionId = sessionId))

/-- The instant of the message with this id in the session. -/
def Store.createdAtOf (store : Store) (sessionId id : String) : Option String :=
  (store.chatMessages.find? fun row => row.id = id ∧ row.sessionId = sessionId).map
    ChatMessage.createdAt

/-- The row is in the session and older than the instant, if there is one. -/
def olderThan (sessionId : String) (cutoff : Option String) (row : ChatMessage) : Bool :=
  row.sessionId = sessionId && cutoff.any fun instant => row.createdAt < instant

def Store.deleteOlder (store : Store) (sessionId : String) (cutoff : Option String) : Store where
  sessions := store.sessions
  chatMessages := store.chatMessages.filter fun row => !olderThan sessionId cutoff row
  idsDistinct := store.idsDistinct.sublist (filter_sublist.map ChatMessage.id)

def Store.insert (store : Store) (row : ChatMessage) : Except String Store :=
  if used : row.id ∈ store.chatMessages.map ChatMessage.id then
    .error "duplicate key value violates unique constraint"
  else
    .ok {
      sessions := store.sessions
      chatMessages := store.chatMessages ++ [row]
      idsDistinct := by
        rw [map_append, map_singleton, nodup_append]
        refine ⟨store.idsDistinct, nodup_singleton _, fun id member other inRow => ?_⟩
        rw [mem_singleton] at inRow
        rintro rfl
        exact used (inRow ▸ member) }

/-- The fresh id and the reading of the clock for one insertion. -/
structure Stamp where
  id : String
  createdAt : String
  deriving DecidableEq

/-- The rows that compaction inserts. -/
def compactionRows (sessionId : String) (stamps : Nat → Stamp) (contents : List String) :
    List ChatMessage :=
  contents.mapIdx fun index content =>
    { id := (stamps index).id
      sessionId
      role := .system
      content
      inputTokens := none
      outputTokens := none
      createdAt := (stamps index).createdAt }

/-- One transaction; an error leaves the tables as they were. -/
def Store.compactMessagesBefore (store : Store) (sessionId beforeId : String)
    (contents : List String) (stamps : Nat → Stamp) (now : String) :
    Except String (Nat × Store) := do
  let cutoff := store.createdAtOf sessionId beforeId
  let changed := (store.chatMessages.filter (olderThan sessionId cutoff)).length
  let inserted ← (compactionRows sessionId stamps contents).foldlM Store.insert
    (store.deleteOlder sessionId cutoff)
  if inserted.sessions.any (·.id = sessionId) then
    let sessions := inserted.sessions.map fun session =>
      if session.id = sessionId then { session with state := .compacted, updatedAt := now }
      else session
    .ok (changed, { inserted with sessions })
  else
    .error ("session not found: " ++ sessionId)

def compactSessionWithConfig (store : Store) (sessionId : String) (config : CompactionConfig)
    (companionSnapshot : Option (Nat → String)) (stamps : Nat → Stamp) (now : String) :
    Except String (CompactionResult × Store) :=
  let messages := store.getMessages sessionId
  if messages.isEmpty || !shouldCompact messages config then
    .ok (CompactionResult.skipped, store)
  else
    let microcompacted := microcompactMessages messages config
    let toolOutputsPruned := (messages.zip microcompacted).countP fun pair =>
      pair.1.content ≠ pair.2.content
    let index := splitIndex config microcompacted.length
    match if index = 0 then none else microcompacted[index - 1]? with
    | none => .ok (CompactionResult.skipped, store)
    | some cutoff =>
      match store.compactMessagesBefore sessionId cutoff.id
          (compactionMessages config companionSnapshot messages) stamps now with
      | .error err => .error err
      | .ok (messagesRemoved, after) =>
        .ok ({ compacted := true
               messagesRemoved
               tokensBefore := sessionTokenTotal messages
               tokensAfter := sessionTokenTotal (after.getMessages sessionId)
               toolOutputsPruned }, after)

end Store

section Pieces

variable (config : CompactionConfig)
variable (messages : List ChatMessage) {count : Nat}

theorem keepCount_lt (positive : 0 < count) : keepCount config count < count := by
  rw [keepCount]
  split
  · omega
  · omega

/-- At least one message is summarised. -/
theorem splitIndex_pos (positive : 0 < count) : 0 < splitIndex config count :=
  Nat.sub_pos_of_lt (keepCount_lt config positive)

theorem splitIndex_le (count : Nat) : splitIndex config count ≤ count := Nat.sub_le _ _

/-- Microcompaction changes nothing of a message but its content. -/
theorem microcompactMessage_id (message : ChatMessage) :
    (microcompactMessage config message).id = message.id := by
  simp only [microcompactMessage]
  split
  · rfl
  · split
    · rfl
    · split <;> rfl

theorem microcompactMessages_ids :
    (microcompactMessages messages config).map ChatMessage.id = messages.map ChatMessage.id := by
  rw [microcompactMessages]
  split
  · simp [Function.comp_def, microcompactMessage_id]
  · rfl

theorem microcompactMessages_length :
    (microcompactMessages messages config).length = messages.length := by
  have ids := congrArg List.length (microcompactMessages_ids config messages)
  simpa using ids

/-- Inserting adds the rows at the end and nothing else. -/
theorem foldlM_insert {rows : List ChatMessage} {store after : Store}
    (inserted : rows.foldlM Store.insert store = .ok after) :
    after.chatMessages = store.chatMessages ++ rows ∧ after.sessions = store.sessions := by
  induction rows generalizing store with
  | nil =>
    cases inserted
    simp
  | cons row rest ih =>
    rw [foldlM_cons] at inserted
    cases step : store.insert row with
    | error err =>
      rw [step] at inserted
      cases inserted
    | ok next =>
      rw [step] at inserted
      obtain ⟨messages, sessions⟩ := ih inserted
      rw [Store.insert] at step
      split at step
      · cases step
      · cases step
        simp [messages, sessions]

/-- A message of the table is found by its id. -/
theorem createdAtOf_eq {store : Store} {sessionId : String} {message : ChatMessage}
    (member : message ∈ store.chatMessages) (inSession : message.sessionId = sessionId) :
    store.createdAtOf sessionId message.id = some message.createdAt := by
  rw [Store.createdAtOf]
  cases found : store.chatMessages.find? fun row =>
      row.id = message.id ∧ row.sessionId = sessionId with
  | none =>
    have missing := find?_eq_none.mp found message member
    simp [inSession] at missing
  | some row =>
    have sameId : row.id = message.id := by
      have matched := find?_some found
      simp only [decide_eq_true_eq] at matched
      exact matched.1
    have same : row = message :=
      inj_on_of_nodup_map store.idsDistinct (List.mem_of_find?_eq_some found) member sameId
    rw [same, Option.map_some]

end Pieces

section Compacting

variable {store after : Store} {sessionId : String} {config : CompactionConfig}
  {companionSnapshot : Option (Nat → String)} {stamps : Nat → Stamp} {now : String}
  {result : CompactionResult}
variable {contents : List String}

/-- What a transaction does to the tables. -/
theorem compactMessagesBefore_ok {beforeId : String} {changed : Nat}
    (ran : store.compactMessagesBefore sessionId beforeId contents stamps now =
      .ok (changed, after)) :
    changed = (store.chatMessages.filter
        (olderThan sessionId (store.createdAtOf sessionId beforeId))).length ∧
      after.chatMessages = (store.chatMessages.filter fun row =>
          !olderThan sessionId (store.createdAtOf sessionId beforeId) row) ++
          compactionRows sessionId stamps contents := by
  rw [Store.compactMessagesBefore] at ran
  cases inserting : (compactionRows sessionId stamps contents).foldlM Store.insert
      (store.deleteOlder sessionId (store.createdAtOf sessionId beforeId)) with
  | error err =>
    simp [inserting, bind, Except.bind] at ran
  | ok inserted =>
    obtain ⟨messages, _⟩ := foldlM_insert inserting
    simp only [inserting, bind, Except.bind] at ran
    split at ran
    · cases ran
      exact ⟨rfl, messages⟩
    · cases ran

/-- The message before the split, as microcompaction leaves it, has the id of the
message read. -/
theorem microcompacted_id {messages : List ChatMessage} {index : Nat} {cutoff : ChatMessage}
    (found : (microcompactMessages messages config)[index]? = some cutoff) :
    ∃ message, messages[index]? = some message ∧ message.id = cutoff.id := by
  have ids : ((microcompactMessages messages config).map ChatMessage.id)[index]? =
      (messages.map ChatMessage.id)[index]? := by rw [microcompactMessages_ids]
  rw [List.getElem?_map, List.getElem?_map, found, Option.map_some] at ids
  obtain ⟨message, read, same⟩ := Option.map_eq_some_iff.mp ids.symm
  exact ⟨message, read, same⟩

/-- A compaction is the transaction at the last summarised message. -/
theorem compactSessionWithConfig_ok
    (ran : compactSessionWithConfig store sessionId config companionSnapshot stamps now =
      .ok (result, after)) (compacted : result.compacted = true) :
    0 < splitIndex config (store.getMessages sessionId).length ∧ ∃ cutoff,
        (store.getMessages sessionId)[splitIndex config (store.getMessages sessionId).length - 1]? =
            some cutoff ∧
          store.compactMessagesBefore sessionId cutoff.id
            (compactionMessages config companionSnapshot (store.getMessages sessionId)) stamps
              now = .ok (result.messagesRemoved, after) := by
  simp only [compactSessionWithConfig, microcompactMessages_length] at ran
  split at ran
  · cases ran
    cases compacted
  · rename_i proceeds
    have some : store.getMessages sessionId ≠ [] := by
      intro empty
      simp [empty] at proceeds
    have positive := splitIndex_pos config (length_pos_iff.mpr some)
    simp only [Nat.ne_of_gt positive, ↓reduceIte] at ran
    split at ran
    · cases ran
      cases compacted
    · rename_i cutoff found
      obtain ⟨message, read, sameId⟩ := microcompacted_id found
      refine ⟨positive, message, read, ?_⟩
      rw [sameId]
      split at ran
      · cases ran
      · rename_i transaction
        cases ran
        exact transaction

/-- The inserted rows belong to the session and carry the readings of the clock. -/
theorem mem_compactionRows {row : ChatMessage}
    (member : row ∈ compactionRows sessionId stamps contents) :
    row.sessionId = sessionId ∧ ∃ index < contents.length,
      row.createdAt = (stamps index).createdAt := by
  rw [compactionRows, mem_mapIdx] at member
  obtain ⟨index, inside, rfl⟩ := member
  exact ⟨rfl, index, inside, rfl⟩

/-- Every inserted message was created after all messages read. -/
def ReadingsLater (before : List ChatMessage) (contents : List String) (stamps : Nat → Stamp) :
    Prop :=
  ∀ message ∈ before, ∀ index < contents.length, message.createdAt < (stamps index).createdAt

/-- The reading after a compaction: the kept messages with the last summarised
one before them, then the inserted messages. -/
theorem reading_after
    (ran : compactSessionWithConfig store sessionId config companionSnapshot stamps now =
      .ok (result, after)) (compacted : result.compacted = true)
    (increasing : Increasing ChatMessage.createdAt (store.getMessages sessionId))
    (later : ReadingsLater (store.getMessages sessionId)
      (compactionMessages config companionSnapshot (store.getMessages sessionId)) stamps) :
    0 < splitIndex config (store.getMessages sessionId).length ∧
      result.messagesRemoved = splitIndex config (store.getMessages sessionId).length - 1 ∧
      after.getMessages sessionId = (store.getMessages sessionId).drop
            (splitIndex config (store.getMessages sessionId).length - 1) ++
          ordered ChatMessage.createdAt (compactionRows sessionId stamps
            (compactionMessages config companionSnapshot (store.getMessages sessionId))) := by
  obtain ⟨positive, cutoff, found, transaction⟩ := compactSessionWithConfig_ok ran compacted
  obtain ⟨removed, messages⟩ := compactMessagesBefore_ok transaction
  have read : cutoff ∈ store.chatMessages.filter (·.sessionId = sessionId) :=
    (ordered_perm _).mem_iff.mp (mem_of_getElem? found)
  obtain ⟨member, inSession⟩ := mem_filter.mp read
  rw [createdAtOf_eq member (by simpa using inSession)] at removed messages
  obtain ⟨olderRead, keptRead⟩ := filter_before increasing found
  refine ⟨positive, ?_, ?_⟩
  · have session : store.chatMessages.filter (olderThan sessionId (some cutoff.createdAt)) =
        (store.chatMessages.filter (·.sessionId = sessionId)).filter
          (fun row => row.createdAt < cutoff.createdAt) := by
      rw [filter_filter]
      exact filter_congr fun row _ => by simp [olderThan, Bool.and_comm]
    have permuted : (store.getMessages sessionId).Perm
        (store.chatMessages.filter (·.sessionId = sessionId)) := ordered_perm _
    have counted := (permuted.filter fun row => row.createdAt < cutoff.createdAt).length_eq
    have bounded := splitIndex_le config (store.getMessages sessionId).length
    rw [removed, session, ← counted, olderRead, length_take]
    omega
  · have session : after.chatMessages.filter (·.sessionId = sessionId) =
        (store.chatMessages.filter (·.sessionId = sessionId)).filter
          (fun row => ¬ row.createdAt < cutoff.createdAt) ++ compactionRows sessionId stamps
              (compactionMessages config companionSnapshot (store.getMessages sessionId)) := by
      rw [messages, filter_append, filter_filter, filter_filter]
      congr 1
      · refine filter_congr fun row _ => ?_
        by_cases inSession : row.sessionId = sessionId <;> simp [olderThan, inSession]
      · exact filter_eq_self.mpr fun row inserted => by
          simpa using (mem_compactionRows inserted).1
    rw [Store.getMessages, session, ordered_append, ordered_filter increasing, ← Store.getMessages,
      keptRead]
    intro row kept last inserted
    obtain ⟨_, index, inside, instant⟩ := mem_compactionRows inserted
    have rowRead : row ∈ store.getMessages sessionId :=
      (ordered_perm _).mem_iff.mpr (mem_of_mem_filter kept)
    rw [instant]
    exact le_of_lt (later row rowRead index inside)

/-- Rows with ids of their own can be inserted. -/
theorem foldlM_insert_ok {rows : List ChatMessage} {store : Store}
    (fresh : (store.chatMessages.map ChatMessage.id ++ rows.map ChatMessage.id).Nodup) :
    ∃ inserted, rows.foldlM Store.insert store = .ok inserted := by
  induction rows generalizing store with
  | nil => exact ⟨store, rfl⟩
  | cons row rest ih =>
    have unused : row.id ∉ store.chatMessages.map ChatMessage.id := fun used =>
      disjoint_of_nodup_append fresh used mem_cons_self
    rw [foldlM_cons, Store.insert, dif_neg unused]
    exact ih (by simpa using fresh)

/-- A transaction on an existing session commits when the inserted ids are fresh. -/
theorem compactMessagesBefore_succeeds (beforeId : String)
    (existing : store.sessions.any (·.id = sessionId) = true)
    (fresh : (store.chatMessages.map ChatMessage.id ++
      (compactionRows sessionId stamps contents).map ChatMessage.id).Nodup) :
    ∃ changed after, store.compactMessagesBefore sessionId beforeId contents stamps now =
      .ok (changed, after) := by
  have kept : ((store.deleteOlder sessionId (store.createdAtOf sessionId beforeId)).chatMessages.map
      ChatMessage.id).Sublist (store.chatMessages.map ChatMessage.id) :=
    filter_sublist.map ChatMessage.id
  obtain ⟨inserted, inserting⟩ := foldlM_insert_ok (fresh.sublist (kept.append_right _))
  have sessions : inserted.sessions = store.sessions := (foldlM_insert inserting).2
  rw [Store.compactMessagesBefore]
  simp only [inserting, bind, Except.bind, sessions, existing, ↓reduceIte]
  exact ⟨_, _, rfl⟩

/-- A due compaction of an existing session succeeds when the inserted ids are fresh. -/
theorem compaction_succeeds (due : shouldCompact (store.getMessages sessionId) config = true)
    (existing : store.sessions.any (·.id = sessionId) = true)
    (fresh : (store.chatMessages.map ChatMessage.id ++ (compactionRows sessionId stamps
      (compactionMessages config companionSnapshot (store.getMessages sessionId))).map
        ChatMessage.id).Nodup) :
    ∃ result after, compactSessionWithConfig store sessionId config companionSnapshot stamps now =
      .ok (result, after) ∧ result.compacted = true := by
  have some : (store.getMessages sessionId).isEmpty = false := by
    cases empty : (store.getMessages sessionId).isEmpty with
    | false => rfl
    | true => simp [shouldCompact, empty] at due
  have positive := splitIndex_pos config
    (length_pos_iff.mpr (isEmpty_eq_false_iff.mp some))
  have inside : splitIndex config (store.getMessages sessionId).length - 1 <
      (microcompactMessages (store.getMessages sessionId) config).length := by
    have bounded := splitIndex_le config (store.getMessages sessionId).length
    rw [microcompactMessages_length]
    omega
  obtain ⟨changed, after, transaction⟩ := compactMessagesBefore_succeeds
    ((microcompactMessages (store.getMessages sessionId) config).get ⟨_, inside⟩).id existing fresh
  simp only [compactSessionWithConfig, some, due, Bool.not_true, Bool.or_self, Bool.false_eq_true,
    ↓reduceIte, microcompactMessages_length, Nat.ne_of_gt positive,
    List.getElem?_eq_getElem inside]
  rw [get_eq_getElem] at transaction
  rw [transaction]
  exact ⟨_, _, rfl, rfl⟩

/-- The reading after a compaction is the inserted messages and then the messages
behind the split, and that many messages were removed. -/
def ReplacesPrefix (before after : List ChatMessage) (contents : List String)
    (split removed : Nat) : Prop :=
  removed = split ∧ ∃ inserted : List ChatMessage,
    inserted.map ChatMessage.content = contents ∧ after = inserted ++ before.drop split

/-- A transaction that removes one message less does not replace the prefix. -/
theorem not_replacesPrefix {before reading : List ChatMessage}
    {split removed : Nat} (positive : 0 < split) (removedLess : removed = split - 1) :
    ¬ ReplacesPrefix before reading contents split removed := by
  rintro ⟨same, _⟩
  omega

end Compacting

/-- No compaction replaces exactly the summarised prefix: one message less is
removed, and the reading afterwards is the last summarised message, the kept
messages, and the inserted messages behind them. -/
theorem compaction_keeps_last_summarised (store after : Store) (sessionId : String)
    (config : CompactionConfig) (companionSnapshot : Option (Nat → String))
    (stamps : Nat → Stamp) (now : String) (result : CompactionResult)
    (ran : compactSessionWithConfig store sessionId config companionSnapshot stamps now =
      .ok (result, after)) (compacted : result.compacted = true)
    (increasing : Increasing ChatMessage.createdAt (store.getMessages sessionId))
    (later : ReadingsLater (store.getMessages sessionId)
      (compactionMessages config companionSnapshot (store.getMessages sessionId)) stamps) :
    let before := store.getMessages sessionId
    let contents := compactionMessages config companionSnapshot before
    let split := splitIndex config before.length
    ¬ ReplacesPrefix before (after.getMessages sessionId) contents split
        result.messagesRemoved ∧
      0 < split ∧ result.messagesRemoved = split - 1 ∧
        after.getMessages sessionId = before.drop (split - 1) ++
          ordered ChatMessage.createdAt (compactionRows sessionId stamps contents) := by
  obtain ⟨positive, removed, reading⟩ := reading_after ran compacted increasing later
  exact ⟨not_replacesPrefix positive removed, positive, removed, reading⟩

/-- A session with a question and its answer. -/
def sampleStore : Store where
  sessions := [⟨"s1", .active, "2026-01-01T00:00:05+00:00"⟩]
  chatMessages :=
    [⟨"1", "s1", .user, "hello", some 60, none, "2026-01-01T00:00:00+00:00"⟩,
      ⟨"2", "s1", .assistant, "world", none, some 55, "2026-01-01T00:00:05+00:00"⟩]
  idsDistinct := by decide

def sampleConfig : CompactionConfig := ⟨100, 0.4, 4000, true, 2000, 500, false⟩

/-- The id and the instant of the inserted summary. -/
def sampleStamps (_ : Nat) : Stamp := ⟨"3", "2026-01-01T00:01:00+00:00"⟩

theorem sample_succeeds :
    ∃ result after, compactSessionWithConfig sampleStore "s1" sampleConfig none sampleStamps
      "2026-01-01T00:01:00+00:00" = .ok (result, after) ∧ result.compacted = true :=
  compaction_succeeds (by decide) (by decide) (by
    have single : ∃ summary, compactionMessages sampleConfig none
        (sampleStore.getMessages "s1") = [summary] := ⟨_, rfl⟩
    obtain ⟨summary, only⟩ := single
    rw [only]
    exact (by decide : ["1", "2", "3"].Nodup))

theorem sample_increasing :
    Increasing ChatMessage.createdAt (sampleStore.getMessages "s1") :=
  (by decide : List.Pairwise (fun first second => first.createdAt < second.createdAt)
    (sampleStore.getMessages "s1"))

theorem sample_later :
    ReadingsLater (sampleStore.getMessages "s1")
      (compactionMessages sampleConfig none (sampleStore.getMessages "s1")) sampleStamps := by
  intro message member index _
  revert message
  show ∀ message ∈ sampleStore.getMessages "s1", message.createdAt < "2026-01-01T00:01:00+00:00"
  decide

/-- The sample session still reads its last summarised message afterwards. -/
theorem sample_not_replaced :
    ∃ result after, compactSessionWithConfig sampleStore "s1" sampleConfig none sampleStamps
        "2026-01-01T00:01:00+00:00" = .ok (result, after) ∧ result.compacted = true ∧
      ¬ ReplacesPrefix (sampleStore.getMessages "s1") (after.getMessages "s1")
        (compactionMessages sampleConfig none (sampleStore.getMessages "s1"))
        (splitIndex sampleConfig (sampleStore.getMessages "s1").length)
        result.messagesRemoved := by
  obtain ⟨result, after, ran, compacted⟩ := sample_succeeds
  obtain ⟨positive, removed, _⟩ := reading_after ran compacted sample_increasing sample_later
  exact ⟨result, after, ran, compacted, not_replacesPrefix positive removed⟩

theorem compaction_keeps_last_summarised_sample :
    ∃ result after, compactSessionWithConfig sampleStore "s1" sampleConfig none sampleStamps
        "2026-01-01T00:01:00+00:00" = .ok (result, after) ∧ result.compacted = true ∧
      let before := sampleStore.getMessages "s1"
      let contents := compactionMessages sampleConfig none before
      let split := splitIndex sampleConfig before.length
      ¬ ReplacesPrefix before (after.getMessages "s1") contents split result.messagesRemoved ∧
        0 < split ∧ result.messagesRemoved = split - 1 ∧
          after.getMessages "s1" = before.drop (split - 1) ++
            ordered ChatMessage.createdAt (compactionRows "s1" sampleStamps contents) := by
  obtain ⟨result, after, ran, compacted⟩ := sample_succeeds
  exact ⟨result, after, ran, compacted, compaction_keeps_last_summarised sampleStore after "s1"
    sampleConfig none sampleStamps "2026-01-01T00:01:00+00:00" result ran compacted
    sample_increasing sample_later⟩

end Asterel.Sessions
