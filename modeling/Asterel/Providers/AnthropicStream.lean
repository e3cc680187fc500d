import Asterel.Providers.StreamCollector

/-!
# The streamed replies of the Anthropic provider

A reply comes as a list of content blocks, or as server-sent events that start each of
the blocks and bring its text or its arguments in fragments. The mapping of the events
and the collector give the same tool calls as the blocks themselves, except for those
without arguments, whose JSON is never sent, and those that the collector has no place
or no name for.
-/

namespace Asterel.Anthropic

open Library Library.Text Streaming List
open ToolProtocol (Value Serde)
open Chunker (byteLength)

variable {Number : Type}

inductive ResponseContentBlock (Number : Type) where
  | text (text : List Char)
  | toolUse (id name : List Char) (input : Value Number)
  | unsupported

def parseContentBlocks (blocks : List (ResponseContentBlock Number)) : List (ContentBlock Number) :=
  blocks.filterMap fun block =>
    match block with
    | .text text => some (.text text)
    | .toolUse id name input => some (.toolUse id name input)
    | .unsupported => none

/-- The loop in `text_from_content_blocks`. -/
def joinTexts (text : List Char) : List (ContentBlock Number) → List Char
  | [] => text
  | .text other :: rest => joinTexts ((if text = [] then [] else text ++ ['\n']) ++ other) rest
  | .toolUse _ _ _ :: rest => joinTexts text rest

def textFromContentBlocks (blocks : List (ContentBlock Number)) : Option (List Char) :=
  if joinTexts [] blocks = [] then none else some (joinTexts [] blocks)

/-- `map_stop_reason`. -/
def mapStopReason (stopReason : Option (List Char)) : Option StopReason :=
  stopReason.map fun reason =>
    if reason = "end_turn".toList then .endTurn
    else if reason = "tool_use".toList then .toolUse
    else if reason = "max_tokens".toList then .maxTokens
    else .error

section Events

structure Usage where
  inputTokens : Nat
  outputTokens : Nat

structure StreamMessageStart where
  model : Option (List Char)
  usage : Option Usage

inductive StreamContentBlockType where
  | text (text : List Char)
  | toolUse (id name : List Char)
  | unknown
deriving DecidableEq

structure StreamContentBlockStart where
  index : Nat
  contentBlock : StreamContentBlockType
deriving DecidableEq

inductive StreamDelta where
  | textDelta (text : List Char)
  | inputJsonDelta (partialJson : List Char)
  | unknown
deriving DecidableEq

structure StreamContentBlockDelta where
  index : Nat
  delta : StreamDelta
deriving DecidableEq

structure StreamMessageDelta where
  stopReason : Option (List Char)
  outputTokens : Option Nat

/-- `serde_json::from_str` at the types of the payloads. -/
structure PayloadReader where
  messageStart : List Char → Option StreamMessageStart
  contentBlockStart : List Char → Option StreamContentBlockStart
  contentBlockDelta : List Char → Option StreamContentBlockDelta
  messageDelta : List Char → Option StreamMessageDelta

def startEvents (block : StreamContentBlockStart) : List (StreamEvent Number) :=
  match block.contentBlock with
  | .toolUse id name => [.toolCallDelta block.index (some id) (some name) []]
  | .text text => if text = [] then [] else [.textDelta text]
  | .unknown => []

def deltaEvents (delta : StreamContentBlockDelta) : List (StreamEvent Number) :=
  match delta.delta with
  | .textDelta text => [.textDelta text]
  | .inputJsonDelta partialJson => [.toolCallDelta delta.index none none partialJson]
  | .unknown => []

/-- `stream_events_from_sse`, with the input and the output tokens that are known. -/
def streamEventsFromSse (reader : PayloadReader) (eventType data : List Char)
    (tokens : Option Nat × Option Nat) :
    List (StreamEvent Number) × (Option Nat × Option Nat) :=
  if eventType = "message_start".toList then
    match reader.messageStart data with
    | some message =>
      ([.responseStart message.model], (match message.usage with
          | some usage => some usage.inputTokens
          | none => tokens.1, tokens.2))
    | none => ([], tokens)
  else if eventType = "content_block_start".toList then
    match reader.contentBlockStart data with
    | some block => (startEvents block, tokens)
    | none => ([], tokens)
  else if eventType = "content_block_delta".toList then
    match reader.contentBlockDelta data with
    | some delta => (deltaEvents delta, tokens)
    | none => ([], tokens)
  else if eventType = "message_delta".toList then
    match reader.messageDelta data with
    | some message =>
      let outputTokens := match message.outputTokens with
        | some outputTokens => some outputTokens
        | none => tokens.2
      ([.done (mapStopReason message.stopReason) tokens.1 outputTokens], (tokens.1, outputTokens))
    | none => ([], tokens)
  else ([], tokens)

/-- The events of a stream of server-sent events, each with its type and its data. -/
def streamEvents (reader : PayloadReader) (tokens : Option Nat × Option Nat) :
    List (List Char × List Char) → List (StreamEvent Number)
  | [] => []
  | (eventType, data) :: rest =>
    let mapped := streamEventsFromSse reader eventType data tokens
    mapped.1 ++ streamEvents reader mapped.2 rest

/-- The response collected from a stream. -/
def collected (serde : Serde Number) (reader : PayloadReader) (sse : List (List Char × List Char)) :
    ProviderResponse Number :=
  collect serde (streamEvents reader (none, none) sse)

end Events

section Sending

/-- A content block with the fragments that it is streamed in. -/
inductive StreamedBlock (Number : Type) where
  | text (start : List Char) (deltas : List (List Char))
  | toolUse (id name : List Char) (input : Value Number) (fragments : List (List Char))
  | unsupported (deltas : Nat)

/-- The block as it comes when it is not streamed. -/
def StreamedBlock.response : StreamedBlock Number → ResponseContentBlock Number
  | .text start deltas => .text (start ++ deltas.flatten)
  | .toolUse id name input _ => .toolUse id name input
  | .unsupported _ => .unsupported

/-- The arguments as they are streamed. -/
def StreamedBlock.json : StreamedBlock Number → List Char
  | .toolUse _ _ _ fragments => fragments.flatten
  | .text _ _ => []
  | .unsupported _ => []

def StreamedBlock.textOf : StreamedBlock Number → List Char
  | .text start deltas => start ++ deltas.flatten
  | .toolUse _ _ _ _ => []
  | .unsupported _ => []

/-- The arguments are streamed as JSON, and an empty object as nothing or white space. -/
def StreamedBlock.WellStreamed (serde : Serde Number) : StreamedBlock Number → Prop
  | .toolUse _ _ input fragments =>
    serde.fromStr fragments.flatten = some input ∨ input = .object [] ∧ Blank fragments.flatten
  | _ => True

/-- What is sent of the content blocks. -/
inductive Payload where
  | start (block : StreamContentBlockStart)
  | delta (delta : StreamContentBlockDelta)
deriving DecidableEq

/-- What the data of an event says about the content blocks. -/
def payloadOf (reader : PayloadReader) (event : List Char × List Char) : Option Payload :=
  if event.1 = "content_block_start".toList then (reader.contentBlockStart event.2).map .start
  else if event.1 = "content_block_delta".toList then (reader.contentBlockDelta event.2).map .delta
  else none

/-- The start of a block and its fragments. -/
def StreamedBlock.payloads (index : Nat) : StreamedBlock Number → List Payload
  | .text start deltas =>
    .start ⟨index, .text start⟩ :: deltas.map fun delta => .delta ⟨index, .textDelta delta⟩
  | .toolUse id name _ fragments =>
    .start ⟨index, .toolUse id name⟩ ::
      fragments.map fun fragment => .delta ⟨index, .inputJsonDelta fragment⟩
  | .unsupported deltas =>
    .start ⟨index, .unknown⟩ :: replicate deltas (.delta ⟨index, .unknown⟩)

/-- The blocks from an index on, one after the other. -/
def payloadsFrom : Nat → List (StreamedBlock Number) → List Payload
  | _, [] => []
  | index, block :: rest => block.payloads index ++ payloadsFrom (index + 1) rest

/-- The events of the stream start and fill the blocks; other events may stand anywhere. -/
def Sends (reader : PayloadReader) (blocks : List (StreamedBlock Number))
    (sse : List (List Char × List Char)) : Prop :=
  sse.filterMap (payloadOf reader) = payloadsFrom 0 blocks

/-- The text and the arguments fit into the caps of the collector, which takes the
arguments of the first blocks only. -/
structure BlocksWithinCaps (blocks : List (StreamedBlock Number)) : Prop where
  text : byteLength (blocks.flatMap StreamedBlock.textOf) ≤ maxStreamTextBytes
  json : ∀ block ∈ blocks.take maxToolCallBuilders,
    byteLength block.json ≤ maxToolCallInputJsonBytes
  total : ((blocks.take maxToolCallBuilders).map fun block => byteLength block.json).sum ≤
    maxTotalToolCallInputJsonBytes

end Sending

section Mapping

variable (reader : PayloadReader)

def payloadEvents : Payload → List (StreamEvent Number)
  | .start block => startEvents block
  | .delta delta => deltaEvents delta

theorem payloadEvents_content (payload : Payload) :
    (payloadEvents payload : List (StreamEvent Number)).filter isContent = payloadEvents payload := by
  cases payload with
  | start block =>
    obtain ⟨index, block⟩ := block
    cases block with
    | text text =>
      by_cases empty : text = []
      · simp [payloadEvents, startEvents, empty]
      · simp [payloadEvents, startEvents, empty, isContent]
    | toolUse id name => rfl
    | unknown => rfl
  | delta delta =>
    obtain ⟨index, delta⟩ := delta
    cases delta with
    | textDelta text => rfl
    | inputJsonDelta json => rfl
    | unknown => rfl

theorem ne_toList {first second : String} {text : List Char} (same : text = first.toList)
    (different : first ≠ second) : text ≠ second.toList :=
  fun other => different (String.toList_inj.mp (same.symm.trans other))

/-- What an event of the stream brings is in its payload. -/
theorem streamEventsFromSse_content (eventType data : List Char)
    (tokens : Option Nat × Option Nat) :
    (streamEventsFromSse reader eventType data tokens :
        List (StreamEvent Number) × _).1.filter isContent =
      ((payloadOf reader (eventType, data)).toList).flatMap payloadEvents := by
  rw [streamEventsFromSse, payloadOf]
  by_cases messageStart : eventType = "message_start".toList
  · rw [if_pos messageStart, if_neg (ne_toList messageStart (by decide)),
      if_neg (ne_toList messageStart (by decide))]
    cases reader.messageStart data with
    | none => rfl
    | some message => rfl
  · rw [if_neg messageStart]
    by_cases blockStart : eventType = "content_block_start".toList
    · rw [if_pos blockStart, if_pos blockStart]
      cases reader.contentBlockStart data with
      | none => rfl
      | some block =>
        have same : (startEvents block : List (StreamEvent Number)).filter isContent = _ :=
          payloadEvents_content (.start block)
        exact same.trans (append_nil _).symm
    · rw [if_neg blockStart, if_neg blockStart]
      by_cases blockDelta : eventType = "content_block_delta".toList
      · rw [if_pos blockDelta, if_pos blockDelta]
        cases reader.contentBlockDelta data with
        | none => rfl
        | some delta =>
          have same : (deltaEvents delta : List (StreamEvent Number)).filter isContent = _ :=
            payloadEvents_content (.delta delta)
          exact same.trans (append_nil _).symm
      · rw [if_neg blockDelta, if_neg blockDelta]
        by_cases messageDelta : eventType = "message_delta".toList
        · rw [if_pos messageDelta]
          cases reader.messageDelta data with
          | none => rfl
          | some message => rfl
        · rw [if_neg messageDelta]
          rfl

theorem streamEvents_content (tokens : Option Nat × Option Nat)
    (sse : List (List Char × List Char)) :
    (streamEvents reader tokens sse : List (StreamEvent Number)).filter isContent =
      (sse.filterMap (payloadOf reader)).flatMap payloadEvents := by
  induction sse generalizing tokens with
  | nil => rfl
  | cons event rest ih =>
    obtain ⟨eventType, data⟩ := event
    rw [streamEvents, filter_append, streamEventsFromSse_content, ih, filterMap_cons]
    cases payloadOf reader (eventType, data) with
    | none => rfl
    | some payload => simp

end Mapping

section Blocks

variable (index : Nat)

/-- The events that bring a block. -/
def blockEvents (index : Nat) (block : StreamedBlock Number) : List (StreamEvent Number) :=
  (block.payloads index).flatMap payloadEvents

/-- The events that bring the blocks from an index on. -/
def eventsFrom (index : Nat) (blocks : List (StreamedBlock Number)) : List (StreamEvent Number) :=
  (payloadsFrom index blocks).flatMap payloadEvents

theorem eventsFrom_cons (block : StreamedBlock Number) (rest : List (StreamedBlock Number)) :
    eventsFrom index (block :: rest) = blockEvents index block ++ eventsFrom (index + 1) rest :=
  flatMap_append

theorem blockEvents_text (start : List Char) (deltas : List (List Char)) :
    (blockEvents index (.text start deltas) : List (StreamEvent Number)) =
      (if start = [] then [] else [.textDelta start]) ++ deltas.map .textDelta := by
  rw [blockEvents, StreamedBlock.payloads, flatMap_cons, flatMap_map]
  exact congrArg _ map_eq_flatMap.symm

theorem blockEvents_toolUse (id name : List Char) (input : Value Number)
    (fragments : List (List Char)) :
    blockEvents index (.toolUse id name input fragments) =
      .toolCallDelta index (some id) (some name) [] ::
        fragments.map (.toolCallDelta index none none) := by
  rw [blockEvents, StreamedBlock.payloads, flatMap_cons, flatMap_map]
  exact congrArg _ map_eq_flatMap.symm

theorem blockEvents_unsupported (deltas : Nat) :
    (blockEvents index (.unsupported deltas) : List (StreamEvent Number)) = [] := by
  rw [blockEvents, StreamedBlock.payloads, flatMap_cons, flatMap_replicate]
  exact flatten_replicate_nil

theorem textOf_deltas (deltas : List (List Char)) :
    textOf (deltas.map .textDelta : List (StreamEvent Number)) = deltas.flatten := by
  rw [textOf, flatMap_map]
  exact flatMap_id

/-- The text of the events of a block. -/
theorem textOf_blockEvents (block : StreamedBlock Number) :
    textOf (blockEvents index block) = block.textOf := by
  cases block with
  | text start deltas =>
    rw [blockEvents_text, textOf_append, textOf_deltas, StreamedBlock.textOf]
    split
    · rename_i empty
      rw [empty]
      rfl
    · exact congrArg (· ++ deltas.flatten) (append_nil start)
  | toolUse id name input fragments =>
    simp [blockEvents_toolUse, textOf, StreamedBlock.textOf, flatMap_map]
  | unsupported deltas =>
    rw [blockEvents_unsupported]
    rfl

/-- No block comes as a complete tool call. -/
theorem completed_blockEvents (block : StreamedBlock Number) :
    completed (blockEvents index block) = [] := by
  cases block with
  | text start deltas =>
    rw [blockEvents_text, completed_append]
    split
    · simp [completed, flatMap_map]
    · simp [completed, flatMap_map]
  | toolUse id name input fragments =>
    simp [blockEvents_toolUse, completed, flatMap_map]
  | unsupported deltas =>
    rw [blockEvents_unsupported]
    rfl

/-- The bytes of the arguments of a block. -/
theorem jsonBytes_blockEvents (block : StreamedBlock Number) :
    ((blockEvents index block).map jsonBytes).sum =
      if index < maxToolCallBuilders then byteLength block.json else 0 := by
  cases block with
  | text start deltas =>
    have none : ((deltas.map .textDelta : List (StreamEvent Number)).map jsonBytes).sum = 0 := by
      simp [jsonBytes, Function.comp_def]
    rw [blockEvents_text, map_append, sum_append, none, StreamedBlock.json]
    split <;> split <;> rfl
  | toolUse id name input fragments =>
    rw [blockEvents_toolUse, StreamedBlock.json, byteLength_flatten]
    by_cases small : index < maxToolCallBuilders
    · simp [jsonBytes, small, Function.comp_def, byteLength]
    · simp [jsonBytes, small, Function.comp_def]
  | unsupported deltas =>
    rw [blockEvents_unsupported, StreamedBlock.json]
    split <;> rfl

theorem assemble_fragments (builder : ToolCallBuilder) (fragments : List (List Char)) :
    (fragments.map (.toolCallDelta index none none) : List (StreamEvent Number)).foldl
        (assemble index) builder =
      ⟨builder.id, builder.name, builder.inputJson ++ fragments.flatten⟩ := by
  induction fragments generalizing builder with
  | nil =>
    rw [flatten_nil, append_nil]
    rfl
  | cons fragment fragments ih =>
    rw [map_cons, foldl_cons, assemble, if_pos rfl, ih, flatten_cons, append_assoc]
    rfl

/-- A tool call with what a block says about it. -/
def assembleBlock (builder : ToolCallBuilder) : StreamedBlock Number → ToolCallBuilder
  | .toolUse id name _ fragments => ⟨id, name, builder.inputJson ++ fragments.flatten⟩
  | .text _ _ => builder
  | .unsupported _ => builder

/-- What the events of a block say about a tool call. -/
theorem assemble_blockEvents (other : Nat) (block : StreamedBlock Number)
    (builder : ToolCallBuilder) :
    (blockEvents index block).foldl (assemble other) builder =
      if index = other then assembleBlock builder block else builder := by
  cases block with
  | text start deltas =>
    have same : (blockEvents index (.text start deltas) : List (StreamEvent Number)).foldl
        (assemble other) builder = builder := by
      apply foldl_unchanged
      intro event member
      rw [blockEvents_text, mem_append, mem_map] at member
      rcases member with first | ⟨delta, _, rfl⟩
      · split at first
        · cases first
        · rw [mem_singleton.mp first]
          exact fun _ => rfl
      · exact fun _ => rfl
    rw [same, assembleBlock, ite_self]
  | toolUse id name input fragments =>
    rw [blockEvents_toolUse]
    by_cases same : index = other
    · subst same
      rw [foldl_cons, assemble, if_pos rfl, if_pos rfl, assemble_fragments, append_nil]
      rfl
    · rw [if_neg same]
      apply foldl_unchanged
      intro event member
      rcases mem_cons.mp member with rfl | later
      · exact fun _ => if_neg same
      · obtain ⟨fragment, _, rfl⟩ := mem_map.mp later
        exact fun _ => if_neg same
  | unsupported deltas =>
    rw [blockEvents_unsupported, assembleBlock, ite_self]
    rfl

/-- What the blocks say about a tool call. -/
theorem assemble_eventsFrom (first index : Nat) (blocks : List (StreamedBlock Number))
    (builder : ToolCallBuilder) :
    (eventsFrom first blocks).foldl (assemble index) builder =
      if first ≤ index then (blocks[index - first]?).elim builder (assembleBlock builder)
      else builder := by
  induction blocks generalizing first builder with
  | nil =>
    simp [eventsFrom, payloadsFrom]
  | cons block rest ih =>
    rw [eventsFrom_cons, foldl_append, assemble_blockEvents, ih]
    rcases Nat.lt_trichotomy first index with before | rfl | behind
    · have slot : index - first = index - (first + 1) + 1 := by omega
      rw [if_neg (Nat.ne_of_lt before), if_pos (Nat.succ_le_of_lt before),
        if_pos (Nat.le_of_lt before), slot,
        List.getElem?_cons_succ]
    · rw [if_pos rfl, if_neg (Nat.not_succ_le_self _), if_pos (Nat.le_refl _), Nat.sub_self,
        List.getElem?_cons_zero]
      rfl
    · rw [if_neg (Nat.ne_of_gt behind), if_neg (by omega), if_neg (by omega)]

/-- What the blocks bring. -/
theorem eventsFrom_contents (first : Nat) (blocks : List (StreamedBlock Number)) :
    textOf (eventsFrom first blocks) = blocks.flatMap StreamedBlock.textOf ∧
      completed (eventsFrom first blocks) = [] ∧
      ((eventsFrom first blocks).map jsonBytes).sum =
        ((blocks.take (maxToolCallBuilders - first)).map fun block => byteLength block.json).sum := by
  induction blocks generalizing first with
  | nil =>
    refine ⟨rfl, rfl, ?_⟩
    rw [take_nil]
    rfl
  | cons block rest ih =>
    obtain ⟨text, calls, bytes⟩ := ih (first + 1)
    rw [eventsFrom_cons]
    refine ⟨?_, ?_, ?_⟩
    · rw [textOf_append, textOf_blockEvents, text, flatMap_cons]
    · rw [completed_append, completed_blockEvents, calls]
      rfl
    · rw [map_append, sum_append, jsonBytes_blockEvents, bytes]
      by_cases small : first < maxToolCallBuilders
      · have left : maxToolCallBuilders - first = maxToolCallBuilders - (first + 1) + 1 := by omega
        rw [if_pos small, left, take_succ_cons, map_cons, sum_cons]
      · have none : maxToolCallBuilders - first = 0 ∧ maxToolCallBuilders - (first + 1) = 0 := by
          omega
        rw [if_neg small, none.1, none.2]
        rfl

end Blocks

section Reply

variable {block : StreamedBlock Number}

/-- The tool call that a block is, when it is one. -/
def StreamedBlock.toolCall : StreamedBlock Number → Option (ContentBlock Number)
  | .toolUse id name input _ => some (.toolUse id name input)
  | .text _ _ => none
  | .unsupported _ => none

/-- The tool call that the collector makes of a block. -/
def StreamedBlock.collectedCall (serde : Serde Number) (block : StreamedBlock Number) :
    Option (ContentBlock Number) :=
  (assembleBlock .empty block).intoContentBlock serde

/-- A tool call is collected: the collector has a place for it, it has an id and a name,
and its arguments are sent. -/
def StreamedBlock.Arrives (index : Nat) : StreamedBlock Number → Prop
  | .toolUse id name _ fragments =>
    index < maxToolCallBuilders ∧ id ≠ [] ∧ name ≠ [] ∧ ¬ Blank fragments.flatten
  | .text _ _ => True
  | .unsupported _ => True

variable {serde : Serde Number}

/-- The blocks of a reply are collected within the caps. -/
theorem withinCaps_eventsFrom {blocks : List (StreamedBlock Number)}
    (caps : BlocksWithinCaps blocks) : WithinCaps (eventsFrom 0 blocks) := by
  obtain ⟨text, _, bytes⟩ := eventsFrom_contents 0 blocks
  constructor
  · rw [text]
    exact caps.text
  · intro index small
    rw [builderAt, assemble_eventsFrom, if_pos (Nat.zero_le _), Nat.sub_zero]
    cases found : blocks[index]? with
    | none => exact Nat.zero_le _
    | some block =>
      have slot : (blocks.take maxToolCallBuilders)[index]? = some block := by
        rw [List.getElem?_take_of_lt small, found]
      have member := mem_of_getElem? slot
      have fits := caps.json block member
      cases block with
      | toolUse id name input fragments => exact fits
      | text start deltas => exact Nat.zero_le _
      | unsupported deltas => exact Nat.zero_le _
  · rw [bytes]
    exact caps.total

/-- What the stream of the blocks is collected to. -/
theorem collected_eq {reader : PayloadReader} {blocks : List (StreamedBlock Number)}
    {sse : List (List Char × List Char)} (caps : BlocksWithinCaps blocks)
    (sent : Sends reader blocks sse) :
    (collected serde reader sse).text = blocks.flatMap StreamedBlock.textOf ∧
      (collected serde reader sse).contentBlocks.filter isToolUse =
        (blocks.take maxToolCallBuilders).filterMap (StreamedBlock.collectedCall serde) := by
  have content : (streamEvents reader (none, none) sse : List (StreamEvent Number)).filter
      isContent = eventsFrom 0 blocks := by
    rw [streamEvents_content, sent, eventsFrom]
  have fits : WithinCaps (streamEvents reader (none, none) sse : List (StreamEvent Number)) :=
    withinCaps_filter (content ▸ withinCaps_eventsFrom caps)
  obtain ⟨text, calls, _, builders⟩ :=
    contents_filter (streamEvents reader (none, none) sse : List (StreamEvent Number))
  rw [content] at text calls
  obtain ⟨textEq, callsEq, _⟩ := eventsFrom_contents 0 blocks
  have assembledEq : assembled serde (streamEvents reader (none, none) sse) =
      (blocks.take maxToolCallBuilders).filterMap (StreamedBlock.collectedCall serde) := by
    rw [← filterMap_range, assembled]
    apply filterMap_congr
    intro index _
    rw [← builders, content, builderAt, assemble_eventsFrom, if_pos (Nat.zero_le _), Nat.sub_zero]
    cases blocks[index]? with
    | none => exact empty_no_block serde
    | some block => rfl
  have noCalls : completed (streamEvents reader (none, none) sse : List (StreamEvent Number)) = [] :=
    calls.symm.trans callsEq
  refine ⟨?_, (collect_calls serde fits noCalls).trans assembledEq⟩
  rw [collected, (collect_eq serde fits).1, ← text, textEq]

section Calls

variable {id name : List Char} {input : Value Number} {fragments : List (List Char)}

theorem collectedCall_some (streamed : (StreamedBlock.toolUse id name input fragments).WellStreamed serde)
    (hasId : id ≠ []) (hasName : name ≠ []) (visible : ¬ Blank fragments.flatten) :
    (StreamedBlock.toolUse id name input fragments).collectedCall serde =
      some (.toolUse id name input) := by
  have read : serde.fromStr fragments.flatten = some input := by
    rcases streamed with read | ⟨_, blank⟩
    · exact read
    · exact absurd blank visible
  rw [StreamedBlock.collectedCall, assembleBlock, ToolCallBuilder.intoContentBlock,
    if_neg (by simp [hasId, hasName])]
  exact congrArg (Option.map _) read

theorem collectedCall_none (rejects : ∀ text, Blank text → serde.fromStr text = none)
    (missing : id = [] ∨ name = [] ∨ Blank fragments.flatten) :
    (StreamedBlock.toolUse id name input fragments).collectedCall serde = none := by
  rw [StreamedBlock.collectedCall, assembleBlock, ToolCallBuilder.intoContentBlock]
  split
  · rfl
  · rename_i named
    have blank : Blank fragments.flatten := by
      rcases missing with noId | noName | blank
      · exact absurd (.inl noId) named
      · exact absurd (.inr noName) named
      · exact blank
    exact congrArg (Option.map _) (rejects _ blank)

end Calls

section

variable (rejects : ∀ text, Blank text → serde.fromStr text = none)
  (streamed : block.WellStreamed serde)
include rejects streamed

/-- A block whose call is collected is collected as it is. -/
theorem collectedCall_cases :
    block.collectedCall serde = block.toolCall ∨ block.collectedCall serde = none := by
  cases block with
  | text start deltas => exact .inr (empty_no_block serde)
  | unsupported deltas => exact .inr (empty_no_block serde)
  | toolUse id name input fragments =>
    by_cases missing : id = [] ∨ name = [] ∨ Blank fragments.flatten
    · exact .inr (collectedCall_none rejects missing)
    · rw [not_or, not_or] at missing
      exact .inl (collectedCall_some streamed missing.1 missing.2.1 missing.2.2)

/-- The call of a block is collected exactly if it arrives. -/
theorem arrives_iff {index : Nat} :
    block.toolCall = none ∨
      index < maxToolCallBuilders ∧ block.collectedCall serde = block.toolCall ↔
        block.Arrives index := by
  cases block with
  | text start deltas => exact iff_of_true (.inl rfl) trivial
  | unsupported deltas => exact iff_of_true (.inl rfl) trivial
  | toolUse id name input fragments =>
    constructor
    · rintro (none | ⟨small, same⟩)
      · cases none
      · by_cases missing : id = [] ∨ name = [] ∨ Blank fragments.flatten
        · rw [collectedCall_none rejects missing] at same
          cases same
        · rw [not_or, not_or] at missing
          exact ⟨small, missing⟩
    · rintro ⟨small, hasId, hasName, visible⟩
      exact .inr ⟨small, collectedCall_some streamed hasId hasName visible⟩

end

theorem parse_toolCalls (blocks : List (StreamedBlock Number)) :
    (parseContentBlocks (blocks.map StreamedBlock.response)).filter isToolUse =
      blocks.filterMap StreamedBlock.toolCall := by
  induction blocks with
  | nil => rfl
  | cons block rest ih =>
    cases block with
    | text start deltas => exact ih
    | toolUse id name input fragments => exact congrArg (_ :: ·) ih
    | unsupported deltas => exact ih

/-- The texts of the blocks, one after the other. -/
def texts (blocks : List (ContentBlock Number)) : List (List Char) :=
  blocks.filterMap fun block =>
    match block with
    | .text text => some text
    | .toolUse _ _ _ => none

theorem parse_texts (blocks : List (StreamedBlock Number)) :
    (texts (parseContentBlocks (blocks.map StreamedBlock.response))).flatten =
      blocks.flatMap StreamedBlock.textOf := by
  induction blocks with
  | nil => rfl
  | cons block rest ih =>
    rw [flatMap_cons, ← ih]
    cases block with
    | text start deltas => rfl
    | toolUse id name input fragments => rfl
    | unsupported deltas => rfl

/-- Behind some text every further text block is set off by a line feed. -/
theorem joinTexts_behind {text : List Char} (some : text ≠ []) (blocks : List (ContentBlock Number)) :
    joinTexts text blocks = text ++ (texts blocks).flatMap ('\n' :: ·) := by
  induction blocks generalizing text with
  | nil => simp [joinTexts, texts]
  | cons block rest ih =>
    cases block with
    | text other =>
      rw [joinTexts, if_neg some, ih (by simp)]
      simp [texts]
    | toolUse id name input =>
      rw [joinTexts, ih some]
      rfl

theorem length_flatten_le (separator : Char) (parts : List (List Char)) :
    parts.flatten.length ≤ (parts.flatMap (separator :: ·)).length := by
  induction parts with
  | nil => exact Nat.le_refl _
  | cons part rest ih =>
    simp only [flatten_cons, flatMap_cons, length_append, length_cons]
    omega

/-- No text block stands behind text. -/
def NoTextBehindText (blocks : List (ContentBlock Number)) : Prop :=
  ∀ front text back, texts blocks = front ++ text :: back → front.flatten = []

/-- The joined text has no line feeds of its own exactly if no text block stands behind text. -/
theorem joinTexts_eq_iff (blocks : List (ContentBlock Number)) :
    joinTexts [] blocks = (texts blocks).flatten ↔ NoTextBehindText blocks := by
  induction blocks with
  | nil => simp [joinTexts, texts, NoTextBehindText]
  | cons block rest ih =>
    cases block with
    | toolUse id name input => exact ih
    | text text =>
      have cut : texts (.text text :: rest) = text :: texts rest := rfl
      rw [joinTexts, if_pos rfl, nil_append, NoTextBehindText, cut, flatten_cons]
      by_cases empty : text = []
      · subst empty
        rw [nil_append, ih, NoTextBehindText]
        constructor
        · intro all front other back same
          cases front with
          | nil => rfl
          | cons first front =>
            obtain ⟨rfl, behind⟩ := List.cons.inj same
            exact all front other back behind
        · intro all front other back same
          exact all ([] :: front) other back (by rw [same]; rfl)
      · rw [joinTexts_behind empty, append_cancel_left_eq]
        cases later : texts rest with
        | nil =>
          refine iff_of_true rfl ?_
          intro front other back same
          cases front with
          | nil => rfl
          | cons first front => simp at same
        | cons next others =>
          refine iff_of_false ?_ ?_
          · intro same
            have lengths := congrArg List.length same
            have longer := length_flatten_le '\n' others
            simp only [flatMap_cons, flatten_cons, length_append, length_cons] at lengths
            omega
          · intro all
            exact empty (by simpa using all [text] next others rfl)

theorem textFromContentBlocks_getD (blocks : List (ContentBlock Number)) :
    (textFromContentBlocks blocks).getD [] = joinTexts [] blocks := by
  rw [textFromContentBlocks]
  split
  · rename_i empty
    rw [empty]
    rfl
  · rfl

/-- The stream gives the tool calls and the text of the blocks exactly if every tool call
arrives; and the text of its response is that of the other response exactly if no text
block stands behind text. -/
theorem collected_iff {reader : PayloadReader} {blocks : List (StreamedBlock Number)}
    {sse : List (List Char × List Char)} (rejects : ∀ text, Blank text → serde.fromStr text = none)
    (streamed : ∀ block ∈ blocks, block.WellStreamed serde) (caps : BlocksWithinCaps blocks)
    (sent : Sends reader blocks sse) :
    ((collected serde reader sse).contentBlocks.filter isToolUse =
          (parseContentBlocks (blocks.map StreamedBlock.response)).filter isToolUse ∧
        (collected serde reader sse).text =
          (texts (parseContentBlocks (blocks.map StreamedBlock.response))).flatten ↔
      ∀ (index : Nat) (block : StreamedBlock Number), blocks[index]? = some block →
        block.Arrives index) ∧
    ((collected serde reader sse).text =
        (textFromContentBlocks (parseContentBlocks (blocks.map StreamedBlock.response))).getD [] ↔
      NoTextBehindText (parseContentBlocks (blocks.map StreamedBlock.response))) := by
  obtain ⟨text, calls⟩ := @collected_eq _ serde _ _ _ caps sent
  have missing : ∀ block ∈ blocks, block.collectedCall serde = block.toolCall ∨
      block.collectedCall serde = none :=
    fun block member => collectedCall_cases rejects (streamed block member)
  constructor
  · rw [text, parse_texts, and_iff_left rfl, calls, parse_toolCalls, filterMap_take_eq_iff missing]
    constructor
    · intro all index block found
      exact (arrives_iff rejects (streamed block (mem_of_getElem? found))).mp
        (all index block found)
    · intro all index block found
      exact (arrives_iff rejects (streamed block (mem_of_getElem? found))).mpr
        (all index block found)
  · rw [text, textFromContentBlocks_getD, ← joinTexts_eq_iff, parse_texts]
    exact eq_comm

/-- The start of a call of a tool without an input so far. -/
def clockStart : List Char :=
  "\x7b\"index\":0,\"content_block\":\x7b\"type\":\"tool_use\",\"id\":\"t1\",\"name\":\"clock\",\"input\":\x7b\x7d\x7d\x7d".toList

def clockDelta : List Char :=
  "\x7b\"index\":0,\"delta\":\x7b\"type\":\"input_json_delta\",\"partial_json\":\"\x7b\\\"utc\\\":0\x7d\"\x7d\x7d".toList

def emptyDelta : List Char :=
  "\x7b\"index\":0,\"delta\":\x7b\"type\":\"input_json_delta\",\"partial_json\":\"\"\x7d\x7d".toList

def clockArguments : List Char := "\x7b\"utc\":0\x7d".toList

def clockReader : PayloadReader where
  messageStart _ := none
  contentBlockStart data :=
    if data = clockStart then some ⟨0, .toolUse "t1".toList "clock".toList⟩ else none
  contentBlockDelta data :=
    if data = clockDelta then some ⟨0, .inputJsonDelta clockArguments⟩
    else if data = emptyDelta then some ⟨0, .inputJsonDelta []⟩
    else none
  messageDelta _ := none

def clockSerde : Serde Nat where
  fromStr text :=
    if text = clockArguments then some (.object [("utc".toList, .number 0)]) else none
  toText _ := []

def clockSse : List (List Char × List Char) :=
  [("content_block_start".toList, clockStart), ("content_block_delta".toList, emptyDelta),
    ("content_block_delta".toList, clockDelta), ("content_block_stop".toList, [])]

def clockBlock : StreamedBlock Nat :=
  .toolUse "t1".toList "clock".toList (.object [("utc".toList, .number 0)])
    [[], clockArguments]

theorem clockSerde_rejects (text : List Char) (blank : Blank text) :
    clockSerde.fromStr text = none := by
  apply if_neg
  rintro rfl
  exact absurd (blank '"' (by decide +kernel)) (by decide)

/-- A call with an argument is collected. -/
theorem collected_clock :
    (collected clockSerde clockReader clockSse).contentBlocks.filter isToolUse =
      (parseContentBlocks ([clockBlock].map StreamedBlock.response)).filter isToolUse := by
  have read : clockSerde.fromStr [[], clockArguments].flatten =
      some (.object [("utc".toList, .number 0)]) := by
    have whole : [[], clockArguments].flatten = clockArguments := List.append_nil _
    rw [whole]
    show (if clockArguments = clockArguments then some _ else none) = some _
    exact if_pos rfl
  have streamed : ∀ block ∈ [clockBlock], block.WellStreamed clockSerde :=
    List.forall_mem_singleton.mpr (.inl read)
  have caps : BlocksWithinCaps [clockBlock] :=
    ⟨by decide +kernel, by decide +kernel, by decide +kernel⟩
  have sent : Sends clockReader [clockBlock] clockSse := by
    rw [Sends]
    decide +kernel
  refine ((collected_iff clockSerde_rejects streamed caps sent).1.mpr ?_).1
  rw [forall_getElem?_cons]
  refine ⟨⟨by decide, by decide, by decide, ?_⟩, fun index block found => by cases found⟩
  intro blank
  exact absurd (blank '"' (by decide +kernel)) (by decide)

def emptyBlock : StreamedBlock Nat :=
  .toolUse "t1".toList "clock".toList (.object []) [[]]

def emptySse : List (List Char × List Char) :=
  [("content_block_start".toList, clockStart), ("content_block_delta".toList, emptyDelta)]

/-- A call without arguments is lost: its JSON is empty. -/
theorem call_without_arguments_lost :
    Sends clockReader [emptyBlock] emptySse ∧ emptyBlock.WellStreamed clockSerde ∧
      (collected clockSerde clockReader emptySse).contentBlocks.filter isToolUse = [] ∧
      (parseContentBlocks ([emptyBlock].map StreamedBlock.response)).filter isToolUse ≠ [] := by
  refine ⟨?_, .inr ⟨rfl, forall_mem_nil _⟩, by decide +kernel, by decide +kernel⟩
  rw [Sends]
  decide +kernel

end Reply

end Asterel.Anthropic
