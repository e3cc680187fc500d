import Asterel.Core.SessionCompaction
import Asterel.Providers.StreamCollector
import Asterel.Security.ScrubSeams

/-!
# The streamed replies of the OpenAI-compatible providers

A reply comes as one response, or as chunks that bring its text, its tool calls, its
finish reason and its usage in parts. The events of the chunks are put in relation to what
the chunks bring.
-/

namespace Asterel.OpenAi

open Library Library.Text Streaming List
open ToolProtocol (Value Serde)
open Chunker (byteLength)
open Scrub (scrubSecrets)

variable {Number : Type}

structure Usage where
  promptTokens : Nat
  completionTokens : Nat
deriving DecidableEq

structure OpenAiToolCallFunction where
  name : List Char
  arguments : List Char

structure OpenAiToolCall where
  id : List Char
  function : OpenAiToolCallFunction

structure ResponseMessage where
  content : Option (List Char)
  toolCalls : Option (List OpenAiToolCall)

structure Choice where
  message : ResponseMessage
  finishReason : Option (List Char)

structure ChatResponse where
  choices : List Choice
  usage : Option Usage
  model : Option (List Char)

structure ChunkToolCallFunction where
  name : Option (List Char)
  arguments : Option (List Char)

structure ChunkToolCall where
  index : Nat
  id : Option (List Char)
  function : Option ChunkToolCallFunction

structure ChunkDelta where
  content : Option (List Char)
  toolCalls : Option (List ChunkToolCall)

structure ChunkChoice where
  delta : ChunkDelta
  finishReason : Option (List Char)

structure ChatCompletionChunk where
  model : Option (List Char)
  choices : List ChunkChoice
  usage : Option Usage

inductive ProviderError where
  | emptyResponse (provider : List Char)
  | message (text : List Char)

def mapFinishReason (finishReason : Option (List Char)) : StopReason :=
  match finishReason with
  | none => .error
  | some reason =>
    if reason = "stop".toList then .endTurn
    else if reason = "tool_calls".toList then .toolUse
    else if reason = "length".toList then .maxTokens
    else .error

section Response

def parseToolCall (serde : Serde Number) (providerName : List Char) (toolCall : OpenAiToolCall) :
    Except ProviderError (ContentBlock Number) :=
  match serde.fromStr toolCall.function.arguments with
  | none =>
    .error (.message (providerName ++ " tool call arguments were not valid JSON for ".toList ++
      toolCall.function.name))
  | some input => .ok (.toolUse toolCall.id toolCall.function.name input)

/-- The first call without valid arguments fails. -/
def collectToolCalls (serde : Serde Number) (providerName : List Char) :
    List OpenAiToolCall → Except ProviderError (List (ContentBlock Number))
  | [] => .ok []
  | toolCall :: rest => do
    let block ← parseToolCall serde providerName toolCall
    let blocks ← collectToolCalls serde providerName rest
    return block :: blocks

def parseToolCalls (serde : Serde Number) (toolCalls : Option (List OpenAiToolCall))
    (providerName : List Char) : Except ProviderError (List (ContentBlock Number)) :=
  collectToolCalls serde providerName (toolCalls.getD [])

def providerResponseWithUsage (text : List Char) (usage : Option Usage) :
    ProviderResponse Number :=
  { text := text
    inputTokens := usage.map Usage.promptTokens
    outputTokens := usage.map Usage.completionTokens
    model := none
    contentBlocks := []
    stopReason := none }

def buildToolProviderResponse (serde : Serde Number) (chatResponse : ChatResponse)
    (providerName : List Char) : Except ProviderError (ProviderResponse Number) :=
  match chatResponse.choices with
  | [] => .error (.emptyResponse providerName)
  | choice :: _ => do
    let scrubbedText := scrubSecrets (choice.message.content.getD [])
    let toolCalls ← parseToolCalls serde choice.message.toolCalls providerName
    let contentBlocks := if scrubbedText = [] then toolCalls else .text scrubbedText :: toolCalls
    let providerResponse : ProviderResponse Number :=
      providerResponseWithUsage scrubbedText chatResponse.usage
    return { providerResponse with
      contentBlocks := contentBlocks
      stopReason := some (mapFinishReason choice.finishReason)
      model := chatResponse.model }

end Response

section Stream

def parseSseField (line fieldName : List Char) : Option (List Char) :=
  match line.dropPrefix? fieldName with
  | none => none
  | some named =>
    match named.dropPrefix? [':'] with
    | none => none
    | some rest => some (trimEnd ((rest.dropPrefix? [' ']).getD rest))

def parseDataLines (eventBlock : List Char) : List (List Char) :=
  (Sessions.lines eventBlock).filterMap fun line => parseSseField line "data".toList

def parseDataLinesNoDone (eventBlock : List Char) : List (List Char) :=
  (parseDataLines eventBlock).filter fun data => data ≠ "[DONE]".toList

/-- `serde_json::from_str` at the type of the chunks. -/
abbrev ChunkReader := List Char → Except (List Char) ChatCompletionChunk

def contentEvents (content : Option (List Char)) : List (StreamEvent Number) :=
  match content with
  | none => []
  | some content => if content = [] then [] else [.textDelta (scrubSecrets content)]

def toolCallEvent (toolCall : ChunkToolCall) : StreamEvent Number :=
  .toolCallDelta toolCall.index toolCall.id (toolCall.function.bind fun function => function.name)
    ((toolCall.function.bind fun function => function.arguments).getD [])

def finishEvents (usage : Option Usage) (finishReason : Option (List Char)) :
    List (StreamEvent Number) :=
  match finishReason with
  | none => []
  | some finish =>
    [.done (some (mapFinishReason (some finish))) (usage.map Usage.promptTokens)
      (usage.map Usage.completionTokens)]

def choiceEvents (usage : Option Usage) (choice : ChunkChoice) : List (StreamEvent Number) :=
  contentEvents choice.delta.content ++ ((choice.delta.toolCalls.getD []).map toolCallEvent ++
    finishEvents usage choice.finishReason)

/-- The events of a chunk. The first chunk of a stream also gives the model. -/
def chunkEvents (sentStart : Bool) (chunk : ChatCompletionChunk) : List (StreamEvent Number) :=
  (if sentStart then [] else [.responseStart chunk.model]) ++
    chunk.choices.flatMap (choiceEvents chunk.usage)

/-- The loop over the data lines of a block, with the flag behind it. -/
def eventsFromData (reader : ChunkReader) (sentStart : Bool) :
    List (List Char) → Except ProviderError (List (StreamEvent Number) × Bool)
  | [] => .ok ([], sentStart)
  | data :: rest =>
    match reader data with
    | .error error =>
      .error (.message
        ("OpenAI-compatible stream returned malformed SSE JSON chunk: ".toList ++ error))
    | .ok chunk => do
      let later ← eventsFromData reader true rest
      return (chunkEvents sentStart chunk ++ later.1, later.2)

def eventsFromOpenAiSseBlock (reader : ChunkReader) (eventBlock : List Char) (sentStart : Bool) :
    Except ProviderError (List (StreamEvent Number) × Bool) :=
  eventsFromData reader sentStart (parseDataLinesNoDone eventBlock)

/-- `sse_response_to_provider_stream` over the event blocks of the buffer: the events
before the error that ends the stream, and the error. -/
def providerStream (reader : ChunkReader) (sentStart : Bool) :
    List (List Char) → List (StreamEvent Number) × Option ProviderError
  | [] => ([], none)
  | eventBlock :: rest =>
    match eventsFromOpenAiSseBlock reader eventBlock sentStart with
    | .error error => ([], some error)
    | .ok (events, sent) =>
      let later := providerStream reader sent rest
      (events ++ later.1, later.2)

/-- The response collected from a stream. -/
def collected (serde : Serde Number) (reader : ChunkReader) (eventBlocks : List (List Char)) :
    Except ProviderError (ProviderResponse Number) :=
  match providerStream reader false eventBlocks with
  | (events, none) => .ok (collect serde events)
  | (_, some error) => .error error

end Stream

section Chunks

/-- The choices of the chunks, one after the other. -/
def choices (chunks : List ChatCompletionChunk) : List ChunkChoice :=
  chunks.flatMap ChatCompletionChunk.choices

def contents (chunks : List ChatCompletionChunk) : List (List Char) :=
  (choices chunks).filterMap fun choice => choice.delta.content

/-- The fragments of the tool calls. -/
def fragments (chunks : List ChatCompletionChunk) : List ChunkToolCall :=
  (choices chunks).flatMap fun choice => choice.delta.toolCalls.getD []

/-- The finish reasons, each with the usage of its chunk. -/
def finishes (chunks : List ChatCompletionChunk) : List (List Char × Option Usage) :=
  chunks.flatMap fun chunk => chunk.choices.filterMap fun choice =>
    choice.finishReason.map fun reason => (reason, chunk.usage)

def ChunkToolCall.name (fragment : ChunkToolCall) : Option (List Char) :=
  fragment.function.bind fun function => function.name

def ChunkToolCall.arguments (fragment : ChunkToolCall) : List Char :=
  (fragment.function.bind fun function => function.arguments).getD []

/-- The fragments bring a tool call: its id and its name, once or more often, and its
arguments in parts. -/
structure BringsCall (call : OpenAiToolCall) (fragments : List ChunkToolCall) : Prop where
  idGiven : fragments.filterMap ChunkToolCall.id ≠ []
  id : ∀ id ∈ fragments.filterMap ChunkToolCall.id, id = call.id
  nameGiven : fragments.filterMap ChunkToolCall.name ≠ []
  name : ∀ name ∈ fragments.filterMap ChunkToolCall.name, name = call.function.name
  arguments : fragments.flatMap ChunkToolCall.arguments = call.function.arguments

/-- The chunks bring a response in parts: the text, every tool call under its index, the
finish reason in one of them, and the usage in the last one that has any. -/
structure Brings (choice : Choice) (usage : Option Usage) (chunks : List ChatCompletionChunk) :
    Prop where
  content : (contents chunks).flatten = choice.message.content.getD []
  calls : ∀ index call, (choice.message.toolCalls.getD [])[index]? = some call →
    BringsCall call ((fragments chunks).filter fun fragment => fragment.index = index)
  noOther : ∀ fragment ∈ fragments chunks,
    fragment.index < (choice.message.toolCalls.getD []).length
  finish : (finishes chunks).map Prod.fst = choice.finishReason.toList
  usage : (chunks.filterMap ChatCompletionChunk.usage).getLast? = usage

/-- The data lines of the event blocks are the chunks. -/
def Sends (reader : ChunkReader) (chunks : List ChatCompletionChunk)
    (eventBlocks : List (List Char)) : Prop :=
  (eventBlocks.flatMap parseDataLinesNoDone).map reader = chunks.map .ok

end Chunks

section Events

variable {reader : ChunkReader} {eventBlocks : List (List Char)} {chunks : List ChatCompletionChunk}

/-- The events of a list of chunks. -/
def allEvents (sentStart : Bool) : List ChatCompletionChunk → List (StreamEvent Number)
  | [] => []
  | chunk :: rest => chunkEvents sentStart chunk ++ allEvents true rest

theorem allEvents_append (sentStart : Bool) (front back : List ChatCompletionChunk) :
    (allEvents sentStart (front ++ back) : List (StreamEvent Number)) =
      allEvents sentStart front ++ allEvents (sentStart || !front.isEmpty) back := by
  induction front generalizing sentStart with
  | nil =>
    rw [isEmpty_nil, Bool.not_true, Bool.or_false]
    rfl
  | cons chunk rest ih =>
    rw [cons_append, allEvents, allEvents, ih, append_assoc,
      Bool.true_or, isEmpty_cons, Bool.not_false, Bool.or_true]

/-- Data lines that are chunks give the events of the chunks. -/
theorem eventsFromData_chunks {lines : List (List Char)} (read : lines.map reader = chunks.map .ok)
    (sentStart : Bool) :
    (eventsFromData reader sentStart lines : Except _ (List (StreamEvent Number) × Bool)) =
      .ok (allEvents sentStart chunks, sentStart || !chunks.isEmpty) := by
  induction lines generalizing chunks sentStart with
  | nil =>
    cases chunks with
    | nil =>
      rw [isEmpty_nil, Bool.not_true, Bool.or_false]
      rfl
    | cons chunk rest => cases read
  | cons data rest ih =>
    cases chunks with
    | nil => cases read
    | cons chunk chunks =>
      obtain ⟨first, others⟩ := List.cons.inj read
      rw [eventsFromData, first]
      dsimp only
      rw [ih others true, Bool.true_or, isEmpty_cons, Bool.not_false, Bool.or_true]
      rfl

/-- A stream that sends chunks gives their events and no error. -/
theorem providerStream_chunks (sent : Sends reader chunks eventBlocks) (sentStart : Bool) :
    (providerStream reader sentStart eventBlocks : List (StreamEvent Number) × _) =
      (allEvents sentStart chunks, none) := by
  induction eventBlocks generalizing chunks sentStart with
  | nil =>
    cases chunks with
    | nil => rfl
    | cons chunk rest => cases sent
  | cons eventBlock rest ih =>
    rw [Sends, flatMap_cons, map_append] at sent
    obtain ⟨front, back, rfl, here, later⟩ := map_eq_append_iff.mp sent.symm
    rw [providerStream, eventsFromOpenAiSseBlock, eventsFromData_chunks here.symm]
    dsimp only
    rw [ih later.symm, allEvents_append]

theorem collected_chunks (serde : Serde Number) (sent : Sends reader chunks eventBlocks) :
    collected serde reader eventBlocks = .ok (collect serde (allEvents false chunks)) := by
  rw [collected, providerStream_chunks sent]

end Events

section Contents

variable (sentStart : Bool) (list : List ChunkChoice) (index : Nat) (usage : Option Usage)

/-- What a choice brings of the text and the tool calls. -/
def deltaEvents (choice : ChunkChoice) : List (StreamEvent Number) :=
  contentEvents choice.delta.content ++ (choice.delta.toolCalls.getD []).map toolCallEvent

theorem deltaEvents_content (choice : ChunkChoice) :
    ∀ event ∈ (deltaEvents choice : List (StreamEvent Number)), isContent event = true := by
  intro event member
  rcases mem_append.mp member with text | call
  · rw [contentEvents.eq_def] at text
    split at text
    · cases text
    · split at text
      · cases text
      · rw [mem_singleton.mp text]
        rfl
  · obtain ⟨fragment, _, rfl⟩ := mem_map.mp call
    rfl

theorem choiceEvents_content (choice : ChunkChoice) :
    (choiceEvents usage choice : List (StreamEvent Number)).filter isContent =
      deltaEvents choice := by
  have ends : (finishEvents usage choice.finishReason : List (StreamEvent Number)).filter
      isContent = [] := by
    rw [finishEvents.eq_def]
    split <;> rfl
  have whole : (choiceEvents usage choice : List (StreamEvent Number)) =
      deltaEvents choice ++ finishEvents usage choice.finishReason := (append_assoc _ _ _).symm
  rw [whole, filter_append, ends, append_nil, filter_eq_self.mpr (deltaEvents_content choice)]

theorem allEvents_content (chunks : List ChatCompletionChunk) :
    (allEvents sentStart chunks : List (StreamEvent Number)).filter isContent =
      (choices chunks).flatMap deltaEvents := by
  induction chunks generalizing sentStart with
  | nil => rfl
  | cons chunk rest ih =>
    have start : (if sentStart then [] else [@StreamEvent.responseStart Number chunk.model]).filter
        isContent = [] := by
      split <;> rfl
    have cut : choices (chunk :: rest) = chunk.choices ++ choices rest := flatMap_cons
    rw [allEvents, chunkEvents, filter_append, filter_append, start, nil_append,
      ih, cut, flatMap_append, filter_flatMap]
    congr 2
    funext choice
    exact choiceEvents_content chunk.usage choice

theorem scrubSecrets_nil : scrubSecrets [] = [] := by
  rw [Scrub.scrubSecrets_eq, Scrub.scrubMarkers_nil, Scrub.pem_none (by decide)]

/-- The text of the choices is scrubbed delta by delta. -/
theorem textOf_choices :
    textOf (list.flatMap deltaEvents : List (StreamEvent Number)) =
      (list.filterMap fun choice => choice.delta.content).flatMap scrubSecrets := by
  induction list with
  | nil => rfl
  | cons choice rest ih =>
    have calls : textOf ((choice.delta.toolCalls.getD []).map toolCallEvent :
        List (StreamEvent Number)) = [] := by
      rw [textOf, flatMap_map]
      exact flatMap_eq_nil_iff.mpr fun _ _ => rfl
    rw [flatMap_cons, textOf_append, ih, deltaEvents, textOf_append, calls,
      append_nil, filterMap_cons]
    cases choice.delta.content with
    | none => rfl
    | some content =>
      by_cases empty : content = []
      · simp [contentEvents, empty, textOf, scrubSecrets_nil]
      · simp [contentEvents, empty, textOf]

theorem completed_choices :
    completed (list.flatMap deltaEvents : List (StreamEvent Number)) = [] := by
  induction list with
  | nil => rfl
  | cons choice rest ih =>
    have calls : completed ((choice.delta.toolCalls.getD []).map toolCallEvent :
        List (StreamEvent Number)) = [] := by
      rw [completed, flatMap_map]
      exact flatMap_eq_nil_iff.mpr fun _ _ => rfl
    have text : completed (contentEvents choice.delta.content : List (StreamEvent Number)) = [] := by
      rw [contentEvents.eq_def]
      split
      · rfl
      · split <;> rfl
    rw [flatMap_cons, completed_append, ih, deltaEvents, completed_append, calls, text]
    rfl

/-- The bytes that a fragment adds to the arguments. -/
def fragmentBytes (fragment : ChunkToolCall) : Nat :=
  if fragment.index < maxToolCallBuilders then byteLength fragment.arguments else 0

/-- The text says nothing about the tool calls. -/
theorem jsonBytes_choices :
    ((list.flatMap deltaEvents : List (StreamEvent Number)).map jsonBytes).sum =
      ((list.flatMap fun choice => choice.delta.toolCalls.getD []).map fragmentBytes).sum := by
  induction list with
  | nil => rfl
  | cons choice rest ih =>
    have text : ((contentEvents choice.delta.content : List (StreamEvent Number)).map jsonBytes).sum =
        0 := by
      rw [contentEvents.eq_def]
      split
      · rfl
      · split <;> rfl
    have calls : ((choice.delta.toolCalls.getD []).map toolCallEvent :
        List (StreamEvent Number)).map jsonBytes =
          (choice.delta.toolCalls.getD []).map fragmentBytes := map_map
    rw [flatMap_cons, flatMap_cons, map_append, map_append, sum_append,
      sum_append, ih, deltaEvents, map_append, sum_append, text,
      calls, Nat.zero_add]

theorem assemble_choices (list : List ChunkChoice) (builder : ToolCallBuilder) :
    (list.flatMap deltaEvents : List (StreamEvent Number)).foldl (assemble index) builder =
      ((list.flatMap fun choice => choice.delta.toolCalls.getD []).map toolCallEvent :
        List (StreamEvent Number)).foldl (assemble index) builder := by
  induction list generalizing builder with
  | nil => rfl
  | cons choice rest ih =>
    have text : (contentEvents choice.delta.content : List (StreamEvent Number)).foldl
        (assemble index) builder = builder := by
      rw [contentEvents.eq_def]
      split
      · rfl
      · split <;> rfl
    rw [flatMap_cons, flatMap_cons, map_append, foldl_append,
      foldl_append, ih, deltaEvents, foldl_append, text]

/-- The last of the values that are given. -/
theorem getLast?_filterMap_cons {α β : Type} (value : α → Option β) (first : α) (rest : List α)
    (default : β) :
    (((first :: rest).filterMap value).getLast?).getD default =
      ((rest.filterMap value).getLast?).getD ((value first).getD default) := by
  rw [filterMap_cons]
  cases value first with
  | none => rfl
  | some given =>
    show ((given :: rest.filterMap value).getLast?).getD default = _
    rw [List.getLast?_cons]
    rfl

/-- What the fragments say about a tool call. -/
theorem assemble_fragments (list : List ChunkToolCall) (builder : ToolCallBuilder) :
    (list.map toolCallEvent : List (StreamEvent Number)).foldl (assemble index) builder =
      let own := list.filter fun fragment => fragment.index = index
      ⟨((own.filterMap ChunkToolCall.id).getLast?).getD builder.id,
        ((own.filterMap ChunkToolCall.name).getLast?).getD builder.name,
        builder.inputJson ++ own.flatMap ChunkToolCall.arguments⟩ := by
  induction list generalizing builder with
  | nil =>
    show builder = ⟨builder.id, builder.name, builder.inputJson ++ []⟩
    rw [append_nil]
  | cons fragment rest ih =>
    rw [map_cons, foldl_cons, ih, toolCallEvent, assemble]
    by_cases same : fragment.index = index
    · have own : (fragment :: rest).filter (fun fragment => fragment.index = index) =
          fragment :: rest.filter (fun fragment => fragment.index = index) := by
        simp [same]
      dsimp only
      rw [own, if_pos same, getLast?_filterMap_cons, getLast?_filterMap_cons, flatMap_cons,
        ← append_assoc]
      rfl
    · have own : (fragment :: rest).filter (fun fragment => fragment.index = index) =
          rest.filter (fun fragment => fragment.index = index) := by
        simp [same]
      rw [own, if_neg same]

/-- The end of the reply is the last finish reason with the usage of its chunk. -/
def endOf (_last : Option StopReason × Option Nat × Option Nat)
    (finish : List Char × Option Usage) : Option StopReason × Option Nat × Option Nat :=
  (some (mapFinishReason (some finish.1)), finish.2.map Usage.promptTokens,
    finish.2.map Usage.completionTokens)

theorem endStep_content {event : StreamEvent Number} (content : isContent event = true)
    (last : Option StopReason × Option Nat × Option Nat) : endStep last event = last := by
  cases event with
  | done => cases content
  | responseStart => rfl
  | textDelta => rfl
  | toolCallDelta => rfl
  | toolCallComplete => rfl

theorem foldl_endStep_choice (choice : ChunkChoice)
    (last : Option StopReason × Option Nat × Option Nat) :
    (choiceEvents usage choice : List (StreamEvent Number)).foldl endStep last =
      ((choice.finishReason.map fun reason => (reason, usage)).toList).foldl endOf last := by
  have whole : (choiceEvents usage choice : List (StreamEvent Number)) =
      deltaEvents choice ++ finishEvents usage choice.finishReason := (append_assoc _ _ _).symm
  have delta : (deltaEvents choice : List (StreamEvent Number)).foldl endStep last = last := by
    apply foldl_unchanged
    intro event member
    exact endStep_content (deltaEvents_content choice event member)
  rw [whole, foldl_append, delta]
  cases choice.finishReason with
  | none => rfl
  | some reason => rfl

theorem foldl_endStep_choices (list : List ChunkChoice)
    (last : Option StopReason × Option Nat × Option Nat) :
    (list.flatMap (choiceEvents usage) : List (StreamEvent Number)).foldl endStep last =
      (list.filterMap fun choice => choice.finishReason.map fun reason => (reason, usage)).foldl
        endOf last := by
  induction list generalizing last with
  | nil => rfl
  | cons choice rest ih =>
    rw [flatMap_cons, foldl_append, foldl_endStep_choice, ih, filterMap_cons]
    cases choice.finishReason with
    | none => rfl
    | some reason => rfl

theorem foldl_endStep_chunks (chunks : List ChatCompletionChunk)
    (last : Option StopReason × Option Nat × Option Nat) :
    (allEvents sentStart chunks : List (StreamEvent Number)).foldl endStep last =
      (finishes chunks).foldl endOf last := by
  induction chunks generalizing sentStart last with
  | nil => rfl
  | cons chunk rest ih =>
    have start : (if sentStart then [] else [@StreamEvent.responseStart Number chunk.model]).foldl
        endStep last = last := by
      split <;> rfl
    rw [allEvents, chunkEvents, foldl_append, foldl_append, start,
      foldl_endStep_choices, ih, ← foldl_append]
    rfl

end Contents

end Asterel.OpenAi
