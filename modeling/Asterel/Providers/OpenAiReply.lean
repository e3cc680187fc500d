import Asterel.Providers.OpenAiStream

/-!
# The two replies of the OpenAI-compatible providers

The response collected from the chunks is the one of the other parser when the chunk with
the finish reason brings the usage too, the text is scrubbed delta by delta as it is as a
whole, and every tool call has a place, an id, a name and valid arguments.
-/

namespace Asterel.OpenAi

open Library Library.Text Streaming List
open ToolProtocol (Value Serde)
open Chunker (byteLength)
open Scrub (scrubSecrets)

variable {Number : Type}
variable (serde : Serde Number)

/-- What the chunks bring fits into the caps of the collector, the text behind scrubbing. -/
structure ChunksWithinCaps (chunks : List ChatCompletionChunk) : Prop where
  text : byteLength ((contents chunks).flatMap scrubSecrets) ≤ maxStreamTextBytes
  arguments : ∀ index < maxToolCallBuilders,
    byteLength (((fragments chunks).filter fun fragment => fragment.index = index).flatMap
      ChunkToolCall.arguments) ≤ maxToolCallInputJsonBytes
  total : ((fragments chunks).map fragmentBytes).sum ≤ maxTotalToolCallInputJsonBytes

/-- The same text, tool calls, stop reason and token counts. -/
structure Agrees (streamed response : ProviderResponse Number) : Prop where
  text : streamed.text = response.text
  toolCalls : streamed.contentBlocks.filter isToolUse = response.contentBlocks.filter isToolUse
  stopReason : streamed.stopReason = response.stopReason
  inputTokens : streamed.inputTokens = response.inputTokens
  outputTokens : streamed.outputTokens = response.outputTokens

/-- There is a finish reason, and its chunk brings the usage. -/
def FinishesWithUsage (usage : Option Usage) (chunks : List ChatCompletionChunk) : Prop :=
  ∃ reason, finishes chunks = [(reason, usage)]

/-- Every call has a place in the collector, an id, a name and arguments that are JSON. -/
def CallsArrive (serde : Serde Number) (calls : List OpenAiToolCall) : Prop :=
  calls.length ≤ maxToolCallBuilders ∧ ∀ call ∈ calls, call.id ≠ [] ∧ call.function.name ≠ [] ∧
      (serde.fromStr call.function.arguments).isSome

/-- Scrubbing the deltas one by one scrubs the text. -/
def ScrubbedApart (deltas : List (List Char)) : Prop :=
  deltas.flatMap scrubSecrets = scrubSecrets deltas.flatten

/-- The deltas are scrubbed one by one where no secret lies across a seam of theirs. -/
theorem scrubbedApart_of_seams {deltas : List (List Char)}
    (seams : ∀ front delta back, deltas = front ++ delta :: back →
      Scrub.TokenSeam delta back.flatten ∧ Scrub.BlockSeam (Scrub.scrubMarkers Scrub.passes delta)
          (Scrub.scrubMarkers Scrub.passes back.flatten)) : ScrubbedApart deltas := by
  induction deltas with
  | nil => exact scrubSecrets_nil.symm
  | cons delta rest ih =>
    obtain ⟨tokens, blocks⟩ := seams [] delta rest rfl
    have later : ScrubbedApart rest := ih fun front other back cut =>
      seams (delta :: front) other back (by rw [cut]; rfl)
    rw [ScrubbedApart, flatMap_cons, flatten_cons, Scrub.scrubSecrets_seam tokens blocks, later]

variable {choice : Choice} {usage : Option Usage} {chunks : List ChatCompletionChunk}

/-- What the chunks say about a tool call. -/
theorem builderAt_chunks (brings : Brings choice usage chunks) (index : Nat) :
    builderAt (allEvents false chunks : List (StreamEvent Number)) index =
      ((choice.message.toolCalls.getD [])[index]?).elim .empty fun call =>
        ⟨call.id, call.function.name, call.function.arguments⟩ := by
  obtain ⟨_, _, _, builders⟩ := contents_filter (allEvents false chunks : List (StreamEvent Number))
  rw [← builders, allEvents_content, builderAt, assemble_choices]
  have folded := @assemble_fragments Number index (fragments chunks) .empty
  rw [fragments] at folded
  rw [folded]
  dsimp only
  cases found : (choice.message.toolCalls.getD [])[index]? with
  | none =>
    have none : ((choices chunks).flatMap fun choice => choice.delta.toolCalls.getD []).filter
        (fun fragment => fragment.index = index) = [] := by
      rw [filter_eq_nil_iff]
      intro fragment member same
      have inside := brings.noOther fragment member
      have beyond := List.getElem?_eq_none_iff.mp found
      have index : fragment.index = index := of_decide_eq_true same
      omega
    rw [none]
    rfl
  | some call =>
    have given : ∀ {values : List (List Char)} {value default : List Char}, values ≠ [] →
        (∀ other ∈ values, other = value) → (values.getLast?).getD default = value := by
      intro values value default some all
      rw [getLast?_eq_getLast_of_ne_nil some]
      exact all _ (getLast_mem some)
    have brought := brings.calls index call found
    rw [fragments] at brought
    rw [given brought.idGiven brought.id, given brought.nameGiven brought.name, brought.arguments]
    rfl

theorem allEvents_contents (chunks : List ChatCompletionChunk) :
    textOf (allEvents false chunks : List (StreamEvent Number)) =
        (contents chunks).flatMap scrubSecrets ∧
      completed (allEvents false chunks : List (StreamEvent Number)) = [] ∧
      ((allEvents false chunks : List (StreamEvent Number)).map jsonBytes).sum =
        ((fragments chunks).map fragmentBytes).sum := by
  obtain ⟨text, calls, bytes, _⟩ :=
    contents_filter (allEvents false chunks : List (StreamEvent Number))
  rw [← text, ← calls, ← bytes, allEvents_content]
  exact ⟨textOf_choices _, completed_choices _, jsonBytes_choices _⟩

theorem withinCaps_chunks (caps : ChunksWithinCaps chunks) :
    WithinCaps (allEvents false chunks : List (StreamEvent Number)) := by
  obtain ⟨text, _, bytes⟩ := @allEvents_contents Number chunks
  obtain ⟨_, _, _, builders⟩ := contents_filter (allEvents false chunks : List (StreamEvent Number))
  constructor
  · rw [text]
    exact caps.text
  · intro index small
    have folded := @assemble_fragments Number index (fragments chunks) .empty
    rw [fragments] at folded
    rw [← builders, allEvents_content, builderAt, assemble_choices, folded]
    exact caps.arguments index small
  · rw [bytes]
    exact caps.total

/-- The call that the collector makes of a tool call. -/
def collectedCall (serde : Serde Number) (call : OpenAiToolCall) : Option (ContentBlock Number) :=
  ToolCallBuilder.intoContentBlock serde ⟨call.id, call.function.name, call.function.arguments⟩

theorem assembled_chunks (brings : Brings choice usage chunks) :
    assembled serde (allEvents false chunks) =
      ((choice.message.toolCalls.getD []).take maxToolCallBuilders).filterMap
        (collectedCall serde) := by
  rw [← filterMap_range, assembled]
  apply filterMap_congr
  intro index _
  rw [builderAt_chunks brings]
  cases (choice.message.toolCalls.getD [])[index]? with
  | none => exact empty_no_block serde
  | some call => rfl

/-- The call that the other parser makes of a tool call with valid arguments. -/
def parsedCall (serde : Serde Number) (call : OpenAiToolCall) : Option (ContentBlock Number) :=
  (serde.fromStr call.function.arguments).map (.toolUse call.id call.function.name)

/-- A call with valid arguments is parsed, and one without fails. -/
theorem parseToolCall_cases (providerName : List Char) (call : OpenAiToolCall) :
    (∃ error, parseToolCall serde providerName call = .error error ∧
        serde.fromStr call.function.arguments = none) ∨
      ∃ input, parseToolCall serde providerName call =
          .ok (.toolUse call.id call.function.name input) ∧
        serde.fromStr call.function.arguments = some input := by
  rw [parseToolCall]
  cases serde.fromStr call.function.arguments with
  | none => exact .inl ⟨_, rfl, rfl⟩
  | some input => exact .inr ⟨input, rfl, rfl⟩

/-- The calls are parsed exactly if all arguments are valid. -/
theorem collectToolCalls_ok (providerName : List Char)
    (calls : List OpenAiToolCall) (blocks : List (ContentBlock Number)) :
    collectToolCalls serde providerName calls = .ok blocks ↔
      (∀ call ∈ calls, (serde.fromStr call.function.arguments).isSome) ∧
        blocks = calls.filterMap (parsedCall serde) := by
  induction calls generalizing blocks with
  | nil =>
    have ends : collectToolCalls serde providerName [] = .ok blocks ↔ [] = blocks :=
      ⟨Except.ok.inj, congrArg _⟩
    rw [ends, filterMap_nil, eq_comm]
    exact (and_iff_right (forall_mem_nil _)).symm
  | cons call rest ih =>
    rw [collectToolCalls, forall_mem_cons, filterMap_cons, parsedCall]
    rcases parseToolCall_cases serde providerName call with ⟨error, failed, invalid⟩ |
      ⟨input, parsed, valid⟩
    · rw [failed, invalid]
      refine iff_of_false ?_ ?_
      · intro impossible
        cases impossible
      · rintro ⟨⟨impossible, _⟩, _⟩
        cases impossible
    · rw [parsed, valid]
      cases later : collectToolCalls serde providerName rest with
      | error error =>
        refine iff_of_false ?_ ?_
        · intro impossible
          cases impossible
        · rintro ⟨⟨_, others⟩, _⟩
          have whole := (ih _).mpr ⟨others, rfl⟩
          cases later.symm.trans whole
      | ok others =>
        obtain ⟨allValid, othersEq⟩ := (ih others).mp later
        have step : (do
            let block ← (Except.ok (.toolUse call.id call.function.name input) :
              Except ProviderError (ContentBlock Number))
            let blocks ← (Except.ok others : Except ProviderError (List (ContentBlock Number)))
            return block :: blocks) = .ok blocks ↔
              .toolUse call.id call.function.name input :: others = blocks :=
          ⟨Except.ok.inj, congrArg _⟩
        rw [step, eq_comm, ← othersEq]
        exact (and_iff_right ⟨rfl, allValid⟩).symm

/-- The response of the other parser, when all arguments are valid. -/
theorem buildToolProviderResponse_ok (choice : Choice)
    (usage : Option Usage) (model : Option (List Char)) (providerName : List Char)
    (response : ProviderResponse Number) :
    buildToolProviderResponse serde ⟨[choice], usage, model⟩ providerName = .ok response ↔
      (∀ call ∈ choice.message.toolCalls.getD [], (serde.fromStr call.function.arguments).isSome) ∧
        response =
          { text := scrubSecrets (choice.message.content.getD [])
            inputTokens := usage.map Usage.promptTokens
            outputTokens := usage.map Usage.completionTokens
            model := model
            contentBlocks :=
              if scrubSecrets (choice.message.content.getD []) = [] then
                (choice.message.toolCalls.getD []).filterMap (parsedCall serde)
              else .text (scrubSecrets (choice.message.content.getD [])) ::
                (choice.message.toolCalls.getD []).filterMap (parsedCall serde)
            stopReason := some (mapFinishReason choice.finishReason) } := by
  rw [buildToolProviderResponse]
  dsimp only
  rw [parseToolCalls]
  cases parsed : collectToolCalls serde providerName (choice.message.toolCalls.getD []) with
  | error error =>
    refine iff_of_false ?_ ?_
    · intro impossible
      cases impossible
    · rintro ⟨valid, _⟩
      cases parsed.symm.trans ((collectToolCalls_ok serde providerName _ _).mpr ⟨valid, rfl⟩)
  | ok blocks =>
    obtain ⟨valid, blocksEq⟩ := (collectToolCalls_ok serde providerName _ blocks).mp parsed
    rw [← blocksEq, and_iff_right valid]
    exact ⟨fun same => (Except.ok.inj same).symm, fun same => congrArg _ same.symm⟩

theorem isToolUse_parsed (calls : List OpenAiToolCall) :
    (calls.filterMap (parsedCall serde)).filter isToolUse = calls.filterMap (parsedCall serde) := by
  rw [filter_eq_self]
  intro block member
  obtain ⟨call, _, made⟩ := mem_filterMap.mp member
  obtain ⟨input, _, rfl⟩ := Option.map_eq_some_iff.mp made
  rfl

/-- Every tool call is collected exactly if each arrives. -/
theorem calls_eq_iff {serde : Serde Number} {calls : List OpenAiToolCall}
    (valid : ∀ call ∈ calls, (serde.fromStr call.function.arguments).isSome) :
    (calls.take maxToolCallBuilders).filterMap (collectedCall serde) =
      calls.filterMap (parsedCall serde) ↔ CallsArrive serde calls := by
  have missing : ∀ call ∈ calls, collectedCall serde call = parsedCall serde call ∨
      collectedCall serde call = none := by
    intro call _
    rw [collectedCall, ToolCallBuilder.intoContentBlock]
    split
    · exact .inr rfl
    · exact .inl rfl
  have parsedSome : ∀ call ∈ calls, parsedCall serde call ≠ none := by
    intro call member
    rw [parsedCall, ne_eq, Option.map_eq_none_iff]
    exact Option.isSome_iff_ne_none.mp (valid call member)
  have named : ∀ call ∈ calls, collectedCall serde call = parsedCall serde call ↔
      call.id ≠ [] ∧ call.function.name ≠ [] := by
    intro call member
    rw [collectedCall, ToolCallBuilder.intoContentBlock, ← not_or]
    split
    · rename_i unnamed
      exact iff_of_false (fun same => parsedSome call member same.symm) (not_not_intro unnamed)
    · rename_i hasName
      exact iff_of_true rfl hasName
  rw [filterMap_take_eq_iff missing]
  constructor
  · intro all
    constructor
    · by_contra long
      obtain ⟨call, found⟩ : ∃ call, calls[maxToolCallBuilders]? = some call :=
        ⟨_, List.getElem?_eq_getElem (Nat.lt_of_not_le long)⟩
      rcases all _ call found with none | ⟨small, _⟩
      · exact parsedSome call (mem_of_getElem? found) none
      · exact absurd small (Nat.lt_irrefl _)
    · intro call member
      obtain ⟨index, found⟩ := mem_iff_getElem?.mp member
      rcases all index call found with none | ⟨_, same⟩
      · exact absurd none (parsedSome call member)
      · obtain ⟨hasId, hasName⟩ := (named call member).mp same
        exact ⟨hasId, hasName, valid call member⟩
  · rintro ⟨short, all⟩ index call found
    have member := mem_of_getElem? found
    obtain ⟨hasId, hasName, _⟩ := all call member
    refine .inr ⟨?_, (named call member).mpr ⟨hasId, hasName⟩⟩
    exact Nat.lt_of_lt_of_le (List.getElem?_eq_some_iff.mp found).1 short

/-- The collected stop reason and token counts are those of the response exactly if the
chunk with the finish reason brings the usage. -/
theorem ending_iff (brings : Brings choice usage chunks) :
    ending (allEvents false chunks : List (StreamEvent Number)) =
        (some (mapFinishReason choice.finishReason), usage.map Usage.promptTokens,
          usage.map Usage.completionTokens) ↔ FinishesWithUsage usage chunks := by
  have folded : ending (allEvents false chunks : List (StreamEvent Number)) =
      (finishes chunks).foldl endOf (none, none, none) := foldl_endStep_chunks false chunks _
  rw [folded, FinishesWithUsage]
  have reasons := brings.finish
  cases finish : choice.finishReason with
  | none =>
    rw [finish] at reasons
    have none : finishes chunks = [] := map_eq_nil_iff.mp reasons
    rw [none]
    simp
  | some reason =>
    rw [finish] at reasons
    obtain ⟨⟨reason', given⟩, only, rfl⟩ := map_eq_singleton_iff.mp reasons
    rw [only]
    constructor
    · intro same
      refine ⟨reason', ?_⟩
      have tokens : given.map Usage.promptTokens = usage.map Usage.promptTokens ∧
          given.map Usage.completionTokens = usage.map Usage.completionTokens :=
        ⟨congrArg (fun last => last.2.1) same, congrArg (fun last => last.2.2) same⟩
      have equal : given = usage := by
        cases given with
        | none =>
          cases usage with
          | none => rfl
          | some other => simp at tokens
        | some given =>
          cases usage with
          | none => simp at tokens
          | some other =>
            obtain ⟨prompt, completion⟩ := given
            obtain ⟨otherPrompt, otherCompletion⟩ := other
            simpa using tokens
      rw [equal]
    · rintro ⟨other, same⟩
      obtain ⟨rfl, rfl⟩ := Prod.mk.inj (singleton_inj.mp same)
      rfl

/-- The stop reason and the token counts of the stream are those of the response exactly
if the chunk with the finish reason brings the usage. Within the caps, the stream agrees
with the response exactly if it also scrubs the deltas as the text and every call arrives. -/
theorem reply_agrees_iff {serde : Serde Number} {reader : ChunkReader}
    {eventBlocks : List (List Char)} {model : Option (List Char)} {providerName : List Char}
    (brings : Brings choice usage chunks) (sent : Sends reader chunks eventBlocks) :
    ((∃ streamed, collected serde reader eventBlocks = .ok streamed ∧
        streamed.stopReason = some (mapFinishReason choice.finishReason) ∧
        streamed.inputTokens = usage.map Usage.promptTokens ∧
        streamed.outputTokens = usage.map Usage.completionTokens) ↔
      FinishesWithUsage usage chunks) ∧
    (ChunksWithinCaps chunks →
      ((∃ streamed response, collected serde reader eventBlocks = .ok streamed ∧
          buildToolProviderResponse serde ⟨[choice], usage, model⟩ providerName = .ok response ∧
          Agrees streamed response) ↔
        FinishesWithUsage usage chunks ∧ ScrubbedApart (contents chunks) ∧
          CallsArrive serde (choice.message.toolCalls.getD []))) := by
  have whole := collected_chunks serde sent
  have last := collect_ending serde (allEvents false chunks)
  constructor
  · rw [← ending_iff brings, ← last, whole]
    constructor
    · rintro ⟨streamed, same, stopReason, inputTokens, outputTokens⟩
      rw [Except.ok.inj same, stopReason, inputTokens, outputTokens]
    · intro same
      exact ⟨_, rfl, congrArg (fun last => last.1) same, congrArg (fun last => last.2.1) same,
        congrArg (fun last => last.2.2) same⟩
  · intro caps
    have fits := @withinCaps_chunks Number _ caps
    obtain ⟨textEq, noCalls, _⟩ := @allEvents_contents Number chunks
    have text : (collect serde (allEvents false chunks)).text =
        (contents chunks).flatMap scrubSecrets := (collect_eq serde fits).1.trans textEq
    have calls : (collect serde (allEvents false chunks)).contentBlocks.filter isToolUse =
        ((choice.message.toolCalls.getD []).take maxToolCallBuilders).filterMap
          (collectedCall serde) :=
      (collect_calls serde fits noCalls).trans (assembled_chunks serde brings)
    have parsed : (if scrubSecrets (choice.message.content.getD []) = [] then
        (choice.message.toolCalls.getD []).filterMap (parsedCall serde)
      else .text (scrubSecrets (choice.message.content.getD [])) ::
        (choice.message.toolCalls.getD []).filterMap (parsedCall serde)).filter isToolUse =
          (choice.message.toolCalls.getD []).filterMap (parsedCall serde) := by
      split
      · exact isToolUse_parsed serde _
      · exact isToolUse_parsed serde _
    rw [← ending_iff brings, ← last, whole, ScrubbedApart, brings.content]
    constructor
    · rintro ⟨streamed, response, same, built, agrees⟩
      rw [← Except.ok.inj same] at agrees
      obtain ⟨valid, responseEq⟩ := (buildToolProviderResponse_ok _ _ _ _ _ _).mp built
      rw [responseEq] at agrees
      refine ⟨?_, text.symm.trans agrees.text, (calls_eq_iff valid).mp ?_⟩
      · rw [agrees.stopReason, agrees.inputTokens, agrees.outputTokens]
      · rw [← calls, agrees.toolCalls, parsed]
    · rintro ⟨ends, scrubbed, arrive⟩
      have valid : ∀ call ∈ choice.message.toolCalls.getD [],
          (serde.fromStr call.function.arguments).isSome :=
        fun call member => (arrive.2 call member).2.2
      refine ⟨_, _, rfl, (buildToolProviderResponse_ok _ _ _ _ _ _).mpr ⟨valid, rfl⟩, ?_⟩
      constructor
      · exact text.trans scrubbed
      · rw [calls, parsed, (calls_eq_iff valid).mpr arrive]
      · exact congrArg (fun last => last.1) ends
      · exact congrArg (fun last => last.2.1) ends
      · exact congrArg (fun last => last.2.2) ends

/-- A short reply. -/
def hiChoice : Choice := ⟨⟨some "hi".toList, none⟩, some "stop".toList⟩

def hiUsage : Usage := ⟨3, 1⟩

def hiChunk : ChatCompletionChunk := ⟨none, [⟨⟨some "hi".toList, none⟩, none⟩], none⟩

/-- The end of the reply, with or without the usage. -/
def stopChunk (usage : Option Usage) : ChatCompletionChunk :=
  ⟨none, [⟨⟨none, none⟩, some "stop".toList⟩], usage⟩

def usageChunk : ChatCompletionChunk := ⟨none, [], some hiUsage⟩

def hiReader : ChunkReader
  | ['h'] => .ok hiChunk
  | ['s'] => .ok (stopChunk none)
  | ['w'] => .ok (stopChunk (some hiUsage))
  | ['u'] => .ok usageChunk
  | _ => .error []

def hiSerde : Serde Nat := ⟨fun _ => none, fun _ => []⟩

/-- A reply whose last chunk brings the usage agrees. -/
theorem reply_agrees_hi :
    (∃ streamed response, collected hiSerde hiReader ["data: h

".toList, "data: w

data: [DONE]

".toList] = .ok streamed ∧
        buildToolProviderResponse hiSerde ⟨[hiChoice], some hiUsage, none⟩ [] = .ok response ∧
        Agrees streamed response) := by
  have brings : Brings hiChoice (some hiUsage) [hiChunk, stopChunk (some hiUsage)] :=
    { content := rfl
      calls := fun index call found => by cases found
      noOther := forall_mem_nil _
      finish := rfl
      usage := rfl }
  have lines : ["data: h

".toList, "data: w

data: [DONE]

".toList].flatMap
      parseDataLinesNoDone = [['h'], ['w']] := by decide +kernel
  have sent : Sends hiReader [hiChunk, stopChunk (some hiUsage)]
      ["data: h

".toList, "data: w

data: [DONE]

".toList] := by
    rw [Sends, lines]
    rfl
  have plain : scrubSecrets "hi".toList = "hi".toList := by decide +kernel
  have texts : contents [hiChunk, stopChunk (some hiUsage)] = ["hi".toList] := rfl
  have noFragments : fragments [hiChunk, stopChunk (some hiUsage)] = [] := rfl
  have caps : ChunksWithinCaps [hiChunk, stopChunk (some hiUsage)] := by
    constructor
    · rw [texts, flatMap_singleton, plain]
      decide
    · rw [noFragments]
      exact fun _ _ => Nat.zero_le _
    · rw [noFragments]
      exact Nat.zero_le _
  refine ((reply_agrees_iff brings sent).2 caps).mpr ⟨⟨_, rfl⟩, ?_, Nat.zero_le _, forall_mem_nil _⟩
  rw [ScrubbedApart, texts, flatMap_singleton, flatten_singleton]

/-- The usage in a chunk of its own is lost. -/
theorem usage_chunk_lost :
    Brings hiChoice (some hiUsage) [hiChunk, stopChunk none, usageChunk] ∧
      Sends hiReader [hiChunk, stopChunk none, usageChunk]
        ["data: h

".toList, "data: s

".toList, "data: u

".toList] ∧ (collected hiSerde hiReader
        ["data: h

".toList, "data: s

".toList, "data: u

".toList]).toOption.map
          ProviderResponse.inputTokens = some none ∧
      (buildToolProviderResponse hiSerde ⟨[hiChoice], some hiUsage, none⟩ []).toOption.map
          ProviderResponse.inputTokens = some (some 3) := by
  have lines : ["data: h

".toList, "data: s

".toList, "data: u

".toList].flatMap
      parseDataLinesNoDone = [['h'], ['s'], ['u']] := by decide +kernel
  refine ⟨⟨rfl, fun index call found => (by cases found), forall_mem_nil _, rfl, rfl⟩, ?_,
    by decide +kernel, by decide +kernel⟩
  rw [Sends, lines]
  rfl

end Asterel.OpenAi
