import Asterel.Core.ToolProtocol
import Asterel.Utils.CharBoundary
import Mathlib.Algebra.GroupWithZero.Nat

/-!
# The collector of stream events

The collector puts the events of a streamed reply together again: it joins the text
fragments, and under every index of a tool call the fragments of its JSON arguments.
It caps the bytes that it retains. Within the caps it holds exactly what was sent, and
at the end a tool call is given out if it has an id, a name and arguments that are JSON.
-/

namespace Asterel.Streaming

open Library Library.Text List CharBoundary
open ToolProtocol (Value Serde)
open Chunker (byteLength)
open CharBoundary (floorCharBoundary)

inductive StopReason where
  | endTurn
  | toolUse
  | maxTokens
  | error
deriving DecidableEq

/-- The content blocks that a model replies with. -/
inductive ContentBlock (Number : Type) where
  | text (text : List Char)
  | toolUse (id name : List Char) (input : Value Number)

structure ProviderResponse (Number : Type) where
  text : List Char
  inputTokens : Option Nat
  outputTokens : Option Nat
  model : Option (List Char)
  contentBlocks : List (ContentBlock Number)
  stopReason : Option StopReason

inductive StreamEvent (Number : Type) where
  | responseStart (model : Option (List Char))
  | textDelta (text : List Char)
  | toolCallDelta (index : Nat) (id name : Option (List Char)) (inputJsonDelta : List Char)
  | toolCallComplete (id name : List Char) (input : Value Number)
  | done (stopReason : Option StopReason) (inputTokens outputTokens : Option Nat)

def maxToolCallBuilders : Nat := 128

def maxStreamTextBytes : Nat := 1048576

def maxToolCallInputJsonBytes : Nat := 262144

def maxTotalToolCallInputJsonBytes : Nat := 1048576

structure ToolCallBuilder where
  id : List Char
  name : List Char
  inputJson : List Char
deriving DecidableEq

/-- `ToolCallBuilder::default`. -/
def ToolCallBuilder.empty : ToolCallBuilder := ⟨[], [], []⟩

structure StreamCollector (Number : Type) where
  text : List Char
  contentBlocks : List (ContentBlock Number)
  toolCallBuilders : List ToolCallBuilder
  totalToolInputJsonBytes : Nat
  stopReason : Option StopReason
  inputTokens : Option Nat
  outputTokens : Option Nat
  model : Option (List Char)

variable {Number : Type}

/-- `StreamCollector::new`. -/
def StreamCollector.new : StreamCollector Number := ⟨[], [], [], 0, none, none, none, none⟩

def ToolCallBuilder.intoContentBlock (serde : Serde Number) (builder : ToolCallBuilder) :
    Option (ContentBlock Number) :=
  if builder.id = [] ∨ builder.name = [] then none
  else (serde.fromStr builder.inputJson).map (.toolUse builder.id builder.name)

/-- The text with as many characters of the input as the cap allows, and how many bytes
they have. -/
def appendCappedUtf8 (target input : List Char) (maxBytes : Nat) : List Char × Nat :=
  let remaining := maxBytes - byteLength target
  if remaining = 0 then (target, 0)
  else if byteLength input ≤ remaining then (target ++ input, byteLength input)
  else
    let split := floorCharBoundary input remaining
    (target ++ input.take split, byteLength (input.take split))

def builderIndex (index : Nat) : Option Nat :=
  if maxToolCallBuilders ≤ index then none else some index

def ensureBuilderSlot (builders : List ToolCallBuilder) (index : Nat) : List ToolCallBuilder :=
  builders ++ replicate (index + 1 - builders.length) .empty

/-- A builder with an id, a name and a fragment of the arguments, and how many bytes of
the fragment it retains. -/
def feedBuilder (total : Nat) (builder : ToolCallBuilder) (id name : Option (List Char))
    (inputJsonDelta : List Char) : ToolCallBuilder × Nat :=
  let remainingTotal := maxTotalToolCallInputJsonBytes - total
  let remainingBuilder := maxToolCallInputJsonBytes - byteLength builder.inputJson
  let maxLen := byteLength builder.inputJson + min remainingTotal remainingBuilder
  let appended := appendCappedUtf8 builder.inputJson inputJsonDelta maxLen
  (⟨id.getD builder.id, name.getD builder.name, appended.1⟩, appended.2)

def feedToolCallDelta (collector : StreamCollector Number) (index : Nat)
    (id name : Option (List Char)) (inputJsonDelta : List Char) : StreamCollector Number :=
  match builderIndex index with
  | none => collector
  | some index =>
    let builders := ensureBuilderSlot collector.toolCallBuilders index
    match builders[index]? with
    | none => { collector with toolCallBuilders := builders }
    | some builder =>
      let fed := feedBuilder collector.totalToolInputJsonBytes builder id name inputJsonDelta
      { collector with
        toolCallBuilders := builders.set index fed.1
        totalToolInputJsonBytes := collector.totalToolInputJsonBytes + fed.2 }

def feed (collector : StreamCollector Number) : StreamEvent Number → StreamCollector Number
  | .responseStart model => { collector with model := model }
  | .textDelta text =>
    { collector with text := (appendCappedUtf8 collector.text text maxStreamTextBytes).1 }
  | .toolCallDelta index id name inputJsonDelta =>
    feedToolCallDelta collector index id name inputJsonDelta
  | .toolCallComplete id name input =>
    { collector with contentBlocks := collector.contentBlocks ++ [.toolUse id name input] }
  | .done stopReason inputTokens outputTokens =>
    { collector with
      stopReason := stopReason, inputTokens := inputTokens, outputTokens := outputTokens }

def finish (serde : Serde Number) (collector : StreamCollector Number) : ProviderResponse Number :=
  let toolCalls := collector.toolCallBuilders.filterMap (·.intoContentBlock serde)
  let contentBlocks := collector.contentBlocks ++ toolCalls
  { text := collector.text
    inputTokens := collector.inputTokens
    outputTokens := collector.outputTokens
    model := collector.model
    contentBlocks :=
      if collector.text = [] then contentBlocks else .text collector.text :: contentBlocks
    stopReason := collector.stopReason }

/-- The response that is collected from a stream. -/
def collect (serde : Serde Number) (events : List (StreamEvent Number)) : ProviderResponse Number :=
  finish serde (events.foldl feed .new)

section Contents

variable {events : List (StreamEvent Number)} {inputJsonDelta : List Char}
  (builders : List ToolCallBuilder) (serde : Serde Number) {collector : StreamCollector Number}
  {event : StreamEvent Number}

/-- The text of the events. -/
def textOf (events : List (StreamEvent Number)) : List Char :=
  events.flatMap fun event =>
    match event with
    | .textDelta text => text
    | _ => []

/-- A builder with what an event says about its tool call. -/
def assemble (index : Nat) (builder : ToolCallBuilder) : StreamEvent Number → ToolCallBuilder
  | .toolCallDelta other id name inputJsonDelta =>
    if other = index then
      ⟨id.getD builder.id, name.getD builder.name, builder.inputJson ++ inputJsonDelta⟩
    else builder
  | _ => builder

/-- What the events say about the tool call of an index. -/
def builderAt (events : List (StreamEvent Number)) (index : Nat) : ToolCallBuilder :=
  events.foldl (assemble index) .empty

/-- The bytes of the arguments that an event brings. -/
def jsonBytes : StreamEvent Number → Nat
  | .toolCallDelta index _ _ inputJsonDelta =>
    if index < maxToolCallBuilders then byteLength inputJsonDelta else 0
  | _ => 0

/-- The tool calls that come as a whole. -/
def completed (events : List (StreamEvent Number)) : List (ContentBlock Number) :=
  events.flatMap fun event =>
    match event with
    | .toolCallComplete id name input => [.toolUse id name input]
    | _ => []

/-- What the events bring fits into the caps. -/
structure WithinCaps (events : List (StreamEvent Number)) : Prop where
  text : byteLength (textOf events) ≤ maxStreamTextBytes
  builders : ∀ index < maxToolCallBuilders,
    byteLength (builderAt events index).inputJson ≤ maxToolCallInputJsonBytes
  total : (events.map jsonBytes).sum ≤ maxTotalToolCallInputJsonBytes

/-- The stop reason and the token counts behind an event. -/
def endStep (last : Option StopReason × Option Nat × Option Nat) :
    StreamEvent Number → Option StopReason × Option Nat × Option Nat
  | .done stopReason inputTokens outputTokens => (stopReason, inputTokens, outputTokens)
  | _ => last

/-- The stop reason and the token counts of the last end of the reply. -/
def ending (events : List (StreamEvent Number)) : Option StopReason × Option Nat × Option Nat :=
  events.foldl endStep (none, none, none)

/-- The collector holds what the events bring. -/
structure Holds (collector : StreamCollector Number) (events : List (StreamEvent Number)) : Prop where
  text : collector.text = textOf events
  contentBlocks : collector.contentBlocks = completed events
  length : collector.toolCallBuilders.length ≤ maxToolCallBuilders
  builders : ∀ index < maxToolCallBuilders,
    collector.toolCallBuilders[index]?.getD .empty = builderAt events index
  total : collector.totalToolInputJsonBytes = (events.map jsonBytes).sum

theorem appendCappedUtf8_fits {target input : List Char} {maxBytes : Nat}
    (fits : byteLength (target ++ input) ≤ maxBytes) :
    appendCappedUtf8 target input maxBytes = (target ++ input, byteLength input) := by
  rw [byteLength_append] at fits
  rw [appendCappedUtf8]
  split
  · have empty : byteLength input = 0 := by omega
    have none : input = [] := by
      have shorter := Chunker.length_le_byteLength input
      exact eq_nil_of_length_eq_zero (by omega)
    rw [none, append_nil]
    rfl
  · rw [if_pos (by omega)]

/-- A slot of the builders, before and behind the growth of the list. -/
theorem ensureBuilderSlot_getElem? (index other : Nat) :
    (ensureBuilderSlot builders index)[other]?.getD .empty = builders[other]?.getD .empty := by
  rw [ensureBuilderSlot, List.getElem?_append]
  split
  · rfl
  · rename_i beyond
    rw [List.getElem?_eq_none (by omega : builders.length ≤ other), List.getElem?_replicate]
    split <;> rfl

theorem ensureBuilderSlot_length (index : Nat) :
    (ensureBuilderSlot builders index).length = max builders.length (index + 1) := by
  rw [ensureBuilderSlot, length_append, length_replicate]
  omega

theorem textOf_concat (events : List (StreamEvent Number)) (event : StreamEvent Number) :
    textOf (events ++ [event]) = textOf events ++ textOf [event] := flatMap_append

theorem completed_concat (events : List (StreamEvent Number)) (event : StreamEvent Number) :
    completed (events ++ [event]) = completed events ++ completed [event] := flatMap_append

theorem builderAt_concat (events : List (StreamEvent Number)) (event : StreamEvent Number)
    (index : Nat) :
    builderAt (events ++ [event]) index = assemble index (builderAt events index) event := by
  rw [builderAt, foldl_append]
  rfl

/-- A part of the events fits if all of them do. -/
theorem WithinCaps.before (caps : WithinCaps (events ++ [event])) : WithinCaps events := by
  constructor
  · have text := caps.text
    rw [textOf_concat, byteLength_append] at text
    omega
  · intro index small
    have builder := caps.builders index small
    rw [builderAt_concat, assemble.eq_def] at builder
    split at builder
    · split at builder
      · rw [byteLength_append] at builder
        omega
      · exact builder
    · exact builder
  · have total := caps.total
    rw [map_append, sum_append] at total
    omega

/-- A builder takes the whole fragment if it fits into the caps. -/
theorem feedBuilder_fits {total : Nat} {builder : ToolCallBuilder} (id name : Option (List Char))
    (fits : byteLength (builder.inputJson ++ inputJsonDelta) ≤ maxToolCallInputJsonBytes)
    (totalFits : total + byteLength inputJsonDelta ≤ maxTotalToolCallInputJsonBytes) :
    feedBuilder total builder id name inputJsonDelta =
      (⟨id.getD builder.id, name.getD builder.name, builder.inputJson ++ inputJsonDelta⟩,
        byteLength inputJsonDelta) := by
  rw [feedBuilder, appendCappedUtf8_fits]
  rw [byteLength_append] at fits ⊢
  omega

/-- The collector takes a fragment of a tool call. -/
theorem feedToolCallDelta_holds {index : Nat} {id name : Option (List Char)}
    (holds : Holds collector events)
    (caps : WithinCaps (events ++ [.toolCallDelta index id name inputJsonDelta])) :
    Holds (feedToolCallDelta collector index id name inputJsonDelta)
      (events ++ [.toolCallDelta index id name inputJsonDelta]) := by
  have text : textOf (events ++ [.toolCallDelta index id name inputJsonDelta]) = textOf events := by
    rw [textOf_concat]
    exact append_nil _
  have blocks : completed (events ++ [.toolCallDelta index id name inputJsonDelta]) =
      completed events := by
    rw [completed_concat]
    exact append_nil _
  rw [feedToolCallDelta, builderIndex]
  by_cases small : index < maxToolCallBuilders
  · rw [if_neg (by omega)]
    have grown := ensureBuilderSlot_length collector.toolCallBuilders index
    have slot : index < (ensureBuilderSlot collector.toolCallBuilders index).length := by omega
    have builder : (ensureBuilderSlot collector.toolCallBuilders index)[index] =
        builderAt events index := by
      rw [← holds.builders index small, ← ensureBuilderSlot_getElem? _ index,
        List.getElem?_eq_getElem slot]
      rfl
    have here := caps.builders index small
    rw [builderAt_concat, assemble, if_pos rfl] at here
    have total := caps.total
    rw [map_append, sum_append] at total
    have bytes : ([@StreamEvent.toolCallDelta Number index id name inputJsonDelta].map
        jsonBytes).sum = byteLength inputJsonDelta := by
      simp [jsonBytes, small]
    rw [bytes, ← holds.total] at total
    simp only [List.getElem?_eq_getElem slot, builder, feedBuilder_fits id name here total]
    constructor
    · exact holds.text.trans text.symm
    · exact holds.contentBlocks.trans blocks.symm
    · rw [length_set]
      have short := holds.length
      omega
    · intro other otherSmall
      rw [builderAt_concat, assemble]
      by_cases same : index = other
      · subst same
        rw [List.getElem?_set_self slot, if_pos rfl]
        rfl
      · rw [List.getElem?_set_ne same, if_neg same, ensureBuilderSlot_getElem?,
          holds.builders other otherSmall]
    · rw [map_append, sum_append, bytes, holds.total]
  · rw [if_pos (by omega)]
    constructor
    · exact holds.text.trans text.symm
    · exact holds.contentBlocks.trans blocks.symm
    · exact holds.length
    · intro other otherSmall
      rw [builderAt_concat, assemble, if_neg (by omega), holds.builders other otherSmall]
    · rw [map_append, sum_append, holds.total]
      simp [jsonBytes, small]

/-- An event that is no fragment of a tool call leaves the builders. -/
theorem holds_of_same_builders {next : StreamCollector Number} (holds : Holds collector events)
    (noFragment : ∀ index builder, assemble index builder event = builder)
    (noBytes : jsonBytes event = 0) (builders : next.toolCallBuilders = collector.toolCallBuilders)
    (total : next.totalToolInputJsonBytes = collector.totalToolInputJsonBytes)
    (text : next.text = textOf events ++ textOf [event])
    (blocks : next.contentBlocks = completed events ++ completed [event]) :
    Holds next (events ++ [event]) := by
  constructor
  · rw [text, textOf_concat]
  · rw [blocks, completed_concat]
  · rw [builders]
    exact holds.length
  · intro index small
    rw [builders, builderAt_concat, noFragment, holds.builders index small]
  · rw [total, holds.total, map_append, sum_append]
    simp [noBytes]

/-- The collector takes an event. -/
theorem feed_holds (holds : Holds collector events)
    (caps : WithinCaps (events ++ [event])) : Holds (feed collector event) (events ++ [event]) := by
  cases event with
  | toolCallDelta index id name inputJsonDelta => exact feedToolCallDelta_holds holds caps
  | responseStart model =>
    refine holds_of_same_builders holds (fun _ _ => rfl) rfl rfl rfl ?_ ?_
    · exact holds.text.trans (append_nil _).symm
    · exact holds.contentBlocks.trans (append_nil _).symm
  | textDelta text =>
    have here := caps.text
    have same : textOf [@StreamEvent.textDelta Number text] = text := append_nil _
    rw [textOf_concat, same, ← holds.text] at here
    refine holds_of_same_builders holds (fun _ _ => rfl) rfl rfl rfl ?_ ?_
    · rw [same, ← holds.text, feed, appendCappedUtf8_fits here]
    · exact holds.contentBlocks.trans (append_nil _).symm
  | toolCallComplete id name input =>
    refine holds_of_same_builders holds (fun _ _ => rfl) rfl rfl rfl ?_ ?_
    · exact holds.text.trans (append_nil _).symm
    · rw [← holds.contentBlocks]
      rfl
  | done stopReason inputTokens outputTokens =>
    refine holds_of_same_builders holds (fun _ _ => rfl) rfl rfl rfl ?_ ?_
    · exact holds.text.trans (append_nil _).symm
    · exact holds.contentBlocks.trans (append_nil _).symm

/-- The collector holds what all events brought. -/
theorem foldl_feed_holds (caps : WithinCaps events) :
    Holds (events.foldl feed .new) events := by
  induction events using reverseRecOn with
  | nil =>
    exact ⟨rfl, rfl, Nat.zero_le _, fun index _ => rfl, rfl⟩
  | append_singleton events event ih =>
    rw [foldl_append]
    exact feed_holds (ih caps.before) caps

theorem empty_no_block :
    ToolCallBuilder.empty.intoContentBlock serde = none := if_pos (.inl rfl)

/-- The builders of a list, slot by slot. -/
theorem filterMap_slots {β : Type} {builders : List ToolCallBuilder} {size : Nat}
    (short : builders.length ≤ size) {output : ToolCallBuilder → Option β}
    (none : output .empty = none) :
    builders.filterMap output =
      (List.range size).filterMap fun index => output (builders[index]?.getD .empty) := by
  induction builders generalizing size with
  | nil => simp [none]
  | cons builder builders ih =>
    cases size with
    | zero => simp at short
    | succ size =>
      have shorter : builders.length ≤ size := by simpa using short
      rw [range_succ_eq_map, filterMap_cons, filterMap_cons, filterMap_map, ih shorter]
      rfl

/-- The tool calls that are put together from fragments. -/
def assembled (serde : Serde Number) (events : List (StreamEvent Number)) :
    List (ContentBlock Number) :=
  (List.range maxToolCallBuilders).filterMap fun index =>
    (builderAt events index).intoContentBlock serde

/-- What is collected from events within the caps. -/
theorem collect_eq (caps : WithinCaps events) :
    (collect serde events).text = textOf events ∧ (collect serde events).contentBlocks =
        (if textOf events = [] then [] else [.text (textOf events)]) ++
          (completed events ++ assembled serde events) := by
  have holds := foldl_feed_holds caps
  have calls : (events.foldl feed .new).toolCallBuilders.filterMap (·.intoContentBlock serde) =
      assembled serde events := by
    rw [filterMap_slots holds.length (empty_no_block serde), assembled]
    apply filterMap_congr
    intro index member
    rw [holds.builders index (mem_range.mp member)]
  refine ⟨holds.text, ?_⟩
  rw [collect, finish, calls, holds.text, holds.contentBlocks]
  split <;> rfl

/-- An event that is no end of the reply leaves the stop reason and the token counts. -/
theorem feed_ending (collector : StreamCollector Number) (event : StreamEvent Number) :
    ((feed collector event).stopReason, (feed collector event).inputTokens,
      (feed collector event).outputTokens) =
        endStep (collector.stopReason, collector.inputTokens, collector.outputTokens) event := by
  cases event with
  | responseStart model => rfl
  | textDelta text => rfl
  | toolCallComplete id name input => rfl
  | done stopReason inputTokens outputTokens => rfl
  | toolCallDelta index id name inputJsonDelta =>
    rw [feed, feedToolCallDelta]
    cases builderIndex index with
    | none => rfl
    | some slot =>
      dsimp only
      cases (ensureBuilderSlot collector.toolCallBuilders slot)[slot]? with
      | none => rfl
      | some builder => rfl

/-- The stop reason and the token counts that are collected, whatever the caps leave. -/
theorem collect_ending (events : List (StreamEvent Number)) :
    ((collect serde events).stopReason, (collect serde events).inputTokens,
      (collect serde events).outputTokens) = ending events := by
  have fed : ∀ collector : StreamCollector Number,
      ((events.foldl feed collector).stopReason, (events.foldl feed collector).inputTokens,
        (events.foldl feed collector).outputTokens) = events.foldl endStep
            (collector.stopReason, collector.inputTokens, collector.outputTokens) := by
    induction events with
    | nil => exact fun _ => rfl
    | cons event events ih =>
      intro collector
      rw [foldl_cons, foldl_cons, ih, feed_ending]
  exact fed .new

/-- Whether an event brings text or something of a tool call. -/
def isContent : StreamEvent Number → Bool
  | .textDelta _ => true
  | .toolCallDelta _ _ _ _ => true
  | .toolCallComplete _ _ _ => true
  | _ => false

theorem assemble_other (other : isContent event = false) (index : Nat)
    (builder : ToolCallBuilder) : assemble index builder event = builder := by
  cases event with
  | toolCallDelta => cases other
  | responseStart => rfl
  | textDelta => rfl
  | toolCallComplete => rfl
  | done => rfl

/-- Events that bring nothing do not count. -/
theorem contents_filter (events : List (StreamEvent Number)) :
    textOf (events.filter isContent) = textOf events ∧
      completed (events.filter isContent) = completed events ∧
      ((events.filter isContent).map jsonBytes).sum = (events.map jsonBytes).sum ∧
      ∀ index, builderAt (events.filter isContent) index = builderAt events index := by
  induction events using reverseRecOn with
  | nil => exact ⟨rfl, rfl, rfl, fun _ => rfl⟩
  | append_singleton events event ih =>
    obtain ⟨text, blocks, bytes, builders⟩ := ih
    cases content : isContent event with
    | true =>
      have kept : [event].filter isContent = [event] := by simp [content]
      rw [filter_append, kept]
      refine ⟨?_, ?_, ?_, ?_⟩
      · rw [textOf_concat, textOf_concat, text]
      · rw [completed_concat, completed_concat, blocks]
      · rw [map_append, map_append, sum_append, sum_append, bytes]
      · intro index
        rw [builderAt_concat, builderAt_concat, builders]
    | false =>
      have dropped : [event].filter isContent = [] := by simp [content]
      have nothing : textOf [event] = [] ∧ completed [event] = [] ∧ jsonBytes event = 0 := by
        cases event with
        | toolCallDelta => cases content
        | textDelta => cases content
        | toolCallComplete => cases content
        | responseStart => exact ⟨rfl, rfl, rfl⟩
        | done => exact ⟨rfl, rfl, rfl⟩
      rw [filter_append, dropped, append_nil]
      refine ⟨?_, ?_, ?_, ?_⟩
      · rw [textOf_concat, nothing.1, append_nil, text]
      · rw [completed_concat, nothing.2.1, append_nil, blocks]
      · rw [map_append, sum_append, bytes]
        simp [nothing.2.2]
      · intro index
        rw [builderAt_concat, assemble_other content, builders]

theorem withinCaps_filter (caps : WithinCaps (events.filter isContent)) : WithinCaps events := by
  obtain ⟨text, _, bytes, builders⟩ := contents_filter events
  constructor
  · rw [← text]
    exact caps.text
  · intro index small
    rw [← builders]
    exact caps.builders index small
  · rw [← bytes]
    exact caps.total

end Contents

section Parts

theorem textOf_append (front back : List (StreamEvent Number)) :
    textOf (front ++ back) = textOf front ++ textOf back := flatMap_append

theorem completed_append (front back : List (StreamEvent Number)) :
    completed (front ++ back) = completed front ++ completed back := flatMap_append

theorem byteLength_flatten (parts : List (List Char)) :
    byteLength parts.flatten = (parts.map byteLength).sum := by
  induction parts with
  | nil => rfl
  | cons part parts ih =>
    rw [flatten_cons, byteLength_append, ih, map_cons, sum_cons]

/-- Events that each leave a reading of the stream leave it together. -/
theorem foldl_unchanged {State : Type} {step : State → StreamEvent Number → State}
    {events : List (StreamEvent Number)}
    (unchanged : ∀ event ∈ events, ∀ state, step state event = state) (state : State) :
    events.foldl step state = state := by
  induction events with
  | nil => rfl
  | cons event events ih =>
    rw [foldl_cons, unchanged event mem_cons_self,
      ih fun later member => unchanged later (mem_cons_of_mem _ member)]

end Parts

section Calls

variable {events : List (StreamEvent Number)} {α : Type}

/-- Whether a content block is a tool call. -/
def isToolUse : ContentBlock Number → Bool
  | .toolUse _ _ _ => true
  | .text _ => false

theorem isToolUse_assembled {serde : Serde Number} :
    ∀ block ∈ assembled serde events, isToolUse block = true := by
  intro block member
  obtain ⟨index, _, made⟩ := mem_filterMap.mp member
  rw [ToolCallBuilder.intoContentBlock] at made
  split at made
  · cases made
  · obtain ⟨input, _, rfl⟩ := Option.map_eq_some_iff.mp made
    rfl

/-- The tool calls that are collected when none comes as a whole. -/
theorem collect_calls (serde : Serde Number)
    (caps : WithinCaps events) (none : completed events = []) :
    (collect serde events).contentBlocks.filter isToolUse = assembled serde events := by
  have noText : (if textOf events = [] then [] else [ContentBlock.text (textOf events)]).filter
      (@isToolUse Number) = [] := by
    split <;> rfl
  rw [(collect_eq serde caps).2, none, filter_append, noText, nil_append,
    nil_append, filter_eq_self.mpr isToolUse_assembled]

/-- The slots of a list up to a size. -/
theorem filterMap_range {β : Type} (output : α → Option β) (list : List α) (size : Nat) :
    ((List.range size).filterMap fun index => (list[index]?).bind output) =
      (list.take size).filterMap output := by
  induction size generalizing list with
  | zero => rfl
  | succ size ih =>
    cases list with
    | nil => simp
    | cons first rest =>
      rw [range_succ_eq_map, filterMap_cons, filterMap_map, take_succ_cons,
        filterMap_cons, ← ih rest]
      rfl

theorem forall_getElem?_cons {first : α} {rest : List α} {holds : Nat → α → Prop} :
    (∀ index member, (first :: rest)[index]? = some member → holds index member) ↔
      holds 0 first ∧ ∀ index member, rest[index]? = some member → holds (index + 1) member := by
  constructor
  · intro all
    exact ⟨all 0 first rfl, fun index member found => all (index + 1) member found⟩
  · rintro ⟨atFirst, later⟩ index member found
    cases index with
    | zero =>
      cases found
      exact atFirst
    | succ index => exact later index member found

theorem filterMap_take_length_le {β : Type} {got want : α → Option β} {list : List α}
    (missing : ∀ member ∈ list, got member = want member ∨ got member = none) (size : Nat) :
    ((list.take size).filterMap got).length ≤ (list.filterMap want).length := by
  induction list generalizing size with
  | nil =>
    rw [take_nil]
    exact Nat.le_refl _
  | cons first rest ih =>
    have shorter := ih fun other member =>
      missing other (mem_cons_of_mem _ member)
    cases size with
    | zero => exact Nat.zero_le _
    | succ size =>
      have later := shorter size
      rw [take_succ_cons, filterMap_cons, filterMap_cons]
      rcases missing first mem_cons_self with same | none
      · rw [same]
        cases want first with
        | none => exact later
        | some output => exact Nat.succ_le_succ later
      · rw [none]
        cases want first with
        | none => exact later
        | some output => exact Nat.le_succ_of_le later

/-- Outputs of which some are missing are all there exactly if each is. -/
theorem filterMap_take_eq_iff {β : Type} {got want : α → Option β} {list : List α} {size : Nat}
    (missing : ∀ member ∈ list, got member = want member ∨ got member = none) :
    (list.take size).filterMap got = list.filterMap want ↔
      ∀ index member, list[index]? = some member →
        want member = none ∨ index < size ∧ got member = want member := by
  induction list generalizing size with
  | nil => simp
  | cons first rest ih =>
    have restMissing : ∀ member ∈ rest, got member = want member ∨ got member = none :=
      fun other member => missing other (mem_cons_of_mem _ member)
    cases size with
    | zero =>
      rw [take_zero, filterMap_nil, eq_comm, filterMap_eq_nil_iff]
      constructor
      · exact fun all index member found => .inl (all member (mem_of_getElem? found))
      · intro all member inside
        obtain ⟨index, found⟩ := mem_iff_getElem?.mp inside
        rcases all index member found with none | ⟨impossible, _⟩
        · exact none
        · exact absurd impossible (Nat.not_lt_zero _)
    | succ size =>
      have later := @ih size restMissing
      rw [forall_getElem?_cons, take_succ_cons, filterMap_cons, filterMap_cons]
      simp only [Nat.add_lt_add_iff_right, ← later]
      cases wanted : want first with
      | none =>
        have absent : got first = none := by
          rcases missing first mem_cons_self with same | none
          · rw [same, wanted]
          · exact none
        simp [absent]
      | some output =>
        rcases missing first mem_cons_self with same | none
        · simp [same, wanted]
        · rw [none]
          have shorter := filterMap_take_length_le restMissing size
          refine iff_of_false ?_ (by simp)
          intro equal
          have lengths : ((rest.take size).filterMap got).length =
              (output :: rest.filterMap want).length := congrArg List.length equal
          rw [length_cons] at lengths
          omega

end Calls

end Asterel.Streaming
