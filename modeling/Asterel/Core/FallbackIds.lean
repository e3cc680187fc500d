import Asterel.Core.ToolProtocolRoundTrip
import Asterel.Library.Numbering
import Mathlib

/-!
# The ids of fallback tool calls

A tool call without an id of its own gets one from its place. In the calls of a JSON
response and in invoke blocks and bracket tags the places are counted over the whole text.
In the blocks between tool call tags a candidate is numbered by its place in the block from
a counter on, candidates that are no calls included, but the counter then advances by the
calls only. The ids are distinct exactly where no two blocks clash, and every call has a
name exactly where no bracket tag is blank.
-/

namespace Asterel.ToolProtocol

open Library Library.Text Library.Numbering List Value

variable {Number : Type}

/-! ## The candidates -/

/-- The id that a tool call carries itself. -/
def ownId (call : Value Number) : Option (List Char) :=
  ((call.get "id".toList).bind asStr).filter fun id => id ≠ []

/-- Whether a candidate is a call. -/
def isCall (serde : Serde Number) (call : Value Number) : Bool :=
  (parseToolCallValue serde call []).isSome

/-- The candidates in the JSON value of a block. -/
def valueCandidates (value : Value Number) : List (Value Number) :=
  match (value.get "tool_calls".toList).bind asArray with
  | some calls => calls
  | none => if value.isObject then [value] else value.asArray.getD []

def blockCandidates (serde : Serde Number) (content : List Char) : List (Value Number) :=
  ((serde.fromStr (trim content)).map valueCandidates).getD []

def isPairCall (pair : List Char × List Char) : Bool := !(isXmlMetaTag pair.1 || pair.2.isEmpty)

/-- The places of the calls of a block among its candidates: the JSON values of the block or,
if none of them is a call, its pairs of tags. -/
def blockPlaces (engine : Engine) (serde : Serde Number) (content : List Char) : List Nat :=
  let direct := keptPlaces (isCall serde) 0 (blockCandidates serde content)
  if direct.isEmpty then keptPlaces isPairCall 0 (extractXmlPairs engine (trim content)) else direct

/-- The texts of the blocks between tool call tags. -/
def xmlBlocks (text : List Char) : List (List Char) :=
  match _foundOpen : findFirstTag toolCallOpenTags text with
  | none => []
  | some (_, openTag, content) =>
    match _foundClose : matchedClose openTag content with
    | none => []
    | some (block, _, after) => block :: xmlBlocks after
  termination_by text.length
  decreasing_by exact length_block_lt _foundOpen _foundClose

/-- The names in the bracket tags that become calls. -/
def bracketNames (text : List Char) : List (List Char) :=
  match _foundOpen : find bracketOpen text with
  | none => []
  | some (_, content) =>
    match _foundClose : find "]]".toList content with
    | none => []
    | some (name, afterTag) => name :: bracketNames (bracketRest afterTag)
  termination_by text.length
  decreasing_by exact length_bracket_lt _foundOpen _foundClose

/-- The calls of a choice of a response. -/
def choiceCalls (serde : Serde Number) (choice : Value Number) : List (Value Number) :=
  let container := (choice.get "message".toList).getD choice
  (((container.get "tool_calls".toList).bind asArray).getD []).filter (isCall serde)

/-- The calls of a JSON response. -/
def responseCalls (serde : Serde Number) (value : Value Number) : List (Value Number) :=
  match (value.get "tool_calls".toList).bind asArray with
  | some calls => calls.filter (isCall serde)
  | none =>
    let nested := match _found : value.get "message".toList with
      | some message => responseCalls serde message
      | none => []
    if nested.isEmpty then
      (((value.get "choices".toList).bind asArray).getD []).flatMap (choiceCalls serde)
    else nested
  termination_by sizeOf value
  decreasing_by exact Value.sizeOf_get _found

/-- The calls of a text that is a JSON response. -/
def jsonCalls (serde : Serde Number) (text : List Char) : List (Value Number) :=
  ((serde.fromStr (trim text)).map (responseCalls serde)).getD []

/-- The text that the tool calls are looked for in. -/
def withoutThinking (engine : Engine) (text : List Char) : List Char :=
  replaceAll engine thinkingBlockRe [] text

/-- The text behind the extraction of the invoke blocks. -/
def withoutInvokes (engine : Engine) (serde : Serde Number) (text : List Char) : List Char :=
  (extractMinimaxInvokeCalls engine serde (withoutThinking engine text)).1

/-- The JSON values of a text that are tool calls. -/
def textCalls (engine : Engine) (serde : Serde Number) (text : List Char) : List (Value Number) :=
  let direct := jsonCalls serde (withoutThinking engine text)
  if direct.isEmpty then
    (xmlBlocks (withoutInvokes engine serde text)).flatMap fun content =>
      (blockCandidates serde content).filter (isCall serde)
  else direct

/-- No tool call of the text carries an id of its own. -/
def NoOwnIds (engine : Engine) (serde : Serde Number) (text : List Char) : Prop :=
  ∀ call ∈ textCalls engine serde text, ownId call = none

/-- A text of the first group of the pattern for open tags. -/
def IsTagName (name : List Char) : Prop :=
  ∃ first rest, name = first :: rest ∧ (first.isAlpha = true ∨ first = '_') ∧
    ∀ char ∈ rest, char.isAlphanum = true ∨ char ∈ ['_', ':', '-']

/-- The pattern for open tags matches tags with a name. -/
def Engine.NamesTags (engine : Engine) : Prop :=
  ∀ text, ∀ captures ∈ engine.captures xmlOpenTagRe text, ∀ name ∈ captures.group 1, IsTagName name

/-- The text is a JSON response, or no two of its blocks clash and no bracket tag that is
left is blank. -/
def WellNumbered (engine : Engine) (serde : Serde Number) (text : List Char) : Prop :=
  (jsonCalls serde (withoutThinking engine text)).isEmpty = false ∨
    NoClash ((xmlBlocks (withoutInvokes engine serde text)).map (blockPlaces engine serde)) ∧
      ∀ name ∈ bracketNames (extractXmlToolCalls engine serde 1
        (withoutInvokes engine serde text)).1, trim name ≠ []

/-! ## One candidate -/

section Candidate

variable {serde : Serde Number} {call : ParsedToolCall Number}
variable {value : Value Number}

theorem namedCall_eq (id : List Char) (name : Option (List Char))
    (arguments : Option (Value Number)) :
    namedCall serde id name arguments =
      (namedCall serde [] name arguments).map fun call => { call with id := id } := by
  cases name with
  | none => rfl
  | some name =>
    simp only [namedCall, Option.bind_eq_bind, Option.bind_some]
    split
    · rfl
    · cases parseArgumentValue serde arguments with
      | none => rfl
      | some input => rfl

/-- The default id decides about nothing but the id. -/
theorem parseToolCallValue_eq (value : Value Number) (defaultId : List Char) :
    parseToolCallValue serde value defaultId = (parseToolCallValue serde value []).map fun call =>
        { call with id := (ownId value).getD defaultId } := by
  rw [parseToolCallValue, parseToolCallValue]
  cases value.get "function".toList with
  | none =>
    dsimp only
    rw [namedCall_eq, namedCall_eq (((value.get "id".toList).bind asStr).filter _ |>.getD []),
      Option.map_map]
    rfl
  | some function =>
    dsimp only
    rw [namedCall_eq, namedCall_eq (((value.get "id".toList).bind asStr).filter _ |>.getD []),
      Option.map_map]
    rfl

theorem namedCall_name {id : List Char} {name : Option (List Char)}
    {arguments : Option (Value Number)} (parsed : namedCall serde id name arguments = some call) :
    trim call.name ≠ [] := by
  cases name with
  | none => cases parsed
  | some name =>
    simp only [namedCall, Option.bind_eq_bind, Option.bind_some] at parsed
    split at parsed
    · cases parsed
    · rename_i named
      obtain ⟨input, _, same⟩ := Option.bind_eq_some_iff.mp parsed
      cases same
      rw [trim_trim]
      exact named

theorem parseToolCallValue_name {defaultId : List Char}
    (parsed : parseToolCallValue serde value defaultId = some call) : trim call.name ≠ [] := by
  rw [parseToolCallValue] at parsed
  split at parsed
  · exact namedCall_name parsed
  · exact namedCall_name parsed

theorem parseToolCallValue_isSome (value : Value Number) (defaultId : List Char) :
    (parseToolCallValue serde value defaultId).isSome = isCall serde value := by
  rw [parseToolCallValue_eq, Option.isSome_map, isCall]

/-- Without an id of its own a call gets the default id. -/
theorem parseToolCallValue_id
    (anonymous : isCall serde value = true → ownId value = none) (defaultId : List Char) :
    (parseToolCallValue serde value defaultId).map ParsedToolCall.id =
      if isCall serde value then some defaultId else none := by
  rw [parseToolCallValue_eq]
  rw [isCall] at anonymous ⊢
  cases parsed : parseToolCallValue serde value [] with
  | none => rfl
  | some call =>
    rw [anonymous (by rw [parsed]; rfl)]
    rfl

end Candidate

theorem countedId_inj {base : List Char} {counter other : Nat} :
    countedId base counter = countedId base other ↔ counter = other := by
  constructor
  · intro same
    have digits := append_cancel_left same
    have numbers := congrArg (fun digits => Nat.ofDigitChars 10 digits 0) digits
    simpa only [Nat.ofDigitChars_ten_toDigits] using numbers
  · exact congrArg (countedId base)

/-! ## The blocks -/

section Blocks

variable {engine : Engine} {serde : Serde Number}
variable {before content openTag text : List Char} {counter : Nat} {call : ParsedToolCall Number}

theorem parseJsonValueAsToolCalls_eq (value : Value Number) (counter : Nat) :
    parseJsonValueAsToolCalls serde value counter =
      (valueCandidates value).zipIdx.filterMap fun entry =>
        parseToolCallValue serde entry.1 (countedId "fallback_call_".toList (counter + entry.2)) := by
  rw [parseJsonValueAsToolCalls, valueCandidates]
  cases (value.get "tool_calls".toList).bind asArray with
  | some calls => rfl
  | none =>
    dsimp only
    split
    · rw [zipIdx_singleton, filterMap_cons, filterMap_nil]
      cases parseToolCallValue serde value (countedId "fallback_call_".toList counter) with
      | none => rfl
      | some call => rfl
    · cases value.asArray with
      | none => rfl
      | some items => rfl

/-- The calls among the JSON values of a block. -/
def directCalls (serde : Serde Number) (content : List Char) (counter : Nat) :
    List (ParsedToolCall Number) :=
  (blockCandidates serde content).zipIdx.filterMap fun entry =>
    parseToolCallValue serde entry.1 (countedId "fallback_call_".toList (counter + entry.2))

/-- The call of a pair of tags. -/
def pairCall (engine : Engine) (serde : Serde Number) (counter : Nat)
    (pair : List Char × List Char) (place : Nat) : Option (ParsedToolCall Number) :=
  if isXmlMetaTag pair.1 || pair.2.isEmpty then none
  else some ⟨countedId "fallback_call_".toList (counter + place), pair.1,
    xmlInput engine serde pair.2⟩

theorem parseXmlBlock_eq (content : List Char) (counter : Nat) :
    parseXmlBlock engine serde content counter = if (directCalls serde content counter).isEmpty then
        (extractXmlPairs engine (trim content)).zipIdx.filterMap fun entry =>
          pairCall engine serde counter entry.1 entry.2
      else directCalls serde content counter := by
  rw [parseXmlBlock, directCalls, blockCandidates]
  cases serde.fromStr (trim content) with
  | none => rfl
  | some value =>
    simp only [parseJsonValueAsToolCalls_eq, Option.map_some, Option.getD_some]
    rfl

section

variable
  (anonymous : ∀ call ∈ (blockCandidates serde content).filter (isCall serde), ownId call = none)
  (counter : Nat)
include anonymous

/-- The calls of a block have the numbers of their places. -/
theorem parseXmlBlock_ids :
    (parseXmlBlock engine serde content counter).map ParsedToolCall.id =
      (blockPlaces engine serde content).map fun place =>
        countedId "fallback_call_".toList (counter + place) := by
  have direct : (directCalls serde content counter).map ParsedToolCall.id =
      (keptPlaces (isCall serde) 0 (blockCandidates serde content)).map fun place =>
        countedId "fallback_call_".toList (counter + place) := by
    refine map_filterMap_zipIdx (fun call place => parseToolCallValue serde call
      (countedId "fallback_call_".toList (counter + place))) _ fun call member place => ?_
    exact parseToolCallValue_id
      (fun accepted => anonymous call (mem_filter.mpr ⟨member, accepted⟩)) _
  have empty : (directCalls serde content counter).isEmpty =
      (keptPlaces (isCall serde) 0 (blockCandidates serde content)).isEmpty := by
    rw [← isEmpty_map, direct, isEmpty_map]
  rw [parseXmlBlock_eq, blockPlaces, empty]
  split
  · refine map_filterMap_zipIdx (pairCall engine serde counter) _ fun pair _ place => ?_
    rw [pairCall, isPairCall]
    cases isXmlMetaTag pair.1 || pair.2.isEmpty with
    | true => rfl
    | false => rfl
  · exact direct

/-- The counter advances by the calls of the block. -/
theorem length_parseXmlBlock :
    (parseXmlBlock engine serde content counter).length =
      (blockPlaces engine serde content).length := by
  have ids := congrArg List.length (@parseXmlBlock_ids _ engine serde content anonymous counter)
  rwa [length_map, length_map] at ids

end

theorem extractXml_unclosed
    (foundOpen : findFirstTag toolCallOpenTags text = some (before, openTag, content))
    (noClose : matchedClose openTag content = none) (counter : Nat) :
    extractXmlToolCalls engine serde counter text = (before ++ openTag ++ content, []) := by
  rw [extractXmlToolCalls]
  split
  · rename_i missing
    cases foundOpen.symm.trans missing
  · rename_i found
    cases foundOpen.symm.trans found
    split
    · rfl
    · rename_i found
      cases noClose.symm.trans found

/-- The calls of a block come before those of the text behind it. -/
theorem extractXml_block {block closeTag after : List Char}
    (foundOpen : findFirstTag toolCallOpenTags text = some (before, openTag, content))
    (foundClose : matchedClose openTag content = some (block, closeTag, after)) (counter : Nat) :
    (extractXmlToolCalls engine serde counter text).2 = parseXmlBlock engine serde block counter ++
        (extractXmlToolCalls engine serde
          (counter + (parseXmlBlock engine serde block counter).length) after).2 := by
  rw [extractXmlToolCalls]
  split
  · rename_i missing
    cases foundOpen.symm.trans missing
  · rename_i found
    cases foundOpen.symm.trans found
    split
    · rename_i missing
      cases foundClose.symm.trans missing
    · rename_i found
      cases foundClose.symm.trans found
      dsimp only
      split
      · rename_i none
        rw [List.isEmpty_iff.mp none]
        rfl
      · rfl

/-- The calls of the blocks have the numbers that the counter gives. -/
theorem extractXmlToolCalls_ids (anonymous : ∀ content ∈ xmlBlocks text,
      ∀ call ∈ (blockCandidates serde content).filter (isCall serde), ownId call = none)
    (counter : Nat) :
    (extractXmlToolCalls engine serde counter text).2.map ParsedToolCall.id =
      (numbersFrom counter ((xmlBlocks text).map (blockPlaces engine serde))).map
        (countedId "fallback_call_".toList) := by
  fun_induction xmlBlocks text generalizing counter with
  | case1 text noOpen =>
    rw [no_xml_calls engine serde counter noOpen]
    rfl
  | case2 text before openTag content foundOpen noClose =>
    rw [extractXml_unclosed foundOpen noClose]
    rfl
  | case3 text before openTag content foundOpen block closeTag after foundClose
      ih =>
    have here := anonymous block mem_cons_self
    have later := ih fun content member =>
      anonymous content (mem_cons_of_mem _ member)
    rw [extractXml_block foundOpen foundClose, map_append, parseXmlBlock_ids here,
      length_parseXmlBlock here, later, map_cons, numbersFrom, map_append, map_map]
    rfl

/-! ## The names in blocks -/

theorem trim_tagName {name : List Char} (named : IsTagName name) : trim name ≠ [] := by
  obtain ⟨first, rest, rfl, letter, _⟩ := named
  have visible : isWhitespace first = false := by
    obtain alpha | rfl := letter
    · exact isWhitespace_of_isAlphanum (by rw [Char.isAlphanum, alpha, Bool.true_or])
    · decide
  intro blank
  rw [trim_eq_nil_iff] at blank
  rw [blank first mem_cons_self] at visible
  cases visible

theorem extractXmlPairs_name (tags : engine.NamesTags) {input : List Char}
    {pair : List Char × List Char} (member : pair ∈ extractXmlPairs engine input) :
    trim pair.1 ≠ [] := by
  fun_induction extractXmlPairs engine input with
  | case1 input none => cases member
  | case2 input captures found none => cases member
  | case3 input captures found tagName group moves inner after closed ih =>
    obtain rfl | later := mem_cons.mp member
    · exact trim_tagName (tags input captures (mem_of_head? found) tagName group)
    · exact ih later
  | case4 input captures found tagName group moves unclosed ih =>
    exact ih member
  | case5 input captures found tagName group stuck => cases member

theorem parseXmlBlock_name (tags : engine.NamesTags)
    (member : call ∈ parseXmlBlock engine serde content counter) :
    trim call.name ≠ [] := by
  rw [parseXmlBlock_eq] at member
  split at member
  · obtain ⟨entry, inPairs, made⟩ := mem_filterMap.mp member
    rw [pairCall] at made
    split at made
    · cases made
    · cases made
      exact extractXmlPairs_name tags (fst_mem_of_mem_zipIdx inPairs)
  · obtain ⟨entry, _, made⟩ := mem_filterMap.mp member
    exact parseToolCallValue_name made

theorem extractXmlToolCalls_name (tags : engine.NamesTags)
    (member : call ∈ (extractXmlToolCalls engine serde counter text).2) : trim call.name ≠ [] := by
  fun_induction xmlBlocks text generalizing counter with
  | case1 text noOpen =>
    rw [no_xml_calls engine serde counter noOpen] at member
    cases member
  | case2 text before openTag content foundOpen noClose =>
    rw [extractXml_unclosed foundOpen noClose] at member
    cases member
  | case3 text before openTag content foundOpen block closeTag after foundClose
      ih =>
    rw [extractXml_block foundOpen foundClose] at member
    obtain here | later := mem_append.mp member
    · exact parseXmlBlock_name tags here
    · exact ih later

end Blocks

/-! ## Brackets and invoke blocks -/

section Counted

variable {engine : Engine} {serde : Serde Number}
variable {before content text : List Char}

theorem extractBracket_unclosed (foundOpen : find bracketOpen text = some (before, content))
    (noClose : find "]]".toList content = none) (counter : Nat) :
    extractBracketToolCalls serde counter text = (before ++ bracketOpen ++ content, []) := by
  rw [extractBracketToolCalls]
  split
  · rename_i missing
    cases foundOpen.symm.trans missing
  · rename_i found
    cases foundOpen.symm.trans found
    split
    · rfl
    · rename_i found
      cases noClose.symm.trans found

/-- A closed bracket tag becomes a call. -/
theorem extractBracket_tag {name afterTag : List Char}
    (foundOpen : find bracketOpen text = some (before, content))
    (foundClose : find "]]".toList content = some (name, afterTag)) (counter : Nat) :
    extractBracketToolCalls serde counter text =
      (before ++ (extractBracketToolCalls serde (counter + 1) (bracketRest afterTag)).1,
        ⟨countedId "bracket_call_".toList counter, trim name,
          buildBracketArgs serde (trim name) (extractContentAfterBracket afterTag)⟩ ::
          (extractBracketToolCalls serde (counter + 1) (bracketRest afterTag)).2) := by
  rw [extractBracketToolCalls]
  split
  · rename_i missing
    cases foundOpen.symm.trans missing
  · rename_i found
    cases foundOpen.symm.trans found
    split
    · rename_i missing
      cases foundClose.symm.trans missing
    · rename_i found
      cases foundClose.symm.trans found
      rfl

/-- The calls of the bracket tags have their names and are counted through. -/
theorem extractBracketToolCalls_calls (counter : Nat) (text : List Char) :
    (extractBracketToolCalls serde counter text).2.map ParsedToolCall.name =
        (bracketNames text).map trim ∧
      (extractBracketToolCalls serde counter text).2.map ParsedToolCall.id =
        (range' counter (bracketNames text).length).map (countedId "bracket_call_".toList) := by
  fun_induction bracketNames text generalizing counter with
  | case1 text noOpen =>
    rw [no_bracket_calls serde counter noOpen]
    exact ⟨rfl, rfl⟩
  | case2 text before content foundOpen noClose =>
    rw [extractBracket_unclosed foundOpen noClose]
    exact ⟨rfl, rfl⟩
  | case3 text before content foundOpen name afterTag foundClose ih =>
    obtain ⟨names, ids⟩ := ih (counter + 1)
    rw [extractBracket_tag foundOpen foundClose]
    constructor
    · rw [map_cons, map_cons, names]
    · rw [map_cons, length_cons, range'_succ, map_cons, ids]

/-- The calls of the invoke blocks have names and are counted through. -/
theorem invokeCallsFrom_calls (text : List Char) (last counter : Nat) (blocks : List Captures) :
    (∀ call ∈ (invokeCallsFrom engine serde text last counter blocks).2, trim call.name ≠ []) ∧
      (invokeCallsFrom engine serde text last counter blocks).2.map ParsedToolCall.id =
        (range' counter (invokeCallsFrom engine serde text last counter blocks).2.length).map
            (countedId "invoke_call_".toList) := by
  induction blocks generalizing last counter with
  | nil =>
    refine ⟨?_, rfl⟩
    intro call member
    cases member
  | cons captures blocks ih =>
    rw [invokeCallsFrom]
    dsimp only
    split
    · exact ih captures.stop counter
    · rename_i named
      obtain ⟨names, ids⟩ := ih captures.stop (counter + 1)
      constructor
      · intro call member
        obtain rfl | later := mem_cons.mp member
        · rw [trim_trim]
          exact named
        · exact names call later
      · rw [map_cons, length_cons, range'_succ, map_cons, ids]

end Counted

/-! ## JSON responses -/

section Responses

variable {serde : Serde Number}
variable {calls : List (Value Number)} (choices : List (Value Number))
  {call : ParsedToolCall Number} {value : Value Number}

/-- The ids of the calls of an array. -/
theorem parseToolCallArray_ids
    (anonymous : ∀ call ∈ calls.filter (isCall serde), ownId call = none) (base : List Char) :
    (parseToolCallArray serde calls base).map ParsedToolCall.id =
      (keptPlaces (isCall serde) 0 calls).map fun place =>
        countedId (base ++ ['_']) (place + 1) := by
  refine map_filterMap_zipIdx (fun call place => parseToolCallValue serde call
    (countedId (base ++ ['_']) (place + 1))) _ fun call member place => ?_
  exact parseToolCallValue_id
    (fun accepted => anonymous call (mem_filter.mpr ⟨member, accepted⟩)) _

theorem nodup_parseToolCallArray
    (anonymous : ∀ call ∈ calls.filter (isCall serde), ownId call = none) (base : List Char) :
    ((parseToolCallArray serde calls base).map ParsedToolCall.id).Nodup := by
  rw [parseToolCallArray_ids anonymous]
  refine (nodup_keptPlaces (isCall serde) 0 calls).map ?_
  intro place other same
  exact Nat.succ.inj (countedId_inj.mp same)

theorem parseToolCallArray_name {base : List Char}
    (member : call ∈ parseToolCallArray serde calls base) :
    trim call.name ≠ [] := by
  obtain ⟨entry, _, made⟩ := mem_filterMap.mp member
  exact parseToolCallValue_name made

theorem isEmpty_parseToolCallArray (calls : List (Value Number)) (base : List Char) :
    (parseToolCallArray serde calls base).isEmpty = (calls.filter (isCall serde)).isEmpty := by
  rw [Bool.eq_iff_iff, List.isEmpty_iff, List.isEmpty_iff, parseToolCallArray,
    filterMap_eq_nil_iff, filter_eq_nil_iff]
  constructor
  · intro none call member
    rw [← zipIdx_map_fst 0 calls] at member
    obtain ⟨entry, inCalls, rfl⟩ := mem_map.mp member
    rw [← parseToolCallValue_isSome, none entry inCalls]
    exact Bool.false_ne_true
  · intro none entry member
    have refused := none entry.1 (fst_mem_of_mem_zipIdx member)
    rwa [← parseToolCallValue_isSome, Option.not_isSome_iff_eq_none] at refused

/-! ### Choices -/

/-- The calls that a choice of a response is parsed to. -/
def choiceParsed (serde : Serde Number) (entry : Value Number × Nat) :
    List (ParsedToolCall Number) :=
  let container := (entry.1.get "message".toList).getD entry.1
  parseToolCallArray serde (((container.get "tool_calls".toList).bind asArray).getD [])
    (countedId "choice_".toList entry.2 ++ "_call".toList)

/-- What a loop collects beside its other results. -/
theorem foldl_collects {σ ε β : Type*} {step : σ × List β → ε → σ × List β} {collect : ε → List β}
    (collects : ∀ parsed entry, (step parsed entry).2 = parsed.2 ++ collect entry)
    (entries : List ε) (parsed : σ × List β) :
    (entries.foldl step parsed).2 = parsed.2 ++ entries.flatMap collect := by
  induction entries generalizing parsed with
  | nil => simp
  | cons entry entries ih =>
    rw [foldl_cons, ih, collects, flatMap_cons, append_assoc]

theorem parseChoices_eq :
    (parseChoices serde choices).2 = choices.zipIdx.flatMap (choiceParsed serde) := by
  rw [parseChoices, @foldl_collects _ _ _ _ (choiceParsed serde)]
  · rfl
  · intro parsed entry
    dsimp only [choiceParsed]
    cases (((entry.1.get "message".toList).getD entry.1).get "tool_calls".toList).bind
        asArray with
    | none => simp [parseToolCallArray]
    | some calls => rfl

theorem separated_digits {counter other : Nat} {rest behind : List Char}
    (same : Nat.toDigits 10 counter ++ '_' :: rest = Nat.toDigits 10 other ++ '_' :: behind) :
    counter = other := by
  have plain : ∀ number, '_' ∉ Nat.toDigits 10 number := by
    intro number member
    exact absurd (Nat.isDigit_of_mem_toDigits (by decide) (by decide) member) (by decide)
  have taken : ∀ number rest, (Nat.toDigits 10 number ++ '_' :: rest).takeWhile (· ≠ '_') =
      Nat.toDigits 10 number := by
    intro number rest
    rw [takeWhile_append_of_pos fun char member =>
      decide_eq_true (ne_of_mem_of_not_mem member (plain number)), takeWhile_cons]
    simp
  have digits := congrArg (takeWhile (· ≠ '_')) same
  rw [taken, taken] at digits
  have numbers := congrArg (fun digits => Nat.ofDigitChars 10 digits 0) digits
  simpa only [Nat.ofDigitChars_ten_toDigits] using numbers

theorem choiceId_inj {index other place behind : Nat}
    (same : countedId (countedId "choice_".toList index ++ "_call".toList ++ ['_']) place =
      countedId (countedId "choice_".toList other ++ "_call".toList ++ ['_']) behind) :
    index = other := by
  have shape : ∀ index place,
      countedId (countedId "choice_".toList index ++ "_call".toList ++ ['_']) place =
        "choice_".toList ++ (Nat.toDigits 10 index ++
          '_' :: ("call_".toList ++ Nat.toDigits 10 place)) := by
    intro index place
    simp [countedId]
  rw [shape, shape] at same
  exact separated_digits (append_cancel_left same)

theorem nodup_parseChoices {choices : List (Value Number)}
    (anonymous : ∀ call ∈ choices.flatMap (choiceCalls serde), ownId call = none) :
    ((parseChoices serde choices).2.map ParsedToolCall.id).Nodup := by
  have hidden : ∀ entry ∈ choices.zipIdx, ∀ call ∈ choiceCalls serde entry.1,
      ownId call = none := by
    intro entry member call inChoice
    exact anonymous call
      (mem_flatMap.mpr ⟨entry.1, fst_mem_of_mem_zipIdx member, inChoice⟩)
  have distinct : choices.zipIdx.Pairwise fun first second => first.2 ≠ second.2 := by
    refine pairwise_map.mp ?_
    rw [zipIdx_map_snd]
    exact nodup_range'
  rw [parseChoices_eq, map_flatMap, nodup_flatMap]
  constructor
  · intro entry member
    exact nodup_parseToolCallArray (hidden entry member) _
  · refine (List.Pairwise.and_mem.mp distinct).imp ?_
    rintro first second ⟨inFirst, inSecond, different⟩ id ofFirst ofSecond
    have ofFirst : id ∈ (choiceParsed serde first).map ParsedToolCall.id := ofFirst
    have ofSecond : id ∈ (choiceParsed serde second).map ParsedToolCall.id := ofSecond
    rw [choiceParsed, parseToolCallArray_ids (hidden first inFirst)] at ofFirst
    rw [choiceParsed, parseToolCallArray_ids (hidden second inSecond)] at ofSecond
    obtain ⟨place, _, rfl⟩ := mem_map.mp ofFirst
    obtain ⟨other, _, same⟩ := mem_map.mp ofSecond
    exact different (choiceId_inj same).symm

theorem parseChoices_name {choices : List (Value Number)}
    (member : call ∈ (parseChoices serde choices).2) : trim call.name ≠ [] := by
  rw [parseChoices_eq] at member
  obtain ⟨entry, _, inChoice⟩ := mem_flatMap.mp member
  exact parseToolCallArray_name inChoice

theorem isEmpty_parseChoices :
    (parseChoices serde choices).2.isEmpty = (choices.flatMap (choiceCalls serde)).isEmpty := by
  have agree : ∀ entry, (choiceParsed serde entry).isEmpty = (choiceCalls serde entry.1).isEmpty :=
    fun entry => isEmpty_parseToolCallArray _ _
  rw [parseChoices_eq, Bool.eq_iff_iff, List.isEmpty_iff, List.isEmpty_iff,
    flatMap_eq_nil_iff, flatMap_eq_nil_iff]
  constructor
  · intro none choice member
    rw [← zipIdx_map_fst 0 choices] at member
    obtain ⟨entry, inChoices, rfl⟩ := mem_map.mp member
    rw [← List.isEmpty_iff, ← agree, List.isEmpty_iff]
    exact none entry inChoices
  · intro none entry member
    rw [← List.isEmpty_iff, agree, List.isEmpty_iff]
    exact none entry.1 (fst_mem_of_mem_zipIdx member)

/-! ### The response -/

variable (serde) in
/-- The calls parsed from the message in a response. -/
def messageParsed (value : Value Number) : List (ParsedToolCall Number) :=
  ((value.get "message".toList).map fun message =>
    (parseJsonToolResponseValue serde message).2).getD []

variable (serde) in
/-- The calls parsed from the choices of a response. -/
def choicesParsed (value : Value Number) : List (ParsedToolCall Number) :=
  (((value.get "choices".toList).bind asArray).map fun choices =>
    (parseChoices serde choices).2).getD []

theorem parseResponse_fallback (none : (value.get "tool_calls".toList).bind asArray = none) :
    (parseJsonToolResponseValue serde value).2 =
      if (messageParsed serde value).isEmpty then choicesParsed serde value
      else messageParsed serde value := by
  have choices : ∀ parsed : List Char × List (ParsedToolCall Number), (if parsed.2.isEmpty then
      (match (value.get "choices".toList).bind asArray with
        | some choices =>
          let parsed := parseChoices serde choices
          if parsed.2.isEmpty then ([], []) else parsed
        | Option.none => ([], []))
      else parsed).2 = if parsed.2.isEmpty then choicesParsed serde value else parsed.2 := by
    intro parsed
    rw [choicesParsed]
    split
    · cases (value.get "choices".toList).bind asArray with
      | none => rfl
      | some choices =>
        dsimp only [Option.map_some, Option.getD_some]
        split
        · rename_i empty
          exact (List.isEmpty_iff.mp empty).symm
        · rfl
    · rfl
  rw [parseJsonToolResponseValue, none]
  dsimp only
  rw [messageParsed]
  split
  · rename_i message found
    rw [found, Option.map_some, Option.getD_some]
    exact choices _
  · rename_i found
    rw [found, Option.map_none, Option.getD_none]
    exact choices ([], [])

theorem responseCalls_fallback (none : (value.get "tool_calls".toList).bind asArray = none) :
    responseCalls serde value =
      if (((value.get "message".toList).map (responseCalls serde)).getD []).isEmpty then
        (((value.get "choices".toList).bind asArray).getD []).flatMap (choiceCalls serde)
      else ((value.get "message".toList).map (responseCalls serde)).getD [] := by
  rw [responseCalls, none]
  dsimp only
  split
  · rename_i message found
    rw [found, Option.map_some, Option.getD_some]
  · rename_i found
    rw [found, Option.map_none, Option.getD_none]

variable (serde) in
/-- The calls stand for JSON values: there is none only if there is no value, they have
names, and distinct ids if no value has its own. -/
structure StandFor (calls : List (ParsedToolCall Number)) (values : List (Value Number)) : Prop where
  empty : calls.isEmpty = values.isEmpty
  named : ∀ call ∈ calls, trim call.name ≠ []
  distinct : (∀ value ∈ values, ownId value = none) → (calls.map ParsedToolCall.id).Nodup

theorem StandFor.nil : StandFor ([] : List (ParsedToolCall Number)) [] where
  empty := rfl
  named := by intro call member; cases member
  distinct := fun _ => nodup_nil

theorem StandFor.orElse {calls others : List (ParsedToolCall Number)}
    {values otherValues : List (Value Number)} (first : StandFor calls values)
    (second : StandFor others otherValues) :
    StandFor (if calls.isEmpty then others else calls)
      (if values.isEmpty then otherValues else values) := by
  rw [first.empty]
  split
  · exact second
  · exact first

theorem standFor_array (calls : List (Value Number)) (base : List Char) :
    StandFor (parseToolCallArray serde calls base) (calls.filter (isCall serde)) where
  empty := isEmpty_parseToolCallArray calls base
  named := fun _ member => parseToolCallArray_name member
  distinct := fun anonymous => nodup_parseToolCallArray anonymous base

theorem standFor_choices :
    StandFor (parseChoices serde choices).2 (choices.flatMap (choiceCalls serde)) where
  empty := isEmpty_parseChoices choices
  named := fun _ member => parseChoices_name member
  distinct := nodup_parseChoices

/-- The calls of a response stand for its JSON values. -/
theorem standFor_response (value : Value Number) :
    StandFor (parseJsonToolResponseValue serde value).2 (responseCalls serde value) := by
  induction measure : sizeOf value using Nat.strong_induction_on generalizing value with
  | _ measure ih =>
    cases found : (value.get "tool_calls".toList).bind asArray with
    | some calls =>
      rw [parseJsonToolResponseValue, responseCalls, found]
      exact standFor_array calls _
    | none =>
      rw [parseResponse_fallback found, responseCalls_fallback found, messageParsed, choicesParsed]
      refine StandFor.orElse ?_ ?_
      · cases found : value.get "message".toList with
        | none => exact .nil
        | some message =>
          exact ih (sizeOf message) (measure ▸ Value.sizeOf_get found) message rfl
      · cases (value.get "choices".toList).bind asArray with
        | none => exact .nil
        | some choices => exact standFor_choices choices

end Responses

/-! ## All calls of a response text -/

section Response

variable {engine : Engine} {serde : Serde Number} {text : List Char}

theorem parseJsonToolResponse_eq (serde : Serde Number) (text : List Char) :
    (parseJsonToolResponse serde text).map Prod.snd = if (jsonCalls serde text).isEmpty then none
      else (serde.fromStr (trim text)).map fun value =>
        (parseJsonToolResponseValue serde value).2 := by
  rw [parseJsonToolResponse, jsonCalls]
  cases serde.fromStr (trim text) with
  | none => rfl
  | some value =>
    dsimp only [Option.map_some, Option.getD_some]
    rw [(standFor_response value).empty]
    split
    · rfl
    · rfl

theorem nodup_blockPlaces (engine : Engine) (serde : Serde Number) (content : List Char) :
    (blockPlaces engine serde content).Nodup := by
  rw [blockPlaces]
  split
  · exact nodup_keptPlaces _ _ _
  · exact nodup_keptPlaces _ _ _

theorem nodup_map_countedId (base : List Char) {numbers : List Nat} :
    (numbers.map (countedId base)).Nodup ↔ numbers.Nodup :=
  nodup_map_iff fun _ _ same => countedId_inj.mp same

/-- Ids of different kinds are different. -/
theorem disjoint_countedId {base other : List Char} {first second : Char}
    (begins : base.head? = some first) (beginsOther : other.head? = some second)
    (different : first ≠ second) (numbers others : List Nat) :
    List.Disjoint (numbers.map (countedId base)) (others.map (countedId other)) := by
  intro id ofFirst ofSecond
  obtain ⟨number, _, rfl⟩ := mem_map.mp ofFirst
  obtain ⟨behind, _, same⟩ := mem_map.mp ofSecond
  have heads := congrArg head? same
  rw [countedId, countedId, head?_append, head?_append, begins, beginsOther] at heads
  exact different (Option.some.inj heads).symm

/-- The ids of invoke blocks, of blocks between tags and of bracket tags are distinct exactly
if those of the blocks are. -/
theorem nodup_markup_ids (invoked brackets : Nat) (numbers : List Nat) :
    ((range' 1 invoked).map (countedId "invoke_call_".toList) ++
        numbers.map (countedId "fallback_call_".toList) ++
        (range' 1 brackets).map (countedId "bracket_call_".toList)).Nodup ↔ numbers.Nodup := by
  have counted : ∀ base length, ((range' 1 length).map (countedId base)).Nodup :=
    fun base length => (nodup_map_countedId base).mpr nodup_range'
  have invokeBlock := disjoint_countedId (rfl : "invoke_call_".toList.head? = some 'i')
    (rfl : "fallback_call_".toList.head? = some 'f') (by decide) (range' 1 invoked) numbers
  have invokeBracket := disjoint_countedId (rfl : "invoke_call_".toList.head? = some 'i')
    (rfl : "bracket_call_".toList.head? = some 'b') (by decide) (range' 1 invoked)
    (range' 1 brackets)
  have blockBracket := disjoint_countedId (rfl : "fallback_call_".toList.head? = some 'f')
    (rfl : "bracket_call_".toList.head? = some 'b') (by decide) numbers (range' 1 brackets)
  rw [nodup_append', nodup_append', nodup_map_countedId "fallback_call_".toList,
    disjoint_append_left]
  constructor
  · rintro ⟨⟨_, distinct, _⟩, _⟩
    exact distinct
  · intro distinct
    exact ⟨⟨counted _ invoked, distinct, invokeBlock⟩, counted _ brackets, invokeBracket,
      blockBracket⟩

/-- The calls of a text that is no JSON response. -/
theorem markup_calls_iff (tags : engine.NamesTags) (stripped : List Char)
    (anonymous : ∀ content ∈ xmlBlocks (extractMinimaxInvokeCalls engine serde stripped).1,
      ∀ call ∈ (blockCandidates serde content).filter (isCall serde), ownId call = none) :
    let invoked := extractMinimaxInvokeCalls engine serde stripped
    let xml := extractXmlToolCalls engine serde 1 invoked.1
    let bracketed := extractBracketToolCalls serde 1 xml.1
    (((invoked.2 ++ xml.2 ++ bracketed.2).map ParsedToolCall.id).Nodup ∧
        ∀ call ∈ invoked.2 ++ xml.2 ++ bracketed.2, trim call.name ≠ []) ↔
      NoClash ((xmlBlocks invoked.1).map (blockPlaces engine serde)) ∧
        ∀ name ∈ bracketNames xml.1, trim name ≠ [] := by
  intro invoked xml bracketed
  obtain ⟨invokeNames, invokeIds⟩ := @invokeCallsFrom_calls _ engine serde stripped 0 1
    (engine.captures minimaxInvokeRe stripped)
  obtain ⟨bracketNamed, bracketIds⟩ := @extractBracketToolCalls_calls _ serde 1 xml.1
  have ids : ((invoked.2 ++ xml.2 ++ bracketed.2).map ParsedToolCall.id).Nodup ↔
      NoClash ((xmlBlocks invoked.1).map (blockPlaces engine serde)) := by
    have places : ∀ places ∈ (xmlBlocks invoked.1).map (blockPlaces engine serde),
        places.Nodup := by
      intro places member
      obtain ⟨content, _, rfl⟩ := mem_map.mp member
      exact nodup_blockPlaces engine serde content
    have invokedIds : invoked.2.map ParsedToolCall.id =
        (range' 1 invoked.2.length).map (countedId "invoke_call_".toList) := invokeIds
    rw [map_append, map_append, ← @nodup_numbersFrom_iff 1 _ places,
      extractXmlToolCalls_ids anonymous, bracketIds, invokedIds]
    exact nodup_markup_ids _ _ _
  have names : (∀ call ∈ bracketed.2, trim call.name ≠ []) ↔
      ∀ name ∈ bracketNames xml.1, trim name ≠ [] := by
    have mapped : (∀ name ∈ bracketed.2.map ParsedToolCall.name, trim name ≠ []) ↔
        ∀ name ∈ (bracketNames xml.1).map trim, trim name ≠ [] := by rw [bracketNamed]
    simpa only [forall_mem_map, trim_trim] using mapped
  rw [ids, ← names]
  simp only [forall_mem_append]
  constructor
  · rintro ⟨clear, _, brackets⟩
    exact ⟨clear, brackets⟩
  · rintro ⟨clear, brackets⟩
    exact ⟨clear, ⟨invokeNames, fun _ member => extractXmlToolCalls_name tags member⟩, brackets⟩

/-- Without own ids the ids of the calls are distinct and all calls have names exactly in a
well numbered text. -/
theorem fallback_ids_distinct_iff (tags : engine.NamesTags)
    (anonymous : NoOwnIds engine serde text) :
    (((parseFallbackResponse engine serde text).toolCalls.map ParsedToolCall.id).Nodup ∧
        ∀ call ∈ (parseFallbackResponse engine serde text).toolCalls, trim call.name ≠ []) ↔
      WellNumbered engine serde text := by
  have route := parseJsonToolResponse_eq serde (withoutThinking engine text)
  rw [NoOwnIds, textCalls] at anonymous
  rw [WellNumbered, parseFallbackResponse]
  dsimp only
  rw [← withoutThinking]
  cases parsed : parseJsonToolResponse serde (withoutThinking engine text) with
  | some response =>
    rw [parsed, Option.map_some] at route
    split at route
    · cases route
    · rename_i filled
      have filled := Bool.not_eq_true _ ▸ filled
      obtain ⟨value, read, calls⟩ := Option.map_eq_some_iff.mp route.symm
      have values : jsonCalls serde (withoutThinking engine text) = responseCalls serde value := by
        rw [jsonCalls, read]
        rfl
      have stand := @standFor_response _ serde value
      rw [calls] at stand
      rw [if_neg (by rw [filled]; exact Bool.false_ne_true), values] at anonymous
      exact iff_of_true ⟨stand.distinct anonymous, stand.named⟩ (.inl filled)
  | none =>
    rw [parsed, Option.map_none] at route
    have empty : (jsonCalls serde (withoutThinking engine text)).isEmpty = true := by
      by_contra filled
      rw [if_neg filled, eq_comm, Option.map_eq_none_iff] at route
      rw [jsonCalls, route] at filled
      exact filled rfl
    rw [if_pos empty] at anonymous
    have blocks : ∀ content ∈ xmlBlocks (withoutInvokes engine serde text),
        ∀ call ∈ (blockCandidates serde content).filter (isCall serde), ownId call = none :=
      fun content member call accepted =>
        anonymous call (mem_flatMap.mpr ⟨content, member, accepted⟩)
    refine (markup_calls_iff tags (withoutThinking engine text) blocks).trans ?_
    rw [empty]
    simp only [Bool.true_eq_false, false_or]
    rfl

end Response

/-- Blocks whose calls come before their other candidates do not clash. -/
theorem wellNumbered_of_leading {engine : Engine} {serde : Serde Number} {text : List Char}
    (leading : ∀ content ∈ xmlBlocks (withoutInvokes engine serde text),
      ∀ place ∈ blockPlaces engine serde content, place < (blockPlaces engine serde content).length)
    (named : ∀ name ∈ bracketNames (extractXmlToolCalls engine serde 1
      (withoutInvokes engine serde text)).1, trim name ≠ []) : WellNumbered engine serde text := by
  refine .inr ⟨noClash_of_lt ?_, named⟩
  intro places member
  obtain ⟨content, inText, rfl⟩ := mem_map.mp member
  exact leading content inText

def shellTag : List Char := "[[tool_call:shell]]\nls".toList

/-- A serde that reads no text. -/
def noSerde : Serde Int := ⟨fun _ => none, fun _ => []⟩

theorem bracketNames_shellTag : bracketNames shellTag = ["shell".toList] := by
  have foundOpen : find bracketOpen shellTag = some ([], "shell]]\nls".toList) := by decide
  have foundClose : find "]]".toList "shell]]\nls".toList =
      some ("shell".toList, "\nls".toList) := by decide
  have nothing : bracketRest "\nls".toList = [] := by decide
  have ended : bracketNames [] = [] := by
    rw [bracketNames]
    rfl
  rw [bracketNames]
  split
  · rename_i missing
    cases foundOpen.symm.trans missing
  · rename_i found
    cases foundOpen.symm.trans found
    split
    · rename_i missing
      cases foundClose.symm.trans missing
    · rename_i found
      cases foundClose.symm.trans found
      rw [nothing, ended]

theorem fallback_ids_distinct_iff_shell :
    ((parseFallbackResponse blockless noSerde shellTag).toolCalls.map ParsedToolCall.id).Nodup ∧
      ∀ call ∈ (parseFallbackResponse blockless noSerde shellTag).toolCalls,
        trim call.name ≠ [] := by
  have remaining : withoutInvokes blockless noSerde shellTag = shellTag := rfl
  have noOpen : findFirstTag toolCallOpenTags shellTag = none := by decide
  have blocks : xmlBlocks shellTag = [] := by
    rw [xmlBlocks, noOpen]
  have noValues : jsonCalls noSerde (withoutThinking blockless shellTag) = [] := rfl
  have anonymous : NoOwnIds blockless noSerde shellTag := by
    rw [NoOwnIds, textCalls, noValues, remaining, blocks]
    intro call member
    cases member
  refine (fallback_ids_distinct_iff (fun _ _ member => by cases member) anonymous).mpr
    (wellNumbered_of_leading ?_ ?_)
  · rw [remaining, blocks]
    intro content member
    cases member
  · rw [remaining, no_xml_calls blockless noSerde 1 noOpen, bracketNames_shellTag]
    decide

/-! ## Two blocks -/

/-- A block with a number before the call. -/
def numberFirst : List Char := "[0,\x7b\"name\":\"a\",\"input\":0\x7d]".toList

def oneCall : List Char := "\x7b\"name\":\"b\",\"input\":0\x7d".toList

def callNamed (name : String) : Value Int :=
  .object [("input".toList, .number 0), ("name".toList, .string name.toList)]

/-- Reading the JSON texts of the two blocks. -/
def twoBlockSerde : Serde Int where
  fromStr text :=
    if text = numberFirst then some (.array [.number 0, callNamed "a"])
    else if text = oneCall then some (callNamed "b")
    else none
  toText _ := []

def twoBlocks : List Char :=
  callOpen ++ numberFirst ++ callClose ++ callOpen ++ oneCall ++ callClose

theorem twoBlock_anonymous (content : List Char) :
    ∀ call ∈ blockCandidates twoBlockSerde content, ownId call = none := by
  rw [blockCandidates, twoBlockSerde]
  dsimp only
  split
  · intro call member
    have member : call ∈ [Value.number 0, callNamed "a"] := member
    obtain rfl | rfl : call = .number 0 ∨ call = callNamed "a" := by simpa using member
    · rfl
    · rfl
  · split
    · intro call member
      have member : call ∈ [callNamed "b"] := member
      rw [mem_singleton.mp member]
      rfl
    · intro call member
      cases member

theorem xmlBlocks_block {text before openTag content inner closeTag after : List Char}
    (foundOpen : findFirstTag toolCallOpenTags text = some (before, openTag, content))
    (foundClose : matchedClose openTag content = some (inner, closeTag, after)) :
    xmlBlocks text = inner :: xmlBlocks after := by
  rw [xmlBlocks]
  split
  · rename_i missing
    cases foundOpen.symm.trans missing
  · rename_i found
    cases foundOpen.symm.trans found
    split
    · rename_i missing
      cases foundClose.symm.trans missing
    · rename_i found
      cases foundClose.symm.trans found
      rfl

theorem xmlBlocks_twoBlocks : xmlBlocks twoBlocks = [numberFirst, oneCall] := by
  have first : findFirstTag toolCallOpenTags twoBlocks = some ([], callOpen,
      numberFirst ++ callClose ++ callOpen ++ oneCall ++ callClose) := by decide
  have firstClose : matchedClose callOpen
      (numberFirst ++ callClose ++ callOpen ++ oneCall ++ callClose) =
        some (numberFirst, callClose, callOpen ++ oneCall ++ callClose) := by decide
  have second : findFirstTag toolCallOpenTags (callOpen ++ oneCall ++ callClose) =
      some ([], callOpen, oneCall ++ callClose) := by decide
  have secondClose : matchedClose callOpen (oneCall ++ callClose) =
      some (oneCall, callClose, []) := by decide
  have done : xmlBlocks [] = [] := by
    rw [xmlBlocks]
    rfl
  rw [xmlBlocks_block first firstClose, xmlBlocks_block second secondClose, done]

/-- The second candidate of the first block and the first one of the second block get the
same id. -/
theorem two_blocks_share_id :
    ¬ ∀ (engine : Engine) (serde : Serde Int) (text : List Char), engine.NamesTags →
      NoOwnIds engine serde text →
        ((parseFallbackResponse engine serde text).toolCalls.map ParsedToolCall.id).Nodup ∧
          ∀ call ∈ (parseFallbackResponse engine serde text).toolCalls, trim call.name ≠ [] := by
  intro claim
  have noJson : jsonCalls twoBlockSerde twoBlocks = [] := rfl
  have anonymous : NoOwnIds blockless twoBlockSerde twoBlocks := by
    have plain : withoutThinking blockless twoBlocks = twoBlocks := rfl
    rw [NoOwnIds, textCalls, plain, noJson]
    intro call member
    obtain ⟨content, _, accepted⟩ := mem_flatMap.mp member
    exact twoBlock_anonymous content call (mem_filter.mp accepted).1
  have parsed := claim blockless twoBlockSerde twoBlocks (fun _ _ member => by cases member)
    anonymous
  have clear := (markup_calls_iff (fun _ _ member => by cases member) twoBlocks
    fun content _ call accepted => twoBlock_anonymous content call
      (mem_filter.mp accepted).1).mp parsed
  have remaining : (extractMinimaxInvokeCalls blockless twoBlockSerde twoBlocks).1 = twoBlocks := rfl
  have first : blockPlaces blockless twoBlockSerde numberFirst = [1] := by decide
  have second : blockPlaces blockless twoBlockSerde oneCall = [0] := by decide
  have apart := clear.1
  rw [remaining, xmlBlocks_twoBlocks, map_cons, map_cons, first, second] at apart
  exact apart [] [1] [] [0] [] rfl 1 mem_cons_self 0 mem_cons_self rfl

end Asterel.ToolProtocol
