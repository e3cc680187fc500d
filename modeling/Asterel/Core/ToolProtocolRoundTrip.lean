import Asterel.Core.ToolProtocol

/-!
# Reading a rendered tool call back

The renderer puts the JSON text of a call between two tags as it stands, and the
parser searches for tags and blocks in the text. A call is read back when its JSON
text holds none of them.
-/

namespace Asterel.ToolProtocol

open Library Library.Text

variable {Number : Type}
variable {wordChar : Char → Bool} (engine : Engine) {first json last name text : List Char}
  {Inner : List Char → Prop} (serde : Serde Number) {input : Value Number}

/-- A character without its case. Two characters beyond ASCII fold to a letter. -/
def foldChar (char : Char) : Char :=
  if char.toNat = 0x212A then 'k' else if char.toNat = 0x17F then 's' else char.toLower

/-- The text holds the one word and behind it the other, apart from their case, with a
text of the given kind between them. -/
def HoldsBlock (first last : List Char) (Inner : List Char → Prop) (text : List Char) : Prop :=
  ∃ before opening middle closing after, text = before ++ opening ++ (middle ++ closing ++ after) ∧
      opening.map foldChar = first ∧ closing.map foldChar = last ∧ Inner middle

/-- The text between `<invoke` and `</invoke>` in a match: a quoted name behind word
boundaries, and the end of the tag. -/
def InvokeMiddle (wordChar : Char → Bool) (middle : List Char) : Prop :=
  ∃ gap word white white' quote quoted rest body, middle = gap ++ word ++ white ++ '=' ::
      (white' ++ quote :: (quoted ++ quote :: (rest ++ '>' :: body))) ∧
    '>' ∉ gap ∧ (∃ char, gap.head? = some char ∧ wordChar char = false) ∧
    (∃ char, gap.getLast? = some char ∧ wordChar char = false) ∧
    word.map foldChar = "name".toList ∧
    (∀ char ∈ white ++ white', isWhitespace char = true) ∧
    (quote = '"' ∨ quote = '\'') ∧ quoted ≠ [] ∧ quote ∉ quoted ∧ '>' ∉ rest

/-- A match of the pattern for thinking. -/
def HoldsThinking (text : List Char) : Prop :=
  HoldsBlock "<think".toList "</think>".toList (fun middle => '>' ∈ middle) text ∨
    HoldsBlock "<think".toList "</thinking>".toList (fun middle => '>' ∈ middle) text

/-- A match of the pattern for invoke blocks. -/
def HoldsInvoke (wordChar : Char → Bool) (text : List Char) : Prop :=
  HoldsBlock "<invoke".toList "</invoke>".toList (InvokeMiddle wordChar) text

/-- What the code relies on in `serde_json`: the text of an object stands in
braces, and a word is no JSON text. -/
structure Serde.Lawful (serde : Serde Number) : Prop where
  objectText : ∀ members, ∃ inner, serde.toText (.object members) = '{' :: (inner ++ ['}'])
  rejectsWord : ∀ rest, serde.fromStr ('A' :: rest) = none

/-- What the code relies on in the `regex` crate: the two patterns for blocks match
only in a text that holds such a block. -/
structure Engine.Lawful (engine : Engine) (wordChar : Char → Bool) : Prop where
  thinking : ∀ text, engine.captures thinkingBlockRe text ≠ [] → HoldsThinking text
  invoke : ∀ text, engine.captures minimaxInvokeRe text ≠ [] → HoldsInvoke wordChar text

/-- The JSON text holds no close tag and no block of the other two kinds. -/
structure MarkupFree (wordChar : Char → Bool) (json : List Char) : Prop where
  noClose : ¬ "</tool_call>".toList <:+: json
  noThinking : ¬ HoldsThinking json
  noInvoke : ¬ HoldsInvoke wordChar json

/-- Exactly one call is parsed, with the given name and input. -/
def OneCall (response : ParsedFallbackResponse Number) (name : List Char) (input : Value Number) :
    Prop :=
  ∃ call, response.toolCalls = [call] ∧ call.name = name ∧ call.input = input

/-- The messages of a conversation with the one tool call. -/
def callMessages (id name : List Char) (input : Value Number) : List (ProviderMessage Number) :=
  [⟨.assistant, [.toolUse id name input]⟩]

def speaker : List Char := "Assistant: ".toList

def callOpen : List Char := "<tool_call>".toList

def callClose : List Char := "</tool_call>".toList

/-- The text of a message with one call, around its JSON text. -/
def frame (json : List Char) : List Char :=
  speaker ++ (callOpen ++ '\n' :: (json ++ '\n' :: callClose))

theorem render_call (id name : List Char) (input : Value Number) :
    renderMessagesForFallback serde (callMessages id name input) =
      frame (serde.toText (callValue name input)) := by
  have title : MessageRole.assistant.title ++ ": ".toList = speaker := by decide
  have opening : "<tool_call>\n".toList = callOpen ++ ['\n'] := by decide
  have closing : "\n</tool_call>".toList = '\n' :: callClose := by decide
  have around : ∀ json open' close' : List Char, open' = callOpen ++ ['\n'] →
      close' = '\n' :: callClose → speaker ++ (open' ++ json ++ close') = frame json := by
    rintro json open' close' rfl rfl
    simp [frame]
  have body := around (serde.toText (callValue name input)) _ _ opening closing
  rw [← title] at body
  simp only [renderMessagesForFallback, callMessages, List.map_cons, List.map_nil,
    List.intercalate_singleton, renderMessage]
  exact body

/-! ## The words of the markup -/

theorem unbroken_of_fold {occurrence word : List Char} (same : occurrence.map foldChar = word)
    (unbroken : '\n' ∉ word) : '\n' ∉ occurrence := by
  intro member
  have folded : foldChar '\n' ∈ occurrence.map foldChar := List.mem_map_of_mem member
  rw [same] at folded
  exact unbroken folded

/-- A block in the text of a message with a call stands in its JSON text, if its
words do not stand in the tags around it. -/
theorem block_in_json (firstUnbroken : '\n' ∉ first) (lastUnbroken : '\n' ∉ last)
    (notFront : ¬ first <:+: (speaker ++ callOpen).map foldChar)
    (notBack : ¬ last <:+: callClose.map foldChar)
    (holds : HoldsBlock first last Inner (frame json)) : HoldsBlock first last Inner json := by
  obtain ⟨before, opening, middle, closing, after, whole, sameFirst, sameLast, inner⟩ := holds
  have layout : (speaker ++ callOpen) ++ '\n' :: (json ++ '\n' :: callClose) =
      before ++ opening ++ (middle ++ closing ++ after) := by
    rw [← whole, frame, List.append_assoc]
  rcases occurs_beside (unbroken_of_fold sameFirst firstUnbroken) layout with
    ⟨gap, frontEq, _⟩ | ⟨gap, backEq⟩
  · refine absurd ⟨before.map foldChar, gap.map foldChar, ?_⟩ notFront
    rw [← sameFirst, frontEq]
    simp
  · have behind : json ++ '\n' :: callClose = (gap ++ opening ++ middle) ++ closing ++ after := by
      rw [backEq]
      simp
    rcases occurs_beside (unbroken_of_fold sameLast lastUnbroken) behind with
      ⟨rest, jsonEq, _⟩ | ⟨rest, closeEq⟩
    · refine ⟨gap, opening, middle, closing, rest, ?_, sameFirst, sameLast, inner⟩
      rw [jsonEq]
      simp
    · refine absurd ⟨rest.map foldChar, after.map foldChar, ?_⟩ notBack
      rw [← sameLast, closeEq]
      simp

theorem no_thinking {engine : Engine} (lawful : engine.Lawful wordChar)
    (free : MarkupFree wordChar json) :
    engine.captures thinkingBlockRe (frame json) = [] := by
  by_contra matched
  apply free.noThinking
  rcases lawful.thinking _ matched with short | long
  · left
    exact block_in_json (by decide) (by decide) (by decide) (by decide) short
  · right
    exact block_in_json (by decide) (by decide) (by decide) (by decide) long

theorem no_invoke {engine : Engine} (lawful : engine.Lawful wordChar)
    (free : MarkupFree wordChar json) :
    engine.captures minimaxInvokeRe (frame json) = [] := by
  by_contra matched
  apply free.noInvoke
  exact block_in_json (by decide) (by decide) (by decide) (by decide) (lawful.invoke _ matched)

/-! ## The steps of the parser -/

theorem trim_bounded {first last : Char} (firstVisible : isWhitespace first = false)
    (lastVisible : isWhitespace last = false) (inner : List Char) :
    trim (first :: (inner ++ [last])) = first :: (inner ++ [last]) := by
  have start : trimStart (first :: (inner ++ [last])) = first :: (inner ++ [last]) := by
    simp [trimStart, firstVisible]
  rw [trim, start]
  exact trimEnd_concat lastVisible (first :: inner)

theorem trim_broken {first last : Char} (firstVisible : isWhitespace first = false)
    (lastVisible : isWhitespace last = false) (inner : List Char) :
    trim ('\n' :: (first :: (inner ++ [last]) ++ ['\n'])) = first :: (inner ++ [last]) := by
  have white : isWhitespace '\n' = true := by decide
  have start : trimStart ('\n' :: (first :: (inner ++ [last]) ++ ['\n'])) =
      first :: (inner ++ [last]) ++ ['\n'] := by
    simp [trimStart, firstVisible, white]
  rw [trim, start, trimEnd_concat_white white]
  exact trimEnd_concat lastVisible (first :: inner)

/-- A message is no JSON text. -/
theorem no_json_response {serde : Serde Number} (lawful : serde.Lawful) (json : List Char) :
    parseJsonToolResponse serde (frame json) = none := by
  have bounds : ∃ inner, frame json = 'A' :: (inner ++ ['>']) := by
    have close : callClose = "</tool_call".toList ++ ['>'] := by decide
    refine ⟨"ssistant: ".toList ++ (callOpen ++ '\n' :: (json ++ '\n' :: "</tool_call".toList)), ?_⟩
    have begins : speaker = 'A' :: "ssistant: ".toList := by decide
    rw [frame, begins, close]
    simp
  obtain ⟨inner, same⟩ := bounds
  have rejected := lawful.rejectsWord (inner ++ ['>'])
  rw [parseJsonToolResponse, same, trim_bounded (by decide) (by decide), rejected]

/-- A tag at the end of a text without a bracket is the earliest of its text. -/
theorem earlier_stays {front tag after haystack : List Char} {tags : List (List Char)}
    (absent : '<' ∉ front) (whole : ∃ text, haystack = front ++ text)
    (brackets : ∀ other ∈ tags, other.head? = some '<') :
    tags.foldl (earlierTag haystack) (some (front, tag, after)) = some (front, tag, after) := by
  induction tags with
  | nil => rfl
  | cons other rest ih =>
    obtain ⟨bracket, restBrackets⟩ := List.forall_mem_cons.mp brackets
    have stays : earlierTag haystack (some (front, tag, after)) other =
        some (front, tag, after) := by
      unfold earlierTag
      split
      · rfl
      · rename_i nothing
        cases nothing
      · rename_i before behind first here there found best
        cases best
        obtain ⟨text, same⟩ := whole
        cases other with
        | nil => cases bracket
        | cons symbol others =>
          cases bracket
          rw [same] at found
          exact if_neg (Nat.not_lt.mpr (find_ge absent found))
    rw [List.foldl_cons, stays]
    exact ih restBrackets

theorem first_tag (text : List Char) :
    findFirstTag toolCallOpenTags (speaker ++ (callOpen ++ text)) =
      some (speaker, callOpen, text) := by
  have absent : '<' ∉ speaker := by decide
  have tags : toolCallOpenTags = callOpen :: toolCallOpenTags.tail := by decide
  have opening : callOpen = '<' :: "tool_call>".toList := by decide
  have found : find callOpen (speaker ++ (callOpen ++ text)) = some (speaker, text) := by
    have behind := find_behind "tool_call>".toList text absent
    rw [← opening, List.append_assoc] at behind
    exact behind
  have start : earlierTag (speaker ++ (callOpen ++ text)) none callOpen =
      some (speaker, callOpen, text) := by
    simp only [earlierTag, found]
  rw [findFirstTag, tags, List.foldl_cons, start]
  exact earlier_stays absent ⟨callOpen ++ text, rfl⟩ (by decide)

theorem close_tag (noClose : ¬ callClose <:+: json) :
    matchedClose callOpen ('\n' :: (json ++ '\n' :: callClose)) =
      some ('\n' :: (json ++ ['\n']), callClose, []) := by
  have borderless : ∀ tail ∈ callClose.tails, tail ≠ [] → tail ≠ callClose →
      ¬ tail <+: callClose := by decide
  have unbroken : '\n' ∉ callClose := by decide
  have missing : ¬ callClose <:+: '\n' :: (json ++ ['\n']) := by
    rintro ⟨before, after, whole⟩
    have layout : [] ++ '\n' :: (json ++ ['\n']) = before ++ callClose ++ after := whole.symm
    rcases occurs_beside unbroken layout with ⟨gap, empty, _⟩ | ⟨gap, backEq⟩
    · have closeEmpty := (List.append_eq_nil_iff.mp (List.append_eq_nil_iff.mp empty.symm).1).2
      exact absurd closeEmpty (by decide)
    · rcases occurs_beside unbroken backEq with ⟨gap', jsonEq, _⟩ | ⟨gap', empty⟩
      · exact noClose ⟨gap, gap', jsonEq.symm⟩
      · have closeEmpty := (List.append_eq_nil_iff.mp (List.append_eq_nil_iff.mp empty.symm).1).2
        exact absurd closeEmpty (by decide)
  have known : matchingCloseTag callOpen = some callClose := by decide
  have found := find_at [] [] borderless missing
  simp only [List.append_nil] at found
  have layout : '\n' :: (json ++ ['\n']) ++ callClose = '\n' :: (json ++ '\n' :: callClose) := by
    simp
  rw [layout] at found
  rw [matchedClose, known, Option.bind_some, found]
  rfl

theorem no_xml_calls (serde : Serde Number) (counter : Nat)
    (missing : findFirstTag toolCallOpenTags text = none) :
    extractXmlToolCalls engine serde counter text = (text, []) := by
  rw [extractXmlToolCalls]
  split
  · rfl
  · rename_i found
    cases missing.symm.trans found

/-- The block behind the tag of a message, up to the close tag found for it. -/
theorem first_block (serde : Serde Number) (counter : Nat)
    (content : List Char) {block closeTag after : List Char}
    (closing : matchedClose callOpen content = some (block, closeTag, after)) :
    extractXmlToolCalls engine serde counter (speaker ++ (callOpen ++ content)) =
      (let calls := parseXmlBlock engine serde block counter
       let parsed := extractXmlToolCalls engine serde (counter + calls.length) after
       if calls.isEmpty then (speaker ++ callOpen ++ block ++ closeTag ++ parsed.1, parsed.2)
       else (speaker ++ parsed.1, calls ++ parsed.2)) := by
  have opening := first_tag content
  rw [extractXmlToolCalls]
  split
  · rename_i missing
    cases missing.symm.trans opening
  · rename_i before openTag rest foundOpen
    cases foundOpen.symm.trans opening
    split
    · rename_i missing
      cases missing.symm.trans closing
    · rename_i inner found behind foundClose
      cases foundClose.symm.trans closing
      rfl

theorem no_bracket_calls (counter : Nat) (missing : find bracketOpen text = none) :
    extractBracketToolCalls serde counter text = (text, []) := by
  rw [extractBracketToolCalls]
  split
  · rfl
  · rename_i found
    cases missing.symm.trans found

theorem parse_call
    (named : name ≠ []) (trimmed : trim name = name) (object : input.isObject = true) :
    parseJsonValueAsToolCalls serde (callValue name input) 1 =
      [⟨countedId "fallback_call_".toList 1, name, input⟩] := by
  have noCalls : (callValue name input).get "tool_calls".toList = none := rfl
  have noFunction : (callValue name input).get "function".toList = none := rfl
  have noId : (callValue name input).get "id".toList = none := rfl
  have hasName : (callValue name input).get "name".toList = some (.string name) := rfl
  have hasArguments : (callValue name input).get "arguments".toList = some input := rfl
  have isObject : (callValue name input).isObject = true := rfl
  have argument : parseArgumentValue serde (some input) = some input := by
    cases input with
    | object members => rfl
    | null => cases object
    | bool value => cases object
    | number value => cases object
    | string text => cases object
    | array items => cases object
  have step : ∀ id, namedCall serde id (some name) (some input) = some ⟨id, name, input⟩ := by
    intro id
    simp [namedCall, trimmed, named, argument]
  have call : parseToolCallValue serde (callValue name input)
      (countedId "fallback_call_".toList 1) =
        some ⟨countedId "fallback_call_".toList 1, name, input⟩ := by
    simp only [parseToolCallValue, noFunction, noId, hasName, hasArguments, Option.bind_none,
      Option.bind_some, Value.asStr, Option.filter_none, Option.getD_none, Option.some_or, step]
  simp only [parseJsonValueAsToolCalls, noCalls, Option.bind_none, isObject, if_true, call,
    Option.toList_some]

/-- A block with the JSON text of a call yields the call. -/
theorem parse_block {serde : Serde Number} (lawful : serde.Lawful)
    (named : name ≠ []) (trimmed : trim name = name) (object : input.isObject = true)
    (reads : serde.fromStr (serde.toText (callValue name input)) = some (callValue name input)) :
    parseXmlBlock engine serde ('\n' :: (serde.toText (callValue name input) ++ ['\n'])) 1 =
      [⟨countedId "fallback_call_".toList 1, name, input⟩] := by
  obtain ⟨inner, braces⟩ := lawful.objectText [("arguments".toList, input),
    ("name".toList, .string name)]
  have text : serde.toText (callValue name input) = '{' :: (inner ++ ['}']) := braces
  have bounded := trim_broken (show isWhitespace '{' = false by decide)
    (show isWhitespace '}' = false by decide) inner
  rw [← text] at bounded
  have direct := parse_call serde named trimmed object
  simp only [parseXmlBlock, bounded, reads, direct, List.isEmpty_cons, Bool.false_eq_true, if_false]

/-- The tool call of a message is read back when its JSON text is free of markup. -/
theorem call_round_trip {serde : Serde Number} {engine : Engine} {wordChar : Char → Bool}
    (serdeLawful : serde.Lawful) (engineLawful : engine.Lawful wordChar) (id : List Char) {name : List Char} {input : Value Number}
    (named : name ≠ []) (trimmed : trim name = name) (object : input.isObject = true)
    (reads : serde.fromStr (serde.toText (callValue name input)) = some (callValue name input))
    (free : MarkupFree wordChar (serde.toText (callValue name input))) :
    OneCall (parseFallbackResponse engine serde
      (renderMessagesForFallback serde (callMessages id name input))) name input := by
  have noThinking := no_thinking engineLawful free
  have noInvoke := no_invoke engineLawful free
  have stripped : replaceAll engine thinkingBlockRe [] (frame (serde.toText (callValue name input))) =
      frame (serde.toText (callValue name input)) := by
    rw [replaceAll, noThinking]
    rfl
  have noJson := no_json_response serdeLawful (serde.toText (callValue name input))
  have invoked : extractMinimaxInvokeCalls engine serde
      (frame (serde.toText (callValue name input))) =
        (frame (serde.toText (callValue name input)), []) := by
    rw [extractMinimaxInvokeCalls, noInvoke]
    rfl
  have block := parse_block engine serdeLawful named trimmed object reads
  have noMore : extractXmlToolCalls engine serde 2 [] = ([], []) :=
    no_xml_calls engine serde 2 (by decide)
  have xml : extractXmlToolCalls engine serde 1 (frame (serde.toText (callValue name input))) =
      (speaker, [⟨countedId "fallback_call_".toList 1, name, input⟩]) := by
    rw [frame, first_block engine serde 1 _ (close_tag free.noClose)]
    simp only [block, List.length_singleton, noMore, List.isEmpty_cons, Bool.false_eq_true,
      if_false, List.append_nil]
  have noBracket : extractBracketToolCalls serde 1 speaker = (speaker, []) :=
    no_bracket_calls serde 1 (by decide)
  refine ⟨⟨countedId "fallback_call_".toList 1, name, input⟩, ?_, rfl, rfl⟩
  rw [render_call, parseFallbackResponse]
  simp only [stripped, noJson, invoked, xml, noBracket, List.nil_append, List.append_nil]

/-! ## Samples -/

/-- The JSON text of a call with one plain string. -/
def plainText (text name : List Char) : List Char :=
  '{' :: ("\"arguments\":\x7b\"a\":\"".toList ++ text ++ "\"\x7d,\"name\":\"".toList ++ name ++
    "\"".toList ++ ['}'])

def plainInput (text : List Char) : Value Int := .object [("a".toList, .string text)]

/-- Writing the calls with one plain string and reading one of them. -/
def plainSerde (text : List Char) : Serde Int where
  fromStr source :=
    if source = plainText text "t".toList then some (callValue "t".toList (plainInput text))
    else none
  toText
    | .object [(_, .object [(_, .string text)]), (_, .string name)] => plainText text name
    | _ => "{}".toList

/-- Matching the texts without a block. -/
def blockless : Engine := ⟨fun _ _ => []⟩

theorem plainSerde_rejects {source : List Char} (different : ¬ source = plainText text "t".toList) :
    (plainSerde text).fromStr source = none := by
  show (if source = plainText text "t".toList then _ else none) = none
  rw [if_neg different]

theorem plainSerde_lawful (text : List Char) : (plainSerde text).Lawful where
  objectText := by
    intro members
    simp only [plainSerde]
    split
    · rename_i inner name same
      exact ⟨_, rfl⟩
    · exact ⟨[], by decide⟩
  rejectsWord := by
    intro rest
    have different : ¬ 'A' :: rest = plainText text "t".toList := by
      intro same
      have first : 'A' = '{' := (List.cons.inj same).1
      exact absurd first (by decide)
    exact plainSerde_rejects different

/-- The word characters of ASCII. -/
def asciiWord (char : Char) : Bool := char.isAlphanum || char == '_'

theorem blockless_lawful (wordChar : Char → Bool) : blockless.Lawful wordChar :=
  ⟨fun _ matched => absurd rfl matched, fun _ matched => absurd rfl matched⟩

theorem plainSerde_reads (text : List Char) :
    (plainSerde text).fromStr ((plainSerde text).toText (callValue "t".toList (plainInput text))) =
      some (callValue "t".toList (plainInput text)) := if_pos rfl

theorem first_word_occurs (holds : HoldsBlock first last Inner text) :
    first <:+: text.map foldChar := by
  obtain ⟨before, opening, middle, closing, after, whole, sameFirst, _, _⟩ := holds
  refine ⟨before.map foldChar, (middle ++ closing ++ after).map foldChar, ?_⟩
  rw [← sameFirst, whole]
  simp

theorem call_round_trip_plain :
    OneCall (parseFallbackResponse blockless (plainSerde "b".toList)
      (renderMessagesForFallback (plainSerde "b".toList)
        (callMessages "1".toList "t".toList (plainInput "b".toList))))
      "t".toList (plainInput "b".toList) := by
  have noThink : ¬ "<think".toList <:+: (plainText "b".toList "t".toList).map foldChar := by
    decide
  have noInvoke : ¬ "<invoke".toList <:+: (plainText "b".toList "t".toList).map foldChar := by
    decide
  refine call_round_trip (plainSerde_lawful _) (blockless_lawful asciiWord) _ (by decide)
    (by decide) rfl (plainSerde_reads _) ⟨?_, ?_, ?_⟩
  · show ¬ "</tool_call>".toList <:+: plainText "b".toList "t".toList
    decide
  · rintro (short | long)
    · exact noThink (first_word_occurs short)
    · exact noThink (first_word_occurs long)
  · intro invoke
    exact noInvoke (first_word_occurs invoke)

/-- The block of the message, cut off at the close tag in the argument, and the text
behind it. -/
def blockCut : List Char := "\n\x7b\"arguments\":\x7b\"a\":\"".toList

def blockBehind : List Char := "\"\x7d,\"name\":\"t\"\x7d\n</tool_call>".toList

/-- A close tag in an argument cuts the JSON text of the call off. -/
theorem close_tag_in_argument :
    ¬ ∀ (serde : Serde Int) (engine : Engine), serde.Lawful → engine.Lawful asciiWord →
      ∀ (id name : List Char) (input : Value Int), name ≠ [] → trim name = name →
        input.isObject = true →
        serde.fromStr (serde.toText (callValue name input)) = some (callValue name input) →
        OneCall (parseFallbackResponse engine serde
          (renderMessagesForFallback serde (callMessages id name input))) name input := by
  intro roundTrip
  obtain ⟨call, calls, _⟩ := roundTrip (plainSerde callClose) blockless
    (plainSerde_lawful callClose) (blockless_lawful asciiWord) "1".toList "t".toList (plainInput callClose)
    (by decide) (by decide) rfl (plainSerde_reads callClose)
  have text : (plainSerde callClose).toText (callValue "t".toList (plainInput callClose)) =
      plainText callClose "t".toList := rfl
  have stripped : replaceAll blockless thinkingBlockRe [] (frame (plainText callClose "t".toList)) =
      frame (plainText callClose "t".toList) := rfl
  have noJson := no_json_response (plainSerde_lawful callClose) (plainText callClose "t".toList)
  have invoked : extractMinimaxInvokeCalls blockless (plainSerde callClose)
      (frame (plainText callClose "t".toList)) = (frame (plainText callClose "t".toList), []) := rfl
  have block : parseXmlBlock blockless (plainSerde callClose) blockCut 1 = [] := by
    have different : ¬ trim blockCut = plainText callClose "t".toList := by decide
    have rejected := plainSerde_rejects different
    have noPairs : ∀ input, extractXmlPairs blockless input = [] := by
      intro input
      rw [extractXmlPairs]
      rfl
    simp only [parseXmlBlock, rejected, noPairs, List.isEmpty_nil, if_true, List.zipIdx_nil,
      List.filterMap_nil]
  have behind : extractXmlToolCalls blockless (plainSerde callClose) 1 blockBehind =
      (blockBehind, []) := no_xml_calls _ _ _ (by decide)
  have xml : extractXmlToolCalls blockless (plainSerde callClose) 1
      (frame (plainText callClose "t".toList)) = (frame (plainText callClose "t".toList), []) := by
    have closing : matchedClose callOpen
        ('\n' :: (plainText callClose "t".toList ++ '\n' :: callClose)) =
          some (blockCut, callClose, blockBehind) := by decide
    rw [frame, first_block blockless (plainSerde callClose) 1 _ closing]
    simp only [block, List.length_nil, Nat.add_zero, behind, List.isEmpty_nil, if_true]
    exact congrArg (fun text => (text, [])) (by decide)
  have noBracket : extractBracketToolCalls (plainSerde callClose) 1
      (frame (plainText callClose "t".toList)) = (frame (plainText callClose "t".toList), []) :=
    no_bracket_calls _ _ (by decide)
  rw [render_call, text, parseFallbackResponse] at calls
  simp only [stripped, noJson, invoked, xml, noBracket, List.append_nil] at calls
  cases calls

end Asterel.ToolProtocol
