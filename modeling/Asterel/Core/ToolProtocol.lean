import Asterel.Library.Search
import Asterel.Library.Text

/-!
# The fallback tool protocol

For providers without native tool calls the conversation is rendered as plain text
and the tool calls are parsed out of the text of the model. The JSON reader and
writer of `serde_json` and the matcher of the `regex` crate are parameters.
-/

namespace Asterel.ToolProtocol

variable {tags : List (List Char)}
  {after before block closeTag content haystack openTag rest tag text : List Char}

open Library Library.Text List

/-- `serde_json::Value`. The entries of an object stand in the order of their keys. -/
inductive Value (Number : Type) where
  | null
  | bool (value : Bool)
  | number (value : Number)
  | string (text : List Char)
  | array (items : List (Value Number))
  | object (members : List (List Char × Value Number))

variable {Number : Type}

/-- `Map::insert`. -/
def insertMember (key : List Char) (value : Value Number) :
    List (List Char × Value Number) → List (List Char × Value Number)
  | [] => [(key, value)]
  | (other, old) :: rest =>
    if key = other then (key, value) :: rest
    else if key < other then (key, value) :: (other, old) :: rest
    else (other, old) :: insertMember key value rest

namespace Value

variable {key : List Char}

/-- `Value::get` with a key. -/
def get (key : List Char) : Value Number → Option (Value Number)
  | .object members => members.lookup key
  | _ => none

def asStr : Value Number → Option (List Char)
  | .string text => some text
  | _ => none

def asArray : Value Number → Option (List (Value Number))
  | .array items => some items
  | _ => none

def isObject : Value Number → Bool
  | .object _ => true
  | _ => false

theorem sizeOf_lookup {members : List (List Char × Value Number)}
    {value : Value Number} (found : members.lookup key = some value) :
    sizeOf value < sizeOf members := by
  induction members with
  | nil => cases found
  | cons member rest ih =>
    obtain ⟨name, first⟩ := member
    rw [lookup_cons] at found
    split at found
    · cases found
      simp only [List.cons.sizeOf_spec, Prod.mk.sizeOf_spec]
      omega
    · have smaller := ih found
      simp only [List.cons.sizeOf_spec]
      omega

theorem sizeOf_get {value member : Value Number}
    (found : value.get key = some member) : sizeOf member < sizeOf value := by
  cases value with
  | object members =>
    have smaller := sizeOf_lookup found
    simp only [object.sizeOf_spec]
    omega
  | null => cases found
  | bool value => cases found
  | number value => cases found
  | string text => cases found
  | array items => cases found

end Value

/-- The reader `serde_json::from_str` and the writer of `Value`. -/
structure Serde (Number : Type) where
  fromStr : List Char → Option (Value Number)
  toText : Value Number → List Char

/-- A match of a pattern: its place in the text and the texts of its groups. -/
structure Captures where
  start : Nat
  stop : Nat
  group : Nat → Option (List Char)

/-- The matches of a pattern in a text, `captures_iter`. -/
structure Engine where
  captures : String → List Char → List Captures

/-! ## The patterns -/

def toolCallOpenTags : List (List Char) :=
  ["<tool_call>", "<toolcall>", "<tool-call>", "<invoke>", "<minimax:tool_call>",
    "<minimax:toolcall>"].map String.toList

def toolCallCloseTags : List (List Char) :=
  ["</tool_call>", "</toolcall>", "</tool-call>", "</invoke>", "</minimax:tool_call>",
    "</minimax:toolcall>"].map String.toList

def thinkingBlockRe : String := "(?is)<think(?:ing)?[^>]*>.*?</think(?:ing)?>"

def xmlOpenTagRe : String := "<([a-zA-Z_][a-zA-Z0-9_:-]*)>"

def minimaxInvokeRe : String :=
  "(?is)<invoke\\b[^>]*\\bname\\s*=\\s*(?:\\\"([^\\\"]+)\\\"|'([^']+)')[^>]*>(.*?)</invoke>"

def minimaxParameterRe : String :=
  "(?is)<parameter\\b[^>]*\\bname\\s*=\\s*(?:\\\"([^\\\"]+)\\\"|'([^']+)')[^>]*>(.*?)</parameter>"

def toolResultXmlRe : String := "(?is)<tool_result[^>]*>.*?</tool_result>"

def toolCallXmlRe : String :=
  "(?is)</?(?:tool_call|toolcall|tool-call|invoke|minimax:tool_call|minimax:toolcall)[^>]*>"

def bracketResultRe : String :=
  "(?is)\\[\\[tool_result:[^\\]]*\\]\\].*?\\[\\[/tool_result:[^\\]]*\\]\\]"

def bracketCallRe : String := "\\[\\[tool_call:[^\\]]*\\]\\]"

def toolResultsPrefixRe : String := "(?m)^\\[Tool results\\]\\s*\\n?"

def excessBlankRe : String := "\\n\x7b3,\x7d"

/-- The text from the given place on with the matches replaced. -/
def replaceMatches (replacement text : List Char) : Nat → List Captures → List Char
  | last, [] => text.drop last
  | last, captures :: rest =>
    (text.drop last).take (captures.start - last) ++ replacement ++
      replaceMatches replacement text captures.stop rest

/-- `Regex::replace_all`. -/
def replaceAll (engine : Engine) (pattern : String) (replacement text : List Char) : List Char :=
  replaceMatches replacement text 0 (engine.captures pattern text)

/-! ## Rendering -/

inductive MessageRole where
  | user
  | assistant
  | system
  deriving DecidableEq

inductive ContentBlock (Number : Type) where
  | text (text : List Char)
  | toolUse (id name : List Char) (input : Value Number)
  | toolResult (toolUseId content : List Char) (isError : Bool)
  | image

structure ProviderMessage (Number : Type) where
  role : MessageRole
  content : List (ContentBlock Number)

def xmlEscape (value : List Char) : List Char :=
  value.flatMap fun char =>
    if char = '&' then "&amp;".toList
    else if char = '<' then "&lt;".toList
    else if char = '>' then "&gt;".toList
    else if char = '"' then "&quot;".toList
    else if char = '\'' then "&#39;".toList
    else [char]

def MessageRole.title : MessageRole → List Char
  | .user => "User".toList
  | .assistant => "Assistant".toList
  | .system => "System".toList

/-- The object a tool call is rendered as. -/
def callValue (name : List Char) (input : Value Number) : Value Number :=
  .object [("arguments".toList, input), ("name".toList, .string name)]

def renderBlock (serde : Serde Number) : ContentBlock Number → List Char
  | .text text => text
  | .toolUse _ name input =>
    "<tool_call>\n".toList ++ serde.toText (callValue name input) ++ "\n</tool_call>".toList
  | .toolResult toolUseId content isError =>
    let status := if isError then "error".toList else "success".toList
    "<tool_result id=\"".toList ++ xmlEscape toolUseId ++ "\" status=\"".toList ++ status ++
      "\">\n".toList ++ xmlEscape content ++ "\n</tool_result>".toList
  | .image => "[image]".toList

def renderMessage (serde : Serde Number) (message : ProviderMessage Number) : List Char :=
  message.role.title ++ ": ".toList ++ ['\n'].intercalate (message.content.map (renderBlock serde))

def renderMessagesForFallback (serde : Serde Number) (messages : List (ProviderMessage Number)) :
    List Char :=
  "\n\n".toList.intercalate (messages.map (renderMessage serde))

/-! ## Parsing -/

structure ParsedToolCall (Number : Type) where
  id : List Char
  name : List Char
  input : Value Number

structure ParsedFallbackResponse (Number : Type) where
  displayText : List Char
  toolCalls : List (ParsedToolCall Number)

/-- An id with a counter. -/
def countedId (base : List Char) (counter : Nat) : List Char := base ++ Nat.toDigits 10 counter

def parseArgumentValue (serde : Serde Number) : Option (Value Number) → Option (Value Number)
  | none => none
  | some (.string text) => some ((serde.fromStr text).getD (.string text))
  | some other => some other

/-- The call of the given name, unless the name is blank or there is no input. -/
def namedCall (serde : Serde Number) (id : List Char) (name : Option (List Char))
    (arguments : Option (Value Number)) : Option (ParsedToolCall Number) := do
  let name ← name
  let name := trim name
  if name = [] then none
  else
    let input ← parseArgumentValue serde arguments
    return ⟨id, name, input⟩

def parseToolCallValue (serde : Serde Number) (value : Value Number) (defaultId : List Char) :
    Option (ParsedToolCall Number) :=
  let given := ((value.get "id".toList).bind Value.asStr).filter fun id => id ≠ []
  let id := given.getD defaultId
  match value.get "function".toList with
  | some function =>
    namedCall serde id ((function.get "name".toList).bind Value.asStr)
      (function.get "arguments".toList)
  | none =>
    namedCall serde id ((value.get "name".toList).bind Value.asStr)
      ((value.get "arguments".toList).or (value.get "input".toList))

def parseToolCallArray (serde : Serde Number) (calls : List (Value Number)) (idPrefix : List Char) :
    List (ParsedToolCall Number) :=
  calls.zipIdx.filterMap fun entry =>
    parseToolCallValue serde entry.1 (countedId (idPrefix ++ ['_']) (entry.2 + 1))

/-- The text and the calls of the choices of a response, joined. -/
def parseChoices (serde : Serde Number) (choices : List (Value Number)) :
    List Char × List (ParsedToolCall Number) :=
  choices.zipIdx.foldl (fun parsed entry =>
    let container := (entry.1.get "message".toList).getD entry.1
    let content := trim (((container.get "content".toList).bind Value.asStr).getD [])
    let display :=
      if content = [] then parsed.1
      else (if parsed.1 = [] then [] else parsed.1 ++ ['\n']) ++ content
    match (container.get "tool_calls".toList).bind Value.asArray with
    | some calls =>
      (display, parsed.2 ++
        parseToolCallArray serde calls (countedId "choice_".toList entry.2 ++ "_call".toList))
    | none => (display, parsed.2)) ([], [])

def parseJsonToolResponseValue (serde : Serde Number) (value : Value Number) :
    List Char × List (ParsedToolCall Number) :=
  match (value.get "tool_calls".toList).bind Value.asArray with
  | some calls =>
    (((value.get "content".toList).bind Value.asStr).getD [],
      parseToolCallArray serde calls "json_call".toList)
  | none =>
    let nested := match _found : value.get "message".toList with
      | some message => parseJsonToolResponseValue serde message
      | none => ([], [])
    if nested.2.isEmpty then
      match (value.get "choices".toList).bind Value.asArray with
      | some choices =>
        let parsed := parseChoices serde choices
        if parsed.2.isEmpty then ([], []) else parsed
      | none => ([], [])
    else nested
  termination_by sizeOf value
  decreasing_by exact Value.sizeOf_get _found

def parseJsonToolResponse (serde : Serde Number) (text : List Char) :
    Option (List Char × List (ParsedToolCall Number)) :=
  match serde.fromStr (trim text) with
  | none => none
  | some value =>
    let parsed := parseJsonToolResponseValue serde value
    if parsed.2.isEmpty then none else some parsed

/-- The group of a match that holds a quoted name. -/
def quotedGroup (captures : Captures) : Option (List Char) :=
  (captures.group 1).or (captures.group 2)

/-- The arguments in the body of an invoke block. -/
def invokeArguments (engine : Engine) (serde : Serde Number) (body : List Char) :
    List (List Char × Value Number) :=
  let named := (engine.captures minimaxParameterRe body).foldl (fun args parameter =>
    let key := trim ((quotedGroup parameter).getD [])
    let raw := trim ((parameter.group 3).getD [])
    if key = [] ∨ raw = [] then args
    else insertMember key ((serde.fromStr raw).getD (.string raw)) args) []
  if named.isEmpty && !body.isEmpty then
    match serde.fromStr body with
    | some (.object members) => members
    | some other => insertMember "value".toList other []
    | none => insertMember "content".toList (.string body) []
  else named

/-- The loop of `extract_minimax_invoke_calls` from the given place on. -/
def invokeCallsFrom (engine : Engine) (serde : Serde Number) (text : List Char) :
    Nat → Nat → List Captures → List Char × List (ParsedToolCall Number)
  | last, _, [] => (text.drop last, [])
  | last, counter, captures :: rest =>
    let before := (text.drop last).take (captures.start - last)
    let name := trim ((quotedGroup captures).getD [])
    if name = [] then
      let parsed := invokeCallsFrom engine serde text captures.stop counter rest
      (before ++ parsed.1, parsed.2)
    else
      let body := trim ((captures.group 3).getD [])
      let call : ParsedToolCall Number :=
        ⟨countedId "invoke_call_".toList counter, name, .object (invokeArguments engine serde body)⟩
      let parsed := invokeCallsFrom engine serde text captures.stop (counter + 1) rest
      (before ++ parsed.1, call :: parsed.2)

def extractMinimaxInvokeCalls (engine : Engine) (serde : Serde Number) (text : List Char) :
    List Char × List (ParsedToolCall Number) :=
  invokeCallsFrom engine serde text 0 1 (engine.captures minimaxInvokeRe text)

/-- The pairs of an open tag and the text up to its close tag. No match of the
pattern is empty. -/
def extractXmlPairs (engine : Engine) (input : List Char) : List (List Char × List Char) :=
  match (engine.captures xmlOpenTagRe input).head? with
  | none => []
  | some captures =>
    match captures.group 1 with
    | none => []
    | some tagName =>
      if _moves : 0 < captures.stop ∧ input ≠ [] then
        match _found : find ("</".toList ++ tagName ++ ['>']) (input.drop captures.stop) with
        | some (inner, after) => (tagName, trim inner) :: extractXmlPairs engine after
        | none => extractXmlPairs engine (input.drop captures.stop)
      else []
  termination_by input.length
  decreasing_by
    · have parts := congrArg List.length (find_eq_some _found)
      have positive := length_pos_iff.mpr _moves.2
      simp only [length_append, length_drop] at parts
      omega
    · have positive := length_pos_iff.mpr _moves.2
      rw [length_drop]
      omega

def isXmlMetaTag (tag : List Char) : Bool :=
  (["tool_call", "toolcall", "tool-call", "invoke", "thinking", "think"].map String.toList).contains
    (tag.map Char.toLower)

def parseJsonValueAsToolCalls (serde : Serde Number) (value : Value Number) (counterStart : Nat) :
    List (ParsedToolCall Number) :=
  let numbered (calls : List (Value Number)) := calls.zipIdx.filterMap fun entry =>
    parseToolCallValue serde entry.1 (countedId "fallback_call_".toList (counterStart + entry.2))
  match (value.get "tool_calls".toList).bind Value.asArray with
  | some calls => numbered calls
  | none =>
    if value.isObject then
      (parseToolCallValue serde value (countedId "fallback_call_".toList counterStart)).toList
    else
      match value.asArray with
      | some items => numbered items
      | none => []

/-- The input read out of the content of an XML tag. -/
def xmlInput (engine : Engine) (serde : Serde Number) (inner : List Char) : Value Number :=
  match serde.fromStr inner with
  | some parsed => parsed
  | none =>
    let args := (extractXmlPairs engine inner).foldl (fun args pair =>
      if isXmlMetaTag pair.1 || pair.2.isEmpty then args
      else insertMember pair.1 (.string pair.2) args) []
    if args.isEmpty then .object [("content".toList, .string inner)] else .object args

def parseXmlBlock (engine : Engine) (serde : Serde Number) (content : List Char)
    (counterStart : Nat) : List (ParsedToolCall Number) :=
  let direct := match serde.fromStr (trim content) with
    | some parsed => parseJsonValueAsToolCalls serde parsed counterStart
    | none => []
  if direct.isEmpty then
    (extractXmlPairs engine (trim content)).zipIdx.filterMap fun entry =>
      if isXmlMetaTag entry.1.1 || entry.1.2.isEmpty then none
      else some ⟨countedId "fallback_call_".toList (counterStart + entry.2), entry.1.1,
        xmlInput engine serde entry.1.2⟩
  else direct

/-- The earlier of a tag found before and the first occurrence of another one. -/
def earlierTag (haystack : List Char) (best : Option (List Char × List Char × List Char))
    (tag : List Char) : Option (List Char × List Char × List Char) :=
  match find tag haystack, best with
  | none, _ => best
  | some (before, after), none => some (before, tag, after)
  | some (before, after), some (first, _, _) =>
    if before.length < first.length then some (before, tag, after) else best

/-- The earliest of the tags in a text, with the text before and behind it. -/
def findFirstTag (tags : List (List Char)) (haystack : List Char) :
    Option (List Char × List Char × List Char) :=
  tags.foldl (earlierTag haystack) none

def matchingCloseTag (openTag : List Char) : Option (List Char) :=
  (toolCallOpenTags.zip toolCallCloseTags).lookup openTag

/-- The close tag of a block: the one of its open tag, or else the first of any. -/
def matchedClose (openTag content : List Char) : Option (List Char × List Char × List Char) :=
  let exact := (matchingCloseTag openTag).bind fun closeTag =>
    (find closeTag content).map fun parts => (parts.1, closeTag, parts.2)
  exact.or (findFirstTag toolCallCloseTags content)

/-- A tag of the list in its place in the text. -/
def PlacedIn (haystack : List Char) (tags : List (List Char))
    (found : Option (List Char × List Char × List Char)) : Prop :=
  ∀ before tag after, found = some (before, tag, after) →
    haystack = before ++ tag ++ after ∧ tag ∈ tags

theorem earlierTag_placed {best : Option (List Char × List Char × List Char)} (member : tag ∈ tags)
    (placed : PlacedIn haystack tags best) : PlacedIn haystack tags (earlierTag haystack best tag) := by
  intro before tag' after result
  unfold earlierTag at result
  split at result
  · exact placed before tag' after result
  · rename_i found
    cases result
    exact ⟨find_eq_some found, member⟩
  · rename_i found
    split at result
    · cases result
      exact ⟨find_eq_some found, member⟩
    · exact placed before tag' after result

theorem findFirstTag_parts (found : findFirstTag tags haystack = some (before, tag, after)) :
    haystack = before ++ tag ++ after ∧ tag ∈ tags := by
  have placed : PlacedIn haystack tags (tags.foldl (earlierTag haystack) none) := by
    refine foldlRecOn tags (earlierTag haystack) (fun _ _ _ same => by cases same) ?_
    intro best good tag member
    exact earlierTag_placed member good
  exact placed before tag after found

theorem matchedClose_parts (found : matchedClose openTag content = some (block, closeTag, after)) :
    content = block ++ closeTag ++ after := by
  unfold matchedClose at found
  cases exact : (matchingCloseTag openTag).bind fun closeTag =>
      (find closeTag content).map fun parts => (parts.1, closeTag, parts.2) with
  | none =>
    rw [exact, Option.none_or] at found
    exact (findFirstTag_parts found).1
  | some parts =>
    rw [exact, Option.some_or] at found
    cases found
    obtain ⟨tag, _, mapped⟩ := Option.bind_eq_some_iff.mp exact
    obtain ⟨⟨before, behind⟩, occurs, same⟩ := Option.map_eq_some_iff.mp mapped
    cases same
    exact find_eq_some occurs

theorem openTag_pos : ∀ tag ∈ toolCallOpenTags, 0 < tag.length := by decide

theorem length_block_lt
    (foundOpen : findFirstTag toolCallOpenTags text = some (before, openTag, content))
    (foundClose : matchedClose openTag content = some (block, closeTag, after)) :
    after.length < text.length := by
  obtain ⟨textEq, member⟩ := findFirstTag_parts foundOpen
  have positive := openTag_pos openTag member
  rw [textEq, matchedClose_parts foundClose]
  simp only [length_append]
  omega

/-- The loop of `extract_xml_tool_calls` from the given counter on. -/
def extractXmlToolCalls (engine : Engine) (serde : Serde Number) (counter : Nat)
    (text : List Char) : List Char × List (ParsedToolCall Number) :=
  match _foundOpen : findFirstTag toolCallOpenTags text with
  | none => (text, [])
  | some (before, openTag, content) =>
    match _foundClose : matchedClose openTag content with
    | none => (before ++ openTag ++ content, [])
    | some (block, closeTag, after) =>
      let calls := parseXmlBlock engine serde block counter
      let parsed := extractXmlToolCalls engine serde (counter + calls.length) after
      if calls.isEmpty then (before ++ openTag ++ block ++ closeTag ++ parsed.1, parsed.2)
      else (before ++ parsed.1, calls ++ parsed.2)
  termination_by text.length
  decreasing_by exact length_block_lt _foundOpen _foundClose

/-- `find_matching_brace`: the text through the brace that closes the first one,
and the text behind it. -/
def findMatchingBrace (depth : Int) (inString escape : Bool) :
    List Char → Option (List Char × List Char)
  | [] => none
  | char :: rest =>
    let go (depth : Int) (inString escape : Bool) :=
      (findMatchingBrace depth inString escape rest).map fun parts => (char :: parts.1, parts.2)
    if escape then go depth inString false
    else if char = '\\' ∧ inString then go depth inString true
    else if char = '"' then go depth (!inString) false
    else if inString then go depth inString false
    else if char = '{' then go (depth + 1) inString false
    else if char = '}' then
      if depth - 1 = 0 then some ([char], rest) else go (depth - 1) inString false
    else go depth inString false

/-- The content of a fenced block behind its opening fence, and the text behind the
block. -/
def fencedBlock (codeBlock : List Char) : Option (List Char × List Char) :=
  let content := match splitOnce '\n' codeBlock with
    | some (_, content) => content
    | none => codeBlock
  find "```".toList content

/-- `strip_prefix` with a code fence. -/
def stripFence (text : List Char) : Option (List Char) :=
  if "```".toList.isPrefixOf text then some (text.drop 3) else none

def extractContentAfterBracket (text : List Char) : List Char :=
  let rest := trimStart text
  match (stripFence rest).bind fencedBlock with
  | some (content, _) => trim content
  | none =>
    let braced := if rest.head? = some '{' then findMatchingBrace 0 false false rest else none
    match braced with
    | some (through, _) => trim through
    | none => trim (rest.takeWhile fun char => char ≠ '\n')

/-- The text behind the code block, the object or the line at the front of a text. -/
def findCodeBlockEnd (text : List Char) : Option (List Char) :=
  let trimmed := trimStart text
  match stripFence trimmed with
  | some codeBlock => (fencedBlock codeBlock).map fun parts => parts.2
  | none =>
    if trimmed.head? = some '{' then
      (findMatchingBrace 0 false false trimmed).map fun parts => parts.2
    else
      match splitOnce '\n' trimmed with
      | some (_, rest) => some rest
      | none => some []

def buildBracketArgs (serde : Serde Number) (toolName content : List Char) : Value Number :=
  match serde.fromStr (trim content) with
  | some (.object members) => .object members
  | _ =>
    if toolName = "shell".toList then .object [("command".toList, .string content)]
    else if toolName = "file_read".toList then .object [("path".toList, .string content)]
    else if toolName = "file_write".toList then
      let parts := (splitOnce '\n' content).getD (content, [])
      .object [("content".toList, .string (trim parts.2)), ("path".toList, .string (trim parts.1))]
    else if toolName = "memory_store".toList then .object [("content".toList, .string content)]
    else if toolName = "memory_recall".toList then .object [("query".toList, .string content)]
    else if toolName = "browser".toList ∨ toolName = "browser_open".toList then
      .object [("url".toList, .string content)]
    else .object [("input".toList, .string content)]

/-- The braced text and the text behind it. -/
theorem findMatchingBrace_parts {depth : Int} {inString escape : Bool} {through : List Char}
    (found : findMatchingBrace depth inString escape text = some (through, rest)) :
    text = through ++ rest ∧ through ≠ [] := by
  induction text generalizing depth inString escape through with
  | nil => cases found
  | cons char others ih =>
    have mapped : ∀ (depth : Int) (inString escape : Bool),
        ((findMatchingBrace depth inString escape others).map fun parts =>
          (char :: parts.1, parts.2)) = some (through, rest) →
            char :: others = through ++ rest ∧ through ≠ [] := by
      intro depth inString escape same
      obtain ⟨⟨front, back⟩, here, parts⟩ := Option.map_eq_some_iff.mp same
      cases parts
      rw [(ih here).1]
      exact ⟨rfl, List.cons_ne_nil _ _⟩
    simp only [findMatchingBrace] at found
    repeat' split at found
    all_goals first
      | exact mapped _ _ _ found
      | (cases found; exact ⟨rfl, List.cons_ne_nil _ _⟩)

theorem findMatchingBrace_isSuffix {depth : Int} {inString escape : Bool} {through : List Char}
    (found : findMatchingBrace depth inString escape text = some (through, rest)) :
    rest <:+ text :=
  ⟨through, (findMatchingBrace_parts found).1.symm⟩

theorem findCodeBlockEnd_length
    (found : findCodeBlockEnd text = some rest) : rest.length ≤ text.length := by
  have trimmed : (trimStart text).length ≤ text.length := length_trimStart_le text
  unfold findCodeBlockEnd at found
  dsimp only at found
  split at found
  · rename_i codeBlock stripped
    have block : codeBlock.length ≤ (trimStart text).length := by
      unfold stripFence at stripped
      split at stripped
      · cases stripped
        exact (List.drop_suffix _ _).length_le
      · cases stripped
    obtain ⟨⟨content, behind⟩, fenced, same⟩ := Option.map_eq_some_iff.mp found
    cases same
    unfold fencedBlock at fenced
    have parts := congrArg List.length (find_eq_some fenced)
    have inner : (match splitOnce '\n' codeBlock with
        | some (_, content) => content
        | none => codeBlock).length ≤ codeBlock.length := by
      split
      · rename_i split
        exact (splitOnce_isSuffix split).length_le
      · exact Nat.le_refl _
    simp only [List.length_append] at parts
    show behind.length ≤ text.length
    omega
  · split at found
    · obtain ⟨⟨through, behind⟩, braced, same⟩ := Option.map_eq_some_iff.mp found
      cases same
      exact Nat.le_trans (findMatchingBrace_isSuffix braced).length_le trimmed
    · split at found
      · rename_i split
        cases found
        exact Nat.le_trans (splitOnce_isSuffix split).length_le trimmed
      · cases found
        exact Nat.zero_le _

/-- The text behind a bracket tag and its arguments. -/
def bracketRest (afterTag : List Char) : List Char :=
  if (extractContentAfterBracket afterTag).isEmpty then afterTag
  else (findCodeBlockEnd afterTag).getD afterTag

theorem length_bracketRest_le (afterTag : List Char) :
    (bracketRest afterTag).length ≤ afterTag.length := by
  unfold bracketRest
  split
  · exact Nat.le_refl _
  · cases found : findCodeBlockEnd afterTag with
    | none => exact Nat.le_refl _
    | some rest => exact findCodeBlockEnd_length found

def bracketOpen : List Char := "[[tool_call:".toList

theorem length_bracket_lt {name afterTag : List Char}
    (foundOpen : find bracketOpen text = some (before, content))
    (foundClose : find "]]".toList content = some (name, afterTag)) :
    (bracketRest afterTag).length < text.length := by
  have positive : 0 < bracketOpen.length := by decide
  have short := length_bracketRest_le afterTag
  rw [find_eq_some foundOpen, find_eq_some foundClose]
  simp only [List.length_append]
  omega

/-- The loop of `extract_bracket_tool_calls` from the given counter on. -/
def extractBracketToolCalls (serde : Serde Number) (counter : Nat) (text : List Char) :
    List Char × List (ParsedToolCall Number) :=
  match _foundOpen : find bracketOpen text with
  | none => (text, [])
  | some (before, content) =>
    match _foundClose : find "]]".toList content with
    | none => (before ++ bracketOpen ++ content, [])
    | some (name, afterTag) =>
      let call : ParsedToolCall Number :=
        ⟨countedId "bracket_call_".toList counter, trim name,
          buildBracketArgs serde (trim name) (extractContentAfterBracket afterTag)⟩
      let parsed := extractBracketToolCalls serde (counter + 1) (bracketRest afterTag)
      (before ++ parsed.1, call :: parsed.2)
  termination_by text.length
  decreasing_by exact length_bracket_lt _foundOpen _foundClose

def stripToolTags (engine : Engine) (text : List Char) : List Char :=
  let text := replaceAll engine toolResultXmlRe [] text
  let text := replaceAll engine toolCallXmlRe [] text
  let text := replaceAll engine thinkingBlockRe [] text
  let text := replaceAll engine bracketResultRe [] text
  let text := replaceAll engine bracketCallRe [] text
  let text := replaceAll engine toolResultsPrefixRe [] text
  trim (replaceAll engine excessBlankRe "\n\n".toList (trim text))

def parseFallbackResponse (engine : Engine) (serde : Serde Number) (text : List Char) :
    ParsedFallbackResponse Number :=
  let strippedThinking := replaceAll engine thinkingBlockRe [] text
  match parseJsonToolResponse serde strippedThinking with
  | some (displayText, toolCalls) => ⟨stripToolTags engine displayText, toolCalls⟩
  | none =>
    let invoked := extractMinimaxInvokeCalls engine serde strippedThinking
    let xml := extractXmlToolCalls engine serde 1 invoked.1
    let bracketed := extractBracketToolCalls serde 1 xml.1
    ⟨stripToolTags engine bracketed.1, invoked.2 ++ xml.2 ++ bracketed.2⟩

end Asterel.ToolProtocol
