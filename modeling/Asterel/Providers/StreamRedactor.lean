import Asterel.Utils.CharBoundary
import Asterel.Utils.InternalPrompt
import Asterel.Utils.Reasoning

/-!
# The redactor of a streamed reply

The redactor takes the deltas of a reply and gives out what may be shown of them. It
holds back the end of what it has read as long as this may be the front of a tag or of
a code fence, so what it does with a character does not depend on where the deltas are
cut. What it shows goes through a filter for internal prompt blocks, one character at
a time.
-/

namespace Asterel.StreamRedactor

open Library Library.Text Reasoning InternalPrompt List CharBoundary
open Chunker (byteLength)
open CharBoundary (floorCharBoundary)

/-- `REASONING_OPEN_TAGS`. -/
def reasoningOpenTags : List (List Char) := ["<think>".toList, "<reasoning>".toList]

/-- `REASONING_CLOSE_TAGS`. -/
def reasoningCloseTags : List (List Char) := ["</think>".toList, "</reasoning>".toList]

/-- `REDACTION_CONTROL_TOKENS`. -/
def redactionControlTokens : List (List Char) :=
  ["```".toList, "<think>".toList, "</think>".toList, "<reasoning>".toList, "</reasoning>".toList]

inductive CodeContext where
  | plain
  | codeFence
  | inlineCode
deriving DecidableEq

def CodeContext.inCodeFence (context : CodeContext) : Bool := context = .codeFence

def CodeContext.inInlineCode (context : CodeContext) : Bool := context = .inlineCode

def CodeContext.toggleCodeFence (context : CodeContext) : CodeContext :=
  if context.inCodeFence then .plain else .codeFence

def CodeContext.toggleInlineCode (context : CodeContext) : CodeContext :=
  if context.inInlineCode then .plain else .inlineCode

/-- The fields of the redactor that the removal of reasoning uses. -/
structure TagState where
  redactionDepth : Nat
  codeContext : CodeContext
deriving DecidableEq

/-- The fields of the redactor that the removal of internal prompt blocks uses. -/
structure BlockState where
  internalBlockActive : Bool
  internalLineCandidate : List Char
  bufferingInternalHeader : Bool
deriving DecidableEq

/-- `ReasoningStreamRedactor`. -/
structure Redactor where
  showReasoning : Bool
  pending : List Char
  tags : TagState
  blocks : BlockState

/-- `ReasoningStreamRedactor::new`. -/
def Redactor.new (showReasoning : Bool) : Redactor :=
  ⟨showReasoning, [], ⟨0, .plain⟩, ⟨false, [], false⟩⟩

section Tags

inductive TagMatch where
  | opens (tagLen : Nat)
  | closes (tagLen : Nat)
  | incomplete
  | none
deriving DecidableEq

/-- A control token is ASCII, so a text that begins it has as many bytes as characters. -/
def hasIncompleteControlSuffix (control suffix : List Char) : Bool :=
  suffix ≠ [] && byteLength suffix < byteLength control && startsWithAsciiCi control suffix

/-- One of the loops of `match_reasoning_tag`. -/
def matchTags (rest : List Char) (flushAll : Bool) (found : Nat → TagMatch) :
    List (List Char) → TagMatch
  | [] => .none
  | tag :: tags =>
    if startsWithAsciiCi rest tag then found tag.length
    else if !flushAll && byteLength rest < byteLength tag && startsWithAsciiCi tag rest then
      .incomplete
    else matchTags rest flushAll found tags

def matchReasoningTag (rest : List Char) (flushAll : Bool) (openTags closeTags : List (List Char)) :
    TagMatch :=
  match matchTags rest flushAll .opens openTags with
  | .none => matchTags rest flushAll .closes closeTags
  | other => other

def consumeCodeFence (state : TagState) (rest : List Char) :
    Option (Nat × List Char × TagState) :=
  if state.codeContext.inInlineCode || !Span.fence.marker.isPrefixOf rest then none
  else
    some (3, if state.redactionDepth = 0 then Span.fence.marker else [],
      { state with codeContext := state.codeContext.toggleCodeFence })

def consumeInlineCode (state : TagState) (rest : List Char) :
    Option (Nat × List Char × TagState) :=
  if state.codeContext.inCodeFence || !Span.inline.marker.isPrefixOf rest then none
  else
    some (1, if state.redactionDepth = 0 then Span.inline.marker else [],
      { state with codeContext := state.codeContext.toggleInlineCode })

def consumeReasoningTag (state : TagState) (rest : List Char) (flushAll : Bool) :
    TagMatch × TagState :=
  match matchReasoningTag rest flushAll reasoningOpenTags reasoningCloseTags with
  | .opens tagLen => (.opens tagLen, { state with redactionDepth := state.redactionDepth + 1 })
  | .closes tagLen => (.closes tagLen, { state with redactionDepth := state.redactionDepth - 1 })
  | other => (other, state)

/-- The end of the loop body in `process_pending`: the next character. -/
def consumeChar (state : TagState) : List Char → Option (Nat × List Char × TagState)
  | [] => none
  | char :: _ => some (1, if state.redactionDepth = 0 then [char] else [], state)

/-- The loop body in `process_pending` at a place before the safe limit: how many
characters the cursor moves over, what they add to the output, and the state behind
them; nothing where the loop breaks. -/
def consume (state : TagState) (rest : List Char) (flushAll : Bool) :
    Option (Nat × List Char × TagState) :=
  match consumeCodeFence state rest with
  | some consumed => some consumed
  | none =>
    match consumeInlineCode state rest with
    | some consumed => some consumed
    | none =>
      if !state.codeContext.inCodeFence && !state.codeContext.inInlineCode then
        match consumeReasoningTag state rest flushAll with
        | (.opens tagLen, next) => some (tagLen, [], next)
        | (.closes tagLen, next) => some (tagLen, [], next)
        | (.incomplete, _) => none
        | (.none, _) => consumeChar state rest
      else consumeChar state rest

/-- The most bytes of a control token that are not all of it. -/
def maxTailBytes : Nat := (redactionControlTokens.map fun token => byteLength token - 1).foldl max 0

/-- `pending_safe_limit`. -/
def pendingSafeLimit (pending : List Char) : Nat :=
  let searchStart := floorCharBoundary pending (byteLength pending - maxTailBytes)
  let starts := (List.range pending.length).filter fun start =>
    searchStart ≤ start && redactionControlTokens.any fun token =>
        hasIncompleteControlSuffix token (pending.drop start)
  starts.foldl min pending.length

end Tags

section Pending

/-- The loop in `process_pending` from a place on, with the number of characters before
the safe limit: the output, the state and what stays pending. A turn moves over at least
one character, so there are at most as many turns as characters before the limit. -/
def processFrom (flushAll : Bool) : Nat → Nat → TagState → List Char →
    List Char × TagState × List Char
  | 0, _, state, rest => ([], state, rest)
  | turns + 1, limit, state, rest =>
    if limit = 0 then ([], state, rest)
    else if !state.codeContext.inInlineCode && Span.fence.marker.isPrefixOf rest &&
        limit < 3 && !flushAll then
      ([], state, rest)
    else
      match consume state rest flushAll with
      | none => ([], state, rest)
      | some (consumed, output, next) =>
        let later := processFrom flushAll turns (limit - consumed) next (rest.drop consumed)
        (output ++ later.1, later.2)

/-- `process_pending`. -/
def processPending (state : TagState) (pending : List Char) (flushAll : Bool) :
    List Char × TagState × List Char :=
  let safeLimit := if flushAll then pending.length else pendingSafeLimit pending
  processFrom flushAll safeLimit safeLimit state pending

end Pending

section Blocks

/-- The loop body in `redact_internal_prompt_blocks`. -/
def redactChar (state : BlockState) (char : Char) : List Char × BlockState :=
  let candidate := state.internalLineCandidate ++ [char]
  if state.internalBlockActive then
    if char = '\n' then
      ([], { state with
        internalBlockActive := !(trim candidate = []), internalLineCandidate := [] })
    else ([], { state with internalLineCandidate := candidate })
  else if state.bufferingInternalHeader then
    if char = '\n' then
      if isInternalPromptBlockHeader (trim candidate) then ([], ⟨true, [], false⟩)
      else (candidate, ⟨false, [], false⟩)
    else ([], { state with internalLineCandidate := candidate })
  else if char = '[' then
    ([], { state with bufferingInternalHeader := true, internalLineCandidate := candidate })
  else ([char], state)

def redactChars : BlockState → List Char → List Char × BlockState
  | state, [] => ([], state)
  | state, char :: rest =>
    let later := redactChars (redactChar state char).2 rest
    ((redactChar state char).1 ++ later.1, later.2)

/-- The end of `redact_internal_prompt_blocks` when everything is flushed: what of a
buffered line is let through, and the state. -/
def flushBlocks (state : BlockState) : List Char × BlockState :=
  let buffered :=
    if state.bufferingInternalHeader then
      (if isInternalPromptBlockHeader (trim state.internalLineCandidate) then []
        else state.internalLineCandidate,
        { state with bufferingInternalHeader := false, internalLineCandidate := [] })
    else ([], state)
  if buffered.2.internalBlockActive then
    (buffered.1, { buffered.2 with internalLineCandidate := [], internalBlockActive := false })
  else buffered

/-- `redact_internal_prompt_blocks`. -/
def redactInternalPromptBlocks (state : BlockState) (input : List Char) (flushAll : Bool) :
    List Char × BlockState :=
  let redacted := redactChars state input
  if flushAll then
    (redacted.1 ++ (flushBlocks redacted.2).1, (flushBlocks redacted.2).2)
  else redacted

end Blocks

/-- `visible_delta`. -/
def visibleDelta (redactor : Redactor) (incomingDelta : List Char) : List Char × Redactor :=
  if redactor.showReasoning then
    let redacted := redactInternalPromptBlocks redactor.blocks incomingDelta false
    (redacted.1, { redactor with blocks := redacted.2 })
  else
    let processed := processPending redactor.tags (redactor.pending ++ incomingDelta) false
    let redacted := redactInternalPromptBlocks redactor.blocks processed.1 false
    (redacted.1,
      { redactor with pending := processed.2.2, tags := processed.2.1, blocks := redacted.2 })

/-- `finish_visible`. -/
def finishVisible (redactor : Redactor) : List Char × Redactor :=
  if redactor.showReasoning then
    let redacted := redactInternalPromptBlocks redactor.blocks [] true
    (redacted.1, { redactor with blocks := redacted.2 })
  else
    let processed := processPending redactor.tags redactor.pending true
    let redacted := redactInternalPromptBlocks redactor.blocks processed.1 true
    (redacted.1,
      { redactor with pending := processed.2.2, tags := processed.2.1, blocks := redacted.2 })

/-- What the redactor shows of the deltas, one after the other. -/
def visibleDeltas : Redactor → List (List Char) → List Char × Redactor
  | redactor, [] => ([], redactor)
  | redactor, delta :: deltas =>
    let shown := visibleDelta redactor delta
    let later := visibleDeltas shown.2 deltas
    (shown.1 ++ later.1, later.2)

/-- All that is shown of a reply. -/
def streamed (showReasoning : Bool) (deltas : List (List Char)) : List Char :=
  let shown := visibleDeltas (Redactor.new showReasoning) deltas
  shown.1 ++ (finishVisible shown.2).1

section Turns

variable {token : List Char} {state : TagState}

def TagState.toState (state : TagState) : State :=
  ⟨state.redactionDepth, state.codeContext.inCodeFence, state.codeContext.inInlineCode⟩

/-- No control token begins with the text without ending in it. -/
def Decided (rest : List Char) : Prop :=
  rest ≠ [] ∧ ∀ token ∈ redactionControlTokens, hasIncompleteControlSuffix token rest = false

def tagMatchOf : Option Tag → TagMatch
  | some tag => if tag.closing then .closes tag.text.length else .opens tag.text.length
  | none => .none

/-- Where no tag is incomplete, the first tag that the text begins with is found. -/
theorem matchTags_eq {rest : List Char} {flushAll : Bool} {found : Nat → TagMatch}
    {tags : List (List Char)}
    (settled : flushAll = true ∨ ∀ tag ∈ tags, hasIncompleteControlSuffix tag rest = false)
    (nonempty : rest ≠ []) :
    matchTags rest flushAll found tags = match tags.find? (startsWithAsciiCi rest) with
      | some tag => found tag.length
      | none => .none := by
  induction tags with
  | nil => rfl
  | cons tag tags ih =>
    have complete : (!flushAll && byteLength rest < byteLength tag && startsWithAsciiCi tag rest) =
        false := by
      rcases settled with flush | none
      · rw [flush]
        rfl
      · have whole := none tag mem_cons_self
        rw [hasIncompleteControlSuffix, decide_eq_true nonempty, Bool.true_and] at whole
        rw [Bool.and_assoc, whole, Bool.and_false]
    have later := ih
      (settled.imp_right fun none other member => none other (mem_cons_of_mem _ member))
    rw [matchTags, complete, find?_cons]
    cases begins : startsWithAsciiCi rest tag with
    | true => rfl
    | false => exact later

theorem matchReasoningTag_eq {rest : List Char} {flushAll : Bool}
    (settled : flushAll = true ∨ Decided rest) (nonempty : rest ≠ []) :
    matchReasoningTag rest flushAll reasoningOpenTags reasoningCloseTags =
      tagMatchOf (tagAt rest) := by
  have opening : ∀ tag ∈ reasoningOpenTags, tag ∈ redactionControlTokens := by
    simp [reasoningOpenTags, redactionControlTokens]
  have closing : ∀ tag ∈ reasoningCloseTags, tag ∈ redactionControlTokens := by
    simp [reasoningCloseTags, redactionControlTokens]
  rw [matchReasoningTag, matchTags_eq (settled.imp_right fun decided tag member =>
      decided.2 tag (opening tag member)) nonempty,
    matchTags_eq (settled.imp_right fun decided tag member =>
      decided.2 tag (closing tag member)) nonempty]
  have texts : reasoningOpenTags = [Tag.text ⟨.think, false⟩, Tag.text ⟨.reasoning, false⟩] ∧
      reasoningCloseTags = [Tag.text ⟨.think, true⟩, Tag.text ⟨.reasoning, true⟩] := ⟨rfl, rfl⟩
  rw [texts.1, texts.2]
  simp only [find?_cons, find?_nil, tagAt]
  by_cases thinks : startsWithAsciiCi rest (Tag.text ⟨.think, false⟩) = true
  · simp [thinks, tagMatchOf]
  · by_cases reasons : startsWithAsciiCi rest (Tag.text ⟨.reasoning, false⟩) = true
    · simp [thinks, reasons, tagMatchOf]
    · by_cases thought : startsWithAsciiCi rest (Tag.text ⟨.think, true⟩) = true
      · simp [thinks, reasons, thought, tagMatchOf]
      · by_cases reasoned : startsWithAsciiCi rest (Tag.text ⟨.reasoning, true⟩) = true
        · simp [thinks, reasons, thought, reasoned, tagMatchOf]
        · simp [thinks, reasons, thought, reasoned, tagMatchOf]

theorem take_marker {span : Span} {rest : List Char} (begins : span.marker.isPrefixOf rest = true) :
    rest.take span.marker.length = span.marker :=
  (prefix_iff_eq_take.mp (List.isPrefixOf_iff_prefix.mp begins)).symm

theorem consumeCodeFence_eq {rest : List Char}
    (fence : (!state.toState.inInlineCode && Span.fence.marker.isPrefixOf rest) = true) :
    consumeCodeFence state rest = some (3, if state.redactionDepth == 0 then rest.take 3 else [],
        ⟨state.redactionDepth, state.codeContext.toggleCodeFence⟩) := by
  obtain ⟨outside, begins⟩ := Bool.and_eq_true_iff.mp fence
  have front : rest.take 3 = Span.fence.marker := take_marker begins
  have plain : state.codeContext.inInlineCode = false := by
    simpa [TagState.toState] using outside
  rw [consumeCodeFence, plain, begins, front]
  simp

theorem consumeInlineCode_eq {rest : List Char}
    (inline : (!state.toState.inCodeFence && Span.inline.marker.isPrefixOf rest) = true) :
    consumeInlineCode state rest = some (1, if state.redactionDepth == 0 then rest.take 1 else [],
        ⟨state.redactionDepth, state.codeContext.toggleInlineCode⟩) := by
  obtain ⟨outside, begins⟩ := Bool.and_eq_true_iff.mp inline
  have front : rest.take 1 = Span.inline.marker := take_marker begins
  have plain : state.codeContext.inCodeFence = false := by
    simpa [TagState.toState] using outside
  rw [consumeInlineCode, plain, begins, front]
  simp

theorem consumeCodeFence_none {rest : List Char}
    (noFence : ¬ (!state.toState.inInlineCode && Span.fence.marker.isPrefixOf rest) = true) :
    consumeCodeFence state rest = none := by
  have negated := congrArg not (Bool.eq_false_iff.mpr noFence)
  rw [Bool.not_and, Bool.not_not] at negated
  exact if_pos negated

theorem consumeInlineCode_none {rest : List Char}
    (noInline : ¬ (!state.toState.inCodeFence && Span.inline.marker.isPrefixOf rest) = true) :
    consumeInlineCode state rest = none := by
  have negated := congrArg not (Bool.eq_false_iff.mpr noInline)
  rw [Bool.not_and, Bool.not_not] at negated
  exact if_pos negated

theorem consumeChar_eq {rest : List Char} (nonempty : rest ≠ []) :
    consumeChar state rest =
      some (1, if state.redactionDepth == 0 then rest.take 1 else [], state) := by
  cases rest with
  | nil => exact absurd rfl nonempty
  | cons char rest => simp [consumeChar]

/-- Where no tag is incomplete, a turn of the redactor is a turn of `strip_reasoning`. -/
theorem consume_eq_turn {rest : List Char} {flushAll : Bool}
    (settled : flushAll = true ∨ Decided rest) (nonempty : rest ≠ []) :
    ∃ next : TagState, next.toState = (turn state.toState rest).next ∧
      consume state rest flushAll = some ((turn state.toState rest).consumed,
        if (turn state.toState rest).pushed then rest.take (turn state.toState rest).consumed
        else [], next) := by
  have tags := matchReasoningTag_eq settled nonempty
  have char := @consumeChar_eq state _ nonempty
  rw [consume]
  unfold turn
  by_cases fence : (!state.toState.inInlineCode && Span.fence.marker.isPrefixOf rest) = true
  · rw [if_pos fence, consumeCodeFence_eq fence]
    refine ⟨_, ?_, rfl⟩
    obtain ⟨depth, context⟩ := state
    cases context with
    | inlineCode => simp [TagState.toState, CodeContext.inInlineCode] at fence
    | plain => rfl
    | codeFence => rfl
  · rw [if_neg fence, consumeCodeFence_none fence]
    by_cases inline : (!state.toState.inCodeFence && Span.inline.marker.isPrefixOf rest) = true
    · rw [if_pos inline, consumeInlineCode_eq inline]
      refine ⟨_, ?_, rfl⟩
      obtain ⟨depth, context⟩ := state
      cases context with
      | codeFence => simp [TagState.toState, CodeContext.inCodeFence] at inline
      | plain => rfl
      | inlineCode => rfl
    · rw [if_neg inline, consumeInlineCode_none inline]
      cases outside : !state.codeContext.inCodeFence && !state.codeContext.inInlineCode with
      | false =>
        refine ⟨state, ?_, ?_⟩
        · simp [TagState.toState, outside]
        · simp [TagState.toState, outside, char]
      | true =>
        rw [consumeReasoningTag, tags]
        cases begins : tagAt rest with
        | none =>
          refine ⟨state, ?_, ?_⟩
          · simp [TagState.toState, outside]
          · simp [TagState.toState, outside, char, tagMatchOf]
        | some tag =>
          refine ⟨⟨tag.depthAfter state.redactionDepth, state.codeContext⟩, ?_, ?_⟩
          · simp [TagState.toState, outside]
          · cases closing : tag.closing with
            | true => simp [TagState.toState, outside, tagMatchOf, closing, Tag.depthAfter]
            | false => simp [TagState.toState, outside, tagMatchOf, closing, Tag.depthAfter]

theorem utf8Size_of_toLower {char : Char} (ascii : char.toLower.utf8Size = 1) :
    char.utf8Size = 1 := by
  unfold Char.toLower at ascii
  split at ascii
  · rename_i upper
    have small : char.val ≤ 127 := UInt32.le_trans upper.2 (by decide)
    exact Char.utf8Size_eq_one_iff.mpr small
  · exact ascii

theorem startsWithAsciiCi_iff {haystack needle : List Char} :
    startsWithAsciiCi haystack needle = true ↔
      needle.map Char.toLower <+: haystack.map Char.toLower := by
  rw [startsWithAsciiCi, decide_eq_true_iff, prefix_iff_eq_take, length_map, map_take]
  exact eq_comm

section

variable (member : token ∈ redactionControlTokens)
include member

/-- The control tokens are in ASCII and in lower case. -/
theorem controlTokens_ascii :
    (∀ char ∈ token, char.utf8Size = 1) ∧ token.map Char.toLower = token := by
  have checked : redactionControlTokens.all (fun token =>
      token.all (fun char => char.utf8Size == 1) && token.map Char.toLower == token) = true := by
    decide +kernel
  simpa using all_eq_true.mp checked token member

/-- A proper front of a control token, in any case, has fewer bytes. -/
theorem byteLength_front {front : List Char} (begins : front.map Char.toLower <+: token) :
    byteLength front = front.length ∧ byteLength token = token.length := by
  obtain ⟨ascii, _⟩ := controlTokens_ascii member
  refine ⟨byteLength_ascii ?_, byteLength_ascii ascii⟩
  intro char charMember
  exact utf8Size_of_toLower (ascii _ (begins.subset (mem_map_of_mem charMember)))

/-- A text that a control token begins without ending in it is not decided. -/
theorem not_decided {front : List Char}
    (begins : front.map Char.toLower <+: token) (shorter : front.length < token.length) :
    ¬ Decided front := by
  rintro ⟨nonempty, none⟩
  have bytes := byteLength_front member begins
  have starts : startsWithAsciiCi token front = true := by
    rwa [startsWithAsciiCi_iff, (controlTokens_ascii member).2]
  have whole := none token member
  rw [hasIncompleteControlSuffix, starts, bytes.1, bytes.2, decide_eq_true nonempty,
    decide_eq_true shorter] at whole
  cases whole

end

/-- A control token begins more of the text only if it begins the text. -/
theorem controlToken_append {rest : List Char} (decided : Decided rest)
    (member : token ∈ redactionControlTokens) {more : List Char}
    (begins : token <+: (rest ++ more).map Char.toLower) : token <+: rest.map Char.toLower := by
  rw [map_append] at begins
  rcases prefix_or_prefix_of_prefix begins (prefix_append _ _) with inside | beyond
  · exact inside
  · rcases Nat.lt_or_ge rest.length token.length with shorter | longer
    · exact absurd decided (not_decided member beyond shorter)
    · have same : rest.map Char.toLower = token :=
        beyond.eq_of_length_le (by rwa [length_map])
      rw [same]

theorem startsWithAsciiCi_append {rest : List Char} (decided : Decided rest)
    (member : token ∈ redactionControlTokens) (more : List Char) :
    startsWithAsciiCi (rest ++ more) token = startsWithAsciiCi rest token := by
  rw [Bool.eq_iff_iff, startsWithAsciiCi_iff, startsWithAsciiCi_iff, (controlTokens_ascii member).2]
  constructor
  · exact controlToken_append decided member
  · intro begins
    rw [map_append]
    exact begins.trans (prefix_append _ _)

theorem tagAt_append {rest : List Char} (decided : Decided rest) (more : List Char) :
    tagAt (rest ++ more) = tagAt rest := by
  have control : ∀ tag : Tag, tag.text ∈ redactionControlTokens := by
    rintro ⟨name, closing⟩
    cases name <;> cases closing <;> decide +kernel
  unfold tagAt
  simp only [startsWithAsciiCi_append decided (control _) more]

theorem fence_isPrefixOf_append {rest : List Char} (decided : Decided rest) (more : List Char) :
    Span.fence.marker.isPrefixOf (rest ++ more) = Span.fence.marker.isPrefixOf rest := by
  have member : Span.fence.marker ∈ redactionControlTokens := mem_cons_self
  rw [Bool.eq_iff_iff, isPrefixOf_iff_prefix, isPrefixOf_iff_prefix]
  constructor
  · intro begins
    rcases prefix_or_prefix_of_prefix begins (prefix_append _ _) with inside | beyond
    · exact inside
    · rcases Nat.lt_or_ge rest.length Span.fence.marker.length with shorter | longer
      · have lower : rest.map Char.toLower <+: Span.fence.marker := by
          rw [← (controlTokens_ascii member).2]
          exact beyond.map _
        exact absurd decided (not_decided member lower shorter)
      · rw [beyond.eq_of_length_le longer]
  · intro begins
    exact begins.trans (prefix_append _ _)

theorem inline_isPrefixOf_append {rest : List Char} (nonempty : rest ≠ []) (more : List Char) :
    Span.inline.marker.isPrefixOf (rest ++ more) = Span.inline.marker.isPrefixOf rest := by
  obtain ⟨char, rest, rfl⟩ := exists_cons_of_ne_nil nonempty
  rfl

/-- More text does not change what is done at a place that is decided. -/
theorem turn_append {rest : List Char} (decided : Decided rest) (state : State)
    (more : List Char) : turn state (rest ++ more) = turn state rest := by
  unfold turn
  rw [fence_isPrefixOf_append decided, inline_isPrefixOf_append decided.1, tagAt_append decided]

theorem tagAt_length {rest : List Char} {tag : Tag} (begins : tagAt rest = some tag) :
    tag.text.length ≤ rest.length := by
  have fits : ∀ needle, startsWithAsciiCi rest needle = true → needle.length ≤ rest.length := by
    intro needle starts
    simpa using (startsWithAsciiCi_iff.mp starts).length_le
  unfold tagAt at begins
  split at begins
  · rename_i starts
    exact Option.some.inj begins ▸ fits _ starts
  · split at begins
    · rename_i starts
      exact Option.some.inj begins ▸ fits _ starts
    · split at begins
      · rename_i starts
        exact Option.some.inj begins ▸ fits _ starts
      · split at begins
        · rename_i starts
          exact Option.some.inj begins ▸ fits _ starts
        · cases begins

/-- A turn moves over characters of the text only. -/
theorem consumed_le {state : State} {rest : List Char} (nonempty : rest ≠ []) :
    (turn state rest).consumed ≤ rest.length := by
  have one : 1 ≤ rest.length := length_pos_of_ne_nil nonempty
  unfold turn
  split
  · rename_i fence
    have begins := isPrefixOf_iff_prefix.mp (Bool.and_eq_true_iff.mp fence).2
    exact begins.length_le
  · split
    · exact one
    · split
      · rename_i tag begins
        split at begins
        · exact tagAt_length begins
        · cases begins
      · exact one

end Turns

section Runs

variable {text : List Char} (redactor : Redactor)

/-- `strip_reasoning` from the middle of a text on. -/
def stripFrom (state : State) (text : List Char) : List Char :=
  ((pieces state text).filter fun piece => piece.2).flatMap fun piece => piece.1

theorem stripFrom_nil (state : State) : stripFrom state [] = [] := by
  rw [stripFrom, pieces_nil]
  rfl

theorem stripFrom_turn (state : State) (nonempty : text ≠ []) :
    stripFrom state text =
      (if (turn state text).pushed then text.take (turn state text).consumed else []) ++
        stripFrom (turn state text).next (text.drop (turn state text).consumed) := by
  rw [stripFrom, pieces, dif_neg nonempty]
  cases pushed : (turn state text).pushed with
  | true => simp [stripFrom]
  | false => simp [stripFrom]

/-- Where every place before the limit is settled with regard to the text that comes
later, the loop does what `strip_reasoning` does. -/
theorem processFrom_strip {flushAll : Bool} {more : List Char} {turns limit : Nat}
    {state : TagState} {rest : List Char} (enough : limit ≤ turns) (inside : limit ≤ rest.length)
    (settled : ∀ place < limit, flushAll = true ∧ more = [] ∨ Decided (rest.drop place)) :
    stripFrom state.toState (rest ++ more) = (processFrom flushAll turns limit state rest).1 ++
        stripFrom (processFrom flushAll turns limit state rest).2.1.toState
          ((processFrom flushAll turns limit state rest).2.2 ++ more) := by
  induction turns generalizing limit state rest with
  | zero => rfl
  | succ turns ih =>
    rw [processFrom]
    split
    · rfl
    · rename_i positive
      split
      · rfl
      · have nonempty : rest ≠ [] := ne_nil_of_length_pos (by omega)
        have here := settled 0 (by omega)
        rw [drop_zero] at here
        obtain ⟨next, nextEq, consumes⟩ :=
          @consume_eq_turn state _ _ (here.imp_left And.left) nonempty
        have same : turn state.toState (rest ++ more) = turn state.toState rest := by
          rcases here with ⟨_, none⟩ | decided
          · rw [none, append_nil]
          · exact turn_append decided _ _
        have fits : (turn state.toState rest).consumed ≤ rest.length := consumed_le nonempty
        have moves := consumed_pos state.toState rest
        rw [consumes, stripFrom_turn _ (append_ne_nil_of_left_ne_nil nonempty _), same,
          take_append_of_le_length fits, drop_append_of_le_length fits, ← nextEq,
          @ih (limit - (turn state.toState rest).consumed) _ _ (by omega)
            (by rw [length_drop]; omega) ?_]
        · rw [append_assoc]
        · intro place before
          rw [drop_drop]
          exact settled _ (by omega)

/-- When everything is flushed, nothing stays pending. -/
theorem processFrom_flush {turns limit : Nat} {state : TagState} {rest : List Char}
    (enough : limit ≤ turns) (whole : rest.length ≤ limit) :
    (processFrom true turns limit state rest).2.2 = [] := by
  induction turns generalizing limit state rest with
  | zero =>
    have empty : rest = [] := eq_nil_of_length_eq_zero (by omega)
    rw [processFrom, empty]
  | succ turns ih =>
    by_cases ended : rest = []
    · rw [processFrom, ended]
      split
      · rfl
      · split
        · rfl
        · have noChar : consume state [] true = none := by
            obtain ⟨depth, context⟩ := state
            cases context <;> rfl
          rw [noChar]
    · have positive := length_pos_of_ne_nil ended
      obtain ⟨next, _, consumes⟩ := @consume_eq_turn state _ _ (.inl rfl) ended
      have moves := consumed_pos state.toState rest
      rw [processFrom, if_neg (by omega), Bool.not_true, Bool.and_false,
        if_neg Bool.false_ne_true, consumes]
      apply ih
      · omega
      · rw [length_drop]
        omega

theorem foldl_min_le (start : Nat) (list : List Nat) :
    list.foldl min start ≤ start ∧ ∀ member ∈ list, list.foldl min start ≤ member := by
  induction list generalizing start with
  | nil => exact ⟨Nat.le_refl _, forall_mem_nil _⟩
  | cons first rest ih =>
    obtain ⟨below, others⟩ := ih (min start first)
    refine ⟨Nat.le_trans below (Nat.min_le_left _ _), forall_mem_cons.mpr ⟨?_, others⟩⟩
    exact Nat.le_trans below (Nat.min_le_right _ _)

theorem safeLimit_le (pending : List Char) : pendingSafeLimit pending ≤ pending.length :=
  (foldl_min_le _ _).1

/-- No place before the safe limit begins a part of a control token. -/
theorem decided_of_lt_safeLimit {pending : List Char} {place : Nat}
    (before : place < pendingSafeLimit pending) : Decided (pending.drop place) := by
  have inside : place < pending.length := Nat.lt_of_lt_of_le before (safeLimit_le pending)
  constructor
  · apply ne_nil_of_length_pos
    rw [length_drop]
    omega
  · intro token member
    by_contra incomplete
    rw [Bool.not_eq_false] at incomplete
    have short : byteLength (pending.drop place) < byteLength token := by
      simp only [hasIncompleteControlSuffix, Bool.and_eq_true, decide_eq_true_eq] at incomplete
      exact incomplete.1.2
    have bound : ∀ control ∈ redactionControlTokens, byteLength control ≤ maxTailBytes + 1 := by
      decide +kernel
    have tail := bound token member
    have parts : byteLength pending =
        byteLength (pending.take place) + byteLength (pending.drop place) := by
      rw [← byteLength_append, take_append_drop]
    have searched : floorCharBoundary pending (byteLength pending - maxTailBytes) ≤ place := by
      have early := @floorCharBoundary_le (pending.take place)
        (pending.drop place) (byteLength pending - maxTailBytes) (by omega)
      rw [take_append_drop, length_take] at early
      omega
    have held : pendingSafeLimit pending ≤ place := by
      apply (foldl_min_le _ _).2
      rw [mem_filter, mem_range]
      refine ⟨inside, ?_⟩
      rw [decide_eq_true searched, Bool.true_and]
      exact any_eq_true.mpr ⟨token, member, incomplete⟩
    omega

/-- What a delta lets through, and what stays pending, is the text so far. -/
theorem processPending_strip (state : TagState) (pending more : List Char) :
    stripFrom state.toState (pending ++ more) = (processPending state pending false).1 ++
        stripFrom (processPending state pending false).2.1.toState
          ((processPending state pending false).2.2 ++ more) :=
  processFrom_strip (Nat.le_refl _) (safeLimit_le pending) fun _ before =>
    .inr (decided_of_lt_safeLimit before)

/-- The flush lets the rest of the text through. -/
theorem processPending_flush (state : TagState) (pending : List Char) :
    (processPending state pending true).1 = stripFrom state.toState pending := by
  have strip := @processFrom_strip _ [] _ _ state _ (Nat.le_refl pending.length)
    (Nat.le_refl _) fun _ _ => .inl ⟨rfl, rfl⟩
  rw [processFrom_flush (Nat.le_refl _) (Nat.le_refl _), append_nil, append_nil,
    stripFrom_nil, append_nil] at strip
  exact strip.symm

theorem redactChars_append (state : BlockState) (front back : List Char) :
    redactChars state (front ++ back) =
      ((redactChars state front).1 ++ (redactChars (redactChars state front).2 back).1,
        (redactChars (redactChars state front).2 back).2) := by
  induction front generalizing state with
  | nil => rfl
  | cons char front ih =>
    rw [cons_append, redactChars, redactChars, ih, append_assoc]

/-- The text without internal prompt blocks, as the redactor removes them. -/
def withoutBlocks (state : BlockState) (text : List Char) : List Char :=
  (redactInternalPromptBlocks state text true).1

theorem withoutBlocks_append (state : BlockState) (front back : List Char) :
    withoutBlocks state (front ++ back) = (redactInternalPromptBlocks state front false).1 ++
        withoutBlocks (redactInternalPromptBlocks state front false).2 back := by
  simp [withoutBlocks, redactInternalPromptBlocks, redactChars_append]

/-- What a redactor has still to show when a text is yet to come. -/
def toShow (redactor : Redactor) (text : List Char) : List Char :=
  withoutBlocks redactor.blocks
    (if redactor.showReasoning then text
      else stripFrom redactor.tags.toState (redactor.pending ++ text))

/-- A delta shows the front of what is to be shown. -/
theorem visibleDelta_toShow (delta text : List Char) :
    toShow redactor (delta ++ text) =
      (visibleDelta redactor delta).1 ++ toShow (visibleDelta redactor delta).2 text := by
  rw [visibleDelta]
  cases shows : redactor.showReasoning with
  | true => simp only [toShow, shows, if_true, withoutBlocks_append]
  | false =>
    simp only [toShow, shows, Bool.false_eq_true, if_false]
    rw [← append_assoc, processPending_strip, withoutBlocks_append]

theorem visibleDeltas_toShow (deltas : List (List Char)) (text : List Char) :
    toShow redactor (deltas.flatten ++ text) =
      (visibleDeltas redactor deltas).1 ++ toShow (visibleDeltas redactor deltas).2 text := by
  induction deltas generalizing redactor with
  | nil => rfl
  | cons delta deltas ih =>
    rw [flatten_cons, append_assoc, visibleDelta_toShow, ih, visibleDeltas, append_assoc]

/-- The flush shows what is still to be shown. -/
theorem finishVisible_toShow :
    (finishVisible redactor).1 = toShow redactor [] := by
  rw [finishVisible]
  cases shows : redactor.showReasoning with
  | true => simp only [toShow, shows, if_true, withoutBlocks]
  | false =>
    simp only [toShow, shows, Bool.false_eq_true, if_false, withoutBlocks, append_nil]
    rw [processPending_flush]

/-- What is shown depends on the text only, not on where the deltas cut it. -/
theorem streamed_eq (showReasoning : Bool) (deltas : List (List Char)) :
    streamed showReasoning deltas = withoutBlocks ⟨false, [], false⟩
        (if showReasoning then deltas.flatten else stripReasoning deltas.flatten) := by
  have shown := visibleDeltas_toShow (Redactor.new showReasoning) deltas []
  rw [append_nil, ← finishVisible_toShow] at shown
  rw [streamed, ← shown]
  rfl

theorem stripFrom_subset {state : State} {char : Char}
    (member : char ∈ stripFrom state text) : char ∈ text := by
  generalize length : text.length = size
  induction size using Nat.strongRecOn generalizing state text with
  | ind size ih =>
    by_cases ended : text = []
    · rwa [ended, stripFrom_nil, ← ended] at member
    · rw [stripFrom_turn _ ended, mem_append] at member
      rcases member with here | later
      · split at here
        · exact mem_of_mem_take here
        · cases here
      · have shorter := length_drop_lt (consumed_pos state text) ended
        exact mem_of_mem_drop (ih _ (by omega) later rfl)

theorem redactChars_plain (absent : '[' ∉ text) :
    redactChars ⟨false, [], false⟩ text = (text, ⟨false, [], false⟩) := by
  induction text with
  | nil => rfl
  | cons char text ih =>
    obtain ⟨first, others⟩ := not_or.mp (mt mem_cons.mpr absent)
    have step : redactChar ⟨false, [], false⟩ char = ([char], ⟨false, [], false⟩) :=
      if_neg (Ne.symm first)
    rw [redactChars, step, ih others]
    rfl

/-- A text without a bracket has no internal prompt block. -/
theorem withoutBlocks_plain (plain : '[' ∉ text) :
    withoutBlocks ⟨false, [], false⟩ text = text := by
  rw [withoutBlocks, redactInternalPromptBlocks, redactChars_plain plain]
  simp [flushBlocks]

/-- The deltas of a reply are shown as the whole reply is, and without a bracket in it as
`strip_reasoning` leaves it. -/
theorem streamed_chunked (deltas : List (List Char)) :
    (∀ showReasoning, streamed showReasoning deltas = streamed showReasoning [deltas.flatten]) ∧
      ('[' ∉ deltas.flatten → streamed false deltas = stripReasoning deltas.flatten) := by
  constructor
  · intro showReasoning
    rw [streamed_eq, streamed_eq, flatten_singleton]
  · intro plain
    rw [streamed_eq, if_neg Bool.false_ne_true]
    exact withoutBlocks_plain (mt stripFrom_subset plain)

theorem streamed_chunked_tag :
    streamed false ["answer <thi".toList, "nk>secret</thin".toList, "k> done".toList] =
      stripReasoning "answer <think>secret</think> done".toList :=
  (streamed_chunked _).2 (by decide +kernel)

end Runs

end Asterel.StreamRedactor
