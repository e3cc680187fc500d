import Asterel.Library.Search
import Mathlib.Data.List.Forall2

/-!
# Reasoning blocks

Removing the reasoning of a model from its text, `strip_reasoning`. The scanner
counts the `<think>` and `<reasoning>` tags it meets outside code and pushes the
characters met at depth zero. It enters a code fence or an inline code span at
every backtick marker, whether or not the marker is ever closed.

The reading of a text looks ahead instead: a marker without a closer is an
unbalanced one and opens no code.
-/

namespace Asterel.Reasoning

variable (input : List Char) {rest : List Char} {depth : Nat} {span : Span} (state : State)

open Library List Function

/-- `starts_with_ascii_ci`. -/
def startsWithAsciiCi (haystack needle : List Char) : Bool :=
  (haystack.take needle.length).map Char.toLower = needle.map Char.toLower

inductive TagName where
  | think
  | reasoning
  deriving DecidableEq

/-- An opening or a closing tag. -/
structure Tag where
  name : TagName
  closing : Bool
  deriving DecidableEq

/-- `OPEN_THINK`, `CLOSE_THINK`, `OPEN_REASONING` and `CLOSE_REASONING`. -/
def Tag.text : Tag → List Char
  | ⟨.think, false⟩ => "<think>".toList
  | ⟨.think, true⟩ => "</think>".toList
  | ⟨.reasoning, false⟩ => "<reasoning>".toList
  | ⟨.reasoning, true⟩ => "</reasoning>".toList

/-- The tag a text begins with. -/
def tagAt (rest : List Char) : Option Tag :=
  if startsWithAsciiCi rest (Tag.text ⟨.think, false⟩) then some ⟨.think, false⟩
  else if startsWithAsciiCi rest (Tag.text ⟨.reasoning, false⟩) then some ⟨.reasoning, false⟩
  else if startsWithAsciiCi rest (Tag.text ⟨.think, true⟩) then some ⟨.think, true⟩
  else if startsWithAsciiCi rest (Tag.text ⟨.reasoning, true⟩) then some ⟨.reasoning, true⟩
  else none

/-- The redaction depth behind a tag. -/
def Tag.depthAfter (tag : Tag) (depth : Nat) : Nat := if tag.closing then depth - 1 else depth + 1

/-- The two kinds of code. -/
inductive Span where
  | fence
  | inline
  deriving DecidableEq

/-- The marker which begins and ends the code. -/
def Span.marker : Span → List Char
  | .fence => ['`', '`', '`']
  | .inline => ['`']

/-- The local variables of the loop in `strip_reasoning`. -/
structure State where
  redactionDepth : Nat
  inCodeFence : Bool
  inInlineCode : Bool

def State.start : State := ⟨0, false, false⟩

/-- What one turn of the loop does: how many characters the cursor moves over,
whether they are pushed to the output, and the variables of the next turn. -/
structure Turn where
  consumed : Nat
  pushed : Bool
  next : State

/-- The body of the loop in `strip_reasoning`. -/
def turn (state : State) (rest : List Char) : Turn :=
  let visible := state.redactionDepth == 0
  if !state.inInlineCode && Span.fence.marker.isPrefixOf rest then
    ⟨3, visible, { state with inCodeFence := !state.inCodeFence }⟩
  else if !state.inCodeFence && Span.inline.marker.isPrefixOf rest then
    ⟨1, visible, { state with inInlineCode := !state.inInlineCode }⟩
  else
    match if !state.inCodeFence && !state.inInlineCode then tagAt rest else none with
    | some tag =>
      ⟨tag.text.length, false, { state with redactionDepth := tag.depthAfter state.redactionDepth }⟩
    | none => ⟨1, visible, state⟩

theorem tag_text_length (tag : Tag) : 0 < tag.text.length := by
  obtain ⟨name, closing⟩ := tag
  cases name <;> cases closing <;> decide

theorem consumed_pos (rest : List Char) : 0 < (turn state rest).consumed := by
  unfold turn
  split
  · exact Nat.succ_pos _
  · split
    · exact Nat.succ_pos _
    · split
      · exact tag_text_length _
      · exact Nat.succ_pos _

theorem length_drop_lt {text : List Char} {amount : Nat} (moves : 0 < amount)
    (nonempty : text ≠ []) : (text.drop amount).length < text.length := by
  have positive : 0 < text.length := length_pos_iff.mpr nonempty
  rw [length_drop]
  omega

/-- The pieces of the text the cursor moves over in turn, with whether each is
pushed to the output. -/
def pieces (state : State) (rest : List Char) : List (List Char × Bool) :=
  if _nonempty : rest = [] then []
  else
    (rest.take (turn state rest).consumed, (turn state rest).pushed) ::
      pieces (turn state rest).next (rest.drop (turn state rest).consumed)
  termination_by rest.length
  decreasing_by exact length_drop_lt (consumed_pos state rest) _nonempty

/-- `strip_reasoning`. -/
def stripReasoning (input : List Char) : List Char :=
  ((pieces State.start input).filter fun piece => piece.2).flatMap fun piece => piece.1

/-- For each character of the input, whether it is pushed to the output. -/
def pushedFlags (input : List Char) : List Bool :=
  (pieces State.start input).flatMap fun piece => replicate piece.1.length piece.2

/-! ## The reading of a text -/

/-- A part of a text: closed code, a tag outside code, a marker without a
closer, or another character. -/
inductive Segment where
  | code (span : Span) (body : List Char)
  | tag (tag : Tag) (text : List Char)
  | unbalanced (span : Span)
  | plain (char : Char)
  deriving DecidableEq

def Segment.text : Segment → List Char
  | .code span body => span.marker ++ body ++ span.marker
  | .tag _ text => text
  | .unbalanced span => span.marker
  | .plain char => [char]

def Segment.isTag : Segment → Bool
  | .tag _ _ => true
  | _ => false

def Segment.isUnbalanced : Segment → Bool
  | .unbalanced _ => true
  | _ => false

/-- The kind of code whose marker the text begins with. -/
def spanAt (text : List Char) : Option Span :=
  if Span.fence.marker.isPrefixOf text then some .fence
  else if Span.inline.marker.isPrefixOf text then some .inline
  else none

theorem marker_pos (span : Span) : 0 < span.marker.length := by
  cases span <;> decide

theorem length_after_lt {text before after : List Char} (nonempty : text ≠ [])
    (found : find span.marker (text.drop span.marker.length) = some (before, after)) :
    after.length < text.length := by
  have shorter : (text.drop span.marker.length).length < text.length :=
    length_drop_lt (marker_pos span) nonempty
  rw [find_eq_some found] at shorter
  simp only [length_append] at shorter
  omega

/-- The parts of a text. Code runs to the first closer behind its marker. -/
def read (text : List Char) : List Segment :=
  match text with
  | [] => []
  | char :: rest =>
    match spanAt (char :: rest) with
    | some span =>
      match _found : find span.marker ((char :: rest).drop span.marker.length) with
      | some (body, after) => .code span body :: read after
      | none => .unbalanced span :: read ((char :: rest).drop span.marker.length)
    | none =>
      match tagAt (char :: rest) with
      | some tag =>
        .tag tag ((char :: rest).take tag.text.length) :: read ((char :: rest).drop tag.text.length)
      | none => .plain char :: read rest
  termination_by text.length
  decreasing_by
    · exact length_after_lt (cons_ne_nil _ _) _found
    · exact length_drop_lt (marker_pos span) (cons_ne_nil _ _)
    · exact length_drop_lt (tag_text_length tag) (cons_ne_nil _ _)
    · exact Nat.lt_succ_self _

/-- The depth behind a part. -/
def Segment.depthAfter : Segment → Nat → Nat
  | .tag mark _, depth => mark.depthAfter depth
  | _, depth => depth

/-- The text of a list of parts. -/
def textOf (segments : List Segment) : List Char := segments.flatMap Segment.text

/-- How many blocks of the given name are open behind the parts. -/
def openBlocks (name : TagName) (segments : List Segment) : Nat :=
  segments.foldl (fun depth segment =>
    match segment with
    | .tag tag _ => if tag.name = name then tag.depthAfter depth else depth
    | _ => depth) 0

/-- How many blocks are open behind the parts when the names of the tags are
not regarded. -/
def depthBehind (segments : List Segment) : Nat :=
  segments.foldl (fun depth segment => segment.depthAfter depth) 0

/-- Whether the parts hold the closing tag of an open block, behind the given
number of nested blocks of the same name. -/
def closes (name : TagName) : Nat → List Segment → Bool
  | _, [] => false
  | nested, .tag tag _ :: rest =>
    if tag.name = name then
      if tag.closing then
        if nested = 0 then true else closes name (nested - 1) rest
      else closes name (nested + 1) rest
    else closes name nested rest
  | nested, _ :: rest => closes name nested rest

/-- A place in the text is in a block of the given name when such a block is open
there and is closed behind it. -/
def inBlock (name : TagName) (before after : List Segment) : Bool :=
  decide (0 < openBlocks name before) && closes name 0 after

/-- A part lies inside a block when the places before and behind it are in a
block of one name. -/
def inside (before : List Segment) (segment : Segment) (after : List Segment) : Bool :=
  [TagName.think, TagName.reasoning].any fun name =>
    inBlock name before (segment :: after) && inBlock name (before ++ [segment]) after

/-- For each character of the parts, whether it lies inside a block. -/
def insideFrom (before : List Segment) : List Segment → List Bool
  | [] => []
  | segment :: rest =>
    replicate segment.text.length (inside before segment rest) ++
      insideFrom (before ++ [segment]) rest

/-- For each character of the input, whether it lies inside a reasoning block
opened outside code. -/
def insideFlags (input : List Char) : List Bool := insideFrom [] (read input)

/-- No character inside a reasoning block is pushed to the output. -/
def HidesBlocks (input : List Char) : Prop :=
  Forall₂ (fun within pushed => within = true → pushed = false)
    (insideFlags input) (pushedFlags input)

/-- No tag stands outside closed code. -/
def TagFree (text : List Char) : Prop := ∀ segment ∈ read text, segment.isTag = false

/-! ## The scanner against the reading -/

/-- The characters of a list of pieces with the flag of their piece. -/
def spread (pieces : List (List Char × Bool)) : List (Char × Bool) :=
  pieces.flatMap fun piece => piece.1.map fun char => (char, piece.2)

/-- The parts of a text, met at the given depth, with whether the scanner pushes
them. Behind an unbalanced marker the depth stays as it is. -/
def shown : Nat → List Segment → List (Segment × Bool)
  | _, [] => []
  | depth, .tag tag text :: rest => (.tag tag text, false) :: shown (tag.depthAfter depth) rest
  | depth, .unbalanced span :: rest =>
    (.unbalanced span, depth == 0) :: rest.map fun segment => (segment, depth == 0)
  | depth, .code span body :: rest => (.code span body, depth == 0) :: shown depth rest
  | depth, .plain char :: rest => (.plain char, depth == 0) :: shown depth rest

def State.outside (depth : Nat) : State := ⟨depth, false, false⟩

/-- The variables within code of the given kind. -/
def State.within (depth : Nat) : Span → State
  | .fence => ⟨depth, true, false⟩
  | .inline => ⟨depth, false, true⟩

theorem turn_span (begins : spanAt rest = some span) :
    turn (State.outside depth) rest =
      ⟨span.marker.length, depth == 0, State.within depth span⟩ := by
  unfold spanAt at begins
  split at begins
  · rename_i fence
    cases begins
    simp only [turn, State.outside, fence, Bool.not_false, Bool.true_and, if_true]
    rfl
  · rename_i noFence
    split at begins
    · rename_i inline
      cases begins
      simp only [turn, State.outside, noFence, inline, Bool.not_false, Bool.true_and, if_true]
      rfl
    · cases begins

theorem turn_tag {tag : Tag} (noSpan : spanAt rest = none) (begins : tagAt rest = some tag) :
    turn (State.outside depth) rest =
      ⟨tag.text.length, false, State.outside (tag.depthAfter depth)⟩ := by
  unfold spanAt at noSpan
  split at noSpan
  · cases noSpan
  · rename_i noFence
    split at noSpan
    · cases noSpan
    · rename_i noInline
      simp [turn, State.outside, noFence, noInline, begins]

theorem turn_plain (noSpan : spanAt rest = none) (noTag : tagAt rest = none) :
    turn (State.outside depth) rest = ⟨1, depth == 0, State.outside depth⟩ := by
  unfold spanAt at noSpan
  split at noSpan
  · cases noSpan
  · rename_i noFence
    split at noSpan
    · cases noSpan
    · rename_i noInline
      simp [turn, State.outside, noFence, noInline, noTag]

theorem turn_closer (begins : span.marker <+: rest) :
    turn (State.within depth span) rest =
      ⟨span.marker.length, depth == 0, State.outside depth⟩ := by
  have marked : span.marker.isPrefixOf rest = true := isPrefixOf_iff_prefix.mpr begins
  cases span with
  | fence =>
    simp only [turn, State.within, marked, Bool.not_false, Bool.true_and, if_true]
    rfl
  | inline =>
    simp only [turn, State.within, marked, Bool.not_false, Bool.not_true, Bool.true_and,
      Bool.false_and, Bool.false_eq_true, if_true, if_false]
    rfl

theorem turn_body (later : ¬ span.marker <+: rest) :
    turn (State.within depth span) rest = ⟨1, depth == 0, State.within depth span⟩ := by
  have unmarked : span.marker.isPrefixOf rest = false :=
    Bool.eq_false_iff.mpr (mt isPrefixOf_iff_prefix.mp later)
  cases span with
  | fence => simp [turn, State.within, unmarked]
  | inline => simp [turn, State.within, unmarked]

@[simp] theorem pieces_nil : pieces state [] = [] := by
  rw [pieces, dif_pos rfl]

theorem pieces_cons (char : Char) (rest : List Char) :
    pieces state (char :: rest) = ((char :: rest).take (turn state (char :: rest)).consumed,
        (turn state (char :: rest)).pushed) ::
      pieces (turn state (char :: rest)).next
        ((char :: rest).drop (turn state (char :: rest)).consumed) := by
  rw [pieces, dif_neg (cons_ne_nil _ _)]

@[simp] theorem spread_nil : spread [] = [] := rfl

@[simp] theorem spread_cons (piece : List Char × Bool) (rest : List (List Char × Bool)) :
    spread (piece :: rest) = (piece.1.map fun char => (char, piece.2)) ++ spread rest := rfl

/-- Within code the scanner moves to the first closer, one character a turn. -/
theorem spread_within {text body after : List Char}
    (found : find span.marker text = some (body, after)) :
    spread (pieces (State.within depth span) text) =
      ((body ++ span.marker).map fun char => (char, depth == 0)) ++
        spread (pieces (State.outside depth) after) := by
  induction text generalizing body with
  | nil => cases span <;> cases found
  | cons char rest ih =>
    by_cases begins : span.marker <+: char :: rest
    · rw [find_of_isPrefix begins] at found
      cases found
      have marker : (char :: rest).take span.marker.length = span.marker :=
        (prefix_iff_eq_take.mp begins).symm
      rw [pieces_cons, turn_closer begins, spread_cons, marker]
      rfl
    · rw [find_cons begins, Option.map_eq_some_iff] at found
      obtain ⟨⟨earlier, later⟩, restFound, same⟩ := found
      cases same
      rw [pieces_cons, turn_body begins, spread_cons]
      exact congrArg ((char, depth == 0) :: ·) (ih restFound)

/-- Behind a marker without a closer the scanner never leaves the code. -/
theorem spread_unclosed {text : List Char} (missing : find span.marker text = none) :
    spread (pieces (State.within depth span) text) = text.map fun char => (char, depth == 0) := by
  induction text with
  | nil => simp
  | cons char rest ih =>
    by_cases begins : span.marker <+: char :: rest
    · rw [find_of_isPrefix begins] at missing
      cases missing
    · rw [find_cons begins, Option.map_eq_none_iff] at missing
      rw [pieces_cons, turn_body begins, spread_cons]
      exact congrArg ((char, depth == 0) :: ·) (ih missing)

theorem take_marker {text : List Char} (begins : spanAt text = some span) :
    text.take span.marker.length = span.marker := by
  have marked : span.marker <+: text := by
    unfold spanAt at begins
    split at begins
    · rename_i fence
      cases begins
      exact isPrefixOf_iff_prefix.mp fence
    · split at begins
      · rename_i inline
        cases begins
        exact isPrefixOf_iff_prefix.mp inline
      · cases begins
  exact (prefix_iff_eq_take.mp marked).symm

/-- The parts of a text make up the text. -/
theorem textOf_read (text : List Char) : textOf (read text) = text := by
  fun_induction read text with
  | case1 => rfl
  | case2 char rest span begins body after found ih =>
    have marker : (char :: rest).take span.marker.length = span.marker := take_marker begins
    calc textOf (.code span body :: read after)
        = span.marker ++ (body ++ span.marker ++ textOf (read after)) := by
          simp [textOf, Segment.text]
      _ = span.marker ++ (body ++ span.marker ++ after) := by rw [ih]
      _ = (char :: rest).take span.marker.length ++ (char :: rest).drop span.marker.length := by
          rw [← find_eq_some found, marker]
      _ = char :: rest := take_append_drop _ _
  | case3 char rest span begins missing ih =>
    have marker : (char :: rest).take span.marker.length = span.marker := take_marker begins
    calc textOf (.unbalanced span :: read ((char :: rest).drop span.marker.length))
        = span.marker ++ textOf (read ((char :: rest).drop span.marker.length)) := rfl
      _ = (char :: rest).take span.marker.length ++ (char :: rest).drop span.marker.length := by
          rw [ih, marker]
      _ = char :: rest := take_append_drop _ _
  | case4 char rest noSpan tag begins ih =>
    calc textOf (.tag tag ((char :: rest).take tag.text.length) ::
            read ((char :: rest).drop tag.text.length))
        = (char :: rest).take tag.text.length ++
            textOf (read ((char :: rest).drop tag.text.length)) := rfl
      _ = (char :: rest).take tag.text.length ++ (char :: rest).drop tag.text.length := by
          rw [ih]
      _ = char :: rest := take_append_drop _ _
  | case5 char rest noSpan noTag ih =>
    exact congrArg (char :: ·) ih

/-- The pieces of a list of flagged parts. -/
def piecesOf (parts : List (Segment × Bool)) : List (List Char × Bool) :=
  parts.map fun part => (part.1.text, part.2)

theorem spread_same (flag : Bool) (segments : List Segment) :
    spread (piecesOf (segments.map fun segment => (segment, flag))) =
      (textOf segments).map fun char => (char, flag) := by
  induction segments with
  | nil => rfl
  | cons segment rest ih =>
    have restSame : spread (piecesOf (rest.map fun segment => (segment, flag))) =
        (textOf rest).map fun char => (char, flag) := ih
    simp only [map_cons, piecesOf, textOf, flatMap_cons, map_append, spread_cons]
    exact congrArg ((segment.text.map fun char => (char, flag)) ++ ·) restSame

/-- The scanner pushes the characters of the parts the reading shows. -/
theorem spread_pieces (depth : Nat) (text : List Char) :
    spread (pieces (State.outside depth) text) = spread (piecesOf (shown depth (read text))) := by
  fun_induction read text generalizing depth with
  | case1 => rw [pieces_nil]; rfl
  | case2 char rest span begins body after found ih =>
    rw [pieces_cons, turn_span begins, spread_cons, take_marker begins, spread_within found, ih]
    simp [shown, piecesOf, Segment.text]
  | case3 char rest span begins missing ih =>
    rw [pieces_cons, turn_span begins, spread_cons, take_marker begins, spread_unclosed missing]
    have same := spread_same (depth == 0) (read ((char :: rest).drop span.marker.length))
    rw [textOf_read] at same
    rw [← same]
    rfl
  | case4 char rest noSpan tag begins ih =>
    rw [pieces_cons, turn_tag noSpan begins, spread_cons, ih]
    rfl
  | case5 char rest noSpan noTag ih =>
    rw [pieces_cons, turn_plain noSpan noTag, spread_cons]
    exact congrArg ((char, depth == 0) :: ·) (ih depth)

theorem spread_filter (pieces : List (List Char × Bool)) :
    ((spread pieces).filter fun entry => entry.2).map (fun entry => entry.1) =
      (pieces.filter fun piece => piece.2).flatMap fun piece => piece.1 := by
  induction pieces with
  | nil => rfl
  | cons piece rest ih =>
    obtain ⟨text, pushed⟩ := piece
    cases pushed with
    | true => simp [filter_map, comp_def, ih]
    | false => simp [filter_map, comp_def, ih]

theorem spread_flags (pieces : List (List Char × Bool)) :
    (spread pieces).map (fun entry => entry.2) =
      pieces.flatMap fun piece => replicate piece.1.length piece.2 := by
  induction pieces with
  | nil => rfl
  | cons piece rest ih =>
    simp [ih, comp_def, map_const']

/-- The parts left when the blocks are removed. -/
def kept (depth : Nat) (segments : List Segment) : List Segment :=
  ((shown depth segments).filter fun part => part.2).map fun part => part.1

/-- The flags of the characters of a list of flagged parts. -/
def flagsOf (parts : List (Segment × Bool)) : List Bool :=
  parts.flatMap fun part => replicate part.1.text.length part.2

/-- The output is the text of the parts left. -/
theorem stripReasoning_eq :
    stripReasoning input = textOf (kept 0 (read input)) := by
  have same := spread_pieces 0 input
  calc stripReasoning input
      = ((spread (pieces State.start input)).filter fun entry => entry.2).map
          (fun entry => entry.1) := (spread_filter _).symm
    _ = ((spread (piecesOf (shown 0 (read input)))).filter fun entry => entry.2).map
          (fun entry => entry.1) := by rw [← same]; rfl
    _ = textOf (kept 0 (read input)) := by
        rw [spread_filter]
        simp [piecesOf, textOf, kept, filter_map, flatMap_map, comp_def]

theorem pushedFlags_eq :
    pushedFlags input = flagsOf (shown 0 (read input)) := by
  have same := spread_pieces 0 input
  calc pushedFlags input
      = (spread (pieces State.start input)).map (fun entry => entry.2) := (spread_flags _).symm
    _ = (spread (piecesOf (shown 0 (read input)))).map (fun entry => entry.2) := by
        rw [← same]
        rfl
    _ = flagsOf (shown 0 (read input)) := by
        rw [spread_flags]
        simp [piecesOf, flagsOf, flatMap_map]

end Asterel.Reasoning
