import Asterel.Providers.StreamRedactor

/-!
# Internal prompt blocks in a streamed reply

The batch removal of internal prompt blocks looks at whole lines. The filter of the
stream looks for a bracket: it holds the line back from its first bracket on, and drops
this end of the line and the block behind it if it reads as a header. The two agree as
long as every header that begins a block begins with a bracket, no other line has a
header behind its first bracket, and no blank line parts a header from its block.
-/

namespace Asterel.StreamRedactor

open Library Library.Text Sessions InternalPrompt List

/-- The lines of a text with the line feeds that end them. -/
def rawLines (text : List Char) : List (List Char) :=
  let pieces := text.splitOn '\n'
  let ended := pieces.dropLast.map fun line => line ++ ['\n']
  match pieces.getLast? with
  | some (char :: rest) => ended ++ [char :: rest]
  | _ => ended

/-- What is shown of each line: of the last one also what the flush lets through. -/
def lineOutputs : BlockState → List (List Char) → List (List Char)
  | _, [] => []
  | state, [line] => [(redactInternalPromptBlocks state line true).1]
  | state, line :: next :: rest =>
    let redacted := redactInternalPromptBlocks state line false
    redacted.1 :: lineOutputs redacted.2 (next :: rest)

/-- The text that reaches the filter. -/
def seenText (showReasoning : Bool) (deltas : List (List Char)) : List Char :=
  if showReasoning then deltas.flatten else Reasoning.stripReasoning deltas.flatten

/-- What is shown of each line of a streamed reply. -/
def streamedLines (showReasoning : Bool) (deltas : List (List Char)) : List (List Char) :=
  lineOutputs ⟨false, [], false⟩ (rawLines (seenText showReasoning deltas))

/-- A line that the batch removal keeps is shown whole, and nothing but white space is
shown of a line that it removes. -/
def Agrees (kept : Bool) (line shown : List Char) : Prop :=
  if kept then shown = line else Blank shown

/-- The stream shows what the batch removal keeps, line by line. -/
def AgreesWithBatch (showReasoning : Bool) (deltas : List (List Char)) : Prop :=
  let text := seenText showReasoning deltas
  Forall₂ (fun entry shown => Agrees entry.1 entry.2 shown)
    ((keptFlags ⟨false, false⟩ (lines text)).zip (rawLines text))
    (streamedLines showReasoning deltas)

section Condition

def isHeaderLine (line : List Char) : Bool := isInternalPromptBlockHeader (trim line)

/-- The end of a line from its first bracket on. -/
def fromBracket (line : List Char) : List Char := line.dropWhile fun char => char ≠ '['

def beforeBracket (line : List Char) : List Char := line.takeWhile fun char => char ≠ '['

/-- The lines before end in a header and lines of text behind it. -/
def InBlock (before : List (List Char)) : Prop :=
  ∃ front header body, before = front ++ header :: body ∧ isHeaderLine header ∧
    ∀ line ∈ body, ¬ Blank line

/-- The lines before end in a header and blank lines behind it. -/
def BehindHeader (before : List (List Char)) : Prop :=
  ∃ front header gap, before = front ++ header :: gap ∧ isHeaderLine header ∧ gap ≠ [] ∧
    ∀ line ∈ gap, Blank line

/-- Outside of a block a header begins with a bracket, another line has no header behind
its first bracket, and a line of text does not follow on blank lines behind a header. -/
def Fits (before : List (List Char)) (line : List Char) : Prop :=
  ¬ InBlock before → (isHeaderLine line → (trim line).head? = some '[') ∧ (¬ isHeaderLine line →
        ¬ isHeaderLine (fromBracket line) ∧ (BehindHeader before → Blank line))

end Condition

section Lines

variable (text : List Char)

/-- A line with its line feed, or a last line without one. -/
def IsLine (line : List Char) : Prop :=
  '\n' ∉ line ∨ ∃ content, '\n' ∉ content ∧ line = content ++ ['\n']

/-- All lines but the last end in a line feed. -/
def AreLines : List (List Char) → Prop
  | [] => True
  | [line] => IsLine line
  | line :: rest => (∃ content, '\n' ∉ content ∧ line = content ++ ['\n']) ∧ AreLines rest

theorem areLines_append {ended rest : List (List Char)}
    (terminated : ∀ line ∈ ended, ∃ content, '\n' ∉ content ∧ line = content ++ ['\n'])
    (lines : AreLines rest) : AreLines (ended ++ rest) := by
  induction ended with
  | nil => exact lines
  | cons line ended ih =>
    have first := terminated line mem_cons_self
    have later := ih fun other member =>
      terminated other (mem_cons_of_mem _ member)
    cases whole : ended ++ rest with
    | nil =>
      rw [cons_append, whole]
      exact .inr first
    | cons next others =>
      rw [cons_append, whole]
      exact ⟨first, whole ▸ later⟩

/-- The pieces of a text are those in front of a line feed and the last one. -/
theorem splitOn_eq_concat :
    ∃ (ended : List (List Char)) (last : List Char), text.splitOn '\n' = ended ++ [last] ∧ '\n' ∉ last ∧
      (∀ piece ∈ ended, '\n' ∉ piece) ∧ (ended.map (· ++ ['\n'])).flatten ++ last = text := by
  have nonempty : text.splitOn '\n' ≠ [] := splitOnP_ne_nil _ _
  have cut := (dropLast_append_getLast nonempty).symm
  refine ⟨(text.splitOn '\n').dropLast, (text.splitOn '\n').getLast nonempty, cut,
    not_mem_piece (getLast_mem nonempty),
    fun piece member => not_mem_piece (mem_of_mem_dropLast member), ?_⟩
  rw [← intercalate_concat, ← cut]
  exact intercalate_splitOn '\n'

/-- The lines of a text with and without what ends them. -/
theorem rawLines_eq :
    ∃ ended rest : List (List Char), rawLines text = ended.map (· ++ ['\n']) ++ rest ∧
      lines text = ended.map (fun line =>
        if line.getLast? = some '\r' then line.dropLast else line) ++ rest ∧
      (∀ piece ∈ ended, '\n' ∉ piece) ∧
      (rest = [] ∨ ∃ last, '\n' ∉ last ∧ rest = [last]) ∧
      (ended.map (· ++ ['\n'])).flatten ++ rest.flatten = text := by
  obtain ⟨ended, last, pieces, absent, allAbsent, whole⟩ := splitOn_eq_concat text
  cases last with
  | nil =>
    refine ⟨ended, [], ?_, ?_, allAbsent, .inl rfl, by simpa using whole⟩
    · simp [rawLines, pieces]
    · simp [lines, pieces]
  | cons char rest =>
    refine ⟨ended, [char :: rest], ?_, ?_, allAbsent, .inr ⟨_, absent, rfl⟩, by simpa using whole⟩
    · simp [rawLines, pieces]
    · simp [lines, pieces]

/-- The lines are the text. -/
theorem rawLines_flatten : (rawLines text).flatten = text := by
  obtain ⟨ended, rest, raw, _, _, _, whole⟩ := rawLines_eq text
  rw [raw, flatten_append, whole]

theorem areLines_rawLines : AreLines (rawLines text) := by
  obtain ⟨ended, rest, raw, _, allAbsent, last, _⟩ := rawLines_eq text
  rw [raw]
  apply areLines_append
  · intro line member
    obtain ⟨piece, pieceMember, rfl⟩ := mem_map.mp member
    exact ⟨piece, allAbsent piece pieceMember, rfl⟩
  · rcases last with rfl | ⟨last, absent, rfl⟩
    · trivial
    · exact .inl absent

theorem trim_ended (line : List Char) :
    trim (line ++ ['\n']) = trim (if line.getLast? = some '\r' then line.dropLast else line) := by
  rw [trim_concat_white rfl]
  split
  · rename_i ending
    rw [getLast?_eq_some_iff] at ending
    obtain ⟨content, rfl⟩ := ending
    rw [trim_concat_white rfl, dropLast_concat]
  · rfl

/-- What the batch removal keeps depends on the trimmed lines. -/
theorem keptFlags_congr {first second : List (List Char)} (same : first.map trim = second.map trim)
    (state : Skipping) : keptFlags state first = keptFlags state second := by
  induction first generalizing second state with
  | nil =>
    cases second with
    | nil => rfl
    | cons => cases same
  | cons line first ih =>
    cases second with
    | nil => cases same
    | cons other second =>
      obtain ⟨head, tail⟩ := List.cons.inj same
      have here : skipLine state line = skipLine state other := by rw [skipLine, skipLine, head]
      rw [keptFlags, keptFlags, here, ih tail]

theorem keptFlags_lines (state : Skipping) :
    keptFlags state (lines text) = keptFlags state (rawLines text) := by
  obtain ⟨ended, rest, raw, stripped, _⟩ := rawLines_eq text
  apply keptFlags_congr
  rw [raw, stripped, map_append, map_append, map_map, map_map]
  congr 1
  apply map_congr_left
  intro line _
  exact (trim_ended line).symm

end Lines

section Stream

variable (active : Bool) {lines : List (List Char)} (candidate : List Char)
  {content front line rest : List Char}

/-- The filter between two lines, inside or outside of a block. -/
def betweenLines (active : Bool) : BlockState := ⟨active, [], false⟩

/-- What the filter shows of a line, and whether it is inside of a block behind it. -/
def redactLine (active : Bool) (line : List Char) : List Char × Bool :=
  if active then ([], !(trim line = []))
  else if isHeaderLine (fromBracket line) then (beforeBracket line, true)
  else (line, false)

def redactLines : Bool → List (List Char) → List (List Char)
  | _, [] => []
  | active, line :: rest =>
    (redactLine active line).1 :: redactLines (redactLine active line).2 rest

/-- Inside of a block, and behind a bracket, the filter holds everything back. -/
theorem redactChars_held {active buffering : Bool} (one : active = !buffering)
    (absent : '\n' ∉ content) :
    redactChars ⟨active, candidate, buffering⟩ content =
      ([], ⟨active, candidate ++ content, buffering⟩) := by
  induction content generalizing candidate with
  | nil => rw [append_nil, redactChars]
  | cons char content ih =>
    obtain ⟨first, others⟩ := not_or.mp (mt mem_cons.mpr absent)
    have step : redactChar ⟨active, candidate, buffering⟩ char =
        ([], ⟨active, candidate ++ [char], buffering⟩) := by
      cases buffering <;> simp [redactChar, one, Ne.symm first]
    rw [redactChars, step, ih _ others, append_assoc]
    rfl

/-- A line is cut at its first bracket. -/
theorem bracket_cut (plain : '[' ∉ front) :
    beforeBracket (front ++ '[' :: rest) = front ∧
      fromBracket (front ++ '[' :: rest) = '[' :: rest := by
  have all : ∀ char ∈ front, decide (char ≠ '[') = true := by
    intro char member
    exact decide_eq_true fun same => plain (same ▸ member)
  constructor
  · rw [beforeBracket, takeWhile_append_of_pos all]
    simp
  · rw [fromBracket, dropWhile_append_of_pos all]
    simp

theorem fromBracket_plain (plain : '[' ∉ line) : fromBracket line = [] := by
  apply dropWhile_eq_nil_iff.mpr
  intro char member
  exact decide_eq_true fun same => plain (same ▸ member)

theorem no_header_nil : isHeaderLine [] = false := by
  have nonempty : ∀ mark ∈ blockPrefixes, mark ≠ "" := by decide
  rw [isHeaderLine, isInternalPromptBlockHeader, any_eq_false]
  intro mark member begins
  have empty : mark.toList = [] := prefix_nil.mp (List.isPrefixOf_iff_prefix.mp begins)
  exact nonempty mark member (String.toList_eq_nil_iff.mp empty)

theorem redactLine_plain (plain : '[' ∉ line) :
    redactLine false line = (line, false) := by
  rw [redactLine, fromBracket_plain plain, no_header_nil]
  rfl

theorem redactLine_bracket (plain : '[' ∉ front) :
    redactLine false (front ++ '[' :: rest) =
      if isHeaderLine ('[' :: rest) then (front, true) else (front ++ '[' :: rest, false) := by
  rw [redactLine, (bracket_cut plain).1, (bracket_cut plain).2]
  rfl

/-- The filter holds a line back from its first bracket on. -/
theorem redactChars_bracket (plain : '[' ∉ front) (absent : '\n' ∉ rest) :
    redactChars ⟨false, [], false⟩ (front ++ '[' :: rest) =
      (front, ⟨false, '[' :: rest, true⟩) := by
  have bracket : redactChar ⟨false, [], false⟩ '[' = ([], ⟨false, ['['], true⟩) := rfl
  rw [redactChars_append, redactChars_plain plain, redactChars, bracket,
    redactChars_held _ (rfl : false = !true) absent]
  simp

/-- The filter at a line with its line feed. -/
theorem redactChars_ended (absent : '\n' ∉ content) :
    redactChars (betweenLines active) (content ++ ['\n']) =
      ((redactLine active (content ++ ['\n'])).1,
        betweenLines (redactLine active (content ++ ['\n'])).2) := by
  rw [redactChars_append, betweenLines]
  cases active with
  | true =>
    rw [redactChars_held _ (rfl : true = !false) absent]
    simp [redactChars, redactChar, redactLine, betweenLines]
  | false =>
    by_cases bracket : '[' ∈ content
    · obtain ⟨front, rest, rfl, plain⟩ := eq_append_cons_of_mem bracket
      have restAbsent : '\n' ∉ rest := fun member => absent (by simp [member])
      rw [redactChars_bracket plain restAbsent, append_assoc, cons_append,
        redactLine_bracket plain, isHeaderLine]
      by_cases header : isInternalPromptBlockHeader (trim ('[' :: (rest ++ ['\n']))) = true
      · simp [redactChars, redactChar, header, betweenLines]
      · simp [redactChars, redactChar, header, betweenLines]
    · have plain : '[' ∉ content ++ ['\n'] := by simp [bracket]
      rw [← redactChars_append, redactChars_plain plain, redactLine_plain plain]
      rfl

/-- The filter at the last line. -/
theorem withoutBlocks_last (isLine : IsLine line) :
    withoutBlocks (betweenLines active) line = (redactLine active line).1 := by
  rcases isLine with absent | ⟨content, absent, rfl⟩
  · cases active with
    | true =>
      rw [withoutBlocks, redactInternalPromptBlocks, betweenLines, redactChars_held _ (rfl : true = !false) absent]
      simp [flushBlocks, redactLine]
    | false =>
      by_cases bracket : '[' ∈ line
      · obtain ⟨front, rest, rfl, plain⟩ := eq_append_cons_of_mem bracket
        have restAbsent : '\n' ∉ rest := fun member => absent (by simp [member])
        rw [withoutBlocks, redactInternalPromptBlocks, betweenLines,
          redactChars_bracket plain restAbsent, redactLine_bracket plain, isHeaderLine]
        by_cases header : isInternalPromptBlockHeader (trim ('[' :: rest)) = true
        · simp [flushBlocks, header]
        · simp [flushBlocks, header]
      · rw [redactLine_plain bracket]
        exact withoutBlocks_plain bracket
  · rw [withoutBlocks, redactInternalPromptBlocks, redactChars_ended _ absent]
    cases (redactLine active (content ++ ['\n'])).2 <;> simp [flushBlocks, betweenLines]

/-- What is shown of each line. -/
theorem lineOutputs_eq (areLines : AreLines lines) :
    lineOutputs (betweenLines active) lines = redactLines active lines := by
  induction lines generalizing active with
  | nil => rfl
  | cons line rest ih =>
    cases rest with
    | nil => exact congrArg (· :: []) (withoutBlocks_last active areLines)
    | cons next rest =>
      obtain ⟨⟨content, absent, rfl⟩, later⟩ := areLines
      have redacted := redactChars_ended active absent
      rw [lineOutputs, redactInternalPromptBlocks, if_neg Bool.false_ne_true, redacted, redactLines,
        ih _ later]

/-- What is shown of the lines is what is shown of the text. -/
theorem lineOutputs_flatten (state : BlockState) (some : lines ≠ []) :
    (lineOutputs state lines).flatten = withoutBlocks state lines.flatten := by
  induction lines generalizing state with
  | nil => exact absurd rfl some
  | cons line rest ih =>
    cases rest with
    | nil => simp [lineOutputs, withoutBlocks]
    | cons next rest =>
      rw [flatten_cons, withoutBlocks_append, lineOutputs, flatten_cons, ih _ (cons_ne_nil _ _)]

theorem streamedLines_flatten (showReasoning : Bool) (deltas : List (List Char)) :
    (streamedLines showReasoning deltas).flatten = streamed showReasoning deltas := by
  have text : (rawLines (seenText showReasoning deltas)).flatten = seenText showReasoning deltas :=
    rawLines_flatten _
  rw [streamed_eq, streamedLines, ← seenText]
  by_cases none : rawLines (seenText showReasoning deltas) = []
  · rw [none] at text ⊢
    rw [← text]
    rfl
  · rw [lineOutputs_flatten _ none, text]

end Stream

section Agreement

variable {active : Bool} {before : List (List Char)} {line : List Char} {batch : Skipping}

theorem header_not_blank (header : isHeaderLine line = true) : ¬ Blank line := by
  intro blank
  rw [isHeaderLine, trim_eq_nil_iff.mpr blank] at header
  cases no_header_nil.symm.trans header

/-- A line is blank or has a first visible character. -/
theorem visible_cut (line : List Char) :
    Blank line ∨ ∃ white char rest, line = white ++ char :: rest ∧ Blank white ∧
      isWhitespace char = false ∧ (trim line).head? = some char := by
  induction line with
  | nil => exact .inl (forall_mem_nil _)
  | cons first line ih =>
    cases white : isWhitespace first with
    | true =>
      rcases ih with blank | ⟨front, char, rest, rfl, blank, visible, head⟩
      · exact .inl (forall_mem_cons.mpr ⟨white, blank⟩)
      · have firstBlank : Blank [first] := forall_mem_singleton.mpr white
        refine .inr ⟨first :: front, char, rest, rfl, forall_mem_cons.mpr ⟨white, blank⟩,
          visible, ?_⟩
        rw [← head, ← singleton_append, trim_append_blank firstBlank]
    | false =>
      refine .inr ⟨[], first, line, rfl, forall_mem_nil _, white, ?_⟩
      have ending := trimEnd_append_cons white [] line
      rw [nil_append, nil_append] at ending
      have start : trimStart (first :: line) = first :: line :=
        trimStart_eq_self fun char head => by
          cases head
          exact white
      rw [trim, start, ending]
      rfl

/-- A line is blank, begins with its first bracket, or with another character. -/
theorem bracket_cases (line : List Char) :
    (Blank line ∧ fromBracket line = []) ∨
      (∃ front rest, line = front ++ '[' :: rest ∧ '[' ∉ front ∧ Blank front ∧
        (trim line).head? = some '[' ∧ trim ('[' :: rest) = trim line) ∨
      (¬ Blank (beforeBracket line) ∧ (trim line).head? ≠ some '[') := by
  have noBracket : ∀ {text}, Blank text → '[' ∉ text := by
    intro text blank member
    exact absurd (blank _ member) (by decide)
  rcases visible_cut line with blank | ⟨white, char, rest, rfl, blank, visible, head⟩
  · exact .inl ⟨blank, fromBracket_plain (noBracket blank)⟩
  · by_cases bracket : char = '['
    · subst bracket
      exact .inr (.inl ⟨white, rest, rfl, noBracket blank, blank, head,
        (trim_append_blank blank _).symm⟩)
    · refine .inr (.inr ⟨?_, ?_⟩)
      · intro all
        have member : char ∈ beforeBracket (white ++ char :: rest) := by
          have front : ∀ char ∈ white, decide (char ≠ '[') = true := by
            intro other whiteMember
            exact decide_eq_true fun same => noBracket blank (same ▸ whiteMember)
          rw [beforeBracket, takeWhile_append_of_pos front]
          simp [bracket]
        rw [all char member] at visible
        cases visible
      · rw [head]
        simpa using bracket

theorem inBlock_concat :
    InBlock (before ++ [line]) ↔ isHeaderLine line = true ∨ InBlock before ∧ ¬ Blank line := by
  constructor
  · rintro ⟨front, header, body, same, isHeader, visible⟩
    rcases eq_nil_or_concat body with rfl | ⟨body, last, rfl⟩
    · obtain ⟨_, lineEq⟩ := append_inj' same rfl
      cases lineEq
      exact .inl isHeader
    · rw [concat_eq_append, ← cons_append, ← append_assoc] at same
      obtain ⟨rfl, lineEq⟩ := append_inj' same rfl
      cases lineEq
      refine .inr ⟨⟨front, header, body, rfl, isHeader, fun other member =>
        visible other (by simp [member])⟩, visible line (by simp)⟩
  · rintro (header | ⟨⟨front, header, body, rfl, isHeader, visible⟩, text⟩)
    · exact ⟨before, line, [], rfl, header, forall_mem_nil _⟩
    · refine ⟨front, header, body ++ [line], by simp, isHeader, ?_⟩
      intro other member
      rcases mem_append.mp member with inside | last
      · exact visible other inside
      · exact mem_singleton.mp last ▸ text

/-- The lines before end in a header. -/
def EndsInHeader (before : List (List Char)) : Prop :=
  ∃ front header, before = front ++ [header] ∧ isHeaderLine header = true

theorem endsInHeader_concat :
    EndsInHeader (before ++ [line]) ↔ isHeaderLine line = true := by
  constructor
  · rintro ⟨front, header, same, isHeader⟩
    obtain ⟨_, lineEq⟩ := append_inj' same rfl
    cases lineEq
    exact isHeader
  · intro header
    exact ⟨before, line, rfl, header⟩

theorem behindHeader_concat :
    BehindHeader (before ++ [line]) ↔ Blank line ∧ (BehindHeader before ∨ EndsInHeader before) := by
  constructor
  · rintro ⟨front, header, gap, same, isHeader, some, blank⟩
    rcases eq_nil_or_concat gap with rfl | ⟨gap, last, rfl⟩
    · exact absurd rfl some
    · rw [concat_eq_append, ← cons_append, ← append_assoc] at same
      obtain ⟨rfl, lineEq⟩ := append_inj' same rfl
      cases lineEq
      refine ⟨blank line (by simp), ?_⟩
      by_cases none : gap = []
      · subst none
        exact .inr ⟨front, header, rfl, isHeader⟩
      · exact .inl ⟨front, header, gap, rfl, isHeader, none, fun other member =>
          blank other (by simp [member])⟩
  · rintro ⟨blankLine, ⟨front, header, gap, rfl, isHeader, _, blank⟩ |
      ⟨front, header, rfl, isHeader⟩⟩
    · refine ⟨front, header, gap ++ [line], by simp, isHeader, by simp, ?_⟩
      intro other member
      rcases mem_append.mp member with inside | last
      · exact blank other inside
      · exact mem_singleton.mp last ▸ blankLine
    · exact ⟨front, header, [line], by simp, isHeader, by simp, forall_mem_singleton.mpr blankLine⟩

/-- How the two stand behind lines that they agree on. -/
structure Joint (before : List (List Char)) (batch : Skipping) (active : Bool) : Prop where
  active_iff : active = true ↔ InBlock before
  skipping_iff : batch.skippingBlock = true ↔ InBlock before ∨ BehindHeader before
  content_iff : batch.skippedBlockContent = true ↔ InBlock before ∧ ¬ EndsInHeader before

theorem inBlock_of_ends (ends : EndsInHeader before) :
    InBlock before := by
  obtain ⟨front, header, rfl, isHeader⟩ := ends
  exact inBlock_concat.mpr (.inl isHeader)

/-- A block ends where the blank lines begin. -/
theorem not_behindHeader (inBlock : InBlock before) :
    ¬ BehindHeader before := by
  intro behind
  rcases eq_nil_or_concat before with rfl | ⟨before, line, rfl⟩
  · obtain ⟨front, header, body, none, _⟩ := inBlock
    simp at none
  · rw [concat_eq_append] at inBlock behind
    have blank := (behindHeader_concat.mp behind).1
    rcases inBlock_concat.mp inBlock with header | ⟨_, text⟩
    · exact header_not_blank header blank
    · exact text blank

theorem joint_start : Joint [] ⟨false, false⟩ false := by
  have outside : ¬ InBlock [] := by
    rintro ⟨front, header, body, none, _⟩
    simp at none
  have notBehind : ¬ BehindHeader [] := by
    rintro ⟨front, header, gap, none, _⟩
    simp at none
  exact ⟨by simp [outside], by simp [outside, notBehind], by simp [outside]⟩

theorem skipLine_header (batch : Skipping) (header : isHeaderLine line = true) :
    skipLine batch line = (false, ⟨true, false⟩) := if_pos header

theorem skipLine_text (noHeader : ¬ isHeaderLine line = true) (text : ¬ Blank line) :
    skipLine batch line = (!batch.skippingBlock, ⟨batch.skippingBlock,
        batch.skippingBlock || batch.skippedBlockContent⟩) := by
  have notNil : trim line ≠ [] := mt trim_eq_nil_iff.mp text
  rw [skipLine, ← isHeaderLine, if_neg noHeader]
  obtain ⟨skipping, content⟩ := batch
  cases skipping with
  | true => simp [notNil]
  | false => simp

theorem skipLine_blank (blank : Blank line) :
    skipLine batch line = (!batch.skippingBlock,
        if batch.skippingBlock && batch.skippedBlockContent then ⟨false, false⟩ else batch) := by
  have noHeader : ¬ isHeaderLine line = true := fun header => header_not_blank header blank
  have empty : trim line = [] := trim_eq_nil_iff.mpr blank
  rw [skipLine, ← isHeaderLine, if_neg noHeader]
  obtain ⟨skipping, content⟩ := batch
  cases skipping <;> cases content <;> simp [empty]

/-- Outside of a block a line is shown up to a header behind its first bracket. -/
theorem redactLine_outside (line : List Char) :
    redactLine false line = (if isHeaderLine (fromBracket line) then beforeBracket line else line,
        isHeaderLine (fromBracket line)) := by
  rw [redactLine, if_neg Bool.false_ne_true]
  cases isHeaderLine (fromBracket line) <;> rfl

theorem beforeBracket_blank (blank : Blank line) : Blank (beforeBracket line) :=
  fun char member => blank char (takeWhile_subset _ member)

/-- A header outside of a block is hidden exactly if it begins with a bracket. -/
theorem header_hidden (header : isHeaderLine line = true) :
    Blank (redactLine false line).1 ↔ (trim line).head? = some '[' := by
  rcases bracket_cases line with ⟨blank, _⟩ | ⟨front, rest, rfl, plain, blank, head, same⟩ |
    ⟨text, other⟩
  · exact absurd blank (header_not_blank header)
  · have begins : isHeaderLine ('[' :: rest) = true := by rwa [isHeaderLine, same]
    rw [redactLine_bracket plain, if_pos begins]
    exact iff_of_true blank head
  · rw [redactLine_outside]
    refine iff_of_false ?_ other
    split
    · exact text
    · exact fun blank => text (beforeBracket_blank blank)

/-- Of a line of text that is no header something is shown. -/
theorem text_shown (noHeader : ¬ isHeaderLine line = true) :
    Blank (redactLine false line).1 ↔ Blank line := by
  rcases bracket_cases line with ⟨blank, none⟩ | ⟨front, rest, rfl, plain, blank, head, same⟩ |
    ⟨text, other⟩
  · rw [redactLine_outside, none, no_header_nil]
    rfl
  · have begins : ¬ isHeaderLine ('[' :: rest) = true := by rwa [isHeaderLine, same]
    rw [redactLine_bracket plain, if_neg begins]
  · rw [redactLine_outside]
    refine iff_of_false ?_ fun blank => text (beforeBracket_blank blank)
    split
    · exact text
    · exact fun blank => text (beforeBracket_blank blank)

/-- A blank line has no header behind a bracket. -/
theorem fromBracket_blank (blank : Blank line) :
    ¬ isHeaderLine (fromBracket line) = true := by
  have absent : '[' ∉ line := fun member => absurd (blank _ member) (by decide)
  rw [fromBracket_plain absent, no_header_nil]
  exact Bool.false_ne_true

/-- Behind its first bracket a line that begins with it is a header if the line is. -/
theorem fromBracket_header (head : (trim line).head? = some '[') :
    isHeaderLine (fromBracket line) = isHeaderLine line := by
  rcases bracket_cases line with ⟨blank, _⟩ | ⟨front, rest, rfl, plain, _, _, same⟩ | ⟨_, other⟩
  · rw [trim_eq_nil_iff.mpr blank] at head
    cases head
  · rw [(bracket_cut plain).2, isHeaderLine, same, isHeaderLine]
  · exact absurd head other

/-- A line is shown whole unless a header stands behind its first bracket. -/
theorem shown_whole (line : List Char) :
    (redactLine false line).1 = line ↔ ¬ isHeaderLine (fromBracket line) = true := by
  rw [redactLine_outside]
  by_cases hidden : isHeaderLine (fromBracket line) = true
  · rw [if_pos hidden]
    refine iff_of_false ?_ (not_not_intro hidden)
    intro whole
    have front : beforeBracket line = line := whole
    have cut : beforeBracket line ++ fromBracket line = line := takeWhile_append_dropWhile
    have none : fromBracket line = [] := by
      rw [front] at cut
      simpa using cut
    rw [none, no_header_nil] at hidden
    cases hidden
  · rw [if_neg hidden]
    exact iff_of_true rfl hidden

theorem skipLine_kept (batch : Skipping) (noHeader : ¬ isHeaderLine line = true) :
    (skipLine batch line).1 = !batch.skippingBlock := by
  by_cases blank : Blank line
  · rw [skipLine_blank blank]
  · rw [skipLine_text noHeader blank]

section

variable (joint : Joint before batch active)
include joint

/-- The two agree on a line exactly if it fits. -/
theorem agrees_iff_fits (line : List Char) :
    Agrees (skipLine batch line).1 line (redactLine active line).1 ↔ Fits before line := by
  by_cases inBlock : InBlock before
  · have skipping : batch.skippingBlock = true := joint.skipping_iff.mpr (.inl inBlock)
    have removed : (skipLine batch line).1 = false := by
      by_cases header : isHeaderLine line = true
      · rw [skipLine_header batch header]
      · rw [skipLine_kept batch header, skipping]
        rfl
    rw [joint.active_iff.mpr inBlock, removed]
    exact iff_of_true (forall_mem_nil _) fun outside => absurd inBlock outside
  · have outside : active = false := Bool.eq_false_iff.mpr (mt joint.active_iff.mp inBlock)
    have skipping : batch.skippingBlock = true ↔ BehindHeader before := by
      rw [joint.skipping_iff, or_iff_right inBlock]
    rw [outside, Fits, forall_prop_of_true inBlock]
    by_cases header : isHeaderLine line = true
    · rw [skipLine_header batch header]
      have hidden := header_hidden header
      constructor
      · intro blank
        exact ⟨fun _ => hidden.mp blank, absurd header⟩
      · intro fits
        exact hidden.mpr (fits.1 header)
    · rw [skipLine_kept batch header]
      by_cases behind : BehindHeader before
      · rw [skipping.mpr behind]
        have shown := text_shown header
        constructor
        · intro blank
          have blankLine := shown.mp blank
          exact ⟨fun isHeader => absurd isHeader header,
            fun _ => ⟨fromBracket_blank blankLine, fun _ => blankLine⟩⟩
        · intro fits
          exact shown.mpr ((fits.2 header).2 behind)
      · rw [Bool.eq_false_iff.mpr (mt skipping.mp behind)]
        have shown := shown_whole line
        constructor
        · intro whole
          exact ⟨fun isHeader => absurd isHeader header,
            fun _ => ⟨shown.mp whole, fun isBehind => absurd isBehind behind⟩⟩
        · intro fits
          exact shown.mpr (fits.2 header).1

/-- The filter is inside of a block behind a line that fits as the lines say. -/
theorem active_step (fits : Fits before line) :
    (redactLine active line).2 = true ↔ InBlock (before ++ [line]) := by
  rw [inBlock_concat]
  by_cases inBlock : InBlock before
  · rw [joint.active_iff.mpr inBlock]
    have text : (redactLine true line).2 = true ↔ ¬ Blank line := by
      simp [redactLine, trim_eq_nil_iff]
    rw [text]
    constructor
    · exact fun visible => .inr ⟨inBlock, visible⟩
    · rintro (header | ⟨_, visible⟩)
      · exact header_not_blank header
      · exact visible
  · rw [Bool.eq_false_iff.mpr (mt joint.active_iff.mp inBlock), redactLine_outside]
    obtain ⟨bracketed, plain⟩ := fits inBlock
    constructor
    · intro hidden
      by_contra neither
      exact (plain fun header => neither (.inl header)).1 hidden
    · rintro (header | ⟨inside, _⟩)
      · exact (fromBracket_header (bracketed header)).trans header
      · exact absurd inside inBlock

/-- Behind a line that fits the two stand together again. -/
theorem joint_step (fits : Fits before line) :
    Joint (before ++ [line]) (skipLine batch line).2 (redactLine active line).2 := by
  have skipping := joint.skipping_iff
  have content := joint.content_iff
  have exclusive := @not_behindHeader before
  have ends := @inBlock_of_ends before
  have text : ¬ isHeaderLine line = true → ¬ Blank line → ¬ InBlock before → ¬ BehindHeader before :=
    fun header visible outside behind => visible (((fits outside).2 header).2 behind)
  refine ⟨active_step joint fits, ?_, ?_⟩
  · rw [inBlock_concat, behindHeader_concat]
    by_cases header : isHeaderLine line = true
    · simp [skipLine_header batch header, header]
    · by_cases blank : Blank line
      · rw [skipLine_blank blank]
        by_cases both : (batch.skippingBlock && batch.skippedBlockContent) = true
        · rw [if_pos both]
          obtain ⟨inBlock, noEnd⟩ := content.mp (Bool.and_eq_true_iff.mp both).2
          simp [header, blank, exclusive inBlock, noEnd]
        · rw [if_neg both]
          rw [Bool.and_eq_true, skipping, content] at both
          rw [skipping]
          simp only [header, blank, not_true, and_false, true_and]
          grind
      · have notBehind := text header blank
        rw [skipLine_text header blank, skipping]
        simp only [header, blank, not_false_iff, and_true, false_and, or_false]
        grind
  · rw [inBlock_concat, endsInHeader_concat]
    by_cases header : isHeaderLine line = true
    · simp [skipLine_header batch header, header]
    · by_cases blank : Blank line
      · rw [skipLine_blank blank]
        by_cases both : (batch.skippingBlock && batch.skippedBlockContent) = true
        · rw [if_pos both]
          simp [header, blank]
        · rw [if_neg both]
          rw [Bool.and_eq_true, skipping, content] at both
          rw [content]
          simp only [header, blank, not_true, and_false, or_false]
          grind
      · have notBehind := text header blank
        rw [skipLine_text header blank, Bool.or_eq_true, skipping, content]
        simp only [header, blank, not_false_iff, and_true]
        grind

/-- The two agree on all lines exactly if each of them fits. -/
theorem agree_iff_fits (lines : List (List Char)) :
    Forall₂ (fun entry shown => Agrees entry.1 entry.2 shown)
        ((keptFlags batch lines).zip lines) (redactLines active lines) ↔
      ∀ front line back, lines = front ++ line :: back → Fits (before ++ front) line := by
  induction lines generalizing before batch active with
  | nil => simp [keptFlags, redactLines]
  | cons line rest ih =>
    have here := agrees_iff_fits joint line
    rw [keptFlags, redactLines, zip_cons_cons, forall₂_cons, here]
    constructor
    · rintro ⟨fits, later⟩ front other back same
      cases front with
      | nil =>
        obtain ⟨rfl, _⟩ := List.cons.inj same
        rwa [append_nil]
      | cons first front =>
        obtain ⟨rfl, behind⟩ := List.cons.inj same
        rw [append_cons]
        exact (ih (joint_step joint fits)).mp later front other back behind
    · intro all
      have fits : Fits before line := by simpa using all [] line rest rfl
      refine ⟨fits, (ih (joint_step joint fits)).mpr ?_⟩
      intro front other back same
      rw [← append_cons]
      exact all (line :: front) other back (by rw [same]; rfl)

end

/-- The stream hides what the batch removal hides, and shows what it keeps, exactly if
every line of the text fits. -/
theorem agreesWithBatch_iff (showReasoning : Bool) (deltas : List (List Char)) :
    (streamedLines showReasoning deltas).flatten = streamed showReasoning deltas ∧
      (AgreesWithBatch showReasoning deltas ↔
        ∀ before line after, rawLines (seenText showReasoning deltas) = before ++ line :: after →
          Fits before line) := by
  refine ⟨streamedLines_flatten showReasoning deltas, ?_⟩
  have areLines := areLines_rawLines (seenText showReasoning deltas)
  have outputs : streamedLines showReasoning deltas =
      redactLines false (rawLines (seenText showReasoning deltas)) :=
    lineOutputs_eq false areLines
  rw [AgreesWithBatch, outputs, keptFlags_lines]
  exact agree_iff_fits joint_start _

/-- A blank line behind a header: the batch removal removes the block behind it, and the
stream shows it. -/
theorem parted_block_shown :
    keptLines "[User Model]\n\n- secret\n".toList = [] ∧
      streamed true ["[User Model]\n".toList, "\n- secret\n".toList] = "- secret\n".toList ∧
      ¬ AgreesWithBatch true ["[User Model]\n".toList, "\n- secret\n".toList] := by
  refine ⟨by decide +kernel, by decide +kernel, ?_⟩
  have text : rawLines (seenText true ["[User Model]\n".toList, "\n- secret\n".toList]) =
      ["[User Model]\n".toList, "\n".toList, "- secret\n".toList] := by decide +kernel
  have flags : keptFlags ⟨false, false⟩
      (lines (seenText true ["[User Model]\n".toList, "\n- secret\n".toList])) =
      [false, false, false] := by decide +kernel
  have shown : streamedLines true ["[User Model]\n".toList, "\n- secret\n".toList] =
      [[], [], "- secret\n".toList] := by decide +kernel
  intro agrees
  rw [AgreesWithBatch, text, flags, shown] at agrees
  simp only [zip_cons_cons, forall₂_cons] at agrees
  have blank : Blank "- secret\n".toList := agrees.2.2.1
  exact absurd (blank '-' (by decide +kernel)) (by decide)

/-! A header that begins with a number sign is not known to the stream. -/
example : keptLines "## Available Skills\n- skill\n".toList = [] ∧
    streamed true ["## Available Skills\n- skill\n".toList] =
      "## Available Skills\n- skill\n".toList := by
  decide +kernel

end Agreement

end Asterel.StreamRedactor
