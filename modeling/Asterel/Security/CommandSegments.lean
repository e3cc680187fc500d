import Asterel.Security.Command

/-!
# The segments of a command

The source marks separators by successive replacements and splits at the marks.
Read from the left, this is one cut: at every new line, bar and ampersand, and at
every semicolon that does not follow a backslash. A command is allowed exactly
when it has no mark or hidden command of its own, its ampersands come in pairs,
every segment of the cut is blank or passes the checks, and some segment is not
blank.
-/

namespace Asterel.Policy

variable {char : Char}

open Library Library.Text List

/-- The control operators of a command line, character by character. -/
def isOperator (char : Char) : Bool :=
  char = '\n' || char = ';' || char = '|' || char = '&'

/-- The cut of the policy. The state says whether the last character was a
backslash. -/
def policyCutter : Cutter Bool Char where
  separates escaped char := isOperator char && !(escaped && char = ';')
  next _ char := char = '\\'

/-- The segments the policy checks. -/
def segments (command : List Char) : List (List Char) := policyCutter.cut false command

theorem operator_ne_backslash (operator : isOperator char) : char ≠ '\\' := by
  rintro rfl
  exact absurd operator (by decide)

theorem policyCutter_separates (escaped : Bool) (char : Char) :
    policyCutter.separates escaped char =
      (isOperator char && !(escaped && decide (char = ';'))) := rfl

theorem policyCutter_next_operator (operator : isOperator char)
    (escaped : Bool) : policyCutter.next escaped char = false := by
  simp [policyCutter, operator_ne_backslash operator]

/-- The executables of a command as it is written. -/
def executables (command : List Char) : List Word := (segments command).filterMap firstWord

/-- The arguments of a command as it is written. -/
def argumentWords (command : List Char) : List Word :=
  (segments command).flatMap fun segment => (splitWhitespace segment).drop 1

/-- What a command must be like before its segments are looked at. -/
structure Plain (command : List Char) : Prop where
  noSeparatorMark : separatorMark ∉ command
  noEscapedMark : escapedMark ∉ command
  nothingHidden : hidesCommands command = false
  noRedirection : '>' ∉ command
  paired : '&' ∉ replacePair '&' '&' separatorMark command

section Marking

variable {char : Char} {rest : List Char}

/-- A text does not begin with one of the pairs that are replaced. -/
structure Unpaired (char : Char) (rest : List Char) : Prop where
  ampersand : char = '&' → rest.head? ≠ some '&'
  bar : char = '|' → rest.head? ≠ some '|'
  semicolon : char = '\\' → rest.head? ≠ some ';'

/-- The mark of a character outside the replaced pairs. -/
def markChar (char : Char) : Char :=
  if char = '\n' ∨ char = ';' ∨ char = '|' then separatorMark else char

theorem markSeparators_double (double : char = '&' ∨ char = '|') (rest : List Char) :
    markSeparators (char :: char :: rest) = separatorMark :: markSeparators rest := by
  have doubled : replaceDoubledOperators (char :: char :: rest) =
      separatorMark :: replaceDoubledOperators rest := by
    cases double with
    | inl ampersand =>
      rw [ampersand, replaceDoubledOperators, replacePair_pair, replacePair_cons_ne (by decide),
        replaceDoubledOperators]
    | inr bar =>
      have kept : replacePair '&' '&' separatorMark ('|' :: '|' :: rest) =
          '|' :: '|' :: replacePair '&' '&' separatorMark rest := by
        rw [replacePair_cons_ne (by decide), replacePair_cons_ne (by decide)]
      rw [bar, replaceDoubledOperators, kept, replacePair_pair, replaceDoubledOperators]
  rw [markSeparators, doubled, replacePair_cons_ne (by decide)]
  rfl

theorem replaceDoubledOperators_cons (unpaired : Unpaired char rest) :
    replaceDoubledOperators (char :: rest) = char :: replaceDoubledOperators rest := by
  rw [replaceDoubledOperators, replacePair_cons unpaired.ampersand, replacePair_cons]
  · rfl
  · intro bar found
    cases head?_replacePair found with
    | inl mark => exact absurd mark (by decide)
    | inr head => exact unpaired.bar bar head

theorem head?_replaceDoubledOperators {text : List Char}
    (found : (replaceDoubledOperators text).head? = some char) :
    char = separatorMark ∨ text.head? = some char := by
  cases head?_replacePair found with
  | inl mark => exact Or.inl mark
  | inr head => exact head?_replacePair head

theorem markSeparators_escaped (rest : List Char) :
    markSeparators ('\\' :: ';' :: rest) = escapedMark :: markSeparators rest := by
  have kept : replaceDoubledOperators ('\\' :: ';' :: rest) =
      '\\' :: ';' :: replaceDoubledOperators rest := by
    have inner : replacePair '&' '&' separatorMark ('\\' :: ';' :: rest) =
        '\\' :: ';' :: replacePair '&' '&' separatorMark rest := by
      rw [replacePair_cons_ne (by decide), replacePair_cons_ne (by decide)]
    rw [replaceDoubledOperators, inner, replacePair_cons_ne (by decide),
      replacePair_cons_ne (by decide), replaceDoubledOperators]
  rw [markSeparators, kept, replacePair_pair]
  rfl

theorem markSeparators_cons (unpaired : Unpaired char rest) :
    markSeparators (char :: rest) = markChar char :: markSeparators rest := by
  rw [markSeparators, replaceDoubledOperators_cons unpaired, replacePair_cons]
  · simp only [replaceChar, map_cons, markSeparators]
    congr 1
    rw [markChar]
    split_ifs <;> simp_all [separatorMark]
  · intro backslash found
    cases head?_replaceDoubledOperators found with
    | inl mark => exact absurd mark (by decide)
    | inr head => exact unpaired.semicolon backslash head

end Marking

section Pieces

/-- Two cuts begin with the same piece and have the same other pieces, up to blank
ones. -/
structure SamePieces (pieces others : List (List Char)) : Prop where
  first : pieces.head? = others.head?
  rest : ∀ piece, ¬Blank piece → (piece ∈ pieces.tail ↔ piece ∈ others.tail)

variable {pieces others : List (List Char)}

variable (same : SamePieces pieces others)
include same

theorem SamePieces.mem_iff {piece : List Char}
    (visible : ¬Blank piece) : piece ∈ pieces ↔ piece ∈ others := by
  have rest := same.rest piece visible
  have first := same.first
  cases pieces <;> cases others <;> simp_all

theorem SamePieces.separated :
    SamePieces ([] :: pieces) ([] :: others) :=
  ⟨rfl, fun _ visible => same.mem_iff visible⟩

/-- The blank piece between the characters of a doubled operator does not count. -/
theorem SamePieces.doubled :
    SamePieces ([] :: pieces) ([] :: [] :: others) := by
  refine ⟨rfl, fun piece visible => ?_⟩
  have nonempty : piece ≠ [] := fun empty => visible (by simp [empty, Blank])
  rw [tail_cons, tail_cons, mem_cons, same.mem_iff visible]
  exact ⟨Or.inr, fun member => member.resolve_left nonempty⟩

theorem SamePieces.prepend (extend : List Char → List Char) :
    SamePieces (pieces.modifyHead extend) (others.modifyHead extend) := by
  constructor
  · rw [List.head?_modifyHead, List.head?_modifyHead, same.first]
  · rw [tail_modifyHead, tail_modifyHead]
    exact same.rest

end Pieces

section Restoring

variable {char : Char} {rest : List Char}

/-- The pieces of a marked command with their semicolons restored. -/
def restoredPieces (marked : List Char) : List (List Char) :=
  (marked.splitOn separatorMark).map restoreSemicolons

theorem restoredPieces_mark (marked : List Char) :
    restoredPieces (separatorMark :: marked) = [] :: restoredPieces marked := by
  simp [restoredPieces, splitOn_eq_splitOnP, splitOnP_cons_eq_if_modifyHead, restoreSemicolons]

theorem restoredPieces_cons (different : char ≠ separatorMark) (marked : List Char) :
    restoredPieces (char :: marked) =
      (restoredPieces marked).modifyHead (restoreSemicolons [char] ++ ·) := by
  rw [restoredPieces, restoredPieces, splitOn_eq_splitOnP, splitOn_eq_splitOnP,
    splitOnP_cons_eq_if_modifyHead, if_neg (by simpa using different)]
  cases pieces : marked.splitOnP (· == separatorMark) with
  | nil => rfl
  | cons head tail => simp [restoreSemicolons]

theorem restoreSemicolons_singleton (unmarked : char ≠ escapedMark) :
    restoreSemicolons [char] = [char] := by
  simp [restoreSemicolons, unmarked]

/-- After a backslash only a semicolon is read otherwise. -/
theorem cut_after_backslash (other : rest.head? ≠ some ';') :
    policyCutter.cut true rest = policyCutter.cut false rest := by
  cases rest with
  | nil => rfl
  | cons char rest =>
    have different : char ≠ ';' := fun same => other (by simp [same])
    rw [Cutter.cut, Cutter.cut]
    simp [policyCutter, different]

theorem segments_operator (operator : isOperator char) (rest : List Char) :
    segments (char :: rest) = [] :: segments rest := by
  have notBackslash : char ≠ '\\' := by
    rintro rfl
    exact absurd operator (by decide)
  rw [segments, Cutter.cut]
  simp [policyCutter, operator, notBackslash, segments]

theorem segments_cons (plain : isOperator char = false)
    (other : char = '\\' → rest.head? ≠ some ';') :
    segments (char :: rest) = (segments rest).modifyHead (char :: ·) := by
  rw [segments, Cutter.cut, if_neg (by simp [policyCutter, plain]), segments]
  by_cases backslash : char = '\\'
  · rw [show policyCutter.next false char = true by simp [policyCutter, backslash],
      cut_after_backslash (other backslash)]
  · rw [show policyCutter.next false char = false by simp [policyCutter, backslash]]

theorem segments_escaped (rest : List Char) :
    segments ('\\' :: ';' :: rest) = (segments rest).modifyHead (['\\', ';'] ++ ·) := by
  rw [segments, Cutter.cut, Cutter.cut]
  simp [policyCutter, isOperator, segments, Function.comp_def]

/-- Outside the replaced pairs a character is marked and cut by itself. -/
theorem restoredPieces_step (unpaired : Unpaired char rest)
    (noSeparatorMark : char ≠ separatorMark) (noEscapedMark : char ≠ escapedMark)
    (noAmpersand : char ≠ '&')
    (same : SamePieces (restoredPieces (markSeparators rest)) (segments rest)) :
    SamePieces (restoredPieces (markSeparators (char :: rest))) (segments (char :: rest)) := by
  rw [markSeparators_cons unpaired]
  cases operator : isOperator char with
  | true =>
    have marked : markChar char = separatorMark := by
      simp only [isOperator, Bool.or_eq_true, decide_eq_true_eq] at operator
      rw [markChar, if_pos (by tauto)]
    rw [marked, restoredPieces_mark, segments_operator operator]
    exact same.separated
  | false =>
    have unmarked : markChar char = char := by
      simp only [isOperator, Bool.or_eq_false_iff, decide_eq_false_iff_not] at operator
      rw [markChar, if_neg (by tauto)]
    rw [unmarked, restoredPieces_cons noSeparatorMark, restoreSemicolons_singleton noEscapedMark,
      segments_cons operator unpaired.semicolon]
    exact same.prepend _

/-- The replacements and the split of the source make the cut of the policy. -/
theorem restoredPieces_same {command : List Char} (noSeparatorMark : separatorMark ∉ command)
    (noEscapedMark : escapedMark ∉ command)
    (paired : '&' ∉ replacePair '&' '&' separatorMark command) :
    SamePieces (restoredPieces (markSeparators command)) (segments command) := by
  have empty : SamePieces (restoredPieces (markSeparators [])) (segments []) :=
    ⟨rfl, fun _ _ => Iff.rfl⟩
  induction command using twoStepInduction with
  | nil => exact empty
  | singleton char =>
    simp only [mem_singleton] at noSeparatorMark noEscapedMark
    apply restoredPieces_step ⟨by simp, by simp, by simp⟩ (Ne.symm noSeparatorMark)
      (Ne.symm noEscapedMark) _ empty
    rintro rfl
    exact paired (by simp [replacePair])
  | cons_cons char next rest shorter ih =>
    have laterNotSeparator := not_mem_of_not_mem_cons noSeparatorMark
    have laterNotEscaped := not_mem_of_not_mem_cons noEscapedMark
    have restNotSeparator := not_mem_of_not_mem_cons laterNotSeparator
    have restNotEscaped := not_mem_of_not_mem_cons laterNotEscaped
    by_cases ampersand : char = '&'
    · have doubled : next = '&' := next_of_replaced ampersand paired
      rw [ampersand, doubled, replacePair_pair] at paired
      rw [ampersand, doubled, markSeparators_double (Or.inl rfl), restoredPieces_mark,
        segments_operator (by decide), segments_operator (by decide)]
      exact (shorter restNotSeparator restNotEscaped (not_mem_of_not_mem_cons paired)).doubled
    · rw [replacePair_cons_ne ampersand] at paired
      have pairedLater := not_mem_of_not_mem_cons paired
      by_cases bars : char = '|' ∧ next = '|'
      · obtain ⟨rfl, rfl⟩ := bars
        rw [replacePair_cons_ne ampersand] at pairedLater
        rw [markSeparators_double (Or.inr rfl), restoredPieces_mark,
          segments_operator (by decide), segments_operator (by decide)]
        exact (shorter restNotSeparator restNotEscaped
          (not_mem_of_not_mem_cons pairedLater)).doubled
      · by_cases escaped : char = '\\' ∧ next = ';'
        · obtain ⟨rfl, rfl⟩ := escaped
          rw [replacePair_cons_ne (by decide)] at pairedLater
          rw [markSeparators_escaped, restoredPieces_cons (by decide), segments_escaped]
          exact (shorter restNotSeparator restNotEscaped
            (not_mem_of_not_mem_cons pairedLater)).prepend _
        · apply restoredPieces_step _ (ne_of_not_mem_cons noSeparatorMark).symm
            (ne_of_not_mem_cons noEscapedMark).symm ampersand
            (ih next laterNotSeparator laterNotEscaped pairedLater)
          constructor
          · exact fun same => absurd same ampersand
          · exact fun same found => bars ⟨same, by simpa using found⟩
          · exact fun same found => escaped ⟨same, by simpa using found⟩

end Restoring

section Trimming

variable (segment : List Char)

theorem restoreSemicolons_cons (char : Char) (rest : List Char) :
    restoreSemicolons (char :: rest) = restoreSemicolons [char] ++ restoreSemicolons rest := by
  simp [restoreSemicolons]

theorem restoreSemicolons_append (before rest : List Char) :
    restoreSemicolons (before ++ rest) = restoreSemicolons before ++ restoreSemicolons rest := by
  simp [restoreSemicolons]

theorem white_unmarked {char : Char} (white : isWhitespace char) : char ≠ escapedMark := by
  rintro rfl
  exact absurd white (by decide)

theorem trimStart_restoreSemicolons :
    trimStart (restoreSemicolons segment) = restoreSemicolons (trimStart segment) := by
  induction segment with
  | nil => rfl
  | cons char rest ih =>
    cases white : isWhitespace char with
    | true =>
      rw [restoreSemicolons_cons, restoreSemicolons_singleton (white_unmarked white),
        trimStart, singleton_append, dropWhile_cons_of_pos white, trimStart,
        dropWhile_cons_of_pos white]
      exact ih
    | false =>
      have kept : trimStart (char :: rest) = char :: rest :=
        trimStart_eq_self (by simpa using white)
      rw [kept, restoreSemicolons_cons]
      apply trimStart_eq_self
      by_cases marked : char = escapedMark
      · simp [marked, restoreSemicolons]
        decide
      · simpa [restoreSemicolons_singleton marked] using white

theorem trimEnd_restoreSemicolons :
    trimEnd (restoreSemicolons segment) = restoreSemicolons (trimEnd segment) := by
  induction segment using reverseRecOn with
  | nil => rfl
  | append_singleton before char ih =>
    rw [restoreSemicolons_append]
    cases white : isWhitespace char with
    | true =>
      rw [restoreSemicolons_singleton (white_unmarked white), trimEnd_concat_white white,
        trimEnd_concat_white white, ih]
    | false =>
      rw [trimEnd_concat white, restoreSemicolons_append]
      by_cases marked : char = escapedMark
      · have whole : restoreSemicolons before ++ restoreSemicolons [char] =
            (restoreSemicolons before ++ ['\\']) ++ [';'] := by
          simp [marked, restoreSemicolons]
        rw [whole, trimEnd_concat (by decide)]
      · rw [restoreSemicolons_singleton marked, trimEnd_concat white]

/-- Trimming and restoring semicolons can be done in either order. -/
theorem trim_restoreSemicolons :
    trim (restoreSemicolons segment) = restoreSemicolons (trim segment) := by
  rw [trim, trimStart_restoreSemicolons, trimEnd_restoreSemicolons, trim]

theorem restoreSemicolons_eq_nil_iff {segment : List Char} :
    restoreSemicolons segment = [] ↔ segment = [] := by
  cases segment with
  | nil => simp [restoreSemicolons]
  | cons char rest =>
    by_cases marked : char = escapedMark <;> simp [restoreSemicolons, marked]

theorem blank_restoreSemicolons {segment : List Char} :
    Blank (restoreSemicolons segment) ↔ Blank segment := by
  rw [← trim_eq_nil_iff, ← trim_eq_nil_iff, trim_restoreSemicolons, restoreSemicolons_eq_nil_iff]

theorem takeWhile_restoreSemicolons :
    (restoreSemicolons segment).takeWhile (fun char => !isWhitespace char) =
      restoreSemicolons (segment.takeWhile fun char => !isWhitespace char) := by
  induction segment with
  | nil => rfl
  | cons char rest ih =>
    rw [restoreSemicolons_cons]
    by_cases marked : char = escapedMark
    · have visible : isWhitespace escapedMark = false := by decide
      have visibleBackslash : isWhitespace '\\' = false := by decide
      have visibleSemicolon : isWhitespace ';' = false := by decide
      rw [marked, takeWhile_cons_of_pos (by simp [visible]),
        restoreSemicolons_cons escapedMark (rest.takeWhile _), ← ih]
      simp [restoreSemicolons, visibleBackslash, visibleSemicolon]
    · rw [restoreSemicolons_singleton marked, singleton_append]
      cases white : isWhitespace char with
      | true => simp [white, restoreSemicolons]
      | false =>
        rw [takeWhile_cons_of_pos (by simp [white]),
          takeWhile_cons_of_pos (by simp [white]), restoreSemicolons_cons,
          restoreSemicolons_singleton marked, ih]
        rfl

theorem firstWord_restoreSemicolons :
    firstWord (restoreSemicolons segment) = (firstWord segment).map restoreSemicolons := by
  induction segment with
  | nil => simp [restoreSemicolons, firstWord_nil]
  | cons char rest ih =>
    rw [restoreSemicolons_cons]
    cases white : isWhitespace char with
    | true =>
      rw [restoreSemicolons_singleton (white_unmarked white), singleton_append,
        firstWord_cons_white white, firstWord_cons_white white, ih]
    | false =>
      rw [firstWord_cons white, Option.map_some,
        restoreSemicolons_cons char (rest.takeWhile _), ← takeWhile_restoreSemicolons]
      by_cases marked : char = escapedMark
      · have visibleBackslash : isWhitespace '\\' = false := by decide
        have visibleSemicolon : isWhitespace ';' = false := by decide
        rw [show restoreSemicolons [char] = ['\\', ';'] by simp [marked, restoreSemicolons],
          cons_append, firstWord_cons visibleBackslash]
        simp [visibleSemicolon]
      · rw [restoreSemicolons_singleton marked, singleton_append, firstWord_cons white]
        rfl

/-- A restored semicolon neither makes a word an assignment nor hides one. -/
theorem isEnvAssignment_restoreSemicolons (word : Word) :
    isEnvAssignment (restoreSemicolons word) = isEnvAssignment word := by
  have equals : '=' ∈ restoreSemicolons word ↔ '=' ∈ word := by
    rw [restoreSemicolons, mem_flatMap]
    constructor
    · rintro ⟨char, member, inside⟩
      split at inside
      · exact absurd inside (by decide)
      · rwa [mem_singleton.mp inside]
    · intro member
      exact ⟨'=', member, by rw [if_neg (by decide)]; exact mem_singleton_self _⟩
  have heads : (restoreSemicolons word).head?.any (fun char => char.isAlpha || char = '_') =
      word.head?.any fun char => char.isAlpha || char = '_' := by
    cases word with
    | nil => rfl
    | cons char rest =>
      rw [restoreSemicolons_cons]
      by_cases marked : char = escapedMark
      · rw [marked]
        rfl
      · rw [restoreSemicolons_singleton marked]
        rfl
  rw [isEnvAssignment, isEnvAssignment, heads]
  congr 1
  rw [Bool.eq_iff_iff, contains_iff_mem, contains_iff_mem, equals]

end Trimming

section Admission

variable {policy : SecurityPolicy} {env : Environment} {workspaceDir : Path}
variable {command segment : List Char} {executable : Word}

theorem firstWord_trim (segment : List Char) : firstWord (trim segment) = firstWord segment := by
  rw [firstWord, splitWhitespace_trim, firstWord]

theorem hasLeadingEnvAssignments_trim (segment : List Char) :
    hasLeadingEnvAssignments (trim segment) = (firstWord segment).any isEnvAssignment := by
  rw [hasLeadingEnvAssignments_eq (trimStart_trim segment), firstWord_trim]

/-- The checks of a segment, one by one. -/
structure SegmentPasses (policy : SecurityPolicy) (env : Environment) (workspaceDir : Path)
    (segment : List Char) (executable : Word) : Prop where
  noAssignment : isEnvAssignment executable = false
  noSlash : '/' ∉ executable
  noBackslash : '\\' ∉ executable
  allowlisted : executable ∈ policy.allowedCommands
  pathsAllowed : hasForbiddenPathArgument policy env workspaceDir
    ((splitWhitespace segment).drop 1) = false
  argumentsAllowed : hasBlockedArgumentsWithContext policy env workspaceDir
    policy.allowedCommands executable (trim segment) = false

theorem segmentAllowed_iff (first : firstWord segment = some executable) :
    segmentAllowed policy env workspaceDir (trim segment) = true ↔
      SegmentPasses policy env workspaceDir segment executable := by
  have nonempty : executable ≠ [] := (firstWord_length first).1
  have head : (splitWhitespace (trim segment)).head?.getD [] = executable := by
    rw [splitWhitespace_trim, ← firstWord, first, Option.getD_some]
  rw [segmentAllowed, hasLeadingEnvAssignments_trim, first, Option.any_some]
  dsimp only
  rw [head, if_neg nonempty, splitWhitespace_trim]
  constructor
  · intro allowed
    split_ifs at allowed with assignment path listed forbidden
    simp only [Bool.or_eq_true, contains_iff_mem, not_or] at path
    constructor
    · simpa using assignment
    · exact path.1
    · exact path.2
    · simpa using listed
    · simpa using forbidden
    · simpa using allowed
  · intro passes
    rw [if_neg (by simp [passes.noAssignment]), if_neg (by simp [passes.noSlash,
      passes.noBackslash]), if_neg (by simp [passes.allowlisted]),
      if_neg (by rw [passes.pathsAllowed]; exact Bool.false_ne_true), passes.argumentsAllowed]
    rfl

/-- What the policy allows: plain commands every segment of which passes its
checks, with at least one segment that is not blank. -/
theorem isCommandAllowedInWorkspace_iff :
    isCommandAllowedInWorkspace policy env command workspaceDir = true ↔
      policy.autonomy ≠ .readOnly ∧ Plain command ∧
      (∀ segment ∈ segments command, Blank segment ∨
        segmentAllowed policy env workspaceDir (trim segment) = true) ∧
      ∃ segment ∈ segments command, ¬Blank segment := by
  have paired : '&' ∈ replaceDoubledOperators command ↔
      '&' ∈ replacePair '&' '&' separatorMark command :=
    mem_replacePair_iff (by decide) (by decide) (by decide)
  have pieceOf : ∀ segment, segment ∈ restoredPieces (markSeparators command) ↔
      ∃ piece ∈ (markSeparators command).splitOn separatorMark,
        restoreSemicolons piece = segment := fun segment => mem_map
  have checked : ∀ piece, (trim piece = [] ∨
      segmentAllowed policy env workspaceDir (restoreSemicolons (trim piece)) = true) ↔
      (Blank (restoreSemicolons piece) ∨
        segmentAllowed policy env workspaceDir (trim (restoreSemicolons piece)) = true) := by
    intro piece
    rw [trim_eq_nil_iff, blank_restoreSemicolons, trim_restoreSemicolons]
  rw [isCommandAllowedInWorkspace]
  constructor
  · intro allowed
    split_ifs at allowed with readOnly marks hidden redirection ampersand
    simp only [Bool.or_eq_true, contains_iff_mem, not_or] at marks redirection ampersand
    have plain : Plain command := ⟨marks.1, marks.2, by simpa using hidden, redirection,
      fun member => ampersand (paired.mpr member)⟩
    have same := restoredPieces_same plain.noSeparatorMark plain.noEscapedMark plain.paired
    simp only [Bool.and_eq_true, all_eq_true, any_eq_true, Bool.or_eq_true,
      decide_eq_true_eq] at allowed
    obtain ⟨every, piece, member, -, word⟩ := allowed
    refine ⟨readOnly, plain, ?_, restoreSemicolons piece, ?_⟩
    · intro segment member
      by_cases blank : Blank segment
      · exact Or.inl blank
      · obtain ⟨piece, inside, rfl⟩ := (pieceOf segment).mp ((same.mem_iff blank).mpr member)
        exact (checked piece).mp (every piece inside)
    · have visible : ¬Blank (restoreSemicolons piece) := by
        rw [blank_restoreSemicolons, ← splitWhitespace_eq_nil_iff]
        intro none
        simp [splitWhitespace_trim, none] at word
      exact ⟨(same.mem_iff visible).mp ((pieceOf _).mpr ⟨piece, member, rfl⟩), visible⟩
  · rintro ⟨readOnly, plain, every, segment, member, visible⟩
    have same := restoredPieces_same plain.noSeparatorMark plain.noEscapedMark plain.paired
    rw [if_neg readOnly, if_neg (by simp [plain.noSeparatorMark, plain.noEscapedMark]),
      if_neg (by simp [plain.nothingHidden]), if_neg (by simp [plain.noRedirection]),
      if_neg (by simpa using mt paired.mp plain.paired)]
    simp only [Bool.and_eq_true, all_eq_true, any_eq_true, Bool.or_eq_true, decide_eq_true_eq]
    constructor
    · intro piece inside
      apply (checked piece).mpr
      by_cases blank : Blank (restoreSemicolons piece)
      · exact Or.inl blank
      · exact every _ ((same.mem_iff blank).mp ((pieceOf _).mpr ⟨piece, inside, rfl⟩))
    · obtain ⟨piece, inside, rfl⟩ := (pieceOf segment).mp ((same.mem_iff visible).mpr member)
      refine ⟨piece, inside, ?_⟩
      cases word : firstWord piece with
      | none =>
        rw [firstWord_eq_none_iff, ← blank_restoreSemicolons] at word
        exact absurd word visible
      | some word =>
        have first := firstWord_restoreSemicolons piece
        rw [word, Option.map_some] at first
        have passes := (segmentAllowed_iff first).mp ((every _ member).resolve_left visible)
        have plainWord := passes.noAssignment
        rw [isEnvAssignment_restoreSemicolons] at plainWord
        rw [hasLeadingEnvAssignments_trim, splitWhitespace_trim, ← firstWord, word]
        simp [plainWord, (firstWord_length word).1]

/-- The executable of a segment of an allowed command. -/
theorem allowed_executable
    (allowed : isCommandAllowedInWorkspace policy env command workspaceDir = true)
    (member : segment ∈ segments command) (first : firstWord segment = some executable) :
    SegmentPasses policy env workspaceDir segment executable := by
  obtain ⟨-, -, every, -⟩ := isCommandAllowedInWorkspace_iff.mp allowed
  cases every segment member with
  | inl blank =>
    rw [firstWord_eq_none_iff.mpr blank] at first
    cases first
  | inr passes => exact (segmentAllowed_iff first).mp passes

theorem hasForbiddenPathArgument_eq_false_iff {words : List Word} :
    hasForbiddenPathArgument policy env workspaceDir words = false ↔
      ∀ word ∈ words, ∀ pathArg, extractPathArg word = some pathArg →
        isPathArgumentAllowed policy env workspaceDir pathArg = true := by
  rw [hasForbiddenPathArgument, any_eq_false]
  constructor
  · intro none word member pathArg found
    simpa using none pathArg (mem_filterMap.mpr ⟨word, member, found⟩)
  · intro every pathArg member
    obtain ⟨word, inside, found⟩ := mem_filterMap.mp member
    simp [every word inside pathArg found]

/-- Every path argument of an allowed command is allowed. -/
theorem pathArgument_allowed
    (allowed : isCommandAllowedInWorkspace policy env command workspaceDir = true)
    {word : Word} (member : word ∈ argumentWords command) {pathArg : List Char}
    (found : extractPathArg word = some pathArg) :
    isPathArgumentAllowed policy env workspaceDir pathArg = true := by
  obtain ⟨segment, inside, behind⟩ := mem_flatMap.mp member
  cases first : firstWord segment with
  | none =>
    rw [firstWord_eq_none_iff, ← splitWhitespace_eq_nil_iff] at first
    simp [first] at behind
  | some executable =>
    have passes := allowed_executable allowed inside first
    exact hasForbiddenPathArgument_eq_false_iff.mp passes.pathsAllowed word behind pathArg found

end Admission

end Asterel.Policy
