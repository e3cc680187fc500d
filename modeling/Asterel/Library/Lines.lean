import Asterel.Library.Text

/-!
# Lines of a text

A line ends in a line feed, with carriage returns before it, or at the end of the text. Cutting
a text into lines and putting line feeds behind them again leaves its visible lines as they
are, except for the carriage returns.
-/

namespace Library.Lines

open Text List

/-- A text with a character that is not white space. -/
def visible (text : List Char) : Bool := !(trim text).isEmpty

/-- A line without one carriage return at its end. -/
def stripReturn (line : List Char) : List Char :=
  if line.getLast? = some '\r' then line.dropLast else line

/-- A line without the carriage returns at its end. -/
def stripReturns (line : List Char) : List Char := line.rdropWhile (· == '\r')

/-- `str::lines`: a text behind the last line feed is a line unless it is empty. -/
def lines (text : List Char) : List (List Char) :=
  let pieces := text.splitOn '\n'
  let last := pieces.getLastD []
  pieces.dropLast.map stripReturn ++ if last.isEmpty then [] else [last]

/-- The lines that are not blank. -/
def visibleLines (text : List Char) : List (List Char) :=
  ((text.splitOn '\n').map stripReturns).filter visible

/-- A text whose lines all end in a line feed. -/
def Ended (text : List Char) : Prop := text = [] ∨ ∃ front, text = front ++ ['\n']

section Induction

variable {line : List Char}

/-- A text is a line, or a line with a line feed and a text behind it. -/
theorem induction {motive : List Char → Prop} (last : ∀ line, '\n' ∉ line → motive line)
    (step : ∀ line rest, '\n' ∉ line → motive rest → motive (line ++ '\n' :: rest))
    (text : List Char) : motive text := by
  induction size : text.length using Nat.strong_induction_on generalizing text with
  | _ size ih =>
    by_cases feed : '\n' ∈ text
    · obtain ⟨line, rest, rfl, absent⟩ := eq_append_cons_of_mem feed
      apply step line rest absent
      apply ih rest.length _ rest rfl
      rw [← size, length_append, length_cons]
      omega
    · exact last text feed

theorem lines_of_not_mem (absent : '\n' ∉ line) :
    lines line = if line.isEmpty then [] else [line] := by
  rw [lines, splitOn_eq_singleton absent]
  rfl

theorem lines_cons (absent : '\n' ∉ line) (rest : List Char) :
    lines (line ++ '\n' :: rest) = stripReturn line :: lines rest := by
  have nonempty : rest.splitOn '\n' ≠ [] := splitOn_ne_nil '\n' rest
  unfold lines
  rw [splitOn_append_cons_self_of_not_mem absent]
  cases pieces : rest.splitOn '\n' with
  | nil => exact absurd pieces nonempty
  | cons first others => rfl

theorem visibleLines_append_cons (front back : List Char) :
    visibleLines (front ++ '\n' :: back) = visibleLines front ++ visibleLines back := by
  rw [visibleLines, splitOn_append_cons_self, map_append, filter_append]
  rfl

end Induction

section Visible

variable (front : List Char) {line text : List Char}

theorem visible_eq_false_iff : visible text = false ↔ Blank text := by
  rw [visible, Bool.not_eq_false', List.isEmpty_iff, trim_eq_nil_iff]

theorem visible_append (back : List Char) :
    visible (front ++ back) = (visible front || visible back) := by
  apply Bool.eq_iff_iff.mpr
  rw [Bool.or_eq_true, ← Bool.not_eq_false, ← Bool.not_eq_false, ← Bool.not_eq_false,
    visible_eq_false_iff, visible_eq_false_iff, visible_eq_false_iff]
  unfold Blank
  rw [forall_mem_append]
  exact not_and_or

@[simp] theorem visible_nil : visible [] = false := rfl

theorem visible_of_white (white : ∀ char ∈ text, isWhitespace char = true) :
    visible text = false := visible_eq_false_iff.mpr white

theorem stripReturns_parts (line : List Char) :
    ∃ returns, line = stripReturns line ++ returns ∧ ∀ char ∈ returns, char = '\r' := by
  refine ⟨line.rtakeWhile (· == '\r'), (rdropWhile_append_rtakeWhile ..).symm, ?_⟩
  intro char member
  exact eq_of_beq (mem_rtakeWhile_imp (p := (· == '\r')) member)

theorem visible_stripReturns (line : List Char) : visible (stripReturns line) = visible line := by
  obtain ⟨returns, split, same⟩ := stripReturns_parts line
  have white : visible returns = false :=
    visible_of_white fun char member => same char member ▸ rfl
  conv_rhs => rw [split]
  rw [visible_append, white, Bool.or_false]

/-- One carriage return more or less makes no difference. -/
theorem stripReturns_stripReturn (line : List Char) :
    stripReturns (stripReturn line) = stripReturns line := by
  unfold stripReturn
  split
  · rename_i ends
    obtain ⟨front, rfl⟩ := getLast?_eq_some_iff.mp ends
    rw [dropLast_concat]
    exact (rdropWhile_concat_pos _ _ _ rfl).symm
  · rfl

theorem visibleLines_of_not_mem (absent : '\n' ∉ line) :
    visibleLines line = if visible line then [stripReturns line] else [] := by
  rw [visibleLines, splitOn_eq_singleton absent, map_singleton, filter_cons,
    visible_stripReturns, filter_nil]

@[simp] theorem visibleLines_nil : visibleLines [] = [] := rfl

theorem visibleLines_append {front : List Char} (ended : Ended front) (back : List Char) :
    visibleLines (front ++ back) = visibleLines front ++ visibleLines back := by
  rcases ended with rfl | ⟨before, rfl⟩
  · rfl
  · rw [append_assoc, singleton_append, visibleLines_append_cons,
      visibleLines_append_cons before [], visibleLines_nil, append_nil]

theorem visibleLines_concat :
    visibleLines (front ++ ['\n']) = visibleLines front := by
  rw [visibleLines_append_cons, visibleLines_nil, append_nil]

theorem ended_concat : Ended (front ++ ['\n']) := Or.inr ⟨front, rfl⟩

/-- A text has visible lines when it is visible itself. -/
theorem visibleLines_eq_nil_iff : visibleLines text = [] ↔ visible text = false := by
  induction text using Lines.induction with
  | last line absent =>
    rw [visibleLines_of_not_mem absent]
    cases visible line <;> simp
  | step line rest absent ih =>
    have later : visible ('\n' :: rest) = visible rest := by
      have feed : visible ['\n'] = false := by decide
      rw [← singleton_append, visible_append, feed, Bool.false_or]
    rw [visibleLines_append_cons, append_eq_nil_iff, ih,
      visibleLines_of_not_mem absent, visible_append, later]
    cases visible line <;> simp

theorem visibleLines_pos (shown : visible text = true) :
    0 < (visibleLines text).length := by
  rw [length_pos_iff]
  intro none
  rw [visibleLines_eq_nil_iff.mp none] at shown
  cases shown

theorem visible_of_line (member : line ∈ visibleLines text) :
    visible text = true := by
  by_contra hidden
  rw [visibleLines_eq_nil_iff.mpr (Bool.eq_false_iff.mpr hidden)] at member
  cases member

theorem mem_lines (member : line ∈ lines text) : '\n' ∉ line := by
  induction text using Lines.induction with
  | last other absent =>
    rw [lines_of_not_mem absent] at member
    split at member
    · cases member
    · exact mem_singleton.mp member ▸ absent
  | step other rest absent ih =>
    rw [lines_cons absent] at member
    rcases mem_cons.mp member with rfl | later
    · intro feed
      apply absent
      unfold stripReturn at feed
      split at feed
      · exact mem_of_mem_dropLast feed
      · exact feed
    · exact ih later

/-- The lines of a text have its visible lines. -/
theorem visibleLines_lines (text : List Char) :
    (lines text).flatMap visibleLines = visibleLines text := by
  induction text using Lines.induction with
  | last line absent =>
    rw [lines_of_not_mem absent]
    split
    · rename_i empty
      rw [List.isEmpty_iff.mp empty]
      rfl
    · simp
  | step line rest absent ih =>
    have first : stripReturn line ∈ lines (line ++ '\n' :: rest) := by
      rw [lines_cons absent]
      exact mem_cons_self
    have stripped : '\n' ∉ stripReturn line := mem_lines first
    have same : visible (stripReturn line) = visible line := by
      rw [← visible_stripReturns, stripReturns_stripReturn, visible_stripReturns]
    rw [lines_cons absent, flatMap_cons, ih, visibleLines_append_cons,
      visibleLines_of_not_mem absent, visibleLines_of_not_mem stripped, stripReturns_stripReturn, same]

end Visible

section Trimmed

variable {char : Char}

theorem length_visibleLines_of_not_mem {line : List Char} (absent : '\n' ∉ line) :
    (visibleLines line).length = if visible line then 1 else 0 := by
  rw [visibleLines_of_not_mem absent]
  split <;> rfl

theorem length_visibleLines_concat (white : isWhitespace char = true)
    (text : List Char) : (visibleLines (text ++ [char])).length = (visibleLines text).length := by
  by_cases feed : char = '\n'
  · rw [feed, visibleLines_concat]
  · induction text using Lines.induction with
    | last line absent =>
      have longer : '\n' ∉ line ++ [char] := by
        rw [mem_append, mem_singleton]
        exact not_or.mpr ⟨absent, fun same => feed same.symm⟩
      have same : visible [char] = false :=
        visible_of_white fun other member => mem_singleton.mp member ▸ white
      rw [length_visibleLines_of_not_mem longer, length_visibleLines_of_not_mem absent,
        visible_append, same, Bool.or_false]
    | step line rest absent ih =>
      rw [append_assoc, cons_append, visibleLines_append_cons, visibleLines_append_cons,
        length_append, length_append, ih]

theorem length_visibleLines_cons (white : isWhitespace char = true)
    (text : List Char) : (visibleLines (char :: text)).length = (visibleLines text).length := by
  by_cases feed : char = '\n'
  · rw [feed]
    exact congrArg List.length (visibleLines_append_cons [] text)
  · have first : ∀ line, '\n' ∉ line →
        (visibleLines (char :: line)).length = (visibleLines line).length := by
      intro line absent
      have longer : '\n' ∉ char :: line := by
        rw [mem_cons]
        exact not_or.mpr ⟨fun same => feed same.symm, absent⟩
      have same : visible [char] = false :=
        visible_of_white fun other member => mem_singleton.mp member ▸ white
      rw [length_visibleLines_of_not_mem longer, length_visibleLines_of_not_mem absent,
        ← singleton_append, visible_append, same, Bool.false_or]
    induction text using Lines.induction with
    | last line absent => exact first line absent
    | step line rest absent _ =>
      rw [← cons_append, visibleLines_append_cons, visibleLines_append_cons,
        length_append, length_append, first line absent]

/-- Trimming a text leaves as many visible lines. -/
theorem length_visibleLines_trim (text : List Char) :
    (visibleLines (trim text)).length = (visibleLines text).length := by
  obtain ⟨back, backBlank, split⟩ := trim_parts text
  have frontBlank : Blank (text.takeWhile isWhitespace) := fun _ => mem_takeWhile_imp
  have before : ∀ front : List Char, Blank front → ∀ text,
      (visibleLines (front ++ text)).length = (visibleLines text).length := by
    intro front blank text
    induction front with
    | nil => rfl
    | cons char front ih =>
      rw [cons_append, length_visibleLines_cons (blank char mem_cons_self)]
      exact ih fun other member => blank other (mem_cons_of_mem char member)
  have behind : ∀ back : List Char, Blank back → ∀ text,
      (visibleLines (text ++ back)).length = (visibleLines text).length := by
    intro back blank text
    induction back using reverseRecOn with
    | nil => rw [append_nil]
    | append_singleton back char ih =>
      rw [← append_assoc, length_visibleLines_concat (blank char (by simp))]
      exact ih fun other member => blank other (mem_append_left _ member)
  conv_rhs => rw [split]
  rw [before _ frontBlank, behind back backBlank]

end Trimmed

end Library.Lines
