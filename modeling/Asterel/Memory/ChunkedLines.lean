import Asterel.Memory.MarkdownChunker
import Mathlib

/-!
# What the chunks of a Markdown text hold

The visible lines of the chunks are those of the text, each under its heading, and every
heading is in a chunk. A line is compared without the carriage returns in front of its line
feed, of which each splitting takes one.
-/

namespace Asterel.MarkdownChunker

open Library Library.Lines List CharBoundary Text
open Chunker (byteLength)

/-- The visible lines that are no headings. -/
def contentLines (text : Chars) : List Chars := (visibleLines text).filter fun line => !isHeading line

/-- The heading line of a chunk or section, as the lines of a text are compared. -/
def headingLine (heading : Option Chars) : Option Chars := heading.map stripReturns

/-- The lines that are no headings, each with the last heading before it. -/
def taggedLines : Option Chars → List Chars → List (Option Chars × Chars)
  | _, [] => []
  | heading, line :: rest =>
    if isHeading line then taggedLines (some line) rest
    else (heading, line) :: taggedLines heading rest

/-- The chunks, each with a text that its content is the trimmed form of, hold the lines of a
text. -/
structure Holds (text : Chars) (parts : List (Chunk × Chars)) : Prop where
  trimmed : ∀ part ∈ parts, part.1.content = trim part.2
  tagged : (parts.flatMap fun part =>
      (contentLines part.2).map fun line => (headingLine part.1.heading, line)) =
    taggedLines none (visibleLines text)
  reinserted : ∀ part ∈ parts, ∀ line ∈ visibleLines part.2, isHeading line = true →
    headingLine part.1.heading = some line
  headings : ∀ line ∈ visibleLines text, isHeading line = true →
    ∃ part ∈ parts, line ∈ visibleLines part.2

section Headings

variable {line : Chars}

theorem prefix_of_last {p front back : Chars} {last : Char} (absent : last ∉ back) :
    p ++ [last] <+: front ++ back ↔ p ++ [last] <+: front := by
  constructor
  · intro before
    induction back using reverseRecOn with
    | nil => rwa [append_nil] at before
    | append_singleton back char ih =>
      rw [mem_append, mem_singleton, not_or] at absent
      rw [← append_assoc, prefix_concat_iff] at before
      rcases before with whole | before
      · have same := append_inj_right' whole rfl
        exact absurd (List.cons.inj same).1 absent.2
      · exact ih absent.1 before
  · exact fun before => before.trans (prefix_append front back)

theorem isHeading_stripReturns (line : Chars) : isHeading (stripReturns line) = isHeading line := by
  obtain ⟨returns, split, same⟩ := stripReturns_parts line
  have absent : ' ' ∉ returns := fun member => absurd (same ' ' member) (by decide)
  have mark : ∀ p : Chars, (p ++ [' ']).isPrefixOf line = (p ++ [' ']).isPrefixOf (stripReturns line) := by
    intro p
    apply Bool.eq_iff_iff.mpr
    rw [List.isPrefixOf_iff_prefix, isPrefixOf_iff_prefix]
    conv_lhs => rw [split]
    exact prefix_of_last absent
  unfold isHeading
  have one := mark "#".toList
  have two := mark "##".toList
  have three := mark "###".toList
  exact (congrArg₂ _ (congrArg₂ _ one two) three).symm

/-- A heading begins with a character that is no white space. -/
theorem cons_of_isHeading (heading : isHeading line = true) :
    ∃ rest, line = '#' :: rest := by
  unfold isHeading at heading
  rw [Bool.or_eq_true, Bool.or_eq_true, isPrefixOf_iff_prefix, isPrefixOf_iff_prefix,
    isPrefixOf_iff_prefix] at heading
  rcases heading with (⟨rest, split⟩ | ⟨rest, split⟩) | ⟨rest, split⟩
  · exact ⟨_, split.symm⟩
  · exact ⟨_, split.symm⟩
  · exact ⟨_, split.symm⟩

theorem visible_of_isHeading (heading : isHeading line = true) :
    visible line = true := by
  obtain ⟨rest, rfl⟩ := cons_of_isHeading heading
  have mark : visible ['#'] = true := by decide
  rw [← singleton_append, visible_append, mark, Bool.true_or]

end Headings

section Sections

variable {body line text : Chars} {rest : List Chars} {heading : Option Chars}

/-- Complete lines none of which is a heading. -/
structure Plain (text : Chars) : Prop where
  ended : Ended text
  plain : ∀ line ∈ visibleLines text, isHeading line = false

theorem plain_nil : Plain [] := ⟨Or.inl rfl, fun _ member => absurd member not_mem_nil⟩

theorem visibleLines_line (absent : '\n' ∉ line) :
    visibleLines (line ++ ['\n']) = if visible line then [stripReturns line] else [] := by
  rw [visibleLines_concat, visibleLines_of_not_mem absent]

theorem visibleLines_addLine (ended : Ended text) :
    visibleLines (text ++ line ++ ['\n']) = visibleLines text ++ visibleLines line := by
  rw [append_assoc, visibleLines_append ended, visibleLines_concat]

theorem Plain.addLine (plain : Plain text) (absent : '\n' ∉ line)
    (noHeading : isHeading line = false) : Plain (text ++ line ++ ['\n']) := by
  refine ⟨ended_concat _, fun other member => ?_⟩
  rw [visibleLines_addLine plain.ended, visibleLines_of_not_mem absent] at member
  rcases mem_append.mp member with before | added
  · exact plain.plain other before
  · split at added
    · rw [mem_singleton.mp added, isHeading_stripReturns, noHeading]
    · cases added

theorem Plain.contentLines_eq (plain : Plain text) :
    contentLines text = visibleLines text := by
  apply filter_eq_self.mpr
  intro line member
  rw [plain.plain line member]
  rfl

/-- The visible lines of a text under a heading. -/
def under (heading : Option Chars) (text : Chars) : List (Option Chars × Chars) :=
  (visibleLines text).map fun line => (headingLine heading, line)

theorem taggedLines_plain {front : List Chars}
    (plain : ∀ line ∈ front, isHeading line = false) (rest : List Chars) :
    taggedLines heading (front ++ rest) =
      front.map (fun line => (heading, line)) ++ taggedLines heading rest := by
  induction front with
  | nil => rfl
  | cons line front ih =>
    have tail := ih fun other member => plain other (mem_cons_of_mem line member)
    rw [cons_append, taggedLines, plain line mem_cons_self, if_neg Bool.false_ne_true,
      tail, map_cons, cons_append]

theorem under_of_hidden (hidden : visible text = false) :
    under heading text = [] := by
  rw [under, visibleLines_eq_nil_iff.mpr hidden]
  rfl

/-- The sections hold the lines under their headings. -/
theorem headingSections_tagged (plain : Plain body) (absent : ∀ line ∈ rest, '\n' ∉ line) :
    (headingSections heading body rest).flatMap (fun part => under part.1 part.2) =
      under heading body ++ taggedLines (headingLine heading) (rest.flatMap visibleLines) := by
  induction rest generalizing heading body with
  | nil =>
    rw [headingSections, flatMap_nil, taggedLines, append_nil]
    split
    · rw [flatMap_singleton]
    · rename_i hidden
      exact (under_of_hidden (Bool.or_eq_false_iff.mp (Bool.eq_false_iff.mpr hidden)).1).symm
  | cons line rest ih =>
    have later : ∀ other ∈ rest, '\n' ∉ other := fun other member =>
      absent other (mem_cons_of_mem line member)
    have lineAbsent := absent line mem_cons_self
    rw [headingSections, flatMap_cons, visibleLines_of_not_mem lineAbsent]
    split
    · rename_i titled
      rw [if_pos (visible_of_isHeading titled), singleton_append, taggedLines,
        isHeading_stripReturns, titled, if_pos rfl]
      split
      · rw [flatMap_cons, ih plain_nil later]
        rfl
      · rename_i hidden
        have gone : visible body = false := (Bool.or_eq_false_iff.mp (Bool.eq_false_iff.mpr hidden)).1
        rw [ih plain later, under_of_hidden gone, under_of_hidden gone]
        rfl
    · rename_i untitled
      have noHeading : isHeading line = false := Bool.eq_false_iff.mpr untitled
      have stripped : ∀ other ∈ visibleLines line, isHeading other = false := by
        intro other member
        rw [visibleLines_of_not_mem lineAbsent] at member
        split at member
        · rw [mem_singleton.mp member, isHeading_stripReturns, noHeading]
        · cases member
      rw [ih (plain.addLine lineAbsent noHeading) later, under,
        visibleLines_addLine plain.ended, map_append, append_assoc,
        ← visibleLines_of_not_mem lineAbsent, taggedLines_plain stripped]
      rfl

/-- A heading line. -/
def Title (heading : Option Chars) : Prop :=
  ∀ title, heading = some title → isHeading title = true ∧ '\n' ∉ title

theorem headingSections_wellFormed
    (plain : Plain body) (title : Title heading) (absent : ∀ line ∈ rest, '\n' ∉ line) :
    ∀ part ∈ headingSections heading body rest, Plain part.2 ∧ Title part.1 := by
  induction rest generalizing heading body with
  | nil =>
    intro part member
    rw [headingSections] at member
    split at member
    · cases mem_singleton.mp member
      exact ⟨plain, title⟩
    · cases member
  | cons line rest ih =>
    intro part member
    have later : ∀ other ∈ rest, '\n' ∉ other := fun other among =>
      absent other (mem_cons_of_mem line among)
    rw [headingSections] at member
    split at member
    · rename_i titled
      have next : Title (some line) := by
        rintro other ⟨⟩
        exact ⟨titled, absent line mem_cons_self⟩
      split at member
      · rcases mem_cons.mp member with rfl | among
        · exact ⟨plain, title⟩
        · exact ih plain_nil next later part among
      · exact ih plain next later part member
    · rename_i untitled
      have longer := plain.addLine (absent line mem_cons_self) (Bool.eq_false_iff.mpr untitled)
      exact ih longer title later part member

/-- Every heading begins a section. -/
theorem headingSections_headings (absent : ∀ line ∈ rest, '\n' ∉ line) {title : Chars}
    (begins : headingLine heading = some title ∨
      title ∈ rest.flatMap visibleLines ∧ isHeading title = true) :
    ∃ part ∈ headingSections heading body rest, headingLine part.1 = some title := by
  induction rest generalizing heading body with
  | nil =>
    rcases begins with same | ⟨member, _⟩
    · obtain ⟨other, rfl, _⟩ := Option.map_eq_some_iff.mp same
      refine ⟨(some other, body), ?_, same⟩
      rw [headingSections, Option.isSome_some, Bool.or_true, if_pos rfl]
      exact mem_singleton.mpr rfl
    · cases member
  | cons line rest ih =>
    have later : ∀ other ∈ rest, '\n' ∉ other := fun other among =>
      absent other (mem_cons_of_mem line among)
    rw [headingSections]
    rw [flatMap_cons, mem_append, visibleLines_of_not_mem (absent line mem_cons_self)]
      at begins
    split
    · rename_i titled
      rw [if_pos (visible_of_isHeading titled), mem_singleton] at begins
      have next : title = stripReturns line ∨ title ∈ rest.flatMap visibleLines ∧ isHeading title = true →
          headingLine (some line) = some title ∨
            title ∈ rest.flatMap visibleLines ∧ isHeading title = true :=
        Or.imp_left fun same => congrArg some same.symm
      split
      · rcases begins with same | ⟨here | among, heads⟩
        · exact ⟨(heading, body), mem_cons_self, same⟩
        · obtain ⟨part, member, found⟩ := ih later (next (Or.inl here))
          exact ⟨part, mem_cons_of_mem _ member, found⟩
        · obtain ⟨part, member, found⟩ := ih later (next (Or.inr ⟨among, heads⟩))
          exact ⟨part, mem_cons_of_mem _ member, found⟩
      · rename_i hidden
        have none : heading = none :=
          Option.not_isSome_iff_eq_none.mp fun some => hidden (by rw [some, Bool.or_true])
        rcases begins with same | ⟨here | among, heads⟩
        · rw [none] at same
          cases same
        · exact ih later (next (Or.inl here))
        · exact ih later (next (Or.inr ⟨among, heads⟩))
    · rename_i untitled
      apply ih later
      rcases begins with same | ⟨here | among, heads⟩
      · exact Or.inl same
      · split at here
        · rw [mem_singleton.mp here, isHeading_stripReturns] at heads
          exact absurd heads untitled
        · cases here
      · exact Or.inr ⟨among, heads⟩

end Sections

section Paragraphs

variable {current para : Chars} {rest : List Chars} {maxChars : Nat}

theorem blankLineParagraphs_lines (ended : Ended current) :
    (blankLineParagraphs current rest).flatMap visibleLines =
      visibleLines current ++ rest.flatMap visibleLines := by
  induction rest generalizing current with
  | nil =>
    rw [blankLineParagraphs, flatMap_nil, append_nil]
    split
    · rw [flatMap_singleton]
    · rename_i hidden
      exact (visibleLines_eq_nil_iff.mpr (Bool.eq_false_iff.mpr hidden)).symm
  | cons line rest ih =>
    rw [blankLineParagraphs, flatMap_cons]
    split
    · rw [ih (ended_concat _), visibleLines_addLine ended, append_assoc]
    · rename_i blank
      have nothing : visibleLines line = [] := visibleLines_eq_nil_iff.mpr (Bool.eq_false_iff.mpr blank)
      rw [nothing, nil_append]
      split
      · rw [flatMap_cons, ih (Or.inl rfl), visibleLines_nil, nil_append]
      · exact ih ended

/-- A paragraph is visible, ends in a line feed and is no longer than the lines it is made of. -/
theorem mem_blankLineParagraphs
    (ended : Ended current) (member : para ∈ blankLineParagraphs current rest) :
    visible para = true ∧ Ended para ∧
      byteLength para ≤ byteLength current + (rest.map fun line => byteLength line + 1).sum := by
  induction rest generalizing current with
  | nil =>
    rw [blankLineParagraphs] at member
    split at member
    · rename_i shown
      cases mem_singleton.mp member
      exact ⟨shown, ended, Nat.le_add_right _ _⟩
    · cases member
  | cons line rest ih =>
    rw [blankLineParagraphs] at member
    rw [map_cons, sum_cons]
    split at member
    · obtain ⟨shown, complete, small⟩ := ih (ended_concat _) member
      have length : byteLength (current ++ line ++ ['\n']) = byteLength current + byteLength line + 1 := by
        rw [byteLength_append, byteLength_append]
        rfl
      exact ⟨shown, complete, by omega⟩
    · split at member
      · rename_i shown
        rcases mem_cons.mp member with rfl | among
        · exact ⟨shown, ended, Nat.le_add_right _ _⟩
        · obtain ⟨shown, complete, small⟩ := ih (Or.inl rfl) among
          have nothing : byteLength [] = 0 := rfl
          exact ⟨shown, complete, by omega⟩
      · obtain ⟨shown, complete, small⟩ := ih ended member
        exact ⟨shown, complete, by omega⟩

theorem lineGroups_lines
    (ended : Ended current) : (lineGroups maxChars current rest).flatMap visibleLines =
      visibleLines current ++ rest.flatMap visibleLines := by
  induction rest generalizing current with
  | nil =>
    rw [lineGroups, flatMap_nil, append_nil]
    split
    · rename_i empty
      rw [List.isEmpty_iff.mp empty]
      rfl
    · rw [flatMap_singleton]
  | cons line rest ih =>
    rw [lineGroups, flatMap_cons]
    split
    · rw [flatMap_cons, ih (ended_concat line), visibleLines_concat]
    · rw [ih (ended_concat _), visibleLines_addLine ended, append_assoc]

/-- A group of lines is short or a single line. -/
theorem mem_lineGroups {group : Chars} (absent : ∀ line ∈ rest, '\n' ∉ line) (ended : Ended current)
    (short : byteLength current ≤ maxChars ∨ (visibleLines current).length ≤ 1)
    (member : group ∈ lineGroups maxChars current rest) :
    byteLength group ≤ maxChars ∨ (visibleLines group).length ≤ 1 := by
  induction rest generalizing current with
  | nil =>
    rw [lineGroups] at member
    split at member
    · cases member
    · exact mem_singleton.mp member ▸ short
  | cons line rest ih =>
    have later : ∀ other ∈ rest, '\n' ∉ other := fun other among =>
      absent other (mem_cons_of_mem line among)
    have single : (visibleLines (line ++ ['\n'])).length ≤ 1 := by
      rw [visibleLines_line (absent line mem_cons_self)]
      split <;> simp
    rw [lineGroups] at member
    split at member
    · rcases mem_cons.mp member with rfl | among
      · exact short
      · exact ih later (ended_concat line) (Or.inr single) among
    · rename_i fits
      apply ih later (ended_concat _) _ member
      by_cases empty : current = []
      · subst empty
        exact Or.inr single
      · have below : byteLength current + byteLength line + 1 ≤ maxChars := by
          simpa [empty] using fits
        refine Or.inl ?_
        rw [byteLength_append, byteLength_append]
        exact below

theorem byteLength_lines_le {text : Chars} (ended : Ended text) :
    ((lines text).map fun line => byteLength line + 1).sum ≤ byteLength text := by
  induction text using Lines.induction with
  | last line absent =>
    rcases ended with rfl | ⟨front, rfl⟩
    · exact Nat.le_refl _
    · exact absurd (mem_append_right front (mem_singleton.mpr rfl)) absent
  | step line rest absent ih =>
    have complete : Ended rest := by
      rcases eq_nil_or_concat' rest with rfl | ⟨front, last, rfl⟩
      · exact Or.inl rfl
      · rcases ended with empty | ⟨before, split⟩
        · simp at empty
        · rw [← cons_append, ← append_assoc] at split
          have same := append_inj_right' split rfl
          exact Or.inr ⟨front, by rw [(List.cons.inj same).1]⟩
    have stripped : byteLength (stripReturn line) ≤ byteLength line := by
      unfold stripReturn
      split
      · rename_i ends
        obtain ⟨front, rfl⟩ := getLast?_eq_some_iff.mp ends
        rw [dropLast_concat, byteLength_append]
        exact Nat.le_add_right _ _
      · exact Nat.le_refl _
    have feed : byteLength ('\n' :: rest) = 1 + byteLength rest := rfl
    rw [lines_cons absent, map_cons, sum_cons, byteLength_append, feed]
    have tail := ih complete
    omega

/-- The paragraphs of a section hold its lines. -/
theorem splitOnBlankLines_lines (body : Chars) :
    (splitOnBlankLines body).flatMap visibleLines = visibleLines body := by
  rw [splitOnBlankLines, blankLineParagraphs_lines (Or.inl rfl), visibleLines_nil, nil_append,
    visibleLines_lines]

theorem mem_splitOnBlankLines {body : Chars} (plain : Plain body)
    (member : para ∈ splitOnBlankLines body) :
    visible para = true ∧ Plain para ∧ byteLength para ≤ byteLength body := by
  obtain ⟨shown, ended, small⟩ := mem_blankLineParagraphs (Or.inl rfl) member
  refine ⟨shown, ⟨ended, fun line among => plain.plain line ?_⟩, ?_⟩
  · rw [← splitOnBlankLines_lines]
    exact mem_flatMap.mpr ⟨para, member, among⟩
  · have total := byteLength_lines_le plain.ended
    have nothing : byteLength [] = 0 := rfl
    omega

theorem splitOnLines_lines (para : Chars) (maxChars : Nat) :
    (splitOnLines para maxChars).flatMap visibleLines = visibleLines para := by
  rw [splitOnLines, lineGroups_lines (Or.inl rfl), visibleLines_nil, nil_append, visibleLines_lines]

end Paragraphs

section Accumulator

variable {heading : Option Chars} {maxChars : Nat}
variable {current text : Chars}

theorem contentLines_flatMap (texts : List Chars) :
    texts.flatMap contentLines = (texts.flatMap visibleLines).filter fun line => !isHeading line :=
  filter_flatMap.symm

theorem contentLines_append {front : Chars} (ended : Ended front) (back : Chars) :
    contentLines (front ++ back) = contentLines front ++ contentLines back := by
  rw [contentLines, visibleLines_append ended, filter_append]
  rfl

theorem contentLines_of_hidden (hidden : visible text = false) :
    contentLines text = [] := by
  rw [contentLines, visibleLines_eq_nil_iff.mpr hidden, filter_nil]

theorem ended_restart (heading : Option Chars) : Ended (restart heading) := by
  cases heading with
  | none => exact Or.inl rfl
  | some title => exact ended_concat title

theorem visibleLines_restart (title : Title heading) :
    visibleLines (restart heading) = (headingLine heading).toList := by
  cases heading with
  | none => rfl
  | some line =>
    obtain ⟨heads, absent⟩ := title line rfl
    exact (visibleLines_line absent).trans (if_pos (visible_of_isHeading heads))

theorem contentLines_restart (title : Title heading) : contentLines (restart heading) = [] := by
  rw [contentLines, visibleLines_restart title]
  cases heading with
  | none => rfl
  | some line =>
    obtain ⟨heads, _⟩ := title line rfl
    apply filter_eq_nil_iff.mpr
    intro other member
    rw [mem_singleton.mp member, isHeading_stripReturns, heads]
    exact Bool.false_ne_true

/-- Flushing takes the content of the accumulator. -/
theorem flushed_content (title : Title heading) (flush : Bool) (current : Chars) :
    (flushed flush current).flatMap contentLines ++ contentLines (remaining heading flush current) =
      contentLines current := by
  cases flush with
  | false => rfl
  | true =>
    rw [flushed, remaining, if_pos rfl, if_pos rfl, contentLines_restart title,
      flatMap_singleton, append_nil]

theorem ended_remaining (ended : Ended current) (flush : Bool) :
    Ended (remaining heading flush current) := by
  cases flush with
  | false => exact ended
  | true => exact ended_restart heading

theorem hidden_remaining (title : Title heading) (current : Chars) :
    contentLines (remaining heading (visible current) current) = [] := by
  cases shown : visible current with
  | false => exact contentLines_of_hidden shown
  | true => exact contentLines_restart title

/-- The texts of a section hold what the accumulator and the paragraphs hold. -/
theorem paragraphTexts_content (title : Title heading) (ended : Ended current)
    (paras : List Chars) :
    (paragraphTexts heading maxChars current paras).flatMap contentLines =
      contentLines current ++ paras.flatMap contentLines := by
  induction paras generalizing current with
  | nil =>
    have whole := flushed_content title (visible current) current
    rw [hidden_remaining title, append_nil] at whole
    rw [paragraphTexts, whole, flatMap_nil, append_nil]
  | cons para paras ih =>
    rw [paragraphTexts, flatMap_cons]
    generalize (decide (byteLength current + byteLength para > maxChars) && visible current) = full
    have first := flushed_content title full current
    have nextEnded : Ended (remaining heading full current) := ended_remaining ended full
    generalize remaining heading full current = next at first nextEnded ⊢
    rw [← first]
    split
    · have waiting := flushed_content title (visible next) next
      rw [hidden_remaining title, append_nil] at waiting
      have groups : (splitOnLines para maxChars).flatMap contentLines = contentLines para := by
        rw [contentLines_flatMap, splitOnLines_lines]
        rfl
      rw [flatMap_append, flatMap_append, flatMap_append, waiting, groups,
        ih (ended_remaining nextEnded _), hidden_remaining title, nil_append,
        append_assoc]
    · have added : contentLines (next ++ para ++ ['\n']) = contentLines next ++ contentLines para := by
        rw [contentLines, visibleLines_addLine nextEnded, filter_append]
        rfl
      rw [flatMap_append, ih (ended_concat _), added]
      simp only [append_assoc]

/-- A text has no heading but the one of its section. -/
def Heads (heading : Option Chars) (text : Chars) : Prop :=
  ∀ line ∈ visibleLines text, isHeading line = true → headingLine heading = some line

theorem Plain.heads (plain : Plain text) : Heads heading text := by
  intro line member heads
  rw [plain.plain line member] at heads
  exact absurd heads Bool.false_ne_true

theorem heads_restart (title : Title heading) : Heads heading (restart heading) := by
  intro line member _
  rw [visibleLines_restart title] at member
  exact Option.mem_toList.mp member

theorem heads_remaining (title : Title heading) (heads : Heads heading current)
    (flush : Bool) : Heads heading (remaining heading flush current) := by
  cases flush with
  | false => exact heads
  | true => exact heads_restart title

theorem mem_flushed {flush : Bool} (member : text ∈ flushed flush current) :
    text = current ∧ flush = true := by
  unfold flushed at member
  split at member
  · rename_i flushes
    exact ⟨mem_singleton.mp member, flushes⟩
  · cases member

theorem heads_paragraphTexts (title : Title heading) (ended : Ended current)
    (heads : Heads heading current) {paras : List Chars} (plain : ∀ para ∈ paras, Plain para)
    (member : text ∈ paragraphTexts heading maxChars current paras) :
    Heads heading text := by
  induction paras generalizing current with
  | nil => exact (mem_flushed member).1 ▸ heads
  | cons para paras ih =>
    have later : ∀ other ∈ paras, Plain other := fun other among =>
      plain other (mem_cons_of_mem para among)
    have paraPlain := plain para mem_cons_self
    rw [paragraphTexts] at member
    generalize (decide (byteLength current + byteLength para > maxChars) && visible current) = full
      at member
    have nextHeads := heads_remaining title heads full
    have nextEnded : Ended (remaining heading full current) := ended_remaining ended full
    generalize remaining heading full current = next at nextHeads nextEnded member
    split at member
    · rcases mem_append.mp member with before | member
      · exact (mem_flushed before).1 ▸ heads
      rcases mem_append.mp member with waiting | member
      · exact (mem_flushed waiting).1 ▸ nextHeads
      rcases mem_append.mp member with group | member
      · intro line among titled
        have inside : line ∈ visibleLines para := by
          rw [← splitOnLines_lines para maxChars]
          exact mem_flatMap.mpr ⟨text, group, among⟩
        exact paraPlain.heads line inside titled
      · exact ih (ended_remaining nextEnded _)
          (heads_remaining title nextHeads _) later member
    · rcases mem_append.mp member with before | member
      · exact (mem_flushed before).1 ▸ heads
      apply ih (ended_concat _) _ later member
      intro line among titled
      rw [visibleLines_addLine nextEnded] at among
      rcases mem_append.mp among with before | inside
      · exact nextHeads line before titled
      · exact paraPlain.heads line inside titled

/-- What the accumulator holds is pushed in the end. -/
theorem mem_paragraphTexts_of_current {line : Chars} (ended : Ended current)
    (member : line ∈ visibleLines current) (paras : List Chars) :
    ∃ text ∈ paragraphTexts heading maxChars current paras, line ∈ visibleLines text := by
  induction paras generalizing current with
  | nil =>
    rw [paragraphTexts, flushed, if_pos (visible_of_line member)]
    exact ⟨current, mem_singleton.mpr rfl, member⟩
  | cons para paras ih =>
    rw [paragraphTexts]
    generalize (decide (byteLength current + byteLength para > maxChars) && visible current) = full
    cases full with
    | true =>
      refine ⟨current, ?_, member⟩
      split
      · exact mem_append_left _ (mem_singleton.mpr rfl)
      · exact mem_append_left _ (mem_singleton.mpr rfl)
    | false =>
      rw [flushed, remaining, if_neg Bool.false_ne_true, if_neg Bool.false_ne_true, nil_append,
        nil_append, visible_of_line member]
      split
      · exact ⟨current, mem_append_left _ (mem_singleton.mpr rfl), member⟩
      · apply ih (ended_concat _)
        rw [visibleLines_addLine ended]
        exact mem_append_left _ member

end Accumulator

section Chunks

variable {heading : Option Chars} {maxChars : Nat}
variable (text : Chars)

theorem sectionTexts_content (title : Title heading) {body : Chars} (plain : Plain body) :
    (sectionTexts heading maxChars body).flatMap contentLines = visibleLines body := by
  unfold sectionTexts
  dsimp only
  split
  · rw [flatMap_singleton, contentLines_append (ended_restart heading),
      contentLines_restart title, nil_append, plain.contentLines_eq]
  · rw [paragraphTexts_content title (ended_restart heading), contentLines_restart title,
      nil_append, contentLines_flatMap, splitOnBlankLines_lines]
    exact plain.contentLines_eq

theorem heads_sectionTexts (title : Title heading) {body text : Chars} (plain : Plain body)
    (member : text ∈ sectionTexts heading maxChars body) : Heads heading text := by
  unfold sectionTexts at member
  dsimp only at member
  split at member
  · cases mem_singleton.mp member
    intro line among heads
    rw [visibleLines_append (ended_restart heading)] at among
    rcases mem_append.mp among with before | inside
    · exact heads_restart title line before heads
    · exact plain.heads line inside heads
  · apply heads_paragraphTexts title (ended_restart heading) (heads_restart title) _ member
    exact fun para among => (mem_splitOnBlankLines plain among).2.1

theorem headingLine_mem_sectionTexts (title : Title heading) {line : Chars}
    (begins : headingLine heading = some line) (body : Chars) :
    ∃ text ∈ sectionTexts heading maxChars body, line ∈ visibleLines text := by
  have inside : line ∈ visibleLines (restart heading) := by
    rw [visibleLines_restart title]
    exact Option.mem_toList.mpr begins
  unfold sectionTexts
  dsimp only
  split
  · refine ⟨_, mem_singleton.mpr rfl, ?_⟩
    rw [visibleLines_append (ended_restart heading)]
    exact mem_append_left _ inside
  · exact mem_paragraphTexts_of_current (ended_restart heading) inside _

theorem wellFormed_splitOnHeadings :
    ∀ part ∈ splitOnHeadings text, Plain part.2 ∧ Title part.1 :=
  headingSections_wellFormed plain_nil (fun _ none => nomatch none) fun _ => mem_lines

theorem splitOnHeadings_tagged :
    (splitOnHeadings text).flatMap (fun part => under part.1 part.2) =
      taggedLines none (visibleLines text) := by
  rw [splitOnHeadings, headingSections_tagged plain_nil fun _ => mem_lines, visibleLines_lines]
  rfl

theorem pushedTexts_tagged (maxChars : Nat) :
    (pushedTexts text maxChars).flatMap (fun entry =>
        (contentLines entry.2).map fun line => (headingLine entry.1, line)) =
      taggedLines none (visibleLines text) := by
  rw [← splitOnHeadings_tagged, pushedTexts, flatMap_assoc]
  apply flatMap_congr
  intro part member
  obtain ⟨plain, title⟩ := wellFormed_splitOnHeadings text part member
  have content : (sectionTexts part.1 maxChars part.2).flatMap contentLines = visibleLines part.2 :=
    sectionTexts_content title plain
  rw [under, ← content, flatMap_map, map_flatMap]

/-- The chunks with the texts they are the trimmed forms of. -/
def chunkParts (text : Chars) (maxChars : Nat) : List (Chunk × Chars) :=
  ((pushedTexts text maxChars).filter fun entry => !(trim entry.2).isEmpty).zipIdx.map
    fun entry => ({ index := entry.2, content := trim entry.1.2, heading := entry.1.1 }, entry.1.2)

theorem chunkMarkdown_eq {text : Chars} (shown : visible text = true) (maxTokens : Nat) :
    chunkMarkdown text maxTokens = (chunkParts text (maxTokens * 4)).map Prod.fst := by
  have some : (trim text).isEmpty = false := by
    rw [visible, Bool.not_eq_true'] at shown
    exact shown
  rw [chunkMarkdown, some, if_neg Bool.false_ne_true, chunkParts]
  dsimp only
  rw [filter_map, zipIdx_map, map_map, map_map]
  rfl

theorem mem_chunkParts {text : Chars} {part : Chunk × Chars} :
    part ∈ chunkParts text maxChars → part.1.content = trim part.2 ∧
      visible part.2 = true ∧ (part.1.heading, part.2) ∈ pushedTexts text maxChars := by
  intro member
  obtain ⟨entry, indexed, rfl⟩ := mem_map.mp member
  obtain ⟨pushed, shown⟩ := mem_filter.mp (fst_mem_of_mem_zipIdx indexed)
  exact ⟨rfl, shown, pushed⟩

theorem exists_chunkParts {text : Chars} {entry : Option Chars × Chars}
    (member : entry ∈ pushedTexts text maxChars) (shown : visible entry.2 = true) :
    ∃ part ∈ chunkParts text maxChars, part.1.heading = entry.1 ∧ part.2 = entry.2 := by
  have kept : entry ∈ (pushedTexts text maxChars).filter fun entry => !(trim entry.2).isEmpty :=
    mem_filter.mpr ⟨member, shown⟩
  obtain ⟨index, found⟩ := List.getElem?_of_mem kept
  have indexed : ((pushedTexts text maxChars).filter
      fun entry => !(trim entry.2).isEmpty).zipIdx[index]? = some (entry, index) := by
    rw [List.getElem?_zipIdx, found, Option.map_some, Nat.zero_add]
  exact ⟨_, mem_map.mpr ⟨(entry, index), mem_of_getElem? indexed, rfl⟩, rfl, rfl⟩

/-- What is retained has all that is visible. -/
theorem flatMap_chunkParts (maxChars : Nat) :
    (chunkParts text maxChars).flatMap (fun part =>
        (contentLines part.2).map fun line => (headingLine part.1.heading, line)) =
      (pushedTexts text maxChars).flatMap fun entry =>
        (contentLines entry.2).map fun line => (headingLine entry.1, line) := by
  rw [chunkParts, flatMap_map]
  have indexed : ∀ entries : List (Option Chars × Chars), entries.zipIdx.flatMap (fun entry =>
      (contentLines entry.1.2).map fun line => (headingLine entry.1.1, line)) =
      entries.flatMap fun entry => (contentLines entry.2).map fun line => (headingLine entry.1, line) := by
    intro entries
    conv_rhs => rw [← zipIdx_map_fst 0 entries, flatMap_map]
  refine Eq.trans (indexed _) ?_
  induction pushedTexts text maxChars with
  | nil => rfl
  | cons entry entries ih =>
    rw [filter_cons, flatMap_cons]
    split
    · rw [flatMap_cons, ih]
    · rename_i dropped
      have hidden : visible entry.2 = false := Bool.eq_false_iff.mpr dropped
      rw [contentLines_of_hidden hidden, ih]
      rfl

theorem holds_chunkParts (maxChars : Nat) : Holds text (chunkParts text maxChars) := by
  refine ⟨fun part member => (mem_chunkParts member).1, ?_, ?_, ?_⟩
  · rw [← pushedTexts_tagged text maxChars, ← flatMap_chunkParts]
  · intro part member line among heads
    obtain ⟨source, listed, pushed⟩ := mem_flatMap.mp (mem_chunkParts member).2.2
    obtain ⟨plain, title⟩ := wellFormed_splitOnHeadings text source listed
    obtain ⟨other, inside, same⟩ := mem_map.mp pushed
    obtain ⟨sameHeading, sameText⟩ := Prod.mk.inj same
    rw [← sameText] at among
    rw [← sameHeading]
    exact heads_sectionTexts title plain inside line among heads
  · intro line among heads
    rw [← visibleLines_lines] at among
    obtain ⟨source, listed, begins⟩ : ∃ source ∈ splitOnHeadings text,
        headingLine source.1 = some line :=
      headingSections_headings (fun _ => mem_lines) (Or.inr ⟨among, heads⟩)
    obtain ⟨_, title⟩ := wellFormed_splitOnHeadings text source listed
    obtain ⟨pushed, inside, holds⟩ : ∃ pushed ∈ sectionTexts source.1 maxChars source.2,
        line ∈ visibleLines pushed := headingLine_mem_sectionTexts title begins source.2
    have entry : (source.1, pushed) ∈ pushedTexts text maxChars :=
      mem_flatMap.mpr ⟨source, listed, mem_map_of_mem inside⟩
    obtain ⟨part, member, _, same⟩ := exists_chunkParts entry (visible_of_line holds)
    exact ⟨part, member, same ▸ holds⟩

end Chunks

end Asterel.MarkdownChunker
