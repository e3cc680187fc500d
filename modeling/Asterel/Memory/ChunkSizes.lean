import Asterel.Memory.ChunkedLines

/-!
# How long the chunks of a Markdown text are

A chunk is too long only where a paragraph of several lines fits the limit by itself but not
behind the heading of its section. After a flush the accumulator begins with the heading
again, and such a paragraph is put behind it without another look at the limit.
-/

namespace Asterel.MarkdownChunker

open Library Library.Lines List CharBoundary Text
open Chunker (byteLength)

/-- A single line, besides the heading in front of it. -/
def SingleLine (heading : Option Chars) (content : Chars) : Prop :=
  ∃ line, visibleLines content = [line] ∨
    ∃ title, heading = some title ∧ visibleLines content = [stripReturns title, line]

/-- What the chunks of a text are to be. -/
structure KeepsMarkdown (text : Chars) (maxTokens : Nat) (chunks : List Chunk) : Prop where
  holds : ∃ parts : List (Chunk × Chars), parts.map Prod.fst = chunks ∧ Holds text parts
  indices : chunks.map Chunk.index = List.range chunks.length
  short : ∀ chunk ∈ chunks, byteLength chunk.content ≤ maxTokens * 4 ∨
    SingleLine chunk.heading chunk.content

/-- A paragraph of several lines that fits by itself but not behind its heading. -/
structure Overflows (heading : Option Chars) (maxChars : Nat) (para : Chars) : Prop where
  fits : byteLength para ≤ maxChars
  several : 2 ≤ (visibleLines para).length
  behind : ∃ title, heading = some title ∧
    maxChars < byteLength title + 1 + byteLength (trimEnd para)

/-- The trimmed text is a chunk that is not too long. -/
def Fits (heading : Option Chars) (maxChars : Nat) (text : Chars) : Prop :=
  byteLength (trim text) ≤ maxChars ∨ SingleLine heading (trim text)

section Fits

variable {heading : Option Chars} {maxChars : Nat} {text para title : Chars}

theorem byteLength_infix_le {part text : Chars} (inside : part <:+: text) :
    byteLength part ≤ byteLength text := by
  obtain ⟨front, back, rfl⟩ := inside
  rw [byteLength_append, byteLength_append]
  omega

theorem fits_of_short (short : byteLength text ≤ maxChars) : Fits heading maxChars text :=
  Or.inl (le_trans (byteLength_infix_le (trim_isInfix text)) short)

theorem fits_of_single (shown : visible text = true) (single : (visibleLines text).length ≤ 1) :
    Fits heading maxChars text := by
  have some := visibleLines_pos shown
  obtain ⟨line, only⟩ := length_eq_one_iff.mp
    ((length_visibleLines_trim text).trans (show (visibleLines text).length = 1 by omega))
  exact Or.inr ⟨line, Or.inl only⟩

theorem fits_added {current : Chars} (short : byteLength current + byteLength para ≤ maxChars) :
    Fits heading maxChars (current ++ para ++ ['\n']) := by
  have white : isWhitespace '\n' = true := by decide
  refine Or.inl ?_
  rw [trim_concat_white white]
  refine le_trans (byteLength_infix_le (trim_isInfix _)) ?_
  rw [byteLength_append]
  exact short

theorem trimEnd_append {front back : Chars} (shown : visible back = true) :
    trimEnd (front ++ back) = front ++ trimEnd back := by
  have stops : (dropWhile isWhitespace back.reverse).isEmpty = false := by
    rw [Bool.eq_false_iff]
    intro empty
    have blank : Text.Blank back := fun char member =>
      dropWhile_eq_nil_iff.mp (List.isEmpty_iff.mp empty) char (mem_reverse.mpr member)
    rw [visible_eq_false_iff.mpr blank] at shown
    cases shown
  rw [trimEnd, trimEnd, reverse_append, trimStart, dropWhile_append, stops,
    if_neg Bool.false_ne_true, reverse_append, reverse_reverse]
  rfl

/-- A paragraph behind its heading is trimmed at its end only. -/
theorem trim_behind (heads : isHeading title = true) (shown : visible para = true) :
    trim (restart (some title) ++ para ++ ['\n']) = title ++ '\n' :: trimEnd para := by
  have white : isWhitespace '\n' = true := by decide
  obtain ⟨rest, rfl⟩ := cons_of_isHeading heads
  have start : trimStart (restart (some ('#' :: rest)) ++ para) =
      restart (some ('#' :: rest)) ++ para := trimStart_eq_self fun char first => by
    cases first
    decide
  rw [trim_concat_white white, trim, start, trimEnd_append shown]
  exact (append_assoc _ _ _).trans rfl

theorem visibleLines_behind (titled : Title (some title)) (shown : visible para = true) :
    ∃ lines, visibleLines (title ++ '\n' :: trimEnd para) = stripReturns title :: lines ∧
      lines.length = (visibleLines para).length := by
  obtain ⟨heads, absent⟩ := titled title rfl
  refine ⟨visibleLines (trimEnd para), ?_, ?_⟩
  · rw [visibleLines_append_cons, visibleLines_of_not_mem absent, if_pos (visible_of_isHeading heads)]
    rfl
  · have whole := length_visibleLines_trim (restart (some title) ++ para ++ ['\n'])
    rw [trim_behind heads shown, visibleLines_append_cons, visibleLines_addLine (ended_restart _),
      visibleLines_restart titled, visibleLines_of_not_mem absent,
      if_pos (visible_of_isHeading heads), length_append, length_append] at whole
    exact Nat.add_left_cancel whole

/-- Behind its heading a paragraph fits unless it overflows. -/
theorem fits_behind_iff (titled : Title heading) (shown : visible para = true)
    (small : byteLength para ≤ maxChars) :
    Fits heading maxChars (restart heading ++ para ++ ['\n']) ↔ ¬ Overflows heading maxChars para := by
  cases heading with
  | none =>
    refine iff_of_true (fits_added ?_) fun overflows => ?_
    · exact (Nat.zero_add _).le.trans small
    · obtain ⟨_, none, _⟩ := overflows.behind
      cases none
  | some title =>
    obtain ⟨heads, _⟩ := titled title rfl
    obtain ⟨lines, split, count⟩ := visibleLines_behind titled shown
    have length : byteLength (title ++ '\n' :: trimEnd para) =
        byteLength title + 1 + byteLength (trimEnd para) := by
      rw [byteLength_append, Nat.add_assoc]
      rfl
    unfold Fits
    rw [trim_behind heads shown, length]
    constructor
    · rintro (short | ⟨line, only | ⟨other, same, two⟩⟩) overflows
      · obtain ⟨other, same, long⟩ := overflows.behind
        cases same
        omega
      · have sizes := congrArg List.length (split.symm.trans only)
        have several := overflows.several
        simp only [length_cons, length_nil] at sizes
        omega
      · have sizes := congrArg List.length (split.symm.trans two)
        have several := overflows.several
        simp only [length_cons, length_nil] at sizes
        omega
    · intro fine
      by_cases short : byteLength title + 1 + byteLength (trimEnd para) ≤ maxChars
      · exact Or.inl short
      · have few : lines.length < 2 := by
          by_contra several
          exact fine ⟨small, by omega, title, rfl, by omega⟩
        have some := visibleLines_pos shown
        obtain ⟨line, rfl⟩ := length_eq_one_iff.mp (show lines.length = 1 by omega)
        exact Or.inr ⟨line, Or.inr ⟨title, rfl, split⟩⟩

end Fits

section Accumulator

variable {heading : Option Chars} {maxChars : Nat}
variable {current para text : Chars} {paras : List Chars}

/-- The accumulator holds what fits, and where it holds nothing visible it has just begun. -/
structure Waiting (heading : Option Chars) (maxChars : Nat) (current : Chars) : Prop where
  ended : Ended current
  fits : visible current = true → Fits heading maxChars current
  begun : visible current = false → current = restart heading

theorem waiting_restart (title : Title heading) : Waiting heading maxChars (restart heading) := by
  refine ⟨ended_restart heading, fun shown => fits_of_single shown ?_, fun _ => rfl⟩
  rw [visibleLines_restart title]
  cases heading with
  | none => exact Nat.zero_le 1
  | some _ => exact Nat.le_refl 1

theorem waiting_remaining (title : Title heading)
    (waiting : Waiting heading maxChars current) (flush : Bool) :
    Waiting heading maxChars (remaining heading flush current) := by
  cases flush with
  | false => exact waiting
  | true => exact waiting_restart title

/-- A paragraph is put behind the heading or to what leaves room for it. -/
theorem remaining_cases (waiting : Waiting heading maxChars current) (para : Chars) :
    let full := byteLength current + byteLength para > maxChars && visible current
    remaining heading full current = restart heading ∨
      byteLength (remaining heading full current) + byteLength para ≤ maxChars := by
  intro full
  cases flushes : full with
  | true => exact Or.inl rfl
  | false =>
    rcases Bool.and_eq_false_iff.mp flushes with room | hidden
    · exact Or.inr (Nat.le_of_not_gt (of_decide_eq_false room))
    · exact Or.inl (waiting.begun hidden)

theorem fits_splitOnLines (member : text ∈ splitOnLines para maxChars)
    (shown : visible text = true) : Fits heading maxChars text := by
  rcases mem_lineGroups (fun _ => mem_lines) (Or.inl rfl) (Or.inl (Nat.zero_le _)) member
    with short | single
  · exact fits_of_short short
  · exact fits_of_single shown single

/-- Without a paragraph that overflows everything fits. -/
theorem fits_paragraphTexts (title : Title heading) (waiting : Waiting heading maxChars current)
    (fine : ∀ para ∈ paras, visible para = true ∧ ¬ Overflows heading maxChars para)
    (member : text ∈ paragraphTexts heading maxChars current paras) (shown : visible text = true) :
    Fits heading maxChars text := by
  induction paras generalizing current with
  | nil =>
    obtain ⟨same, _⟩ := mem_flushed member
    subst same
    exact waiting.fits shown
  | cons para paras ih =>
    have later : ∀ other ∈ paras, visible other = true ∧ ¬ Overflows heading maxChars other :=
      fun other among => fine other (mem_cons_of_mem para among)
    obtain ⟨paraShown, paraFine⟩ := fine para mem_cons_self
    have room := remaining_cases waiting para
    rw [paragraphTexts] at member
    dsimp only at room
    generalize (decide (byteLength current + byteLength para > maxChars) && visible current) = full
      at member room
    have nextWaiting := waiting_remaining title waiting full
    have before : text ∈ flushed full current → Fits heading maxChars text := by
      intro flush
      obtain ⟨same, _⟩ := mem_flushed flush
      subst same
      exact waiting.fits shown
    generalize remaining heading full current = next at member room nextWaiting
    split at member
    · rcases mem_append.mp member with flush | member
      · exact before flush
      rcases mem_append.mp member with flush | member
      · obtain ⟨same, _⟩ := mem_flushed flush
        subst same
        exact nextWaiting.fits shown
      rcases mem_append.mp member with group | member
      · exact fits_splitOnLines group shown
      · exact ih (waiting_remaining title nextWaiting _) later member
    · rename_i small
      rcases mem_append.mp member with flush | member
      · exact before flush
      refine ih ⟨ended_concat _, fun _ => ?_, fun hidden => ?_⟩ later member
      · rcases room with rfl | short
        · exact (fits_behind_iff title paraShown (Nat.le_of_not_gt small)).mpr paraFine
        · exact fits_added short
      · rw [visible_append, visible_append, paraShown, Bool.or_true, Bool.true_or] at hidden
        cases hidden

/-- What has no room for anything is pushed as it is. -/
theorem mem_paragraphTexts_of_full (shown : visible current = true)
    (full : maxChars ≤ byteLength current) (some : ∀ para ∈ paras, 0 < byteLength para) :
    current ∈ paragraphTexts heading maxChars current paras := by
  cases paras with
  | nil =>
    rw [paragraphTexts, flushed, if_pos shown]
    exact mem_singleton.mpr rfl
  | cons para paras =>
    have positive := some para mem_cons_self
    have flushes : (decide (byteLength current + byteLength para > maxChars) && visible current) = true := by
      rw [shown, Bool.and_true, decide_eq_true_eq]
      omega
    rw [paragraphTexts, flushes]
    split
    · exact mem_append_left _ (mem_singleton.mpr rfl)
    · exact mem_append_left _ (mem_singleton.mpr rfl)

theorem byteLength_pos (shown : visible text = true) : 0 < byteLength text := by
  cases text with
  | nil => cases shown
  | cons char rest => exact Nat.add_pos_left char.utf8Size_pos (byteLength rest)

/-- A paragraph that overflows is pushed behind its heading. -/
theorem overflow_pushed {title : Chars} (shown : visible current = true)
    (heads : isHeading title = true) (long : byteLength title + 1 ≤ byteLength current)
    (visibles : ∀ para ∈ paras, visible para = true)
    (member : para ∈ paras) (overflows : Overflows (some title) maxChars para) :
    restart (some title) ++ para ++ ['\n'] ∈ paragraphTexts (some title) maxChars current paras := by
  have length : byteLength (restart (some title)) = byteLength title + 1 :=
    byteLength_append title ['\n']
  have restartShown : visible (restart (some title)) = true := by
    rw [restart, Option.elim_some, visible_append, visible_of_isHeading heads, Bool.true_or]
  induction paras generalizing current with
  | nil => cases member
  | cons first paras ih =>
    have later : ∀ other ∈ paras, visible other = true := fun other among =>
      visibles other (mem_cons_of_mem first among)
    rcases mem_cons.mp member with rfl | among
    · obtain ⟨_, same, exceeds⟩ := overflows.behind
      cases same
      have trimmed : byteLength (trimEnd para) ≤ byteLength para :=
        byteLength_infix_le (List.rdropWhile_prefix isWhitespace para).isInfix
      have flushes : (decide (byteLength current + byteLength para > maxChars) && visible current) =
          true := by
        rw [shown, Bool.and_true, decide_eq_true_eq]
        omega
      rw [paragraphTexts, flushes, if_neg (Nat.not_lt_of_ge overflows.fits)]
      apply mem_append_right
      apply mem_paragraphTexts_of_full
      · rw [visible_append, visible_append, remaining, if_pos rfl, restartShown, Bool.true_or,
          Bool.true_or]
      · rw [byteLength_append, byteLength_append, remaining, if_pos rfl, length]
        omega
      · exact fun other among => byteLength_pos (later other among)
    · rw [paragraphTexts]
      generalize (decide (byteLength current + byteLength first > maxChars) && visible current) = full
      have nextShown : visible (remaining (some title) full current) = true := by
        cases full with
        | false => exact shown
        | true => exact restartShown
      have nextLong : byteLength title + 1 ≤ byteLength (remaining (some title) full current) := by
        cases full with
        | false => exact long
        | true => exact length.ge
      generalize remaining (some title) full current = next at nextShown nextLong
      split
      · apply mem_append_right
        apply mem_append_right
        apply mem_append_right
        rw [nextShown]
        exact ih restartShown length.ge later among
      · apply mem_append_right
        apply ih _ _ later among
        · rw [visible_append, visible_append, nextShown, Bool.true_or, Bool.true_or]
        · rw [byteLength_append, byteLength_append]
          omega

end Accumulator

section Chunks

/-- The chunks of a section fit unless one of its paragraphs overflows. -/
theorem fits_sectionTexts_iff {heading : Option Chars} {maxChars : Nat} {body : Chars}
    (title : Title heading) (plain : Plain body) :
    (∀ text ∈ sectionTexts heading maxChars body, visible text = true → Fits heading maxChars text) ↔
      ∀ para ∈ splitOnBlankLines body, ¬ Overflows heading maxChars para := by
  unfold sectionTexts
  dsimp only
  split
  · rename_i small
    refine iff_of_true (fun text member _ => ?_) fun para member overflows => ?_
    · cases mem_singleton.mp member
      apply fits_of_short
      rw [byteLength_append]
      cases heading with
      | none => exact (Nat.zero_add _).le.trans small
      | some line =>
        have length : byteLength (restart (some line)) = byteLength line + 1 :=
          byteLength_append line ['\n']
        rw [length]
        exact small
    · obtain ⟨line, rfl, exceeds⟩ := overflows.behind
      obtain ⟨_, _, below⟩ := mem_splitOnBlankLines plain member
      have trimmed : byteLength (trimEnd para) ≤ byteLength para :=
        byteLength_infix_le (List.rdropWhile_prefix isWhitespace para).isInfix
      rw [Option.elim_some] at small
      omega
  · have visibles : ∀ para ∈ splitOnBlankLines body, visible para = true := fun para member =>
      (mem_splitOnBlankLines plain member).1
    constructor
    · intro fits para member overflows
      obtain ⟨line, rfl, exceeds⟩ := overflows.behind
      obtain ⟨heads, _⟩ := title line rfl
      have shown : visible (restart (some line)) = true := by
        rw [restart, Option.elim_some, visible_append, visible_of_isHeading heads, Bool.true_or]
      have pushed := overflow_pushed shown heads
        (byteLength_append line ['\n']).ge visibles member overflows
      have fit := fits _ pushed (by rw [visible_append, visible_append, shown, Bool.true_or, Bool.true_or])
      exact (fits_behind_iff title (visibles para member) overflows.fits).mp fit overflows
    · intro fine text member shown
      exact fits_paragraphTexts title (waiting_restart title)
        (fun para among => ⟨visibles para among, fine para among⟩) member shown

theorem index_chunkParts (text : Chars) (maxChars : Nat) :
    ((chunkParts text maxChars).map Prod.fst).map Chunk.index =
      List.range ((chunkParts text maxChars).map Prod.fst).length := by
  rw [chunkParts, map_map, map_map, length_map, length_map, length_zipIdx, range_eq_range']
  exact zipIdx_map_snd 0 _

/-- The chunks keep the text and the limit exactly when no paragraph of several lines fits by
itself but not behind the heading of its section. -/
theorem chunkMarkdown_keeps_iff (text : Chars) (maxTokens : Nat) :
    KeepsMarkdown text maxTokens (chunkMarkdown text maxTokens) ↔
      ∀ part ∈ splitOnHeadings text, ∀ para ∈ splitOnBlankLines part.2,
        ¬ Overflows part.1 (maxTokens * 4) para := by
  cases shown : visible text with
  | false =>
    have none : visibleLines text = [] := visibleLines_eq_nil_iff.mpr shown
    refine iff_of_true ?_ fun part member para among overflows => ?_
    · have empty : chunkMarkdown text maxTokens = [] := by
        rw [visible, Bool.not_eq_false'] at shown
        rw [chunkMarkdown, if_pos shown]
      rw [empty]
      refine ⟨⟨[], rfl, ⟨?_, ?_, ?_, ?_⟩⟩, rfl, ?_⟩
      · exact fun _ member => absurd member not_mem_nil
      · rw [none]
        rfl
      · exact fun _ member => absurd member not_mem_nil
      · rw [none]
        exact fun _ member => absurd member not_mem_nil
      · exact fun _ member => absurd member not_mem_nil
    · have nothing := splitOnHeadings_tagged text
      rw [none, taggedLines] at nothing
      have bare : visibleLines part.2 = [] :=
        map_eq_nil_iff.mp (flatMap_eq_nil_iff.mp nothing part member)
      rw [← splitOnBlankLines_lines] at bare
      have several := overflows.several
      rw [flatMap_eq_nil_iff.mp bare para among] at several
      cases several
  | true =>
    rw [chunkMarkdown_eq shown]
    constructor
    · intro keeps part member
      obtain ⟨plain, title⟩ := wellFormed_splitOnHeadings text part member
      apply (fits_sectionTexts_iff title plain).mp
      intro pushed inside pushedShown
      have entry : (part.1, pushed) ∈ pushedTexts text (maxTokens * 4) :=
        mem_flatMap.mpr ⟨part, member, mem_map_of_mem inside⟩
      obtain ⟨chunk, listed, sameHeading, sameText⟩ := exists_chunkParts entry pushedShown
      have short := keeps.short chunk.1 (mem_map_of_mem listed)
      rw [(mem_chunkParts listed).1, sameHeading, sameText] at short
      exact short
    · intro fine
      refine ⟨⟨_, rfl, holds_chunkParts text _⟩, index_chunkParts text _, fun chunk member => ?_⟩
      obtain ⟨part, listed, rfl⟩ := mem_map.mp member
      obtain ⟨content, pushedShown, entry⟩ := mem_chunkParts listed
      obtain ⟨source, among, pushed⟩ := mem_flatMap.mp entry
      obtain ⟨plain, title⟩ := wellFormed_splitOnHeadings text source among
      obtain ⟨other, inside, same⟩ := mem_map.mp pushed
      obtain ⟨sameHeading, sameText⟩ := Prod.mk.inj same
      rw [← sameText] at pushedShown
      rw [content, ← sameHeading, ← sameText]
      exact (fits_sectionTexts_iff title plain).mpr (fine source among) other inside pushedShown

/-- Three lines of two characters under a heading of nine make a chunk of 18 bytes where 12 are
the limit. -/
theorem short_lines_overflow :
    ¬ KeepsMarkdown "# heading\naa\nbb\ncc".toList 3 (chunkMarkdown "# heading\naa\nbb\ncc".toList 3) := by
  intro keeps
  have pushed : Chunk.mk 1 "# heading\naa\nbb\ncc".toList (some "# heading".toList) ∈
      chunkMarkdown "# heading\naa\nbb\ncc".toList 3 := by decide
  have count : (visibleLines "# heading\naa\nbb\ncc".toList).length = 4 := by decide
  rcases keeps.short _ pushed with short | ⟨line, only | ⟨title, _, two⟩⟩
  · exact absurd short (by decide)
  · have sizes := count.symm.trans (congrArg List.length only)
    cases sizes
  · have sizes := count.symm.trans (congrArg List.length two)
    cases sizes

end Chunks

end Asterel.MarkdownChunker
