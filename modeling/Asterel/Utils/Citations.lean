import Asterel.Core.SessionCompaction
import Asterel.Library.MarkRemoval
import Asterel.Library.SameWords
import Mathlib.Data.List.Chain

/-!
# Citation markers

The markers `[F1]`, `[H2]` and `[C3]` count what a reply cites and are of no use to its
reader. `strip_citation_markers` removes them in one reading and tidies the white space
around the places where they stood. A marker that stands inside another one is removed, and
what is left of the outer one is a marker that the reading does not come back to.
-/

namespace Asterel.Citations

open Library Library.Text Sessions List

/-! ## The function -/

/-- `matches!(byte, b'F' | b'H' | b'C')`. -/
def isMarkerLetter (char : Char) : Bool := char = 'F' || char = 'H' || char = 'C'

/-- The text behind the marker that a text begins with. -/
def afterMarker : List Char → Option (List Char)
  | opening :: letter :: digit :: rest =>
    if opening = '[' ∧ isMarkerLetter letter ∧ digit.isDigit then
      match rest.dropWhile Char.isDigit with
      | closing :: behind => if closing = ']' then some behind else none
      | [] => none
    else none
  | _ => none

/-- A marker is read with all its digits. -/
theorem afterMarker_eq_some {text behind : List Char} (found : afterMarker text = some behind) :
    ∃ letter digits, isMarkerLetter letter ∧ digits ≠ [] ∧ (∀ digit ∈ digits, digit.isDigit) ∧
      text = '[' :: (letter :: digits ++ ']' :: behind) := by
  unfold afterMarker at found
  split at found
  · rename_i opening letter digit rest
    split at found
    · rename_i marker
      obtain ⟨rfl, isLetter, isDigit⟩ := marker
      have digits := @takeWhile_append_dropWhile _ Char.isDigit rest
      split at found
      · rename_i closing others dropped
        split at found
        · rename_i closes
          cases found
          refine ⟨letter, digit :: rest.takeWhile Char.isDigit, isLetter, cons_ne_nil _ _, ?_, ?_⟩
          · intro other member
            obtain rfl | member := mem_cons.mp member
            · exact isDigit
            · exact mem_takeWhile_imp member
          · rw [dropped, closes] at digits
            rw [cons_append, cons_append, digits]
        · cases found
      · cases found
    · cases found
  · cases found

theorem length_afterMarker_lt {text behind : List Char} (found : afterMarker text = some behind) :
    behind.length < text.length := by
  obtain ⟨letter, digits, _, _, _, rfl⟩ := afterMarker_eq_some found
  simp only [length_cons, length_append]
  omega

/-- The first loop. -/
def removeMarkers : List Char → List Char
  | [] => []
  | char :: rest =>
    match _found : afterMarker (char :: rest) with
    | some behind => removeMarkers behind
    | none => char :: removeMarkers rest
  termination_by text => text.length
  decreasing_by
    · exact length_afterMarker_lt _found
    · exact Nat.lt_succ_self _

/-- The second loop, with `prev_space`. -/
def collapseSpaces (prevSpace : Bool) : List Char → List Char
  | [] => []
  | char :: rest =>
    if isWhitespace char && !(char = '\n' || char = '\r') then
      if prevSpace then collapseSpaces true rest else ' ' :: collapseSpaces true rest
    else char :: collapseSpaces false rest

/-- The punctuation that loses the space in front of it, in the order of the replacements. -/
def tidiedMarks : List Char := ['.', ',', '!', '?', '。', '、']

def tidyPunctuation (text : List Char) : List Char :=
  tidiedMarks.foldl (fun text mark => replacePair ' ' mark mark text) text

/-- The lines trimmed at their ends, joined and trimmed. -/
def trimLines (text : List Char) : List Char :=
  trim (['\n'].intercalate ((lines text).map trimEnd))

/-- `strip_citation_markers`. -/
def stripCitationMarkers (text : List Char) : List Char :=
  trimLines (tidyPunctuation (collapseSpaces false (removeMarkers text)))

/-! ## The claim -/

/-- The markers: a letter and digits between brackets. -/
def citationMarkers : MarkShape Char where
  opening := '['
  closing := ']'
  Body body := ∃ letter digits, isMarkerLetter letter ∧ digits ≠ [] ∧
    (∀ digit ∈ digits, digit.isDigit) ∧ body = letter :: digits
  apart := by decide
  opening_notMem := by
    rintro _ ⟨letter, digits, isLetter, _, areDigits, rfl⟩ member
    obtain rfl | member := mem_cons.mp member
    · exact absurd isLetter (by decide)
    · exact absurd (areDigits _ member) (by decide)
  closing_notMem := by
    rintro _ ⟨letter, digits, isLetter, _, areDigits, rfl⟩ member
    obtain rfl | member := mem_cons.mp member
    · exact absurd isLetter (by decide)
    · exact absurd (areDigits _ member) (by decide)

/-- No marker stands in a text. -/
def MarkerFree (text : List Char) : Prop := ∀ part, citationMarkers.Mark part → ¬ part <:+: text

/-- No marker stands in what is shown, and stripping it again changes nothing. -/
def Stripped (text : List Char) : Prop :=
  MarkerFree (stripCitationMarkers text) ∧
    stripCitationMarkers (stripCitationMarkers text) = stripCitationMarkers text

/-! ## The removal -/

section Removal

variable {text behind : List Char}

theorem afterMarker_eq_some_iff : afterMarker text = some behind ↔
    ∃ body, citationMarkers.Body body ∧ text = '[' :: (body ++ ']' :: behind) := by
  constructor
  · intro found
    obtain ⟨letter, digits, isLetter, some, areDigits, same⟩ := afterMarker_eq_some found
    exact ⟨letter :: digits, ⟨letter, digits, isLetter, some, areDigits, rfl⟩, same⟩
  · rintro ⟨_, ⟨letter, digits, isLetter, some, areDigits, rfl⟩, rfl⟩
    cases digits with
    | nil => exact absurd rfl some
    | cons digit digits =>
      have isDigit := areDigits digit mem_cons_self
      have dropped : (digits ++ ']' :: behind).dropWhile Char.isDigit = ']' :: behind := by
        rw [dropWhile_append_of_pos fun other member =>
          areDigits other (mem_cons_of_mem _ member)]
        rfl
      rw [cons_append, cons_append, afterMarker, if_pos ⟨rfl, isLetter, isDigit⟩, dropped]
      exact if_pos rfl

theorem removed_removeMarkers (text : List Char) :
    citationMarkers.Removed text (removeMarkers text) := by
  fun_induction removeMarkers text with
  | case1 => exact .nil
  | case2 char rest behind found ih =>
    obtain ⟨body, isBody, same⟩ := afterMarker_eq_some_iff.mp found
    rw [same]
    exact .mark isBody ih
  | case3 char rest missing ih =>
    refine .keep ?_ ih
    rintro ⟨body, behind, isBody, same⟩
    rw [afterMarker_eq_some_iff.mpr ⟨body, isBody, same⟩] at missing
    cases missing

end Removal

/-! ## The lines -/

/-- A text without the white space at the ends of its lines. -/
def cutLineEnds : List Char → List Char
  | [] => []
  | char :: rest =>
    if isWhitespace char ∧ char ≠ '\n' ∧ (cutLineEnds rest).head?.all (· = '\n') then
      cutLineEnds rest
    else char :: cutLineEnds rest

section Lines

variable (text : List Char)

/-- The text goes on behind the end of a line. -/
theorem all_newline_iff {text : List Char} :
    text.head?.all (· = '\n') ↔ ∀ next ∈ text.head?, next = '\n' := by
  cases text <;> simp

/-- Trimming every line is cutting the white space at the ends of the lines. -/
theorem intercalate_trimEnd :
    ['\n'].intercalate ((text.splitOn '\n').map trimEnd) = cutLineEnds text := by
  induction text with
  | nil => rfl
  | cons char rest ih =>
    obtain ⟨line, others, pieces⟩ := exists_cons_of_ne_nil (splitOn_ne_nil '\n' rest)
    rw [splitOn_cons_eq_if_modifyHead, cutLineEnds, ← ih, pieces]
    by_cases newline : char = '\n'
    · simp [newline, trimEnd, trimStart, intercalate_cons_cons]
    · have ending : (['\n'].intercalate ((line :: others).map trimEnd)).head?.all (· = '\n') ↔
          trimEnd line = [] := by
        rw [all_newline_iff]
        have noNewline : '\n' ∉ trimEnd line := fun member =>
          not_mem_piece (pieces ▸ mem_cons_self)
            ((List.rdropWhile_prefix isWhitespace line).subset member)
        rw [map_cons]
        cases trimmed : trimEnd line with
        | nil => cases others <;> simp [intercalate_cons_cons]
        | cons first line =>
          have head : (['\n'].intercalate ((first :: line) :: others.map trimEnd)).head? =
              some first := by cases others <;> simp [intercalate_cons_cons]
          rw [trimmed] at noNewline
          rw [head]
          refine iff_of_false (fun same => noNewline ?_) (cons_ne_nil _ _)
          rw [same first rfl]
          exact mem_cons_self
      rw [if_neg (by simpa using newline), modifyHead_cons, map_cons, trimEnd_cons]
      simp only [ending, newline, ne_eq, not_false_eq_true, true_and]
      split
      · rename_i blank
        rw [map_cons, blank.2]
      · cases others with
        | nil => simp
        | cons next others => simp [intercalate_cons_cons]

/-- An empty last line is trimmed away. -/
theorem trim_intercalate_nil (ended : List (List Char)) :
    trim (['\n'].intercalate (ended ++ [[]])) = trim (['\n'].intercalate ended) := by
  cases ended using reverseRecOn with
  | nil => rfl
  | append_singleton front last =>
    have joined : (((front ++ [last]).map (· ++ ['\n'])).flatten ++ [] : List Char) =
        ((front.map (· ++ ['\n'])).flatten ++ last) ++ ['\n'] := by simp
    rw [intercalate_concat, intercalate_concat, joined, trim_concat_white (by decide)]

/-- How a line ends does not matter where lines are trimmed. -/
theorem trimLines_eq : trimLines text = trim (cutLineEnds text) := by
  have stripped : ∀ line : List Char,
      trimEnd (if line.getLast? = some '\r' then line.dropLast else line) = trimEnd line := by
    intro line
    split
    · rename_i ends
      obtain ⟨front, rfl⟩ := getLast?_eq_some_iff.mp ends
      rw [dropLast_concat, trimEnd_concat_white (by decide)]
    · rfl
  obtain ⟨ended, last, pieces⟩ : ∃ ended last, text.splitOn '\n' = ended ++ [last] :=
    ⟨_, _, (dropLast_append_getLast (splitOn_ne_nil '\n' text)).symm⟩
  rw [trimLines, lines, ← intercalate_trimEnd, pieces, dropLast_concat, getLast?_concat]
  cases last with
  | nil =>
    have trimmed : (ended ++ [[]]).map trimEnd = ended.map trimEnd ++ [[]] := by simp; rfl
    rw [trimmed, trim_intercalate_nil]
    simp only [map_map, Function.comp_def, stripped]
  | cons char rest =>
    simp only [map_append, map_map, Function.comp_def, stripped]

end Lines

/-! ## What the tidying leaves -/

/-- What no marker has in it: white space, and the punctuation that is tidied. -/
def Separates (char : Char) : Prop := isWhitespace char ∨ char ∈ tidiedMarks

section Words

variable (text : List Char)

theorem collapseSpaces_words :
    SameWords Separates (collapseSpaces false text) text ∧
      SameInside Separates (collapseSpaces true text) text := by
  induction text with
  | nil => exact ⟨.refl [], (SameWords.refl []).inside⟩
  | cons char rest ih =>
    obtain ⟨kept, dropped⟩ := ih
    rw [collapseSpaces, collapseSpaces]
    split
    · rename_i space
      have white : Separates char := .inl (by simp_all)
      have blank : Separates ' ' := .inl (by decide)
      have around : SameInside Separates rest (char :: rest) := (SameInside.separator white rest).symm
      have collapsed := dropped.trans around
      refine ⟨?_, collapsed⟩
      refine ((SameInside.separator blank _).trans collapsed).sameWords ?_ ?_
      · rintro _ ⟨⟩
        exact blank
      · rintro _ ⟨⟩
        exact white
    · exact ⟨kept.cons char, (kept.cons char).inside⟩

theorem replacePair_words {mark : Char} (isMark : mark ∈ tidiedMarks) (text : List Char) :
    SameWords Separates (replacePair ' ' mark mark text) text := by
  fun_induction replacePair ' ' mark mark text with
  | case1 => exact .refl []
  | case2 char => exact .refl [char]
  | case3 char next rest pair ih =>
    obtain ⟨rfl, rfl⟩ := pair
    have blank : Separates ' ' := .inl (by decide)
    have around := (SameInside.separator blank (next :: rest)).symm
    refine ((ih.cons next).inside.trans around).sameWords ?_ ?_
    · rintro _ ⟨⟩
      exact .inr isMark
    · rintro _ ⟨⟩
      exact blank
  | case4 char next rest unpaired ih => exact ih.cons char

theorem tidyPunctuation_words :
    SameInside Separates (tidyPunctuation text) text := by
  have folded : ∀ (marks text : List Char), marks ⊆ tidiedMarks → SameInside Separates
      (marks.foldl (fun text mark => replacePair ' ' mark mark text) text) text := by
    intro marks
    induction marks with
    | nil => exact fun text _ => (SameWords.refl text).inside
    | cons mark marks ih =>
      intro text listed
      obtain ⟨isMark, listed⟩ := cons_subset.mp listed
      exact (ih _ listed).trans (replacePair_words isMark text).inside
  exact folded tidiedMarks text (Subset.refl _)

theorem cutLineEnds_words :
    SameWords Separates (cutLineEnds text) text := by
  induction text with
  | nil => exact .refl []
  | cons char rest ih =>
    rw [cutLineEnds]
    split
    · rename_i ends
      obtain ⟨white, _, newline⟩ := ends
      rw [all_newline_iff] at newline
      have separator : Separates char := .inl white
      have around := (SameInside.separator separator rest).symm
      refine (ih.inside.trans around).sameWords ?_ ?_
      · intro next first
        rw [newline next first]
        exact .inl (by decide)
      · rintro _ ⟨⟩
        exact .inl white
    · exact ih.cons char

theorem trim_words : SameInside Separates (trim text) text := by
  obtain ⟨after, blank, whole⟩ := trim_parts text
  have leading : ∀ char ∈ text.takeWhile isWhitespace, Separates char := fun _ member =>
    .inl (mem_takeWhile_imp member)
  have trailing : ∀ char ∈ after, Separates char := fun char member => .inl (blank char member)
  have front := SameInside.prepend leading (trim text ++ after)
  have back := SameWords.append trailing (trim text)
  have both := front.trans back.inside
  rw [← whole] at both
  exact both.symm

theorem digit_visible {char : Char} (isDigit : char.isDigit) : isWhitespace char = false := by
  have low : 48 ≤ char.toNat ∧ char.toNat ≤ 57 := by
    simpa [Char.isDigit, UInt32.le_iff_toNat_le] using isDigit
  simp only [isWhitespace, Bool.or_eq_false_iff, Bool.and_eq_false_iff, decide_eq_false_iff_not,
    beq_eq_false_iff_ne]
  omega

theorem marker_solid {part : List Char} (marker : citationMarkers.Mark part) :
    ∀ char ∈ part, ¬ Separates char := by
  obtain ⟨_, ⟨letter, digits, isLetter, _, areDigits, rfl⟩, rfl⟩ := marker
  have marks : ∀ mark ∈ tidiedMarks, mark.isDigit = false := by decide
  have others : ∀ char ∈ ['[', ']', 'F', 'H', 'C'], ¬ Separates char := by
    simp only [Separates]
    decide
  have letterIn : letter ∈ ['[', ']', 'F', 'H', 'C'] := by
    simp only [isMarkerLetter, Bool.or_eq_true, decide_eq_true_eq] at isLetter
    simp only [mem_cons]
    tauto
  intro char member
  have place : char = '[' ∨ char = letter ∨ char ∈ digits ∨ char = ']' := by
    simpa [citationMarkers] using member
  obtain rfl | rfl | isDigit | rfl := place
  · exact others _ (by decide)
  · exact others _ letterIn
  · rintro (white | isMark)
    · rw [digit_visible (areDigits char isDigit)] at white
      cases white
    · have noDigit := marks char isMark
      rw [areDigits char isDigit] at noDigit
      cases noDigit
  · exact others _ (by decide)

/-- The tidying neither makes nor breaks markers. -/
theorem markerFree_iff :
    MarkerFree (stripCitationMarkers text) ↔ MarkerFree (removeMarkers text) := by
  have tidied : SameInside Separates (stripCitationMarkers text) (removeMarkers text) := by
    rw [stripCitationMarkers, trimLines_eq]
    exact (((trim_words _).trans (cutLineEnds_words _).inside).trans (tidyPunctuation_words _)).trans
      (collapseSpaces_words _).1.inside
  refine forall₂_congr fun part marker => not_congr ?_
  exact tidied part (marker_solid marker)

end Words

/-! ## Tidy texts -/

/-- No space stands in front of another one or of a mark. -/
def Spaced (marks : List Char) (char next : Char) : Prop := char = ' ' → next ≠ ' ' ∧ next ∉ marks

/-- No white space stands at the end of a line. -/
def Ended (char next : Char) : Prop := isWhitespace char → char ≠ '\n' → next ≠ '\n'

/-- White space is a space or ends a line. -/
def Plain (char : Char) : Prop := isWhitespace char → char = ' ' ∨ char = '\n' ∨ char = '\r'

/-- A text that the tidying leaves alone. -/
structure Tidy (text : List Char) : Prop where
  plain : ∀ char ∈ text, Plain char
  spaced : text.IsChain (Spaced tidiedMarks)
  ended : text.IsChain Ended
  trimmed : trim text = text

section Collapsing

variable {text : List Char}
variable (prevSpace : Bool)

/-- Behind a run of white space comes something else. -/
theorem collapseSpaces_spaced (text : List Char) :
    (collapseSpaces prevSpace text).IsChain (Spaced []) ∧
      (prevSpace → (collapseSpaces prevSpace text).head? ≠ some ' ') ∧
        ∀ char ∈ collapseSpaces prevSpace text, Plain char := by
  induction text generalizing prevSpace with
  | nil => exact ⟨.nil, by simp [collapseSpaces], by simp [collapseSpaces]⟩
  | cons char rest ih =>
    rw [collapseSpaces]
    split
    · obtain ⟨chain, head, plain⟩ := ih true
      cases prevSpace with
      | true => exact ⟨chain, fun _ => head rfl, plain⟩
      | false =>
        rw [if_neg (by decide)]
        refine ⟨isChain_cons.mpr ⟨?_, chain⟩, fun isTrue => absurd isTrue (by decide), ?_⟩
        · intro next first _
          refine ⟨?_, not_mem_nil⟩
          rintro rfl
          exact head rfl first
        · intro other member
          obtain rfl | member := mem_cons.mp member
          · exact fun _ => .inl rfl
          · exact plain other member
    · rename_i notSpace
      obtain ⟨chain, _, plain⟩ := ih false
      have different : char ≠ ' ' := by
        rintro rfl
        exact notSpace (by decide)
      refine ⟨isChain_cons.mpr ⟨fun _ _ same => absurd same different, chain⟩, ?_, ?_⟩
      · intro _ first
        exact different (Option.some.inj first)
      · intro other member
        obtain rfl | member := mem_cons.mp member
        · intro white
          right
          simpa [white, imp_iff_not_or, or_comm] using notSpace
        · exact plain other member

theorem collapseSpaces_eq_self (plain : ∀ char ∈ text, Plain char)
    (spaced : text.IsChain (Spaced tidiedMarks)) (begins : prevSpace → text.head? ≠ some ' ') :
    collapseSpaces prevSpace text = text := by
  induction text generalizing prevSpace with
  | nil => rfl
  | cons char rest ih =>
    obtain ⟨next, chain⟩ := isChain_cons.mp spaced
    obtain ⟨plainChar, plainRest⟩ := forall_mem_cons.mp plain
    rw [collapseSpaces]
    split
    · rename_i space
      have same : char = ' ' := by
        simp only [Bool.and_eq_true, Bool.not_eq_true', Bool.or_eq_false_iff,
          decide_eq_false_iff_not] at space
        obtain same | same | same := plainChar space.1
        · exact same
        · exact absurd same space.2.1
        · exact absurd same space.2.2
      have first : prevSpace = false := by
        rw [← Bool.not_eq_true]
        intro prev
        exact begins prev (by rw [same]; rfl)
      have behind : rest.head? ≠ some ' ' := fun found => (next ' ' found same).1 rfl
      rw [first, ih true plainRest chain fun _ => behind, same]
      rfl
    · rw [ih false plainRest chain fun isTrue => absurd isTrue (by decide)]

end Collapsing

section Punctuation

variable {mark : Char} {marks text : List Char}

theorem replacePair_sublist (mark : Char) (text : List Char) :
    (replacePair ' ' mark mark text).Sublist text := by
  fun_induction replacePair ' ' mark mark text with
  | case1 => exact .slnil
  | case2 char => exact .refl [char]
  | case3 char next rest pair ih =>
    rw [pair.2]
    exact (ih.cons_cons mark).cons char
  | case4 char next rest unpaired ih => exact ih.cons_cons char

/-- A replacement leaves no space in front of its mark, and none in front of others. -/
theorem replacePair_spaced (notSpace : mark ≠ ' ') (spaced : text.IsChain (Spaced marks)) :
    (replacePair ' ' mark mark text).IsChain (Spaced (mark :: marks)) := by
  fun_induction replacePair ' ' mark mark text with
  | case1 => exact .nil
  | case2 char => exact .singleton char
  | case3 char next rest pair ih =>
    obtain ⟨_, _, chain⟩ := by simpa only [isChain_cons] using spaced
    exact isChain_cons.mpr ⟨fun _ _ same => absurd same notSpace, ih chain⟩
  | case4 char next rest unpaired ih =>
    obtain ⟨before, chain⟩ := isChain_cons.mp spaced
    refine isChain_cons.mpr ⟨fun other first isSpace => ?_, ih chain⟩
    obtain ⟨different, noMark⟩ := before next rfl isSpace
    rw [replacePair_cons_ne different] at first
    cases first
    refine ⟨different, ?_⟩
    rintro (_ | ⟨_, member⟩)
    · exact unpaired ⟨isSpace, rfl⟩
    · exact noMark member

theorem replacePair_eq_self (isMark : mark ∈ marks) (spaced : text.IsChain (Spaced marks)) :
    replacePair ' ' mark mark text = text := by
  fun_induction replacePair ' ' mark mark text with
  | case1 => rfl
  | case2 char => rfl
  | case3 char next rest pair ih =>
    obtain ⟨before, _⟩ := isChain_cons.mp spaced
    exact absurd (pair.2 ▸ isMark) (before next rfl pair.1).2
  | case4 char next rest unpaired ih =>
    rw [ih (isChain_cons.mp spaced).2]

theorem tidyPunctuation_sublist (text : List Char) : (tidyPunctuation text).Sublist text := by
  have folded : ∀ (marks text : List Char),
      (marks.foldl (fun text mark => replacePair ' ' mark mark text) text).Sublist text := by
    intro marks
    induction marks with
    | nil => exact fun text => .refl text
    | cons mark marks ih =>
      exact fun text => (ih _).trans (replacePair_sublist mark text)
  exact folded tidiedMarks text

theorem tidyPunctuation_spaced (spaced : text.IsChain (Spaced [])) :
    (tidyPunctuation text).IsChain (Spaced tidiedMarks) := by
  have folded : ∀ (marks seen text : List Char), ' ' ∉ marks → text.IsChain (Spaced seen) →
      (marks.foldl (fun text mark => replacePair ' ' mark mark text) text).IsChain
        (Spaced (marks.reverse ++ seen)) := by
    intro marks
    induction marks with
    | nil => exact fun seen text _ chain => chain
    | cons mark marks ih =>
      intro seen text noSpace chain
      rw [mem_cons, not_or] at noSpace
      rw [reverse_cons, append_assoc]
      exact ih (mark :: seen) _ noSpace.2
        (replacePair_spaced (Ne.symm noSpace.1) chain)
  refine (folded tidiedMarks [] text (by decide) spaced).imp ?_
  intro char next before isSpace
  simpa using before isSpace

theorem tidyPunctuation_eq_self (spaced : text.IsChain (Spaced tidiedMarks)) :
    tidyPunctuation text = text := by
  have folded : ∀ marks : List Char, marks ⊆ tidiedMarks →
      marks.foldl (fun text mark => replacePair ' ' mark mark text) text = text := by
    intro marks
    induction marks with
    | nil => exact fun _ => rfl
    | cons mark marks ih =>
      intro listed
      obtain ⟨isMark, listed⟩ := cons_subset.mp listed
      rw [foldl_cons, replacePair_eq_self isMark spaced, ih listed]
  exact folded tidiedMarks (Subset.refl _)

end Punctuation

section Ends

variable {text : List Char}

theorem cutLineEnds_sublist (text : List Char) : (cutLineEnds text).Sublist text := by
  induction text with
  | nil => exact .slnil
  | cons char rest ih =>
    rw [cutLineEnds]
    split
    · exact ih.cons char
    · exact ih.cons_cons char

theorem cutLineEnds_ended (text : List Char) : (cutLineEnds text).IsChain Ended := by
  induction text with
  | nil => exact .nil
  | cons char rest ih =>
    rw [cutLineEnds]
    split
    · exact ih
    · rename_i remains
      refine isChain_cons.mpr ⟨?_, ih⟩
      rintro next first white different rfl
      refine remains ⟨white, different, all_newline_iff.mpr fun other found => ?_⟩
      exact Option.some.inj (found.symm.trans first)

theorem head?_cutLineEnds {char : Char} (first : (cutLineEnds text).head? = some char) :
    text.head? = some char ∨ char = '\n' := by
  cases text with
  | nil => cases first
  | cons head rest =>
    rw [cutLineEnds] at first
    split at first
    · rename_i ends
      exact .inr (all_newline_iff.mp ends.2.2 char first)
    · exact .inl first

theorem cutLineEnds_spaced (spaced : text.IsChain (Spaced tidiedMarks)) :
    (cutLineEnds text).IsChain (Spaced tidiedMarks) := by
  induction text with
  | nil => exact .nil
  | cons char rest ih =>
    obtain ⟨before, chain⟩ := isChain_cons.mp spaced
    rw [cutLineEnds]
    split
    · exact ih chain
    · refine isChain_cons.mpr ⟨fun next first => ?_, ih chain⟩
      obtain found | rfl := head?_cutLineEnds first
      · exact before next found
      · exact fun _ => by decide

theorem cutLineEnds_eq_self (ended : text.IsChain Ended)
    (visible : ∀ char ∈ text.getLast?, isWhitespace char = false) : cutLineEnds text = text := by
  induction text with
  | nil => rfl
  | cons char rest ih =>
    obtain ⟨before, chain⟩ := isChain_cons.mp ended
    cases rest with
    | nil =>
      have seen := visible char rfl
      rw [cutLineEnds, if_neg (by simp [seen])]
      rfl
    | cons next others =>
      rw [cutLineEnds, ih chain visible, if_neg]
      rintro ⟨white, different, newline⟩
      exact before next rfl white different (all_newline_iff.mp newline next rfl)

end Ends

theorem isChain_trim {text : List Char} {R : Char → Char → Prop} (chain : text.IsChain R) :
    (trim text).IsChain R := by
  obtain ⟨front, back, whole⟩ := trim_isInfix text
  rw [← whole] at chain
  exact chain.left_of_append.right_of_append

section Texts

variable {text : List Char}
variable {char : Char}

theorem tidy_stripCitationMarkers (text : List Char) : Tidy (stripCitationMarkers text) := by
  obtain ⟨spaced, _, plain⟩ := collapseSpaces_spaced false (removeMarkers text)
  rw [stripCitationMarkers, trimLines_eq]
  generalize collapseSpaces false (removeMarkers text) = collapsed at spaced plain ⊢
  have tidied := cutLineEnds_spaced (tidyPunctuation_spaced spaced)
  have trimmed := trim_isInfix (cutLineEnds (tidyPunctuation collapsed))
  have kept := (cutLineEnds_sublist (tidyPunctuation collapsed)).trans
    (tidyPunctuation_sublist collapsed)
  exact ⟨fun char member => plain char (kept.subset (trimmed.subset member)), isChain_trim tidied,
    isChain_trim (cutLineEnds_ended _), trim_trim _⟩

/-- A tidy text without markers is left alone. -/
theorem Tidy.stripCitationMarkers_eq_self (tidy : Tidy text) (free : MarkerFree text) :
    stripCitationMarkers text = text := by
  have unchanged : removeMarkers text = text := by
    obtain ⟨same, _⟩ | ⟨_, part, mark, inText⟩ := (removed_removeMarkers text).eq_or_length_lt
    · exact same
    · exact absurd inText (free part mark)
  have collapsed := collapseSpaces_eq_self false tidy.plain tidy.spaced fun isTrue =>
    absurd isTrue (by decide)
  rw [stripCitationMarkers, unchanged, collapsed, tidyPunctuation_eq_self tidy.spaced,
    trimLines_eq, cutLineEnds_eq_self tidy.ended (last_visible tidy.trimmed), tidy.trimmed]

theorem length_collapseSpaces_le (prevSpace : Bool) (text : List Char) :
    (collapseSpaces prevSpace text).length ≤ text.length := by
  fun_induction collapseSpaces prevSpace text with
  | case1 => exact Nat.le_refl _
  | case2 char rest space ih => exact Nat.le_succ_of_le ih
  | case3 prevSpace char rest space first ih =>
    exact Nat.succ_le_succ ih
  | case4 prevSpace char rest notSpace ih =>
    exact Nat.succ_le_succ ih

theorem length_stripCitationMarkers_le (text : List Char) :
    (stripCitationMarkers text).length ≤ (removeMarkers text).length := by
  rw [stripCitationMarkers, trimLines_eq]
  calc (trim (cutLineEnds (tidyPunctuation (collapseSpaces false (removeMarkers text))))).length
      ≤ (cutLineEnds (tidyPunctuation (collapseSpaces false (removeMarkers text)))).length :=
        length_trim_le _
    _ ≤ (tidyPunctuation (collapseSpaces false (removeMarkers text))).length :=
        (cutLineEnds_sublist _).length_le
    _ ≤ (collapseSpaces false (removeMarkers text)).length := (tidyPunctuation_sublist _).length_le
    _ ≤ (removeMarkers text).length := length_collapseSpaces_le _ _

/-- Both halves of the claim fail on the same texts: stripping again changes a text exactly if
a marker is left in it. -/
theorem stripCitationMarkers_twice_iff (text : List Char) :
    stripCitationMarkers (stripCitationMarkers text) = stripCitationMarkers text ↔
      MarkerFree (stripCitationMarkers text) := by
  refine ⟨fun twice part mark inText => ?_, fun free =>
    (tidy_stripCitationMarkers text).stripCitationMarkers_eq_self free⟩
  have shorter := length_stripCitationMarkers_le (stripCitationMarkers text)
  rw [twice] at shorter
  obtain ⟨_, free⟩ | ⟨removed, _⟩ :=
    (removed_removeMarkers (stripCitationMarkers text)).eq_or_length_lt
  · exact free part mark inText
  · exact absurd shorter (Nat.not_le.mpr removed)

/-- The text has no marker left and stripping it again changes nothing exactly if it has no
marker that stands around others. -/
theorem citation_markers_stripped_iff (text : List Char) :
    Stripped text ↔ ¬ ∃ part, citationMarkers.Interrupted part ∧ part <:+: text := by
  have free : MarkerFree (removeMarkers text) ↔
      ¬ ∃ part, citationMarkers.Interrupted part ∧ part <:+: text := by
    rw [← (removed_removeMarkers text).hasMark_iff, not_exists]
    exact forall_congr' fun part => not_and.symm
  rw [← free, ← markerFree_iff]
  exact ⟨And.left, fun shown => ⟨shown, (stripCitationMarkers_twice_iff text).mpr shown⟩⟩

theorem removeMarkers_kept {rest : List Char} (missing : afterMarker (char :: rest) = none) :
    removeMarkers (char :: rest) = char :: removeMarkers rest := by
  rw [removeMarkers]
  split
  · rename_i found
    cases missing.symm.trans found
  · rfl

theorem removeMarkers_marker {rest behind : List Char}
    (found : afterMarker (char :: rest) = some behind) :
    removeMarkers (char :: rest) = removeMarkers behind := by
  rw [removeMarkers]
  split
  · rename_i found'
    cases found.symm.trans found'
    rfl
  · rename_i missing
    cases missing.symm.trans found

/-- A marker inside another one. -/
def nestedMarker : List Char := "[F[F1]1]".toList

/-- The inner marker is removed, and the outer one is shown. -/
theorem nested_marker_shown : ¬ ∀ text : List Char, Stripped text := by
  intro stripped
  have inner : afterMarker ['[', 'F', '1', ']', '1', ']'] = some ['1', ']'] := by decide
  have removed : removeMarkers nestedMarker = "[F1]".toList := by
    calc removeMarkers ['[', 'F', '[', 'F', '1', ']', '1', ']']
        = '[' :: 'F' :: removeMarkers ['[', 'F', '1', ']', '1', ']'] := by
          rw [removeMarkers_kept (by decide), removeMarkers_kept (by decide)]
      _ = '[' :: 'F' :: removeMarkers ['1', ']'] := by rw [removeMarkers_marker inner]
      _ = ['[', 'F', '1', ']'] := by
          rw [removeMarkers_kept (by decide), removeMarkers_kept (by decide), removeMarkers]
  have shown : stripCitationMarkers nestedMarker = "[F1]".toList := by
    rw [stripCitationMarkers, removed]
    decide
  have marker : citationMarkers.Mark "[F1]".toList :=
    ⟨"F1".toList, ⟨'F', ['1'], by decide, by decide, by decide, rfl⟩, rfl⟩
  have free := (stripped nestedMarker).1
  rw [shown] at free
  exact free _ marker infix_rfl

end Texts

end Asterel.Citations
