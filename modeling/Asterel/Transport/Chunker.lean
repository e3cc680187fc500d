import Asterel.Library.Search

/-!
# Splitting long messages into chunks

A text above the limit is split after paragraphs, a part that is still too long
after lines, then after sentences and words, and at last after every so many
characters. Parts that fit are joined again as long as the limit allows. At every
level the chunks are the text cut into non-empty pieces within the limit.

Lengths in bytes are those of the UTF-8 encoding.
-/

namespace Asterel.Chunker

open Library List

/-- `str::len`. -/
def byteLength : List Char → Nat
  | [] => 0
  | char :: rest => char.utf8Size + byteLength rest

def withinCharLimit (text : List Char) (maxChars : Nat) : Bool :=
  byteLength text ≤ maxChars || text[maxChars]? = none

def charCount (text : List Char) : Nat := text.length

/-- A text to split after; the empty text would split forever. -/
abbrev Delimiter := { text : List Char // text ≠ [] }

def splitKeepDelimiter (delimiter : Delimiter) (text : List Char) : List (List Char) :=
  match _found : find delimiter.val text with
  | some (before, after) => (before ++ delimiter.val) :: splitKeepDelimiter delimiter after
  | none => if text.isEmpty then [] else [text]
termination_by text.length
decreasing_by
  have whole := congrArg List.length (find_eq_some _found)
  have positive := length_pos_iff.mpr delimiter.property
  simp only [length_append] at whole
  omega

def endsSentence (char : Char) : Bool := char == '.' || char == '!' || char == '?'

/-- Split after the space behind the end of a sentence; `start` is the part read
since the last split. -/
def splitSentencesFrom (start : List Char) : List Char → List (List Char)
  | [] => if start.isEmpty then [] else [start]
  | [char] => [start ++ [char]]
  | char :: next :: rest =>
    if endsSentence char && next == ' ' then
      (start ++ [char, next]) :: splitSentencesFrom [] rest
    else
      splitSentencesFrom (start ++ [char]) (next :: rest)

def splitSentences (text : List Char) : List (List Char) := splitSentencesFrom [] text

/-- Cut whenever `current` has reached the limit. -/
def hardSplitFrom (maxChars : Nat) (current : List Char) (currentLen : Nat) :
    List Char → List (List Char)
  | [] => if current.isEmpty then [] else [current]
  | char :: rest =>
    if currentLen = maxChars then current :: hardSplitFrom maxChars [char] 1 rest
    else hardSplitFrom maxChars (current ++ [char]) (currentLen + 1) rest

def hardSplit (text : List Char) (maxChars : Nat) : List (List Char) :=
  if maxChars = 0 then [] else hardSplitFrom maxChars [] 0 text

inductive SplitLevel
  | paragraph
  | line
  | sentence
  | word
  | hard
  deriving DecidableEq

def SplitLevel.next : SplitLevel → SplitLevel
  | .paragraph => .line
  | .line => .sentence
  | .sentence => .word
  | .word => .hard
  | .hard => .hard

def SplitLevel.split : SplitLevel → List Char → List (List Char)
  | .paragraph, text => splitKeepDelimiter ⟨['\n', '\n'], by decide⟩ text
  | .line, text => splitKeepDelimiter ⟨['\n'], by decide⟩ text
  | .sentence, text => splitSentences text
  | .word, text => splitKeepDelimiter ⟨[' '], by decide⟩ text
  | .hard, text => hardSplit text 1

/-- How many levels are left below this one. -/
def SplitLevel.remaining : SplitLevel → Nat
  | .paragraph => 4
  | .line => 3
  | .sentence => 2
  | .word => 1
  | .hard => 0

/-- A chunk is only emitted when it is not empty. -/
def flush (current : List Char) : List (List Char) :=
  if current.isEmpty then [] else [current]

/-- Join the parts that fit, and chunk the others one level deeper. -/
def mergeParts (deeper : List Char → List (List Char)) (maxChars : Nat) (current : List Char) :
    List (List Char) → List (List Char)
  | [] => flush current
  | part :: rest =>
    if withinCharLimit part maxChars then
      if current.isEmpty then
        mergeParts deeper maxChars part rest
      else if byteLength current + byteLength part ≤ maxChars ∨
          charCount current + charCount part ≤ maxChars then
        mergeParts deeper maxChars (current ++ part) rest
      else
        current :: mergeParts deeper maxChars part rest
    else
      flush current ++ deeper part ++ mergeParts deeper maxChars [] rest

def chunkSegment (maxChars : Nat) (text : List Char) (level : SplitLevel) : List (List Char) :=
  if text.isEmpty then
    []
  else if withinCharLimit text maxChars then
    [text]
  else if _last : level = .hard then
    hardSplit text maxChars
  else
    let parts := level.split text
    if parts.length ≤ 1 then
      chunkSegment maxChars text level.next
    else
      mergeParts (fun part => chunkSegment maxChars part level.next) maxChars [] parts
termination_by level.remaining
decreasing_by
  all_goals
    cases level <;> simp_all [SplitLevel.next, SplitLevel.remaining]

def chunkMessage (text : List Char) (maxChars : Nat) : List (List Char) :=
  if text.isEmpty || maxChars = 0 then []
  else if withinCharLimit text maxChars then [text]
  else chunkSegment maxChars text .paragraph

/-- The chunks are the text in non-empty pieces within the limit. -/
def Chunks (maxChars : Nat) (chunks : List (List Char)) (text : List Char) : Prop :=
  chunks.flatten = text ∧ ∀ chunk ∈ chunks, chunk ≠ [] ∧ chunk.length ≤ maxChars

section Limits

theorem length_le_byteLength (text : List Char) : text.length ≤ byteLength text := by
  induction text with
  | nil => exact Nat.le_refl 0
  | cons char rest ih =>
    have positive := char.utf8Size_pos
    rw [length_cons, byteLength]
    omega

/-- The fast path never changes the answer. -/
theorem withinCharLimit_iff (text : List Char) (maxChars : Nat) :
    withinCharLimit text maxChars = true ↔ text.length ≤ maxChars := by
  have fast := length_le_byteLength text
  simp only [withinCharLimit, Bool.or_eq_true, decide_eq_true_eq, List.getElem?_eq_none_iff]
  constructor
  · rintro (bytes | chars)
    · exact Nat.le_trans fast bytes
    · exact chars
  · exact Or.inr

end Limits

section Splitting

/-- Splitting after a delimiter loses nothing. -/
theorem splitKeepDelimiter_flatten (delimiter : Delimiter) (text : List Char) :
    (splitKeepDelimiter delimiter text).flatten = text := by
  induction text using splitKeepDelimiter.induct delimiter with
  | case1 text before after found ih =>
    rw [splitKeepDelimiter]
    split
    · rename_i otherFound
      rw [found] at otherFound
      cases otherFound
      rw [flatten_cons, ih, ← find_eq_some found]
    · rename_i none
      rw [found] at none
      cases none
  | case2 text none empty =>
    rw [splitKeepDelimiter]
    split
    · rename_i found
      rw [none] at found
      cases found
    · rw [if_pos empty, List.isEmpty_iff.mp empty]
      rfl
  | case3 text none nonempty =>
    rw [splitKeepDelimiter]
    split
    · rename_i found
      rw [none] at found
      cases found
    · rw [if_neg nonempty]
      exact append_nil text

theorem splitSentencesFrom_flatten (start text : List Char) :
    (splitSentencesFrom start text).flatten = start ++ text := by
  fun_induction splitSentencesFrom start text with
  | case1 start empty => simp [List.isEmpty_iff.mp empty]
  | case2 start nonempty => simp
  | case3 start char => simp
  | case4 start char next rest ends ih => simp [ih]
  | case5 start char next rest continues ih => simp [ih]

theorem hardSplitFrom_chunks {maxChars : Nat} (positive : 1 ≤ maxChars) (current text : List Char)
    (currentLen : Nat) (counted : currentLen = current.length) (fits : current.length ≤ maxChars) :
    Chunks maxChars (hardSplitFrom maxChars current currentLen text) (current ++ text) := by
  fun_induction hardSplitFrom maxChars current currentLen text with
  | case1 current currentLen empty => simp [Chunks, List.isEmpty_iff.mp empty]
  | case2 current currentLen nonempty =>
    have some : current ≠ [] := mt List.isEmpty_iff.mpr nonempty
    simp [Chunks, some, fits]
  | case3 current char rest ih =>
    obtain ⟨whole, within⟩ := ih rfl positive
    have some : current ≠ [] := by
      rintro rfl
      rw [length_nil] at counted
      omega
    refine ⟨?_, ?_⟩
    · rw [flatten_cons, whole]
      rfl
    · rw [forall_mem_cons]
      exact ⟨⟨some, fits⟩, within⟩
  | case4 current currentLen char rest notFull ih =>
    have grown : currentLen + 1 = (current ++ [char]).length := by simp [counted]
    have grownFits : (current ++ [char]).length ≤ maxChars := by
      rw [← grown]
      omega
    obtain ⟨whole, within⟩ := ih grown grownFits
    exact ⟨by rw [whole]; simp, within⟩

theorem hardSplit_chunks {maxChars : Nat} (positive : 1 ≤ maxChars) (text : List Char) :
    Chunks maxChars (hardSplit text maxChars) text := by
  rw [hardSplit, if_neg (Nat.ne_of_gt positive)]
  exact hardSplitFrom_chunks positive [] text 0 rfl (Nat.zero_le _)

/-- The parts of every level are the text. -/
theorem split_flatten (level : SplitLevel) (text : List Char) : (level.split text).flatten = text := by
  cases level with
  | paragraph => exact splitKeepDelimiter_flatten _ text
  | line => exact splitKeepDelimiter_flatten _ text
  | sentence => exact splitSentencesFrom_flatten [] text
  | word => exact splitKeepDelimiter_flatten _ text
  | hard => exact (hardSplit_chunks (Nat.le_refl 1) text).1

end Splitting

section Merging

variable {maxChars : Nat}

theorem Chunks.append {chunks others : List (List Char)} {text rest : List Char}
    (first : Chunks maxChars chunks text) (second : Chunks maxChars others rest) :
    Chunks maxChars (chunks ++ others) (text ++ rest) := by
  refine ⟨?_, ?_⟩
  · rw [flatten_append, first.1, second.1]
  · intro chunk member
    rcases mem_append.mp member with inFirst | inSecond
    · exact first.2 chunk inFirst
    · exact second.2 chunk inSecond

theorem chunks_singleton {text : List Char} (some : text ≠ []) (fits : text.length ≤ maxChars) :
    Chunks maxChars [text] text := by
  simp [Chunks, some, fits]

theorem flush_chunks {current : List Char} (fits : current.length ≤ maxChars) :
    Chunks maxChars (flush current) current := by
  by_cases empty : current = []
  · simp [Chunks, flush, empty]
  · rw [flush, if_neg (mt List.isEmpty_iff.mp empty)]
    exact chunks_singleton empty fits

/-- Joining keeps the chunks, whatever cuts the parts that do not fit. -/
theorem mergeParts_chunks {deeper : List Char → List (List Char)}
    (cuts : ∀ part, Chunks maxChars (deeper part) part) (parts : List (List Char))
    (current : List Char) (fits : current.length ≤ maxChars) :
    Chunks maxChars (mergeParts deeper maxChars current parts) (current ++ parts.flatten) := by
  induction parts generalizing current with
  | nil =>
    rw [mergeParts, flatten_nil, append_nil]
    exact flush_chunks fits
  | cons part rest ih =>
    rw [mergeParts, flatten_cons]
    by_cases within : withinCharLimit part maxChars = true
    · have partFits := (withinCharLimit_iff part maxChars).mp within
      rw [if_pos within]
      by_cases empty : current = []
      · subst empty
        exact ih part partFits
      · rw [if_neg (mt List.isEmpty_iff.mp empty)]
        split
        · rename_i together
          have joined : (current ++ part).length ≤ maxChars := by
            have currentBytes := length_le_byteLength current
            have partBytes := length_le_byteLength part
            rw [charCount, charCount] at together
            rw [length_append]
            omega
          rw [← append_assoc]
          exact ih (current ++ part) joined
        · exact (chunks_singleton empty fits).append (ih part partFits)
    · rw [if_neg within, ← append_assoc]
      have restChunks := ih [] (Nat.zero_le _)
      exact ((flush_chunks fits).append (cuts part)).append restChunks

/-- Every level cuts a text into chunks. -/
theorem chunkSegment_chunks (positive : 1 ≤ maxChars) (text : List Char) (level : SplitLevel) :
    Chunks maxChars (chunkSegment maxChars text level) text := by
  fun_induction chunkSegment maxChars text level with
  | case1 text level empty => simp [Chunks, List.isEmpty_iff.mp empty]
  | case2 text level nonempty within =>
    exact chunks_singleton (mt List.isEmpty_iff.mpr nonempty)
      ((withinCharLimit_iff text maxChars).mp within)
  | case3 text nonempty long => exact hardSplit_chunks positive text
  | case4 text level nonempty long deeper parts single ih =>
    exact ih
  | case5 text level nonempty long deeper parts several ih =>
    have whole : parts.flatten = text := split_flatten level text
    have joined := mergeParts_chunks ih parts [] (Nat.zero_le _)
    rwa [nil_append, whole] at joined

end Merging

/-- Every text is cut into non-empty chunks of at most the limit that make up the
text again. -/
theorem chunkMessage_lossless (text : List Char) (maxChars : Nat) (positive : 1 ≤ maxChars) :
    (chunkMessage text maxChars).flatten = text ∧
      ∀ chunk ∈ chunkMessage text maxChars, chunk ≠ [] ∧ chunk.length ≤ maxChars := by
  rw [chunkMessage]
  by_cases empty : text = []
  · simp [empty]
  · have proceeds : ¬ (text.isEmpty || decide (maxChars = 0)) = true := by
      simp [empty, Nat.ne_of_gt positive]
    rw [if_neg proceeds]
    by_cases within : withinCharLimit text maxChars = true
    · rw [if_pos within]
      exact chunks_singleton empty ((withinCharLimit_iff text maxChars).mp within)
    · rw [if_neg within]
      exact chunkSegment_chunks positive text .paragraph

theorem chunkMessage_lossless_crab :
    (chunkMessage "🦀世界こんにちは".toList 3).flatten = "🦀世界こんにちは".toList ∧
      ∀ chunk ∈ chunkMessage "🦀世界こんにちは".toList 3, chunk ≠ [] ∧ chunk.length ≤ 3 :=
  chunkMessage_lossless "🦀世界こんにちは".toList 3 (by decide)

end Asterel.Chunker
