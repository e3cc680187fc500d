import Asterel.Core.FallbackIds
import Asterel.Library.Replacement

/-!
# The arguments of bracket tags

Behind a bracket tag the text is read twice: once for the argument, a fenced block, an object
in braces or the rest of the line, and once for the place where the remaining text goes on.
Where a fence or a brace is not closed, the first reading falls back to the line, and the
second one gives up and removes nothing. So the argument is removed with its tag exactly if
the fence or the brace behind the tag is closed.
-/

namespace Asterel.ToolProtocol

open Library Library.Text List Option

variable {Number : Type}

/-! ## The claim about one tag -/

/-- How many characters of a fenced block stand before its content. -/
def infoLength (codeBlock : List Char) : Nat :=
  match splitOnce '\n' codeBlock with
  | some (info, _) => info.length + 1
  | none => 0

/-- The place of the argument in the text behind a tag. -/
def argumentOffset (afterTag : List Char) : Nat :=
  let rest := trimStart afterTag
  (afterTag.takeWhile isWhitespace).length + match stripFence rest with
    | none => 0
    | some codeBlock =>
      match fencedBlock codeBlock with
      | none => 0
      | some (content, _) => 3 + infoLength codeBlock + (content.takeWhile isWhitespace).length

/-- The argument, if there is one, stands at its place in the text behind the tag, and the
remaining text goes on behind it. -/
def ConsumedOnce (afterTag : List Char) : Prop :=
  extractContentAfterBracket afterTag = [] ∨
    ∃ before after, afterTag = before ++ extractContentAfterBracket afterTag ++ after ∧
      before.length = argumentOffset afterTag ∧ bracketRest afterTag <:+ after

/-- A fence behind the tag is closed behind its line, and a brace behind the tag is closed. -/
def Closed (afterTag : List Char) : Prop :=
  (∀ codeBlock ∈ stripFence (trimStart afterTag), (fencedBlock codeBlock).isSome) ∧
    ((trimStart afterTag).head? = some '{' →
      (findMatchingBrace 0 false false (trimStart afterTag)).isSome)

instance (afterTag : List Char) : Decidable (Closed afterTag) := inferInstanceAs (Decidable (_ ∧ _))

/-! ## White space around -/

section Trimming

theorem takeWhile_append_trimStart (text : List Char) :
    text.takeWhile isWhitespace ++ trimStart text = text := takeWhile_append_dropWhile

/-- A text that begins visibly is trimmed at its end only. -/
theorem trim_front {char : Char} (visible : isWhitespace char = false) (rest : List Char) :
    trim (char :: rest) ≠ [] ∧ ∃ trailing, char :: rest = trim (char :: rest) ++ trailing := by
  obtain ⟨trailing, _, split⟩ := trim_parts (char :: rest)
  rw [takeWhile_cons, visible, if_neg Bool.false_ne_true, nil_append] at split
  refine ⟨?_, trailing, split⟩
  intro blank
  rw [trim_eq_nil_iff] at blank
  rw [blank char mem_cons_self] at visible
  cases visible

end Trimming

/-! ## The two readings -/

section Readings

variable {afterTag codeBlock content behind : List Char}
variable {char : Char} {others rest text through : List Char}

theorem stripFence_eq_some (fence : stripFence text = some codeBlock) :
    text = "```".toList ++ codeBlock := by
  rw [stripFence] at fence
  split at fence
  · rename_i begins
    cases fence
    exact prefix_iff_eq_append.mp (List.isPrefixOf_iff_prefix.mp begins) |>.symm
  · cases fence

/-- A fenced block, with its place behind the fence. -/
theorem fencedBlock_parts (closed : fencedBlock codeBlock = some (content, behind)) :
    ∃ info, info.length = infoLength codeBlock ∧
      codeBlock = info ++ content ++ "```".toList ++ behind := by
  rw [fencedBlock] at closed
  rw [infoLength]
  cases split : splitOnce '\n' codeBlock with
  | none =>
    rw [split] at closed
    exact ⟨[], rfl, find_eq_some closed⟩
  | some parts =>
    obtain ⟨info, inner⟩ := parts
    rw [split] at closed
    refine ⟨info ++ ['\n'], by simp, ?_⟩
    have found : find "```".toList inner = some (content, behind) := closed
    rw [splitOnce_eq split, find_eq_some found]
    simp

/-- Behind a closed fence the content is the argument, and the text goes on behind the block. -/
theorem consumedOnce_fenced (fence : stripFence (trimStart afterTag) = some codeBlock)
    (closed : fencedBlock codeBlock = some (content, behind)) : ConsumedOnce afterTag := by
  have argument : extractContentAfterBracket afterTag = trim content := by
    rw [extractContentAfterBracket, fence, bind_some, closed]
  by_cases empty : trim content = []
  · exact .inl (argument.trans empty)
  have remaining : bracketRest afterTag = behind := by
    have filled : (trim content).isEmpty = false := by simp [empty]
    rw [bracketRest, argument, filled, findCodeBlockEnd, fence]
    dsimp only
    rw [closed]
    rfl
  obtain ⟨info, infoEq, blockEq⟩ := fencedBlock_parts closed
  obtain ⟨trailing, _, contentEq⟩ := trim_parts content
  have front := takeWhile_append_trimStart afterTag
  right
  refine ⟨afterTag.takeWhile isWhitespace ++ "```".toList ++ info ++
    content.takeWhile isWhitespace, trailing ++ "```".toList ++ behind, ?_, ?_, ?_⟩
  · rw [argument]
    calc afterTag
        = afterTag.takeWhile isWhitespace ++ trimStart afterTag := front.symm
      _ = afterTag.takeWhile isWhitespace ++ ("```".toList ++ (info ++
            (content.takeWhile isWhitespace ++ (trim content ++ trailing)) ++ "```".toList ++
              behind)) := by rw [← contentEq, ← blockEq, ← stripFence_eq_some fence]
      _ = _ := by simp only [append_assoc]
  · have fenceLength : "```".toList.length = 3 := by decide
    rw [argumentOffset, fence]
    dsimp only
    rw [closed]
    simp only [length_append, infoEq, fenceLength]
    omega
  · rw [remaining]
    exact suffix_append _ _

/-- What is read from a visible beginning of the text behind a tag is consumed if the text
goes on behind it. -/
theorem consumedOnce_front (visible : isWhitespace char = false)
    (front : trimStart afterTag = char :: through ++ others)
    (unfenced : (stripFence (trimStart afterTag)).bind fencedBlock = none)
    (argument : extractContentAfterBracket afterTag = trim (char :: through))
    (remaining : bracketRest afterTag <:+ others) : ConsumedOnce afterTag := by
  obtain ⟨_, trailing, split⟩ := trim_front visible through
  right
  refine ⟨afterTag.takeWhile isWhitespace, trailing ++ others, ?_, ?_,
    remaining.trans (suffix_append _ _)⟩
  · rw [argument, append_assoc, ← append_assoc (trim _), ← split, ← front,
      takeWhile_append_trimStart]
  · rw [argumentOffset]
    cases fence : stripFence (trimStart afterTag) with
    | none => rfl
    | some codeBlock =>
      rw [fence, bind_some] at unfenced
      dsimp only
      rw [unfenced]
      rfl

/-- Behind a brace that is closed the object is the argument. -/
theorem consumedOnce_braced
    (fence : stripFence (trimStart afterTag) = none) (brace : (trimStart afterTag).head? = some '{')
    (closed : findMatchingBrace 0 false false (trimStart afterTag) = some (through, others)) :
    ConsumedOnce afterTag := by
  have argument : extractContentAfterBracket afterTag = trim through := by
    rw [extractContentAfterBracket, fence, bind_none]
    dsimp only
    rw [if_pos brace, closed]
  obtain ⟨front, some⟩ := findMatchingBrace_parts closed
  cases through with
  | nil => exact absurd rfl some
  | cons char through =>
    have opening : char = '{' := by
      rw [front] at brace
      exact Option.some.inj brace
    have visible : isWhitespace char = false := by
      rw [opening]
      decide
    have filled : (trim (char :: through)).isEmpty = false := by
      simp [(trim_front visible through).1]
    have remaining : bracketRest afterTag = others := by
      rw [bracketRest, argument, filled, findCodeBlockEnd, fence]
      dsimp only
      rw [if_pos brace, closed]
      rfl
    refine consumedOnce_front visible front ?_ argument (remaining ▸ suffix_rfl)
    rw [fence, bind_none]

theorem dropWhile_of_splitOnce {separator : Char} {before : List Char}
    (found : splitOnce separator text = some (before, rest)) :
    text.dropWhile (fun char => char ≠ separator) = separator :: rest := by
  induction text generalizing before with
  | nil => cases found
  | cons char others ih =>
    rw [splitOnce] at found
    split at found
    · rename_i same
      cases found
      simp [same]
    · rename_i different
      obtain ⟨parts, here, same⟩ := map_eq_some_iff.mp found
      cases same
      rw [dropWhile_cons_of_pos (by simpa using different), ih here]

/-- The first line of a text that begins visibly. -/
theorem firstLine_parts (visible : isWhitespace char = false) (rest : List Char) :
    (char :: rest).takeWhile (fun char => char ≠ '\n') =
      char :: rest.takeWhile fun char => char ≠ '\n' := by
  refine takeWhile_cons_of_pos ?_
  simp only [decide_eq_true_eq]
  rintro rfl
  exact absurd visible (by decide)

theorem trimStart_visible
    (begins : trimStart afterTag = char :: rest) : isWhitespace char = false := by
  have head := head?_dropWhile_not isWhitespace afterTag
  rw [← trimStart, begins] at head
  simpa using head

/-- Without a fence and a brace the rest of the line is the argument. -/
theorem consumedOnce_line (fence : stripFence (trimStart afterTag) = none)
    (noBrace : (trimStart afterTag).head? ≠ some '{') : ConsumedOnce afterTag := by
  have argument : extractContentAfterBracket afterTag =
      trim ((trimStart afterTag).takeWhile fun char => char ≠ '\n') := by
    rw [extractContentAfterBracket, fence, bind_none]
    dsimp only
    rw [if_neg noBrace]
  cases begins : trimStart afterTag with
  | nil =>
    left
    rw [argument, begins]
    rfl
  | cons char rest =>
    have visible := trimStart_visible begins
    rw [begins, firstLine_parts visible] at argument
    have filled : (extractContentAfterBracket afterTag).isEmpty = false := by
      rw [argument]
      simp [(trim_front visible _).1]
    have front : trimStart afterTag = char :: (rest.takeWhile fun char => char ≠ '\n') ++
        rest.dropWhile fun char => char ≠ '\n' := by
      rw [begins, cons_append, takeWhile_append_dropWhile]
    refine consumedOnce_front visible front (by rw [fence, bind_none]) argument ?_
    rw [bracketRest, filled, findCodeBlockEnd, fence]
    dsimp only
    rw [if_neg noBrace]
    cases split : splitOnce '\n' (trimStart afterTag) with
    | none => exact nil_suffix
    | some parts =>
      obtain ⟨line, behind⟩ := parts
      have dropped := dropWhile_of_splitOnce split
      have different : char ≠ '\n' := by
        rintro rfl
        exact absurd visible (by decide)
      rw [begins, dropWhile_cons_of_pos (by simpa using different)] at dropped
      rw [dropped]
      exact suffix_cons _ _

/-- An argument that is read from a text that stays is not consumed. -/
theorem not_consumedOnce_of_kept (some : extractContentAfterBracket afterTag ≠ [])
    (kept : bracketRest afterTag = afterTag) : ¬ ConsumedOnce afterTag := by
  rintro (none | ⟨before, after, split, _, remaining⟩)
  · exact some none
  · have short := remaining.length_le
    have lengths := congrArg List.length split
    have positive := length_pos_iff.mpr some
    rw [kept] at short
    simp only [length_append] at lengths
    omega

/-- Behind a fence or a brace that is not closed the line is the argument, and nothing is
removed. -/
theorem not_consumedOnce_open (noBlock : (stripFence (trimStart afterTag)).bind fencedBlock = none)
    (noObject : (trimStart afterTag).head? = some '{' →
      findMatchingBrace 0 false false (trimStart afterTag) = none)
    (noEnd : findCodeBlockEnd afterTag = none) (filled : trimStart afterTag ≠ []) :
    ¬ ConsumedOnce afterTag := by
  have argument : extractContentAfterBracket afterTag =
      trim ((trimStart afterTag).takeWhile fun char => char ≠ '\n') := by
    rw [extractContentAfterBracket, noBlock]
    dsimp only
    by_cases brace : (trimStart afterTag).head? = some '{'
    · rw [if_pos brace, noObject brace]
    · rw [if_neg brace]
  obtain ⟨char, rest, begins⟩ := exists_cons_of_ne_nil filled
  have visible := trimStart_visible begins
  rw [begins, firstLine_parts visible] at argument
  have some : extractContentAfterBracket afterTag ≠ [] := by
    rw [argument]
    exact (trim_front visible _).1
  refine not_consumedOnce_of_kept some ?_
  rw [bracketRest, noEnd]
  simp

theorem not_brace_of_fence (fence : stripFence (trimStart afterTag) = some codeBlock) :
    (trimStart afterTag).head? ≠ some '{' := by
  rw [stripFence_eq_some fence]
  simp

/-- The argument is consumed with its tag exactly if what it begins with is closed. -/
theorem consumedOnce_iff : ConsumedOnce afterTag ↔ Closed afterTag := by
  cases fence : stripFence (trimStart afterTag) with
  | some codeBlock =>
    have noBrace := not_brace_of_fence fence
    cases closed : fencedBlock codeBlock with
    | some parts =>
      refine iff_of_true (consumedOnce_fenced fence closed) ⟨?_, fun brace => absurd brace noBrace⟩
      intro other member
      rw [mem_def, fence] at member
      cases member
      rw [closed]
      rfl
    | none =>
      have noEnd : findCodeBlockEnd afterTag = none := by
        rw [findCodeBlockEnd, fence]
        dsimp only
        rw [closed]
        rfl
      have filled : trimStart afterTag ≠ [] := by
        rw [stripFence_eq_some fence]
        simp
      refine iff_of_false (not_consumedOnce_open (by rw [fence, bind_some, closed])
        (fun brace => absurd brace noBrace) noEnd filled) ?_
      rintro ⟨fences, _⟩
      have some := fences codeBlock fence
      rw [closed] at some
      cases some
  | none =>
    have noBlock : (stripFence (trimStart afterTag)).bind fencedBlock = none := by
      rw [fence, bind_none]
    have noFence : ∀ codeBlock ∈ stripFence (trimStart afterTag),
        (fencedBlock codeBlock).isSome = true := by
      intro codeBlock member
      rw [mem_def, fence] at member
      cases member
    by_cases brace : (trimStart afterTag).head? = some '{'
    · cases closed : findMatchingBrace 0 false false (trimStart afterTag) with
      | some parts =>
        refine iff_of_true (consumedOnce_braced fence brace closed) ⟨noFence, fun _ => ?_⟩
        rw [closed]
        rfl
      | none =>
        have noEnd : findCodeBlockEnd afterTag = none := by
          rw [findCodeBlockEnd, fence]
          dsimp only
          rw [if_pos brace, closed]
          rfl
        have filled : trimStart afterTag ≠ [] := by
          intro empty
          rw [empty] at brace
          cases brace
        refine iff_of_false (not_consumedOnce_open noBlock (fun _ => closed) noEnd filled) ?_
        rintro ⟨_, braces⟩
        have some := braces brace
        rw [closed] at some
        cases some
    · exact iff_of_true (consumedOnce_line fence brace)
        ⟨noFence, fun opens => absurd opens brace⟩

theorem findCodeBlockEnd_isSuffix (found : findCodeBlockEnd afterTag = some rest) :
    rest <:+ afterTag := by
  have trimmed : trimStart afterTag <:+ afterTag := dropWhile_suffix _
  refine IsSuffix.trans ?_ trimmed
  rw [findCodeBlockEnd] at found
  cases fence : stripFence (trimStart afterTag) with
  | some codeBlock =>
    rw [fence] at found
    obtain ⟨⟨content, behind⟩, closed, same⟩ := map_eq_some_iff.mp found
    cases same
    obtain ⟨info, _, blockEq⟩ := fencedBlock_parts closed
    rw [stripFence_eq_some fence, blockEq, ← append_assoc]
    exact suffix_append _ _
  | none =>
    rw [fence] at found
    dsimp only at found
    split at found
    · obtain ⟨⟨through, behind⟩, closed, same⟩ := map_eq_some_iff.mp found
      cases same
      exact findMatchingBrace_isSuffix closed
    · split at found
      · rename_i split
        cases found
        exact splitOnce_isSuffix split
      · cases found
        exact nil_suffix

theorem bracketRest_isSuffix (afterTag : List Char) : bracketRest afterTag <:+ afterTag := by
  rw [bracketRest]
  split
  · exact suffix_rfl
  · cases found : findCodeBlockEnd afterTag with
    | none => exact suffix_rfl
    | some rest => exact findCodeBlockEnd_isSuffix found

end Readings

/-! ## All tags of a text -/

/-- The texts behind the tags that become calls. -/
def bracketTags (text : List Char) : List (List Char) :=
  match _foundOpen : find bracketOpen text with
  | none => []
  | some (_, content) =>
    match _foundClose : find "]]".toList content with
    | none => []
    | some (_, afterTag) => afterTag :: bracketTags (bracketRest afterTag)
  termination_by text.length
  decreasing_by exact length_bracket_lt _foundOpen _foundClose

/-- What is removed: one of the tags, and what stands behind it up to the place where the
remaining text goes on. -/
def TagRemoval (tags : List (List Char)) (old new : List Char) : Prop :=
  new = [] ∧ ∃ name region, ∃ afterTag ∈ tags,
    find "]]".toList (name ++ "]]".toList ++ afterTag) = some (name, afterTag) ∧
      old = bracketOpen ++ name ++ "]]".toList ++ region ∧ afterTag = region ++ bracketRest afterTag

/-- Every argument is removed with its tag, and nothing else is removed. -/
def ArgumentsConsumedOnce (serde : Serde Number) (text : List Char) : Prop :=
  (∀ afterTag ∈ bracketTags text, ConsumedOnce afterTag) ∧
    Rewrites (TagRemoval (bracketTags text)) text (extractBracketToolCalls serde 1 text).1

section Tags

variable {serde : Serde Number} {text : List Char}
variable {afterTag before content name : List Char} (counter : Nat)

theorem bracketTags_tag (foundOpen : find bracketOpen text = some (before, content))
    (foundClose : find "]]".toList content = some (name, afterTag)) :
    bracketTags text = afterTag :: bracketTags (bracketRest afterTag) := by
  rw [bracketTags]
  split
  · rename_i missing
    cases foundOpen.symm.trans missing
  · rename_i found
    cases foundOpen.symm.trans found
    split
    · rename_i missing
      cases foundClose.symm.trans missing
    · rename_i found
      cases foundClose.symm.trans found
      rfl

/-- Only tags and what is consumed behind them are removed. -/
theorem extractBracketToolCalls_rewrites {tags : List (List Char)}
    (text : List Char) (listed : bracketTags text ⊆ tags) :
    Rewrites (TagRemoval tags) text (extractBracketToolCalls serde counter text).1 := by
  fun_induction bracketTags text generalizing counter with
  | case1 text noOpen =>
    rw [no_bracket_calls serde counter noOpen]
    exact .same _
  | case2 text before content foundOpen noClose =>
    rw [extractBracket_unclosed foundOpen noClose, ← find_eq_some foundOpen]
    exact .same _
  | case3 text before content foundOpen name afterTag foundClose ih =>
    obtain ⟨here, others⟩ := cons_subset.mp listed
    obtain ⟨region, split⟩ := bracketRest_isSuffix afterTag
    have removal : TagRemoval tags (bracketOpen ++ name ++ "]]".toList ++ region) [] := by
      refine ⟨rfl, name, region, afterTag, here, ?_, rfl, split.symm⟩
      rw [← find_eq_some foundClose, foundClose]
    have later := Rewrites.replace before removal (ih (counter + 1) others)
    rw [extractBracket_tag foundOpen foundClose]
    have layout : text = before ++ (bracketOpen ++ name ++ "]]".toList ++ region) ++
        bracketRest afterTag := by
      rw [find_eq_some foundOpen, find_eq_some foundClose]
      conv_lhs => rw [← split]
      simp only [append_assoc]
    rw [layout]
    simpa using later

/-- Every argument is removed exactly once if and only if behind every tag a fence or a brace
that opens the argument is closed. -/
theorem bracket_arguments_consumed_iff (serde : Serde Number) (text : List Char) :
    ArgumentsConsumedOnce serde text ↔ ∀ afterTag ∈ bracketTags text, Closed afterTag := by
  constructor
  · rintro ⟨consumed, _⟩ afterTag member
    exact consumedOnce_iff.mp (consumed afterTag member)
  · intro closed
    exact ⟨fun afterTag member => consumedOnce_iff.mpr (closed afterTag member),
      extractBracketToolCalls_rewrites 1 text (Subset.refl _)⟩

/-- A call whose object is not closed. -/
def unclosedCall : List Char := "[[tool_call:shell]]\x7b\"command\":\"ls\"".toList

/-- The object behind the tag is not closed: it is the argument of the call, and it stays in
the remaining text. -/
theorem unclosed_argument_stays :
    ¬ ∀ (serde : Serde Int) (text : List Char), ArgumentsConsumedOnce serde text := by
  intro consumed
  have foundOpen : find bracketOpen unclosedCall =
      some ([], "shell]]\x7b\"command\":\"ls\"".toList) := by decide
  have foundClose : find "]]".toList "shell]]\x7b\"command\":\"ls\"".toList =
      some ("shell".toList, "\x7b\"command\":\"ls\"".toList) := by decide
  have tag : "\x7b\"command\":\"ls\"".toList ∈ bracketTags unclosedCall := by
    rw [bracketTags_tag foundOpen foundClose]
    exact mem_cons_self
  exact not_consumedOnce_of_kept (by decide) (by decide) ((consumed noSerde unclosedCall).1 _ tag)

end Tags

end Asterel.ToolProtocol
