import Asterel.Library.Replacement
import Asterel.Security.InjectionDetect

/-!
# The wrapper of external content

The two markers of a wrapper are replaced in the text that it wraps. Neither replacement shares
an edge with a marker, so the two replacements, one after the other, leave no marker at a seam,
and the line feeds of the wrapper keep its own markers apart from the text.
-/

namespace Asterel.ExternalContent

open Library List

def collisionOpenPrefix : List Char := "[[external-content-collision:".toList

def collisionCloseMarker : List Char := "[[/external-content-collision]]".toList

section Replacement

variable {pattern new : List Char}

theorem replaceFrom_drop (skip : Nat) (text : List Char) :
    replaceFrom pattern new skip text = replaceFrom pattern new 0 (text.drop skip) := by
  induction text generalizing skip with
  | nil => simp [replaceFrom]
  | cons ch rest ih =>
    cases skip with
    | zero => rfl
    | succ skip => exact ih skip

theorem replaceFrom_begins (nonempty : pattern ≠ []) (rest : List Char) :
    replaceFrom pattern new 0 (pattern ++ rest) = new ++ replaceFrom pattern new 0 rest := by
  obtain ⟨first, others, rfl⟩ := exists_cons_of_ne_nil nonempty
  have begins : first :: others <+: first :: (others ++ rest) := prefix_append _ rest
  rw [cons_append, replaceFrom, if_pos begins, replaceFrom_drop]
  simp

theorem replaceFrom_cons {ch : Char} {rest : List Char} (begins : ¬ pattern <+: ch :: rest) :
    replaceFrom pattern new 0 (ch :: rest) = ch :: replaceFrom pattern new 0 rest := by
  rw [replaceFrom, if_neg begins]

/-- The replacement goes on behind the first occurrence. -/
theorem replaceFrom_found (nonempty : pattern ≠ []) {text before rest : List Char}
    (found : find pattern text = some (before, rest)) :
    replaceFrom pattern new 0 text = before ++ new ++ replaceFrom pattern new 0 rest := by
  induction text generalizing before with
  | nil => exact absurd (find_nil_cases found).1 nonempty
  | cons ch text ih =>
    rcases find_cons_cases found with ⟨rfl, whole⟩ | ⟨begins, earlier, restFound, rfl⟩
    · rw [whole, replaceFrom_begins nonempty]
      rfl
    · rw [replaceFrom_cons begins, ih restFound]
      rfl

theorem replaceFrom_absent {text : List Char} (absent : ¬ pattern <:+: text) :
    replaceFrom pattern new 0 text = text := by
  induction text with
  | nil => rfl
  | cons ch rest ih =>
    rw [infix_cons_iff, not_or] at absent
    rw [replaceFrom_cons absent.1, ih absent.2]

/-- Every occurrence of the pattern is replaced. -/
theorem replaceFrom_replacedAll (nonempty : pattern ≠ []) (text : List Char) :
    ReplacedAll pattern new text (replaceFrom pattern new 0 text) := by
  induction size : text.length using Nat.strong_induction_on generalizing text with
  | _ size ih =>
    cases found : find pattern text with
    | none =>
      have absent := find_eq_none_iff.mp found
      rw [replaceFrom_absent absent]
      exact .absent absent
    | some parts =>
      obtain ⟨before, rest⟩ := parts
      have positive : 0 < pattern.length := length_pos_iff.mpr nonempty
      have whole := congrArg List.length (find_eq_some found)
      simp only [length_append] at whole
      rw [replaceFrom_found nonempty found]
      exact .first found (ih rest.length (by omega) rest rfl)

end Replacement

section Seams

theorem apart_open_open : Rewrites.Apart openMarkerPrefix collisionOpenPrefix := by
  apply Rewrites.apart_of_edges <;> decide

theorem apart_open_close : Rewrites.Apart openMarkerPrefix collisionCloseMarker := by
  apply Rewrites.apart_of_edges <;> decide

theorem apart_close_close : Rewrites.Apart closeMarker collisionCloseMarker := by
  apply Rewrites.apart_of_edges <;> decide

variable (text : List Char)

/-- The text after the first of the two replacements. -/
def opened (text : List Char) : List Char :=
  replaceFrom openMarkerPrefix collisionOpenPrefix 0 text

theorem sanitizeMarkerCollision_eq :
    sanitizeMarkerCollision text = replaceFrom closeMarker collisionCloseMarker 0 (opened text) := rfl

theorem closeMarker_absent : ¬ closeMarker <:+: sanitizeMarkerCollision text :=
  (replaceFrom_replacedAll (by decide) (opened text)).not_occurs (by decide) apart_close_close

/-- The second replacement makes no open marker. -/
theorem openMarkerPrefix_absent : ¬ openMarkerPrefix <:+: sanitizeMarkerCollision text := by
  intro occurs
  have rewrites := (@replaceFrom_replacedAll closeMarker collisionCloseMarker (by decide) (opened text)).rewrites
  have early : openMarkerPrefix <:+: opened text := by
    apply rewrites.occurs_of_rewritten _ occurs
    rintro old new ⟨_, rfl⟩
    exact apart_open_close
  have replaced := @replaceFrom_replacedAll openMarkerPrefix collisionOpenPrefix (by decide) text
  exact replaced.not_occurs (by decide) apart_open_open early

variable {text}

theorem sanitizeMarkerCollision_of_absent (noOpen : ¬ openMarkerPrefix <:+: text)
    (noClose : ¬ closeMarker <:+: text) : sanitizeMarkerCollision text = text := by
  have same : opened text = text := replaceFrom_absent noOpen
  rw [sanitizeMarkerCollision_eq, same]
  exact replaceFrom_absent noClose

end Seams

section Wrapper

theorem toLower_ascii : ∀ code : Fin 128,
    (Char.ofNat code).isAlphanum = true → (Char.ofNat code).toLower.isAlphanum = true := by
  decide

/-- What a label is made of. -/
theorem sanitizeSourceChar_cases (ch : Char) :
    (sanitizeSourceChar ch).isAlphanum = true ∨ sanitizeSourceChar ch = '-' ∨
      sanitizeSourceChar ch = '_' := by
  rw [sanitizeSourceChar]
  split
  · rename_i kept
    rw [Bool.or_eq_true, Bool.or_eq_true, beq_iff_eq, beq_iff_eq] at kept
    rcases kept with (plain | rfl) | rfl
    · left
      have lower := toLower_ascii ⟨ch.toNat, Text.toNat_lt_of_isAlphanum plain⟩
      rw [Char.ofNat_toNat] at lower
      exact lower plain
    · right
      left
      rfl
    · right
      right
      rfl
  · right
    right
    rfl

theorem mem_sanitizeSource {source : List Char} {ch : Char} (member : ch ∈ sanitizeSource source) :
    ch.isAlphanum = true ∨ ch = '-' ∨ ch = '_' := by
  rw [sanitizeSource] at member
  split at member
  · have plain : "external".toList.all Char.isAlphanum = true := by decide
    exact Or.inl (all_eq_true.mp plain ch member)
  · rw [Tenant.trimMatches, mem_reverse] at member
    have inner := mem_reverse.mp ((dropWhile_sublist _).subset member)
    obtain ⟨raw, _, rfl⟩ := mem_map.mp ((dropWhile_sublist _).subset inner)
    exact sanitizeSourceChar_cases raw

theorem not_mem_sanitizeSource {ch : Char} (special : ch.isAlphanum = false ∧ ch ≠ '-' ∧ ch ≠ '_')
    (source : List Char) : ch ∉ sanitizeSource source := by
  intro member
  rcases mem_sanitizeSource member with plain | dash | underscore
  · exact Bool.false_ne_true (special.1.symm.trans plain)
  · exact special.2.1 dash
  · exact special.2.2 underscore

/-- The first line of the wrapper, behind the first bracket. -/
def headLine (source : List Char) : List Char :=
  "[external-content:".toList ++ sanitizeSource source ++ "]]".toList

theorem wrapContent_lines (source text : List Char) :
    wrapContent source text =
      '[' :: (headLine source ++ '\n' :: (sanitizeMarkerCollision text ++ '\n' :: closeMarker)) := by
  have marker : openMarkerPrefix = '[' :: "[external-content:".toList := by decide
  have brackets : "]]\n".toList = "]]".toList ++ ['\n'] := by decide
  unfold wrapContent headLine
  rw [marker, brackets]
  simp only [append_assoc, cons_append, nil_append]

theorem openMarkerPrefix_headLine (source : List Char) : ¬ openMarkerPrefix <:+: headLine source := by
  intro occurs
  have noBracket : (sanitizeSource source).count '[' = 0 :=
    count_eq_zero.mpr (@not_mem_sanitizeSource '[' (by decide) source)
  have brackets : openMarkerPrefix.count '[' ≤ (headLine source).count '[' :=
    occurs.sublist.count_le '['
  unfold headLine at brackets
  rw [count_append, count_append, noBracket] at brackets
  have two : openMarkerPrefix.count '[' = 2 := by decide
  have one : "[external-content:".toList.count '[' = 1 := by decide
  have zero : "]]".toList.count '[' = 0 := by decide
  rw [two, one, zero] at brackets
  exact absurd brackets (by decide)

theorem closeMarker_headLine (source : List Char) : ¬ closeMarker <:+: '[' :: headLine source := by
  intro occurs
  have slash : '/' ∈ closeMarker := by decide
  have member : '/' ∈ '[' :: headLine source := occurs.subset slash
  unfold headLine at member
  rw [mem_cons, mem_append, mem_append] at member
  rcases member with bracket | (inMarker | inSource) | inBrackets
  · exact absurd bracket (by decide)
  · exact absurd inMarker (by decide)
  · exact @not_mem_sanitizeSource '/' (by decide) source inSource
  · exact absurd inBrackets (by decide)

theorem wrapContent_openMarkerPrefix (source text : List Char) :
    OnlyAtStart openMarkerPrefix (wrapContent source text) := by
  have later : ¬ '[' :: "[external-content:".toList <:+:
      "[external-content:".toList ++ (sanitizeSource source ++ "]]".toList ++
        '\n' :: (sanitizeMarkerCollision text ++ '\n' :: closeMarker)) := by
    intro occurs
    have marker : '[' :: "[external-content:".toList = openMarkerPrefix := by decide
    have occurs : openMarkerPrefix <:+: headLine source ++
        '\n' :: (sanitizeMarkerCollision text ++ '\n' :: closeMarker) := by
      rw [marker] at occurs
      unfold headLine
      simpa only [append_assoc] using occurs
    rcases Rewrites.infix_around (by decide) occurs with inHead | behind
    · exact openMarkerPrefix_headLine source inHead
    · rcases Rewrites.infix_around (by decide) behind with inText | inClose
      · exact openMarkerPrefix_absent text inText
      · exact absurd inClose (by decide)
  have only := onlyAtStart_of later
  have whole : wrapContent source text = '[' :: "[external-content:".toList ++
      (sanitizeSource source ++ "]]".toList ++
        '\n' :: (sanitizeMarkerCollision text ++ '\n' :: closeMarker)) := by
    rw [wrapContent_lines]
    unfold headLine
    simp only [append_assoc, cons_append]
  rw [whole]
  exact only

theorem wrapContent_closeMarker (source text : List Char) :
    OnlyAtEnd closeMarker (wrapContent source text) := by
  have parts : closeMarker = closeMarker.dropLast ++ [']'] := by decide
  have earlier : ¬ closeMarker.dropLast ++ [']'] <:+:
      '[' :: headLine source ++ '\n' :: (sanitizeMarkerCollision text ++ ['\n']) ++
        closeMarker.dropLast := by
    intro occurs
    have occurs : closeMarker <:+: ('[' :: headLine source) ++
        '\n' :: (sanitizeMarkerCollision text ++ '\n' :: closeMarker.dropLast) := by
      rw [← parts] at occurs
      simpa only [append_assoc, cons_append, nil_append] using occurs
    rcases Rewrites.infix_around (by decide) occurs with inHead | behind
    · exact closeMarker_headLine source inHead
    · rcases Rewrites.infix_around (by decide) behind with inText | inClose
      · exact closeMarker_absent text inText
      · exact absurd inClose (by decide)
  have only := onlyAtEnd_of earlier
  rw [← parts] at only
  have whole : wrapContent source text = '[' :: headLine source ++
      '\n' :: (sanitizeMarkerCollision text ++ ['\n']) ++ closeMarker := by
    rw [wrapContent_lines]
    simp only [append_assoc, cons_append, nil_append]
  rw [whole]
  exact only

/-- The open marker stands only at the start of a wrapped text, the close marker only at its
end, and a text without markers is not changed, so neither is a text that has been rewritten. -/
theorem wrapContent_markers (source text : List Char) :
    OnlyAtStart openMarkerPrefix (wrapContent source text) ∧
      OnlyAtEnd closeMarker (wrapContent source text) ∧
      sanitizeMarkerCollision (sanitizeMarkerCollision text) = sanitizeMarkerCollision text ∧
      (¬ openMarkerPrefix <:+: text → ¬ closeMarker <:+: text →
        sanitizeMarkerCollision text = text) := by
  have again : sanitizeMarkerCollision (sanitizeMarkerCollision text) = sanitizeMarkerCollision text :=
    sanitizeMarkerCollision_of_absent (openMarkerPrefix_absent text) (closeMarker_absent text)
  exact ⟨wrapContent_openMarkerPrefix source text, wrapContent_closeMarker source text, again,
    sanitizeMarkerCollision_of_absent⟩

end Wrapper

end Asterel.ExternalContent
