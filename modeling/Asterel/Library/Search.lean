import Mathlib.Data.List.Infix

/-!
# The first occurrence of a pattern

A search returns the parts of the list before and after the first occurrence.
-/

namespace Library

open List

universe u

variable {α : Type u}
variable {after back before front other rest text : List α} {first mark symbol : α}

/-- An occurrence without a symbol stands on one side of it. -/
theorem occurs_beside {occurrence : List α} (absent : mark ∉ occurrence)
    (whole : front ++ mark :: back = before ++ occurrence ++ after) :
    (∃ gap, front = before ++ occurrence ++ gap ∧ after = gap ++ mark :: back) ∨
      ∃ gap, back = gap ++ occurrence ++ after := by
  rw [append_eq_append_iff] at whole
  rcases whole with ⟨gap, frontEq, behind⟩ | ⟨gap, frontEq, behind⟩
  · cases gap with
    | nil =>
      left
      exact ⟨[], by simpa using frontEq.symm, by simpa using behind.symm⟩
    | cons first others =>
      obtain ⟨firstEq, backEq⟩ := List.cons.inj behind
      rw [append_eq_append_iff] at frontEq
      rcases frontEq with ⟨gap', _, occurrenceEq⟩ | ⟨gap', _, gapEq⟩
      · refine absurd ?_ absent
        rw [occurrenceEq, ← firstEq]
        simp
      · cases gap' with
        | nil =>
          refine absurd ?_ absent
          have same : first :: others = occurrence := gapEq
          rw [← same, ← firstEq]
          exact mem_cons_self
        | cons second gap'' =>
          right
          refine ⟨gap'', ?_⟩
          have same : others = gap'' ++ occurrence := (List.cons.inj gapEq).2
          rw [backEq, same]
          rfl
  · left
    exact ⟨gap, frontEq, behind⟩

/-- A word without a symbol that a text begins with ends before the symbol. -/
theorem prefix_beside {word : List α} (absent : mark ∉ word)
    (begins : word <+: front ++ mark :: back) : word <+: front := by
  rcases prefix_or_prefix_of_prefix begins (prefix_append front _) with short | long
  · exact short
  · obtain ⟨rest, rfl⟩ := long
    rw [prefix_append_right_inj] at begins
    cases rest with
    | nil => rw [append_nil]
    | cons symbol rest =>
      have same := (cons_prefix_cons.mp begins).1
      exact absurd (mem_append_right _ (same ▸ mem_cons_self)) absent

/-- No occurrence of the pattern lies across the seam of two texts. -/
def Parted (pattern front back : List α) : Prop :=
  ∀ first second, pattern = first ++ second → first ≠ [] → second ≠ [] → first <:+ front →
    ¬ second <+: back

theorem Parted.suffix {pattern : List α} (parted : Parted pattern front back)
    (suffix : rest <:+ front) : Parted pattern rest back :=
  fun first second cut some some' ends => parted first second cut some some' (ends.trans suffix)

theorem Parted.of_begins {pattern : List α} (parted : Parted pattern front back)
    (begins : rest <+: back) : Parted pattern front rest :=
  fun first second cut some some' ends starts =>
    parted first second cut some some' ends (starts.trans begins)

/-- A pattern at the front of two texts ends in the first one. -/
theorem Parted.begins {pattern : List α} (parted : Parted pattern front back)
    (nonempty : front ≠ []) (begins : pattern <+: front ++ back) : pattern <+: front := by
  rcases prefix_or_prefix_of_prefix begins (prefix_append front back) with short | long
  · exact short
  · obtain ⟨second, patternEq⟩ := long
    by_cases whole : second = []
    · rw [whole, append_nil] at patternEq
      exact patternEq ▸ prefix_refl _
    · obtain ⟨rest, joined⟩ := begins
      rw [← patternEq, append_assoc] at joined
      have starts : second <+: back := ⟨rest, append_cancel_left joined⟩
      exact absurd starts
        (parted front second patternEq.symm nonempty whole (suffix_refl _))

variable [DecidableEq α]

/-- The list before and after the first occurrence of the pattern. -/
def find (pattern : List α) : List α → Option (List α × List α)
  | [] => if pattern = [] then some ([], []) else none
  | symbol :: rest =>
    if pattern.isPrefixOf (symbol :: rest) then
      some ([], (symbol :: rest).drop pattern.length)
    else
      (find pattern rest).map fun parts => (symbol :: parts.1, parts.2)

variable {pattern : List α}

theorem find_of_isPrefix (begins : pattern <+: text) :
    find pattern text = some ([], text.drop pattern.length) := by
  cases text with
  | nil =>
    have empty : pattern = [] := prefix_nil.mp begins
    simp [find, empty]
  | cons symbol rest => rw [find, if_pos (List.isPrefixOf_iff_prefix.mpr begins)]

theorem find_cons (later : ¬ pattern <+: symbol :: rest) :
    find pattern (symbol :: rest) =
      (find pattern rest).map fun parts => (symbol :: parts.1, parts.2) := by
  rw [find, if_neg (mt isPrefixOf_iff_prefix.mp later)]

/-- What is found in the empty text. -/
theorem find_nil_cases (found : find pattern [] = some (before, after)) :
    pattern = [] ∧ before = [] ∧ after = [] := by
  rw [find] at found
  split at found
  · rename_i empty
    cases found
    exact ⟨empty, rfl, rfl⟩
  · cases found

/-- What is found in a text stands at its front, or is found behind its first symbol. -/
theorem find_cons_cases (found : find pattern (symbol :: rest) = some (before, after)) :
    (before = [] ∧ symbol :: rest = pattern ++ after) ∨ ¬ pattern <+: symbol :: rest ∧
        ∃ earlier, find pattern rest = some (earlier, after) ∧ before = symbol :: earlier := by
  by_cases begins : pattern <+: symbol :: rest
  · left
    rw [find_of_isPrefix begins] at found
    cases found
    exact ⟨rfl, (prefix_iff_eq_append.mp begins).symm⟩
  · right
    rw [find_cons begins, Option.map_eq_some_iff] at found
    obtain ⟨⟨earlier, later⟩, restFound, same⟩ := found
    cases same
    exact ⟨begins, earlier, restFound, rfl⟩

/-- The pattern stands between the two parts. -/
theorem find_eq_some (found : find pattern text = some (before, after)) :
    text = before ++ pattern ++ after := by
  induction text generalizing before with
  | nil =>
    obtain ⟨rfl, rfl, rfl⟩ := find_nil_cases found
    rfl
  | cons symbol rest ih =>
    rcases find_cons_cases found with ⟨rfl, whole⟩ | ⟨_, earlier, restFound, rfl⟩
    · exact whole
    · rw [ih restFound]
      rfl

/-- No occurrence begins before the one found. -/
theorem find_first {earlier later : List α} (found : find pattern text = some (before, after))
    (occurs : text = earlier ++ pattern ++ later) : before.length ≤ earlier.length := by
  induction text generalizing before earlier with
  | nil =>
    obtain ⟨_, rfl, _⟩ := find_nil_cases found
    exact Nat.zero_le _
  | cons symbol rest ih =>
    rcases find_cons_cases found with ⟨rfl, _⟩ | ⟨begins, front, restFound, rfl⟩
    · exact Nat.zero_le _
    · cases earlier with
      | nil => exact absurd ⟨later, occurs.symm⟩ begins
      | cons first others =>
        have restOccurs : rest = others ++ pattern ++ later := (List.cons.inj occurs).2
        exact Nat.succ_le_succ (ih restFound restOccurs)

/-- The search fails exactly when the pattern does not occur. -/
theorem find_eq_none_iff : find pattern text = none ↔ ¬ pattern <:+: text := by
  induction text with
  | nil =>
    by_cases empty : pattern = []
    · simp [find, empty]
    · simp [find, empty]
  | cons symbol rest ih =>
    rw [infix_cons_iff, not_or]
    by_cases begins : pattern <+: symbol :: rest
    · simp [find_of_isPrefix begins, begins]
    · rw [find_cons begins, Option.map_eq_none_iff, ih]
      simp [begins]

/-- The first occurrence stays the first when the text behind it is replaced. -/
theorem find_replace_after (other : List α) (found : find pattern text = some (before, after)) :
    find pattern (before ++ pattern ++ other) = some (before, other) := by
  have atFront : find pattern (pattern ++ other) = some ([], other) := by
    rw [find_of_isPrefix (prefix_append _ _), drop_left]
  induction text generalizing before with
  | nil =>
    obtain ⟨_, rfl, _⟩ := find_nil_cases found
    exact atFront
  | cons symbol rest ih =>
    rcases find_cons_cases found with ⟨rfl, _⟩ | ⟨begins, earlier, restFound, rfl⟩
    · exact atFront
    · have later : ¬ pattern <+: symbol :: (earlier ++ pattern ++ other) := by
        intro front
        have short : pattern <+: symbol :: (earlier ++ pattern) := by
          refine prefix_of_prefix_length_le front ⟨other, by simp⟩ ?_
          simp only [length_cons, length_append]
          omega
        have original : symbol :: rest = symbol :: (earlier ++ pattern) ++ after := by
          rw [find_eq_some restFound]
          rfl
        exact begins (original ▸ short.trans (prefix_append _ _))
      show find pattern (symbol :: (earlier ++ pattern ++ other)) = _
      rw [find_cons later, ih restFound]
      rfl

/-- What is found in a text is found in front of any other text. -/
theorem find_append (other : List α) (found : find pattern text = some (before, after)) :
    find pattern (text ++ other) = some (before, after ++ other) := by
  have moved := find_replace_after (after ++ other) found
  rw [find_eq_some found]
  simpa only [append_assoc] using moved

/-- What is found in a longer text and ends in the shorter one is found there. -/
theorem find_of_append (found : find pattern (text ++ other) = some (before, after ++ other)) :
    find pattern text = some (before, after) := by
  have whole := find_eq_some found
  rw [← append_assoc] at whole
  rw [append_cancel_right whole]
  exact find_replace_after after found

/-- A pattern that does not occur in the first text nor across the seam is found in the
second text. -/
theorem find_parted (parted : Parted pattern front back) (missing : find pattern front = none) :
    find pattern (front ++ back) =
      (find pattern back).map fun parts => (front ++ parts.1, parts.2) := by
  induction front with
  | nil => simp
  | cons symbol rest ih =>
    have absent := find_eq_none_iff.mp missing
    have later : ¬ pattern <+: symbol :: (rest ++ back) := fun begins =>
      absent (parted.begins (cons_ne_nil _ _) begins).isInfix
    have restMissing : find pattern rest = none := by
      rw [find_eq_none_iff]
      exact fun occurs => absent (occurs.trans (suffix_cons _ _).isInfix)
    rw [cons_append, find_cons later,
      ih (parted.suffix (suffix_cons _ _)) restMissing, Option.map_map]
    rfl

/-- What is found only in a longer text ends behind the shorter one. -/
theorem find_late (missing : find pattern text = none)
    (found : find pattern (text ++ other) = some (before, after)) :
    text.length < before.length + pattern.length := by
  by_contra early
  have front : before ++ pattern <+: text := by
    have whole : before ++ pattern <+: text ++ other := ⟨after, (find_eq_some found).symm⟩
    refine prefix_of_prefix_length_le whole (prefix_append _ _) ?_
    rw [length_append]
    omega
  obtain ⟨gap, textEq⟩ := front
  exact find_eq_none_iff.mp missing ⟨before, gap, textEq⟩

/-- A pattern is not found in a text without its first symbol. -/
theorem find_ge {others : List α}
    (absent : first ∉ front) (found : find (first :: others) (front ++ text) = some (before, after)) :
    front.length ≤ before.length := by
  have whole := find_eq_some found
  rw [append_assoc, append_eq_append_iff] at whole
  rcases whole with ⟨gap, beforeEq, _⟩ | ⟨gap, frontEq, behind⟩
  · rw [beforeEq, length_append]
    exact Nat.le_add_right _ _
  · cases gap with
    | nil => simp [frontEq]
    | cons symbol rest =>
      have same : first = symbol := (List.cons.inj behind).1
      refine absurd ?_ absent
      rw [frontEq, same]
      simp

/-- A pattern is found at once behind a text without its first symbol. -/
theorem find_behind (others : List α) (after : List α) (absent : first ∉ before) :
    find (first :: others) (before ++ first :: others ++ after) = some (before, after) := by
  induction before with
  | nil =>
    have begins : first :: others <+: [] ++ first :: others ++ after := prefix_append _ _
    rw [find_of_isPrefix begins]
    simp
  | cons symbol rest ih =>
    have different : first ≠ symbol := fun same => absent (same ▸ mem_cons_self)
    have restAbsent : first ∉ rest := fun member => absent (mem_cons_of_mem _ member)
    have later : ¬ first :: others <+: symbol :: (rest ++ first :: others ++ after) := by
      intro begins
      exact different (cons_prefix_cons.mp begins).1
    show find (first :: others) (symbol :: (rest ++ first :: others ++ after)) = _
    rw [find_cons later, ih restAbsent]
    rfl

/-- Of two occurrences of a word that does not overlap itself the one does not begin
before the other, unless the word stands in the text before it. -/
theorem not_earlier {lead tail : List α}
    (borderless : ∀ tail ∈ front.tails, tail ≠ [] → tail ≠ front → ¬ tail <+: front)
    (missing : ¬ front <:+: before) (same : before ++ (front ++ after) = lead ++ (front ++ tail)) :
    before.length ≤ lead.length := by
  rw [append_eq_append_iff] at same
  rcases same with ⟨gap, leadEq, _⟩ | ⟨gap, beforeEq, gapEq⟩
  · rw [leadEq, length_append]
    exact Nat.le_add_right _ _
  · have gapBefore : gap <:+: before := beforeEq ▸ (suffix_append lead gap).isInfix
    have fronts : front <+: gap ++ (front ++ after) := gapEq ▸ prefix_append _ _
    rcases prefix_or_prefix_of_prefix fronts (prefix_append _ _) with short | long
    · exact absurd (short.isInfix.trans gapBefore) missing
    · obtain ⟨border, frontEq⟩ := long
      by_cases empty : border = []
      · have whole : front = gap := by rw [← frontEq, empty, append_nil]
        exact absurd (whole ▸ gapBefore) missing
      · by_cases proper : border = front
        · have lengths := congrArg List.length frontEq
          rw [proper, length_append] at lengths
          rw [beforeEq, length_append]
          omega
        · -- the end of the word behind the gap is a border of it
          have borders : border ++ tail = front ++ after := by
            rw [← frontEq, append_assoc] at gapEq
            have cut := append_cancel_left gapEq
            rw [cut, frontEq]
          have shorter : border.length ≤ front.length := by
            rw [← frontEq, length_append]
            exact Nat.le_add_left _ _
          have member : border ∈ front.tails := (mem_tails _ _).mpr ⟨gap, frontEq⟩
          have prefixes : border <+: front ++ after := ⟨tail, borders⟩
          have begins := prefix_of_prefix_length_le prefixes (prefix_append _ _) shorter
          exact absurd begins (borderless border member empty proper)

/-- A pattern is found where a part of it at its front stands, when that part does
not overlap itself and does not stand in the text before. -/
theorem find_at (others after : List α)
    (borderless : ∀ tail ∈ front.tails, tail ≠ [] → tail ≠ front → ¬ tail <+: front)
    (missing : ¬ front <:+: before) :
    find (front ++ others) (before ++ (front ++ others) ++ after) = some (before, after) := by
  cases found : find (front ++ others) (before ++ (front ++ others) ++ after) with
  | none =>
    have occurs : front ++ others <:+: before ++ (front ++ others) ++ after := ⟨before, after, rfl⟩
    exact absurd occurs (find_eq_none_iff.mp found)
  | some parts =>
    obtain ⟨lead, tail⟩ := parts
    have cut := find_eq_some found
    have early : lead.length ≤ before.length := find_first found rfl
    have late : before.length ≤ lead.length := by
      have shared : before ++ (front ++ (others ++ after)) = lead ++ (front ++ (others ++ tail)) := by
        simpa only [append_assoc] using cut
      exact not_earlier borderless missing shared
    have same : before ++ (front ++ others ++ after) = lead ++ (front ++ others ++ tail) := by
      simpa only [append_assoc] using cut
    obtain ⟨leadEq, tailEq⟩ := append_inj same (Nat.le_antisymm late early)
    rw [← leadEq, append_cancel_left tailEq]

end Library
