import Asterel.Memory.EntityResolution

/-!
# Names and aliases under resolution

Two entities match when two of their names are close in the form that only ASCII letters and
digits make. Merging keeps one text of each form, besides the longer of the two names.
-/

namespace Asterel.EntityResolver

open Library Library.Lines List Text Spelling

section Forms

theorem asciiLetter_white (char : Char) (white : isWhitespace char = true) :
    asciiLetter char = none := by
  rw [asciiLetter, if_neg]
  intro letter
  rw [isWhitespace_of_isAlphanum letter] at white
  cases white

theorem normalize_trim (value : Chars) : normalize (trim value) = normalize value :=
  spell_trim asciiLetter_white value

/-- A text that is not blank has the form. -/
def Spelled (texts : List Chars) (form : Chars) : Prop :=
  ∃ value ∈ texts, visible value = true ∧ normalize value = form

theorem visible_trim (value : Chars) : visible (trim value) = visible value := by
  rw [visible, trim_trim, visible]

theorem mem_dedupeStrings {texts : List Chars} {value : Chars} (member : value ∈ dedupeStrings texts) :
    visible value = true ∧ ∃ source ∈ texts, trim source = value := by
  obtain ⟨listed, shown⟩ := mem_filter.mp (mem_of_mem_dedupeBy member)
  obtain ⟨source, among, rfl⟩ := mem_map.mp listed
  refine ⟨?_, source, among, rfl⟩
  rw [visible_trim]
  exact shown

theorem spelled_dedupeStrings (texts : List Chars) (form : Chars) :
    (∃ value ∈ dedupeStrings texts, normalize value = form) ↔ Spelled texts form := by
  constructor
  · rintro ⟨value, member, rfl⟩
    obtain ⟨shown, source, among, rfl⟩ := mem_dedupeStrings member
    refine ⟨source, among, ?_, (normalize_trim source).symm⟩
    rwa [visible_trim] at shown
  · rintro ⟨value, member, shown, rfl⟩
    have listed : trim value ∈ (texts.map trim).filter fun trimmed => !trimmed.isEmpty :=
      mem_filter.mpr ⟨mem_map_of_mem member, shown⟩
    have fresh : normalize (trim value) ∉ ([] : List Chars) := not_mem_nil
    obtain ⟨kept, among, same⟩ := exists_mem_dedupeBy listed fresh
    exact ⟨kept, among, same.trans (normalize_trim value)⟩

/-- What has been deduplicated before may as well not have been. -/
theorem dedupeStrings_append (front back : List Chars) :
    dedupeStrings (dedupeStrings front ++ dedupeStrings back) = dedupeStrings (front ++ back) := by
  have trimmed : ∀ texts : List Chars,
      ((dedupeStrings texts).map trim).filter (fun trimmed => !trimmed.isEmpty) =
        dedupeStrings texts := by
    intro texts
    have same : (dedupeStrings texts).map trim = dedupeStrings texts := by
      conv_rhs => rw [← map_id (dedupeStrings texts)]
      apply map_congr_left
      intro value member
      obtain ⟨_, source, _, rfl⟩ := mem_dedupeStrings member
      exact trim_trim source
    rw [same]
    apply filter_eq_self.mpr
    intro value member
    obtain ⟨shown, source, _, rfl⟩ := mem_dedupeStrings member
    rwa [visible, trim_trim] at shown
  rw [dedupeStrings, map_append, filter_append, trimmed, trimmed]
  unfold dedupeStrings
  rw [dedupeBy_dedupeBy_append (fun _ among => absurd among not_mem_nil),
    dedupeBy_append_dedupeBy, map_append, filter_append]

theorem mergeEntities_aliases (canonical candidate : ExtractedEntity) :
    (mergeEntities canonical candidate).aliases = dedupeStrings
      (preferredName canonical.canonicalName candidate.canonicalName :: canonical.aliases ++
        candidate.values) :=
  dedupeStrings_append _ _

/-- What is kept is the first text of its form that is not blank. -/
theorem mem_dedupeStrings_iff {texts : List Chars} {value : Chars} :
    value ∈ dedupeStrings texts ↔ ∃ front source back, texts = front ++ source :: back ∧
      trim source = value ∧ visible source = true ∧
      ∀ other ∈ front, visible other = true → normalize other ≠ normalize source := by
  rw [dedupeStrings, mem_dedupeBy, filter_map]
  constructor
  · rintro ⟨_, front, back, split, before⟩
    obtain ⟨kept, rest, whole, sameFront, tail⟩ := map_eq_append_iff.mp split
    obtain ⟨source, others, rfl, same, _⟩ := map_eq_cons_iff.mp tail
    obtain ⟨first, second, rfl, filtered, behind⟩ := filter_eq_append_iff.mp whole
    obtain ⟨skipped, back, rfl, hidden, shown, _⟩ := filter_eq_cons_iff.mp behind
    refine ⟨first ++ skipped, source, back, (append_assoc ..).symm, same, shown, ?_⟩
    intro other member otherShown
    rcases mem_append.mp member with early | late
    · have listed : trim other ∈ front := by
        rw [← sameFront, ← filtered]
        exact mem_map_of_mem (mem_filter.mpr ⟨early, otherShown⟩)
      have different := before _ listed
      rwa [← same, normalize_trim, normalize_trim] at different
    · exact absurd otherShown (hidden other late)
  · rintro ⟨front, source, back, rfl, rfl, shown, before⟩
    refine ⟨not_mem_nil, (front.filter visible).map trim, (back.filter visible).map trim, ?_, ?_⟩
    · have test : ((fun trimmed : Chars => !trimmed.isEmpty) ∘ trim) = visible := rfl
      rw [test, filter_append, map_append, filter_cons_of_pos shown, map_cons]
    · intro other member
      obtain ⟨origin, among, rfl⟩ := mem_map.mp member
      obtain ⟨listed, originShown⟩ := mem_filter.mp among
      rw [normalize_trim, normalize_trim]
      exact before origin listed originShown

theorem preferredName_cases (current candidate : Chars) :
    preferredName current candidate = current ∨ preferredName current candidate = candidate := by
  unfold preferredName longer
  split
  · exact Or.inr rfl
  · exact Or.inl rfl

end Forms

/-- How the letters and digits of all scripts are compared: without regard to case. ASCII
characters are folded as the code folds them, and no other character becomes one of them. -/
structure Letters where
  fold : Char → Option Char
  ascii : ∀ char, char.toNat < 128 → fold char = asciiLetter char
  white : ∀ char, isWhitespace char = true → fold char = none
  apart : ∀ char letter, 128 ≤ char.toNat → fold char = some letter → 128 ≤ letter.toNat

namespace Letters

variable (letters : Letters)

/-- A text up to letter case and punctuation. -/
def form (value : Chars) : Chars := spell letters.fold value

theorem form_trim (value : Chars) : letters.form (trim value) = letters.form value :=
  spell_trim letters.white value

theorem asciiLetter_of_high {char : Char} (high : 128 ≤ char.toNat) : asciiLetter char = none := by
  rw [asciiLetter, if_neg]
  intro plain
  exact absurd (toNat_lt_of_isAlphanum plain) (Nat.not_lt_of_ge high)

theorem asciiLetter_again : ∀ code : Fin 128,
    (asciiLetter (Char.ofNat code)).bind asciiLetter = asciiLetter (Char.ofNat code) := by
  decide

/-- Texts that are equal up to case and punctuation have the same ASCII form. -/
theorem normalize_form (value : Chars) : normalize (letters.form value) = normalize value := by
  have blank : asciiLetter ' ' = none := by decide
  rw [normalize, form, spell_spell blank]
  apply spell_congr
  intro char _
  rcases Nat.lt_or_ge char.toNat 128 with low | high
  · have checked := asciiLetter_again ⟨char.toNat, low⟩
    rw [Char.ofNat_toNat] at checked
    rw [letters.ascii char low]
    exact checked
  · rw [asciiLetter_of_high high]
    cases folded : letters.fold char with
    | none => rfl
    | some letter => exact asciiLetter_of_high (letters.apart char letter high folded)

/-- Every character beyond ASCII that is not white space is a letter of its own. -/
def exact : Letters where
  fold := fun char =>
    if char.toNat < 128 then asciiLetter char else if isWhitespace char then none else some char
  ascii := fun _ low => if_pos low
  white := fun char white => by
    split
    · exact asciiLetter_white char white
    · rfl
  apart := fun char letter high folded => by
    rw [if_neg (Nat.not_lt_of_ge high)] at folded
    split at folded
    · cases folded
    · cases folded
      exact high

end Letters

end Asterel.EntityResolver
