import Mathlib.Data.List.Infix

/-!
# Texts with the same words

Some symbols separate words. Where only separators are changed, and at least one of them
is left between two words, the same words stand in a text as before. Whether that is so is
read off from left to right: for every beginning of a word it matters that it stands at the
beginning of the text, and for the other words only that they stand somewhere.
-/

namespace Library

open List

universe u

variable {α : Type u} {separates : α → Prop} {text other third : List α} {symbol : α}

/-- The same words without separators stand in two texts. -/
def SameInside (separates : α → Prop) (text other : List α) : Prop :=
  ∀ word : List α, (∀ symbol ∈ word, ¬ separates symbol) → (word <:+: text ↔ word <:+: other)

/-- The same words stand in two texts and at their beginnings. -/
structure SameWords (separates : α → Prop) (text other : List α) : Prop where
  front : ∀ word : List α, (∀ symbol ∈ word, ¬ separates symbol) → (word <+: text ↔ word <+: other)
  inside : SameInside separates text other

/-- A text that begins with no word. -/
def NoWordBegins (separates : α → Prop) (text : List α) : Prop := ∀ symbol ∈ text.head?, separates symbol

theorem SameInside.symm (same : SameInside separates text other) : SameInside separates other text :=
  fun word solid => (same word solid).symm

theorem SameInside.trans (same : SameInside separates text other)
    (same' : SameInside separates other third) : SameInside separates text third :=
  fun word solid => (same word solid).trans (same' word solid)

theorem SameWords.refl (text : List α) : SameWords separates text text :=
  ⟨fun _ _ => Iff.rfl, fun _ _ => Iff.rfl⟩

/-- Only the empty word begins where no word begins. -/
theorem NoWordBegins.prefix_iff (begins : NoWordBegins separates text) {word : List α}
    (solid : ∀ symbol ∈ word, ¬ separates symbol) : word <+: text ↔ word = [] := by
  constructor
  · rintro ⟨rest, rfl⟩
    cases word with
    | nil => rfl
    | cons symbol word =>
      exact absurd (begins symbol rfl) (solid symbol mem_cons_self)
  · rintro rfl
    exact nil_prefix

/-- A separator in front of a text adds no word. -/
theorem SameInside.separator (separator : separates symbol) (text : List α) :
    SameInside separates (symbol :: text) text := by
  intro word solid
  have begins : NoWordBegins separates (symbol :: text) := by
    rintro _ ⟨⟩
    exact separator
  rw [infix_cons_iff, begins.prefix_iff solid]
  refine or_iff_right_of_imp ?_
  rintro rfl
  exact nil_infix

/-- Where no word begins in either text, only the words inside matter. -/
theorem SameInside.sameWords (same : SameInside separates text other) (begins : NoWordBegins separates text)
    (begins' : NoWordBegins separates other) : SameWords separates text other :=
  ⟨fun _ solid => (begins.prefix_iff solid).trans (begins'.prefix_iff solid).symm, same⟩

/-- The same symbol in front of texts with the same words. -/
theorem SameWords.cons (same : SameWords separates text other) (symbol : α) :
    SameWords separates (symbol :: text) (symbol :: other) := by
  have front : ∀ word : List α, (∀ symbol ∈ word, ¬ separates symbol) →
      (word <+: symbol :: text ↔ word <+: symbol :: other) := by
    intro word solid
    cases word with
    | nil => exact iff_of_true nil_prefix nil_prefix
    | cons first word =>
      rw [cons_prefix_cons, cons_prefix_cons,
        same.front word fun symbol member => solid symbol (mem_cons_of_mem _ member)]
  refine ⟨front, fun word solid => ?_⟩
  rw [infix_cons_iff, infix_cons_iff, front word solid, same.inside word solid]

/-- Separators in front of a text add no word. -/
theorem SameInside.prepend {before : List α} (leading : ∀ symbol ∈ before, separates symbol)
    (text : List α) : SameInside separates (before ++ text) text := by
  induction before with
  | nil => exact (SameWords.refl text).inside
  | cons symbol before ih =>
    exact (SameInside.separator (leading symbol mem_cons_self) _).trans
      (ih fun symbol member => leading symbol (mem_cons_of_mem _ member))

/-- Separators behind a text add no word. -/
theorem SameWords.append {after : List α} (trailing : ∀ symbol ∈ after, separates symbol)
    (text : List α) : SameWords separates (text ++ after) text := by
  induction text with
  | nil =>
    have nothing : SameInside separates after [] := by
      simpa using SameInside.prepend trailing []
    refine nothing.sameWords (fun symbol member => trailing symbol (mem_of_mem_head? member)) ?_
    rintro _ ⟨⟩
  | cons symbol text ih => exact ih.cons symbol

end Library
