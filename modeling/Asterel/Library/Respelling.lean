import Mathlib.Data.List.Infix
import Mathlib.Logic.Relation

/-!
# Respelled lists

A list is respelled symbol by symbol: each one is kept or replaced by a spelling of
it, and words that stand for nothing are put in between. What such a list shows of a
pattern that no spelling takes part in stood in the list before.
-/

namespace Library

open List

universe u

variable {α : Type u}

/-- The second list respells the first one. -/
inductive Respelled (spells : α → List α → Prop) (silent : List α → Prop) :
    List α → List α → Prop where
  | done : Respelled spells silent [] []
  | kept (symbol : α) {plain text : List α} (rest : Respelled spells silent plain text) :
      Respelled spells silent (symbol :: plain) (symbol :: text)
  | spelled {symbol : α} {word plain text : List α} (spelling : spells symbol word)
      (rest : Respelled spells silent plain text) :
      Respelled spells silent (symbol :: plain) (word ++ text)
  | inserted {word plain text : List α} (unsaid : silent word)
      (rest : Respelled spells silent plain text) : Respelled spells silent plain (word ++ text)

theorem Respelled.refl {spells : α → List α → Prop} {silent : List α → Prop} (text : List α) :
    Respelled spells silent text text := by
  induction text with
  | nil => exact .done
  | cons symbol text ih => exact .kept symbol ih

section Patterns

variable {spells : α → List α → Prop} {silent : List α → Prop} {front plain text : List α}
variable {word : List α} {mark : α} {within : α → Prop}

/-- A word that has to be left out of a pattern at its first symbol. -/
def Foreign (within : α → Prop) (word : List α) : Prop :=
  ∃ first, word.head? = some first ∧ ¬ within first

/-- A pattern is not begun by a foreign word. -/
theorem Foreign.not_begun {symbol : α} (foreign : Foreign within word) (only : within symbol)
    (begins : symbol :: front <+: word ++ text) : False := by
  obtain ⟨first, head, outside⟩ := foreign
  cases word with
  | nil => cases head
  | cons other word =>
    obtain ⟨same, _⟩ := cons_prefix_cons.mp begins
    cases head
    exact outside (same ▸ only)

/-- What a respelled list begins with stood there before, if all words are foreign to it. -/
theorem Respelled.prefix_of_prefix
    (spelledForeign : ∀ symbol word, spells symbol word → Foreign within word)
    (silentForeign : ∀ word, silent word → Foreign within word)
    (respelled : Respelled spells silent plain text) (only : ∀ symbol ∈ front, within symbol)
    (begins : front <+: text) : front <+: plain := by
  induction front generalizing plain text with
  | nil => exact nil_prefix
  | cons symbol front ih =>
    obtain ⟨first, others⟩ := forall_mem_cons.mp only
    cases respelled with
    | done => exact begins
    | kept _ rest =>
      obtain ⟨same, behind⟩ := cons_prefix_cons.mp begins
      exact cons_prefix_cons.mpr ⟨same, ih rest others behind⟩
    | spelled spelling rest =>
      exact ((spelledForeign _ _ spelling).not_begun first begins).elim
    | inserted unsaid rest =>
      exact ((silentForeign _ unsaid).not_begun first begins).elim

/-- An occurrence begins behind a word that its first symbol is not in. -/
theorem infix_behind (absent : mark ∉ word)
    (within : mark :: front <:+: word ++ text) : mark :: front <:+: text := by
  induction word with
  | nil => exact within
  | cons symbol word ih =>
    have different := ne_of_not_mem_cons absent
    rcases infix_cons_iff.mp within with begins | later
    · exact absurd (cons_prefix_cons.mp begins).1 different
    · exact ih (not_mem_of_not_mem_cons absent) later

/-- An occurrence in a respelled list was there before, if its first symbol is in no word
and all words are foreign to the rest of it. -/
theorem Respelled.infix_of_infix
    (spelledForeign : ∀ symbol word, spells symbol word → mark ∉ word ∧ Foreign within word)
    (silentForeign : ∀ word, silent word → mark ∉ word ∧ Foreign within word)
    (respelled : Respelled spells silent plain text) (only : ∀ symbol ∈ front, within symbol)
    (occurs : mark :: front <:+: text) : mark :: front <:+: plain := by
  induction respelled with
  | done => exact occurs
  | kept symbol rest ih =>
    rcases infix_cons_iff.mp occurs with begins | later
    · obtain ⟨same, behind⟩ := cons_prefix_cons.mp begins
      have before := rest.prefix_of_prefix (fun symbol word spelling =>
        (spelledForeign symbol word spelling).2) (fun word unsaid => (silentForeign word unsaid).2)
        only behind
      exact (cons_prefix_cons.mpr ⟨same, before⟩).isInfix
    · exact infix_cons (ih later)
  | spelled spelling rest ih =>
    exact infix_cons
      (ih (infix_behind (spelledForeign _ _ spelling).1 occurs))
  | inserted unsaid rest ih =>
    exact ih (infix_behind (silentForeign _ unsaid).1 occurs)

end Patterns

section Steps

variable {spells : α → List α → Prop} {silent : List α → Prop} {plain text : List α}

/-- A respelled list is reached by steps each of which respells one symbol. -/
theorem Respelled.steps {step : List α → List α → Prop}
    (spell : ∀ before after symbol word, spells symbol word →
      Relation.ReflTransGen step (before ++ symbol :: after) (before ++ word ++ after))
    (insert : ∀ before after word, silent word →
      Relation.ReflTransGen step (before ++ after) (before ++ word ++ after))
    (respelled : Respelled spells silent plain text) (before : List α) :
    Relation.ReflTransGen step (before ++ plain) (before ++ text) := by
  induction respelled generalizing before with
  | done => exact .refl
  | kept symbol rest ih =>
    have later := ih (before ++ [symbol])
    rwa [append_assoc, append_assoc] at later
  | @spelled symbol word _ _ spelling rest ih =>
    have later := ih (before ++ word)
    rw [← append_assoc]
    exact (spell before _ _ _ spelling).trans later
  | @inserted word _ _ unsaid rest ih =>
    have later := ih (before ++ word)
    rw [← append_assoc]
    exact (insert before _ _ unsaid).trans later

end Steps

end Library
