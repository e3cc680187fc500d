import Asterel.Library.Text

/-!
# The letters of a text

A fold keeps some characters as letters, in a form of its own, and drops the others. The
spelling of a text has its letters in order, with one blank between letters that were not next
to each other.
-/

namespace Library.Spelling

open List

/-- The letters so far, and whether a character was dropped behind the last one. -/
def spellStep (fold : Char → Option Char) (state : List Char × Bool) (char : Char) :
    List Char × Bool :=
  match fold char with
  | some letter =>
    (state.1 ++ (if state.2 && !state.1.isEmpty then [' '] else []) ++ [letter], false)
  | none => (state.1, state.2 || !state.1.isEmpty)

def spell (fold : Char → Option Char) (text : List Char) : List Char :=
  (text.foldl (spellStep fold) ([], false)).1

variable {fold again : Char → Option Char}

theorem spellStep_some {state : List Char × Bool} {char letter : Char} (kept : fold char = some letter) :
    spellStep fold state char =
      (state.1 ++ (if state.2 && !state.1.isEmpty then [' '] else []) ++ [letter], false) := by
  rw [spellStep, kept]

theorem spellStep_none {state : List Char × Bool} {char : Char} (dropped : fold char = none) :
    spellStep fold state char = (state.1, state.2 || !state.1.isEmpty) := by
  rw [spellStep, dropped]

theorem foldl_dropped {tail : List Char} (dropped : ∀ char ∈ tail, fold char = none)
    (state : List Char × Bool) :
    (tail.foldl (spellStep fold) state).1 = state.1 ∧
      (state = ([], false) → tail.foldl (spellStep fold) state = ([], false)) := by
  induction tail generalizing state with
  | nil => exact ⟨rfl, id⟩
  | cons char tail ih =>
    obtain ⟨result, start⟩ := ih
      (fun other member => dropped other (mem_cons_of_mem char member)) (spellStep fold state char)
    rw [foldl_cons]
    have step : spellStep fold state char = (state.1, state.2 || !state.1.isEmpty) :=
      spellStep_none (dropped char mem_cons_self)
    rw [step] at result start
    rw [step]
    exact ⟨result, fun same => start (by rw [same]; rfl)⟩

/-- White space around a text does not count. -/
theorem spell_trim (white : ∀ char, Text.isWhitespace char = true → fold char = none)
    (text : List Char) : spell fold (Text.trim text) = spell fold text := by
  obtain ⟨back, blank, split⟩ := Text.trim_parts text
  conv_rhs => rw [split, spell, foldl_append, foldl_append]
  have front : ∀ char ∈ text.takeWhile Text.isWhitespace, fold char = none := fun char member =>
    white char (mem_takeWhile_imp member)
  rw [(foldl_dropped front ([], false)).2 rfl,
    (foldl_dropped (fun char member => white char (blank char member)) _).1]
  rfl

theorem spell_congr {other : Char → Option Char} {text : List Char}
    (same : ∀ char ∈ text, fold char = other char) : spell fold text = spell other text := by
  unfold spell
  congr 1
  apply foldl_ext
  intro state char member
  rw [spellStep, spellStep, same char member]

/-- What the second spelling has read of the first one, while both folds at once have read the
text. A blank that is due in the first spelling is still to come. -/
structure InStep (first second both : List Char × Bool) : Prop where
  result : both.1 = second.1
  due : both.2 = (second.2 || (first.2 && !second.1.isEmpty))
  begun : first.1.isEmpty = true → second.1.isEmpty = true

theorem inStep (blank : again ' ' = none) (text : List Char) :
    InStep (text.foldl (spellStep fold) ([], false))
      ((spell fold text).foldl (spellStep again) ([], false))
      (text.foldl (spellStep fun char => (fold char).bind again) ([], false)) := by
  unfold spell
  induction text using reverseRecOn with
  | nil => exact ⟨rfl, rfl, fun _ => rfl⟩
  | append_singleton text char ih =>
    rw [foldl_append, foldl_append, foldl_cons, foldl_cons, foldl_nil, foldl_nil]
    revert ih
    generalize text.foldl (spellStep fold) ([], false) = first
    generalize text.foldl (spellStep fun char => (fold char).bind again) ([], false) = both
    intro ih
    obtain ⟨result, due, begun⟩ := ih
    cases kept : fold char with
    | none =>
      have dropped : (fold char).bind again = none := by rw [kept]; rfl
      rw [spellStep_none kept, spellStep_none dropped]
      refine ⟨result, ?_, begun⟩
      rw [due, result]
      revert begun
      generalize first.1.isEmpty = none_first
      generalize (first.1.foldl (spellStep again) ([], false)).1.isEmpty = none_second
      cases none_first <;> cases none_second <;> simp
    | some letter =>
      rw [spellStep_some kept, foldl_append, foldl_append, foldl_cons, foldl_nil]
      generalize first.1.foldl (spellStep again) ([], false) = second at result due begun
      -- Behind the blank that was due the second spelling is where both folds at once are.
      have caught : (if first.2 && !first.1.isEmpty then [' '] else []).foldl (spellStep again) second =
          both := by
        split
        · rename_i gap
          rw [Bool.and_eq_true] at gap
          rw [foldl_cons, foldl_nil, spellStep_none blank]
          refine Prod.ext result.symm (due.trans ?_).symm
          rw [gap.1, Bool.true_and]
        · rename_i noGap
          refine Prod.ext result.symm (due.trans ?_).symm
          revert noGap begun
          generalize first.1.isEmpty = noLetter
          generalize second.1.isEmpty = nothing
          cases first.2 <;> cases noLetter <;> cases nothing <;> simp
      have step : spellStep again both letter =
          spellStep (fun char => (fold char).bind again) both char := by
        rw [spellStep, spellStep, kept]
        rfl
      rw [caught, step]
      refine ⟨rfl, ?_, fun empty => ?_⟩
      · rw [Bool.false_and, Bool.or_false]
      · rw [List.isEmpty_iff] at empty
        exact absurd empty (append_ne_nil_of_right_ne_nil _ (cons_ne_nil letter []))

theorem spell_spell (blank : again ' ' = none) (text : List Char) :
    spell again (spell fold text) = spell (fun char => (fold char).bind again) text :=
  (inStep blank text).result.symm

end Library.Spelling
