import Asterel.Library.Search

/-!
# Removing marks from a text

A mark is a text between two delimiters that do not stand in it, so two marks of a text
never overlap. The marks of a text are removed in one reading from the left to the right.
A mark stands in the text that remains exactly if the first text has an interrupted mark,
one with whole marks between its symbols.
-/

namespace Library

open List

universe u

variable {α : Type u}

/-- What marks look like: their two delimiters, and what stands between. -/
structure MarkShape (α : Type u) where
  opening : α
  closing : α
  Body : List α → Prop
  apart : opening ≠ closing
  opening_notMem : ∀ {body}, Body body → opening ∉ body
  closing_notMem : ∀ {body}, Body body → closing ∉ body

namespace MarkShape

variable (shape : MarkShape α) {text other body plain rest out front back : List α} {symbol : α}

def Mark (part : List α) : Prop :=
  ∃ body, shape.Body body ∧ part = shape.opening :: (body ++ [shape.closing])

/-- The text begins with a mark. -/
def Begins (text : List α) : Prop :=
  ∃ body rest, shape.Body body ∧ text = shape.opening :: (body ++ shape.closing :: rest)

/-- What remains when the marks of a text are removed from the left to the right. -/
inductive Removed : List α → List α → Prop
  | nil : Removed [] []
  | mark {body rest out : List α} (isBody : shape.Body body) (later : Removed rest out) :
      Removed (shape.opening :: (body ++ shape.closing :: rest)) out
  | keep {symbol : α} {rest out : List α} (begins : ¬ shape.Begins (symbol :: rest))
      (later : Removed rest out) : Removed (symbol :: rest) (symbol :: out)

/-- The second text is the first one with marks between its symbols, in front of them and
behind them. -/
inductive Spread : List α → List α → Prop
  | nil : Spread [] []
  | mark {body plain text : List α} (isBody : shape.Body body) (later : Spread plain text) :
      Spread plain (shape.opening :: (body ++ shape.closing :: text))
  | symbol (symbol : α) {plain text : List α} (later : Spread plain text) :
      Spread (symbol :: plain) (symbol :: text)

/-- A mark with at least one other mark between its delimiters. -/
def Interrupted (part : List α) : Prop :=
  ∃ body text, shape.Body body ∧ shape.Spread body text ∧ text ≠ body ∧
    part = shape.opening :: (text ++ [shape.closing])

/-! ## Reading a text -/

variable {shape}

/-- Two symbols that cut one text are the same if neither stands in front of the other. -/
theorem cut_unique {first second : α} (absent : first ∉ other) (absent' : second ∉ front)
    (same : front ++ first :: back = other ++ second :: rest) :
    front = other ∧ first = second ∧ back = rest := by
  induction front generalizing other with
  | nil =>
    cases other with
    | nil => exact ⟨rfl, (List.cons.inj same).1, (List.cons.inj same).2⟩
    | cons symbol other => exact absurd ((List.cons.inj same).1 ▸ mem_cons_self) absent
  | cons symbol front ih =>
    cases other with
    | nil => exact absurd ((List.cons.inj same).1 ▸ mem_cons_self) absent'
    | cons symbol' other =>
      obtain ⟨heads, tails⟩ := List.cons.inj same
      obtain ⟨rfl, cut⟩ := ih (fun member => absent (mem_cons_of_mem _ member))
        (fun member => absent' (mem_cons_of_mem _ member)) tails
      exact ⟨by rw [heads], cut⟩

/-- A mark in front of a text, with its closing delimiter apart. -/
theorem mark_append (body rest : List α) :
    shape.opening :: (body ++ [shape.closing]) ++ rest =
      shape.opening :: (body ++ shape.closing :: rest) := by simp

theorem begins_iff : shape.Begins text ↔ ∃ part, shape.Mark part ∧ part <+: text := by
  constructor
  · rintro ⟨body, rest, isBody, rfl⟩
    exact ⟨_, ⟨body, isBody, rfl⟩, rest, mark_append body rest⟩
  · rintro ⟨_, ⟨body, isBody, rfl⟩, rest, rfl⟩
    exact ⟨body, rest, isBody, mark_append body rest⟩

theorem not_begins_of_ne (different : symbol ≠ shape.opening) : ¬ shape.Begins (symbol :: rest) := by
  rintro ⟨body, others, _, same⟩
  exact different (List.cons.inj same).1

/-- Some symbols of the plain text stand in front of the first mark. -/
theorem Spread.eq_or_opening (spread : shape.Spread plain text) :
    text = plain ∨ ∃ front back, text = front ++ shape.opening :: back ∧ front <+: plain := by
  induction spread with
  | nil => exact .inl rfl
  | mark isBody later => exact .inr ⟨[], _, rfl, nil_prefix⟩
  | symbol symbol later ih =>
    obtain same | ⟨front, back, split, inPlain⟩ := ih
    · exact .inl (by rw [same])
    · exact .inr ⟨symbol :: front, back, by rw [split, cons_append],
        cons_prefix_cons.mpr ⟨rfl, inPlain⟩⟩

/-- An interrupted mark is not read as a mark. -/
theorem not_begins_interrupted (isBody : shape.Body body) (spread : shape.Spread body text)
    (interrupted : text ≠ body) :
    ¬ shape.Begins (shape.opening :: (text ++ shape.closing :: rest)) := by
  rintro ⟨body', rest', isBody', same⟩
  obtain whole | ⟨front, back, split, inBody⟩ := spread.eq_or_opening
  · exact interrupted whole
  have noClosing : shape.closing ∉ front := fun member =>
    shape.closing_notMem isBody (inBody.subset member)
  have texts : body' ++ shape.closing :: rest' =
      front ++ shape.opening :: (back ++ shape.closing :: rest) := by
    have tails := (List.cons.inj same).2
    rw [split, append_assoc, cons_append] at tails
    exact tails.symm
  exact shape.apart (cut_unique noClosing (shape.opening_notMem isBody') texts).2.1.symm

/-! ## What the removal leaves -/

namespace Removed

theorem of_mark (isBody : shape.Body body)
    (removed : shape.Removed (shape.opening :: (body ++ shape.closing :: rest)) out) :
    shape.Removed rest out := by
  generalize whole : shape.opening :: (body ++ shape.closing :: rest) = text at removed
  cases removed with
  | nil => cases whole
  | mark isBody' later =>
    have parts := cut_unique (shape.closing_notMem isBody') (shape.closing_notMem isBody)
      (List.cons.inj whole).2
    exact parts.2.2 ▸ later
  | keep begins later => exact absurd ⟨body, rest, isBody, whole.symm⟩ begins

theorem of_kept (begins : ¬ shape.Begins (symbol :: rest))
    (removed : shape.Removed (symbol :: rest) out) :
    ∃ others, out = symbol :: others ∧ shape.Removed rest others := by
  generalize whole : symbol :: rest = text at removed
  cases removed with
  | nil => cases whole
  | mark isBody later => exact absurd ⟨_, _, isBody, whole⟩ begins
  | keep _ later =>
    cases whole
    exact ⟨_, rfl, later⟩

/-- A mark does not go on over an opening delimiter, so the text from there on is read by
itself. -/
theorem of_opening (removed : shape.Removed (front ++ shape.opening :: rest) out) :
    ∃ before after, out = before ++ after ∧ shape.Removed (shape.opening :: rest) after := by
  generalize whole : front ++ shape.opening :: rest = text at removed
  induction removed generalizing front with
  | nil => simp at whole
  | @mark body others out isBody later ih =>
    cases front with
    | nil =>
      have here := Removed.mark isBody later
      rw [← whole] at here
      exact ⟨[], out, rfl, here⟩
    | cons symbol front =>
      have absent : shape.opening ∉ body ++ [shape.closing] := by
        simp [shape.opening_notMem isBody, shape.apart]
      have tails : front ++ shape.opening :: rest = [] ++ (body ++ [shape.closing]) ++ others := by
        simpa using (List.cons.inj whole).2
      obtain ⟨gap, _, behind⟩ | ⟨gap, behind⟩ := occurs_beside absent tails
      · exact ih behind.symm
      · have lengths := congrArg List.length tails
        rw [behind] at lengths
        simp at lengths
        omega
  | @keep symbol others out begins later ih =>
    cases front with
    | nil =>
      have here := Removed.keep begins later
      rw [← whole] at here
      exact ⟨[], symbol :: out, rfl, here⟩
    | cons first front =>
      obtain ⟨before, after, split, onward⟩ := ih (List.cons.inj whole).2
      exact ⟨symbol :: before, after, by rw [split, cons_append], onward⟩

/-- Where a symbol that remains stood, and what stood in front of it. -/
theorem exists_kept (removed : shape.Removed text (front ++ symbol :: back)) :
    ∃ before rest, text = before ++ symbol :: rest ∧ shape.Spread front before ∧
      ¬ shape.Begins (symbol :: rest) ∧ shape.Removed rest back := by
  generalize whole : front ++ symbol :: back = out at removed
  induction removed generalizing front with
  | nil => simp at whole
  | mark isBody later ih =>
    obtain ⟨before, rest, split, spread, begins, onward⟩ := ih whole
    exact ⟨_, rest, by rw [split, ← mark_append, ← append_assoc, mark_append],
      .mark isBody spread, begins, onward⟩
  | @keep first others out begins later ih =>
    cases front with
    | nil =>
      cases whole
      exact ⟨[], others, rfl, .nil, begins, later⟩
    | cons kept front =>
      obtain ⟨same, tails⟩ := List.cons.inj whole
      obtain ⟨before, rest, split, spread, noMark, onward⟩ := ih tails
      exact ⟨first :: before, rest, by rw [split, cons_append], same ▸ .symbol first spread,
        noMark, onward⟩

/-- What remains of a text with marks between its symbols is this text. -/
theorem of_spread (spread : shape.Spread plain text) (absent : shape.opening ∉ plain)
    (different : symbol ≠ shape.opening) (removed : shape.Removed (text ++ symbol :: rest) out) :
    ∃ others, out = plain ++ symbol :: others := by
  induction spread generalizing out with
  | nil =>
    obtain ⟨others, same, _⟩ := removed.of_kept (not_begins_of_ne different)
    exact ⟨others, same⟩
  | mark isBody later ih =>
    refine ih absent (of_mark isBody ?_)
    simpa using removed
  | symbol first later ih =>
    obtain ⟨ne, absent⟩ : shape.opening ≠ first ∧ shape.opening ∉ _ := by
      simpa using absent
    obtain ⟨others, same, onward⟩ := removed.of_kept (not_begins_of_ne (Ne.symm ne))
    obtain ⟨rest, split⟩ := ih absent onward
    exact ⟨rest, by rw [same, split, cons_append]⟩

/-- A mark stands in what remains exactly if an interrupted one stood in the text. -/
theorem hasMark_iff (removed : shape.Removed text out) :
    (∃ part, shape.Mark part ∧ part <:+: out) ↔
      ∃ part, shape.Interrupted part ∧ part <:+: text := by
  constructor
  · rintro ⟨_, ⟨body, isBody, rfl⟩, front, back, rfl⟩
    have opened : front ++ shape.opening :: (body ++ [shape.closing]) ++ back =
        front ++ shape.opening :: (body ++ shape.closing :: back) := by simp
    rw [opened] at removed
    obtain ⟨before, _, split, _, begins, onward⟩ := removed.exists_kept
    obtain ⟨middle, rest, rfl, spread, _⟩ := onward.exists_kept
    refine ⟨shape.opening :: (middle ++ [shape.closing]), ⟨body, middle, isBody, spread, ?_, rfl⟩,
      before, rest, by rw [split]; simp⟩
    rintro rfl
    exact begins ⟨middle, rest, isBody, rfl⟩
  · rintro ⟨_, ⟨body, middle, isBody, spread, interrupted, rfl⟩, front, back, rfl⟩
    have opened : front ++ shape.opening :: (middle ++ [shape.closing]) ++ back =
        front ++ shape.opening :: (middle ++ shape.closing :: back) := by simp
    rw [opened] at removed
    obtain ⟨before, _, rfl, onward⟩ := removed.of_opening
    obtain ⟨_, rfl, remaining⟩ := onward.of_kept (not_begins_interrupted isBody spread interrupted)
    obtain ⟨after, rfl⟩ :=
      of_spread spread (shape.opening_notMem isBody) (Ne.symm shape.apart) remaining
    exact ⟨shape.opening :: (body ++ [shape.closing]), ⟨body, isBody, rfl⟩, before, after, by simp⟩

/-- A text without marks remains, and one with marks gets shorter. -/
theorem eq_or_length_lt (removed : shape.Removed text out) :
    (out = text ∧ ∀ part, shape.Mark part → ¬ part <:+: text) ∨
      (out.length < text.length ∧ ∃ part, shape.Mark part ∧ part <:+: text) := by
  induction removed with
  | nil =>
    refine .inl ⟨rfl, ?_⟩
    rintro _ ⟨body, _, rfl⟩ inText
    simp at inText
  | @mark body rest out isBody later ih =>
    have shorter : out.length ≤ rest.length := by
      obtain ⟨rfl, _⟩ | ⟨shorter, _⟩ := ih
      · exact Nat.le_refl _
      · exact Nat.le_of_lt shorter
    refine .inr ⟨?_, _, ⟨body, isBody, rfl⟩, [], rest, mark_append body rest⟩
    simp only [length_cons, length_append]
    omega
  | keep begins later ih =>
    obtain ⟨rfl, free⟩ | ⟨shorter, part, mark, inText⟩ := ih
    · refine .inl ⟨rfl, fun part mark inText => ?_⟩
      obtain front | later := infix_cons_iff.mp inText
      · exact begins (begins_iff.mpr ⟨part, mark, front⟩)
      · exact free part mark later
    · exact .inr ⟨Nat.succ_lt_succ shorter, part, mark, infix_cons inText⟩

end Removed

end MarkShape

end Library
