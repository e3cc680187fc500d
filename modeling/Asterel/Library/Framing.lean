import Mathlib.Data.List.Infix

/-!
# Reading frames from a text that arrives in chunks

A framer cuts the first frame off a text. It has a frame only if the frame is whole,
so text that comes later does not change it. A reader that keeps what is no frame yet
and adds the next chunk to it then reads the same frames however the text is cut.
-/

namespace Library

open List

universe u

/-- A cut of the first frame off a text, which text behind it does not change. -/
structure Framer (α : Type u) where
  cut : List α → Option (List α × List α)
  splits : ∀ {text frame rest : List α}, cut text = some (frame, rest) →
    frame ≠ [] ∧ text = frame ++ rest
  stable : ∀ {text frame rest : List α} (more : List α), cut text = some (frame, rest) →
    cut (text ++ more) = some (frame, rest ++ more)

namespace Framer

variable {α : Type u} (framer : Framer α)
variable {frame rest text : List α}

/-- At most a number of frames, and the text behind them. -/
def take : Nat → List α → List (List α) × List α
  | 0, text => ([], text)
  | count + 1, text =>
    match framer.cut text with
    | none => ([], text)
    | some (frame, rest) => (frame :: (take count rest).1, (take count rest).2)

/-- All frames of a text, and the text behind them. -/
def drain (text : List α) : List (List α) × List α := framer.take text.length text

/-- The frames read from a text that arrives in chunks, and what is left of it. -/
def feed : List α → List (List α) → List (List α) × List α
  | buffer, [] => ([], buffer)
  | buffer, chunk :: chunks =>
    let drained := framer.drain (buffer ++ chunk)
    let later := feed drained.2 chunks
    (drained.1 ++ later.1, later.2)

variable {framer}

theorem take_none (stopped : framer.cut text = none) (count : Nat) :
    framer.take count text = ([], text) := by
  cases count with
  | zero => rfl
  | succ count => rw [take, stopped]

theorem cut_nil : framer.cut [] = none := by
  cases cut : framer.cut [] with
  | none => rfl
  | some parts =>
    obtain ⟨some, whole⟩ := framer.splits cut
    exact absurd (append_eq_nil_iff.mp whole.symm).1 some

theorem length_rest (cut : framer.cut text = some (frame, rest)) :
    rest.length < text.length := by
  obtain ⟨some, whole⟩ := framer.splits cut
  have positive := length_pos_of_ne_nil some
  rw [whole, length_append]
  omega

/-- A text has at most as many frames as symbols. -/
theorem take_enough {first second : Nat} (enough : text.length ≤ first)
    (alsoEnough : text.length ≤ second) : framer.take first text = framer.take second text := by
  induction first generalizing text second with
  | zero =>
    have empty : text = [] := eq_nil_of_length_eq_zero (by omega)
    rw [empty, take_none cut_nil, take_none cut_nil]
  | succ first ih =>
    cases second with
    | zero =>
      have empty : text = [] := eq_nil_of_length_eq_zero (by omega)
      rw [empty, take_none cut_nil, take_none cut_nil]
    | succ second =>
      rw [take, take]
      cases cut : framer.cut text with
      | none => rfl
      | some parts =>
        obtain ⟨frame, rest⟩ := parts
        have shorter := length_rest cut
        have same : framer.take first rest = framer.take second rest :=
          ih (by omega) (by omega)
        simp only [same]

theorem drain_none (stopped : framer.cut text = none) :
    framer.drain text = ([], text) := take_none stopped _

theorem drain_some (cut : framer.cut text = some (frame, rest)) :
    framer.drain text = (frame :: (framer.drain rest).1, (framer.drain rest).2) := by
  have shorter := length_rest cut
  rw [drain]
  cases length : text.length with
  | zero => omega
  | succ count =>
    have enough : framer.take count rest = framer.drain rest :=
      take_enough (by omega) (Nat.le_refl _)
    rw [take, cut]
    simp only [enough]

/-- The induction over the frames of a text. -/
theorem drain_induction {motive : List α → Prop}
    (stopped : ∀ text, framer.cut text = none → motive text)
    (frame : ∀ text frame rest, framer.cut text = some (frame, rest) → motive rest → motive text)
    (text : List α) : motive text := by
  generalize length : text.length = size
  induction size using Nat.strongRecOn generalizing text with
  | ind size ih =>
    cases cut : framer.cut text with
    | none => exact stopped text cut
    | some parts =>
      have shorter := length_rest cut
      exact frame text parts.1 parts.2 cut
        (ih parts.2.length (by omega) parts.2 rfl)

/-- What is left has no frame. -/
theorem cut_drain (text : List α) : framer.cut (framer.drain text).2 = none := by
  induction text using framer.drain_induction with
  | stopped text stopped => rwa [drain_none stopped]
  | frame text frame rest cut ih => rwa [drain_some cut]

/-- The frames and what is left are the text. -/
theorem drain_flatten (text : List α) :
    (framer.drain text).1.flatten ++ (framer.drain text).2 = text := by
  induction text using framer.drain_induction with
  | stopped text stopped =>
    rw [drain_none stopped]
    rfl
  | frame text frame rest cut ih =>
    rw [drain_some cut, flatten_cons, append_assoc, ih]
    exact (framer.splits cut).2.symm

/-- The frames of a text are read before what comes behind it. -/
theorem drain_append (text more : List α) :
    framer.drain (text ++ more) =
      ((framer.drain text).1 ++ (framer.drain ((framer.drain text).2 ++ more)).1,
        (framer.drain ((framer.drain text).2 ++ more)).2) := by
  induction text using framer.drain_induction with
  | stopped text stopped =>
    rw [drain_none stopped]
    rfl
  | frame text frame rest cut ih =>
    rw [drain_some (framer.stable more cut), drain_some cut, ih]
    rfl

/-- A reader of chunks reads the frames of the whole text. -/
theorem feed_eq_drain {buffer : List α} (stopped : framer.cut buffer = none)
    (chunks : List (List α)) : framer.feed buffer chunks = framer.drain (buffer ++ chunks.flatten) := by
  induction chunks generalizing buffer with
  | nil => rw [feed, flatten_nil, append_nil, drain_none stopped]
  | cons chunk chunks ih =>
    rw [feed, ih (cut_drain _), flatten_cons, ← append_assoc, drain_append (buffer ++ chunk)]

end Framer

end Library
