import Mathlib.Data.List.DropRight

/-!
# Streaks at the end of a sequence

A streak counts the last positions at which a condition holds without a gap. A condition
that looks back a bounded number of positions is decided by the end of the sequence, so a
window that keeps the end is enough to count the streak step by step.
-/

namespace Library.Streak

open List

variable {α : Type} {holds other : Nat → Prop} [DecidablePred holds] [DecidablePred other]

/-- How many of the first `length` positions lie in the unbroken run at their end. -/
def trailing (holds : Nat → Prop) [DecidablePred holds] : Nat → Nat
  | 0 => 0
  | position + 1 => if holds position then trailing holds position + 1 else 0

theorem trailing_congr {length : Nat}
    (same : ∀ position < length, holds position ↔ other position) :
    trailing holds length = trailing other length := by
  induction length with
  | zero => rfl
  | succ position ih =>
    have before : trailing holds position = trailing other position :=
      ih fun earlier bound => same earlier (by omega)
    simp only [trailing, before, same position (by omega)]

/-- A condition that holds from some position on has a streak at least that long. -/
theorem le_trailing {start length : Nat}
    (every : ∀ position < length, start ≤ position → holds position) :
    length - start ≤ trailing holds length := by
  induction length with
  | zero => simp
  | succ position ih =>
    by_cases reached : start ≤ position
    · have before : position - start ≤ trailing holds position :=
        ih fun earlier bound => every earlier (by omega)
      rw [trailing, if_pos (every position (by omega) reached)]
      omega
    · omega

theorem length_rtake (items : List α) (size : Nat) :
    (items.rtake size).length = min size items.length := by
  rw [rtake, length_drop]
  omega

/-- The end of a sequence, read from behind, is the end of its window. -/
theorem rtake_getElem? {items : List α} {size back : Nat} (kept : back ≤ size)
    (inside : back ≤ items.length) :
    (items.rtake size)[(items.rtake size).length - back]? = items[items.length - back]? := by
  rw [length_rtake, rtake, List.getElem?_drop]
  congr 1
  omega

/-- A window of a longer sequence is the window of the old window and the new item. -/
theorem rtake_concat (items : List α) (item : α) (size : Nat) :
    (items.rtake size ++ [item]).rtake size = (items ++ [item]).rtake size := by
  cases size with
  | zero => simp
  | succ size =>
    rw [rtake_concat_succ, rtake_concat_succ]
    congr 1
    rw [rtake, rtake, rtake, length_drop, drop_drop]
    congr 1
    omega

end Library.Streak
