import Mathlib.Data.List.Basic

/-!
# Contests

Candidates come one after the other, and a candidate either replaces the incumbent or
is dropped. The rule need not be transitive. A champion, which replaces every other
candidate and is replaced by none, wins in every order; a candidate that a rival
replaces loses when the rival comes right behind it.
-/

namespace Library.Contest

open List

universe u v

variable {α : Type u} {β : Type v} (replaces : α → α → Bool)

/-- What is left of the incumbent and the one that comes. -/
def keepBetter (incumbent incoming : α) : α :=
  if replaces incoming incumbent then incoming else incumbent

def winner : List α → Option α
  | [] => none
  | first :: rest => some (rest.foldl (keepBetter replaces) first)

/-- Wins against every other candidate, whichever of the two comes first. -/
def Champion (champion : α) (candidates : List α) : Prop :=
  ∀ candidate ∈ candidates, candidate ≠ champion →
    replaces champion candidate = true ∧ replaces candidate champion = false

variable {replaces} {champion rival : α} {candidates others : List α}

theorem keepBetter_cases (replaces : α → α → Bool) (incumbent incoming : α) :
    keepBetter replaces incumbent incoming = incumbent ∨
      keepBetter replaces incumbent incoming = incoming := by
  rw [keepBetter]
  split
  · exact .inr rfl
  · exact .inl rfl

theorem foldl_mem (incumbent : α) (candidates : List α) :
    candidates.foldl (keepBetter replaces) incumbent ∈ incumbent :: candidates := by
  induction candidates generalizing incumbent with
  | nil => exact mem_singleton_self incumbent
  | cons first rest ih =>
    rw [foldl_cons]
    rcases mem_cons.mp (ih (keepBetter replaces incumbent first)) with
      same | later
    · rw [same]
      rcases keepBetter_cases replaces incumbent first with stays | replaced
      · rw [stays]
        exact mem_cons_self
      · rw [replaced]
        exact mem_cons_of_mem _ mem_cons_self
    · exact mem_cons_of_mem _ (mem_cons_of_mem _ later)

theorem mem_of_winner (won : winner replaces candidates = some champion) :
    champion ∈ candidates := by
  cases candidates with
  | nil => cases won
  | cons first rest =>
    cases won
    exact foldl_mem first rest

theorem winner_concat (candidates : List α) (last : α) :
    winner replaces (candidates ++ [last]) =
      some ((winner replaces candidates).elim last fun incumbent =>
        keepBetter replaces incumbent last) := by
  cases candidates with
  | nil => rfl
  | cons first rest =>
    rw [cons_append, winner, winner, foldl_append]
    rfl

/-- A view that shows who replaces whom shows the winner. -/
theorem winner_map {replaces' : β → β → Bool} {view : α → β}
    (same : ∀ incoming incumbent, replaces' (view incoming) (view incumbent) = replaces incoming incumbent)
    (candidates : List α) :
    winner replaces' (candidates.map view) = (winner replaces candidates).map view := by
  have step : ∀ incumbent incoming, keepBetter replaces' (view incumbent) (view incoming) =
      view (keepBetter replaces incumbent incoming) := by
    intro incumbent incoming
    rw [keepBetter, keepBetter, same, apply_ite view]
  cases candidates with
  | nil => rfl
  | cons first rest =>
    rw [map_cons, winner, winner, Option.map_some, foldl_map]
    exact congrArg some (foldl_hom view step)

theorem Champion.perm (best : Champion replaces champion candidates)
    (perm : others.Perm candidates) : Champion replaces champion others :=
  fun candidate member => best candidate (perm.mem_iff.mp member)

/-- The champion stays, and takes the place of whatever stood before it. -/
theorem Champion.foldl {incumbent : α} (best : Champion replaces champion (incumbent :: candidates))
    (member : champion ∈ incumbent :: candidates) :
    candidates.foldl (keepBetter replaces) incumbent = champion := by
  induction candidates generalizing incumbent with
  | nil => exact (mem_singleton.mp member).symm
  | cons first rest ih =>
    have next : ∀ kept, kept = incumbent ∨ kept = first →
        Champion replaces champion (kept :: rest) := by
      rintro kept (rfl | rfl) candidate inRest other
      · refine best candidate ?_ other
        rcases mem_cons.mp inRest with same | later
        · exact mem_cons.mpr (.inl same)
        · exact mem_cons_of_mem _ (mem_cons_of_mem _ later)
      · exact best candidate (mem_cons_of_mem _ inRest) other
    rw [foldl_cons]
    refine ih (next _ (keepBetter_cases replaces incumbent first)) ?_
    rw [keepBetter]
    by_cases here : incumbent = champion
    · by_cases again : first = champion
      · rw [here, again, ite_self]
        exact mem_cons_self
      · rw [here, (best first (mem_cons_of_mem _ mem_cons_self) again).2]
        exact mem_cons_self
    · rcases mem_cons.mp member with same | later
      · exact absurd same.symm here
      · rcases mem_cons.mp later with same | inRest
        · rw [← same, if_pos (best incumbent mem_cons_self here).1]
          exact mem_cons_self
        · exact mem_cons_of_mem _ inRest

/-- In whatever order the candidates come, the champion wins. -/
theorem Champion.winner_eq (best : Champion replaces champion candidates)
    (member : champion ∈ candidates) : winner replaces candidates = some champion := by
  cases candidates with
  | nil => cases member
  | cons first rest => exact congrArg some (best.foldl member)

/-- A candidate does not win right in front of a rival that replaces it. -/
theorem winner_behind_ne (absent : champion ∉ candidates) (differs : rival ≠ champion)
    (beaten : replaces rival champion = true) :
    winner replaces (candidates ++ [champion] ++ [rival]) ≠ some champion := by
  rw [winner_concat, winner_concat, Option.elim_some]
  intro same
  have kept := Option.some.inj same
  cases before : winner replaces candidates with
  | none =>
    rw [before, Option.elim_none, keepBetter, if_pos beaten] at kept
    exact differs kept
  | some incumbent =>
    rw [before, Option.elim_some] at kept
    have inside := mem_of_winner before
    rcases keepBetter_cases replaces incumbent champion with stays | replaced
    · rw [stays] at kept
      rcases keepBetter_cases replaces incumbent rival with stays | replaced
      · exact absent (kept.symm.trans stays ▸ inside)
      · exact differs (replaced.symm.trans kept)
    · rw [replaced, keepBetter, if_pos beaten] at kept
      exact differs kept

end Library.Contest
