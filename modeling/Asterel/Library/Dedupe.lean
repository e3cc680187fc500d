import Mathlib.Data.List.Basic

/-!
# Keeping the first item of each key

A list is read from the left, and an item is kept when no item before it has its key.
-/

namespace Library

open List

universe u v

variable {α : Type u} {κ : Type v} [DecidableEq κ]

/-- The items whose keys are neither seen nor those of earlier items. -/
def dedupeBy (key : α → κ) (seen : List κ) : List α → List α
  | [] => []
  | item :: rest =>
    if key item ∈ seen then dedupeBy key seen rest
    else item :: dedupeBy key (key item :: seen) rest

variable {key : α → κ} {seen : List κ} {items : List α}

/-- What is kept stands in front of all items with its key. -/
theorem mem_dedupeBy {item : α} : item ∈ dedupeBy key seen items ↔ key item ∉ seen ∧
    ∃ front back, items = front ++ item :: back ∧ ∀ other ∈ front, key other ≠ key item := by
  induction items generalizing seen with
  | nil => simp [dedupeBy]
  | cons first rest ih =>
    have split : (∃ front back, first :: rest = front ++ item :: back ∧
          ∀ other ∈ front, key other ≠ key item) ↔
        first = item ∨ key first ≠ key item ∧ ∃ front back, rest = front ++ item :: back ∧
          ∀ other ∈ front, key other ≠ key item := by
      constructor
      · rintro ⟨front, back, whole, before⟩
        cases front with
        | nil => exact Or.inl (List.cons.inj whole).1
        | cons head front =>
          obtain ⟨rfl, tail⟩ := List.cons.inj whole
          exact Or.inr ⟨before first mem_cons_self, front, back, tail, fun other among =>
            before other (mem_cons_of_mem first among)⟩
      · rintro (rfl | ⟨different, front, back, rfl, before⟩)
        · exact ⟨[], rest, rfl, fun _ among => absurd among not_mem_nil⟩
        · refine ⟨first :: front, back, rfl, fun other among => ?_⟩
          rcases mem_cons.mp among with rfl | later
          · exact different
          · exact before other later
    rw [split, dedupeBy]
    split_ifs with known
    · rw [ih]
      constructor
      · rintro ⟨absent, occurs⟩
        exact ⟨absent, Or.inr ⟨fun same => absent (same ▸ known), occurs⟩⟩
      · rintro ⟨absent, rfl | ⟨_, occurs⟩⟩
        · exact absurd known absent
        · exact ⟨absent, occurs⟩
    · rw [mem_cons, ih, mem_cons, not_or]
      constructor
      · rintro (rfl | ⟨⟨different, absent⟩, occurs⟩)
        · exact ⟨known, Or.inl rfl⟩
        · exact ⟨absent, Or.inr ⟨Ne.symm different, occurs⟩⟩
      · rintro ⟨absent, rfl | ⟨different, occurs⟩⟩
        · exact Or.inl rfl
        · exact Or.inr ⟨⟨Ne.symm different, absent⟩, occurs⟩

theorem mem_of_mem_dedupeBy {item : α} (member : item ∈ dedupeBy key seen items) : item ∈ items := by
  obtain ⟨_, front, back, rfl, _⟩ := mem_dedupeBy.mp member
  exact mem_append_right front mem_cons_self

/-- No key is lost. -/
theorem exists_mem_dedupeBy {item : α} (member : item ∈ items) (absent : key item ∉ seen) :
    ∃ kept ∈ dedupeBy key seen items, key kept = key item := by
  induction items generalizing seen with
  | nil => cases member
  | cons first rest ih =>
    rw [dedupeBy]
    split_ifs with known
    · rcases mem_cons.mp member with rfl | later
      · exact absurd known absent
      · exact ih later absent
    · by_cases same : key item = key first
      · exact ⟨first, mem_cons_self, same.symm⟩
      · rcases mem_cons.mp member with rfl | later
        · exact absurd rfl same
        · obtain ⟨kept, among, equal⟩ := ih later
            fun among => (mem_cons.mp among).elim same absent
          exact ⟨kept, mem_cons_of_mem first among, equal⟩

/-- A part that has been deduplicated before may as well not have been. -/
theorem dedupeBy_dedupeBy_append {before : List κ} (subset : ∀ known ∈ before, known ∈ seen)
    (rest : List α) :
    dedupeBy key seen (dedupeBy key before items ++ rest) = dedupeBy key seen (items ++ rest) := by
  induction items generalizing seen before with
  | nil => rfl
  | cons first items ih =>
    rw [dedupeBy, cons_append]
    by_cases early : key first ∈ before
    · rw [if_pos early, ih subset, dedupeBy, if_pos (subset _ early)]
    · rw [if_neg early, cons_append, dedupeBy, dedupeBy]
      split_ifs with known
      · apply ih
        intro other among
        rcases mem_cons.mp among with rfl | among
        · exact known
        · exact subset other among
      · rw [ih]
        intro other among
        rcases mem_cons.mp among with rfl | among
        · exact mem_cons_self
        · exact mem_cons_of_mem _ (subset other among)

theorem dedupeBy_append_dedupeBy (front : List α) :
    dedupeBy key seen (front ++ dedupeBy key [] items) = dedupeBy key seen (front ++ items) := by
  induction front generalizing seen with
  | nil =>
    have whole : dedupeBy key seen (dedupeBy key [] items ++ []) = dedupeBy key seen (items ++ []) :=
      dedupeBy_dedupeBy_append (fun _ among => absurd among not_mem_nil) []
    rwa [append_nil, append_nil] at whole
  | cons first front ih =>
    rw [cons_append, cons_append, dedupeBy, dedupeBy, ih, ih]

end Library
