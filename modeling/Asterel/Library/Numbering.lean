import Mathlib.Data.List.Nodup

/-!
# Numbering the kept items of several lists

The items of each list are numbered by their places from a counter on, also where some of
them are dropped, and behind the list the counter is advanced by the items that were kept.
Two kept items of one list never share a number. Two of different lists do exactly if the
place of the first is as far on as all items kept from its list up to the second.
-/

namespace Library.Numbering

open List

universe u v w

section Places

variable {α : Type u} {β : Type v} {γ : Type w}

/-- The places, from a start on, of the items that are kept. -/
def keptPlaces (keep : α → Bool) (start : Nat) (items : List α) : List Nat :=
  ((items.zipIdx start).filter fun entry => keep entry.1).map Prod.snd

@[simp] theorem keptPlaces_nil (keep : α → Bool) (start : Nat) : keptPlaces keep start [] = [] := rfl

theorem keptPlaces_cons (keep : α → Bool) (start : Nat) (item : α) (items : List α) :
    keptPlaces keep start (item :: items) =
      if keep item then start :: keptPlaces keep (start + 1) items
      else keptPlaces keep (start + 1) items := by
  rw [keptPlaces, zipIdx_cons, filter_cons]
  split
  · rfl
  · rfl

theorem le_of_mem_keptPlaces {keep : α → Bool} {start place : Nat} {items : List α}
    (member : place ∈ keptPlaces keep start items) : start ≤ place := by
  induction items generalizing start with
  | nil => cases member
  | cons item items ih =>
    rw [keptPlaces_cons] at member
    split at member
    · obtain same | later := mem_cons.mp member
      · exact Nat.le_of_eq same.symm
      · exact Nat.le_of_succ_le (ih later)
    · exact Nat.le_of_succ_le (ih member)

theorem nodup_keptPlaces (keep : α → Bool) (start : Nat) (items : List α) :
    (keptPlaces keep start items).Nodup := by
  induction items generalizing start with
  | nil => exact nodup_nil
  | cons item items ih =>
    rw [keptPlaces_cons]
    split
    · refine nodup_cons.mpr ⟨?_, ih (start + 1)⟩
      intro member
      exact absurd (le_of_mem_keptPlaces member) (Nat.not_succ_le_self start)
    · exact ih (start + 1)

/-- What is made of the kept items, labelled by their places. -/
theorem map_filterMap_zipIdx (make : α → Nat → Option β) (name : Nat → γ) {label : β → γ}
    {keep : α → Bool} {start : Nat} {items : List α} (made : ∀ item ∈ items, ∀ place,
      (make item place).map label = if keep item then some (name place) else none) :
    ((items.zipIdx start).filterMap fun entry => make entry.1 entry.2).map label =
      (keptPlaces keep start items).map name := by
  induction items generalizing start with
  | nil => rfl
  | cons item items ih =>
    have first := made item mem_cons_self start
    have later := @ih (start + 1) fun other member =>
      made other (mem_cons_of_mem _ member)
    rw [zipIdx_cons, filterMap_cons, keptPlaces_cons]
    cases result : make item start with
    | none =>
      rw [result, Option.map_none] at first
      rw [if_neg (by rintro kept; rw [if_pos kept] at first; cases first)]
      exact later
    | some value =>
      rw [result, Option.map_some] at first
      by_cases kept : keep item = true
      · rw [if_pos kept] at first ⊢
        dsimp only
        rw [map_cons, map_cons, later, Option.some.inj first]
      · rw [if_neg kept] at first
        cases first

end Places

/-! ## The counter -/

/-- The numbers of the kept items of all lists. -/
def numbersFrom (counter : Nat) : List (List Nat) → List Nat
  | [] => []
  | places :: later => places.map (counter + ·) ++ numbersFrom (counter + places.length) later

/-- No place in a list is as far on as the items kept up to a place in a later list. -/
def NoClash (lists : List (List Nat)) : Prop :=
  ∀ before first between second after, lists = before ++ first :: (between ++ second :: after) →
    ∀ place ∈ first, ∀ other ∈ second, place ≠ first.length + between.flatten.length + other

section Counter

variable {counter number : Nat} {places : List Nat} {lists later : List (List Nat)}

theorem mem_numbersFrom : number ∈ numbersFrom counter lists ↔
    ∃ between second after, lists = between ++ second :: after ∧
      ∃ other ∈ second, number = counter + between.flatten.length + other := by
  induction lists generalizing counter with
  | nil => simp [numbersFrom]
  | cons places later ih =>
    rw [numbersFrom, mem_append, mem_map, ih]
    constructor
    · rintro (⟨other, member, rfl⟩ | ⟨between, second, after, rfl, other, member, rfl⟩)
      · exact ⟨[], places, later, rfl, other, member, rfl⟩
      · refine ⟨places :: between, second, after, rfl, other, member, ?_⟩
        rw [flatten_cons, length_append]
        omega
    · rintro ⟨between, second, after, split, other, member, rfl⟩
      cases between with
      | nil =>
        cases split
        exact .inl ⟨other, member, rfl⟩
      | cons first between =>
        cases split
        refine .inr ⟨between, second, after, rfl, other, member, ?_⟩
        rw [flatten_cons, length_append]
        omega

theorem noClash_cons : NoClash (places :: later) ↔
    (∀ between second after, later = between ++ second :: after →
      ∀ place ∈ places, ∀ other ∈ second,
        place ≠ places.length + between.flatten.length + other) ∧ NoClash later := by
  constructor
  · intro clear
    constructor
    · intro between second after split
      exact clear [] places between second after (congrArg (places :: ·) split)
    · intro before first between second after split
      exact clear (places :: before) first between second after (congrArg (places :: ·) split)
  · rintro ⟨front, behind⟩ before first between second after split
    cases before with
    | nil =>
      cases split
      exact front between second after rfl
    | cons _ before =>
      cases split
      exact behind before first between second after rfl

/-- The numbers are distinct exactly if no two lists clash. -/
theorem nodup_numbersFrom_iff (distinct : ∀ places ∈ lists, places.Nodup) :
    (numbersFrom counter lists).Nodup ↔ NoClash lists := by
  induction lists generalizing counter with
  | nil => exact iff_of_true nodup_nil (by rintro _ _ _ _ _ split; simp at split)
  | cons places later ih =>
    have front : (places.map (counter + ·)).Nodup :=
      (distinct places mem_cons_self).map fun _ _ same => Nat.add_left_cancel same
    rw [numbersFrom, nodup_append, noClash_cons, ih fun other member =>
      distinct other (mem_cons_of_mem _ member)]
    constructor
    · rintro ⟨_, behind, apart⟩
      refine ⟨?_, behind⟩
      intro between second after split place member other inSecond same
      refine apart (counter + place) (mem_map.mpr ⟨place, member, rfl⟩) _
        (mem_numbersFrom.mpr ⟨between, second, after, split, other, inSecond, rfl⟩) ?_
      omega
    · rintro ⟨clear, behind⟩
      refine ⟨front, behind, ?_⟩
      intro number inFront same inLater equal
      obtain ⟨place, member, rfl⟩ := mem_map.mp inFront
      obtain ⟨between, second, after, split, other, inSecond, rfl⟩ := mem_numbersFrom.mp inLater
      exact clear between second after split place member other inSecond (by omega)

/-- Lists that keep their first items only do not clash. -/
theorem noClash_of_lt (first : ∀ places ∈ lists, ∀ place ∈ places, place < places.length) :
    NoClash lists := by
  rintro before places between second after rfl place member other _
  have inside := first places (by simp) place member
  omega

end Counter

end Library.Numbering
