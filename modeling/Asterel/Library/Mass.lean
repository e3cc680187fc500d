import Mathlib.Algebra.Order.BigOperators.Group.List
import Mathlib.Algebra.Order.Group.Defs
import Mathlib.Data.List.GetD
import Mathlib.Tactic.Abel

/-!
# Mass on the places of a list

A list holds an amount at each of its places. Amounts that are not negative are added at some
places; what is kept is how much there is in all, and at which places there is more than before.
-/

namespace Library.Mass

open List

universe u v

section Amounts

variable {R : Type u} [AddCommGroup R]

/-- The amount at a place. -/
def amountAt (values : List R) (index : Nat) : R := values.getD index 0

/-- Add an amount at a place, if there is such a place. -/
def addAt (values : List R) (index : Nat) (amount : R) : Option (List R) :=
  if index < values.length then some (values.modify index (· + amount)) else none

variable {values : List R} {total : R}

theorem amountAt_of_length_le {index : Nat} (beyond : values.length ≤ index) :
    amountAt values index = 0 := getD_eq_default values 0 beyond

theorem amountAt_eq {index : Nat} (found : values[index]? = some total) :
    amountAt values index = total := by
  rw [amountAt, getD_eq_getElem?_getD, found, Option.getD_some]

theorem amountAt_modify (values : List R) (place index : Nat) (amount : R)
    (inside : place < values.length) :
    amountAt (values.modify place (· + amount)) index =
      if index = place then amountAt values index + amount else amountAt values index := by
  unfold amountAt
  rw [getD_eq_getElem?_getD, getD_eq_getElem?_getD, List.getElem?_modify]
  by_cases same : index = place
  · subst same
    rw [List.getElem?_eq_getElem inside]
    simp
  · rw [if_neg same]
    simp [Ne.symm same]

theorem sum_modify (values : List R) (place : Nat) (amount : R) (inside : place < values.length) :
    (values.modify place (· + amount)).sum = values.sum + amount := by
  induction values generalizing place with
  | nil => exact absurd inside (Nat.not_lt_zero place)
  | cons first rest ih =>
    cases place with
    | zero =>
      rw [modify_zero_cons, sum_cons, sum_cons]
      abel
    | succ place =>
      rw [modify_succ_cons, sum_cons, sum_cons, ih place (Nat.lt_of_succ_lt_succ inside), add_assoc]

/-- A stretch of a list, place by place. -/
theorem take_drop_eq_map (values : List R) {start count : Nat}
    (inside : start + count ≤ values.length) :
    (values.drop start).take count = (range' start count).map (amountAt values) := by
  apply ext_getElem?
  intro index
  rw [List.getElem?_take, List.getElem?_drop, List.getElem?_map]
  by_cases among : index < count
  · have stored : start + index < values.length := by omega
    rw [if_pos among, List.getElem?_range' among, Option.map_some, Nat.one_mul,
      List.getElem?_eq_getElem stored, amountAt_eq (List.getElem?_eq_getElem stored)]
  · rw [if_neg among, List.getElem?_eq_none (by rw [length_range']; omega), Option.map_none]

end Amounts

section Gains

variable {R : Type u} [AddCommGroup R] [LinearOrder R]

/-- The second list is the first one with at most an amount added to it in all, and with more
than before at some of the given places only. -/
structure Gained (values next : List R) (total : R) (places : Nat → Prop) : Prop where
  length : next.length = values.length
  sum : next.sum ≤ values.sum + total
  le : ∀ index, amountAt values index ≤ amountAt next index
  gains : ∀ index, amountAt values index < amountAt next index → places index

variable {values next later : List R} {total more : R} {places others : Nat → Prop}

theorem Gained.mono (gained : Gained values next total places)
    (subset : ∀ index, places index → others index) : Gained values next total others :=
  { gained with gains := fun index more => subset index (gained.gains index more) }

theorem Gained.nonneg (gained : Gained values next total places)
    (nonneg : ∀ index, 0 ≤ amountAt values index) (index : Nat) : 0 ≤ amountAt next index :=
  le_trans (nonneg index) (gained.le index)

theorem nonneg_of_mem (nonneg : ∀ index, 0 ≤ amountAt values index) {value : R}
    (member : value ∈ values) : 0 ≤ value := by
  obtain ⟨index, found⟩ := mem_iff_getElem?.mp member
  exact amountAt_eq found ▸ nonneg index

variable [IsOrderedAddMonoid R]

/-- Nothing needs to be added. -/
theorem Gained.refl (values : List R) (places : Nat → Prop) (nonneg : 0 ≤ total) :
    Gained values values total places where
  length := rfl
  sum := le_add_of_nonneg_right nonneg
  le := fun _ => le_refl _
  gains := fun _ more => absurd more (lt_irrefl _)

theorem Gained.trans (first : Gained values next total places)
    (second : Gained next later more others) :
    Gained values later (total + more) fun index => places index ∨ others index where
  length := second.length.trans first.length
  sum := by
    calc later.sum ≤ next.sum + more := second.sum
      _ ≤ values.sum + total + more := add_le_add_left first.sum more
      _ = values.sum + (total + more) := add_assoc _ _ _
  le := fun index => le_trans (first.le index) (second.le index)
  gains := fun index gained => by
    rcases lt_or_ge (amountAt values index) (amountAt next index) with early | same
    · exact Or.inl (first.gains index early)
    · exact Or.inr (second.gains index (lt_of_le_of_lt same gained))

/-- An amount that is not negative is added at its place only. -/
theorem addAt_gained {place : Nat} {amount : R} (inside : place < values.length)
    (nonneg : 0 ≤ amount) :
    ∃ next, addAt values place amount = some next ∧
      Gained values next amount fun index => index = place ∧ 0 < amount := by
  refine ⟨values.modify place (· + amount), if_pos inside, length_modify .., ?_, ?_, ?_⟩
  · exact le_of_eq (sum_modify values place amount inside)
  · intro index
    rw [amountAt_modify values place index amount inside]
    split
    · exact le_add_of_nonneg_right nonneg
    · exact le_refl _
  · intro index gained
    rw [amountAt_modify values place index amount inside] at gained
    split at gained
    · rename_i same
      exact ⟨same, (lt_add_iff_pos_right _).mp gained⟩
    · exact absurd gained (lt_irrefl _)

/-- Steps that each add an amount add all the amounts. -/
theorem foldlM_gained {β : Type v} {step : List R → β → Option (List R)} {amount : β → R}
    {placesOf : β → Nat → Prop} {size : Nat} {items : List β}
    (each : ∀ item ∈ items, ∀ values : List R, values.length = size →
      ∃ next, step values item = some next ∧ Gained values next (amount item) (placesOf item))
    (values : List R) (sized : values.length = size) :
    ∃ next, items.foldlM step values = some next ∧
      Gained values next (items.map amount).sum fun index => ∃ item ∈ items, placesOf item index := by
  induction items generalizing values with
  | nil => exact ⟨values, rfl, Gained.refl values _ (le_refl 0)⟩
  | cons item items ih =>
    obtain ⟨next, stepped, gained⟩ := each item mem_cons_self values sized
    obtain ⟨last, folded, rest⟩ := ih
      (fun other member => each other (mem_cons_of_mem item member)) next
      (gained.length.trans sized)
    refine ⟨last, ?_, ?_⟩
    · rw [foldlM_cons, stepped]
      exact folded
    · refine (gained.trans rest).mono fun index placed => ?_
      rcases placed with first | ⟨other, member, placed⟩
      · exact ⟨item, mem_cons_self, first⟩
      · exact ⟨other, mem_cons_of_mem item member, placed⟩

/-- No place holds more than there is in all. -/
theorem amountAt_le_sum (nonneg : ∀ index, 0 ≤ amountAt values index) (index : Nat) :
    amountAt values index ≤ values.sum := by
  rcases Nat.lt_or_ge index values.length with inside | beyond
  · have member : amountAt values index ∈ values := by
      rw [amountAt_eq (List.getElem?_eq_getElem inside)]
      exact getElem_mem inside
    exact single_le_sum (fun value => nonneg_of_mem nonneg) _ member
  · rw [amountAt_of_length_le beyond]
    exact sum_nonneg fun value => nonneg_of_mem nonneg

end Gains

end Library.Mass
