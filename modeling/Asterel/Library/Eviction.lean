import Mathlib.Data.List.Sort

/-!
# Evicting the lowest-ranked entries of a collection

A table over its capacity selects the rank of the last entry that has to go and
then drops entries in two passes with one shared counter: first the entries
strictly below that rank, then entries of exactly that rank until enough are
gone. Which entries of the selected rank survive depends on the order in which
the passes visit them; everything else is determined.

The passes work over arbitrary entries with a rank in a linear order.
-/

namespace Library.Eviction

open List

universe u v

variable {α : Type u} {ν : Type v}
variable {limit removed : Nat} {doomed : α → Bool}

/-- Visit the entries in order and drop the matching ones, counting them, until
`limit` have been dropped. -/
def dropUpTo (limit : Nat) (doomed : α → Bool) : Nat → List α → Nat × List α
  | removed, [] => (removed, [])
  | removed, entry :: rest =>
    if limit ≤ removed then
      let later := dropUpTo limit doomed removed rest
      (later.1, entry :: later.2)
    else if doomed entry then
      dropUpTo limit doomed (removed + 1) rest
    else
      let later := dropUpTo limit doomed removed rest
      (later.1, entry :: later.2)

/-- A pass only drops entries and keeps the others in order. -/
theorem dropUpTo_sublist (limit : Nat) (doomed : α → Bool) (removed : Nat) (entries : List α) :
    (dropUpTo limit doomed removed entries).2.Sublist entries := by
  induction entries generalizing removed with
  | nil => exact .slnil
  | cons entry rest ih =>
    rw [dropUpTo]
    split_ifs
    · exact (ih removed).cons_cons entry
    · exact (ih (removed + 1)).cons entry
    · exact (ih removed).cons_cons entry

/-- The counter accounts for exactly the dropped entries. -/
theorem dropUpTo_length (limit : Nat) (doomed : α → Bool) (removed : Nat) (entries : List α) :
    (dropUpTo limit doomed removed entries).1 + entries.length =
      removed + entries.length + (entries.length -
        (dropUpTo limit doomed removed entries).2.length) := by
  induction entries generalizing removed with
  | nil => simp [dropUpTo]
  | cons entry rest ih =>
    have kept := ih removed
    have dropped := ih (removed + 1)
    have shorter := (dropUpTo_sublist limit doomed (removed + 1) rest).length_le
    have keptShorter := (dropUpTo_sublist limit doomed removed rest).length_le
    rw [dropUpTo]
    split_ifs <;> simp only [length_cons] <;> omega

/-- The counter ends at the limit, or counts every matching entry. -/
theorem dropUpTo_removed (doomed : α → Bool) (entries : List α) (bounded : removed ≤ limit) :
    (dropUpTo limit doomed removed entries).1 = min limit (removed + entries.countP doomed) := by
  induction entries generalizing removed with
  | nil => simp [dropUpTo, bounded]
  | cons entry rest ih =>
    rw [dropUpTo]
    by_cases full : limit ≤ removed
    · simp only [full, ↓reduceIte, ih bounded]
      omega
    · by_cases matched : doomed entry
      · have below : removed + 1 ≤ limit := by omega
        have later := ih below
        simp only [full, matched, ↓reduceIte, later, countP_cons_of_pos]
        omega
      · simp only [full, matched, Bool.false_eq_true, ↓reduceIte, ih bounded,
          not_false_eq_true, countP_cons_of_neg]

/-- An entry is only dropped if it matches. -/
theorem doomed_of_dropped {entries : List α} {entry : α} (present : entry ∈ entries)
    (dropped : entry ∉ (dropUpTo limit doomed removed entries).2) : doomed entry = true := by
  induction entries generalizing removed with
  | nil => cases present
  | cons head rest ih =>
    rw [dropUpTo] at dropped
    split_ifs at dropped with full matched
    · simp only [mem_cons, not_or] at dropped
      exact ih ((mem_cons.mp present).resolve_left dropped.1) dropped.2
    · rcases mem_cons.mp present with rfl | later
      · exact matched
      · exact ih later dropped
    · simp only [mem_cons, not_or] at dropped
      exact ih ((mem_cons.mp present).resolve_left dropped.1) dropped.2

/-- A pass that never reached its limit drops every matching entry. -/
theorem dropUpTo_eq_filter {entries : List α}
    (short : (dropUpTo limit doomed removed entries).1 < limit) :
    (dropUpTo limit doomed removed entries).2 = entries.filter fun entry => !doomed entry := by
  induction entries generalizing removed with
  | nil => rfl
  | cons entry rest ih =>
    have grows := dropUpTo_length limit doomed removed rest
    rw [dropUpTo] at short ⊢
    split_ifs at short ⊢ with full matched
    · simp only at short
      omega
    · rw [ih short, filter_cons_of_neg (by simp [matched])]
    · simp only at short ⊢
      rw [ih short, filter_cons_of_pos (by simpa using matched)]

/-- A pass over matching entries only drops the first ones. -/
theorem dropUpTo_of_all {entries : List α} (all : ∀ entry ∈ entries, doomed entry = true) :
    (dropUpTo limit doomed removed entries).2 = entries.drop (limit - removed) := by
  induction entries generalizing removed with
  | nil => simp [dropUpTo]
  | cons entry rest ih =>
    have later : ∀ entry ∈ rest, doomed entry = true := fun entry member =>
      all entry (mem_cons_of_mem _ member)
    rw [dropUpTo]
    by_cases full : limit ≤ removed
    · have none : limit - removed = 0 := by omega
      simp only [full, ↓reduceIte, ih later, none, drop_zero]
    · have more : limit - removed = limit - (removed + 1) + 1 := by omega
      simp only [full, all entry (by simp), ↓reduceIte, ih later, more, drop_succ_cons]

section Selection

variable [LinearOrder ν]
variable {values : List ν} {index : Nat} {threshold : ν}

/-- The values in ascending order. -/
def ascending (values : List ν) : List ν := values.mergeSort (· ≤ ·)

theorem ascending_pairwise (values : List ν) : (ascending values).Pairwise (· ≤ ·) := by
  have transitive : ∀ a b c : ν, decide (a ≤ b) = true → decide (b ≤ c) = true →
      decide (a ≤ c) = true := by
    intro a b c first second
    simp only [decide_eq_true_eq] at *
    exact le_trans first second
  have total : ∀ a b : ν, (decide (a ≤ b) || decide (b ≤ a)) = true := by
    intro a b
    simpa using le_total a b
  simpa [ascending] using pairwise_mergeSort transitive total values

theorem countP_ascending (test : ν → Bool) (values : List ν) :
    (ascending values).countP test = values.countP test :=
  (mergeSort_perm values _).countP_eq test

/-- Fewer values than the selected position lie strictly below its value. -/
theorem countP_lt_selected (selected : (ascending values)[index]? = some threshold) :
    values.countP (fun value => value < threshold) ≤ index := by
  rw [← countP_ascending]
  obtain ⟨inside, same⟩ := List.getElem?_eq_some_iff.mp selected
  have sorted := ascending_pairwise values
  rw [← take_append_drop index (ascending values), countP_append]
  have upper : ((ascending values).drop index).countP (fun value => value < threshold) = 0 := by
    rw [drop_eq_getElem_cons inside] at *
    rw [countP_eq_zero]
    intro value member
    rw [decide_eq_true_eq, not_lt]
    rcases mem_cons.mp member with rfl | later
    · exact same.ge
    · rw [← take_append_drop index (ascending values), drop_eq_getElem_cons inside] at sorted
      have tail := (pairwise_append.mp sorted).2.1
      rw [← same]
      exact (pairwise_cons.mp tail).1 value later
  have lower : ((ascending values).take index).countP (fun value => value < threshold) ≤ index :=
    countP_le_length.trans (by simp)
  omega

/-- More values than the selected position lie at or below its value. -/
theorem selected_lt_countP_le (selected : (ascending values)[index]? = some threshold) :
    index < values.countP (fun value => value ≤ threshold) := by
  rw [← countP_ascending]
  obtain ⟨inside, same⟩ := List.getElem?_eq_some_iff.mp selected
  have sorted := ascending_pairwise values
  rw [← take_append_drop (index + 1) (ascending values), countP_append]
  have lower : ((ascending values).take (index + 1)).countP (fun value => value ≤ threshold) =
      index + 1 := by
    have length : ((ascending values).take (index + 1)).length = index + 1 := by
      rw [length_take]
      omega
    conv_rhs => rw [← length]
    rw [countP_eq_length]
    intro value member
    rw [decide_eq_true_eq, ← same]
    obtain ⟨position, before, rfl⟩ := mem_iff_getElem.mp member
    rw [getElem_take]
    rcases Nat.lt_or_ge position index with earlier | reached
    · exact pairwise_iff_getElem.mp sorted position index (by omega) inside earlier
    · have equal : position = index := by
        rw [length] at before
        omega
      subst equal
      exact le_refl _
  omega

end Selection

section Eviction

variable [LinearOrder ν] (rank : α → ν)
variable {entry : α}

/-- Both passes, sharing one counter. -/
def evict (overflow : Nat) (threshold : ν) (entries : List α) : List α :=
  let below := dropUpTo overflow (fun entry => rank entry < threshold) 0 entries
  if below.1 < overflow then
    (dropUpTo overflow (fun entry => rank entry = threshold) below.1 below.2).2
  else below.2

variable {rank} {overflow : Nat} {threshold : ν} {entries : List α}

theorem evict_sublist (overflow : Nat) (threshold : ν) (entries : List α) :
    (evict rank overflow threshold entries).Sublist entries := by
  rw [evict]
  split_ifs
  · exact (dropUpTo_sublist _ _ _ _).trans (dropUpTo_sublist _ _ _ _)
  · exact dropUpTo_sublist _ _ _ _

/-- With the rank of the last entry to go, the first pass drops everything below
that rank and cannot finish the eviction. -/
theorem below_removed (positive : 0 < overflow)
    (selected : (ascending (entries.map rank))[overflow - 1]? = some threshold) :
    (dropUpTo overflow (fun entry => rank entry < threshold) 0 entries).1 < overflow := by
  have below := countP_lt_selected selected
  rw [countP_map] at below
  rw [dropUpTo_removed _ _ (Nat.zero_le _)]
  have same : entries.countP (fun entry => decide (rank entry < threshold)) =
      entries.countP ((fun value => decide (value < threshold)) ∘ rank) := rfl
  omega

/-- Evicted entries rank at or below the threshold. -/
theorem evicted_rank (present : entry ∈ entries)
    (evicted : entry ∉ evict rank overflow threshold entries) : rank entry ≤ threshold := by
  rw [evict] at evicted
  by_cases firstPass : entry ∈
      (dropUpTo overflow (fun entry => decide (rank entry < threshold)) 0 entries).2
  · split_ifs at evicted with unfinished
    · have matched := doomed_of_dropped firstPass evicted
      exact (of_decide_eq_true matched).le
    · exact absurd firstPass evicted
  · have matched := doomed_of_dropped present firstPass
    exact (of_decide_eq_true matched).le

/-- Kept entries rank at or above the threshold. -/
theorem kept_rank (positive : 0 < overflow)
    (selected : (ascending (entries.map rank))[overflow - 1]? = some threshold)
    (kept : entry ∈ evict rank overflow threshold entries) : threshold ≤ rank entry := by
  have unfinished := below_removed positive selected
  rw [evict, if_pos unfinished] at kept
  have survived := (dropUpTo_sublist _ _ _ _).mem kept
  rw [dropUpTo_eq_filter unfinished, mem_filter] at survived
  simpa using survived.2

/-- Among entries of one rank, the first visited are evicted. -/
theorem evict_of_equal (equal : ∀ entry ∈ entries, rank entry = threshold) (positive : 0 < overflow) :
    evict rank overflow threshold entries = entries.drop overflow := by
  have noneBelow : entries.countP (fun entry => decide (rank entry < threshold)) = 0 := by
    rw [countP_eq_zero]
    intro entry member
    simp [equal entry member]
  have removed := dropUpTo_removed
    (fun entry => decide (rank entry < threshold)) entries (Nat.zero_le overflow)
  rw [noneBelow, Nat.zero_add, Nat.min_zero] at removed
  have kept : (dropUpTo overflow (fun entry => decide (rank entry < threshold)) 0 entries).2 =
      entries := by
    rw [dropUpTo_eq_filter (by omega), filter_eq_self]
    intro entry member
    simp [equal entry member]
  have all : ∀ entry ∈ entries, decide (rank entry = threshold) = true := fun entry member =>
    decide_eq_true (equal entry member)
  rw [evict, removed, kept, if_pos positive, dropUpTo_of_all all, Nat.sub_zero]

theorem countP_le_split (rank : α → ν) (threshold : ν) (entries : List α) :
    entries.countP ((fun value => decide (value ≤ threshold)) ∘ rank) =
      entries.countP (fun entry => decide (rank entry < threshold)) +
        entries.countP (fun entry => decide (rank entry = threshold)) := by
  induction entries with
  | nil => rfl
  | cons entry rest ih =>
    simp only [countP_cons, ih, Function.comp_apply, decide_eq_true_eq]
    rcases lt_trichotomy (rank entry) threshold with less | equal | greater
    · simp only [less, less.le, less.ne, ↓reduceIte]
      omega
    · simp only [equal, le_refl, lt_irrefl, ↓reduceIte]
      omega
    · simp only [greater.not_ge, greater.not_gt, greater.ne', ↓reduceIte, Nat.add_zero]

/-- Exactly the overflow is evicted. -/
theorem evict_length (positive : 0 < overflow)
    (selected : (ascending (entries.map rank))[overflow - 1]? = some threshold) :
    (evict rank overflow threshold entries).length = entries.length - overflow := by
  have unfinished := below_removed positive selected
  have first := dropUpTo_removed
    (fun entry => decide (rank entry < threshold)) entries (Nat.zero_le overflow)
  have firstLength := dropUpTo_length overflow
    (fun entry => decide (rank entry < threshold)) 0 entries
  have firstSublist := dropUpTo_sublist overflow
    (fun entry => decide (rank entry < threshold)) 0 entries
  rw [evict, if_pos unfinished]
  generalize firstPass : dropUpTo overflow (fun entry => decide (rank entry < threshold)) 0
    entries = below at *
  have second := dropUpTo_removed (fun entry => decide (rank entry = threshold)) below.2
    unfinished.le
  have secondLength := dropUpTo_length overflow
    (fun entry => decide (rank entry = threshold)) below.1 below.2
  have secondSublist := dropUpTo_sublist overflow
    (fun entry => decide (rank entry = threshold)) below.1 below.2
  have reached := selected_lt_countP_le selected
  rw [countP_map] at reached
  -- Entries of the selected rank all survive the first pass.
  have survivors : below.2.countP (fun entry => decide (rank entry = threshold)) =
      entries.countP (fun entry => decide (rank entry = threshold)) := by
    have filtered := dropUpTo_eq_filter (firstPass ▸ unfinished)
    rw [firstPass] at filtered
    rw [filtered, countP_filter]
    congr 1
    funext entry
    by_cases equal : rank entry = threshold <;> simp [equal]
  have splitRanks := countP_le_split rank threshold entries
  have firstShorter := firstSublist.length_le
  have secondShorter := secondSublist.length_le
  omega

end Eviction

end Library.Eviction
