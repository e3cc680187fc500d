import Asterel.Library.OrderedTable
import Mathlib.Data.List.Induction

/-!
# The latest row of a log

Rows carry keys in a linear order, and a row replaces the current one unless its key is
smaller. Two lists that show the rows of every key in the same order have the same
latest row and the same ordered reading, wherever the rows of different keys stand.
-/

namespace Library.Latest

open Library.OrderedTable List

universe u v w

variable {ρ : Type u} {κ : Type v} [LinearOrder κ]

/-- The rows of every key are the same, in the same order. -/
def SameRows (key : ρ → κ) (rows others : List ρ) : Prop :=
  ∀ value, rows.filter (fun row => key row = value) = others.filter (fun row => key row = value)

/-- One step of the search for the latest row. -/
def newer (key : ρ → κ) (current : Option ρ) (row : ρ) : Option ρ :=
  match current with
  | none => some row
  | some latest => if key row < key latest then some latest else some row

def latest (key : ρ → κ) (rows : List ρ) : Option ρ := rows.foldl (newer key) none

section SameRows

variable {key : ρ → κ} {rows others third : List ρ}

theorem SameRows.refl (rows : List ρ) : SameRows key rows rows := fun _ => rfl

section

variable (same : SameRows key rows others)
include same

theorem SameRows.symm : SameRows key others rows :=
  fun value => (same value).symm

theorem SameRows.trans (next : SameRows key others third) :
    SameRows key rows third := fun value => (same value).trans (next value)

theorem SameRows.append {more moreOthers : List ρ} (more_same : SameRows key more moreOthers) :
    SameRows key (rows ++ more) (others ++ moreOthers) := by
  intro value
  rw [filter_append, filter_append, same, more_same]

theorem SameRows.filter (keep : ρ → Bool) :
    SameRows key (rows.filter keep) (others.filter keep) := by
  intro value
  rw [filter_comm, same, filter_comm]

theorem SameRows.mem_iff {row : ρ} :
    row ∈ rows ↔ row ∈ others := by
  have member : ∀ list : List ρ, row ∈ list ↔ row ∈ list.filter fun other => key other = key row := by
    intro list
    simp
  rw [member rows, same, ← member others]

end

/-- A finer key does as well. -/
theorem SameRows.comp {ι : Type w} [LinearOrder ι] {rank : κ → ι} (injective : Function.Injective rank)
    (same : SameRows key rows others) : SameRows (rank ∘ key) rows others := by
  intro value
  by_cases some : ∃ original, rank original = value
  · obtain ⟨original, rfl⟩ := some
    simpa only [Function.comp_apply, injective.eq_iff] using same original
  · have none : ∀ list : List ρ, list.filter (fun row => (rank ∘ key) row = value) = [] := by
      intro list
      refine filter_eq_nil_iff.mpr fun row _ => ?_
      simpa using fun found => some ⟨key row, found⟩
    rw [none, none]

theorem SameRows.map {σ : Type w} {view : ρ → σ} {viewKey : σ → κ}
    (keys : ∀ row, viewKey (view row) = key row) (same : SameRows key rows others) :
    SameRows viewKey (rows.map view) (others.map view) := by
  intro value
  simp only [filter_map, Function.comp_def, keys, same value]

/-- Lists whose rows have different keys can change places. -/
theorem sameRows_swap (apart : ∀ row ∈ rows, ∀ other ∈ others, key row ≠ key other) :
    SameRows key (rows ++ others) (others ++ rows) := by
  intro value
  rw [filter_append, filter_append]
  by_cases some : ∃ row ∈ rows, key row = value
  · obtain ⟨row, member, rfl⟩ := some
    have none : others.filter (fun other => key other = key row) = [] := by
      refine filter_eq_nil_iff.mpr fun other inOthers => ?_
      simpa using (apart row member other inOthers).symm
    rw [none, append_nil, nil_append]
  · have none : rows.filter (fun row => key row = value) = [] := by
      refine filter_eq_nil_iff.mpr fun row inRows => ?_
      simpa using fun same => some ⟨row, inRows, same⟩
    rw [none, append_nil, nil_append]

/-- Blocks with a key each can be listed in any order. -/
theorem sameRows_of_perm {β : Type w} {rowsOf : β → List ρ} {keyOf : β → κ} {blocks others : List β}
    (keys : ∀ block, ∀ row ∈ rowsOf block, key row = keyOf block) (perm : blocks.Perm others)
    (distinct : (blocks.map keyOf).Nodup) :
    SameRows key (blocks.flatMap rowsOf) (others.flatMap rowsOf) := by
  induction perm with
  | nil => exact SameRows.refl _
  | cons block _ ih =>
    rw [flatMap_cons, flatMap_cons]
    exact (SameRows.refl _).append (ih (nodup_cons.mp distinct).2)
  | swap first second rest =>
    simp only [flatMap_cons, ← append_assoc]
    refine SameRows.append (sameRows_swap fun row inSecond other inFirst same => ?_)
      (SameRows.refl _)
    rw [keys second row inSecond, keys first other inFirst] at same
    exact (nodup_cons.mp distinct).1 (same ▸ mem_cons_self)
  | trans perm _ first second =>
    exact (first distinct).trans (second ((perm.map keyOf).nodup_iff.mp distinct))

/-- Ordering keeps the order of the rows of every key. -/
theorem ordered_sameRows (rows : List ρ) : SameRows key (ordered key rows) rows := by
  intro value
  have level : (rows.filter fun row => key row = value).Pairwise fun first second =>
      key first ≤ key second := by
    refine pairwise_of_forall_mem_list fun first inFirst second inSecond => ?_
    have firstKey := of_decide_eq_true (mem_filter.mp inFirst).2
    have secondKey := of_decide_eq_true (mem_filter.mp inSecond).2
    rw [firstKey, secondKey]
  have kept : (rows.filter fun row => key row = value).Sublist (ordered key rows) :=
    sublist_insertionSort level filter_sublist
  have filtered := kept.filter fun row => key row = value
  rw [filter_filter] at filtered
  refine (Sublist.eq_of_length (by simpa using filtered) ?_).symm
  exact ((ordered_perm rows).filter _).length_eq.symm

/-- Ordered lists with the same rows are equal. -/
theorem eq_of_sameRows (same : SameRows key rows others)
    (sorted : rows.Pairwise fun first second => key first ≤ key second)
    (otherSorted : others.Pairwise fun first second => key first ≤ key second) :
    rows = others := by
  induction rows generalizing others with
  | nil =>
    cases others with
    | nil => rfl
    | cons other rest => exact absurd (same.mem_iff.mpr mem_cons_self) not_mem_nil
  | cons row rest ih =>
    cases others with
    | nil => exact absurd (same.mem_iff.mp mem_cons_self) not_mem_nil
    | cons other otherRest =>
      have least : key row = key other := by
        apply le_antisymm
        · rcases mem_cons.mp (same.mem_iff.mpr mem_cons_self) with rfl | later
          · exact le_refl _
          · exact (pairwise_cons.mp sorted).1 other later
        · rcases mem_cons.mp (same.mem_iff.mp mem_cons_self) with rfl | later
          · exact le_refl _
          · exact (pairwise_cons.mp otherSorted).1 row later
      have heads : row = other := by
        have here := same (key row)
        rw [filter_cons_of_pos (by simp), filter_cons_of_pos (by simp [least])] at here
        exact (List.cons.inj here).1
      subst heads
      refine congrArg (row :: ·) (ih ?_ sorted.of_cons otherSorted.of_cons)
      intro value
      have here := same value
      rw [filter_cons, filter_cons] at here
      split at here
      · exact (List.cons.inj here).2
      · exact here

/-- The ordered reading only depends on the rows of every key. -/
theorem ordered_eq_of_sameRows (same : SameRows key rows others) :
    ordered key rows = ordered key others :=
  eq_of_sameRows (((ordered_sameRows rows).trans same).trans (ordered_sameRows others).symm)
    (ordered_pairwise rows) (ordered_pairwise others)

/-- An ordered reading can be filtered before or afterwards. -/
theorem filter_ordered (rows : List ρ) (keep : ρ → Bool) :
    (ordered key rows).filter keep = ordered key (rows.filter keep) :=
  eq_of_sameRows (((ordered_sameRows rows).filter keep).trans (ordered_sameRows _).symm)
    ((ordered_pairwise rows).filter keep) (ordered_pairwise _)

/-- More rows are read around those that were there. -/
theorem ordered_sublist (fewer : rows.Sublist others) :
    (ordered key rows).Sublist (ordered key others) := by
  induction fewer with
  | slnil => exact Sublist.refl _
  | cons row _ ih =>
    exact ih.trans (sublist_orderedInsert row _)
  | cons_cons row _ ih =>
    exact ih.orderedInsert_sublist row (ordered_pairwise _)

end SameRows

section Pages

variable {rows others : List ρ}

/-- Rows that come in between only push others off the page. -/
theorem filter_take_front {keep : ρ → Bool} (fewer : rows.Sublist others)
    (same : others.filter keep = rows.filter keep) (limit : Nat) :
    ((others.take limit).filter keep) <+: ((rows.take limit).filter keep) := by
  induction fewer generalizing limit with
  | slnil => exact prefix_rfl
  | @cons rows others row fewer ih =>
    have dropped : ¬ keep row = true := by
      intro kept
      rw [filter_cons_of_pos kept] at same
      have longer := congrArg List.length same
      have shorter := (fewer.filter keep).length_le
      rw [length_cons] at longer
      omega
    rw [filter_cons_of_neg dropped] at same
    cases limit with
    | zero => exact nil_prefix
    | succ limit =>
      rw [take_succ_cons, filter_cons_of_neg dropped]
      have longer : rows.take limit <+: rows.take (limit + 1) :=
        take_prefix_take_left (Nat.le_succ limit)
      exact (ih same limit).trans (longer.filter keep)
  | cons_cons row _ ih =>
    cases limit with
    | zero => exact nil_prefix
    | succ limit =>
      rw [take_succ_cons, take_succ_cons]
      by_cases kept : keep row = true
      · rw [filter_cons_of_pos kept, filter_cons_of_pos kept, List.cons.injEq] at same
        rw [filter_cons_of_pos kept, filter_cons_of_pos kept]
        exact cons_prefix_cons.mpr ⟨rfl, ih same.2 limit⟩
      · rw [filter_cons_of_neg kept, filter_cons_of_neg kept] at same
        rw [filter_cons_of_neg kept, filter_cons_of_neg kept]
        exact ih same limit

end Pages

section LatestRow

variable {key : ρ → κ} {rows others : List ρ}

theorem latest_concat (rows : List ρ) (row : ρ) :
    latest key (rows ++ [row]) = newer key (latest key rows) row := by
  rw [latest, foldl_concat, latest]

/-- The latest row has the greatest key, and is the last one with this key. -/
theorem latest_spec (rows : List ρ) :
    match latest key rows with
    | none => rows = []
    | some row => (rows.filter fun other => key other = key row).getLast? = some row ∧
        ∀ other ∈ rows, key other ≤ key row := by
  induction rows using reverseRecOn with
  | nil => rfl
  | append_singleton before row ih =>
    rw [latest_concat]
    cases found : latest key before with
    | none =>
      rw [found] at ih
      subst ih
      simp [newer]
    | some current =>
      simp only [found] at ih
      obtain ⟨last, greatest⟩ := ih
      simp only [newer]
      split_ifs with smaller
      · refine ⟨?_, ?_⟩
        · rw [filter_append, filter_cons_of_neg (by simpa using ne_of_lt smaller),
            filter_nil, append_nil, last]
        · intro other member
          rcases mem_append.mp member with earlier | same
          · exact greatest other earlier
          · rw [mem_singleton.mp same]
            exact le_of_lt smaller
      · refine ⟨?_, ?_⟩
        · rw [filter_append, filter_cons_of_pos (by simp), filter_nil, getLast?_concat]
        · intro other member
          rcases mem_append.mp member with earlier | same
          · exact (greatest other earlier).trans (not_lt.mp smaller)
          · rw [mem_singleton.mp same]

theorem latest_eq_none_iff : latest key rows = none ↔ rows = [] := by
  have spec := @latest_spec _ _ _ key rows
  cases found : latest key rows with
  | none =>
    rw [found] at spec
    exact iff_of_true rfl spec
  | some row =>
    simp only [found] at spec
    refine iff_of_false nofun ?_
    rintro rfl
    cases spec.1

theorem mem_of_latest {row : ρ} (found : latest key rows = some row) :
    row ∈ rows ∧ ∀ other ∈ rows, key other ≤ key row := by
  have spec := @latest_spec _ _ _ key rows
  simp only [found] at spec
  exact ⟨(mem_filter.mp (mem_of_getLast? spec.1)).1, spec.2⟩

/-- The latest row only depends on the rows of every key. -/
theorem latest_eq_of_sameRows (same : SameRows key rows others) :
    latest key rows = latest key others := by
  have spec := @latest_spec _ _ _ key rows
  have otherSpec := @latest_spec _ _ _ key others
  cases found : latest key rows with
  | none =>
    rw [latest_eq_none_iff] at found
    subst found
    refine (latest_eq_none_iff.mpr (eq_nil_iff_forall_not_mem.mpr fun row member => ?_)).symm
    exact not_mem_nil (same.mem_iff.mpr member)
  | some row =>
    simp only [found] at spec
    cases otherFound : latest key others with
    | none =>
      rw [latest_eq_none_iff] at otherFound
      subst otherFound
      exact absurd (same.mem_iff.mp (mem_of_latest found).1) not_mem_nil
    | some other =>
      simp only [otherFound] at otherSpec
      have keys : key row = key other := le_antisymm
        (otherSpec.2 row (same.mem_iff.mp (mem_of_latest found).1))
        (spec.2 other (same.mem_iff.mpr (mem_of_latest otherFound).1))
      rw [← spec.1, ← otherSpec.1, same, keys]

/-- A row with the greatest key is the latest one when it comes last. -/
theorem latest_concat_of_le {row : ρ} (greatest : ∀ other ∈ rows, key other ≤ key row) :
    latest key (rows ++ [row]) = some row := by
  rw [latest_concat]
  cases found : latest key rows with
  | none => rfl
  | some current => exact if_neg (not_lt.mpr (greatest current (mem_of_latest found).1))

/-- Rows of one key behind rows that are no later hold the latest row. -/
theorem latest_append_level {value : κ} (below : ∀ row ∈ rows, key row ≤ value)
    (level : ∀ row ∈ others, key row = value) :
    latest key (rows ++ others) = others.getLast?.or (latest key rows) := by
  rcases others.eq_nil_or_concat with rfl | ⟨before, row, rfl⟩
  · rw [append_nil, getLast?_nil, Option.none_or]
  · rw [concat_eq_append] at level ⊢
    have last : key row = value := level row (mem_append_right _ mem_cons_self)
    rw [← append_assoc, getLast?_concat, Option.some_or]
    refine latest_concat_of_le fun other member => ?_
    rw [last]
    rcases mem_append.mp member with inRows | inBefore
    · exact below other inRows
    · exact (level other (mem_append_left _ inBefore)).le

/-- It does not matter whether the latest rows are read first. -/
theorem latest_filter_ordered (rows : List ρ) (keep : ρ → Bool) :
    latest key ((ordered (OrderDual.toDual ∘ key) rows).filter keep) = latest key (rows.filter keep) := by
  have same : SameRows (OrderDual.toDual ∘ key) (ordered (OrderDual.toDual ∘ key) rows) rows :=
    ordered_sameRows rows
  exact latest_eq_of_sameRows ((same.comp OrderDual.ofDual.injective).filter keep)

end LatestRow

end Library.Latest
