import Mathlib.Data.List.Sort

/-!
# Reading a table in the order of a key

Rows are read in the order of their keys, rows with equal keys in table order.
Rows added with later keys are read last, and a strictly ordered reading may be
filtered before or after it is ordered. A page is the beginning of the reading
behind a position, and the position behind its last row is where the next page
begins.
-/

namespace Library.OrderedTable

open List

universe u v

variable {ρ : Type u} {κ : Type v} [LinearOrder κ] (key : ρ → κ)

/-- The rows in the order of their keys. -/
def ordered (rows : List ρ) : List ρ := rows.insertionSort fun first second => key first ≤ key second

/-- The keys of a reading strictly increase. -/
def Increasing (rows : List ρ) : Prop := rows.Pairwise fun first second => key first < key second

variable {key} {rows later : List ρ}

instance keyTotal : Std.Total fun first second : ρ => key first ≤ key second :=
  ⟨fun first second => le_total (key first) (key second)⟩

instance keyTrans : IsTrans ρ fun first second => key first ≤ key second :=
  ⟨fun _ _ _ => le_trans⟩

theorem ordered_perm (rows : List ρ) : (ordered key rows).Perm rows :=
  perm_insertionSort _ rows

theorem ordered_pairwise (rows : List ρ) :
    (ordered key rows).Pairwise fun first second => key first ≤ key second :=
  pairwise_insertionSort _ rows

theorem orderedInsert_append {row : ρ} (rows : List ρ)
    (after : ∀ last ∈ later, key row ≤ key last) :
    (rows ++ later).orderedInsert (fun first second => key first ≤ key second) row =
      rows.orderedInsert (fun first second => key first ≤ key second) row ++ later := by
  induction rows with
  | nil =>
    cases later with
    | nil => rfl
    | cons head rest =>
      have first : key row ≤ key head := after head mem_cons_self
      simp [orderedInsert_cons, first]
  | cons head rest ih =>
    rw [cons_append, orderedInsert_cons, orderedInsert_cons]
    split
    · rfl
    · rw [ih]
      rfl

/-- Rows with later keys are read after all others. -/
theorem ordered_append (after : ∀ row ∈ rows, ∀ last ∈ later, key row ≤ key last) :
    ordered key (rows ++ later) = ordered key rows ++ ordered key later := by
  induction rows with
  | nil => rfl
  | cons row rest ih =>
    obtain ⟨rowAfter, restAfter⟩ := forall_mem_cons.mp after
    have laterAfter : ∀ last ∈ ordered key later, key row ≤ key last := fun last member =>
      rowAfter last ((ordered_perm later).mem_iff.mp member)
    have restOrdered := ih restAfter
    simp only [ordered] at restOrdered laterAfter ⊢
    rw [cons_append, insertionSort_cons, restOrdered, insertionSort_cons]
    exact orderedInsert_append _ laterAfter

/-- Rows that stand in the order of their keys are read as they stand. -/
theorem ordered_eq_self (sorted : rows.Pairwise fun first second => key first ≤ key second) :
    ordered key rows = rows :=
  sorted.insertionSort_eq

/-- Rows with distinct keys are read backwards in the opposite order. -/
theorem ordered_dual
    (distinct : ∀ first ∈ rows, ∀ second ∈ rows, key first = key second → first = second) :
    ordered (OrderDual.toDual ∘ key) rows = (ordered key rows).reverse := by
  have permuted : (ordered (OrderDual.toDual ∘ key) rows).Perm (ordered key rows).reverse :=
    (ordered_perm rows).trans ((ordered_perm rows).symm.trans (reverse_perm _).symm)
  have backwards : (ordered (OrderDual.toDual ∘ key) rows).Pairwise fun first second =>
      key second ≤ key first := @ordered_pairwise ρ κᵒᵈ _ (OrderDual.toDual ∘ key) rows
  refine Perm.eq_of_pairwise (fun first second inFirst inSecond before behind => ?_)
    backwards (pairwise_reverse.mpr (ordered_pairwise rows)) permuted
  exact distinct first ((ordered_perm rows).mem_iff.mp inFirst) second
    ((ordered_perm rows).mem_iff.mp (mem_reverse.mp inSecond)) (le_antisymm behind before)

/-- A strictly ordered reading can be filtered afterwards. -/
theorem ordered_filter (increasing : Increasing key (ordered key rows)) (keep : ρ → Bool) :
    ordered key (rows.filter keep) = (ordered key rows).filter keep := by
  have permuted : (ordered key (rows.filter keep)).Perm ((ordered key rows).filter keep) :=
    (ordered_perm _).trans ((ordered_perm rows).symm.filter keep)
  have filtered : Increasing key ((ordered key rows).filter keep) := increasing.filter keep
  refine Perm.eq_of_pairwise (fun first second inFirst inSecond before behind => ?_)
    (ordered_pairwise _) (filtered.imp le_of_lt) permuted
  have same : key first = key second := le_antisymm before behind
  have firstRead := permuted.mem_iff.mp inFirst
  -- rows of a strictly ordered reading with one key are one row
  by_contra different
  rcases pairwise_iff_getElem.mp filtered with ordered
  obtain ⟨i, iInside, rfl⟩ := getElem_of_mem firstRead
  obtain ⟨j, jInside, rfl⟩ := getElem_of_mem inSecond
  rcases Nat.lt_trichotomy i j with less | rfl | more
  · exact absurd same (ne_of_lt (ordered i j iInside jInside less))
  · exact different rfl
  · exact absurd same.symm (ne_of_lt (ordered j i jInside iInside more))

/-- The rows before a place are those with smaller keys. -/
theorem filter_before (increasing : Increasing key rows) {index : Nat} {row : ρ}
    (found : rows[index]? = some row) :
    rows.filter (fun other => key other < key row) = rows.take index ∧
      rows.filter (fun other => ¬ key other < key row) = rows.drop index := by
  obtain ⟨inside, same⟩ := List.getElem?_eq_some_iff.mp found
  have split : rows = rows.take index ++ row :: rows.drop (index + 1) := by
    rw [← same, getElem_cons_drop, take_append_drop]
  have parts : Increasing key (rows.take index ++ row :: rows.drop (index + 1)) := split ▸ increasing
  obtain ⟨_, tail, across⟩ := pairwise_append.mp parts
  have before : ∀ other ∈ rows.take index, key other < key row := fun other member =>
    across other member row mem_cons_self
  have behind : ∀ other ∈ rows.drop index, ¬ key other < key row := by
    intro other member
    rw [← getElem_cons_drop inside, same, mem_cons] at member
    rcases member with rfl | later
    · exact lt_irrefl _
    · exact not_lt_of_gt ((pairwise_cons.mp tail).1 other later)
  have whole : ∀ keep : ρ → Bool,
      rows.filter keep = (rows.take index).filter keep ++ (rows.drop index).filter keep := by
    intro keep
    rw [← filter_append, take_append_drop]
  constructor
  · rw [whole, filter_eq_self.mpr (by simpa using before),
      filter_eq_nil_iff.mpr (by simpa using behind), append_nil]
  · have gone : (rows.take index).filter (fun other => ¬ key other < key row) = [] :=
      filter_eq_nil_iff.mpr (by simpa using before)
    have kept : (rows.drop index).filter (fun other => ¬ key other < key row) =
        rows.drop index := filter_eq_self.mpr (by simpa using behind)
    rw [whole, gone, kept, nil_append]

section Pages

variable (key) in
/-- The row comes after the position; without a position every row does. -/
def After (position : Option κ) (row : ρ) : Prop := ∀ last ∈ position, last < key row

instance (position : Option κ) : DecidablePred (After key position) := fun row =>
  inferInstanceAs (Decidable (∀ last ∈ position, last < key row))

variable (key) in
/-- The first rows after a position, in the order of their keys. -/
def page (position : Option κ) (limit : Nat) (rows : List ρ) : List ρ :=
  (ordered key (rows.filter fun row => After key position row)).take limit

variable {position : Option κ} {limit : Nat} {row last : ρ}

theorem mem_ordered_after :
    row ∈ ordered key (rows.filter fun row => After key position row) ↔
      row ∈ rows ∧ After key position row := by
  rw [(ordered_perm _).mem_iff, mem_filter, decide_eq_true_eq]

theorem mem_of_mem_page (member : row ∈ page key position limit rows) :
    row ∈ rows ∧ After key position row :=
  mem_ordered_after.mp (mem_of_mem_take member)

/-- A page shows no row twice. -/
theorem page_nodup {ι : Type v} {identity : ρ → ι} (distinct : (rows.map identity).Nodup) :
    ((page key position limit rows).map identity).Nodup := by
  have filtered : ((rows.filter fun row => After key position row).map identity).Nodup :=
    distinct.sublist (filter_sublist.map identity)
  have reading := ((@ordered_perm _ _ _ key _).map identity).nodup_iff.mpr filtered
  exact reading.sublist ((take_sublist _ _).map identity)

theorem page_le_last (ends : (page key position limit rows).getLast? = some last)
    (member : row ∈ page key position limit rows) : key row ≤ key last := by
  have sorted : (page key position limit rows).Pairwise fun first second =>
      key first ≤ key second := (ordered_pairwise _).sublist (take_sublist _ _)
  rw [getLast?_eq_some_iff] at ends
  obtain ⟨front, split⟩ := ends
  rw [split] at sorted member
  rcases mem_append.mp member with earlier | final
  · exact (pairwise_append.mp sorted).2.2 row earlier last mem_cons_self
  · rw [mem_singleton.mp final]

/-- A row after the position is on the page or behind it, and a short page leaves
nothing behind. -/
theorem page_rest (member : row ∈ rows) (after : After key position row) :
    row ∈ page key position limit rows ∨ limit ≤ (page key position limit rows).length ∧
        ∀ shown ∈ page key position limit rows, key shown ≤ key row := by
  have read := mem_ordered_after.mpr ⟨member, after⟩
  rw [← take_append_drop limit
    (ordered key (rows.filter fun row => After key position row)), mem_append] at read
  rcases read with shown | behind
  · exact .inl shown
  · right
    constructor
    · have more : 0 < ((ordered key (rows.filter fun row => After key position row)).drop
          limit).length := length_pos_of_mem behind
      rw [length_drop] at more
      rw [page, length_take]
      omega
    · intro shown inPage
      have sorted := @ordered_pairwise _ _ _ key (rows.filter fun row => After key position row)
      rw [← take_append_drop limit (ordered key _)] at sorted
      exact (pairwise_append.mp sorted).2.2 shown inPage row behind

/-- With distinct keys, a row that is not on the page comes after the last row shown. -/
theorem page_next
    (distinct : ∀ first ∈ rows, ∀ second ∈ rows, key first = key second → first = second)
    (ends : (page key position limit rows).getLast? = some last) (member : row ∈ rows)
    (after : After key position row) :
    row ∈ page key position limit rows ∨ After key (some (key last)) row := by
  have rest : row ∈ page key position limit rows ∨ _ := page_rest member after
  rcases rest with shown | ⟨_, behind⟩
  · exact .inl shown
  · have lastShown := mem_of_getLast? ends
    by_cases same : key last = key row
    · have lastMember := (mem_of_mem_page lastShown).1
      exact .inl (distinct last lastMember row member same ▸ lastShown)
    · right
      rintro _ ⟨⟩
      exact lt_of_le_of_ne (behind last lastShown) same

end Pages

end Library.OrderedTable
