import Mathlib.Data.List.Nodup

/-!
# Tables with a primary key

A table holds rows with distinct keys. Rows are changed or deleted where a condition
holds, and a row is inserted or merged into the row that has its key. What the row of a
key is after a statement follows from what it was before.
-/

namespace Library

open List

universe u v

structure KeyedTable {ρ : Type u} {κ : Type v} (key : ρ → κ) where
  rows : List ρ
  distinct : (rows.map key).Nodup

namespace KeyedTable

variable {ρ : Type u} {κ : Type v} [DecidableEq κ] {key : ρ → κ}

def empty : KeyedTable key := ⟨[], nodup_nil⟩

/-- The row of a key. -/
def find (table : KeyedTable key) (wanted : κ) : Option ρ :=
  table.rows.find? fun row => key row = wanted

/-- `EXISTS`. -/
def any (table : KeyedTable key) (condition : ρ → Bool) : Bool := table.rows.any condition

/-- `UPDATE … SET … WHERE`; the key stays. -/
def updateWhere (table : KeyedTable key) (condition : ρ → Bool) (set : ρ → ρ)
    (kept : ∀ row, key (set row) = key row) : KeyedTable key where
  rows := table.rows.map fun row => if condition row then set row else row
  distinct := by
    have keys : (key ∘ fun row => if condition row then set row else row) = key := by
      funext row
      rw [Function.comp_apply]
      split
      · exact kept row
      · rfl
    rw [map_map, keys]
    exact table.distinct

/-- `DELETE … WHERE`. -/
def deleteWhere (table : KeyedTable key) (condition : ρ → Bool) : KeyedTable key where
  rows := table.rows.filter fun row => !condition row
  distinct := table.distinct.sublist (filter_sublist.map key)

/-- `INSERT`; a row with its key is an error. -/
def insert (table : KeyedTable key) (row : ρ) : Option (KeyedTable key) :=
  if absent : key row ∈ table.rows.map key then none
  else some ⟨table.rows ++ [row], by
    rw [map_append, map_singleton, ← concat_eq_append]
    exact table.distinct.concat absent⟩

/-- `INSERT … ON CONFLICT DO UPDATE`; the old row is merged with the new one. -/
def upsert (table : KeyedTable key) (row : ρ) (merge : ρ → ρ)
    (kept : ∀ old, key (merge old) = key old) : KeyedTable key :=
  (table.insert row).getD (table.updateWhere (fun old => key old = key row) merge kept)

section Rows

variable {table : KeyedTable key} {row other : ρ} {wanted : κ}
variable {condition : ρ → Bool}

omit [DecidableEq κ] in
@[ext] theorem ext {first second : KeyedTable key} (same : first.rows = second.rows) :
    first = second := by
  cases first
  cases second
  cases same
  rfl

omit [DecidableEq κ] in
theorem rows_updateWhere (table : KeyedTable key) (condition : ρ → Bool) (set : ρ → ρ)
    (kept : ∀ row, key (set row) = key row) :
    (table.updateWhere condition set kept).rows =
      table.rows.map fun row => if condition row then set row else row := rfl

omit [DecidableEq κ] in
theorem updateWhere_of_none {set : ρ → ρ}
    {kept : ∀ row, key (set row) = key row} (none : ∀ row ∈ table.rows, ¬ condition row = true) :
    table.updateWhere condition set kept = table := by
  refine ext ?_
  refine (map_congr_left fun row member => ?_).trans (map_id _)
  exact if_neg (none row member)

theorem find_eq_some_iff : table.find wanted = some row ↔ row ∈ table.rows ∧ key row = wanted := by
  constructor
  · intro found
    exact ⟨List.mem_of_find?_eq_some found, by simpa using find?_some found⟩
  · rintro ⟨member, rfl⟩
    cases found : table.find (key row) with
    | none =>
      rw [find, find?_eq_none] at found
      exact absurd (decide_eq_true rfl) (found row member)
    | some other =>
      have sameKey : key other = key row := by simpa using find?_some found
      have same : other = row :=
        inj_on_of_nodup_map table.distinct (List.mem_of_find?_eq_some found) member sameKey
      rw [same]

theorem find_key (found : table.find wanted = some row) : key row = wanted :=
  (find_eq_some_iff.mp found).2

theorem mem_of_find (found : table.find wanted = some row) : row ∈ table.rows :=
  (find_eq_some_iff.mp found).1

theorem find_of_mem (member : row ∈ table.rows) : table.find (key row) = some row :=
  find_eq_some_iff.mpr ⟨member, rfl⟩

theorem find_eq_none_iff : table.find wanted = none ↔ ∀ row ∈ table.rows, key row ≠ wanted := by
  rw [find, find?_eq_none]
  simp

/-- A table that is known by its rows. -/
theorem find_eq {found : Option ρ} (rows : ∀ row, row ∈ table.rows ∧ key row = wanted ↔ found = some row) :
    table.find wanted = found := by
  ext row
  rw [find_eq_some_iff, rows row]

theorem any_iff :
    table.any condition = true ↔ ∃ wanted row, table.find wanted = some row ∧ condition row = true := by
  rw [any, any_eq_true]
  constructor
  · rintro ⟨row, member, holds⟩
    exact ⟨key row, row, find_of_mem member, holds⟩
  · rintro ⟨_, row, found, holds⟩
    exact ⟨row, mem_of_find found, holds⟩

end Rows

section Statements

variable (table : KeyedTable key) (wanted : κ)
variable {next : KeyedTable key} {row : ρ} {condition : ρ → Bool}

@[simp] theorem find_empty : (empty : KeyedTable key).find wanted = none := rfl

@[simp] theorem find_updateWhere (condition : ρ → Bool) (set : ρ → ρ)
    (kept : ∀ row, key (set row) = key row) :
    (table.updateWhere condition set kept).find wanted =
      (table.find wanted).map fun row => if condition row then set row else row := by
  rw [find, updateWhere, find?_map, find]
  congr 2
  funext row
  rw [Function.comp_apply, decide_eq_decide]
  split
  · rw [kept]
  · rfl

@[simp] theorem find_deleteWhere (condition : ρ → Bool) :
    (table.deleteWhere condition).find wanted =
      (table.find wanted).filter fun row => !condition row := by
  refine find_eq fun row => ?_
  rw [deleteWhere, mem_filter, and_right_comm, ← find_eq_some_iff, Option.filter_eq_some_iff]

/-- An update changes the row of a key or leaves it. -/
theorem find_updateWhere_cases (condition : ρ → Bool) (set : ρ → ρ)
    (kept : ∀ row, key (set row) = key row) :
    (table.updateWhere condition set kept).find wanted = table.find wanted ∨
      ∃ row, table.find wanted = some row ∧ condition row = true ∧
        (table.updateWhere condition set kept).find wanted = some (set row) := by
  rw [find_updateWhere]
  cases table.find wanted with
  | none => exact .inl rfl
  | some row =>
    rw [Option.map_some]
    split
    case isTrue holds => exact .inr ⟨row, rfl, holds, rfl⟩
    case isFalse => exact .inl rfl

variable {table wanted} in
/-- An update, seen at one key. -/
theorem find_updateWhere_of {set changed : ρ → ρ} (kept : ∀ row, key (set row) = key row)
    (here : ∀ row, key row = wanted → (if condition row then set row else row) = changed row) :
    (table.updateWhere condition set kept).find wanted = (table.find wanted).map changed := by
  rw [find_updateWhere]
  cases found : table.find wanted with
  | none => rfl
  | some row => exact congrArg some (here row (find_key found))

variable {table wanted} in
/-- A deletion, seen at one key. -/
theorem find_deleteWhere_of {dropped : ρ → Bool}
    (here : ∀ row, key row = wanted → condition row = dropped row) :
    (table.deleteWhere condition).find wanted =
      (table.find wanted).filter fun row => !dropped row := by
  rw [find_deleteWhere]
  cases found : table.find wanted with
  | none => rfl
  | some row => rw [Option.filter_some, Option.filter_some, here row (find_key found)]

variable {table} in
theorem rows_insert (inserted : table.insert row = some next) :
    next.rows = table.rows ++ [row] ∧ table.find (key row) = none := by
  rw [insert] at inserted
  split at inserted
  · cases inserted
  · rename_i absent
    cases inserted
    refine ⟨rfl, find_eq_none_iff.mpr fun old member same => absent ?_⟩
    exact mem_map.mpr ⟨old, member, same⟩

variable {table} in
theorem insert_of_find_eq_none (absent : table.find (key row) = none) :
    ∃ next, table.insert row = some next := by
  rw [insert]
  split
  case isTrue present =>
    obtain ⟨old, member, same⟩ := mem_map.mp present
    exact absurd same (find_eq_none_iff.mp absent old member)
  case isFalse => exact ⟨_, rfl⟩

variable {table} in
theorem find_insert (inserted : table.insert row = some next)
    (wanted : κ) : next.find wanted = if wanted = key row then some row else table.find wanted := by
  obtain ⟨rows, none⟩ := rows_insert inserted
  refine find_eq fun other => ?_
  rw [rows, mem_append, mem_singleton]
  by_cases here : wanted = key row
  · rw [if_pos here]
    constructor
    · rintro ⟨old | rfl, same⟩
      · exact absurd (same.trans here) (find_eq_none_iff.mp none other old)
      · rfl
    · rintro ⟨⟩
      exact ⟨.inr rfl, here.symm⟩
  · rw [if_neg here, find_eq_some_iff]
    constructor
    · rintro ⟨old | rfl, same⟩
      · exact ⟨old, same⟩
      · exact absurd same.symm here
    · rintro ⟨member, same⟩
      exact ⟨.inl member, same⟩

@[simp] theorem find_upsert (row : ρ) (merge : ρ → ρ) (kept : ∀ old, key (merge old) = key old) :
    (table.upsert row merge kept).find wanted =
      if wanted = key row then some (((table.find wanted).map merge).getD row)
      else table.find wanted := by
  rw [upsert]
  cases inserted : table.insert row with
  | some next =>
    rw [Option.getD_some, find_insert inserted]
    by_cases here : wanted = key row
    · rw [if_pos here, if_pos here, here, (rows_insert inserted).2]
      rfl
    · rw [if_neg here, if_neg here]
  | none =>
    rw [insert] at inserted
    split at inserted
    · rename_i present
      obtain ⟨old, member, same⟩ := mem_map.mp present
      rw [Option.getD_none, find_updateWhere]
      by_cases here : wanted = key row
      · have found : table.find wanted = some old :=
          find_eq_some_iff.mpr ⟨member, same.trans here.symm⟩
        rw [if_pos here, found, Option.map_some, if_pos (decide_eq_true same)]
        rfl
      · rw [if_neg here]
        cases found : table.find wanted with
        | none => rfl
        | some other =>
          have apart : ¬ decide (key other = key row) = true := by
            rw [decide_eq_true_iff, find_key found]
            exact here
          rw [Option.map_some, if_neg apart]
    · cases inserted

end Statements

end KeyedTable

end Library
