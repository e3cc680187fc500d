import Mathlib.Data.Finset.Card
import Mathlib.Data.List.AList
import Asterel.Library.Eviction

/-!
# Finite maps with traversals that drop or rewrite entries

A map is a list of entries with pairwise distinct keys; the order of the list
stands for the unspecified iteration order of a hash table. Lookup, insertion
and removal are the association-list operations of Mathlib. The operations here
visit every entry once: a traversal may rewrite a value or drop its entry.

Two maps may hold the same entries in different orders, so statements about
contents compare lookups, not entry lists.
-/

namespace Library

open List hiding modify

universe u v

/-- A finite map from keys to values of one type. -/
abbrev HashMap (κ : Type u) (ν : Type v) := AList fun _ : κ => ν

namespace HashMap

variable {κ : Type u} {ν : Type v}
variable {map : HashMap κ ν} {entries : List (Σ _ : κ, ν)} {key : κ} (keep : κ → ν → Bool)
  (step : κ → ν → Option ν) {value : ν}

/-- Rewrite or drop one entry of a traversal. -/
def visit (step : κ → ν → Option ν) (entry : Σ _ : κ, ν) : Option (Σ _ : κ, ν) :=
  (step entry.1 entry.2).map fun value => ⟨entry.1, value⟩

theorem visit_eq_some {step : κ → ν → Option ν} {entry : Σ _ : κ, ν} :
    visit step entry = some ⟨key, value⟩ ↔ entry.1 = key ∧ step entry.1 entry.2 = some value := by
  obtain ⟨source, stored⟩ := entry
  simp only [visit, Option.map_eq_some_iff, Sigma.mk.injEq, heq_eq_eq]
  constructor
  · rintro ⟨result, stepped, rfl, rfl⟩
    exact ⟨rfl, stepped⟩
  · rintro ⟨rfl, stepped⟩
    exact ⟨value, stepped, rfl, rfl⟩

/-- A traversal keeps keys, so it cannot make two entries share one. -/
theorem visit_keys (entries : List (Σ _ : κ, ν)) :
    (entries.filterMap (visit step)).keys.Sublist entries.keys := by
  induction entries with
  | nil => exact Sublist.refl _
  | cons entry rest ih =>
    cases visited : visit step entry with
    | none =>
      rw [filterMap_cons_none visited]
      exact ih.cons _
    | some result =>
      obtain ⟨same, _⟩ := visit_eq_some.mp visited
      rw [filterMap_cons_some visited]
      simpa [List.keys, same] using ih

/-- Visit every entry, keeping the rewritten value or dropping the entry. -/
def filterMap (step : κ → ν → Option ν) (map : HashMap κ ν) : HashMap κ ν :=
  ⟨map.entries.filterMap (visit step), Nodup.sublist (visit_keys step map.entries) map.nodupKeys⟩

/-- Visit every entry and keep exactly those the test accepts. -/
def retain (keep : κ → ν → Bool) (map : HashMap κ ν) : HashMap κ ν :=
  map.filterMap fun key value => if keep key value then some value else none

/-- The number of stored entries. -/
def len (map : HashMap κ ν) : Nat := map.entries.length

/-- The stored values in iteration order. -/
def values (map : HashMap κ ν) : List ν := map.entries.map Sigma.snd

/-- Keep only the listed ones of a map's entries. -/
def keepOnly (map : HashMap κ ν) (entries : List (Σ _ : κ, ν))
    (chosen : entries.Sublist map.entries) : HashMap κ ν :=
  ⟨entries, map.nodupKeys.sublist chosen⟩

/-- Drop matching entries in iteration order until `limit` have been counted. -/
def dropUpTo (limit : Nat) (doomed : ν → Bool) (removed : Nat) (map : HashMap κ ν) :
    Nat × HashMap κ ν :=
  let pass := Eviction.dropUpTo limit (fun entry : Σ _ : κ, ν => doomed entry.2) removed map.entries
  (pass.1, map.keepOnly pass.2 (Eviction.dropUpTo_sublist _ _ _ _))

/-- An order in which a hash table may list its entries. -/
structure IterationOrder (κ : Type u) (ν : Type v) where
  arrange : List (Σ _ : κ, ν) → List (Σ _ : κ, ν)
  perm : ∀ entries, (arrange entries).Perm entries

/-- The order in which the entries are held. -/
def IterationOrder.held : IterationOrder κ ν := ⟨id, fun _ => .refl _⟩

/-- The same entries listed in another order. -/
def arranged (order : IterationOrder κ ν) (map : HashMap κ ν) : HashMap κ ν :=
  ⟨order.arrange map.entries, (perm_nodupKeys (order.perm map.entries)).mpr map.nodupKeys⟩

theorem entries_retain (map : HashMap κ ν) :
    (map.retain keep).entries = map.entries.filter fun entry => keep entry.1 entry.2 := by
  simp only [retain, filterMap]
  induction map.entries with
  | nil => rfl
  | cons entry rest ih =>
    obtain ⟨key, value⟩ := entry
    cases kept : keep key value <;> simp [visit, kept, ih]

variable [DecidableEq κ]

/-- A traversal acts on each key's value independently of all other keys. -/
@[simp] theorem lookup_filterMap (map : HashMap κ ν) (key : κ) :
    (map.filterMap step).lookup key = (map.lookup key).bind (step key) := by
  ext value
  have entry : value ∈ (map.filterMap step).lookup key ↔
      ∃ stored, (⟨key, stored⟩ : Σ _ : κ, ν) ∈ map.entries ∧ step key stored = some value := by
    rw [AList.mem_lookup_iff]
    simp only [filterMap, mem_filterMap]
    constructor
    · rintro ⟨⟨source, stored⟩, member, visited⟩
      obtain ⟨rfl, stepped⟩ := visit_eq_some.mp visited
      exact ⟨stored, member, stepped⟩
    · rintro ⟨stored, member, stepped⟩
      exact ⟨⟨key, stored⟩, member, visit_eq_some.mpr ⟨rfl, stepped⟩⟩
  rw [← Option.mem_def, entry, Option.bind_eq_some_iff]
  exact exists_congr fun stored => and_congr_left fun _ => AList.mem_lookup_iff.symm

/-- Retention filters each lookup by the test on that entry alone. -/
@[simp] theorem lookup_retain (map : HashMap κ ν) (key : κ) :
    (map.retain keep).lookup key = (map.lookup key).filter (keep key) := by
  rw [retain, lookup_filterMap]
  cases map.lookup key <;> rfl

/-- Insert the listed entries in order; a later entry replaces an earlier one. -/
def collect (entries : List (Σ _ : κ, ν)) : HashMap κ ν :=
  entries.foldl (fun map entry => map.insert entry.1 entry.2) ∅

theorem lookup_insert_all (entries : List (Σ _ : κ, ν)) (distinct : entries.NodupKeys)
    (map : HashMap κ ν) (key : κ) :
    AList.lookup key (entries.foldl (fun map entry => map.insert entry.1 entry.2) map) =
      (entries.dlookup key).or (map.lookup key) := by
  induction entries generalizing map with
  | nil => rfl
  | cons entry rest ih =>
    obtain ⟨first, value⟩ := entry
    obtain ⟨absent, later⟩ := nodupKeys_cons.mp distinct
    rw [foldl_cons, ih later]
    by_cases same : key = first
    · subst same
      rw [dlookup_eq_none.mpr absent, dlookup_cons_eq, AList.lookup_insert]
      rfl
    · rw [dlookup_cons_ne _ _ same, AList.lookup_insert_ne same]

/-- Collecting entries with distinct keys keeps exactly those entries. -/
theorem lookup_collect (distinct : entries.NodupKeys) (key : κ) :
    (collect entries).lookup key = entries.dlookup key := by
  rw [collect, lookup_insert_all entries distinct, AList.lookup_empty, Option.or_none]

/-- Insert the listed entries whose keys are still missing. -/
def insertMissing (entries : List (Σ _ : κ, ν)) (map : HashMap κ ν) : HashMap κ ν :=
  entries.foldl (fun map entry => if entry.1 ∈ map then map else map.insert entry.1 entry.2) map

/-- An entry that is there stays, and a missing one is taken from the list. -/
theorem lookup_insertMissing (distinct : entries.NodupKeys) (map : HashMap κ ν) (key : κ) :
    (map.insertMissing entries).lookup key = (map.lookup key).or (entries.dlookup key) := by
  induction entries generalizing map with
  | nil => simp [insertMissing]
  | cons entry rest ih =>
    obtain ⟨first, value⟩ := entry
    obtain ⟨absent, later⟩ := nodupKeys_cons.mp distinct
    have next := ih later
    simp only [insertMissing, foldl_cons] at next ⊢
    rw [next]
    by_cases same : key = first
    · subst same
      by_cases present : key ∈ map
      · obtain ⟨stored, found⟩ := Option.isSome_iff_exists.mp (AList.lookup_isSome.mpr present)
        rw [if_pos present, found, Option.some_or, Option.some_or]
      · rw [if_neg present, AList.lookup_insert, AList.lookup_eq_none.mpr present,
          dlookup_cons_eq, Option.some_or, Option.none_or]
    · rw [dlookup_cons_ne _ _ same]
      split
      · rfl
      · rw [AList.lookup_insert_ne same]

/-- Rewrite the value of one key where it is. -/
def modify (key : κ) (rewrite : ν → ν) (map : HashMap κ ν) : HashMap κ ν :=
  map.filterMap fun other value => some (if other = key then rewrite value else value)

@[simp] theorem lookup_modify (key : κ) (rewrite : ν → ν) (map : HashMap κ ν) (other : κ) :
    (map.modify key rewrite).lookup other =
      if other = key then (map.lookup other).map rewrite else map.lookup other := by
  rw [modify, lookup_filterMap]
  split_ifs <;> cases map.lookup other <;> rfl

@[simp] theorem len_modify (key : κ) (rewrite : ν → ν) (map : HashMap κ ν) :
    (map.modify key rewrite).len = map.len := by
  have entries : (map.modify key rewrite).entries = map.entries.map fun entry =>
      ⟨entry.1, if entry.1 = key then rewrite entry.2 else entry.2⟩ :=
    filterMap_eq_map.symm ▸ rfl
  rw [len, entries, length_map, len]

/-- Remove the listed keys. -/
def eraseAll (keys : List κ) (map : HashMap κ ν) : HashMap κ ν :=
  keys.foldl (fun map key => map.erase key) map

@[simp] theorem lookup_eraseAll (keys : List κ) (map : HashMap κ ν) (key : κ) :
    (map.eraseAll keys).lookup key = if key ∈ keys then none else map.lookup key := by
  induction keys generalizing map with
  | nil => simp [eraseAll]
  | cons first rest ih =>
    have later := ih (map.erase first)
    simp only [eraseAll, foldl_cons] at later ⊢
    rw [later]
    by_cases same : key = first
    · subst same
      simp
    · simp [same]

omit [DecidableEq κ] in
theorem len_eq_keys (map : HashMap κ ν) : map.len = map.keys.length := by
  simp [len, AList.keys, List.keys]

theorem len_erase (stored : key ∈ map) :
    HashMap.len (map.erase key) + 1 = map.len := by
  have some : 0 < map.keys.length := length_pos_of_mem (AList.mem_keys.mp stored)
  rw [len_eq_keys, len_eq_keys, AList.keys_erase, length_erase_of_mem (AList.mem_keys.mp stored)]
  omega

theorem len_insert_le (map : HashMap κ ν) (key : κ) (value : ν) :
    HashMap.len (map.insert key value) ≤ map.len + 1 := by
  rw [len_eq_keys, len_eq_keys, AList.keys_insert, length_cons]
  exact Nat.succ_le_succ length_erase_le

/-- Removing distinct stored keys shortens the map by their number. -/
theorem len_eraseAll {keys : List κ} (distinct : keys.Nodup)
    (stored : ∀ key ∈ keys, key ∈ map) : (map.eraseAll keys).len + keys.length = map.len := by
  induction keys generalizing map with
  | nil => rfl
  | cons first rest ih =>
    obtain ⟨absent, later⟩ := nodup_cons.mp distinct
    have remaining : ∀ key ∈ rest, key ∈ (map.erase first : HashMap κ ν) := by
      intro key member
      rw [AList.mem_erase]
      exact ⟨fun same => absent (same ▸ member), stored key (mem_cons_of_mem _ member)⟩
    have shorter := ih later remaining
    have erased := len_erase (stored first mem_cons_self)
    simp only [eraseAll, foldl_cons, length_cons] at shorter ⊢
    omega

@[simp] theorem lookup_arranged (order : IterationOrder κ ν) (map : HashMap κ ν) (key : κ) :
    (map.arranged order).lookup key = map.lookup key :=
  AList.perm_lookup (order.perm map.entries)

/-- An entry and the values of the others, which an insertion under its key keeps. -/
theorem values_perm {old : ν} (found : map.lookup key = some old) :
    ∃ rest, map.values.Perm (old :: rest) ∧
      ∀ new, HashMap.values (map.insert key new) = new :: rest := by
  have present : key ∈ map.entries.keys :=
    mem_keys_of_mem (AList.mem_lookup_iff.mp found)
  obtain ⟨stored, before, after, absent, split, erased⟩ := exists_of_kerase present
  have same : stored = old := by
    have lookedUp : map.entries.dlookup key = some old := found
    rw [split, dlookup_append, dlookup_eq_none.mpr absent, dlookup_cons_eq] at lookedUp
    exact Option.some.inj lookedUp
  subst same
  refine ⟨(before ++ after).map Sigma.snd, ?_, fun new => ?_⟩
  · rw [values, split, map_append, map_append, map_cons]
    exact perm_middle
  · have entries : (map.insert key new).entries = ⟨key, new⟩ :: (before ++ after) :=
      congrArg (List.cons _) erased
    rw [values, entries, map_cons]

theorem values_insert_of_absent (absent : map.lookup key = none)
    (value : ν) : HashMap.values (map.insert key value) = value :: map.values := by
  have missing : key ∉ map := AList.lookup_eq_none.mp absent
  rw [values, AList.insert_of_notMem missing, map_cons, values]

theorem mem_values :
    value ∈ map.values ↔ ∃ key, map.lookup key = some value := by
  rw [values, mem_map]
  constructor
  · rintro ⟨⟨key, _⟩, member, rfl⟩
    exact ⟨key, AList.mem_lookup_iff.mpr member⟩
  · rintro ⟨key, found⟩
    exact ⟨⟨key, value⟩, AList.mem_lookup_iff.mp found, rfl⟩

/-- What dropped entries do not contribute to is kept. -/
theorem flatMap_values_retain {α : Type u} {keep : κ → ν → Bool} {content : ν → List α}
    (nothing : ∀ key value, map.lookup key = some value → keep key value = false → content value = []) :
    (map.retain keep).values.flatMap content = map.values.flatMap content := by
  have dropped : ∀ entry ∈ map.entries, keep entry.1 entry.2 = false → content entry.2 = [] :=
    fun entry member => nothing entry.1 entry.2 (AList.mem_lookup_iff.mpr member)
  rw [values, values, entries_retain]
  clear nothing
  generalize map.entries = entries at dropped ⊢
  induction entries with
  | nil => rfl
  | cons entry rest ih =>
    have later := ih fun other member => dropped other (mem_cons_of_mem _ member)
    rw [filter_cons, map_cons, flatMap_cons]
    cases kept : keep entry.1 entry.2 with
    | true => rw [if_pos rfl, map_cons, flatMap_cons, later]
    | false =>
      rw [if_neg Bool.false_ne_true, later, dropped entry mem_cons_self kept, nil_append]

/-- Every distinct key of a map counts towards its length. -/
theorem len_eq_card (map : HashMap κ ν) : map.len = map.keys.toFinset.card := by
  rw [toFinset_card_of_nodup map.keys_nodup]
  simp [len, AList.keys, List.keys]

theorem mem_iff_lookup :
    key ∈ map ↔ ∃ value, map.lookup key = some value := by
  rw [← AList.lookup_isSome, Option.isSome_iff_exists]

/-- A map all of whose keys lie in a finite set is no longer than the set. -/
theorem len_le_card {keys : Finset κ}
    (inside : ∀ key value, map.lookup key = some value → key ∈ keys) :
    map.len ≤ keys.card := by
  rw [len_eq_card]
  apply Finset.card_le_card
  intro key member
  obtain ⟨value, found⟩ := mem_iff_lookup.mp (AList.mem_keys.mpr (mem_toFinset.mp member))
  exact inside key value found

end HashMap

end Library
