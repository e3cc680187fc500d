import Mathlib.Data.List.Sort

/-!
# Maps in the order of their keys

A map keeps its entries in ascending order of distinct keys. Changing the entry of one
key leaves all others, and what a map holds determines the list of its entries.
-/

namespace Library

open List

universe u v

structure SortedMap (κ : Type u) (ν : Type v) [LinearOrder κ] where
  entries : List (κ × ν)
  sorted : entries.Pairwise fun first second => first.1 < second.1

namespace SortedMap

variable {κ : Type u} {ν : Type v} [LinearOrder κ]
variable {entries : List (κ × ν)} (change : Option ν → ν) (map : SortedMap κ ν) {key : κ}

def empty : SortedMap κ ν := ⟨[], List.Pairwise.nil⟩

def getEntries (key : κ) : List (κ × ν) → Option ν
  | [] => none
  | entry :: rest => if entry.1 = key then some entry.2 else getEntries key rest

def get (map : SortedMap κ ν) (key : κ) : Option ν := getEntries key map.entries

/-- Insert or change the entry of a key. -/
def alterEntries (change : Option ν → ν) (key : κ) : List (κ × ν) → List (κ × ν)
  | [] => [(key, change none)]
  | entry :: rest =>
    if key < entry.1 then (key, change none) :: entry :: rest
    else if entry.1 = key then (key, change (some entry.2)) :: rest
    else entry :: alterEntries change key rest

theorem mem_alterEntries {change : Option ν → ν} {entry : κ × ν}
    (member : entry ∈ alterEntries change key entries) : entry.1 = key ∨ entry ∈ entries := by
  induction entries with
  | nil =>
    rw [alterEntries, mem_singleton] at member
    exact .inl (congrArg Prod.fst member)
  | cons head rest ih =>
    rw [alterEntries] at member
    split_ifs at member
    · rcases mem_cons.mp member with rfl | later
      · exact .inl rfl
      · exact .inr later
    · rcases mem_cons.mp member with rfl | later
      · exact .inl rfl
      · exact .inr (mem_cons_of_mem _ later)
    · rcases mem_cons.mp member with rfl | later
      · exact .inr mem_cons_self
      · exact (ih later).imp_right (mem_cons_of_mem _)

theorem alterEntries_sorted (key : κ)
    (sorted : entries.Pairwise fun first second => first.1 < second.1) :
    (alterEntries change key entries).Pairwise fun first second => first.1 < second.1 := by
  induction entries with
  | nil => exact pairwise_singleton _ _
  | cons head rest ih =>
    obtain ⟨above, restSorted⟩ := pairwise_cons.mp sorted
    rw [alterEntries]
    split_ifs with before same
    · refine pairwise_cons.mpr ⟨?_, sorted⟩
      refine forall_mem_cons.mpr ⟨before, fun entry member => ?_⟩
      exact before.trans (above entry member)
    · exact pairwise_cons.mpr ⟨same ▸ above, restSorted⟩
    · refine pairwise_cons.mpr ⟨fun entry member => ?_, ih restSorted⟩
      rcases mem_alterEntries member with altered | kept
      · rw [altered]
        exact lt_of_le_of_ne (not_lt.mp before) same
      · exact above entry kept

def alter (change : Option ν → ν) (key : κ) (map : SortedMap κ ν) : SortedMap κ ν :=
  ⟨alterEntries change key map.entries, alterEntries_sorted change key map.sorted⟩

theorem getEntries_eq_none
    (above : ∀ entry ∈ entries, key < entry.1) : getEntries key entries = none := by
  induction entries with
  | nil => rfl
  | cons head rest ih =>
    obtain ⟨headAbove, restAbove⟩ := forall_mem_cons.mp above
    rw [getEntries, if_neg (ne_of_gt headAbove), ih restAbove]

theorem getEntries_alterEntries (key other : κ)
    (sorted : entries.Pairwise fun first second => first.1 < second.1) :
    getEntries other (alterEntries change key entries) =
      if other = key then some (change (getEntries key entries)) else getEntries other entries := by
  induction entries with
  | nil =>
    rw [alterEntries, getEntries]
    simp only [eq_comm, getEntries]
  | cons head rest ih =>
    obtain ⟨above, restSorted⟩ := pairwise_cons.mp sorted
    rw [alterEntries]
    by_cases before : key < head.1
    · have missing : getEntries key (head :: rest) = none := by
        refine getEntries_eq_none (forall_mem_cons.mpr ⟨before, fun entry member => ?_⟩)
        exact before.trans (above entry member)
      rw [if_pos before, getEntries, missing]
      simp only [eq_comm]
    · rw [if_neg before]
      by_cases same : head.1 = key
      · rw [if_pos same, getEntries, getEntries, if_pos same, getEntries, same]
        simp only [eq_comm]
        split <;> rfl
      · rw [if_neg same, getEntries, ih restSorted, getEntries, if_neg same, getEntries]
        by_cases isKey : other = key
        · rw [if_pos isKey, if_pos isKey, if_neg (isKey ▸ same)]
        · rw [if_neg isKey, if_neg isKey]

theorem get_alter (key other : κ) (map : SortedMap κ ν) :
    (map.alter change key).get other =
      if other = key then some (change (map.get key)) else map.get other :=
  getEntries_alterEntries change key other map.sorted

/-- A run of changes, seen at one key. -/
theorem get_foldl_alter {ρ : Type u} {target : ρ → Option κ} {change : ρ → Option ν → ν} (key : κ)
    (rows : List ρ) (map : SortedMap κ ν) :
    (rows.foldl (fun map row => (target row).elim map fun key => map.alter (change row) key) map).get key =
      (rows.filter fun row => target row = some key).foldl
        (fun current row => some (change row current)) (map.get key) := by
  induction rows generalizing map with
  | nil => rfl
  | cons row rest ih =>
    rw [foldl_cons, ih]
    cases aimed : target row with
    | none => rw [filter_cons_of_neg (by simp [aimed]), Option.elim_none]
    | some other =>
      rw [Option.elim_some, get_alter]
      by_cases same : key = other
      · rw [if_pos same, filter_cons_of_pos (by simp [aimed, same]), foldl_cons, same]
      · rw [if_neg same, filter_cons_of_neg (by simpa [aimed] using Ne.symm same)]

theorem mem_entries_iff (entry : κ × ν) :
    entry ∈ map.entries ↔ map.get entry.1 = some entry.2 := by
  obtain ⟨entries, sorted⟩ := map
  simp only [get]
  induction entries with
  | nil => exact iff_of_false not_mem_nil nofun
  | cons head rest ih =>
    obtain ⟨above, restSorted⟩ := pairwise_cons.mp sorted
    rw [mem_cons, getEntries]
    split_ifs with same
    · constructor
      · rintro (rfl | later)
        · rfl
        · exact absurd same (ne_of_lt (above entry later))
      · intro value
        exact .inl (Prod.ext same.symm (Option.some.inj value).symm)
    · rw [← ih restSorted]
      exact or_iff_right fun here => same (congrArg Prod.fst here.symm)

/-- The entry of a key among the entries. -/
theorem find?_entries {wanted : κ × ν → Bool}
    (isKey : ∀ entry, wanted entry = true ↔ entry.1 = key) :
    map.entries.find? wanted = (map.get key).map (key, ·) := by
  rw [get]
  induction map.entries with
  | nil => rfl
  | cons head rest ih =>
    rw [getEntries]
    by_cases same : head.1 = key
    · rw [if_pos same, List.find?_cons_of_pos ((isKey head).mpr same), ← same, Option.map_some]
    · rw [if_neg same, List.find?_cons_of_neg (fun found => same ((isKey head).mp found)), ih]

/-- The entries that are kept are determined by what the map holds for their keys. -/
theorem filter_entries_eq {map other : SortedMap κ ν} {keep : κ → Bool}
    (same : ∀ key, keep key = true → map.get key = other.get key) :
    map.entries.filter (fun entry => keep entry.1) =
      other.entries.filter fun entry => keep entry.1 := by
  have irreflexive : Std.Irrefl fun first second : κ × ν => first.1 < second.1 :=
    ⟨fun entry => lt_irrefl entry.1⟩
  have asymmetric : Std.Antisymm fun first second : κ × ν => first.1 < second.1 :=
    ⟨fun _ _ before after => absurd after (lt_asymm before)⟩
  refine List.Pairwise.eq_of_mem_iff (map.sorted.filter _) (other.sorted.filter _) fun entry => ?_
  rw [mem_filter, mem_filter, mem_entries_iff, mem_entries_iff]
  exact and_congr_left fun kept => by rw [same entry.1 kept]

end SortedMap

end Library
