import Asterel.Library.Selection
import Asterel.Library.Transitions
import Mathlib.Data.List.Enum

/-!
# The working memory of a session

A view holds the items carried over from persistent memory and those accumulated in the
session. Above its capacity it evicts the least important item that is not pinned; at twice
its capacity, when every item is pinned, the least important item at all.

The importances are from a linear order, in which those of added items are clamped.
-/

namespace Asterel.WorkingMemory

open Library Library.Transitions List

section View

inductive WorkingMemorySource where
  | recalled
  | conversation
  | agentNoted
  | system
  deriving DecidableEq

variable (Importance : Type)

structure WorkingMemoryItem where
  itemId : String
  key : String
  value : String
  source : WorkingMemorySource
  importance : Importance
  pinned : Bool
  addedAt : String
  deriving DecidableEq

/-- What a recall returns of an item. -/
structure MemoryRecallEntry where
  slotKey : String
  value : String
  importance : Importance

def usizeMax : Nat := 2 ^ 64 - 1

def isizeMax : Nat := 2 ^ 63 - 1

/-- The bytes of an item in a vector: four strings, a float, a tag and a flag. -/
def itemSize : Nat := 112

/-- A vector of items does not exceed `isize::MAX` bytes. -/
def maxItems : Nat := isizeMax / itemSize

structure WorkingMemoryView where
  carried : List (WorkingMemoryItem Importance)
  accumulated : List (WorkingMemoryItem Importance)
  capacity : Nat
  capacity_pos : 0 < capacity
  carried_fits : carried.length ≤ maxItems
  accumulated_fits : accumulated.length ≤ maxItems

inductive ItemList where
  | carried
  | accumulated
  deriving DecidableEq

def defaultWorkingMemoryCapacity : Nat := 50

def normalizeCapacity (capacity : Nat) : Nat :=
  if capacity = 0 then defaultWorkingMemoryCapacity else capacity

theorem normalizeCapacity_pos (capacity : Nat) : 0 < normalizeCapacity capacity := by
  rw [normalizeCapacity]
  split
  · decide
  · omega

end View

namespace WorkingMemoryView

variable {Importance : Type}

/-- Create an empty working memory view. -/
def new (Importance : Type) (capacity : Nat) : WorkingMemoryView Importance where
  carried := []
  accumulated := []
  capacity := normalizeCapacity capacity
  capacity_pos := normalizeCapacity_pos capacity
  carried_fits := Nat.zero_le _
  accumulated_fits := Nat.zero_le _

def items (view : WorkingMemoryView Importance) : List (WorkingMemoryItem Importance) :=
  view.carried ++ view.accumulated

def len (view : WorkingMemoryView Importance) : Nat :=
  view.carried.length + view.accumulated.length

/-- Upper bound before pinned items may be force-evicted. -/
def hardCap (view : WorkingMemoryView Importance) : Nat := min (view.capacity * 2) usizeMax

/-- `Vec::remove` in one of the two lists. -/
def remove (view : WorkingMemoryView Importance) : ItemList → Nat → WorkingMemoryView Importance
  | .carried, index =>
    { view with
      carried := view.carried.eraseIdx index
      carried_fits := Nat.le_trans (eraseIdx_sublist _ _).length_le view.carried_fits }
  | .accumulated, index =>
    { view with
      accumulated := view.accumulated.eraseIdx index
      accumulated_fits := Nat.le_trans (eraseIdx_sublist _ _).length_le view.accumulated_fits }

/-- The places of the eligible items of a list, with their importances. -/
def places (eligible : WorkingMemoryItem Importance → Bool) (list : ItemList)
    (items : List (WorkingMemoryItem Importance)) : List (ItemList × Nat × Importance) :=
  (items.zipIdx.filter fun place => eligible place.1).map fun place =>
    (list, place.2, place.1.importance)

variable [LinearOrder Importance]

/-- The place of the first eligible item with the lowest importance. -/
def lowest (eligible : WorkingMemoryItem Importance → Bool) (view : WorkingMemoryView Importance) :
    Option (ItemList × Nat × Importance) :=
  firstMin (fun place => place.2.2)
    (places eligible .carried view.carried ++ places eligible .accumulated view.accumulated)

/-- `None` where the source returns `false`. -/
def evictOneLowestNonPinned (view : WorkingMemoryView Importance) :
    Option (WorkingMemoryView Importance) :=
  (view.lowest fun item => !item.pinned).map fun place => view.remove place.1 place.2.1

def forceEvictLowestPinned (view : WorkingMemoryView Importance) : WorkingMemoryView Importance :=
  ((view.lowest fun _ => true).map fun place => view.remove place.1 place.2.1).getD view

/-- One round of the loop of `evict_if_over_capacity`. -/
def evictionRound (view : WorkingMemoryView Importance) : Option (WorkingMemoryView Importance) :=
  if view.capacity < view.len then view.evictOneLowestNonPinned else none

/-- Every round removes an item, so there are no more rounds than items. -/
def evictIfOverCapacity (view : WorkingMemoryView Importance) : WorkingMemoryView Importance :=
  repeatStep evictionRound view.len view

/-- One round of the loop of `add_item_with_pin`. -/
def roomRound (view : WorkingMemoryView Importance) : Option (WorkingMemoryView Importance) :=
  if view.capacity ≤ view.len then
    match view.evictOneLowestNonPinned with
    | some next => some next
    | none => if view.hardCap ≤ view.len then some view.forceEvictLowestPinned else none
  else none

def makeRoom (view : WorkingMemoryView Importance) : WorkingMemoryView Importance :=
  repeatStep roomRound view.len view

/-- `Vec::push`, which panics when the vector cannot grow. -/
def push (view : WorkingMemoryView Importance) (item : WorkingMemoryItem Importance) :
    Option (WorkingMemoryView Importance) :=
  if fits : view.accumulated.length < maxItems then
    some { view with
      accumulated := view.accumulated ++ [item]
      accumulated_fits := by simpa using Nat.succ_le_of_lt fits }
  else none

/-- A recalled item in the view. -/
def recalledItem (materializedAt : String) (entry : String × MemoryRecallEntry Importance) :
    WorkingMemoryItem Importance where
  itemId := entry.1
  key := entry.2.slotKey
  value := entry.2.value
  source := .recalled
  importance := entry.2.importance
  pinned := false
  addedAt := materializedAt

/-- Each recalled item is given with the identifier drawn for it. -/
def materializeFromRecall (recalledItems : List (String × MemoryRecallEntry Importance))
    (capacity : Nat) (materializedAt : String) : Option (WorkingMemoryView Importance) :=
  if fits : recalledItems.length ≤ maxItems then
    let view : WorkingMemoryView Importance :=
      { carried := recalledItems.map (recalledItem materializedAt)
        accumulated := []
        capacity := normalizeCapacity capacity
        capacity_pos := normalizeCapacity_pos capacity
        carried_fits := by simpa using fits
        accumulated_fits := Nat.zero_le _ }
    some view.evictIfOverCapacity
  else none

def drainAccumulated (view : WorkingMemoryView Importance) :
    List (WorkingMemoryItem Importance) × WorkingMemoryView Importance :=
  (view.accumulated, { view with accumulated := [], accumulated_fits := Nat.zero_le _ })

variable [Zero Importance] [One Importance]

/-- `f64::clamp` to the unit interval. -/
def clamp (importance : Importance) : Importance :=
  if importance < 0 then 0 else if 1 < importance then 1 else importance

/-- What an item is made from. The identifier and the time are those drawn for it. -/
structure NewItem (Importance : Type) where
  itemId : String
  key : String
  value : String
  source : WorkingMemorySource
  importance : Importance
  now : String

def NewItem.item (entry : NewItem Importance) (pinned : Bool) : WorkingMemoryItem Importance where
  itemId := entry.itemId
  key := entry.key
  value := entry.value
  source := entry.source
  importance := clamp entry.importance
  pinned := pinned
  addedAt := entry.now

def addItemWithPin (view : WorkingMemoryView Importance) (entry : NewItem Importance)
    (pinned : Bool) : Option (WorkingMemoryView Importance) :=
  view.makeRoom.push (entry.item pinned)

def addItem (view : WorkingMemoryView Importance) (entry : NewItem Importance) :
    Option (WorkingMemoryView Importance) :=
  view.addItemWithPin entry false

def addPinnedItem (view : WorkingMemoryView Importance) (entry : NewItem Importance) :
    Option (WorkingMemoryView Importance) :=
  view.addItemWithPin entry true

end WorkingMemoryView

open WorkingMemoryView

variable {Importance : Type}

inductive Operation (Importance : Type) where
  | materializeFromRecall (recalledItems : List (String × MemoryRecallEntry Importance))
      (capacity : Nat) (materializedAt : String)
  | addItem (entry : NewItem Importance)
  | addPinnedItem (entry : NewItem Importance)
  | drainAccumulated

/-- An operation on a view; to materialize makes another view. -/
def step [LinearOrder Importance] [Zero Importance] [One Importance]
    (view : WorkingMemoryView Importance) :
    Operation Importance → Option (WorkingMemoryView Importance)
  | .materializeFromRecall recalledItems capacity materializedAt =>
    WorkingMemoryView.materializeFromRecall recalledItems capacity materializedAt
  | .addItem entry => view.addItem entry
  | .addPinnedItem entry => view.addPinnedItem entry
  | .drainAccumulated => some view.drainAccumulated.2

section Policy

/-- An item that may be evicted: the least important one that is not pinned, or at twice the
capacity, when every item is pinned, the least important one. -/
def MayEvict [LE Importance] (view : WorkingMemoryView Importance)
    (item : WorkingMemoryItem Importance) : Prop :=
  (item.pinned = false ∧
    ∀ other ∈ view.items, other.pinned = false → item.importance ≤ other.importance) ∨
  ((∀ other ∈ view.items, other.pinned = true) ∧ view.len = 2 * view.capacity ∧
    ∀ other ∈ view.items, item.importance ≤ other.importance)

/-- One eviction. The other items keep their order. -/
def Evicts [LE Importance] (view next : WorkingMemoryView Importance) : Prop :=
  next.capacity = view.capacity ∧ ∃ before item after,
    view.items = before ++ item :: after ∧ next.items = before ++ after ∧ MayEvict view item

def Evictions [LE Importance] : WorkingMemoryView Importance → WorkingMemoryView Importance → Prop :=
  Relation.ReflTransGen Evicts

/-- Evictions make room for an item, which is then the last one. -/
def Adds [LE Importance] (view : WorkingMemoryView Importance) (item : WorkingMemoryItem Importance)
    (next : WorkingMemoryView Importance) : Prop :=
  ∃ roomy, Evictions view roomy ∧ roomy.items.Sublist view.items ∧ next.items = roomy.items ++ [item]

variable [LinearOrder Importance] [Zero Importance] [One Importance]

def Follows (view next : WorkingMemoryView Importance) : Operation Importance → Prop
  | .materializeFromRecall recalledItems capacity materializedAt =>
    ∃ start : WorkingMemoryView Importance,
      start.items = recalledItems.map (recalledItem materializedAt) ∧
      start.capacity = normalizeCapacity capacity ∧
      Evictions start next ∧ next.items.Sublist start.items
  | .addItem entry => Adds view (entry.item false) next
  | .addPinnedItem entry => Adds view (entry.item true) next
  | .drainAccumulated => next.items = view.carried

/-- The bounds on the items of a view, and what the next operation may evict. -/
structure KeepsPolicy (view : WorkingMemoryView Importance) : Prop where
  within : view.len ≤ 2 * view.capacity
  pinned : view.capacity < view.len →
    ∀ item ∈ view.carried ++ view.accumulated.dropLast, item.pinned = true
  steps : ∀ operation next, step view operation = some next → Follows view next operation

end Policy

section Removal

variable {view next : WorkingMemoryView Importance} {item : WorkingMemoryItem Importance}

theorem len_eq (view : WorkingMemoryView Importance) : view.len = view.items.length := by
  rw [len, items, length_append]

/-- Two vectors hold fewer items than a `usize` counts. -/
theorem len_lt_usizeMax (view : WorkingMemoryView Importance) : view.len < usizeMax := by
  have few : maxItems + maxItems < usizeMax := by decide
  have carried := view.carried_fits
  have accumulated := view.accumulated_fits
  rw [len]
  omega

/-- The view without one of its items. -/
structure Removes (view : WorkingMemoryView Importance) (item : WorkingMemoryItem Importance)
    (next : WorkingMemoryView Importance) : Prop where
  capacity : next.capacity = view.capacity
  carried : next.carried.Sublist view.carried
  accumulated : next.accumulated.Sublist view.accumulated
  items : ∃ before after, view.items = before ++ item :: after ∧ next.items = before ++ after

theorem Removes.len (removes : Removes view item next) : next.len + 1 = view.len := by
  obtain ⟨before, after, whole, rest⟩ := removes.items
  rw [len_eq, len_eq, whole, rest]
  simp only [length_append, length_cons]
  omega

theorem Removes.subset (removes : Removes view item next) : next.items ⊆ view.items := by
  obtain ⟨before, after, whole, rest⟩ := removes.items
  rw [whole, rest]
  exact (Sublist.append_left (sublist_cons_self item after) before).subset

/-- A list in parts around one of its places. -/
theorem eraseIdx_parts {list : List (WorkingMemoryItem Importance)} {index : Nat}
    (found : list[index]? = some item) :
    ∃ before after, list = before ++ item :: after ∧ list.eraseIdx index = before ++ after := by
  obtain ⟨inside, rfl⟩ := List.getElem?_eq_some_iff.mp found
  refine ⟨list.take index, list.drop (index + 1), ?_, eraseIdx_eq_take_drop_succ list index⟩
  rw [getElem_cons_drop inside]
  exact (take_append_drop index list).symm

/-- The items of one of the two lists. -/
def ItemList.of (view : WorkingMemoryView Importance) :
    ItemList → List (WorkingMemoryItem Importance)
  | .carried => view.carried
  | .accumulated => view.accumulated

theorem items_remove_carried (view : WorkingMemoryView Importance) (index : Nat) :
    (view.remove .carried index).items = view.carried.eraseIdx index ++ view.accumulated := rfl

theorem items_remove_accumulated (view : WorkingMemoryView Importance) (index : Nat) :
    (view.remove .accumulated index).items = view.carried ++ view.accumulated.eraseIdx index := rfl

theorem removes_remove {list : ItemList} {index : Nat} (found : (list.of view)[index]? = some item) :
    Removes view item (view.remove list index) := by
  obtain ⟨before, after, whole, rest⟩ := eraseIdx_parts found
  cases list with
  | carried =>
    refine ⟨rfl, eraseIdx_sublist _ _, Sublist.refl _, before, after ++ view.accumulated, ?_, ?_⟩
    · have carried : view.carried = before ++ item :: after := whole
      rw [items, carried, append_assoc, cons_append]
    · have carried : view.carried.eraseIdx index = before ++ after := rest
      rw [items_remove_carried, carried, append_assoc]
  | accumulated =>
    refine ⟨rfl, Sublist.refl _, eraseIdx_sublist _ _, view.carried ++ before, after, ?_, ?_⟩
    · have accumulated : view.accumulated = before ++ item :: after := whole
      rw [items, accumulated, append_assoc]
    · have accumulated : view.accumulated.eraseIdx index = before ++ after := rest
      rw [items_remove_accumulated, accumulated, append_assoc]

end Removal

section Choice

variable [LinearOrder Importance] {view next : WorkingMemoryView Importance}
  {item : WorkingMemoryItem Importance} {eligible : WorkingMemoryItem Importance → Bool}

omit [LinearOrder Importance] in
theorem mem_places {list : ItemList} {items : List (WorkingMemoryItem Importance)}
    {place : ItemList × Nat × Importance} :
    place ∈ places eligible list items ↔
      ∃ item index, items[index]? = some item ∧ eligible item = true ∧
        place = (list, index, item.importance) := by
  rw [places, mem_map]
  constructor
  · rintro ⟨⟨item, index⟩, member, rfl⟩
    obtain ⟨member, may⟩ := mem_filter.mp member
    exact ⟨item, index, mem_zipIdx_iff_getElem?.mp member, may, rfl⟩
  · rintro ⟨item, index, found, may, rfl⟩
    exact ⟨(item, index), mem_filter.mpr ⟨mem_zipIdx_iff_getElem?.mpr found, may⟩, rfl⟩

/-- What is removed is an eligible item with the lowest importance. -/
theorem lowest_eq_some {place : ItemList × Nat × Importance}
    (found : view.lowest eligible = some place) :
    ∃ item, Removes view item (view.remove place.1 place.2.1) ∧ eligible item = true ∧
      ∀ other ∈ view.items, eligible other = true → item.importance ≤ other.importance := by
  obtain ⟨member, least⟩ := firstMin_eq_some found
  have chosen : ∃ item, Removes view item (view.remove place.1 place.2.1) ∧ eligible item = true ∧
      place.2.2 = item.importance := by
    rcases mem_append.mp member with carried | accumulated
    · obtain ⟨item, index, at_index, may, rfl⟩ := mem_places.mp carried
      exact ⟨item, @removes_remove _ view item .carried index at_index, may, rfl⟩
    · obtain ⟨item, index, at_index, may, rfl⟩ := mem_places.mp accumulated
      exact ⟨item, @removes_remove _ view item .accumulated index at_index, may, rfl⟩
  obtain ⟨item, removes, may, importance⟩ := chosen
  refine ⟨item, removes, may, fun other among allowed => ?_⟩
  rw [← importance]
  rcases mem_append.mp among with carried | accumulated
  · obtain ⟨index, at_index⟩ := mem_iff_getElem?.mp carried
    exact least _ (mem_append_left _ (mem_places.mpr ⟨other, index, at_index, allowed, rfl⟩))
  · obtain ⟨index, at_index⟩ := mem_iff_getElem?.mp accumulated
    exact least _ (mem_append_right _ (mem_places.mpr ⟨other, index, at_index, allowed, rfl⟩))

theorem lowest_eq_none (none : view.lowest eligible = none) (among : item ∈ view.items) :
    eligible item = false := by
  obtain ⟨noCarried, noAccumulated⟩ := append_eq_nil_iff.mp (firstMin_eq_none_iff.mp none)
  rw [← Bool.not_eq_true]
  intro may
  rcases mem_append.mp among with carried | accumulated
  · obtain ⟨index, at_index⟩ := mem_iff_getElem?.mp carried
    exact eq_nil_iff_forall_not_mem.mp noCarried _
      (mem_places.mpr ⟨item, index, at_index, may, rfl⟩)
  · obtain ⟨index, at_index⟩ := mem_iff_getElem?.mp accumulated
    exact eq_nil_iff_forall_not_mem.mp noAccumulated _
      (mem_places.mpr ⟨item, index, at_index, may, rfl⟩)

theorem evictOneLowestNonPinned_eq_some (evicted : view.evictOneLowestNonPinned = some next) :
    ∃ item, Removes view item next ∧ item.pinned = false ∧
      ∀ other ∈ view.items, other.pinned = false → item.importance ≤ other.importance := by
  obtain ⟨place, found, rfl⟩ := Option.map_eq_some_iff.mp evicted
  obtain ⟨item, removes, may, least⟩ := lowest_eq_some found
  refine ⟨item, removes, by simpa using may, fun other among unpinned => ?_⟩
  apply least other among
  rw [unpinned]
  rfl

theorem pinned_of_evictOne_none (none : view.evictOneLowestNonPinned = none)
    (among : item ∈ view.items) : item.pinned = true := by
  have pinned := lowest_eq_none (Option.map_eq_none_iff.mp none) among
  simpa using pinned

theorem removes_forceEvict (nonempty : 0 < view.len) :
    ∃ item, Removes view item view.forceEvictLowestPinned ∧
      ∀ other ∈ view.items, item.importance ≤ other.importance := by
  rw [forceEvictLowestPinned]
  cases found : view.lowest fun _ => true with
  | none =>
    rw [len_eq] at nonempty
    obtain ⟨item, among⟩ := exists_mem_of_length_pos nonempty
    have never := lowest_eq_none found among
    cases never
  | some place =>
    obtain ⟨item, removes, _, least⟩ := lowest_eq_some found
    exact ⟨item, removes, fun other among => least other among rfl⟩

end Choice

section Rounds

variable [LinearOrder Importance] {view next : WorkingMemoryView Importance}
  {item : WorkingMemoryItem Importance}

theorem Removes.evicts (removes : Removes view item next) (may : MayEvict view item) :
    Evicts view next := by
  obtain ⟨before, after, whole, rest⟩ := removes.items
  exact ⟨removes.capacity, before, item, after, whole, rest, may⟩

theorem Evictions.sublist (evictions : Evictions view next) : next.items.Sublist view.items := by
  induction evictions with
  | refl => exact Sublist.refl _
  | tail _ last ih =>
    obtain ⟨_, before, item, after, whole, rest, _⟩ := last
    refine Sublist.trans ?_ ih
    rw [whole, rest]
    exact Sublist.append_left (sublist_cons_self item after) before

/-- A round takes an item that may be evicted. -/
theorem roomRound_eq_some (within : view.len ≤ 2 * view.capacity) (taken : roomRound view = some next) :
    ∃ item, Removes view item next ∧ MayEvict view item := by
  rw [roomRound] at taken
  split at taken
  · rename_i reached
    split at taken
    · rename_i evicted
      cases taken
      obtain ⟨item, removes, unpinned, least⟩ := evictOneLowestNonPinned_eq_some evicted
      exact ⟨item, removes, Or.inl ⟨unpinned, least⟩⟩
    · rename_i none
      split at taken
      · rename_i full
        cases taken
        have positive : 0 < view.len := Nat.lt_of_lt_of_le view.capacity_pos reached
        obtain ⟨item, removes, least⟩ := removes_forceEvict positive
        have few := len_lt_usizeMax view
        have exactly : view.len = 2 * view.capacity := by
          rw [hardCap] at full
          omega
        exact ⟨item, removes,
          Or.inr ⟨fun other among => pinned_of_evictOne_none none among, exactly, least⟩⟩
      · cases taken
  · cases taken

/-- The loop ends below the capacity, or with pinned items only below twice the capacity. -/
theorem roomRound_eq_none (stopped : roomRound view = none) :
    view.len < view.capacity ∨
      (∀ item ∈ view.items, item.pinned = true) ∧ view.len < 2 * view.capacity := by
  rw [roomRound] at stopped
  split at stopped
  · split at stopped
    · cases stopped
    · rename_i none
      split at stopped
      · cases stopped
      · rename_i room
        right
        refine ⟨fun item among => pinned_of_evictOne_none none among, ?_⟩
        rw [hardCap] at room
        omega
  · rename_i room
    left
    omega

theorem evictionRound_eq_some (taken : evictionRound view = some next) :
    ∃ item, Removes view item next ∧ MayEvict view item := by
  rw [evictionRound] at taken
  split at taken
  · obtain ⟨item, removes, unpinned, least⟩ := evictOneLowestNonPinned_eq_some taken
    exact ⟨item, removes, Or.inl ⟨unpinned, least⟩⟩
  · cases taken

theorem evictionRound_eq_none (stopped : evictionRound view = none) :
    view.len ≤ view.capacity ∨ ∀ item ∈ view.items, item.pinned = true := by
  rw [evictionRound] at stopped
  split at stopped
  · exact Or.inr fun item among => pinned_of_evictOne_none stopped among
  · rename_i room
    exact Or.inl (Nat.not_lt.mp room)

end Rounds

section Loops

variable [LinearOrder Importance] {view : WorkingMemoryView Importance}

/-- What the rounds for a new item keep. -/
structure Roomy (start view : WorkingMemoryView Importance) : Prop where
  capacity : view.capacity = start.capacity
  within : view.len ≤ 2 * view.capacity
  carried : view.carried.length ≤ start.carried.length

theorem Roomy.round {start next : WorkingMemoryView Importance} (roomy : Roomy start view)
    (taken : roomRound view = some next) : Roomy start next ∧ Evicts view next ∧ next.len < view.len := by
  obtain ⟨item, removes, may⟩ := roomRound_eq_some roomy.within taken
  have fewer := removes.len
  have within := roomy.within
  refine ⟨⟨?_, ?_, ?_⟩, removes.evicts may, by omega⟩
  · exact removes.capacity.trans roomy.capacity
  · rw [removes.capacity]
    omega
  · exact Nat.le_trans removes.carried.length_le roomy.carried

/-- Room is made by evictions, and the loop ends. -/
theorem makeRoom_spec (within : view.len ≤ 2 * view.capacity) :
    Evictions view view.makeRoom ∧ Roomy view view.makeRoom ∧ roomRound view.makeRoom = none := by
  have start : Roomy view view := ⟨rfl, within, Nat.le_refl _⟩
  have evictions : Evictions view view.makeRoom := by
    apply repeatStep_related _ _ start
    intro before after roomy taken
    exact ⟨(roomy.round taken).1, (roomy.round taken).2.1⟩
  have stops := repeatStep_stops (fun before after roomy taken =>
    ⟨(Roomy.round roomy taken).1, (Roomy.round roomy taken).2.2⟩) start (Nat.le_refl view.len)
  exact ⟨evictions, stops.1, stops.2⟩

/-- What the rounds of a new view keep. -/
structure Unpinned (view : WorkingMemoryView Importance) : Prop where
  items : ∀ item ∈ view.items, item.pinned = false
  accumulated : view.accumulated = []

theorem Unpinned.round {next : WorkingMemoryView Importance} (unpinned : Unpinned view)
    (taken : evictionRound view = some next) : Unpinned next ∧ Evicts view next ∧ next.len < view.len := by
  obtain ⟨item, removes, may⟩ := evictionRound_eq_some taken
  have fewer := removes.len
  refine ⟨⟨?_, ?_⟩, removes.evicts may, by omega⟩
  · intro other among
    exact unpinned.items other (removes.subset among)
  · apply sublist_nil.mp
    rw [← unpinned.accumulated]
    exact removes.accumulated

theorem evictIfOverCapacity_spec (unpinned : Unpinned view) :
    Evictions view view.evictIfOverCapacity ∧ Unpinned view.evictIfOverCapacity ∧
      view.evictIfOverCapacity.len ≤ view.evictIfOverCapacity.capacity := by
  have evictions : Evictions view view.evictIfOverCapacity := by
    apply repeatStep_related _ _ unpinned
    intro before after roomy taken
    exact ⟨(roomy.round taken).1, (roomy.round taken).2.1⟩
  have stops := repeatStep_stops (fun before after unpinned taken =>
    ⟨(Unpinned.round unpinned taken).1, (Unpinned.round unpinned taken).2.2⟩) unpinned
    (Nat.le_refl view.len)
  refine ⟨evictions, stops.1, ?_⟩
  rcases evictionRound_eq_none stops.2 with room | pinned
  · exact room
  · have empty : view.evictIfOverCapacity.items = [] := by
      apply eq_nil_iff_forall_not_mem.mpr
      intro item among
      exact Bool.false_ne_true ((stops.1.items item among).symm.trans (pinned item among))
    rw [len_eq, empty]
    exact Nat.zero_le _

end Loops

section Run

variable [LinearOrder Importance] {view next : WorkingMemoryView Importance}
  {item : WorkingMemoryItem Importance}

/-- What holds between two operations: above the capacity only the last item of the session
may not be pinned. -/
structure Sound (view : WorkingMemoryView Importance) : Prop where
  within : view.len ≤ 2 * view.capacity
  carried : view.carried.length ≤ view.capacity
  pinned : view.capacity < view.len →
    ∀ item ∈ view.carried ++ view.accumulated.dropLast, item.pinned = true

omit [LinearOrder Importance] in
theorem sound_of_room (room : view.len ≤ view.capacity) : Sound view where
  within := by omega
  carried := Nat.le_trans (Nat.le_add_right _ _) room
  pinned := fun full => absurd room (Nat.not_le.mpr full)

omit [LinearOrder Importance] in
theorem sound_new (capacity : Nat) : Sound (WorkingMemoryView.new Importance capacity) :=
  sound_of_room (Nat.zero_le _)

omit [LinearOrder Importance] in
theorem push_eq_some (pushed : view.push item = some next) :
    next.capacity = view.capacity ∧ next.carried = view.carried ∧
      next.accumulated = view.accumulated ++ [item] := by
  rw [push] at pushed
  split at pushed
  · cases pushed
    exact ⟨rfl, rfl, rfl⟩
  · cases pushed

variable [Zero Importance] [One Importance] {entry : NewItem Importance} {pinned : Bool}

/-- An item is added behind the others, after evictions. -/
theorem addItemWithPin_spec (sound : Sound view)
    (added : view.addItemWithPin entry pinned = some next) :
    Adds view (entry.item pinned) next ∧ Sound next := by
  obtain ⟨evictions, roomy, stopped⟩ := makeRoom_spec sound.within
  obtain ⟨capacity, carried, accumulated⟩ := push_eq_some added
  have items : next.items = view.makeRoom.items ++ [entry.item pinned] := by
    rw [WorkingMemoryView.items, carried, accumulated, WorkingMemoryView.items, append_assoc]
  have longer : next.len = view.makeRoom.len + 1 := by
    rw [len_eq, len_eq, items, length_append, length_singleton]
  refine ⟨⟨view.makeRoom, evictions, evictions.sublist, items⟩, ?_⟩
  rcases roomRound_eq_none stopped with room | ⟨allPinned, room⟩
  · apply sound_of_room
    omega
  · refine ⟨by omega, ?_, fun _ => ?_⟩
    · rw [carried, capacity, roomy.capacity]
      exact Nat.le_trans roomy.carried sound.carried
    · rw [carried, accumulated, dropLast_concat]
      exact allPinned

theorem materializeFromRecall_spec {recalledItems : List (String × MemoryRecallEntry Importance)}
    {capacity : Nat} {materializedAt : String}
    (made : materializeFromRecall recalledItems capacity materializedAt = some next) :
    Follows view next (.materializeFromRecall recalledItems capacity materializedAt) ∧ Sound next := by
  rw [materializeFromRecall] at made
  split at made
  · cases made
    have unpinned : ∀ item ∈ recalledItems.map (recalledItem materializedAt), item.pinned = false := by
      intro item member
      obtain ⟨entry, _, rfl⟩ := mem_map.mp member
      rfl
    have start : Unpinned
        ({ carried := recalledItems.map (recalledItem materializedAt)
           accumulated := []
           capacity := normalizeCapacity capacity
           capacity_pos := normalizeCapacity_pos capacity
           carried_fits := by simpa
           accumulated_fits := Nat.zero_le _ } : WorkingMemoryView Importance) :=
      ⟨fun item member => unpinned item (by simpa [items] using member), rfl⟩
    obtain ⟨evictions, _, room⟩ := evictIfOverCapacity_spec start
    exact ⟨⟨_, append_nil _, rfl, evictions, evictions.sublist⟩, sound_of_room room⟩
  · cases made

/-- What one operation does, and what it keeps. -/
theorem step_spec {operation : Operation Importance} (sound : Sound view)
    (stepped : step view operation = some next) : Follows view next operation ∧ Sound next := by
  cases operation with
  | materializeFromRecall recalledItems capacity materializedAt =>
    exact materializeFromRecall_spec stepped
  | addItem entry => exact addItemWithPin_spec sound stepped
  | addPinnedItem entry => exact addItemWithPin_spec sound stepped
  | drainAccumulated =>
    cases stepped
    exact ⟨append_nil _, sound_of_room (by simpa [len, drainAccumulated] using sound.carried)⟩

theorem Sound.keepsPolicy (sound : Sound view) : KeepsPolicy view where
  within := sound.within
  pinned := sound.pinned
  steps := fun _ _ stepped => (step_spec sound stepped).1

/-- Every view that the operations reach keeps the eviction policy. -/
theorem view_keepsPolicy (capacity : Nat) (operations : List (Operation Importance)) :
    Always step KeepsPolicy (WorkingMemoryView.new Importance capacity) operations := by
  have kept : ∀ {state next : WorkingMemoryView Importance} {operation : Operation Importance},
      Sound state → True → step state operation = some next → Sound next := by
    intro state next operation sound _ stepped
    exact (step_spec sound stepped).2
  exact always_of_guarded Sound.keepsPolicy kept (sound_new capacity)
    (Transitions.guarded_true _ operations)

end Run

end Asterel.WorkingMemory
