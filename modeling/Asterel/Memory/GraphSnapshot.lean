import Asterel.Library.HashMap
import Mathlib

/-!
# The graph snapshot built from an edge list

The rows of the graph are held one behind the other, with the offset at which each row
starts. Node indices and offsets are 32 bits wide: an index is cut to its low bits, and an
offset stops at the largest value.
-/

namespace Asterel.GraphActivation

open Library List

variable {EntityId : Type} [LinearOrder EntityId]

/-- `n as u32`. -/
def asU32 (n : Nat) : Nat := n % 2 ^ 32

/-- `u32::saturating_add`. -/
def saturatingAdd (a b : Nat) : Nat := min (a + b) (2 ^ 32 - 1)

variable (EntityId) in
/-- An edge with its endpoints and its weight. -/
abbrev Edge := EntityId × EntityId × ℚ

/-- An index and a weight for each edge that leaves a node. -/
abbrev Row := List (Nat × ℚ)

variable (EntityId) in
structure GraphSnapshot where
  nodeIndex : HashMap EntityId Nat
  nodeIds : List EntityId
  offsets : List Nat
  neighbors : List Nat
  weights : List ℚ

/-- `known_nodes` holds the nodes of the list. -/
def addNode (nodeIds : List EntityId) (node : EntityId) : List EntityId :=
  if node ∈ nodeIds then nodeIds else nodeIds ++ [node]

def withEndpoints (nodeIds : List EntityId) (edges : List (Edge EntityId)) : List EntityId :=
  edges.foldl (fun ids edge => addNode (addNode ids edge.1) edge.2.1) nodeIds

/-- A node that is listed twice has its last index. -/
def nodeIndexOf (nodeIds : List EntityId) : HashMap EntityId Nat :=
  HashMap.collect (nodeIds.zipIdx.map fun node => ⟨node.1, asU32 node.2⟩)

/-- Every index of `nodeIndexOf` is that of a row, so the push is in bounds. -/
def pushEdge (nodeIndex : HashMap EntityId Nat) (adjacency : List Row) (edge : Edge EntityId) :
    List Row :=
  match nodeIndex.lookup edge.1, nodeIndex.lookup edge.2.1 with
  | some fromIndex, some toIndex => adjacency.modify fromIndex (· ++ [(toIndex, max edge.2.2 0)])
  | _, _ => adjacency

/-- The offsets at which rows end. -/
def rowEnds (running : Nat) : List Row → List Nat
  | [] => []
  | row :: rows =>
    let next := saturatingAdd running (asU32 row.length)
    next :: rowEnds next rows

def offsetsOf (adjacency : List Row) : List Nat := 0 :: rowEnds 0 adjacency

def adjacencyOf (nodeIds : List EntityId) (edges : List (Edge EntityId)) : List Row :=
  edges.foldl (pushEdge (nodeIndexOf nodeIds)) (replicate nodeIds.length [])

def GraphSnapshot.fromEdgeList (nodeIds : List EntityId) (edges : List (Edge EntityId)) :
    GraphSnapshot EntityId :=
  let nodeIds := withEndpoints nodeIds edges
  let adjacency := adjacencyOf nodeIds edges
  { nodeIndex := nodeIndexOf nodeIds
    nodeIds
    offsets := offsetsOf adjacency
    neighbors := adjacency.flatten.map Prod.fst
    weights := adjacency.flatten.map Prod.snd }

section NodeIndex

variable {node : EntityId} {nodeIds : List EntityId} {index : Nat}

theorem mem_addNode {other : EntityId} :
    other ∈ addNode nodeIds node ↔ other ∈ nodeIds ∨ other = node := by
  unfold addNode
  split
  · rename_i member
    constructor
    · exact Or.inl
    · rintro (member | rfl)
      · exact member
      · exact member
  · rw [mem_append, mem_singleton]

theorem mem_withEndpoints {edges : List (Edge EntityId)}
    :
    node ∈ withEndpoints nodeIds edges ↔
      node ∈ nodeIds ∨ ∃ edge ∈ edges, node = edge.1 ∨ node = edge.2.1 := by
  unfold withEndpoints
  induction edges generalizing nodeIds with
  | nil => simp
  | cons edge edges ih =>
    rw [foldl_cons, ih, mem_addNode, mem_addNode, exists_mem_cons_iff]
    simp only [or_assoc]

theorem lookup_nodeIndexOf_append (nodeIds : List EntityId) (last node : EntityId) :
    (nodeIndexOf (nodeIds ++ [last])).lookup node =
      if node = last then some (asU32 nodeIds.length) else (nodeIndexOf nodeIds).lookup node := by
  unfold nodeIndexOf HashMap.collect
  rw [zipIdx_append, map_append, foldl_append]
  by_cases same : node = last
  · subst same
    simp
  · simp [same, AList.lookup_insert_ne same]

/-- An index is where the node is listed, up to its high bits. -/
theorem lookup_nodeIndexOf (found : (nodeIndexOf nodeIds).lookup node = some index) :
    ∃ place, nodeIds[place]? = some node ∧ index = asU32 place := by
  induction nodeIds using reverseRecOn with
  | nil => cases found
  | append_singleton nodeIds last ih =>
    rw [lookup_nodeIndexOf_append] at found
    split at found
    · rename_i same
      cases found
      exact ⟨nodeIds.length, by rw [List.getElem?_concat_length, same], rfl⟩
    · obtain ⟨place, listed, cut⟩ := ih found
      refine ⟨place, ?_, cut⟩
      obtain ⟨inside, _⟩ := List.getElem?_eq_some_iff.mp listed
      rw [List.getElem?_append_left inside, listed]

theorem lookup_nodeIndexOf_lt
    (found : (nodeIndexOf nodeIds).lookup node = some index) : index < nodeIds.length := by
  obtain ⟨place, listed, rfl⟩ := lookup_nodeIndexOf found
  obtain ⟨inside, _⟩ := List.getElem?_eq_some_iff.mp listed
  exact lt_of_le_of_lt (Nat.mod_le _ _) inside

/-- Where all indices fit, the index of a node is one of its places. -/
theorem lookup_nodeIndexOf_fits (fits : nodeIds.length ≤ 2 ^ 32)
    (found : (nodeIndexOf nodeIds).lookup node = some index) : nodeIds[index]? = some node := by
  obtain ⟨place, listed, rfl⟩ := lookup_nodeIndexOf found
  obtain ⟨inside, _⟩ := List.getElem?_eq_some_iff.mp listed
  rw [asU32, Nat.mod_eq_of_lt (lt_of_lt_of_le inside fits)]
  exact listed

theorem lookup_nodeIndexOf_of_mem
    (member : node ∈ nodeIds) : ∃ index, (nodeIndexOf nodeIds).lookup node = some index := by
  induction nodeIds using reverseRecOn with
  | nil => cases member
  | append_singleton nodeIds last ih =>
    rw [lookup_nodeIndexOf_append]
    split
    · exact ⟨_, rfl⟩
    · rename_i different
      rcases mem_append.mp member with earlier | single
      · exact ih earlier
      · exact absurd (mem_singleton.mp single) different

end NodeIndex

section Adjacency

/-- An entry in the row of an index. -/
def Stored (adjacency : List Row) (index : Nat) (entry : Nat × ℚ) : Prop :=
  ∃ row, adjacency[index]? = some row ∧ entry ∈ row

/-- The entry of an edge in the row of an index. -/
def Enters (nodeIndex : HashMap EntityId Nat) (edge : Edge EntityId) (index : Nat)
    (entry : Nat × ℚ) : Prop :=
  nodeIndex.lookup edge.1 = some index ∧ nodeIndex.lookup edge.2.1 = some entry.1 ∧
    entry.2 = max edge.2.2 0

variable {nodeIndex : HashMap EntityId Nat} {adjacency : List Row} {edge : Edge EntityId}
  {edges : List (Edge EntityId)} {index : Nat} {entry : Nat × ℚ}

theorem length_pushEdge : (pushEdge nodeIndex adjacency edge).length = adjacency.length := by
  unfold pushEdge
  split
  · exact length_modify ..
  · rfl

theorem stored_pushEdge (stored : Stored (pushEdge nodeIndex adjacency edge) index entry) :
    Stored adjacency index entry ∨ Enters nodeIndex edge index entry := by
  unfold pushEdge at stored
  split at stored
  · rename_i fromIndex toIndex foundFrom foundTo
    obtain ⟨row, found, member⟩ := stored
    rw [List.getElem?_modify] at found
    by_cases same : fromIndex = index
    · subst same
      obtain ⟨before, listed, rfl⟩ := Option.map_eq_some_iff.mp found
      rw [if_pos rfl] at member
      rcases mem_append.mp member with earlier | single
      · exact Or.inl ⟨before, listed, earlier⟩
      · cases mem_singleton.mp single
        exact Or.inr ⟨foundFrom, foundTo, rfl⟩
    · obtain ⟨before, listed, rfl⟩ := Option.map_eq_some_iff.mp found
      rw [if_neg same] at member
      exact Or.inl ⟨before, listed, member⟩
  · exact Or.inl stored

theorem length_pushEdges :
    (edges.foldl (pushEdge nodeIndex) adjacency).length = adjacency.length := by
  induction edges generalizing adjacency with
  | nil => rfl
  | cons edge edges ih =>
    rw [foldl_cons, ih, length_pushEdge]

theorem stored_pushEdges (stored : Stored (edges.foldl (pushEdge nodeIndex) adjacency) index entry) :
    Stored adjacency index entry ∨ ∃ edge ∈ edges, Enters nodeIndex edge index entry := by
  induction edges generalizing adjacency with
  | nil => exact Or.inl stored
  | cons edge edges ih =>
    rcases ih stored with first | ⟨other, member, enters⟩
    · rcases stored_pushEdge first with earlier | enters
      · exact Or.inl earlier
      · exact Or.inr ⟨edge, mem_cons_self, enters⟩
    · exact Or.inr ⟨other, mem_cons_of_mem edge member, enters⟩

theorem not_stored_replicate {count : Nat} : ¬ Stored (replicate count []) index entry := by
  rintro ⟨row, found, member⟩
  obtain ⟨_, rfl⟩ := List.getElem?_eq_some_iff.mp found
  rw [getElem_replicate] at member
  cases member

theorem length_flatten_modify {fromIndex : Nat} (inside : fromIndex < adjacency.length) :
    (adjacency.modify fromIndex (· ++ [entry])).flatten.length = adjacency.flatten.length + 1 := by
  induction adjacency generalizing fromIndex with
  | nil => exact absurd inside (Nat.not_lt_zero fromIndex)
  | cons row rows ih =>
    cases fromIndex with
    | zero => simp; omega
    | succ fromIndex =>
      rw [modify_succ_cons, flatten_cons, flatten_cons, length_append,
        length_append, ih (Nat.lt_of_succ_lt_succ inside)]
      omega

/-- The edge has a row to enter and an index to enter there. -/
def Known (nodeIndex : HashMap EntityId Nat) (size : Nat) (edge : Edge EntityId) : Prop :=
  (∃ fromIndex, nodeIndex.lookup edge.1 = some fromIndex ∧ fromIndex < size) ∧
    ∃ toIndex, nodeIndex.lookup edge.2.1 = some toIndex

theorem length_flatten_pushEdges (known : ∀ edge ∈ edges, Known nodeIndex adjacency.length edge) :
    (edges.foldl (pushEdge nodeIndex) adjacency).flatten.length =
      adjacency.flatten.length + edges.length := by
  induction edges generalizing adjacency with
  | nil => rfl
  | cons edge edges ih =>
    have later : ∀ other ∈ edges, Known nodeIndex (pushEdge nodeIndex adjacency edge).length other := by
      intro other member
      rw [length_pushEdge]
      exact known other (mem_cons_of_mem edge member)
    have entered : (pushEdge nodeIndex adjacency edge).flatten.length =
        adjacency.flatten.length + 1 := by
      obtain ⟨⟨fromIndex, foundFrom, inside⟩, toIndex, foundTo⟩ := known edge mem_cons_self
      rw [pushEdge, foundFrom, foundTo]
      exact length_flatten_modify inside
    rw [foldl_cons, ih later, entered, length_cons]
    omega

end Adjacency

section Offsets

variable {rows : List Row} {running : Nat}
variable {a b : Nat}

theorem saturatingAdd_le (a b : Nat) : saturatingAdd a b ≤ 2 ^ 32 - 1 := Nat.min_le_right _ _

theorem le_saturatingAdd (small : a ≤ 2 ^ 32 - 1) : a ≤ saturatingAdd a b :=
  Nat.le_min.mpr ⟨Nat.le_add_right a b, small⟩

theorem length_rowEnds : (rowEnds running rows).length = rows.length := by
  induction rows generalizing running with
  | nil => rfl
  | cons row rows ih => rw [rowEnds, length_cons, ih, length_cons]

theorem isChain_rowEnds (small : running ≤ 2 ^ 32 - 1) :
    (running :: rowEnds running rows).IsChain (· ≤ ·) := by
  induction rows generalizing running with
  | nil => exact List.IsChain.singleton running
  | cons row rows ih =>
    rw [rowEnds]
    exact List.IsChain.cons_cons (le_saturatingAdd small) (ih (saturatingAdd_le _ _))

theorem le_of_mem_rowEnds {offset : Nat} (member : offset ∈ rowEnds running rows) :
    offset ≤ 2 ^ 32 - 1 ∧ offset ≤ running + rows.flatten.length := by
  induction rows generalizing running with
  | nil => cases member
  | cons row rows ih =>
    have next : saturatingAdd running (asU32 row.length) ≤ running + row.length :=
      le_trans (Nat.min_le_left _ _) (Nat.add_le_add_left (Nat.mod_le _ _) running)
    rw [flatten_cons, length_append]
    rcases mem_cons.mp member with rfl | later
    · exact ⟨saturatingAdd_le _ _, by omega⟩
    · obtain ⟨small, below⟩ := ih later
      exact ⟨small, by omega⟩

/-- Nothing is cut off while there are few entries. -/
theorem saturatingAdd_asU32 (small : a + b < 2 ^ 32) :
    saturatingAdd a (asU32 b) = a + b := by
  rw [saturatingAdd, asU32, Nat.mod_eq_of_lt (by omega)]
  omega

theorem getLast_rowEnds (small : running + rows.flatten.length < 2 ^ 32) :
    (running :: rowEnds running rows).getLast? = some (running + rows.flatten.length) := by
  induction rows generalizing running with
  | nil => rfl
  | cons row rows ih =>
    rw [flatten_cons, length_append] at small ⊢
    rw [rowEnds, saturatingAdd_asU32 (by omega), getLast?_cons_cons, ih (by omega), Nat.add_assoc]

/-- The entries between two offsets are those of the row. -/
theorem stored_of_offsets {before : Row} {index start finish place : Nat} {entry : Nat × ℚ}
    (length : before.length = running) (small : running + rows.flatten.length < 2 ^ 32)
    (starts : (running :: rowEnds running rows)[index]? = some start)
    (finishes : (running :: rowEnds running rows)[index + 1]? = some finish)
    (above : start ≤ place) (below : place < finish)
    (found : (before ++ rows.flatten)[place]? = some entry) : Stored rows index entry := by
  induction rows generalizing running before index with
  | nil => cases finishes
  | cons row rows ih =>
    rw [flatten_cons, length_append] at small
    rw [rowEnds, saturatingAdd_asU32 (by omega)] at starts finishes
    cases index with
    | zero =>
      cases starts
      cases finishes
      refine ⟨row, rfl, ?_⟩
      rw [flatten_cons, List.getElem?_append_right (by omega),
        List.getElem?_append_left (by omega)] at found
      exact mem_of_getElem? found
    | succ index =>
      rw [flatten_cons, ← append_assoc] at found
      have longer : (before ++ row).length = running + row.length := by
        rw [length_append, length]
      exact ih longer (by omega) starts finishes found

end Offsets

section FromEdgeList

variable {nodeIds : List EntityId} {edges : List (Edge EntityId)}
variable {entry : Nat × ℚ}

theorem length_adjacencyOf : (adjacencyOf nodeIds edges).length = nodeIds.length :=
  length_pushEdges.trans length_replicate

theorem stored_adjacencyOf {index : Nat} (stored : Stored (adjacencyOf nodeIds edges) index entry) :
    ∃ edge ∈ edges, Enters (nodeIndexOf nodeIds) edge index entry := by
  rcases stored_pushEdges stored with empty | enters
  · exact absurd empty not_stored_replicate
  · exact enters

theorem entry_adjacencyOf (member : entry ∈ (adjacencyOf nodeIds edges).flatten) :
    ∃ edge ∈ edges, ∃ index, Enters (nodeIndexOf nodeIds) edge index entry := by
  obtain ⟨row, listed, member⟩ := mem_flatten.mp member
  obtain ⟨index, found⟩ := List.getElem?_of_mem listed
  obtain ⟨edge, among, enters⟩ := stored_adjacencyOf ⟨row, found, member⟩
  exact ⟨edge, among, index, enters⟩

/-- Every edge has its entry. -/
theorem length_flatten_adjacencyOf :
    (adjacencyOf (withEndpoints nodeIds edges) edges).flatten.length = edges.length := by
  have known : ∀ edge ∈ edges, Known (nodeIndexOf (withEndpoints nodeIds edges))
      (replicate (withEndpoints nodeIds edges).length ([] : Row)).length edge := by
    intro edge member
    obtain ⟨fromIndex, foundFrom⟩ := lookup_nodeIndexOf_of_mem
      (mem_withEndpoints.mpr (Or.inr ⟨edge, member, Or.inl rfl⟩))
    obtain ⟨toIndex, foundTo⟩ := lookup_nodeIndexOf_of_mem
      (mem_withEndpoints.mpr (Or.inr ⟨edge, member, Or.inr rfl⟩))
    rw [length_replicate]
    exact ⟨⟨fromIndex, foundFrom, lookup_nodeIndexOf_lt foundFrom⟩, toIndex, foundTo⟩
  rw [adjacencyOf, length_flatten_pushEdges known]
  simp

end FromEdgeList

end Asterel.GraphActivation
