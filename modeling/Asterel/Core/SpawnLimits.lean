import Mathlib.Data.Finset.Card

/-!
# Spawn limits over a lineage

The limiter sees the agents as a list of nodes with the names of their parents. It
looks the parent of a new agent up, follows the parents for a cycle, and counts the
descendants of the parent by a search from it.

Where the children of an agent have no children in the list the search stops at
once, so the count is the number of children. The lineages of the orchestrator are
of this kind.
-/

namespace Asterel.Subagents

open List

structure SpawnLimits where
  maxDepth : Nat
  maxDescendants : Nat

def SpawnLimits.default : SpawnLimits := ⟨3, 10⟩

/-- A node in the agent lineage tree. -/
structure LineageNode where
  agentId : String
  parentId : Option String
  depth : Nat

section Search

variable (lineage : List LineageNode)

def parentOf (agentId : String) : Option String :=
  (lineage.find? (·.agentId = agentId)).bind LineageNode.parentId

/-- How many agents of the list the search has not come to. -/
def unvisited (visited : List String) : Nat :=
  ((lineage.map LineageNode.agentId).toFinset \ visited.toFinset).card

variable {lineage}

theorem unvisited_lt {visited more : List String} {agentId : String}
    (listed : agentId ∈ lineage.map LineageNode.agentId) (fresh : agentId ∉ visited)
    (member : agentId ∈ more) : unvisited lineage (more ++ visited) < unvisited lineage visited := by
  apply Finset.card_lt_card
  refine ⟨?_, ?_⟩
  · intro other outside
    simp only [Finset.mem_sdiff, mem_toFinset, mem_append, not_or] at outside ⊢
    exact ⟨outside.1, outside.2.2⟩
  · intro subset
    have inside := subset (Finset.mem_sdiff.mpr ⟨mem_toFinset.mpr listed, by simpa using fresh⟩)
    simp [member] at inside

theorem unvisited_le (visited : List String) (agentId : String) :
    unvisited lineage (agentId :: visited) ≤ unvisited lineage visited := by
  apply Finset.card_le_card
  apply Finset.sdiff_subset_sdiff (Finset.Subset.refl _)
  simp

/-- Only an agent of the list has a parent. -/
theorem listed_of_parentOf {agentId parent : String}
    (found : parentOf lineage agentId = some parent) :
    agentId ∈ lineage.map LineageNode.agentId := by
  obtain ⟨node, looked, _⟩ := Option.bind_eq_some_iff.mp found
  have same : node.agentId = agentId := by
    simpa using find?_some looked
  exact mem_map.mpr ⟨node, List.mem_of_find?_eq_some looked, same⟩

variable (lineage)

/-- Whether the parents of the current agent come back to a visited one. -/
def hasCycle (visited : List String) : Option String → Bool
  | none => false
  | some current =>
    if current ∈ visited then true
    else hasCycle (current :: visited) (parentOf lineage current)
termination_by current => (unvisited lineage visited, current.isSome.toNat)
decreasing_by
  rename_i fresh
  cases found : parentOf lineage current with
  | none =>
    rcases (unvisited_le visited current).lt_or_eq with less | same
    · exact Prod.Lex.left _ _ less
    · rw [same]
      exact Prod.Lex.right _ Nat.zero_lt_one
  | some parent =>
    exact Prod.Lex.left _ _ (@unvisited_lt _ _ [current] _ (listed_of_parentOf found) fresh
      (mem_singleton_self current))

/-- The children of an agent that the search has not come to, each once. -/
def freshChildren (current : String) (visited : List String) : List LineageNode → List String
  | [] => []
  | node :: rest =>
    if node.parentId = some current ∧ node.agentId ∉ visited then
      node.agentId :: freshChildren current (node.agentId :: visited) rest
    else freshChildren current visited rest

theorem freshChildren_fresh {current child : String} {nodes : List LineageNode} :
    ∀ {visited : List String}, child ∈ freshChildren current visited nodes →
      (∃ node ∈ nodes, node.agentId = child ∧ node.parentId = some current) ∧ child ∉ visited := by
  induction nodes with
  | nil => exact nofun
  | cons node rest ih =>
    intro visited member
    rw [freshChildren] at member
    split_ifs at member with fresh
    · rcases mem_cons.mp member with rfl | later
      · exact ⟨⟨node, mem_cons_self, rfl, fresh.1⟩, fresh.2⟩
      · obtain ⟨⟨other, listed, named⟩, outside⟩ := ih later
        exact ⟨⟨other, mem_cons_of_mem _ listed, named⟩,
          fun seen => outside (mem_cons_of_mem _ seen)⟩
    · obtain ⟨⟨other, listed, named⟩, outside⟩ := ih member
      exact ⟨⟨other, mem_cons_of_mem _ listed, named⟩, outside⟩

/-- Count the agents that the search still comes to from the queue, whose last element
is taken first. -/
def countFrom (visited queue : List String) (count : Nat) : Nat :=
  match queue with
  | [] => count
  | current :: rest =>
    let found := freshChildren current visited lineage
    countFrom (found ++ visited) (found.reverse ++ rest) (count + found.length)
termination_by (unvisited lineage visited, queue.length)
decreasing_by
  cases found : freshChildren current visited lineage with
  | nil => exact Prod.Lex.right _ (Nat.lt_succ_self _)
  | cons child others =>
    have member : child ∈ freshChildren current visited lineage := by
      rw [found]
      exact mem_cons_self
    obtain ⟨⟨node, listed, named, _⟩, fresh⟩ := freshChildren_fresh member
    exact Prod.Lex.left _ _
      (unvisited_lt (mem_map.mpr ⟨node, listed, named⟩) fresh mem_cons_self)

/-- Count all descendants of a given agent. -/
def countDescendants (agentId : String) : Nat := countFrom lineage [] [agentId] 0

end Search

/-- The depth of a new agent under the parent, if the limits allow one. -/
def checkSpawnAllowed (parentId : String) (lineage : List LineageNode) (limits : SpawnLimits) :
    Except String Nat :=
  match lineage.find? (·.agentId = parentId) with
  | none => .error "parent agent not found in lineage (fail-safe: spawn blocked)"
  | some parent =>
    if hasCycle lineage [] (some parentId) then
      .error "spawn blocked: cycle detected in agent lineage"
    else
      let newDepth := parent.depth + 1
      if newDepth > limits.maxDepth then
        .error ("spawn blocked: depth " ++ toString newDepth ++ " exceeds max_depth " ++
          toString limits.maxDepth)
      else
        let descendantCount := countDescendants lineage parentId
        if descendantCount ≥ limits.maxDescendants then
          .error ("spawn blocked: " ++ toString descendantCount ++
            " descendants reaches max_descendants " ++ toString limits.maxDescendants)
        else .ok newDepth

section Flat

variable {lineage : List LineageNode} {agentId : String}

/-- Agents that nobody names as a parent add nothing. -/
theorem countFrom_childless {visited queue : List String}
    (childless : ∀ current ∈ queue, ∀ node ∈ lineage, node.parentId ≠ some current) (count : Nat) :
    countFrom lineage visited queue count = count := by
  have none : ∀ current, (∀ node ∈ lineage, node.parentId ≠ some current) →
      ∀ visited, freshChildren current visited lineage = [] := by
    intro current alone visited
    rw [eq_nil_iff_forall_not_mem]
    intro child member
    obtain ⟨⟨node, listed, _, parent⟩, _⟩ := freshChildren_fresh member
    exact alone node listed parent
  induction queue generalizing visited with
  | nil => rw [countFrom]
  | cons current rest ih =>
    rw [countFrom, none current (childless current mem_cons_self)]
    exact ih fun other member => childless other (mem_cons_of_mem _ member)

/-- With distinct names the children of an agent are found once each. -/
theorem freshChildren_eq {nodes : List LineageNode}
    (distinct : (nodes.map LineageNode.agentId).Nodup) :
    ∀ {visited : List String}, (∀ node ∈ nodes, node.agentId ∉ visited) →
      freshChildren agentId visited nodes =
        (nodes.filter (·.parentId = some agentId)).map LineageNode.agentId := by
  induction nodes with
  | nil =>
    intro visited _
    rfl
  | cons node rest ih =>
    intro visited fresh
    obtain ⟨alone, distinct⟩ := nodup_cons.mp distinct
    have later : ∀ other ∈ rest, other.agentId ∉ visited :=
      fun other member => fresh other (mem_cons_of_mem _ member)
    rw [freshChildren]
    by_cases child : node.parentId = some agentId
    · rw [if_pos ⟨child, fresh node mem_cons_self⟩, filter_cons_of_pos (by simpa using child),
        map_cons, ih distinct]
      intro other member seen
      rcases mem_cons.mp seen with same | seen
      · exact alone (mem_map.mpr ⟨other, member, same⟩)
      · exact later other member seen
    · rw [if_neg (fun both => child both.1), filter_cons_of_neg (by simpa using child),
        ih distinct later]

/-- The children of an agent whose children have none are all its descendants. -/
theorem countDescendants_flat (distinct : (lineage.map LineageNode.agentId).Nodup)
    (flat : ∀ child ∈ lineage, child.parentId = some agentId →
      ∀ node ∈ lineage, node.parentId ≠ some child.agentId) :
    countDescendants lineage agentId = lineage.countP (·.parentId = some agentId) := by
  have children := @freshChildren_eq agentId _ distinct [] nofun
  rw [countDescendants, countFrom, children, countFrom_childless]
  · rw [length_map, countP_eq_length_filter, Nat.zero_add]
  · intro current member
    simp only [append_nil, mem_reverse, mem_map, mem_filter, decide_eq_true_eq] at member
    obtain ⟨child, ⟨listed, named⟩, rfl⟩ := member
    exact flat child listed named

/-- An agent without a parent is on no cycle. -/
theorem hasCycle_root (root : parentOf lineage agentId = none) :
    hasCycle lineage [] (some agentId) = false := by
  rw [hasCycle, root, hasCycle]
  simp

end Flat

end Asterel.Subagents
