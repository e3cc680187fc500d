import Asterel.Memory.PageRank

/-!
# What a ranking of an edge list holds

A snapshot that is built from an edge list is sound. Where its indices fit into 32 bits, its
entries are those of the edges, and activation is found only where edges of positive weight
lead from a seed of positive weight.
-/

namespace Asterel.GraphActivation

open Library Library.Mass Relation List GraphSnapshot
open GraphSnapshot (fromEdgeList)

variable {EntityId : Type} [LinearOrder EntityId]

/-- There is an edge of positive weight. -/
def Linked (edges : List (Edge EntityId)) (source target : EntityId) : Prop :=
  ∃ edge ∈ edges, edge.1 = source ∧ edge.2.1 = target ∧ 0 < edge.2.2

/-- Edges of positive weight lead to the entity from a seed of positive weight. -/
def Reachable (edges : List (Edge EntityId)) (seeds : List (EntityId × ℚ)) (entity : EntityId) :
    Prop :=
  ∃ seed ∈ seeds, 0 < seed.2 ∧ ReflTransGen (Linked edges) seed.1 entity

section Sound

variable {nodeIds : List EntityId} {edges : List (Edge EntityId)}
variable {neighbor place : Nat}

theorem isChain_offsetsOf (adjacency : List Row) : (offsetsOf adjacency).IsChain (· ≤ ·) :=
  isChain_rowEnds (Nat.zero_le _)

theorem sound_fromEdgeList (nodeIds : List EntityId) (edges : List (Edge EntityId)) :
    (fromEdgeList nodeIds edges).Sound := by
  refine ⟨?_, ?_, ?_, ?_, ?_, ?_, ?_⟩
  · exact congrArg Nat.succ (length_rowEnds.trans length_adjacencyOf)
  · exact isChain_iff_pairwise.mp (isChain_offsetsOf _)
  · intro offset member
    rw [fromEdgeList, length_map]
    rcases mem_cons.mp member with rfl | ends
    · exact Nat.zero_le _
    · exact le_trans (le_of_mem_rowEnds ends).2 (le_of_eq (Nat.zero_add _))
  · exact (length_map _).trans (length_map _).symm
  · intro neighbor member
    obtain ⟨entry, listed, rfl⟩ := mem_map.mp member
    obtain ⟨edge, _, index, _, found, _⟩ := entry_adjacencyOf listed
    exact lookup_nodeIndexOf_lt found
  · intro index
    rcases Nat.lt_or_ge index (fromEdgeList nodeIds edges).weights.length
      with inside | beyond
    · have found := List.getElem?_eq_getElem inside
      obtain ⟨entry, listed, weighs⟩ := mem_map.mp (getElem_mem inside)
      obtain ⟨edge, _, _, _, _, weight⟩ := entry_adjacencyOf listed
      rw [amountAt_eq found, ← weighs, weight]
      exact le_max_right _ _
    · exact le_of_eq (amountAt_of_length_le beyond).symm
  · exact fun node index found => lookup_nodeIndexOf_lt found

/-- A neighbour is the index of a node that an edge leads to. -/
theorem lookup_of_neighbor
    (found : (fromEdgeList nodeIds edges).neighbors[place]? = some neighbor) :
    ∃ node, (fromEdgeList nodeIds edges).nodeIndex.lookup node = some neighbor := by
  obtain ⟨entry, listed, rfl⟩ := mem_map.mp (mem_of_getElem? found)
  obtain ⟨edge, _, _, _, target, _⟩ := entry_adjacencyOf listed
  exact ⟨edge.2.1, target⟩

/-- Where the offsets fit, what stands between two of them belongs to edges of the node. -/
theorem edge_of_neighbor (fits : edges.length < 2 ^ 32) {source start finish : Nat}
    (starts : (fromEdgeList nodeIds edges).offsets[source]? = some start)
    (finishes : (fromEdgeList nodeIds edges).offsets[source + 1]? = some finish)
    (above : start ≤ place) (below : place < finish)
    (found : (fromEdgeList nodeIds edges).neighbors[place]? = some neighbor) :
    ∃ edge ∈ edges, (fromEdgeList nodeIds edges).nodeIndex.lookup edge.1 = some source ∧
      (fromEdgeList nodeIds edges).nodeIndex.lookup edge.2.1 = some neighbor ∧
      amountAt (fromEdgeList nodeIds edges).weights place = max edge.2.2 0 := by
  obtain ⟨entry, listed, rfl⟩ := Option.map_eq_some_iff.mp
    ((List.getElem?_map (f := Prod.fst)).symm.trans found)
  have weight : amountAt (fromEdgeList nodeIds edges).weights place = entry.2 :=
    amountAt_eq ((List.getElem?_map (f := Prod.snd)).trans (congrArg (Option.map Prod.snd) listed))
  have small : 0 + (adjacencyOf (withEndpoints nodeIds edges) edges).flatten.length < 2 ^ 32 := by
    rw [length_flatten_adjacencyOf, Nat.zero_add]
    exact fits
  have empty : ([] : Row).length = 0 := rfl
  have stored := stored_of_offsets empty small starts finishes above below listed
  obtain ⟨edge, among, leaves, enters, weighs⟩ := stored_adjacencyOf stored
  exact ⟨edge, among, leaves, enters, weight.trans weighs⟩

end Sound

section Held

variable (nodeIds : List EntityId) (edges : List (Edge EntityId)) (query : PprQuery EntityId)

/-- Where activation may be: at the indices of nodes, and of reachable ones if all fits. -/
structure Held (index : Nat) : Prop where
  node : ∃ node, (fromEdgeList nodeIds edges).nodeIndex.lookup node = some index
  reachable : (withEndpoints nodeIds edges).length ≤ 2 ^ 32 → edges.length < 2 ^ 32 →
    ∃ node, (fromEdgeList nodeIds edges).nodeIndex.lookup node = some index ∧
      Reachable edges query.seeds node

variable {nodeIds edges query}

theorem seeded_held :
    (fromEdgeList nodeIds edges).Seeded query (Held nodeIds edges query) := by
  intro entry member positive index found
  refine ⟨⟨entry.1, found⟩, fun _ _ => ⟨entry.1, found, ?_⟩⟩
  exact ⟨entry, member, positive, ReflTransGen.refl⟩

theorem closed_held :
    (fromEdgeList nodeIds edges).Closed (Held nodeIds edges query) := by
  intro source held start finish starts finishes place above below neighbor found positive
  refine ⟨lookup_of_neighbor found, fun nodesFit edgesFit => ?_⟩
  obtain ⟨node, indexed, seed, member, weighs, leads⟩ := held.reachable nodesFit edgesFit
  obtain ⟨edge, among, leaves, enters, weight⟩ :=
    edge_of_neighbor edgesFit starts finishes above below found
  have same : edge.1 = node := by
    have first := lookup_nodeIndexOf_fits nodesFit leaves
    have second := lookup_nodeIndexOf_fits nodesFit indexed
    exact Option.some.inj (first.symm.trans second)
  have heavy : 0 < edge.2.2 := by
    rw [weight] at positive
    rcases lt_max_iff.mp positive with heavy | none
    · exact heavy
    · exact absurd none (lt_irrefl 0)
  refine ⟨edge.2.1, enters, seed, member, weighs, leads.tail ?_⟩
  exact ⟨edge, among, same, rfl, heavy⟩

end Held

/-- The offsets begin at 0 and never decrease, every neighbour is a node, and every query has
results: positive scores up to 1 that add up to at most 1, sorted. While there are fewer than
`2 ^ 32` edges the last offset is their number; while there are at most `2 ^ 32` nodes no entity
has two results; and while both hold every result is reachable from a seed. -/
theorem runPpr_wellFormed (nodeIds : List EntityId) (edges : List (Edge EntityId))
    (query : PprQuery EntityId) :
    let snapshot := fromEdgeList nodeIds edges
    (snapshot.offsets.head? = some 0 ∧ snapshot.offsets.Pairwise (· ≤ ·) ∧
      (edges.length < 2 ^ 32 → snapshot.offsets.getLast? = some edges.length) ∧
      ∀ neighbor ∈ snapshot.neighbors, neighbor < snapshot.nodeIds.length) ∧
    ∃ ranked, snapshot.ranking query = some ranked ∧
      snapshot.runPpr query = some (ranked.take query.topK) ∧
      (∀ result ∈ ranked, 0 < result.activationScore ∧ result.activationScore ≤ 1) ∧
      (ranked.map PprResult.activationScore).sum ≤ 1 ∧
      ranked.Pairwise (fun left right => right.activationScore ≤ left.activationScore) ∧
      (snapshot.nodeIds.length ≤ 2 ^ 32 → (ranked.map PprResult.entityId).Nodup) ∧
      (snapshot.nodeIds.length ≤ 2 ^ 32 → edges.length < 2 ^ 32 →
        ∀ result ∈ ranked, Reachable edges query.seeds result.entityId) := by
  intro snapshot
  have sound : snapshot.Sound := sound_fromEdgeList nodeIds edges
  obtain ⟨activation, ranked, ranks, spread, collected⟩ :=
    ranking_ranks sound closed_held (seeded_held : snapshot.Seeded query (Held nodeIds edges query))
  refine ⟨⟨rfl, sound.ascending, fun fits => ?_, sound.neighbors⟩, ranked, ranks, ?_, ?_, ?_, ?_, ?_, ?_⟩
  · have total : (adjacencyOf (withEndpoints nodeIds edges) edges).flatten.length = edges.length :=
      length_flatten_adjacencyOf
    have small : 0 + (adjacencyOf (withEndpoints nodeIds edges) edges).flatten.length < 2 ^ 32 := by
      omega
    have last := getLast_rowEnds small
    rw [total, Nat.zero_add] at last
    exact last
  · rw [runPpr, ranks, Option.map_some]
  · intro result member
    obtain ⟨index, _, score, positive⟩ := collected.scored result member
    refine ⟨positive, ?_⟩
    rw [score]
    exact le_trans (amountAt_le_sum spread.nonneg index) spread.sum
  · exact le_trans collected.sum spread.sum
  · apply collected.sorted.imp
    intro left right before
    rcases ranksBefore_iff.mp before with higher | ⟨same, _⟩
    · exact le_of_lt higher
    · exact le_of_eq same
  · intro fits
    apply collected.distinct
    intro first second entityId firstPositive secondPositive firstListed secondListed
    obtain ⟨firstNode, firstIndexed⟩ := (spread.within first firstPositive).node
    obtain ⟨secondNode, secondIndexed⟩ := (spread.within second secondPositive).node
    have firstSame := (lookup_nodeIndexOf_fits fits firstIndexed).symm.trans firstListed
    have secondSame := (lookup_nodeIndexOf_fits fits secondIndexed).symm.trans secondListed
    cases firstSame
    cases secondSame
    exact Option.some.inj (firstIndexed.symm.trans secondIndexed)
  · intro nodesFit edgesFit result member
    obtain ⟨index, listed, score, positive⟩ := collected.scored result member
    rw [score] at positive
    obtain ⟨node, indexed, reachable⟩ :=
      (spread.within index positive).reachable nodesFit edgesFit
    have same := (lookup_nodeIndexOf_fits nodesFit indexed).symm.trans listed
    cases same
    exact reachable

section TooLarge

variable {edges : List (Edge EntityId)} {nodeIds : List EntityId} (count : Nat) {rest : Nat}

theorem addNode_of_mem {node : EntityId} (member : node ∈ nodeIds) :
    addNode nodeIds node = nodeIds := if_pos member

theorem withEndpoints_of_mem (member : ∀ edge ∈ edges, edge.1 ∈ nodeIds ∧ edge.2.1 ∈ nodeIds) :
    withEndpoints nodeIds edges = nodeIds := by
  induction edges with
  | nil => rfl
  | cons edge edges ih =>
    obtain ⟨source, target⟩ := member edge mem_cons_self
    have rest := ih fun other later => member other (mem_cons_of_mem edge later)
    unfold withEndpoints at rest ⊢
    rw [foldl_cons, addNode_of_mem source, addNode_of_mem target]
    exact rest

/-- The same edge again and again, and one more edge from another node. -/
def manyEdges (count : Nat) : List (Edge Nat) := replicate count (0, 1, 1) ++ [(2, 3, 1)]

/-- One node again and again, and two more nodes. -/
def manyNodes (count : Nat) : List Nat := replicate count 0 ++ [1, 2]

def seedQuery (seeds : List (Nat × ℚ)) (alpha : ℚ) : PprQuery Nat :=
  { seeds, alpha, epsilon := 0, maxIters := 1, topK := 2 }

theorem pushEdges_replicate (row : Row) (rows : List Row) :
    (replicate count (0, 1, 1)).foldl (pushEdge (nodeIndexOf [0, 1, 2, 3])) (row :: rows) =
      (row ++ replicate count (1, 1)) :: rows := by
  induction count generalizing row with
  | zero => simp
  | succ count ih =>
    have pushed : pushEdge (nodeIndexOf [0, 1, 2, 3]) (row :: rows) (0, 1, 1) =
        (row ++ [(1, 1)]) :: rows := by
      have source : (nodeIndexOf [0, 1, 2, 3]).lookup 0 = some 0 := by decide
      have target : (nodeIndexOf [0, 1, 2, 3]).lookup 1 = some 1 := by decide
      simp [pushEdge, source, target]
    rw [replicate_succ, foldl_cons, pushed, ih, append_assoc, replicate_succ, singleton_append]

theorem adjacencyOf_manyEdges : adjacencyOf [0, 1, 2, 3] (manyEdges count) =
    [replicate count (1, 1), [], [(3, 1)], []] := by
  have source : (nodeIndexOf [0, 1, 2, 3]).lookup 2 = some 2 := by decide
  have target : (nodeIndexOf [0, 1, 2, 3]).lookup 3 = some 3 := by decide
  rw [adjacencyOf, manyEdges, foldl_append]
  have first := pushEdges_replicate count [] [[], [], []]
  rw [nil_append] at first
  have start : replicate [0, 1, 2, 3].length ([] : Row) = [] :: [[], [], []] := rfl
  rw [start, first]
  simp [pushEdge, source, target]

/-- A row whose length is cut to nothing leaves its entries to the next row. -/
theorem fromEdgeList_manyEdges (cut : asU32 (rest + 1) = 0) :
    fromEdgeList [0, 1, 2, 3] (manyEdges (rest + 1)) =
      { nodeIndex := nodeIndexOf [0, 1, 2, 3]
        nodeIds := [0, 1, 2, 3]
        offsets := [0, 0, 0, 1, 1]
        neighbors := 1 :: (replicate rest 1 ++ [3])
        weights := 1 :: (replicate rest 1 ++ [1]) } := by
  have known : withEndpoints [0, 1, 2, 3] (manyEdges (rest + 1)) = [0, 1, 2, 3] := by
    apply withEndpoints_of_mem
    intro edge member
    rcases mem_append.mp member with same | last
    · rw [eq_of_mem_replicate same]
      decide
    · rw [mem_singleton.mp last]
      decide
  have offsets : offsetsOf [replicate (rest + 1) (1, 1), [], [(3, 1)], []] = [0, 0, 0, 1, 1] := by
    simp [offsetsOf, rowEnds, cut]
    decide
  have entries : [replicate (rest + 1) ((1 : Nat), (1 : ℚ)), [], [(3, 1)], []].flatten =
      (1, 1) :: (replicate rest (1, 1) ++ [(3, 1)]) := by
    simp [replicate_succ]
  rw [fromEdgeList, known, adjacencyOf_manyEdges, offsets, entries]
  simp

theorem runPpr_manyEdges (cut : asU32 (rest + 1) = 0) :
    (fromEdgeList [0, 1, 2, 3] (manyEdges (rest + 1))).runPpr (seedQuery [(2, 1)] 0) =
      some [⟨1, 1⟩] := by
  have seeded : (nodeIndexOf [0, 1, 2, 3]).lookup 2 = some 2 := by decide
  have positive : ¬ (1 : ℚ) ≤ 0 := by decide
  rw [fromEdgeList_manyEdges cut]
  generalize packed : mk _ _ _ _ _ = snapshot
  have nodes : snapshot.nodeIds = [0, 1, 2, 3] := packed ▸ rfl
  have normalized : snapshot.normalizeSeeds (seedQuery [(2, 1)] 0) = some (some [0, 0, 1, 0]) := by
    subst packed
    simp [seedQuery, normalizeSeeds, addSeed, seeded, addAt, positive]
  have rounded : snapshot.round [0, 0, 1, 0] 0 [0, 0, 1, 0] = some [0, 1, 0, 0] := by
    subst packed
    simp [GraphSnapshot.round, spreadNode, slice, spreadEdge, addAt, positive]
  have collected : snapshot.collectResults [0, 1, 0, 0] = some [⟨1, 1⟩] := by
    rw [collectResults, nodes]
    simp
  rw [runPpr, ranking, nodes, normalized]
  simp only [seedQuery]
  simp [iteratePpr, rounds, rounded, collected]

theorem rowEnds_empty :
    rowEnds 0 (replicate count []) = replicate count 0 := by
  induction count with
  | zero => rfl
  | succ count ih =>
    rw [replicate_succ, replicate_succ, rowEnds]
    exact congrArg (List.cons 0) ih

/-- Without edges a round keeps the part that is restarted. -/
theorem round_without_edges (nodeIds : List Nat) (seed : List ℚ) (alpha : ℚ) (activation : List ℚ) :
    (fromEdgeList nodeIds []).round seed alpha activation = some (seed.map (· * alpha)) := by
  have offset : ∀ place ≤ nodeIds.length, (fromEdgeList nodeIds []).offsets[place]? = some 0 := by
    intro place inside
    have offsets : (fromEdgeList nodeIds []).offsets = replicate (nodeIds.length + 1) 0 :=
      congrArg (List.cons 0) (rowEnds_empty nodeIds.length)
    rw [offsets, List.getElem?_replicate_of_lt (Nat.lt_succ_of_le inside)]
  have idle : ∀ source ∈ activation.zipIdx.take nodeIds.length, ∀ next : List ℚ,
      (fromEdgeList nodeIds []).spreadNode alpha next source = some next := by
    intro source member next
    have inside : source.2 < nodeIds.length := by
      obtain ⟨index, short, found⟩ := getElem_of_mem member
      rw [length_take] at short
      rw [getElem_take, getElem_zipIdx] at found
      rw [← found]
      omega
    rw [spreadNode, offset source.2 (le_of_lt inside), offset (source.2 + 1) inside]
    rfl
  have folded : ∀ sources : List (ℚ × Nat), (∀ source ∈ sources, source ∈ activation.zipIdx.take nodeIds.length) →
      ∀ next, sources.foldlM ((fromEdgeList nodeIds []).spreadNode alpha) next = some next := by
    intro sources among next
    induction sources with
    | nil => rfl
    | cons source sources ih =>
      rw [foldlM_cons, idle source (among source mem_cons_self) next]
      exact ih fun other member => among other (mem_cons_of_mem source member)
  exact folded _ (fun _ member => member) _

theorem positives_zeros (start : Nat) :
    ((replicate count (0 : ℚ)).zipIdx start).filter (fun node => 0 < node.1) = [] := by
  apply filter_eq_nil_iff.mpr
  intro node member
  have zero : node.1 ∈ replicate count (0 : ℚ) := fst_mem_of_mem_zipIdx member
  simp [eq_of_mem_replicate zero]

/-- Two nodes whose indices are cut to those of one node that is listed twice. -/
theorem runPpr_manyNodes (cut : asU32 (rest + 2) = 0) (next : asU32 (rest + 3) = 1) :
    (fromEdgeList (manyNodes (rest + 2)) []).runPpr (seedQuery [(1, 1), (2, 1)] 1) =
      some [⟨0, 2⁻¹⟩, ⟨0, 2⁻¹⟩] := by
  have nodes : manyNodes (rest + 2) = 0 :: 0 :: (replicate rest 0 ++ [1, 2]) := by
    simp [manyNodes, replicate_succ]
  have split : manyNodes (rest + 2) = (replicate (rest + 2) 0 ++ [1]) ++ [2] := by
    simp [manyNodes]
  have first : (nodeIndexOf (manyNodes (rest + 2))).lookup 1 = some 0 := by
    rw [split, lookup_nodeIndexOf_append, lookup_nodeIndexOf_append, length_replicate, cut]
    rfl
  have second : (nodeIndexOf (manyNodes (rest + 2))).lookup 2 = some 1 := by
    rw [split, lookup_nodeIndexOf_append, length_append, length_replicate, length_singleton, next]
    rfl
  have rounded := round_without_edges (manyNodes (rest + 2))
  have indexed : (fromEdgeList (manyNodes (rest + 2)) []).nodeIndex =
    nodeIndexOf (manyNodes (rest + 2)) := rfl
  have listed : (fromEdgeList (manyNodes (rest + 2)) []).nodeIds =
    0 :: 0 :: (replicate rest 0 ++ [1, 2]) := nodes
  generalize fromEdgeList (manyNodes (rest + 2)) [] = snapshot at rounded indexed listed ⊢
  rw [← indexed] at first second
  have length : snapshot.nodeIds.length = rest + 4 := by simp [listed]
  have normalized : snapshot.normalizeSeeds (seedQuery [(1, 1), (2, 1)] 1) =
      some (some (2⁻¹ :: 2⁻¹ :: replicate (rest + 2) 0)) := by
    have one : ¬ (1 : ℚ) ≤ 0 := by decide
    have two : ¬ (1 + 1 : ℚ) ≤ 0 := by norm_num
    have half : (1 + 1 : ℚ)⁻¹ = 2⁻¹ := by norm_num
    simp [seedQuery, normalizeSeeds, addSeed, first, second, addAt, one,
      two, length, replicate_succ, half]
  have collected : snapshot.collectResults (2⁻¹ :: 2⁻¹ :: replicate (rest + 2) 0) =
      some [⟨0, 2⁻¹⟩, ⟨0, 2⁻¹⟩] := by
    have sorted : [PprResult.mk 0 (2⁻¹ : ℚ), PprResult.mk 0 2⁻¹].Pairwise
        fun left right => ranksBefore left right = true := by
      simp [ranksBefore]
    simp [collectResults, listed, positives_zeros, mergeSort_of_pairwise sorted]
  rw [runPpr, ranking, length, normalized]
  simp only [seedQuery]
  simp [iteratePpr, rounds, rounded, collected]

omit [LinearOrder EntityId] in
theorem reachable_within (inside : EntityId → Prop)
    {seeds : List (EntityId × ℚ)} {entity : EntityId} (seeded : ∀ seed ∈ seeds, inside seed.1)
    (closed : ∀ edge ∈ edges, inside edge.1 → inside edge.2.1)
    (reachable : Reachable edges seeds entity) : inside entity := by
  obtain ⟨seed, member, _, leads⟩ := reachable
  induction leads with
  | refl => exact seeded seed member
  | tail _ linked ih =>
    obtain ⟨edge, among, rfl, rfl, _⟩ := linked
    exact closed edge among ih

/-- With `2 ^ 32` edges of one node the last offset is not the number of edges, and a node is
ranked that no edge leads to; with more than `2 ^ 32` nodes an entity is ranked twice that is
neither a seed nor led to. -/
theorem tooLarge_not_wellFormed :
    ((fromEdgeList [0, 1, 2, 3] (manyEdges (2 ^ 32))).offsets.getLast? ≠
        some (manyEdges (2 ^ 32)).length ∧
      (fromEdgeList [0, 1, 2, 3] (manyEdges (2 ^ 32))).runPpr
        (seedQuery [(2, 1)] 0) = some [⟨1, 1⟩] ∧
      ¬ Reachable (manyEdges (2 ^ 32)) [(2, 1)] 1) ∧
    (fromEdgeList (manyNodes (2 ^ 32)) []).runPpr (seedQuery [(1, 1), (2, 1)] 1) =
        some [⟨0, 2⁻¹⟩, ⟨0, 2⁻¹⟩] ∧
      ¬ Reachable [] [(1, 1), (2, 1)] 0 := by
  have edgeCut : asU32 (4294967295 + 1) = 0 := by decide
  have nodeCut : asU32 (4294967294 + 2) = 0 := by decide
  have nextCut : asU32 (4294967294 + 3) = 1 := by decide
  refine ⟨⟨?_, runPpr_manyEdges edgeCut, fun reachable => ?_⟩, runPpr_manyNodes nodeCut nextCut,
    fun reachable => ?_⟩
  · have length : (manyEdges (4294967295 + 1)).length = 4294967295 + 1 + 1 := by
      rw [manyEdges, length_append, length_replicate, length_singleton]
    have last : (2 : Nat) ^ 32 = 4294967295 + 1 := by decide
    rw [last, fromEdgeList_manyEdges edgeCut, length]
    decide
  · have within := reachable_within (fun node => node = 2 ∨ node = 3) (by decide) (by
      intro edge member inside
      rcases mem_append.mp member with same | last
      · rw [eq_of_mem_replicate same] at inside
        exact absurd inside (by decide)
      · rw [mem_singleton.mp last]
        decide) reachable
    exact absurd within (by decide)
  · have within := reachable_within (fun node => node = 1 ∨ node = 2) (by decide)
      (fun edge member => absurd member not_mem_nil) reachable
    exact absurd within (by decide)

end TooLarge

end Asterel.GraphActivation
