import Asterel.Library.Mass
import Asterel.Memory.GraphSnapshot
import Mathlib.Algebra.BigOperators.Ring.List
import Mathlib.Algebra.Order.Field.Basic
import Mathlib.Tactic.FieldSimp
import Mathlib.Tactic.Linarith

/-!
# Activation spreading on a graph snapshot

Activation starts at the seeds and is spread along the edges, each node handing on a part of
what it has in proportion to the weights of its edges. An index out of bounds has no result.

A round keeps where activation may be, how much of it there is in all, and that there is one
amount for each node.
-/

namespace Asterel.GraphActivation

open Library Library.Mass List

variable {EntityId : Type} [LinearOrder EntityId]

variable (EntityId) in
structure PprQuery where
  seeds : List (EntityId × ℚ)
  alpha : ℚ
  epsilon : ℚ
  maxIters : Nat
  topK : Nat

variable (EntityId) in
structure PprResult where
  entityId : EntityId
  activationScore : ℚ
  deriving DecidableEq

/-- `values[start..finish]`. -/
def slice (values : List ℚ) (start finish : Nat) : Option (List ℚ) :=
  if start ≤ finish ∧ finish ≤ values.length then
    some ((values.drop start).take (finish - start))
  else none

/-- The largest change of an amount. -/
def largestChange (activation next : List ℚ) : ℚ :=
  ((activation.zip next).map fun pair => |pair.2 - pair.1|).foldl max 0

/-- By descending score, and by entity for equal scores. -/
def ranksBefore (left right : PprResult EntityId) : Bool :=
  if right.activationScore = left.activationScore then left.entityId ≤ right.entityId
  else right.activationScore < left.activationScore

namespace GraphSnapshot

variable (snapshot : GraphSnapshot EntityId)

/-- The seed vector and its sum with one more seed. -/
def addSeed (state : List ℚ × ℚ) (entry : EntityId × ℚ) : Option (List ℚ × ℚ) :=
  if entry.2 ≤ 0 then some state
  else
    match snapshot.nodeIndex.lookup entry.1 with
    | none => some state
    | some index => (addAt state.1 index entry.2).map fun seed => (seed, state.2 + entry.2)

/-- There is no seed vector when no known seed has a positive weight. -/
def normalizeSeeds (query : PprQuery EntityId) : Option (Option (List ℚ)) :=
  (query.seeds.foldlM snapshot.addSeed (replicate snapshot.nodeIds.length 0, 0)).map
    fun state => if state.2 ≤ 0 then none else some (state.1.map (· / state.2))

def spreadEdge (propagated weightSum : ℚ) (next : List ℚ) (edge : Nat) : Option (List ℚ) := do
  let neighbor ← snapshot.neighbors[edge]?
  let weight ← snapshot.weights[edge]?
  addAt next neighbor (propagated * (weight / weightSum))

/-- What one node hands on to its neighbours. -/
def spreadNode (alpha : ℚ) (next : List ℚ) (source : ℚ × Nat) : Option (List ℚ) := do
  let start ← snapshot.offsets[source.2]?
  let finish ← snapshot.offsets[source.2 + 1]?
  if start = finish then some next
  else
    let weights ← slice snapshot.weights start finish
    if weights.sum ≤ 0 then some next
    else if (1 - alpha) * source.1 = 0 then some next
    else
      (range' start (finish - start)).foldlM
        (snapshot.spreadEdge ((1 - alpha) * source.1) weights.sum) next

def round (seed : List ℚ) (alpha : ℚ) (activation : List ℚ) : Option (List ℚ) :=
  (activation.zipIdx.take snapshot.nodeIds.length).foldlM (snapshot.spreadNode alpha)
    (seed.map (· * alpha))

/-- At most the given number of rounds. -/
def rounds (seed : List ℚ) (alpha epsilon : ℚ) : Nat → List ℚ → Option (List ℚ)
  | 0, activation => some activation
  | count + 1, activation => do
    let next ← snapshot.round seed alpha activation
    if largestChange activation next < epsilon then some next
    else rounds seed alpha epsilon count next

def iteratePpr (seed : List ℚ) (query : PprQuery EntityId) : Option (List ℚ) :=
  snapshot.rounds seed (max 0 (min query.alpha 1)) (max query.epsilon 0) (max query.maxIters 1) seed

/-- `collect_top_k_results` before it truncates. -/
def collectResults (activation : List ℚ) : Option (List (PprResult EntityId)) := do
  let results ← (activation.zipIdx.filter fun node => 0 < node.1).mapM fun node =>
    snapshot.nodeIds[node.2]?.map fun entityId => PprResult.mk entityId node.1
  some (results.mergeSort ranksBefore)

/-- The results of a query before they are truncated. -/
def ranking (query : PprQuery EntityId) : Option (List (PprResult EntityId)) := do
  if snapshot.nodeIds.length = 0 ∨ query.topK = 0 ∨ query.seeds = [] then some []
  else
    match ← snapshot.normalizeSeeds query with
    | none => some []
    | some seed => snapshot.collectResults (← snapshot.iteratePpr seed query)

def runPpr (query : PprQuery EntityId) : Option (List (PprResult EntityId)) :=
  (snapshot.ranking query).map (·.take query.topK)

end GraphSnapshot

/-- The representation invariant of a snapshot. -/
structure GraphSnapshot.Sound (snapshot : GraphSnapshot EntityId) : Prop where
  offsets : snapshot.offsets.length = snapshot.nodeIds.length + 1
  ascending : snapshot.offsets.Pairwise (· ≤ ·)
  bounded : ∀ offset ∈ snapshot.offsets, offset ≤ snapshot.neighbors.length
  weights : snapshot.weights.length = snapshot.neighbors.length
  neighbors : ∀ neighbor ∈ snapshot.neighbors, neighbor < snapshot.nodeIds.length
  nonneg : ∀ index, 0 ≤ amountAt snapshot.weights index
  indices : ∀ node index, snapshot.nodeIndex.lookup node = some index →
    index < snapshot.nodeIds.length

/-- The indices hold the neighbours of each of them along edges of positive weight. -/
def GraphSnapshot.Closed (snapshot : GraphSnapshot EntityId) (indices : Nat → Prop) : Prop :=
  ∀ source, indices source → ∀ start finish, snapshot.offsets[source]? = some start →
    snapshot.offsets[source + 1]? = some finish → ∀ edge, start ≤ edge → edge < finish →
    ∀ neighbor, snapshot.neighbors[edge]? = some neighbor → 0 < amountAt snapshot.weights edge →
    indices neighbor

/-- The indices hold the seeds of positive weight. -/
def GraphSnapshot.Seeded (snapshot : GraphSnapshot EntityId) (query : PprQuery EntityId)
    (indices : Nat → Prop) : Prop :=
  ∀ entry ∈ query.seeds, 0 < entry.2 → ∀ index, snapshot.nodeIndex.lookup entry.1 = some index →
    indices index

/-- One amount for each node, not negative, at most a total and positive at the indices only. -/
structure Spread (size : Nat) (indices : Nat → Prop) (total : ℚ) (activation : List ℚ) : Prop where
  length : activation.length = size
  nonneg : ∀ index, 0 ≤ amountAt activation index
  sum : activation.sum ≤ total
  within : ∀ index, 0 < amountAt activation index → indices index

section Spread

variable {size : Nat} {indices : Nat → Prop} {total more : ℚ} {values next : List ℚ}

theorem Spread.zeros (size : Nat) (indices : Nat → Prop) :
    Spread size indices 0 (replicate size 0) := by
  have zero : ∀ index, amountAt (replicate size (0 : ℚ)) index = 0 := by
    intro index
    rcases Nat.lt_or_ge index size with inside | beyond
    · exact amountAt_eq (List.getElem?_replicate_of_lt inside)
    · exact amountAt_of_length_le (by rw [length_replicate]; exact beyond)
  refine ⟨length_replicate, fun index => le_of_eq (zero index).symm, by simp, ?_⟩
  intro index positive
  rw [zero index] at positive
  exact absurd positive (lt_irrefl 0)

variable (spread : Spread size indices total values)
include spread

theorem Spread.gain
    (gained : Gained values next more indices) : Spread size indices (total + more) next where
  length := gained.length.trans spread.length
  nonneg := gained.nonneg spread.nonneg
  sum := le_trans gained.sum (add_le_add_left spread.sum more)
  within := fun index positive => by
    rcases lt_or_ge 0 (amountAt values index) with before | nothing
    · exact spread.within index before
    · exact gained.gains index (lt_of_le_of_lt nothing positive)

theorem Spread.scale {factor : ℚ}
    (nonneg : 0 ≤ factor) : Spread size indices (total * factor) (values.map (· * factor)) := by
  have scaled : ∀ index, amountAt (values.map (· * factor)) index = amountAt values index * factor := by
    intro index
    rcases Nat.lt_or_ge index values.length with inside | beyond
    · rw [amountAt_eq (List.getElem?_eq_getElem inside)]
      exact amountAt_eq (by rw [List.getElem?_map, List.getElem?_eq_getElem inside, Option.map_some])
    · rw [amountAt_of_length_le beyond, zero_mul]
      exact amountAt_of_length_le (by rw [length_map]; exact beyond)
  refine ⟨(length_map _).trans spread.length, fun index => ?_, ?_, fun index positive => ?_⟩
  · rw [scaled index]
    exact mul_nonneg (spread.nonneg index) nonneg
  · have sum : (values.map (· * factor)).sum = values.sum * factor := by
      rw [sum_map_mul_right, map_id']
    rw [sum]
    exact mul_le_mul_of_nonneg_right spread.sum nonneg
  · rw [scaled index] at positive
    exact spread.within index (pos_of_mul_pos_left positive nonneg)

theorem Spread.mono (small : total ≤ more) :
    Spread size indices more values := { spread with sum := le_trans spread.sum small }

end Spread

section Seeds

variable {snapshot : GraphSnapshot EntityId} {indices : Nat → Prop}

theorem addSeeds_gained (sound : snapshot.Sound) {seeds : List (EntityId × ℚ)}
    (seeded : ∀ entry ∈ seeds, 0 < entry.2 → ∀ index,
      snapshot.nodeIndex.lookup entry.1 = some index → indices index)
    (state : List ℚ × ℚ) (sized : state.1.length = snapshot.nodeIds.length) :
    ∃ next, seeds.foldlM snapshot.addSeed state = some next ∧
      Gained state.1 next.1 (next.2 - state.2) indices := by
  induction seeds generalizing state with
  | nil => exact ⟨state, rfl, Gained.refl _ _ (le_of_eq (sub_self _).symm)⟩
  | cons entry seeds ih =>
    have later := ih fun other member =>
      seeded other (mem_cons_of_mem entry member)
    rw [foldlM_cons, GraphSnapshot.addSeed]
    split
    · exact later state sized
    · rename_i positive
      split
      · exact later state sized
      · rename_i index found
        have positive : 0 < entry.2 := lt_of_not_ge positive
        have inside : index < state.1.length := sized.symm ▸ sound.indices _ _ found
        obtain ⟨seed, added, gained⟩ := addAt_gained inside (le_of_lt positive)
        obtain ⟨next, folded, rest⟩ := later (seed, state.2 + entry.2) (gained.length.trans sized)
        refine ⟨next, ?_, ?_⟩
        · rw [added]
          exact folded
        · have total : entry.2 + (next.2 - (state.2 + entry.2)) = next.2 - state.2 := by abel
          rw [← total]
          apply (gained.trans rest).mono
          rintro place (⟨rfl, _⟩ | within)
          · exact seeded entry mem_cons_self positive _ found
          · exact within

theorem normalizeSeeds_spread (sound : snapshot.Sound) {query : PprQuery EntityId}
    (seeded : snapshot.Seeded query indices) :
    snapshot.normalizeSeeds query = some none ∨
      ∃ seed, snapshot.normalizeSeeds query = some (some seed) ∧
        Spread snapshot.nodeIds.length indices 1 seed := by
  obtain ⟨state, folded, gained⟩ := addSeeds_gained sound seeded
    (replicate snapshot.nodeIds.length 0, 0) length_replicate
  unfold GraphSnapshot.normalizeSeeds
  rw [folded, Option.map_some]
  rcases le_or_gt state.2 0 with nothing | positive
  · exact Or.inl (by rw [if_pos nothing])
  · refine Or.inr ⟨_, by rw [if_neg (not_le_of_gt positive)], ?_⟩
    have spread := ((Spread.zeros _ indices).gain gained).scale (le_of_lt (inv_pos.mpr positive))
    simp only [sub_zero, zero_add, mul_inv_cancel₀ (ne_of_gt positive)] at spread
    simpa only [div_eq_mul_inv] using spread

end Seeds

section Rounds

variable {snapshot : GraphSnapshot EntityId} {indices : Nat → Prop}
variable {activation seed : List ℚ} {alpha propagated : ℚ}

variable (sound : snapshot.Sound)
include sound

theorem spreadEdge_gained {weightSum : ℚ} {edge : Nat}
    (inside : edge < snapshot.neighbors.length) (nonneg : 0 ≤ propagated) (positive : 0 < weightSum)
    (next : List ℚ) (sized : next.length = snapshot.nodeIds.length) :
    ∃ later, snapshot.spreadEdge propagated weightSum next edge = some later ∧
      Gained next later (propagated * (amountAt snapshot.weights edge / weightSum)) fun index =>
        snapshot.neighbors[edge]? = some index ∧ 0 < amountAt snapshot.weights edge := by
  have stored : edge < snapshot.weights.length := sound.weights.symm ▸ inside
  have share : 0 ≤ amountAt snapshot.weights edge / weightSum :=
    div_nonneg (sound.nonneg edge) (le_of_lt positive)
  have held : snapshot.neighbors[edge] < next.length :=
    sized.symm ▸ sound.neighbors _ (getElem_mem inside)
  obtain ⟨later, added, gained⟩ := addAt_gained held (mul_nonneg nonneg share)
  refine ⟨later, ?_, gained.mono ?_⟩
  · rw [GraphSnapshot.spreadEdge, List.getElem?_eq_getElem inside, List.getElem?_eq_getElem stored,
      ← amountAt_eq (List.getElem?_eq_getElem stored)]
    exact added
  · rintro index ⟨rfl, more⟩
    refine ⟨List.getElem?_eq_getElem inside, ?_⟩
    exact (div_pos_iff_of_pos_right positive).mp (pos_of_mul_pos_right more nonneg)

/-- Each node has a row. -/
theorem row_inside {source : Nat} (inside : source < snapshot.nodeIds.length) :
    ∃ start finish, snapshot.offsets[source]? = some start ∧
      snapshot.offsets[source + 1]? = some finish ∧ start ≤ finish ∧
      finish ≤ snapshot.weights.length := by
  have first : source < snapshot.offsets.length := by rw [sound.offsets]; omega
  have second : source + 1 < snapshot.offsets.length := by rw [sound.offsets]; omega
  refine ⟨_, _, List.getElem?_eq_getElem first, List.getElem?_eq_getElem second, ?_, ?_⟩
  · exact pairwise_iff_getElem.mp sound.ascending _ _ first second (Nat.lt_succ_self source)
  · rw [sound.weights]
    exact sound.bounded _ (getElem_mem second)

/-- Along the edges of a row everything is handed on. -/
theorem spreadEdges_gained {start finish : Nat}
    (ordered : start ≤ finish) (below : finish ≤ snapshot.weights.length) (nonneg : 0 ≤ propagated)
    (positive : 0 < ((snapshot.weights.drop start).take (finish - start)).sum)
    (next : List ℚ) (sized : next.length = snapshot.nodeIds.length) :
    ∃ later, (range' start (finish - start)).foldlM (snapshot.spreadEdge propagated
        ((snapshot.weights.drop start).take (finish - start)).sum) next = some later ∧
      Gained next later propagated fun index => ∃ edge, start ≤ edge ∧ edge < finish ∧
        snapshot.neighbors[edge]? = some index ∧ 0 < amountAt snapshot.weights edge := by
  rw [take_drop_eq_map _ (by omega)] at positive ⊢
  obtain ⟨later, folded, gained⟩ := foldlM_gained
    (fun edge (member : edge ∈ range' start (finish - start)) next sized => by
      have among := mem_range'_1.mp member
      have inside : edge < snapshot.neighbors.length := by rw [← sound.weights]; omega
      exact spreadEdge_gained sound inside nonneg positive next sized) next sized
  refine ⟨later, folded, ?_⟩
  have total : ((range' start (finish - start)).map fun edge => propagated *
      (amountAt snapshot.weights edge /
        ((range' start (finish - start)).map (amountAt snapshot.weights)).sum)).sum =
      propagated := by
    simp only [div_eq_mul_inv]
    rw [sum_map_mul_left, sum_map_mul_right, mul_inv_cancel₀ (ne_of_gt positive), mul_one]
  rw [total] at gained
  apply gained.mono
  rintro index ⟨edge, member, arrives⟩
  have among := mem_range'_1.mp member
  exact ⟨edge, among.1, by omega, arrives⟩

/-- A node hands on at most the part of its activation that is not restarted. -/
theorem spreadNode_gained (closed : snapshot.Closed indices)
    (atMost : alpha ≤ 1) {source : ℚ × Nat} (inside : source.2 < snapshot.nodeIds.length)
    (nonneg : 0 ≤ source.1) (within : 0 < source.1 → indices source.2)
    (next : List ℚ) (sized : next.length = snapshot.nodeIds.length) :
    ∃ later, snapshot.spreadNode alpha next source = some later ∧
      Gained next later ((1 - alpha) * source.1) indices := by
  have propagates : 0 ≤ (1 - alpha) * source.1 := mul_nonneg (sub_nonneg.mpr atMost) nonneg
  have kept : Gained next next ((1 - alpha) * source.1) indices := Gained.refl _ indices propagates
  obtain ⟨start, finish, starts, finishes, ordered, below⟩ := row_inside sound inside
  simp only [GraphSnapshot.spreadNode, starts, finishes, slice, if_pos (And.intro ordered below),
    Option.bind_eq_bind, Option.bind_some]
  split
  · exact ⟨next, rfl, kept⟩
  split
  · exact ⟨next, rfl, kept⟩
  rename_i heavy
  split
  · exact ⟨next, rfl, kept⟩
  rename_i active
  have positive : 0 < source.1 :=
    lt_of_le_of_ne nonneg fun zero => active (by rw [← zero, mul_zero])
  obtain ⟨later, folded, gained⟩ := spreadEdges_gained sound ordered below propagates
    (lt_of_not_ge heavy) next sized
  refine ⟨later, folded, gained.mono ?_⟩
  rintro index ⟨edge, above, under, neighbor, weight⟩
  exact closed source.2 (within positive) start finish starts finishes edge above under index
    neighbor weight

/-- A round keeps what the activation is known to be. -/
theorem round_spread (closed : snapshot.Closed indices) (atLeast : 0 ≤ alpha) (atMost : alpha ≤ 1)
    (seeds : Spread snapshot.nodeIds.length indices 1 seed)
    (spread : Spread snapshot.nodeIds.length indices 1 activation) :
    ∃ next, snapshot.round seed alpha activation = some next ∧
      Spread snapshot.nodeIds.length indices 1 next := by
  have restarted := seeds.scale atLeast
  have all : activation.zipIdx.take snapshot.nodeIds.length = activation.zipIdx :=
    take_of_length_le (le_of_eq (length_zipIdx.trans spread.length))
  have handsOn : ∀ source ∈ activation.zipIdx, ∀ next : List ℚ,
      next.length = snapshot.nodeIds.length →
      ∃ later, snapshot.spreadNode alpha next source = some later ∧
        Gained next later ((1 - alpha) * source.1) indices := by
    intro source member next sized
    obtain ⟨inside, found⟩ := mem_zipIdx' member
    have amount : source.1 = amountAt activation source.2 := by
      rw [amountAt_eq (List.getElem?_eq_getElem inside), found]
    apply spreadNode_gained sound closed atMost (spread.length ▸ inside) _ _ next sized
    · rw [amount]
      exact spread.nonneg source.2
    · rw [amount]
      exact spread.within source.2
  obtain ⟨next, folded, gained⟩ := foldlM_gained handsOn (seed.map (· * alpha)) restarted.length
  refine ⟨next, ?_, ?_⟩
  · rw [GraphSnapshot.round, all]
    exact folded
  · have total : (activation.zipIdx.map fun source => (1 - alpha) * source.1).sum =
        (1 - alpha) * activation.sum := by
      rw [sum_map_mul_left, zipIdx_map_fst]
    rw [total] at gained
    have small : 1 * alpha + (1 - alpha) * activation.sum ≤ 1 := by
      have part := mul_le_mul_of_nonneg_left spread.sum (sub_nonneg.mpr atMost)
      linarith
    exact (restarted.gain (gained.mono fun index ⟨_, _, within⟩ => within)).mono small

theorem rounds_spread (closed : snapshot.Closed indices)
    (epsilon : ℚ) (atLeast : 0 ≤ alpha) (atMost : alpha ≤ 1)
    (seeds : Spread snapshot.nodeIds.length indices 1 seed)
    (spread : Spread snapshot.nodeIds.length indices 1 activation) (count : Nat) :
    ∃ last, snapshot.rounds seed alpha epsilon count activation = some last ∧
      Spread snapshot.nodeIds.length indices 1 last := by
  induction count generalizing activation with
  | zero => exact ⟨activation, rfl, spread⟩
  | succ count ih =>
    obtain ⟨next, stepped, later⟩ := round_spread sound closed atLeast atMost seeds spread
    rw [GraphSnapshot.rounds, stepped, Option.bind_eq_bind, Option.bind_some]
    split
    · exact ⟨next, rfl, later⟩
    · exact ih later

end Rounds

section Results

variable {snapshot : GraphSnapshot EntityId} {indices : Nat → Prop}
variable {activation : List ℚ}

theorem mapM_of_forall {α β : Type} {f : α → Option β} {items : List α}
    (each : ∀ item ∈ items, ∃ result, f item = some result) :
    ∃ results, items.mapM f = some results ∧ items.map f = results.map some := by
  induction items with
  | nil => exact ⟨[], rfl, rfl⟩
  | cons item items ih =>
    obtain ⟨result, first⟩ := each item mem_cons_self
    obtain ⟨results, rest, same⟩ := ih fun other member =>
      each other (mem_cons_of_mem item member)
    refine ⟨result :: results, ?_, ?_⟩
    · rw [mapM_cons, first, rest]
      rfl
    · rw [map_cons, map_cons, first, same]

theorem ranksBefore_iff {left right : PprResult EntityId} : ranksBefore left right = true ↔
    right.activationScore < left.activationScore ∨
      right.activationScore = left.activationScore ∧ left.entityId ≤ right.entityId := by
  unfold ranksBefore
  split
  · rename_i same
    simp [same]
  · rename_i different
    simp [different]

theorem ranksBefore_trans (left middle right : PprResult EntityId)
    (first : ranksBefore left middle = true) (second : ranksBefore middle right = true) :
    ranksBefore left right = true := by
  rw [ranksBefore_iff] at first second ⊢
  rcases first with higher | ⟨same, first⟩
  · rcases second with lower | ⟨equal, _⟩
    · exact Or.inl (lt_trans lower higher)
    · exact Or.inl (equal ▸ higher)
  · rcases second with lower | ⟨equal, second⟩
    · exact Or.inl (same ▸ lower)
    · exact Or.inr ⟨equal.trans same, le_trans first second⟩

theorem ranksBefore_total (left right : PprResult EntityId) :
    (ranksBefore left right || ranksBefore right left) = true := by
  rw [Bool.or_eq_true, ranksBefore_iff, ranksBefore_iff]
  rcases lt_trichotomy left.activationScore right.activationScore with lower | same | higher
  · exact Or.inr (Or.inl lower)
  · rcases le_total left.entityId right.entityId with before | after
    · exact Or.inl (Or.inr ⟨same.symm, before⟩)
    · exact Or.inr (Or.inr ⟨same, after⟩)
  · exact Or.inl (Or.inl higher)

/-- An entity is ranked once, with a positive activation that it has, and the scores add up to
no more than the activation. -/
structure Ranks (snapshot : GraphSnapshot EntityId) (activation : List ℚ)
    (ranked : List (PprResult EntityId)) : Prop where
  sorted : ranked.Pairwise fun left right => ranksBefore left right = true
  sum : (ranked.map PprResult.activationScore).sum ≤ activation.sum
  scored : ∀ result ∈ ranked, ∃ index, snapshot.nodeIds[index]? = some result.entityId ∧
    result.activationScore = amountAt activation index ∧ 0 < result.activationScore
  distinct : (∀ first second entityId, 0 < amountAt activation first →
      0 < amountAt activation second → snapshot.nodeIds[first]? = some entityId →
      snapshot.nodeIds[second]? = some entityId → first = second) →
    (ranked.map PprResult.entityId).Nodup

/-- The amounts that are not zero, with their indices. -/
def positives (activation : List ℚ) : List (ℚ × Nat) :=
  activation.zipIdx.filter fun node => 0 < node.1

theorem mem_positives {node : ℚ × Nat} (member : node ∈ positives activation) :
    node.2 < activation.length ∧ node.1 = amountAt activation node.2 ∧ 0 < node.1 := by
  obtain ⟨listed, positive⟩ := mem_filter.mp member
  obtain ⟨inside, found⟩ := mem_zipIdx' listed
  refine ⟨inside, ?_, of_decide_eq_true positive⟩
  rw [amountAt_eq (List.getElem?_eq_getElem inside), found]

theorem nodup_positives (activation : List ℚ) : (positives activation).Nodup := by
  apply Nodup.filter
  apply Nodup.of_map Prod.snd
  rw [zipIdx_map_snd]
  exact nodup_range'

theorem sum_positives_le (nonneg : ∀ index, 0 ≤ amountAt activation index) :
    ((positives activation).map Prod.fst).sum ≤ activation.sum := by
  have all := zipIdx_map_fst 0 activation
  have chosen : ((positives activation).map Prod.fst).Sublist (activation.zipIdx.map Prod.fst) :=
    filter_sublist.map Prod.fst
  rw [all] at chosen
  exact chosen.sum_le_sum fun amount member => nonneg_of_mem nonneg member

/-- What the results are before they are sorted. -/
theorem collected_ranks {results ranked : List (PprResult EntityId)}
    (spread : Spread snapshot.nodeIds.length indices 1 activation)
    (same : ((positives activation).map fun node =>
        snapshot.nodeIds[node.2]?.map fun entityId => PprResult.mk entityId node.1) = results.map some)
    (perm : ranked.Perm results)
    (sorted : ranked.Pairwise fun left right => ranksBefore left right = true) :
    Ranks snapshot activation ranked := by
  have listed : ∀ node ∈ positives activation, ∃ entityId, snapshot.nodeIds[node.2]? = some entityId := by
    intro node member
    have inside := (mem_positives member).1
    rw [spread.length] at inside
    exact ⟨_, List.getElem?_eq_getElem inside⟩
  have scores : results.map PprResult.activationScore = (positives activation).map Prod.fst := by
    apply map_injective_iff.mpr (Option.some_injective ℚ)
    have projected := congrArg (List.map (Option.map PprResult.activationScore)) same
    rw [map_map, map_map] at projected
    rw [map_map, map_map]
    refine Eq.trans projected.symm (map_congr_left fun node member => ?_)
    obtain ⟨entityId, found⟩ := listed node member
    rw [Function.comp_apply, found]
    rfl
  have entities : results.map (fun result => some result.entityId) =
      (positives activation).map fun node => snapshot.nodeIds[node.2]? := by
    have projected := congrArg (List.map (Option.map PprResult.entityId)) same
    rw [map_map, map_map] at projected
    refine Eq.trans projected.symm (map_congr_left fun node member => ?_)
    obtain ⟨entityId, found⟩ := listed node member
    rw [Function.comp_apply, found]
    rfl
  refine ⟨sorted, ?_, ?_, ?_⟩
  · rw [(perm.map _).sum_eq, scores]
    exact sum_positives_le spread.nonneg
  · intro result member
    have mapped := mem_map_of_mem (f := some) (perm.mem_iff.mp member)
    rw [← same] at mapped
    obtain ⟨node, chosen, found⟩ := mem_map.mp mapped
    obtain ⟨entityId, stored, rfl⟩ := Option.map_eq_some_iff.mp found
    obtain ⟨_, amount, positive⟩ := mem_positives chosen
    exact ⟨node.2, stored, amount, positive⟩
  · intro injective
    apply Nodup.of_map some
    rw [map_map, (perm.map _).nodup_iff]
    refine Eq.mpr (congrArg Nodup entities) ?_
    apply (nodup_positives activation).map_on
    intro first firstMember second secondMember equal
    obtain ⟨entityId, found⟩ := listed first firstMember
    obtain ⟨_, firstAmount, firstPositive⟩ := mem_positives firstMember
    obtain ⟨_, secondAmount, secondPositive⟩ := mem_positives secondMember
    have place := injective first.2 second.2 entityId (firstAmount ▸ firstPositive)
      (secondAmount ▸ secondPositive) found (equal ▸ found)
    exact Prod.ext (firstAmount.trans (place ▸ secondAmount.symm)) place

theorem collectResults_ranks (spread : Spread snapshot.nodeIds.length indices 1 activation) :
    ∃ ranked, snapshot.collectResults activation = some ranked ∧ Ranks snapshot activation ranked := by
  have each : ∀ node ∈ positives activation, ∃ result,
      (snapshot.nodeIds[node.2]?.map fun entityId => PprResult.mk entityId node.1) = some result := by
    intro node member
    have inside := (mem_positives member).1
    rw [spread.length] at inside
    exact ⟨_, by rw [List.getElem?_eq_getElem inside, Option.map_some]⟩
  obtain ⟨results, mapped, same⟩ := mapM_of_forall each
  refine ⟨results.mergeSort ranksBefore, ?_, ?_⟩
  · unfold positives at mapped
    rw [GraphSnapshot.collectResults, mapped, Option.bind_eq_bind, Option.bind_some]
  · exact collected_ranks spread same (mergeSort_perm results ranksBefore)
      (pairwise_mergeSort ranksBefore_trans ranksBefore_total results)

/-- Every query has a ranking, of activation that came from the seeds. -/
theorem ranking_ranks (sound : snapshot.Sound) (closed : snapshot.Closed indices)
    {query : PprQuery EntityId} (seeded : snapshot.Seeded query indices) :
    ∃ activation ranked, snapshot.ranking query = some ranked ∧
      Spread snapshot.nodeIds.length indices 1 activation ∧ Ranks snapshot activation ranked := by
  have nothing : ∃ activation, Spread snapshot.nodeIds.length indices 1 activation ∧
      Ranks snapshot activation [] := by
    refine ⟨_, (Spread.zeros _ indices).mono zero_le_one, List.Pairwise.nil, ?_, ?_, ?_⟩
    · simp
    · exact fun result member => absurd member not_mem_nil
    · exact fun _ => nodup_nil
  obtain ⟨zeros, zeroSpread, zeroRanks⟩ := nothing
  unfold GraphSnapshot.ranking
  split
  · exact ⟨zeros, [], rfl, zeroSpread, zeroRanks⟩
  · rcases normalizeSeeds_spread sound seeded with none | ⟨seed, normalized, seeds⟩
    · exact ⟨zeros, [], by rw [none]; rfl, zeroSpread, zeroRanks⟩
    · obtain ⟨activation, iterated, spread⟩ := rounds_spread sound closed
        (max query.epsilon 0) (le_max_left 0 (min query.alpha 1))
        (max_le zero_le_one (min_le_right _ _)) seeds seeds (max query.maxIters 1)
      obtain ⟨ranked, collected, ranks⟩ := collectResults_ranks spread
      refine ⟨activation, ranked, ?_, spread, ranks⟩
      rw [normalized]
      simp only [Option.bind_eq_bind, Option.bind_some, GraphSnapshot.iteratePpr]
      rw [iterated]
      exact collected

end Results

end Asterel.GraphActivation
