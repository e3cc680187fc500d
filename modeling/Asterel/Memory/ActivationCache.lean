import Asterel.Library.Transitions
import Mathlib.Algebra.GroupWithZero.Nat
import Mathlib.Order.Lattice

/-!
# The cache of graph snapshots

A recall looks for the snapshot of its owner under the read lock. On a miss it
queries the two graph tables without a lock, takes the write lock and keeps what
another recall has stored in the meantime. A write commits and then removes the
snapshot of its owner.

A removal between the queries and the insertion is lost: the snapshot that is
stored then is older than the write.
-/

namespace Asterel.ActivationCache

open Library.Transitions List Function

abbrev EntityId := String

section Snapshots

variable {Weight Instant : Type}

structure GraphEntity where
  graphEntityId : EntityId
  ownerEntityId : EntityId
  deriving DecidableEq

variable (Weight Instant) in
structure GraphEdge where
  ownerEntityId : EntityId
  fromEntityId : EntityId
  toEntityId : EntityId
  weight : Option Weight
  confidence : Option Weight
  validFrom : Option Instant
  validUntil : Option Instant

variable (Weight Instant) in
/-- The graph tables of the database. -/
structure Graph where
  graphEntities : List GraphEntity
  graphEdges : List (GraphEdge Weight Instant)

variable (Weight) in
/-- The nodes of one owner, each with the indices and weights of its edges. -/
structure GraphSnapshot where
  nodeIds : List EntityId
  adjacency : List (List (Nat × Weight))
  deriving DecidableEq

/-- The first query of `load_from_db`. -/
def Graph.nodeRows (graph : Graph Weight Instant) (owner : EntityId) : List EntityId :=
  (graph.graphEntities.filter fun row => row.ownerEntityId = owner).map GraphEntity.graphEntityId

/-- Nodes that only an edge names are appended. -/
def addNode (nodeIds : List EntityId) (node : EntityId) : List EntityId :=
  if node ∈ nodeIds then nodeIds else nodeIds ++ [node]

variable [LinearOrder Weight] [Zero Weight] [One Weight] [LE Instant] [DecidableLE Instant]

/-- The second query of `load_from_db`. -/
def Graph.edgeRows (graph : Graph Weight Instant) (owner : EntityId) (now : Instant) :
    List (EntityId × EntityId × Weight) :=
  let valid := graph.graphEdges.filter fun row =>
    row.ownerEntityId = owner && row.validUntil.isNone && row.validFrom.all (· ≤ now)
  valid.map fun row =>
    (row.fromEntityId, row.toEntityId, (row.confidence.or row.weight).getD 1)

def fromEdgeList (nodeIds : List EntityId) (edges : List (EntityId × EntityId × Weight)) :
    GraphSnapshot Weight :=
  let nodeIds := edges.foldl (fun ids edge => addNode (addNode ids edge.1) edge.2.1) nodeIds
  let adjacency := nodeIds.map fun node =>
    (edges.filter fun edge => edge.1 = node).map fun edge =>
      (nodeIds.idxOf edge.2.1, max edge.2.2 0)
  { nodeIds, adjacency }

end Snapshots

section Recalls

variable (Weight Instant : Type)

/-- A snapshot with the number of writes that were committed when each of its two
queries ran. -/
structure Loaded where
  snapshot : GraphSnapshot Weight
  nodesAt : Nat
  edgesAt : Nat
  deriving DecidableEq

variable {Weight}

/-- Both queries saw the write. -/
def Loaded.Includes (loaded : Loaded Weight) (write : Nat) : Prop :=
  write ≤ loaded.nodesAt ∧ write ≤ loaded.edgesAt

instance (loaded : Loaded Weight) (write : Nat) : Decidable (loaded.Includes write) :=
  inferInstanceAs (Decidable (_ ∧ _))

variable (Weight)

/-- Where a call of `get_or_load` is. -/
inductive Phase where
  | started
  | missed
  | nodesRead (rows : List EntityId) (readAt : Nat)
  | loaded (loaded : Loaded Weight)
  | returned (loaded : Loaded Weight)
  | failed

/-- A call of `get_or_load`. The last write whose invalidation had returned when
the call started is recorded for the specification only. -/
structure Recall where
  owner : EntityId
  required : Nat
  phase : Phase Weight

/-- A write to the graph of an owner, with its place among the commits. -/
structure GraphWrite where
  owner : EntityId
  committedAt : Nat
  invalidated : Bool

/-- The database, the cache and the parties. For the specification only, commits are
counted and the last write is recorded whose invalidation has returned. -/
structure System where
  graph : Graph Weight Instant
  commits : Nat
  snapshots : EntityId → Option (Loaded Weight)
  invalidatedWrite : EntityId → Nat
  recalls : List (Recall Weight)
  writes : List GraphWrite

variable {Weight Instant}

/-- A running process with an empty cache. -/
def System.initial (graph : Graph Weight Instant) : System Weight Instant :=
  { graph, commits := 0, snapshots := fun _ => none, invalidatedWrite := fun _ => 0,
    recalls := [], writes := [] }

variable (Weight Instant)

/-- The atomic steps of a call. -/
inductive Event where
  | readCache
  | queryNodes
  | queryEdges (now : Instant)
  | insert
  | failQuery

inductive Action where
  | getOrLoad (owner : EntityId)
  | recallStep (index : Nat) (event : Event Instant)
  | write (owner : EntityId) (graph : Graph Weight Instant)
  | invalidate (index : Nat)

variable {Weight Instant}
variable [LinearOrder Weight] [Zero Weight] [One Weight] [LE Instant] [DecidableLE Instant]

/-- What a step makes of the call and of the snapshot stored for its owner. -/
def advance (state : System Weight Instant) (owner : EntityId) :
    Event Instant → Phase Weight → Option (Phase Weight × Option (Loaded Weight))
  | .readCache, .started =>
    match state.snapshots owner with
    | some loaded => some (.returned loaded, some loaded)
    | none => some (.missed, none)
  | .queryNodes, .missed =>
    some (.nodesRead (state.graph.nodeRows owner) state.commits, state.snapshots owner)
  | .queryEdges now, .nodesRead rows readAt =>
    let snapshot := fromEdgeList rows (state.graph.edgeRows owner now)
    some (.loaded ⟨snapshot, readAt, state.commits⟩, state.snapshots owner)
  | .insert, .loaded loaded =>
    let cached := (state.snapshots owner).getD loaded
    some (.returned cached, some cached)
  | .failQuery, .missed => some (.failed, state.snapshots owner)
  | .failQuery, .nodesRead _ _ => some (.failed, state.snapshots owner)
  | _, _ => none

def step (state : System Weight Instant) : Action Weight Instant → Option (System Weight Instant)
  | .getOrLoad owner =>
    some { state with recalls := state.recalls ++ [⟨owner, state.invalidatedWrite owner, .started⟩] }
  | .recallStep index event =>
    state.recalls[index]?.bind fun reader =>
      (advance state reader.owner event reader.phase).map fun (phase, stored) =>
        { state with
          snapshots := update state.snapshots reader.owner stored
          recalls := state.recalls.set index { reader with phase } }
  | .write owner graph =>
    some { state with
      graph
      commits := state.commits + 1
      writes := state.writes ++ [⟨owner, state.commits + 1, false⟩] }
  | .invalidate index =>
    state.writes[index]?.bind fun write =>
      if write.invalidated then none
      else
        some { state with
          snapshots := update state.snapshots write.owner none
          invalidatedWrite := update state.invalidatedWrite write.owner
            (max (state.invalidatedWrite write.owner) write.committedAt)
          writes := state.writes.set index { write with invalidated := true } }

/-- A call yields a snapshot with every write whose invalidation had returned when
the call started. -/
def ServesFresh (state : System Weight Instant) : Prop :=
  ∀ reader ∈ state.recalls, ∀ loaded, reader.phase = .returned loaded →
    loaded.Includes reader.required

/-- The cache holds no snapshot that is older than an invalidation. -/
def CacheFresh (state : System Weight Instant) : Prop :=
  ∀ owner loaded, state.snapshots owner = some loaded →
    loaded.Includes (state.invalidatedWrite owner)

/-- A snapshot that goes into an empty place of the cache was loaded after the last
write that has been invalidated. -/
def InsertsFresh (state : System Weight Instant) : Action Weight Instant → Prop
  | .recallStep index .insert =>
    ∀ reader loaded, state.recalls[index]? = some reader → reader.phase = .loaded loaded →
      state.snapshots reader.owner = none → loaded.Includes (state.invalidatedWrite reader.owner)
  | _ => True

end Recalls

section Freshness

variable {Weight Instant : Type} {state next : System Weight Instant}
variable {action : Action Weight Instant} {event : Event Instant} (graph : Graph Weight Instant)
  {index : Nat} {stored : Option (Loaded Weight)}

theorem Loaded.Includes.mono {loaded : Loaded Weight} {write earlier : Nat}
    (includes : loaded.Includes write) (before : earlier ≤ write) : loaded.Includes earlier :=
  ⟨Nat.le_trans before includes.1, Nat.le_trans before includes.2⟩

/-- What the queries of a call have seen so far. -/
def Phase.Saw (required : Nat) : Phase Weight → Prop
  | .nodesRead _ readAt => required ≤ readAt
  | .loaded result => result.Includes required
  | .returned result => result.Includes required
  | _ => True

/-- What every step keeps. -/
structure Sound (state : System Weight Instant) : Prop where
  invalidated : ∀ owner, state.invalidatedWrite owner ≤ state.commits
  committed : ∀ write ∈ state.writes, write.committedAt ≤ state.commits
  required : ∀ reader ∈ state.recalls, reader.required ≤ state.invalidatedWrite reader.owner
  saw : ∀ reader ∈ state.recalls, reader.phase.Saw reader.required

theorem initial_sound : Sound (System.initial graph) where
  invalidated _ := Nat.le_refl 0
  committed _ member := by cases member
  required _ member := by cases member
  saw _ member := by cases member

theorem initial_cacheFresh : CacheFresh (System.initial graph) := by
  intro owner loaded stored
  cases stored

theorem Sound.servesFresh (sound : Sound state) : ServesFresh state := by
  intro reader member loaded returned
  have saw := sound.saw reader member
  rw [returned] at saw
  exact saw

variable [LinearOrder Weight] [Zero Weight] [One Weight] [LE Instant] [DecidableLE Instant]

/-- A step of a call is one of its own. -/
theorem recall_step (stepped : step state (.recallStep index event) = some next) :
    ∃ reader phase stored, state.recalls[index]? = some reader ∧
      advance state reader.owner event reader.phase = some (phase, stored) ∧
      next = { state with
        snapshots := update state.snapshots reader.owner stored
        recalls := state.recalls.set index { reader with phase } } := by
  rw [step, Option.bind_eq_some_iff] at stepped
  obtain ⟨reader, found, stepped⟩ := stepped
  obtain ⟨⟨phase, stored⟩, advanced, rfl⟩ := Option.map_eq_some_iff.mp stepped
  exact ⟨reader, phase, stored, found, advanced, rfl⟩

theorem invalidate_step (stepped : step state (.invalidate index) = some next) :
    ∃ write, state.writes[index]? = some write ∧ next = { state with
        snapshots := update state.snapshots write.owner none
        invalidatedWrite := update state.invalidatedWrite write.owner
          (max (state.invalidatedWrite write.owner) write.committedAt)
        writes := state.writes.set index { write with invalidated := true } } := by
  rw [step, Option.bind_eq_some_iff] at stepped
  obtain ⟨write, found, stepped⟩ := stepped
  split at stepped
  · cases stepped
  · exact ⟨write, found, (Option.some.inj stepped).symm⟩

/-- What a call has seen after a step, and what the cache holds for its owner then:
what it held before, or the snapshot the call has loaded itself. -/
theorem advance_cases {owner : EntityId} {phase after : Phase Weight}
    (advanced : advance state owner event phase = some (after, stored)) :
    (stored = state.snapshots owner ∧ (event = .insert → state.snapshots owner ≠ none) ∧
        ∀ required ≤ state.commits, phase.Saw required →
          (∀ loaded, state.snapshots owner = some loaded → loaded.Includes required) →
          after.Saw required) ∨
      ∃ loaded, event = .insert ∧ phase = .loaded loaded ∧ state.snapshots owner = none ∧
        after = .returned loaded ∧ stored = some loaded := by
  cases event <;> cases phase <;> first | cases advanced | skip
  case readCache.started =>
    rw [advance] at advanced
    split at advanced
    case h_1 loaded found =>
      cases advanced
      exact Or.inl ⟨found.symm, nofun, fun _ _ _ fresh => fresh loaded found⟩
    case h_2 found =>
      cases advanced
      exact Or.inl ⟨found.symm, nofun, fun _ _ _ _ => trivial⟩
  case queryNodes.missed.refl => exact Or.inl ⟨rfl, nofun, fun _ bound _ _ => bound⟩
  case queryEdges.nodesRead.refl => exact Or.inl ⟨rfl, nofun, fun _ bound saw _ => ⟨saw, bound⟩⟩
  case insert.loaded.refl loaded =>
    cases found : state.snapshots owner with
    | none => exact Or.inr ⟨loaded, rfl, rfl, rfl, rfl, rfl⟩
    | some cached => exact Or.inl ⟨rfl, nofun, fun _ _ _ fresh => fresh cached rfl⟩
  case failQuery.missed.refl => exact Or.inl ⟨rfl, nofun, fun _ _ _ _ => trivial⟩
  case failQuery.nodesRead.refl => exact Or.inl ⟨rfl, nofun, fun _ _ _ _ => trivial⟩

/-- A fresh cache only gives out what a call may return. -/
theorem advance_saw (sound : Sound state) (fresh : CacheFresh state) {reader : Recall Weight}
    (member : reader ∈ state.recalls) {after : Phase Weight}
    (advanced : advance state reader.owner event reader.phase = some (after, stored)) :
    after.Saw reader.required := by
  have required := sound.required reader member
  have saw := sound.saw reader member
  rcases advance_cases advanced with ⟨_, _, seen⟩ | ⟨loaded, _, phase, _, rfl, _⟩
  · exact seen _ (Nat.le_trans required (sound.invalidated _)) saw fun loaded stored =>
      (fresh _ _ stored).mono required
  · rw [phase] at saw
    exact saw

theorem step_sound (sound : Sound state) (fresh : CacheFresh state)
    (stepped : step state action = some next) : Sound next := by
  cases action with
  | getOrLoad owner =>
    cases stepped
    refine ⟨sound.invalidated, sound.committed, ?_, ?_⟩
    · intro reader member
      rcases mem_append.mp member with old | new
      · exact sound.required reader old
      · rw [mem_singleton.mp new]
    · intro reader member
      rcases mem_append.mp member with old | new
      · exact sound.saw reader old
      · rw [mem_singleton.mp new]
        trivial
  | recallStep index event =>
    obtain ⟨reader, phase, stored, found, advanced, rfl⟩ := recall_step stepped
    have member := mem_of_getElem? found
    refine ⟨sound.invalidated, sound.committed, ?_, ?_⟩
    · intro other inside
      rcases mem_or_eq_of_mem_set inside with old | rfl
      · exact sound.required other old
      · exact sound.required reader member
    · intro other inside
      rcases mem_or_eq_of_mem_set inside with old | rfl
      · exact sound.saw other old
      · exact advance_saw sound fresh member advanced
  | write owner graph =>
    cases stepped
    refine ⟨fun owner => Nat.le_succ_of_le (sound.invalidated owner), ?_, sound.required, sound.saw⟩
    intro write member
    rcases mem_append.mp member with old | new
    · exact Nat.le_succ_of_le (sound.committed write old)
    · rw [mem_singleton.mp new]
  | invalidate index =>
    obtain ⟨write, found, rfl⟩ := invalidate_step stepped
    have committed := sound.committed write (mem_of_getElem? found)
    have raised : ∀ owner, state.invalidatedWrite owner ≤ update state.invalidatedWrite write.owner
          (max (state.invalidatedWrite write.owner) write.committedAt) owner := by
      intro owner
      by_cases same : owner = write.owner
      · subst same
        rw [update_self]
        exact Nat.le_max_left _ _
      · rw [update_of_ne same]
    have bounded : ∀ owner, update state.invalidatedWrite write.owner
        (max (state.invalidatedWrite write.owner) write.committedAt) owner ≤ state.commits := by
      intro owner
      by_cases same : owner = write.owner
      · subst same
        rw [update_self]
        exact Nat.max_le.mpr ⟨sound.invalidated _, committed⟩
      · rw [update_of_ne same]
        exact sound.invalidated owner
    refine ⟨bounded, ?_, ?_, sound.saw⟩
    · intro other inside
      rcases mem_or_eq_of_mem_set inside with old | rfl
      · exact sound.committed other old
      · exact committed
    · intro reader member
      exact Nat.le_trans (sound.required reader member) (raised reader.owner)

/-- Only an insertion can make the cache stale. -/
theorem step_cacheFresh_iff (fresh : CacheFresh state) (stepped : step state action = some next) :
    CacheFresh next ↔ InsertsFresh state action := by
  cases action with
  | getOrLoad owner =>
    cases stepped
    exact iff_of_true fresh trivial
  | write owner graph =>
    cases stepped
    exact iff_of_true fresh trivial
  | invalidate index =>
    obtain ⟨write, found, rfl⟩ := invalidate_step stepped
    refine iff_of_true ?_ trivial
    intro owner loaded stored
    dsimp only at stored ⊢
    by_cases same : owner = write.owner
    · subst same
      rw [update_self] at stored
      cases stored
    · rw [update_of_ne same] at stored ⊢
      exact fresh owner loaded stored
  | recallStep index event =>
    obtain ⟨reader, phase, stored, found, advanced, rfl⟩ := recall_step stepped
    rcases advance_cases advanced with ⟨rfl, occupied, _⟩ | ⟨loaded, rfl, before, empty, _, rfl⟩
    · refine iff_of_true ?_ ?_
      · intro owner loaded held
        dsimp only at held ⊢
        rw [update_eq_self] at held
        exact fresh owner loaded held
      · cases event with
        | insert =>
          intro other loaded found' _ none
          cases found.symm.trans found'
          exact absurd none (occupied rfl)
        | readCache => trivial
        | queryNodes => trivial
        | queryEdges now => trivial
        | failQuery => trivial
    · constructor
      · intro after other result found' same _
        cases found.symm.trans found'
        cases before.symm.trans same
        exact after reader.owner loaded (update_self ..)
      · intro inserts owner other stored
        dsimp only at stored ⊢
        by_cases same : owner = reader.owner
        · subst same
          rw [update_self] at stored
          cases stored
          exact inserts reader loaded found before empty
        · rw [update_of_ne same] at stored
          exact fresh owner other stored

theorem step_disabled (stopped : step state action = none) :
    InsertsFresh state action := by
  cases action with
  | recallStep index event =>
    cases event with
    | insert =>
      intro reader loaded found phase _
      simp [step, found, phase, advance] at stopped
    | readCache => trivial
    | queryNodes => trivial
    | queryEdges now => trivial
    | failQuery => trivial
  | getOrLoad owner => trivial
  | write owner graph => trivial
  | invalidate index => trivial

end Freshness

section Runs

variable {Weight Instant : Type}
variable [LinearOrder Weight] [Zero Weight] [One Weight] [LE Instant] [DecidableLE Instant]

/-- The cache holds no snapshot older than an invalidation exactly in the runs that
put none into it; in these every call returns a fresh one. -/
theorem snapshots_fresh (graph : Graph Weight Instant) (actions : List (Action Weight Instant)) :
    (Always step CacheFresh (System.initial graph) actions ↔
        Guarded step InsertsFresh (System.initial graph) actions) ∧
      (Guarded step InsertsFresh (System.initial graph) actions →
        Always step ServesFresh (System.initial graph) actions) := by
  constructor
  · exact always_iff_guarded_of_invariant step_disabled step_sound
      (fun _ fresh stepped => step_cacheFresh_iff fresh stepped) (initial_sound graph)
      (initial_cacheFresh graph) actions
  · refine @always_of_guarded _ _ step InsertsFresh ServesFresh
      (fun state => Sound state ∧ CacheFresh state) (fun held => held.1.servesFresh) ?_ _
      ⟨initial_sound graph, initial_cacheFresh graph⟩ actions
    rintro state next action ⟨sound, fresh⟩ inserts stepped
    exact ⟨step_sound sound fresh stepped, (step_cacheFresh_iff fresh stepped).mpr inserts⟩

/-- A recall loads the graph of an owner, which then is written and invalidated. The
recall stores what it has loaded, and the next recall gets it. -/
theorem stale_snapshot_served :
    ¬ ∀ (graph : Graph Nat Nat) (actions : List (Action Nat Nat)),
      Always step ServesFresh (System.initial graph) actions := by
  intro fresh
  let written : Graph Nat Nat := ⟨[⟨"slot::person:alice::profile.name", "person:alice"⟩], []⟩
  let actions : List (Action Nat Nat) :=
    [.getOrLoad "person:alice", .recallStep 0 .readCache, .recallStep 0 .queryNodes,
      .recallStep 0 (.queryEdges 0), .write "person:alice" written, .invalidate 0,
      .recallStep 0 .insert, .getOrLoad "person:alice", .recallStep 1 .readCache]
  have always := fresh ⟨[], []⟩ actions
  obtain ⟨final, ran, stale⟩ : ∃ final, run step (System.initial ⟨[], []⟩) actions = some final ∧
      ⟨"person:alice", 1, .returned ⟨⟨[], []⟩, 0, 0⟩⟩ ∈ final.recalls :=
    ⟨_, rfl, mem_cons_of_mem _ mem_cons_self⟩
  exact absurd (always_final always ran _ stale _ rfl) (by decide)

end Runs

end Asterel.ActivationCache
