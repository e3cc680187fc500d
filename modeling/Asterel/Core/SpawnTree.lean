import Asterel.Core.SpawnLimits
import Asterel.Core.SubagentRuns

/-!
# The tree of spawned subagents

A transport opens a context for its agent. The tools of an agent spawn under the
context of that agent, which lowers its budgets; the interface of the orchestrator
can also be called without a context, or with one but without budgets. A background
spawn is checked against the lineage of all runs and inserted in a second step. The
subagent then gets a context of its own.

The records are named by run ids and the contexts by entity ids. No entity id is a
run id, so the limiter sees every parent as a root with its direct children.
-/

namespace Asterel.SpawnTree

open Library.Transitions List
open Asterel.Subagents hiding Action step

section Contexts

/-- The text of a random id. -/
structure Uuid where
  text : String
  hex : ∀ char ∈ text.toList, char ≠ ':'

def runIdOf (uuid : Uuid) : String := "subagent_" ++ uuid.text

def subagentEntityIdOf (uuid : Uuid) : String := "subagent:" ++ uuid.text

def subagentRootParentId : String := "subagent-root"

def defaultRootChildDelegationQuota : Nat := 4
def defaultSubagentChildDelegationQuota : Nat := 2
def defaultMaxDelegationDepth : Nat := 2

/-- The entity ids of the transports have a kind before a colon. -/
def IsEntityId (entityId : String) : Prop := ':' ∈ entityId.toList ∨ entityId = "default"

instance (entityId : String) : Decidable (IsEntityId entityId) :=
  inferInstanceAs (Decidable (_ ∨ _))

/-- What the spawns read of an execution context, and how far below the root its agent
really is. -/
structure Agent where
  entityId : String
  named : IsEntityId entityId
  delegationDepth : Nat
  maxDelegationDepth : Nat
  childDelegationQuota : Nat
  remainingChildDelegations : Nat
  level : Nat
deriving DecidableEq

/-- The context that a transport opens. -/
def fromSecurity (entityId : String) (named : IsEntityId entityId) : Agent where
  entityId
  named
  delegationDepth := 0
  maxDelegationDepth := defaultMaxDelegationDepth
  childDelegationQuota := defaultSubagentChildDelegationQuota
  remainingChildDelegations := defaultRootChildDelegationQuota
  level := 0

structure SubagentRunOptions where
  parentContext : Option Agent
  delegation : Option SubagentDelegationConfig
deriving DecidableEq

def SubagentRunOptions.parentId (options : SubagentRunOptions) : String :=
  options.parentContext.elim subagentRootParentId Agent.entityId

/-- How far below the root the parent is. The interface itself is the root. -/
def SubagentRunOptions.parentLevel (options : SubagentRunOptions) : Nat :=
  options.parentContext.elim 0 Agent.level

/-- The options of a tool call, and the agent after it. The depth is a byte. -/
def buildDelegationOptions (agent : Agent) : Except String SubagentRunOptions × Agent :=
  if agent.delegationDepth ≥ agent.maxDelegationDepth then
    (.error ("delegation depth limit reached (" ++ toString agent.delegationDepth ++ "/" ++
      toString agent.maxDelegationDepth ++ ")"), agent)
  else if agent.remainingChildDelegations = 0 then
    (.error ("child delegation quota exhausted for " ++ agent.entityId), agent)
  else
    let consumed :=
      { agent with remainingChildDelegations := agent.remainingChildDelegations - 1 }
    (.ok
      { parentContext := some consumed
        delegation := some
          { depth := min (agent.delegationDepth + 1) 255
            maxDepth := agent.maxDelegationDepth
            childQuota := agent.childDelegationQuota } }, consumed)

theorem named_subagent (uuid : Uuid) : IsEntityId (subagentEntityIdOf uuid) := by
  left
  rw [subagentEntityIdOf, String.toList_append]
  exact mem_append_left _ (by decide)

/-- The context of a new subagent. Without budgets it gets those of the runtime. -/
def buildSubagentExecutionContext (options : SubagentRunOptions) (uuid : Uuid) : Agent :=
  let delegation :=
    options.delegation.getD ⟨1, defaultMaxDelegationDepth, defaultSubagentChildDelegationQuota⟩
  { entityId := subagentEntityIdOf uuid
    named := named_subagent uuid
    delegationDepth := delegation.depth
    maxDelegationDepth := delegation.maxDepth
    childDelegationQuota := delegation.childQuota
    remainingChildDelegations := delegation.childQuota
    level := options.parentLevel + 1 }

end Contexts

section Lineage

variable {parentId : String} (uuid : Uuid)

/-- A run in the lineage for a parent. The runs without a parent are children of the
root, but only for the root. -/
def lineageNode (parentId : String) (snapshot : SubagentRunSnapshot) : LineageNode where
  agentId := snapshot.runId
  parentId := snapshot.parentEntityId.or
    (if parentId = subagentRootParentId then some subagentRootParentId else none)
  depth := snapshot.delegation.elim 0 SubagentDelegationConfig.depth

/-- The runs in the order in which the table lists them, and the parent as a root unless
it is one of them. -/
def buildLineageForParent (listed : List SubagentRunSnapshot) (parentId : String) :
    List LineageNode :=
  let lineage := listed.map (lineageNode parentId)
  if lineage.any (·.agentId = parentId) then lineage else lineage ++ [⟨parentId, none, 0⟩]

/-- The descendants that the limiter counts. -/
def countedDescendants (listed : List SubagentRunSnapshot) (parentId : String) : Nat :=
  countDescendants (buildLineageForParent listed parentId) parentId

/-- The runs that name a parent. -/
def childCount (runs : List SubagentRunSnapshot) (parentId : String) : Nat :=
  runs.countP fun snapshot => (lineageNode parentId snapshot).parentId = some parentId

/-- The ids of runs and those of their parents are kept apart. -/
structure Keyed (runs : List SubagentRunSnapshot) : Prop where
  distinct : (runs.map SubagentRunSnapshot.runId).Nodup
  random : ∀ snapshot ∈ runs, ∃ uuid, snapshot.runId = runIdOf uuid
  named : ∀ snapshot ∈ runs, ∀ parent, snapshot.parentEntityId = some parent → IsEntityId parent

theorem runIdOf_not_entityId : ¬ IsEntityId (runIdOf uuid) := by
  rintro (colon | default)
  · rw [runIdOf, String.toList_append, mem_append] at colon
    rcases colon with kind | random
    · revert kind
      decide
    · exact uuid.hex _ random rfl
  · have length := congrArg (fun id => id.toList.length) default
    simp [runIdOf] at length

theorem runIdOf_ne_root : runIdOf uuid ≠ subagentRootParentId := by
  intro same
  have start := congrArg (fun id => id.toList.take 9) same
  simp [runIdOf, subagentRootParentId] at start

variable {runs listed : List SubagentRunSnapshot}

/-- No run is named as a parent. -/
theorem Keyed.childless (keyed : Keyed runs) {child node : SubagentRunSnapshot}
    (childListed : child ∈ runs) (nodeListed : node ∈ runs) (parentId : String) :
    (lineageNode parentId node).parentId ≠ some child.runId := by
  obtain ⟨uuid, random⟩ := keyed.random child childListed
  rw [random]
  cases parent : node.parentEntityId with
  | none =>
    rw [lineageNode, parent, Option.none_or]
    split_ifs
    · exact fun same => runIdOf_ne_root uuid (Option.some.inj same).symm
    · exact nofun
  | some entityId =>
    rw [lineageNode, parent, Option.some_or]
    intro same
    apply runIdOf_not_entityId uuid
    rw [← Option.some.inj same]
    exact keyed.named node nodeListed entityId parent

theorem Keyed.perm (keyed : Keyed runs) (order : listed.Perm runs) : Keyed listed :=
  ⟨(order.map _).nodup_iff.mpr keyed.distinct,
    fun snapshot member => keyed.random snapshot (order.subset member),
    fun snapshot member => keyed.named snapshot (order.subset member)⟩

theorem map_lineageNode (parentId : String) :
    (listed.map (lineageNode parentId)).map LineageNode.agentId =
      listed.map SubagentRunSnapshot.runId := by
  rw [map_map]
  rfl

/-- A node of a lineage is a run or the parent as a root. -/
theorem mem_lineage {node : LineageNode} (member : node ∈ buildLineageForParent listed parentId) :
    (∃ snapshot ∈ listed, lineageNode parentId snapshot = node) ∨ node.parentId = none := by
  simp only [buildLineageForParent] at member
  split_ifs at member
  · exact .inl (mem_map.mp member)
  · rcases mem_append.mp member with run | root
    · exact .inl (mem_map.mp run)
    · rw [mem_singleton.mp root]
      exact .inr rfl

/-- The limiter counts exactly the runs that name the parent. -/
theorem countedDescendants_eq (keyed : Keyed runs) (order : listed.Perm runs) (parentId : String) :
    countedDescendants listed parentId = childCount runs parentId := by
  have keyed := keyed.perm order
  have distinct : ((buildLineageForParent listed parentId).map LineageNode.agentId).Nodup := by
    simp only [buildLineageForParent]
    split_ifs with present
    · rw [map_lineageNode]
      exact keyed.distinct
    · rw [map_append, map_lineageNode, nodup_append']
      refine ⟨keyed.distinct, nodup_singleton _, ?_⟩
      intro id run root
      obtain rfl : id = parentId := by simpa using root
      obtain ⟨snapshot, member, named⟩ := mem_map.mp run
      apply present
      rw [any_map, any_eq_true]
      exact ⟨snapshot, member, decide_eq_true named⟩
  have flat : ∀ child ∈ buildLineageForParent listed parentId, child.parentId = some parentId →
      ∀ node ∈ buildLineageForParent listed parentId, node.parentId ≠ some child.agentId := by
    intro child childListed named node nodeListed
    rcases mem_lineage childListed with ⟨run, runListed, rfl⟩ | root
    · rcases mem_lineage nodeListed with ⟨other, otherListed, rfl⟩ | root
      · exact keyed.childless runListed otherListed parentId
      · rw [root]
        exact nofun
    · rw [root] at named
      cases named
  rw [countedDescendants, countDescendants_flat distinct flat, childCount, ← order.countP_eq]
  simp only [buildLineageForParent]
  split_ifs
  · rw [countP_map]
    rfl
  · rw [countP_append, countP_map]
    simp
    rfl

/-- An accepted spawn leaves room for one more descendant. -/
theorem countedDescendants_lt {depth : Nat} {limits : SpawnLimits}
    (allowed : checkSpawnAllowed parentId (buildLineageForParent listed parentId) limits =
      .ok depth) : countedDescendants listed parentId < limits.maxDescendants := by
  rw [checkSpawnAllowed] at allowed
  split at allowed
  · cases allowed
  · simp only at allowed
    split_ifs at allowed with cycle deep many
    exact Nat.lt_of_not_le many

/-- A new run is one more child of its parent. -/
theorem childCount_append (snapshot : SubagentRunSnapshot) (parentId : String) :
    childCount (runs ++ [snapshot]) parentId = childCount runs parentId +
        if snapshot.parentEntityId.getD subagentRootParentId = parentId then 1 else 0 := by
  rw [childCount, countP_append, ← childCount, countP_singleton]
  congr 1
  cases parent : snapshot.parentEntityId with
  | some entityId => simp [lineageNode, parent]
  | none =>
    by_cases root : parentId = subagentRootParentId
    · simp [lineageNode, parent, root]
    · simp [lineageNode, parent, root, Ne.symm root]

end Lineage

section Steps

/-- A spawn on its way, and whether the limiter has accepted it. -/
structure SpawnRequest where
  options : SubagentRunOptions
  checked : Bool
deriving DecidableEq

/-- All agents with a context, the spawns on their way, and the records of the runs. -/
structure Tree where
  agents : List Agent
  requests : List SpawnRequest
  runs : List SubagentRunSnapshot

def Tree.initial : Tree := ⟨[], [], []⟩

/-- A transport opens a context, an agent uses a tool, or the interface is called. The
spawn that results is checked and inserted in two steps, or runs inline without
either. -/
inductive Action where
  | connect (entityId : String)
  | delegate (agent : Nat)
  | request (parent : Option Nat)
  | check (index : Nat) (listed : List SubagentRunSnapshot)
  | insert (index : Nat) (run context : Uuid)
  | runInline (index : Nat) (context : Uuid)

/-- The record of an accepted spawn. -/
def newRun (options : SubagentRunOptions) (run : Uuid) : SubagentRunSnapshot :=
  (SubagentRunEntry.new (runIdOf run) (options.parentContext.map Agent.entityId)
    options.delegation).snapshot

def checkSpawn (options : SubagentRunOptions) (listed : List SubagentRunSnapshot) :
    Except String Nat :=
  (checkSpawnAllowed options.parentId (buildLineageForParent listed options.parentId)
    .default).mapError ("subagent spawn blocked: " ++ ·)

variable (tree : Tree)

/-- The accepted request that an insertion takes. A random run id is a new one. -/
def insertable (index : Nat) (run : Uuid) : Option SpawnRequest :=
  tree.requests[index]?.filter fun request =>
    request.checked && runIdOf run ∉ tree.runs.map SubagentRunSnapshot.runId

/-- The request that is run inline. -/
def inlinable (index : Nat) : Option SpawnRequest :=
  tree.requests[index]?.filter fun request => !request.checked

/-- The request that the limiter looks at, with the table in some order. -/
def checkable (index : Nat) (listed : List SubagentRunSnapshot) : Option SpawnRequest :=
  tree.requests[index]?.filter fun request => !request.checked && listed.isPerm tree.runs

def step : Action → Option Tree
  | .connect entityId =>
    if named : IsEntityId entityId then
      some { tree with agents := tree.agents ++ [fromSecurity entityId named] }
    else none
  | .delegate index =>
    tree.agents[index]?.map fun agent =>
      match buildDelegationOptions agent with
      | (.error _, _) => tree
      | (.ok options, consumed) =>
        { tree with
          agents := tree.agents.set index consumed
          requests := tree.requests ++ [⟨options, false⟩] }
  | .request none => some { tree with requests := tree.requests ++ [⟨⟨none, none⟩, false⟩] }
  | .request (some index) =>
    tree.agents[index]?.map fun agent =>
      { tree with requests := tree.requests ++ [⟨⟨some agent, none⟩, false⟩] }
  | .check index listed =>
    (checkable tree index listed).map fun request =>
      match checkSpawn request.options listed with
      | .error _ => { tree with requests := tree.requests.eraseIdx index }
      | .ok _ => { tree with requests := tree.requests.set index { request with checked := true } }
  | .insert index run context =>
    (insertable tree index run).map fun request =>
      { agents := tree.agents ++ [buildSubagentExecutionContext request.options context]
        requests := tree.requests.eraseIdx index
        runs := tree.runs ++ [newRun request.options run] }
  | .runInline index context =>
    (inlinable tree index).map fun request =>
      { tree with
        agents := tree.agents ++ [buildSubagentExecutionContext request.options context]
        requests := tree.requests.eraseIdx index }

/-- No agent is too deep, and none has too many descendants in the eyes of the limiter. -/
structure Bounded : Prop where
  depth : ∀ agent ∈ tree.agents, agent.level ≤ SpawnLimits.default.maxDepth
  descendants : ∀ parentId listed, listed.Perm tree.runs →
    countedDescendants listed parentId ≤ SpawnLimits.default.maxDescendants

/-- The parent of a new agent is above the last level, and the limiter would still accept
a spawn when it is inserted. -/
def FitsLimits : Action → Prop
  | .insert index run _ => ∀ request, insertable tree index run = some request →
      request.options.parentLevel < SpawnLimits.default.maxDepth ∧
        countedDescendants tree.runs request.options.parentId < SpawnLimits.default.maxDescendants
  | .runInline index _ => ∀ request, inlinable tree index = some request →
      request.options.parentLevel < SpawnLimits.default.maxDepth
  | _ => True

/-- Contexts spawn through the tools only, and no other spawn of the parent is between
its check and its insertion when a spawn is checked. -/
def OneAtATime : Action → Prop
  | .request parent => parent = none
  | .check index listed => ∀ request, checkable tree index listed = some request →
      ∀ other ∈ tree.requests, other.checked = true →
        other.options.parentId ≠ request.options.parentId
  | _ => True

/-- What the caller of a spawn is told when it is refused. -/
def refusal : Action → Option String
  | .delegate index =>
    tree.agents[index]?.bind fun agent =>
      match (buildDelegationOptions agent).1 with
      | .error error => some error
      | .ok _ => none
  | .check index listed =>
    (checkable tree index listed).bind fun request =>
      match checkSpawn request.options listed with
      | .error error => some error
      | .ok _ => none
  | _ => none

end Steps

section Runs

variable {tree next : Tree} {action : Action}
variable {agent consumed : Agent} {requests : List SpawnRequest} {listed : List SubagentRunSnapshot}
  {index limit : Nat} {request : SpawnRequest} {options : SubagentRunOptions} {run : Uuid}

theorem insertable_eq_some (found : insertable tree index run = some request) :
    tree.requests[index]? = some request ∧ request.checked = true ∧
      runIdOf run ∉ tree.runs.map SubagentRunSnapshot.runId := by
  simpa [insertable, Option.filter_eq_some_iff] using found

theorem inlinable_eq_some (found : inlinable tree index = some request) :
    tree.requests[index]? = some request ∧ request.checked = false := by
  simpa [inlinable, Option.filter_eq_some_iff] using found

theorem checkable_eq_some (found : checkable tree index listed = some request) :
    tree.requests[index]? = some request ∧ request.checked = false ∧ listed.Perm tree.runs := by
  simpa [checkable, Option.filter_eq_some_iff, isPerm_iff] using found

/-- What a tool call hands on, and that it changes nothing but a budget of the agent. -/
theorem buildDelegationOptions_ok (built : buildDelegationOptions agent = (.ok options, consumed)) :
    agent.delegationDepth < agent.maxDelegationDepth ∧ consumed = { agent with
        remainingChildDelegations := agent.remainingChildDelegations - 1 } ∧
      options = ⟨some consumed, some ⟨min (agent.delegationDepth + 1) 255,
        agent.maxDelegationDepth, agent.childDelegationQuota⟩⟩ := by
  rw [buildDelegationOptions] at built
  split_ifs at built with deep used
  · cases built
  · cases built
  · obtain ⟨same, rfl⟩ := Prod.mk.inj built
    exact ⟨Nat.lt_of_not_le deep, rfl, (Except.ok.inj same).symm⟩

/-- Everything that a step can do: it leaves the runs alone and makes at most a root, or
it makes an agent of a request, with a record or without. -/
inductive Steps (tree : Tree) : Action → Tree → Prop where
  | connect {entityId : String} (named : IsEntityId entityId) :
    Steps tree (.connect entityId)
      { tree with agents := tree.agents ++ [fromSecurity entityId named] }
  | delegate {index : Nat} {agent consumed : Agent} {options : SubagentRunOptions}
      (found : tree.agents[index]? = some agent)
      (built : buildDelegationOptions agent = (.ok options, consumed)) :
    Steps tree (.delegate index)
      { tree with
        agents := tree.agents.set index consumed
        requests := tree.requests ++ [⟨options, false⟩] }
  | request {parent : Option Nat} (options : SubagentRunOptions)
      (unbudgeted : options.delegation = none)
      (unparented : parent = none → options.parentContext = none) :
    Steps tree (.request parent) { tree with requests := tree.requests ++ [⟨options, false⟩] }
  | accept {index depth : Nat} {listed : List SubagentRunSnapshot} {request : SpawnRequest}
      (found : checkable tree index listed = some request)
      (accepted : checkSpawn request.options listed = .ok depth) :
    Steps tree (.check index listed)
      { tree with requests := tree.requests.set index { request with checked := true } }
  | refuse {index : Nat} {listed : List SubagentRunSnapshot} :
    Steps tree (.check index listed) { tree with requests := tree.requests.eraseIdx index }
  | refuseTool {index : Nat} : Steps tree (.delegate index) tree
  | insert {index : Nat} {run : Uuid} {request : SpawnRequest}
      (found : insertable tree index run = some request) (context : Uuid) :
    Steps tree (.insert index run context)
      { agents := tree.agents ++ [buildSubagentExecutionContext request.options context]
        requests := tree.requests.eraseIdx index
        runs := tree.runs ++ [newRun request.options run] }
  | runInline {index : Nat} {request : SpawnRequest}
      (found : inlinable tree index = some request) (context : Uuid) :
    Steps tree (.runInline index context)
      { tree with
        agents := tree.agents ++ [buildSubagentExecutionContext request.options context]
        requests := tree.requests.eraseIdx index }

theorem steps_of_step (stepped : step tree action = some next) : Steps tree action next := by
  cases action with
  | connect entityId =>
    rw [step] at stepped
    split_ifs at stepped with named
    cases stepped
    exact .connect named
  | delegate index =>
    obtain ⟨agent, found, rfl⟩ := Option.map_eq_some_iff.mp stepped
    split
    · exact .refuseTool
    · next options consumed built => exact .delegate found built
  | request parent =>
    cases parent with
    | none =>
      cases stepped
      exact .request _ rfl fun _ => rfl
    | some index =>
      obtain ⟨agent, found, rfl⟩ := Option.map_eq_some_iff.mp stepped
      exact .request _ rfl nofun
  | check index listed =>
    obtain ⟨request, found, rfl⟩ := Option.map_eq_some_iff.mp stepped
    split
    · exact .refuse
    · next depth accepted => exact .accept found accepted
  | insert index run context =>
    obtain ⟨request, found, rfl⟩ := Option.map_eq_some_iff.mp stepped
    exact .insert found context
  | runInline index context =>
    obtain ⟨request, found, rfl⟩ := Option.map_eq_some_iff.mp stepped
    exact .runInline found context

theorem keyed_insert (keyed : Keyed tree.runs)
    (fresh : runIdOf run ∉ tree.runs.map SubagentRunSnapshot.runId) :
    Keyed (tree.runs ++ [newRun options run]) := by
  refine ⟨?_, ?_, ?_⟩
  · rw [map_append, nodup_append']
    refine ⟨keyed.distinct, nodup_singleton _, ?_⟩
    intro id member new
    rw [map_singleton, mem_singleton] at new
    rw [new] at member
    exact fresh member
  · intro snapshot member
    rcases mem_append.mp member with old | new
    · exact keyed.random snapshot old
    · rw [mem_singleton.mp new]
      exact ⟨run, rfl⟩
  · intro snapshot member parent named
    rcases mem_append.mp member with old | new
    · exact keyed.named snapshot old parent named
    · rw [mem_singleton.mp new] at named
      obtain ⟨agent, _, rfl⟩ := Option.map_eq_some_iff.mp named
      exact agent.named

theorem step_keyed (keyed : Keyed tree.runs) (stepped : step tree action = some next) :
    Keyed next.runs := by
  cases steps_of_step stepped with
  | insert found context => exact keyed_insert keyed (insertable_eq_some found).2.2
  | _ => exact keyed

theorem bounded_iff (keyed : Keyed tree.runs) :
    Bounded tree ↔ (∀ agent ∈ tree.agents, agent.level ≤ SpawnLimits.default.maxDepth) ∧
        ∀ parentId, childCount tree.runs parentId ≤ SpawnLimits.default.maxDescendants := by
  constructor
  · rintro ⟨depth, descendants⟩
    refine ⟨depth, ?_⟩
    intro parentId
    rw [← countedDescendants_eq keyed (.refl _)]
    exact descendants parentId _ (.refl _)
  · rintro ⟨depth, children⟩
    refine ⟨depth, ?_⟩
    intro parentId listed order
    rw [countedDescendants_eq keyed order]
    exact children parentId

/-- Taking a request as far as a context makes one more agent below its parent. -/
theorem levels_append_iff {context : Uuid} (levels : ∀ agent ∈ tree.agents, agent.level ≤ limit) :
    (∀ agent ∈ tree.agents ++ [buildSubagentExecutionContext options context],
        agent.level ≤ limit) ↔ options.parentLevel < limit := by
  constructor
  · intro all
    exact all _ (mem_append_right _ (mem_singleton_self _))
  · intro room agent member
    rcases mem_append.mp member with old | new
    · exact levels agent old
    · rw [mem_singleton.mp new]
      exact room

theorem newRun_parent (options : SubagentRunOptions) (run : Uuid) :
    (newRun options run).parentEntityId.getD subagentRootParentId = options.parentId := by
  rw [SubagentRunOptions.parentId, newRun, SubagentRunEntry.new]
  cases options.parentContext <;> rfl

/-- A new record exceeds the limit exactly if its parent has no room. -/
theorem children_append_iff (children : ∀ parentId, childCount tree.runs parentId ≤ limit) :
    (∀ parentId, childCount (tree.runs ++ [newRun options run]) parentId ≤ limit) ↔
      childCount tree.runs options.parentId < limit := by
  constructor
  · intro all
    have one := all options.parentId
    rw [childCount_append, newRun_parent, if_pos rfl] at one
    exact one
  · intro room parentId
    rw [childCount_append, newRun_parent]
    split_ifs with same
    · rw [← same]
      exact room
    · exact children parentId

/-- A step keeps the bounds exactly if it meets the condition. -/
theorem step_bounded_iff (keyed : Keyed tree.runs) (bounded : Bounded tree)
    (stepped : step tree action = some next) : Bounded next ↔ FitsLimits tree action := by
  have keyedNext := step_keyed keyed stepped
  obtain ⟨levels, children⟩ := (bounded_iff keyed).mp bounded
  rw [bounded_iff keyedNext]
  cases steps_of_step stepped with
  | connect named =>
    refine iff_of_true ⟨?_, children⟩ trivial
    intro agent member
    rcases mem_append.mp member with old | new
    · exact levels agent old
    · rw [mem_singleton.mp new]
      exact Nat.zero_le _
  | @delegate index agent consumed options found built =>
    refine iff_of_true ⟨?_, children⟩ trivial
    intro other member
    rcases mem_or_eq_of_mem_set member with old | rfl
    · exact levels other old
    · rw [(buildDelegationOptions_ok built).2.1]
      exact levels agent (mem_of_getElem? found)
  | insert found context =>
    rw [levels_append_iff levels, children_append_iff children,
      ← countedDescendants_eq keyed (.refl _)]
    simp [FitsLimits, found]
  | runInline found context =>
    rw [levels_append_iff levels]
    simp [FitsLimits, found, children]
  | _ => exact iff_of_true ⟨levels, children⟩ trivial

/-- An agent whose budgets say how deep it is. -/
def Agent.Budgeted (agent : Agent) : Prop :=
  agent.level = agent.delegationDepth ∧ agent.delegationDepth ≤ defaultMaxDelegationDepth ∧
    agent.maxDelegationDepth = defaultMaxDelegationDepth

/-- The agent that the options make will be one. -/
def SubagentRunOptions.Budgeted (options : SubagentRunOptions) : Prop :=
  ∀ context, (buildSubagentExecutionContext options context).Budgeted

/-- The spawns of a parent that are accepted and not yet inserted. -/
def reserved (requests : List SpawnRequest) (parentId : String) : Nat :=
  requests.countP fun request => request.checked && request.options.parentId = parentId

/-- What holds when spawns of one parent come one at a time. -/
structure Orderly (tree : Tree) : Prop where
  keyed : Keyed tree.runs
  agents : ∀ agent ∈ tree.agents, agent.Budgeted
  requests : ∀ request ∈ tree.requests, request.options.Budgeted
  room : ∀ parentId, childCount tree.runs parentId + reserved tree.requests parentId ≤
    SpawnLimits.default.maxDescendants

theorem keyed_nil : Keyed [] := ⟨nodup_nil, by simp, by simp⟩

theorem orderly_initial : Orderly Tree.initial := by
  refine ⟨keyed_nil, by simp [Tree.initial], by simp [Tree.initial], ?_⟩
  intro parentId
  exact Nat.zero_le _

theorem Orderly.bounded (orderly : Orderly tree) : Bounded tree := by
  apply (bounded_iff orderly.keyed).mpr
  constructor
  · intro agent member
    obtain ⟨level, depth, _⟩ := orderly.agents agent member
    rw [level]
    exact depth.trans (by decide)
  · intro parentId
    exact (Nat.le_add_right _ _).trans (orderly.room parentId)

theorem reserved_erase (found : requests[index]? = some request) (parentId : String) :
    reserved requests parentId = reserved (requests.eraseIdx index) parentId +
      if request.checked && request.options.parentId = parentId then 1 else 0 := by
  rw [reserved, (parties_perm found).countP_eq, countP_cons]
  rfl

/-- A tool call makes a budgeted agent of one. -/
theorem built_budgeted (budgeted : agent.Budgeted)
    (built : buildDelegationOptions agent = (.ok options, consumed)) :
    options.Budgeted ∧ consumed.Budgeted := by
  obtain ⟨room, rfl, rfl⟩ := buildDelegationOptions_ok built
  obtain ⟨level, depth, limit⟩ := budgeted
  refine ⟨?_, level, depth, limit⟩
  intro context
  rw [limit] at room
  have small : min (agent.delegationDepth + 1) 255 = agent.delegationDepth + 1 :=
    Nat.min_eq_left (room.trans (by decide))
  refine ⟨?_, ?_, limit⟩
  · simp [buildSubagentExecutionContext, SubagentRunOptions.parentLevel, small, level]
  · rw [buildSubagentExecutionContext, Option.getD_some, small]
    exact room

/-- Accepting a request reserves a place for it. -/
theorem reserved_accept (found : requests[index]? = some request) (fresh : request.checked = false)
    (parentId : String) :
    reserved (requests.set index { request with checked := true }) parentId =
      reserved requests parentId + if request.options.parentId = parentId then 1 else 0 := by
  rw [reserved_erase found, fresh, reserved, (advanced_perm found _).countP_eq, countP_cons]
  simp [reserved]

/-- An accepted spawn had room for one more child. -/
theorem childCount_lt {depth : Nat} (keyed : Keyed tree.runs) (order : listed.Perm tree.runs)
    (accepted : checkSpawn options listed = .ok depth) :
    childCount tree.runs options.parentId < SpawnLimits.default.maxDescendants := by
  rw [← countedDescendants_eq keyed order]
  rw [checkSpawn] at accepted
  cases allowed : checkSpawnAllowed options.parentId
      (buildLineageForParent listed options.parentId) .default with
  | error error =>
    rw [allowed] at accepted
    cases accepted
  | ok depth => exact countedDescendants_lt allowed

theorem mem_of_eraseIdx {α : Type} {items : List α} {item : α}
    (member : item ∈ items.eraseIdx index) : item ∈ items :=
  (eraseIdx_sublist items index).subset member

theorem agents_append (orderly : Orderly tree) (member : request ∈ tree.requests) (context : Uuid) :
    ∀ agent ∈ tree.agents ++ [buildSubagentExecutionContext request.options context],
      agent.Budgeted := by
  intro agent listed
  rcases mem_append.mp listed with old | new
  · exact orderly.agents agent old
  · rw [mem_singleton.mp new]
    exact orderly.requests request member context

theorem step_orderly (orderly : Orderly tree) (one : OneAtATime tree action)
    (stepped : step tree action = some next) : Orderly next := by
  have keyed := step_keyed orderly.keyed stepped
  cases steps_of_step stepped with
  | connect named =>
    refine ⟨keyed, ?_, orderly.requests, orderly.room⟩
    intro agent member
    rcases mem_append.mp member with old | new
    · exact orderly.agents agent old
    · rw [mem_singleton.mp new]
      exact ⟨rfl, Nat.zero_le _, rfl⟩
  | @delegate index agent consumed options found built =>
    obtain ⟨made, kept⟩ :=
      built_budgeted (orderly.agents agent (mem_of_getElem? found)) built
    refine ⟨keyed, ?_, ?_, ?_⟩
    · intro other member
      rcases mem_or_eq_of_mem_set member with old | rfl
      · exact orderly.agents other old
      · exact kept
    · intro request member
      rcases mem_append.mp member with old | new
      · exact orderly.requests request old
      · rw [mem_singleton.mp new]
        exact made
    · intro parentId
      rw [reserved, countP_append]
      exact orderly.room parentId
  | @request parent options unbudgeted unparented =>
    refine ⟨keyed, orderly.agents, ?_, ?_⟩
    · intro request member
      rcases mem_append.mp member with old | new
      · exact orderly.requests request old
      · rw [mem_singleton.mp new]
        intro context
        simp [buildSubagentExecutionContext, SubagentRunOptions.parentLevel, unbudgeted,
          unparented one, Agent.Budgeted, defaultMaxDelegationDepth]
    · intro parentId
      rw [reserved, countP_append]
      exact orderly.room parentId
  | @accept index depth listed request found accepted =>
    obtain ⟨at_, fresh, order⟩ := checkable_eq_some found
    refine ⟨keyed, orderly.agents, ?_, ?_⟩
    · intro other member
      rcases mem_or_eq_of_mem_set member with old | rfl
      · exact orderly.requests other old
      · exact orderly.requests request (mem_of_getElem? at_)
    · intro parentId
      rw [reserved_accept at_ fresh]
      split_ifs with same
      · subst same
        have alone : reserved tree.requests request.options.parentId = 0 := by
          rw [reserved, countP_eq_zero]
          intro other member both
          rw [Bool.and_eq_true, decide_eq_true_eq] at both
          exact one request found other member both.1 both.2
        rw [alone]
        exact childCount_lt orderly.keyed order accepted
      · exact orderly.room parentId
  | refuse =>
    refine ⟨keyed, orderly.agents,
      fun request member => orderly.requests request (mem_of_eraseIdx member), ?_⟩
    intro parentId
    exact (Nat.add_le_add_left (eraseIdx_sublist _ _).countP_le _).trans (orderly.room parentId)
  | refuseTool => exact orderly
  | @insert index run request found context =>
    obtain ⟨at_, accepted, _⟩ := insertable_eq_some found
    refine ⟨keyed, agents_append orderly (mem_of_getElem? at_) context,
      fun other member => orderly.requests other (mem_of_eraseIdx member), ?_⟩
    intro parentId
    have room := orderly.room parentId
    rw [reserved_erase at_, accepted] at room
    rw [childCount_append, newRun_parent]
    simp only [Bool.true_and, decide_eq_true_eq] at room ⊢
    omega
  | @runInline index request found context =>
    obtain ⟨at_, _⟩ := inlinable_eq_some found
    refine ⟨keyed, agents_append orderly (mem_of_getElem? at_) context,
      fun other member => orderly.requests other (mem_of_eraseIdx member), ?_⟩
    intro parentId
    exact (Nat.add_le_add_left (eraseIdx_sublist _ _).countP_le _).trans (orderly.room parentId)

/-- A spawn that is refused makes neither a record nor an agent. -/
theorem refusal_registers_nothing {error : String} (refused : refusal tree action = some error)
    (stepped : step tree action = some next) :
    next.runs = tree.runs ∧ next.agents = tree.agents := by
  cases steps_of_step stepped with
  | delegate found built => simp [refusal, found, built] at refused
  | accept found accepted => simp [refusal, found, accepted] at refused
  | refuse => exact ⟨rfl, rfl⟩
  | refuseTool => exact ⟨rfl, rfl⟩
  | _ => cases refused

/-- The limits bound the tree in every state of a run exactly if every insertion still
fits them. They do whenever contexts spawn through their tools and no two spawns of one
parent are between check and insertion. A refused spawn registers nothing. -/
theorem spawn_tree_iff (actions : List Action) :
    (Always step Bounded Tree.initial actions ↔ Guarded step FitsLimits Tree.initial actions) ∧
      (Guarded step OneAtATime Tree.initial actions → Always step Bounded Tree.initial actions) ∧
      ∀ (tree next : Tree) (action : Action) (error : String),
        refusal tree action = some error → step tree action = some next →
          next.runs = tree.runs ∧ next.agents = tree.agents := by
  refine ⟨?_, ?_, fun _ _ _ _ => refusal_registers_nothing⟩
  · refine @always_iff_guarded_of_invariant _ _ step FitsLimits Bounded
      (fun tree => Keyed tree.runs) ?_ (fun keyed _ stepped => step_keyed keyed stepped)
      (fun keyed bounded stepped => step_bounded_iff keyed bounded stepped) Tree.initial
      orderly_initial.keyed orderly_initial.bounded actions
    intro tree action stopped
    cases action with
    | insert index run context =>
      intro request found
      simp [step, found] at stopped
    | runInline index context =>
      intro request found
      simp [step, found] at stopped
    | _ => trivial
  · exact always_of_guarded Orderly.bounded
      (fun orderly one stepped => step_orderly orderly one stepped) orderly_initial

end Runs

section Burst

variable (count done : Nat)

/-- A spawn from the interface. -/
def rootSpawn : SubagentRunOptions := ⟨none, none⟩

/-- The first id is the empty one, and each other is longer than the one before. -/
def nthUuid (n : Nat) : Uuid := ⟨String.ofList (replicate n 'a'), by simp⟩

/-- After the accepting of some spawns, none of which is inserted yet. -/
def accepted (count : Nat) : Tree := ⟨[], replicate count ⟨rootSpawn, true⟩, []⟩

/-- After the inserting of some of them. -/
def inserted (done left : Nat) : Tree where
  agents := (List.range done).map fun n => buildSubagentExecutionContext rootSpawn (nthUuid n)
  requests := replicate left ⟨rootSpawn, true⟩
  runs := (List.range done).map fun n => newRun rootSpawn (nthUuid n)

/-- With an empty table every spawn of the interface is accepted. -/
theorem checkSpawn_empty : checkSpawn rootSpawn [] = .ok 1 := by
  have nobody : countedDescendants [] rootSpawn.parentId = 0 :=
    countedDescendants_eq keyed_nil (.refl []) _
  have root : buildLineageForParent [] rootSpawn.parentId = [⟨rootSpawn.parentId, none, 0⟩] := rfl
  have alone := @hasCycle_root (buildLineageForParent [] rootSpawn.parentId)
    rootSpawn.parentId rfl
  rw [countedDescendants, root] at nobody
  rw [root] at alone
  simp [checkSpawn, checkSpawnAllowed, root, alone, nobody, SpawnLimits.default, Except.mapError]

theorem run_accept :
    run step (accepted count) [.request none, .check count []] = some (accepted (count + 1)) := by
  have last : checkable ⟨[], replicate count ⟨rootSpawn, true⟩ ++ [⟨rootSpawn, false⟩], []⟩
      count [] = some ⟨rootSpawn, false⟩ := by
    rw [checkable, Option.filter_eq_some_iff]
    exact ⟨by simp, rfl⟩
  rw [run, step, accepted]
  simp only
  rw [run, step, ← rootSpawn, last, Option.map_some, checkSpawn_empty]
  simp only [run, accepted]
  rw [set_append_right _ _ (by simp), length_replicate, Nat.sub_self, set_cons_zero,
    replicate_succ']

theorem runIdOf_nthUuid_injective : Function.Injective fun n => runIdOf (nthUuid n) := by
  intro first second same
  have length := congrArg (fun id => id.toList.length) same
  simpa [runIdOf, nthUuid] using length

theorem run_insert (left : Nat) :
    run step (inserted done (left + 1)) [.insert 0 (nthUuid done) (nthUuid done)] =
      some (inserted (done + 1) left) := by
  have fresh : runIdOf (nthUuid done) ∉
      (inserted done (left + 1)).runs.map SubagentRunSnapshot.runId := by
    intro member
    obtain ⟨snapshot, listed, same⟩ := mem_map.mp member
    obtain ⟨earlier, before, rfl⟩ := mem_map.mp listed
    exact absurd (runIdOf_nthUuid_injective same) (mem_range.mp before).ne
  have first : insertable (inserted done (left + 1)) 0 (nthUuid done) = some ⟨rootSpawn, true⟩ := by
    simp only [insertable, Option.filter_eq_some_iff]
    exact ⟨rfl, by simpa using fresh⟩
  rw [run, step, first, Option.map_some]
  simp only [run, inserted, range_succ, map_append, map_singleton]
  rfl

/-- Any number of spawns can be accepted before the first one is inserted. -/
theorem burst_accepted :
    ∃ actions, run step Tree.initial actions = some (accepted count) := by
  induction count with
  | zero => exact ⟨[], rfl⟩
  | succ count ih =>
    obtain ⟨actions, ran⟩ := ih
    exact ⟨actions ++ _, (run_append ran).trans (run_accept count)⟩

theorem burst_inserted (left : Nat) :
    ∃ actions, run step Tree.initial actions = some (inserted done left) := by
  induction done generalizing left with
  | zero => exact burst_accepted left
  | succ done ih =>
    obtain ⟨actions, ran⟩ := ih (left + 1)
    exact ⟨actions ++ _, (run_append ran).trans (run_insert done left)⟩

theorem childCount_inserted (left : Nat) :
    childCount (inserted done left).runs subagentRootParentId = done := by
  induction done with
  | zero => rfl
  | succ done ih =>
    rw [inserted] at ih ⊢
    simp only [range_succ, map_append, map_singleton]
    have root : rootSpawn.parentId = subagentRootParentId := rfl
    rw [childCount_append, newRun_parent, root, if_pos rfl, ih]

/-- Eleven spawns without a parent are all checked before the first is inserted. -/
theorem burst_exceeds_limit :
    ¬ ∀ actions : List Action, Always step Bounded Tree.initial actions := by
  intro always
  obtain ⟨actions, ran⟩ := burst_inserted 11 0
  have keyed : Keyed (inserted 11 0).runs :=
    @run_invariant _ _ _ (fun _ _ => True) (fun tree : Tree => Keyed tree.runs)
      (fun keyed _ stepped => step_keyed keyed stepped) _ _ _ orderly_initial.keyed
      (guarded_true _ _) ran
  have children := ((bounded_iff keyed).mp (always_final (always actions) ran)).2
    subagentRootParentId
  rw [childCount_inserted] at children
  exact absurd children (by decide)

end Burst

end Asterel.SpawnTree
