import Asterel.Library.HashMap
import Asterel.Library.Transitions
import Mathlib.Algebra.Order.Group.Nat
import Mathlib.Data.List.Range

/-!
# Routing queues

Each routing group has a queue and a worker that hands the queued events to the handler
one at a time. Above the cap on groups, events go to an overflow group. A worker without
events leaves after a while; its queue counts as closed once it is gone, and the manager
drops closed queues before it takes the next event.

An `enqueue` call first finds or makes the queue of its event and then sends to it; it
waits while the queue is full. Between its two steps, and between calls, workers take
their own steps. A worker that has run into its idle timeout still has its queue open
until it is gone.
-/

namespace Asterel.Routing

open Library

/-- What routing reads of an event. -/
inductive ChannelEvent where
  | message (channel sender : String) (conversationId : Option String)
  | reactionAdd (channelName channelId userId : String)
  | reactionRemove (channelName channelId userId : String)
  | messageEdit (channelName channelId userId : String)
  | messageDelete (channelName channelId : String)
  | typingStart (channelName channelId userId : String)
deriving DecidableEq

namespace ChannelEvent

def channelName : ChannelEvent → String
  | message channel _ _ => channel
  | reactionAdd channelName _ _ | reactionRemove channelName _ _ | messageEdit channelName _ _
  | messageDelete channelName _ | typingStart channelName _ _ => channelName

def sender : ChannelEvent → Option String
  | message _ sender _ => some sender
  | reactionAdd _ _ userId | reactionRemove _ _ userId | messageEdit _ _ userId
  | typingStart _ _ userId => some userId
  | messageDelete _ _ => none

def conversationId : ChannelEvent → Option String
  | message _ _ conversationId => conversationId
  | reactionAdd _ channelId _ | reactionRemove _ channelId _ | messageEdit _ channelId _
  | messageDelete _ channelId | typingStart _ channelId _ => some channelId

end ChannelEvent

structure RoutingRuleConfig where
  channel : String
  sender : Option String
  conversationId : Option String
  group : String
deriving DecidableEq

structure ChannelsConfig where
  routingGlobalConcurrency : Nat
  routingGroupQueueCapacity : Nat
  routingMaxGroups : Nat
  routingRules : List RoutingRuleConfig

def ChannelsConfig.globalConcurrency (config : ChannelsConfig) : Nat :=
  max config.routingGlobalConcurrency 1

def ChannelsConfig.groupQueueCapacity (config : ChannelsConfig) : Nat :=
  max config.routingGroupQueueCapacity 1

def ChannelsConfig.maxGroups (config : ChannelsConfig) : Nat := max config.routingMaxGroups 1

def overflowGroup : String := "__routing_overflow__"

def RoutingRuleConfig.applies (rule : RoutingRuleConfig) (event : ChannelEvent) : Bool :=
  rule.channel = event.channelName &&
    (rule.sender.all fun sender => sender = event.sender.getD "unknown") &&
    rule.conversationId.all fun id => event.conversationId = some id

/-- The group of the first rule that applies, or the channel with the sender. -/
def resolveGroup (config : ChannelsConfig) (event : ChannelEvent) : String :=
  match config.routingRules.find? fun rule => rule.applies event with
  | some rule => rule.group
  | none => event.channelName ++ "::" ++ event.sender.getD "unknown"

/-- An event with the number of its `enqueue` call. -/
structure Job where
  number : Nat
  event : ChannelEvent
deriving DecidableEq

/-- What a worker is about: it waits for an event, has run into its idle timeout, has
dropped its end of the queue, or has an event that waits for a permit or is handled. -/
inductive Worker where
  | waiting
  | leaving
  | gone
  | holding (job : Job)
  | handling (job : Job)
deriving DecidableEq

structure GroupQueue where
  buffer : List Job
  worker : Worker
deriving DecidableEq

namespace GroupQueue

def isClosed (queue : GroupQueue) : Bool := queue.worker = .gone

/-- The jobs that are not finished, the oldest first. -/
def held : GroupQueue → List Job
  | ⟨buffer, .holding job⟩ | ⟨buffer, .handling job⟩ => job :: buffer
  | ⟨buffer, _⟩ => buffer

def running : GroupQueue → List Nat
  | ⟨_, .handling job⟩ => [job.number]
  | _ => []

end GroupQueue

/-- The manager, its workers, and what calls were made and handled. -/
structure RoutingState where
  groupSenders : HashMap String GroupQueue
  sending : Option (String × Job)
  permits : Nat
  enqueued : List ChannelEvent
  started : List Nat
  finished : List Nat

section Manager

variable (config : ChannelsConfig)

def fromConfig : RoutingState := ⟨∅, none, config.globalConcurrency, [], [], []⟩

/-- The queue for a group without one, with the group it is filed under. -/
def createGroupSender (groupSenders : HashMap String GroupQueue) (requestedGroup : String) :
    HashMap String GroupQueue × String :=
  let boundedGroup :=
    if config.maxGroups ≤ groupSenders.len ∧ overflowGroup ∉ groupSenders then overflowGroup
    else if config.maxGroups ≤ groupSenders.len then overflowGroup
    else requestedGroup
  if boundedGroup ∈ groupSenders then (groupSenders, boundedGroup)
  else (groupSenders.insert boundedGroup ⟨[], .waiting⟩, boundedGroup)

/-- Drop the closed queues. -/
def prune (groupSenders : HashMap String GroupQueue) : HashMap String GroupQueue :=
  groupSenders.retain fun _ queue => !queue.isClosed

/-- The queue that is there for a group, or the one created for it. -/
def groupSender (groupSenders : HashMap String GroupQueue) (group : String) :
    HashMap String GroupQueue × String :=
  if group ∈ groupSenders then (groupSenders, group)
  else createGroupSender config groupSenders group

/-- `enqueue` up to its `send`. -/
def enqueue (state : RoutingState) (event : ChannelEvent) : Option RoutingState :=
  if state.sending.isSome then none
  else
    let sender := groupSender config (prune state.groupSenders) (resolveGroup config event)
    some { state with
      groupSenders := sender.1
      sending := some (sender.2, ⟨state.enqueued.length, event⟩)
      enqueued := state.enqueued ++ [event] }

/-- The `send` at the end of a call: an event for a closed queue is dropped. -/
def send (state : RoutingState) : Option RoutingState := do
  let (group, job) ← state.sending
  let queue ← state.groupSenders.lookup group
  if queue.isClosed then some { state with sending := none }
  else if queue.buffer.length < config.groupQueueCapacity then
    some { state with
      groupSenders := state.groupSenders.insert group ⟨queue.buffer ++ [job], queue.worker⟩
      sending := none }
  else none

def RoutingState.setQueue (state : RoutingState) (group : String) (queue : GroupQueue) :
    RoutingState :=
  { state with groupSenders := state.groupSenders.insert group queue }

inductive WorkerMove where
  | receive
  | idle
  | exit
  | start
  | finish
deriving DecidableEq

/-- A step of the worker of a group. The timeout runs out on an empty queue only. -/
def workerStep (state : RoutingState) (group : String) (move : WorkerMove) : Option RoutingState := do
  let queue ← state.groupSenders.lookup group
  match move, queue with
  | .receive, ⟨job :: buffer, .waiting⟩ => some (state.setQueue group ⟨buffer, .holding job⟩)
  | .idle, ⟨[], .waiting⟩ => some (state.setQueue group ⟨[], .leaving⟩)
  | .exit, ⟨_, .leaving⟩ => some (state.setQueue group ⟨[], .gone⟩)
  | .start, ⟨buffer, .holding job⟩ =>
    if state.permits = 0 then none
    else some { state.setQueue group ⟨buffer, .handling job⟩ with
      permits := state.permits - 1
      started := state.started ++ [job.number] }
  | .finish, ⟨buffer, .handling job⟩ =>
    some { state.setQueue group ⟨buffer, .waiting⟩ with
      permits := state.permits + 1
      finished := state.finished ++ [job.number] }
  | _, _ => none

inductive Action where
  | enqueue (event : ChannelEvent)
  | send
  | worker (group : String) (move : WorkerMove)
deriving DecidableEq

def step (state : RoutingState) : Action → Option RoutingState
  | .enqueue event => enqueue config state event
  | .send => send config state
  | .worker group move => workerStep state group move

/-- Nothing is left to do but to wait for calls. -/
def Resting (state : RoutingState) : Prop :=
  send config state = none ∧ ∀ group, workerStep state group .receive = none ∧
    workerStep state group .start = none ∧ workerStep state group .finish = none

/-- A started event comes after the earlier ones of its group. -/
def InOrder (state : RoutingState) : Prop :=
  ∀ first second event other, first < second → second ∈ state.started →
    state.enqueued[first]? = some event → state.enqueued[second]? = some other →
    resolveGroup config event = resolveGroup config other → first ∈ state.finished

/-- An event is handed over at most once, and only when the earlier ones of its group are
finished. Without further calls the workers come to rest, and at rest every event has
been handed over. -/
structure Faithful (state : RoutingState) : Prop where
  once : ∀ number, state.started.count number ≤ 1
  inOrder : InOrder config state
  settles : ∃ bound, ∀ actions final, (∀ event, .enqueue event ∉ actions) →
    Transitions.run (step config) state actions = some final → actions.length ≤ bound
  delivered : Resting config state → ∀ number < state.enqueued.length, number ∈ state.started

/-- The unfinished events of the overflow group. -/
def RoutingState.overflowJobs (state : RoutingState) : List Job :=
  match state.groupSenders.lookup overflowGroup with
  | some queue => queue.held
  | none => []

/-- No event is sent to a worker that has run into its timeout, and no call goes to the
queue of its own group while an event of that group is unfinished in the overflow group. -/
def Undisturbed (state : RoutingState) : Action → Prop
  | .enqueue event =>
    (resolveGroup config event ∈ prune state.groupSenders ∨
      HashMap.len (prune state.groupSenders) < config.maxGroups) →
    resolveGroup config event ≠ overflowGroup →
    ∀ job ∈ state.overflowJobs, resolveGroup config job.event ≠ resolveGroup config event
  | .send => ∀ queue ∈ state.sending.bind fun sent => state.groupSenders.lookup sent.1,
    queue.worker ≠ .leaving ∧ queue.worker ≠ .gone
  | .worker _ _ => True

instance (state : RoutingState) : (action : Action) → Decidable (Undisturbed config state action)
  | .enqueue _ => inferInstanceAs (Decidable (_ → _ → _))
  | .send => inferInstanceAs (Decidable (∀ queue ∈ state.sending.bind fun sent =>
      state.groupSenders.lookup sent.1, _))
  | .worker _ _ => isTrue trivial

end Manager

section Steps

variable {config : ChannelsConfig} {state next : RoutingState} {group : String}

/-- What the step of a worker does to its queue. -/
inductive WorkerStep (state : RoutingState) (group : String) : RoutingState → Prop where
  | receive {job buffer} (found : state.groupSenders.lookup group = some ⟨job :: buffer, .waiting⟩) :
      WorkerStep state group (state.setQueue group ⟨buffer, .holding job⟩)
  | idle (found : state.groupSenders.lookup group = some ⟨[], .waiting⟩) :
      WorkerStep state group (state.setQueue group ⟨[], .leaving⟩)
  | exit {buffer} (found : state.groupSenders.lookup group = some ⟨buffer, .leaving⟩) :
      WorkerStep state group (state.setQueue group ⟨[], .gone⟩)
  | start {job buffer} (found : state.groupSenders.lookup group = some ⟨buffer, .holding job⟩)
      (free : state.permits ≠ 0) :
      WorkerStep state group { state.setQueue group ⟨buffer, .handling job⟩ with
        permits := state.permits - 1
        started := state.started ++ [job.number] }
  | finish {job buffer} (found : state.groupSenders.lookup group = some ⟨buffer, .handling job⟩) :
      WorkerStep state group { state.setQueue group ⟨buffer, .waiting⟩ with
        permits := state.permits + 1
        finished := state.finished ++ [job.number] }

theorem workerStep_cases {move : WorkerMove} (moved : workerStep state group move = some next) :
    WorkerStep state group next := by
  obtain ⟨queue, found, moved⟩ := Option.bind_eq_some_iff.mp moved
  split at moved
  · cases moved
    exact .receive found
  · cases moved
    exact .idle found
  · cases moved
    exact .exit found
  · split_ifs at moved with none
    cases moved
    exact .start found none
  · cases moved
    exact .finish found
  · cases moved

/-- A call sends its event to an open queue with room, or drops it at a closed one. -/
theorem send_cases (moved : send config state = some next) :
    ∃ target job queue, state.sending = some (target, job) ∧
      state.groupSenders.lookup target = some queue ∧
      (queue.isClosed = true ∧ next = { state with sending := none } ∨
        queue.isClosed = false ∧ next = { state with
          groupSenders := state.groupSenders.insert target ⟨queue.buffer ++ [job], queue.worker⟩
          sending := none }) := by
  obtain ⟨⟨target, job⟩, sending, moved⟩ := Option.bind_eq_some_iff.mp moved
  obtain ⟨queue, found, moved⟩ := Option.bind_eq_some_iff.mp moved
  refine ⟨target, job, queue, sending, found, ?_⟩
  split_ifs at moved with closed room
  · cases moved
    exact Or.inl ⟨closed, rfl⟩
  · cases moved
    exact Or.inr ⟨Bool.eq_false_iff.mpr closed, rfl⟩

/-- The queue that a call finds or makes: a new one is empty, and one that is there is
left as it is. -/
theorem createGroupSender_spec (config : ChannelsConfig) (groupSenders : HashMap String GroupQueue)
    (requested : String) :
    let made := createGroupSender config groupSenders requested
    (made.2 = overflowGroup ∧ config.maxGroups ≤ groupSenders.len ∨
      made.2 = requested ∧ groupSenders.len < config.maxGroups) ∧
    (made.2 ∈ groupSenders ∧ made.1 = groupSenders ∨
      made.2 ∉ groupSenders ∧ made.1 = groupSenders.insert made.2 ⟨[], .waiting⟩) := by
  dsimp only [createGroupSender]
  by_cases full : config.maxGroups ≤ groupSenders.len
  · have bounded : (if config.maxGroups ≤ groupSenders.len ∧ overflowGroup ∉ groupSenders then
        overflowGroup else if config.maxGroups ≤ groupSenders.len then overflowGroup
        else requested) = overflowGroup := by
      split_ifs <;> rfl
    rw [bounded]
    by_cases present : overflowGroup ∈ groupSenders
    · rw [if_pos present]
      exact ⟨Or.inl ⟨rfl, full⟩, Or.inl ⟨present, rfl⟩⟩
    · rw [if_neg present]
      exact ⟨Or.inl ⟨rfl, full⟩, Or.inr ⟨present, rfl⟩⟩
  · have bounded : (if config.maxGroups ≤ groupSenders.len ∧ overflowGroup ∉ groupSenders then
        overflowGroup else if config.maxGroups ≤ groupSenders.len then overflowGroup
        else requested) = requested := by
      rw [if_neg fun both => full both.1, if_neg full]
    rw [bounded]
    by_cases present : requested ∈ groupSenders
    · rw [if_pos present]
      exact ⟨Or.inr ⟨rfl, Nat.lt_of_not_le full⟩, Or.inl ⟨present, rfl⟩⟩
    · rw [if_neg present]
      exact ⟨Or.inr ⟨rfl, Nat.lt_of_not_le full⟩, Or.inr ⟨present, rfl⟩⟩

/-- The queue of a call is that of its group, when it is open or when there is room for
it, and that of the overflow group otherwise. -/
theorem groupSender_spec (config : ChannelsConfig) (groupSenders : HashMap String GroupQueue)
    (group : String) :
    let sender := groupSender config groupSenders group
    (sender.2 = group ∧ (group ∈ groupSenders ∨ groupSenders.len < config.maxGroups) ∨
      sender.2 = overflowGroup ∧ group ∉ groupSenders) ∧
    (sender.2 ∈ groupSenders ∧ sender.1 = groupSenders ∨
      sender.2 ∉ groupSenders ∧ sender.1 = groupSenders.insert sender.2 ⟨[], .waiting⟩) := by
  dsimp only [groupSender]
  by_cases present : group ∈ groupSenders
  · rw [if_pos present]
    exact ⟨Or.inl ⟨rfl, Or.inl present⟩, Or.inl ⟨present, rfl⟩⟩
  · rw [if_neg present]
    obtain ⟨target, made⟩ := createGroupSender_spec config groupSenders group
    refine ⟨?_, made⟩
    rcases target with ⟨isOverflow, -⟩ | ⟨own, room⟩
    · exact Or.inr ⟨isOverflow, present⟩
    · exact Or.inl ⟨own, Or.inr room⟩

end Steps

end Asterel.Routing
