import Asterel.Transport.RoutingQueue
import Mathlib.Algebra.GroupWithZero.Nat

/-!
# What routing keeps of the calls

Every event is in one place: on its way to a queue, in a queue or with its worker, or
finished. In a queue the earlier events come first, and an event only stands in a queue
when the earlier events of its group are finished or stand before it. Both survive every
step as long as no event goes to a worker that has run into its timeout, and none goes
past an earlier event of its group in the overflow group.
-/

namespace Asterel.Routing

open Library List Transitions AList HashMap

section Counts

variable {config : ChannelsConfig} {state : RoutingState} {group : String}
  {old new : GroupQueue}
variable {groupSenders : HashMap String GroupQueue} {job : Job} {buffer : List Job}
  {target : String}

def GroupQueue.heldNumbers (queue : GroupQueue) : List Nat := queue.held.map Job.number

def RoutingState.heldNumbers (state : RoutingState) : List Nat :=
  state.groupSenders.values.flatMap GroupQueue.heldNumbers

def RoutingState.runningNumbers (state : RoutingState) : List Nat :=
  state.groupSenders.values.flatMap GroupQueue.running

def RoutingState.sendingNumbers (state : RoutingState) : List Nat :=
  state.sending.toList.map fun sent => sent.2.number

/-- Every call's event is in exactly one place, and the started ones are finished or
running, each with a permit. -/
structure Counted (config : ChannelsConfig) (state : RoutingState) : Prop where
  accounted : (state.heldNumbers ++ state.sendingNumbers ++ state.finished).Perm
    (List.range state.enqueued.length)
  begun : state.started.Perm (state.finished ++ state.runningNumbers)
  permitted : state.permits + state.runningNumbers.length = config.globalConcurrency

/-- The content of a queue among that of all, before and after the queue is replaced. -/
theorem contents_replaced (content : GroupQueue → List Nat)
    (found : state.groupSenders.lookup group = some old) (new : GroupQueue) :
    ∃ rest, (state.groupSenders.values.flatMap content).Perm (content old ++ rest) ∧
      (values (state.groupSenders.insert group new)).flatMap content = content new ++ rest := by
  obtain ⟨rest, perm, inserted⟩ := values_perm found
  refine ⟨rest.flatMap content, perm.flatMap_right content, ?_⟩
  rw [inserted new, flatMap_cons]

/-- A queue that changes hands with the same events in the same state leaves the counts. -/
theorem Counted.setQueue (counted : Counted config state)
    (found : state.groupSenders.lookup group = some old) (sameHeld : new.held = old.held)
    (sameRunning : new.running = old.running) : Counted config (state.setQueue group new) := by
  obtain ⟨rest, held, heldNext⟩ := contents_replaced GroupQueue.heldNumbers found new
  obtain ⟨others, running, runningNext⟩ := contents_replaced GroupQueue.running found new
  have heldPerm : (state.setQueue group new).heldNumbers.Perm state.heldNumbers := by
    have sameNumbers : new.heldNumbers = old.heldNumbers := congrArg (List.map Job.number) sameHeld
    rw [RoutingState.heldNumbers, RoutingState.setQueue, heldNext, sameNumbers]
    exact held.symm
  have runningPerm : (state.setQueue group new).runningNumbers.Perm state.runningNumbers := by
    rw [RoutingState.runningNumbers, RoutingState.setQueue, runningNext, sameRunning]
    exact running.symm
  constructor
  · exact ((heldPerm.append_right _).append_right _).trans counted.accounted
  · exact counted.begun.trans (runningPerm.symm.append_left _)
  · rw [runningPerm.length_eq]
    exact counted.permitted

theorem Counted.start (counted : Counted config state)
    (found : state.groupSenders.lookup group = some ⟨buffer, .holding job⟩)
    (free : state.permits ≠ 0) :
    Counted config { state.setQueue group ⟨buffer, .handling job⟩ with
      permits := state.permits - 1
      started := state.started ++ [job.number] } := by
  obtain ⟨rest, held, heldNext⟩ := contents_replaced GroupQueue.heldNumbers found ⟨buffer, .handling job⟩
  obtain ⟨others, running, runningNext⟩ := contents_replaced GroupQueue.running found ⟨buffer, .handling job⟩
  have before : state.runningNumbers.Perm others := running
  have enough := counted.permitted
  rw [before.length_eq] at enough
  constructor
  · refine Perm.trans ?_ counted.accounted
    exact ((heldNext ▸ held.symm).append_right _).append_right _
  · rw [perm_iff_count]
    intro number
    have counts := (counted.begun.trans (before.append_left _)).count_eq number
    simp only [RoutingState.runningNumbers, RoutingState.setQueue, runningNext, GroupQueue.running,
      count_append] at counts ⊢
    omega
  · simp only [RoutingState.runningNumbers, RoutingState.setQueue, runningNext, GroupQueue.running,
      length_append, length_singleton]
    omega

theorem Counted.finish (counted : Counted config state)
    (found : state.groupSenders.lookup group = some ⟨buffer, .handling job⟩) :
    Counted config { state.setQueue group ⟨buffer, .waiting⟩ with
      permits := state.permits + 1
      finished := state.finished ++ [job.number] } := by
  obtain ⟨rest, held, heldNext⟩ := contents_replaced GroupQueue.heldNumbers found ⟨buffer, .waiting⟩
  obtain ⟨others, running, runningNext⟩ := contents_replaced GroupQueue.running found ⟨buffer, .waiting⟩
  have enough := counted.permitted
  have runningBefore : state.runningNumbers.Perm (job.number :: others) := running
  have heldBefore : state.heldNumbers.Perm (job.number :: (buffer.map Job.number ++ rest)) := held
  rw [runningBefore.length_eq, length_cons] at enough
  constructor
  · rw [perm_iff_count]
    intro number
    have counts := counted.accounted.count_eq number
    have heldCounts := heldBefore.count_eq number
    simp only [RoutingState.heldNumbers, RoutingState.sendingNumbers, RoutingState.setQueue, heldNext,
      GroupQueue.heldNumbers, GroupQueue.held, count_append, count_cons, count_nil]
      at counts heldCounts ⊢
    omega
  · rw [perm_iff_count]
    intro number
    have counts := counted.begun.count_eq number
    have runningCounts := runningBefore.count_eq number
    simp only [RoutingState.runningNumbers, RoutingState.setQueue, runningNext, GroupQueue.running,
      count_append, count_cons, count_nil] at counts runningCounts ⊢
    omega
  · simp only [RoutingState.runningNumbers, RoutingState.setQueue, runningNext, GroupQueue.running,
      nil_append]
    omega

theorem held_append (buffer : List Job) (worker : Worker) (job : Job) :
    (GroupQueue.mk (buffer ++ [job]) worker).held = (GroupQueue.mk buffer worker).held ++ [job] := by
  cases worker <;> rfl

theorem running_append (buffer : List Job) (worker : Worker) (job : Job) :
    (GroupQueue.mk (buffer ++ [job]) worker).running = (GroupQueue.mk buffer worker).running := by
  cases worker <;> rfl

theorem Counted.send {worker : Worker}
    (counted : Counted config state) (sending : state.sending = some (group, job))
    (found : state.groupSenders.lookup group = some ⟨buffer, worker⟩) :
    Counted config { state with
      groupSenders := state.groupSenders.insert group ⟨buffer ++ [job], worker⟩
      sending := none } := by
  obtain ⟨rest, held, heldNext⟩ :=
    contents_replaced GroupQueue.heldNumbers found ⟨buffer ++ [job], worker⟩
  obtain ⟨others, running, runningNext⟩ :=
    contents_replaced GroupQueue.running found ⟨buffer ++ [job], worker⟩
  have heldPerm : state.heldNumbers.Perm ((GroupQueue.mk buffer worker).heldNumbers ++ rest) := held
  have runningAfter : (RoutingState.runningNumbers { state with
      groupSenders := state.groupSenders.insert group ⟨buffer ++ [job], worker⟩
      sending := none }).Perm state.runningNumbers := by
    rw [running_append] at runningNext
    rw [RoutingState.runningNumbers, runningNext]
    exact running.symm
  have moreHeld : (GroupQueue.mk (buffer ++ [job]) worker).heldNumbers =
      (GroupQueue.mk buffer worker).heldNumbers ++ [job.number] := by
    rw [GroupQueue.heldNumbers, held_append, map_append]
    rfl
  constructor
  · rw [perm_iff_count]
    intro number
    have counts := counted.accounted.count_eq number
    have heldCounts := heldPerm.count_eq number
    simp only [RoutingState.heldNumbers, RoutingState.sendingNumbers, heldNext, moreHeld, sending,
      Option.toList_some, Option.toList_none, map_cons, map_nil, count_append,
      count_nil] at counts heldCounts ⊢
    omega
  · exact counted.begun.trans (runningAfter.symm.append_left _)
  · rw [runningAfter.length_eq]
    exact counted.permitted

/-- The queues that are not closed, and one for the target. -/
def Prepared (state : RoutingState) (target : String) (groupSenders : HashMap String GroupQueue) :
    Prop :=
  target ∈ prune state.groupSenders ∧ groupSenders = prune state.groupSenders ∨
    target ∉ prune state.groupSenders ∧
      groupSenders = (prune state.groupSenders).insert target ⟨[], .waiting⟩

/-- Dropping queues without events, and adding one, leaves what the queues contain. -/
theorem contents_prepared {content : GroupQueue → List Nat} (nothing : content ⟨[], .waiting⟩ = [])
    (closed : ∀ group queue, state.groupSenders.lookup group = some queue →
      queue.isClosed = true → content queue = [])
    (made : Prepared state target groupSenders) :
    groupSenders.values.flatMap content = state.groupSenders.values.flatMap content := by
  have pruned : (prune state.groupSenders).values.flatMap content =
      state.groupSenders.values.flatMap content :=
    flatMap_values_retain fun group queue found dropped =>
      closed group queue found (by simpa using dropped)
  rcases made with ⟨-, rfl⟩ | ⟨absent, rfl⟩
  · exact pruned
  · rw [values_insert_of_absent (lookup_eq_none.mpr absent), flatMap_cons, nothing,
      nil_append, pruned]

theorem Counted.enqueue {event : ChannelEvent} (counted : Counted config state)
    (free : state.sending = none)
    (closed : ∀ group queue, state.groupSenders.lookup group = some queue →
      queue.isClosed = true → queue.held = [])
    (made : Prepared state target groupSenders) :
    Counted config { state with
      groupSenders := groupSenders
      sending := some (target, ⟨state.enqueued.length, event⟩)
      enqueued := state.enqueued ++ [event] } := by
  have held : groupSenders.values.flatMap GroupQueue.heldNumbers = state.heldNumbers :=
    contents_prepared rfl (fun group queue found isClosed =>
      congrArg (List.map Job.number) (closed group queue found isClosed)) made
  have running : groupSenders.values.flatMap GroupQueue.running = state.runningNumbers := by
    refine contents_prepared rfl (fun group queue found isClosed => ?_) made
    have gone : queue.worker = .gone := by simpa [GroupQueue.isClosed] using isClosed
    obtain ⟨buffer, worker⟩ := queue
    rw [show worker = .gone from gone]
    rfl
  constructor
  · rw [perm_iff_count]
    intro number
    have counts := counted.accounted.count_eq number
    simp only [RoutingState.heldNumbers, RoutingState.sendingNumbers, free, Option.toList_some,
      Option.toList_none, map_cons, map_nil, count_append, count_nil,
      length_append, length_singleton, range_succ] at counts held ⊢
    rw [held]
    omega
  · rw [RoutingState.runningNumbers, running]
    exact counted.begun
  · rw [RoutingState.runningNumbers, running]
    exact counted.permitted

end Counts

section Order

variable {config : ChannelsConfig} {state next : RoutingState} {group : String}
  {enqueued later extra : List ChannelEvent} {finished more : List Nat} {held others : List Job} {job : Job}
  {queue : GroupQueue}
variable {event : ChannelEvent} {buffer : List Job} {number : Nat}

/-- The earlier events of the group of a job are finished or among the held ones. -/
def Preceded (config : ChannelsConfig) (enqueued : List ChannelEvent) (finished : List Nat)
    (held : List Job) (job : Job) : Prop :=
  ∀ number event, number < job.number → enqueued[number]? = some event →
    resolveGroup config event = resolveGroup config job.event →
    number ∈ finished ∨ ∃ earlier ∈ held, earlier.number = number

theorem Preceded.mono (preceded : Preceded config enqueued finished held job)
    (known : job.number < enqueued.length) (longer : later = enqueued ++ extra) (grown : finished ⊆ more)
    (kept : ∀ earlier ∈ held, earlier.number ∈ more ∨ earlier ∈ others) :
    Preceded config later more others job := by
  intro number event before named same
  have inside : number < enqueued.length := Nat.lt_trans before known
  rw [longer, List.getElem?_append_left inside] at named
  rcases preceded number event before named same with done | ⟨earlier, member, rfl⟩
  · exact Or.inl (grown done)
  · rcases kept earlier member with done | stays
    · exact Or.inl done
    · exact Or.inr ⟨earlier, stays, rfl⟩

/-- A queue in which the events stand in the order of their calls. -/
structure Lined (config : ChannelsConfig) (enqueued : List ChannelEvent) (finished : List Nat)
    (group : String) (queue : GroupQueue) : Prop where
  left : queue.worker = .leaving ∨ queue.worker = .gone → queue.buffer = []
  known : ∀ job ∈ queue.held, enqueued[job.number]? = some job.event
  placed : ∀ job ∈ queue.held, resolveGroup config job.event = group ∨ group = overflowGroup
  increasing : queue.held.Pairwise fun first second => first.number < second.number
  preceded : ∀ job ∈ queue.held, Preceded config enqueued finished queue.held job

section

variable (lined : Lined config enqueued finished group queue)
include lined

theorem Lined.number_lt (member : job ∈ queue.held) :
    job.number < enqueued.length :=
  (List.getElem?_eq_some_iff.mp (lined.known job member)).1

/-- More calls and more finished events leave a queue in order. -/
theorem Lined.mono (longer : later = enqueued ++ extra) (grown : finished ⊆ more) :
    Lined config later more group queue where
  left := lined.left
  known job member := by
    rw [longer, List.getElem?_append_left (lined.number_lt member)]
    exact lined.known job member
  placed := lined.placed
  increasing := lined.increasing
  preceded job member :=
    (lined.preceded job member).mono (lined.number_lt member) longer grown fun _ => Or.inr

/-- A queue whose worker has taken its timeout holds nothing. -/
theorem Lined.held_eq_nil
    (leaving : queue.worker = .leaving ∨ queue.worker = .gone) : queue.held = [] := by
  have empty := lined.left leaving
  obtain ⟨buffer, worker⟩ := queue
  rcases leaving with same | same
  · rw [show worker = .leaving from same, show buffer = [] from empty]
    rfl
  · rw [show worker = .gone from same, show buffer = [] from empty]
    rfl

end

theorem lined_empty : Lined config enqueued finished group ⟨[], .waiting⟩ where
  left _ := rfl
  known _ member := absurd member not_mem_nil
  placed _ member := absurd member not_mem_nil
  increasing := List.Pairwise.nil
  preceded _ member := absurd member not_mem_nil

/-- The oldest event of a queue has no earlier one of its group that is not finished. -/
theorem Lined.finished_before
    (lined : Lined config enqueued finished group queue) (oldest : queue.held = job :: buffer)
    (before : number < job.number) (named : enqueued[number]? = some event)
    (same : resolveGroup config event = resolveGroup config job.event) : number ∈ finished := by
  have member : job ∈ queue.held := oldest ▸ mem_cons_self
  have increasing := lined.increasing
  rw [oldest] at increasing
  rcases lined.preceded job member number event before named same with done | ⟨older, held, rfl⟩
  · exact done
  · rw [oldest] at held
    rcases mem_cons.mp held with rfl | behind
    · exact absurd before (Nat.lt_irrefl _)
    · exact absurd before (Nat.lt_asymm (rel_of_pairwise_cons increasing behind))

/-- An event on its way to a queue, behind what the queue holds. -/
structure Underway (config : ChannelsConfig) (state : RoutingState) (group : String) (job : Job)
    (queue : GroupQueue) : Prop where
  known : state.enqueued[job.number]? = some job.event
  placed : resolveGroup config job.event = group ∨ group = overflowGroup
  last : ∀ earlier ∈ queue.held, earlier.number < job.number
  preceded : Preceded config state.enqueued state.finished queue.held job

/-- The event arrives at a queue with a worker. -/
theorem Underway.lined {worker : Worker} (way : Underway config state group job ⟨buffer, worker⟩)
    (lined : Lined config state.enqueued state.finished group ⟨buffer, worker⟩)
    (notLeaving : worker ≠ .leaving) (notGone : worker ≠ .gone) :
    Lined config state.enqueued state.finished group ⟨buffer ++ [job], worker⟩ := by
  have more (earlier : Job) (member : earlier ∈ (GroupQueue.mk buffer worker).held) :
      earlier ∈ (GroupQueue.mk buffer worker).held ++ [job] := mem_append_left _ member
  have each {holds : Job → Prop} (stood : ∀ earlier ∈ (GroupQueue.mk buffer worker).held, holds earlier)
      (new : holds job) : ∀ earlier ∈ (GroupQueue.mk (buffer ++ [job]) worker).held, holds earlier := by
    rw [held_append]
    exact forall_mem_append.mpr ⟨stood, forall_mem_singleton.mpr new⟩
  refine ⟨?_, each lined.known way.known, each lined.placed way.placed, ?_, each ?_ ?_⟩
  · rintro (leaving | gone)
    · exact absurd leaving notLeaving
    · exact absurd gone notGone
  · rw [held_append]
    refine pairwise_append.mpr ⟨lined.increasing, pairwise_singleton _ _, ?_⟩
    intro earlier member last isJob
    exact mem_singleton.mp isJob ▸ way.last earlier member
  · intro earlier stood
    rw [held_append]
    exact (lined.preceded earlier stood).mono (lined.number_lt stood) (append_nil _).symm
      (Subset.refl _) fun _ held => Or.inr (more _ held)
  · rw [held_append]
    exact way.preceded.mono (List.getElem?_eq_some_iff.mp way.known).1 (append_nil _).symm
      (Subset.refl _) fun _ held => Or.inr (more _ held)

structure Sound (config : ChannelsConfig) (state : RoutingState) : Prop where
  counted : Counted config state
  lined : ∀ group queue, state.groupSenders.lookup group = some queue →
    Lined config state.enqueued state.finished group queue
  underway : ∀ group job, state.sending = some (group, job) →
    ∃ queue, state.groupSenders.lookup group = some queue ∧ Underway config state group job queue
  inOrder : InOrder config state

/-- A queue changes while no call begins or ends: the events that it no longer holds are
finished. -/
theorem Sound.replace {old : GroupQueue} (sound : Sound config state) (new : GroupQueue)
    (found : state.groupSenders.lookup group = some old)
    (lined : Lined config state.enqueued next.finished group new)
    (shorter : ∀ earlier ∈ old.held, earlier.number ∈ next.finished ∨ earlier ∈ new.held)
    (fewer : new.held ⊆ old.held)
    (senders : next.groupSenders = state.groupSenders.insert group new)
    (sameSending : next.sending = state.sending) (sameEnqueued : next.enqueued = state.enqueued)
    (grown : state.finished ⊆ next.finished)
    (counted : Counted config next) (inOrder : InOrder config next) : Sound config next where
  counted := counted
  lined other queue present := by
    rw [senders] at present
    rw [sameEnqueued]
    by_cases same : other = group
    · rw [same, lookup_insert] at present
      cases present
      exact same ▸ lined
    · rw [lookup_insert_ne same] at present
      exact (sound.lined other queue present).mono (append_nil _).symm grown
  underway target job sending := by
    rw [sameSending] at sending
    obtain ⟨queue, present, way⟩ := sound.underway target job sending
    have inside : job.number < state.enqueued.length := (List.getElem?_eq_some_iff.mp way.known).1
    have longer : next.enqueued = state.enqueued ++ [] := by rw [sameEnqueued, append_nil]
    by_cases same : target = group
    · have isOld : queue = old := Option.some.inj (present.symm.trans (same ▸ found))
      refine ⟨new, by rw [senders, same, lookup_insert], ?_⟩
      rw [isOld] at way
      exact ⟨sameEnqueued ▸ way.known, way.placed, fun earlier member => way.last earlier (fewer member),
        way.preceded.mono inside longer grown shorter⟩
    · refine ⟨queue, by rw [senders, lookup_insert_ne same, present], ?_⟩
      exact ⟨sameEnqueued ▸ way.known, way.placed, way.last,
        way.preceded.mono inside longer grown fun _ => Or.inr⟩
  inOrder := inOrder

/-- What the step of a worker preserves. -/
theorem Sound.workerStep {move : WorkerMove} (sound : Sound config state)
    (moved : workerStep state group move = some next) : Sound config next := by
  have aside {old new : GroupQueue} (found : state.groupSenders.lookup group = some old)
      (sameHeld : new.held = old.held) (sameRunning : new.running = old.running)
      (left : new.worker = .leaving ∨ new.worker = .gone → new.buffer = []) :
      Sound config (state.setQueue group new) := by
    have before := sound.lined group old found
    refine sound.replace new found ⟨left, sameHeld ▸ before.known, sameHeld ▸ before.placed,
      sameHeld ▸ before.increasing, sameHeld ▸ before.preceded⟩ (fun _ member => Or.inr (sameHeld ▸ member))
      (sameHeld ▸ Subset.refl _) rfl rfl rfl (Subset.refl _)
      (sound.counted.setQueue found sameHeld sameRunning) sound.inOrder
  cases workerStep_cases moved with
  | receive found => exact aside found rfl rfl (by simp)
  | idle found => exact aside found rfl rfl (fun _ => rfl)
  | @exit buffer found =>
    have empty : buffer = [] := (sound.lined group _ found).left (Or.inl rfl)
    exact aside found empty.symm rfl fun _ => rfl
  | @start job buffer found free =>
    have before := sound.lined group _ found
    refine sound.replace ⟨buffer, .handling job⟩ found ⟨by simp, before.known, before.placed, before.increasing, before.preceded⟩
      (fun _ member => Or.inr member) (Subset.refl _) rfl rfl rfl (Subset.refl _)
      (sound.counted.start found free) ?_
    intro first second event other earlier begun named otherNamed same
    rcases mem_append.mp begun with already | isJob
    · exact sound.inOrder first second event other earlier already named otherNamed same
    · rw [mem_singleton.mp isJob] at earlier otherNamed
      have isHeld : job ∈ (GroupQueue.mk buffer (.holding job)).held := mem_cons_self
      have isEvent : other = job.event :=
        Option.some.inj (otherNamed.symm.trans (before.known job isHeld))
      exact before.finished_before rfl earlier named (isEvent ▸ same)
  | @finish job buffer found =>
    have before := sound.lined group _ found
    have grown : state.finished ⊆ state.finished ++ [job.number] := subset_append_left _ _
    have shorter : ∀ earlier ∈ job :: buffer,
        earlier.number ∈ state.finished ++ [job.number] ∨ earlier ∈ buffer := by
      intro earlier member
      rcases mem_cons.mp member with isJob | stays
      · exact Or.inl (isJob ▸ mem_append_right _ (mem_singleton_self _))
      · exact Or.inr stays
    have held (earlier : Job) (member : earlier ∈ buffer) :
        earlier ∈ (GroupQueue.mk buffer (.handling job)).held := mem_cons_of_mem _ member
    refine sound.replace ⟨buffer, .waiting⟩ found
      ⟨by simp, fun earlier member => before.known earlier (held earlier member),
        fun earlier member => before.placed earlier (held earlier member), before.increasing.of_cons, ?_⟩
      shorter (subset_cons_self _ _) rfl rfl rfl grown (sound.counted.finish found) ?_
    · intro earlier member
      exact (before.preceded earlier (held earlier member)).mono
        (before.number_lt (held earlier member)) (append_nil _).symm grown shorter
    · intro first second event other earlier begun named otherNamed same
      exact grown (sound.inOrder first second event other earlier begun named otherNamed same)

/-- What a call's sending preserves when the worker has not run into its timeout. -/
theorem Sound.send (sound : Sound config state) (undisturbed : Undisturbed config state .send)
    (moved : send config state = some next) : Sound config next := by
  obtain ⟨target, job, ⟨buffer, worker⟩, sending, found, outcome⟩ := send_cases moved
  obtain ⟨notLeaving, notGone⟩ := undisturbed ⟨buffer, worker⟩ (by rw [sending]; exact found)
  obtain ⟨queue, present, way⟩ := sound.underway target job sending
  cases present.symm.trans found
  rcases outcome with ⟨closed, -⟩ | ⟨-, rfl⟩
  · exact absurd (by simpa [GroupQueue.isClosed] using closed) notGone
  · refine ⟨sound.counted.send sending found, fun other queue present => ?_, by simp, sound.inOrder⟩
    by_cases same : other = target
    · rw [same, lookup_insert] at present
      cases present
      exact same ▸ way.lined (sound.lined target _ found) notLeaving notGone
    · rw [lookup_insert_ne same] at present
      exact sound.lined other queue present

theorem lookup_prune {queue : GroupQueue} :
    (prune state.groupSenders).lookup group = some queue ↔
      state.groupSenders.lookup group = some queue ∧ queue.isClosed = false := by
  rw [prune, lookup_retain, Option.filter_eq_some_iff, Bool.not_eq_true']

section Prepared

variable {target : String} {groupSenders : HashMap String GroupQueue}

variable (made : Prepared state target groupSenders)
include made

theorem Prepared.lookup_kept (found : (prune state.groupSenders).lookup group = some queue) :
    groupSenders.lookup group = some queue := by
  rcases made with ⟨-, rfl⟩ | ⟨absent, rfl⟩
  · exact found
  · have different : group ≠ target := by
      rintro rfl
      exact absent (mem_iff_lookup.mpr ⟨queue, found⟩)
    rw [lookup_insert_ne different, found]

theorem Prepared.lookup_cases (found : groupSenders.lookup group = some queue) :
    queue = ⟨[], .waiting⟩ ∨ (prune state.groupSenders).lookup group = some queue := by
  rcases made with ⟨-, rfl⟩ | ⟨-, rfl⟩
  · exact Or.inr found
  · by_cases isTarget : group = target
    · rw [isTarget, lookup_insert] at found
      exact Or.inl (Option.some.inj found).symm
    · rw [lookup_insert_ne isTarget] at found
      exact Or.inr found

theorem Prepared.lookup_target :
    ∃ queue, groupSenders.lookup target = some queue := by
  rcases made with ⟨present, rfl⟩ | ⟨-, rfl⟩
  · exact mem_iff_lookup.mp present
  · exact ⟨_, lookup_insert _⟩

end Prepared

/-- An event that is not finished while no call is underway stands in an open queue. -/
theorem Sound.stands (sound : Sound config state) (free : state.sending = none)
    (named : state.enqueued[number]? = some event) (unfinished : number ∉ state.finished) :
    ∃ place queue job, (prune state.groupSenders).lookup place = some queue ∧ job ∈ queue.held ∧
      job.number = number ∧ job.event = event := by
  have inside : number < state.enqueued.length := (List.getElem?_eq_some_iff.mp named).1
  have somewhere := sound.counted.accounted.mem_iff.mpr (mem_range.mpr inside)
  rw [RoutingState.sendingNumbers, free, Option.toList_none, map_nil, append_nil] at somewhere
  rcases mem_append.mp somewhere with held | done
  · obtain ⟨queue, stored, held⟩ := mem_flatMap.mp held
    obtain ⟨place, found⟩ := mem_values.mp stored
    obtain ⟨job, member, isNumber⟩ := mem_map.mp held
    have lined := sound.lined place queue found
    refine ⟨place, queue, job, lookup_prune.mpr ⟨found, ?_⟩, member, isNumber, ?_⟩
    · refine Bool.eq_false_iff.mpr fun closed => ?_
      have gone : queue.worker = .gone := by simpa [GroupQueue.isClosed] using closed
      rw [lined.held_eq_nil (Or.inr gone)] at member
      cases member
    · have known := lined.known job member
      rw [isNumber, named] at known
      exact (Option.some.inj known).symm
  · exact absurd done unfinished

theorem held_of_running (running : number ∈ queue.running) :
    ∃ job ∈ queue.held, job.number = number := by
  obtain ⟨buffer, worker⟩ := queue
  cases worker with
  | handling job => exact ⟨job, mem_cons_self, (mem_singleton.mp running).symm⟩
  | waiting => cases running
  | leaving => cases running
  | gone => cases running
  | holding job => cases running

/-- What was started was called for. -/
theorem Sound.number_lt_of_started (sound : Sound config state)
    (begun : number ∈ state.started) : number < state.enqueued.length := by
  rcases mem_append.mp (sound.counted.begun.mem_iff.mp begun) with done | running
  · exact mem_range.mp (sound.counted.accounted.mem_iff.mp (mem_append_right _ done))
  · obtain ⟨queue, stored, running⟩ := mem_flatMap.mp running
    obtain ⟨place, found⟩ := mem_values.mp stored
    obtain ⟨job, member, rfl⟩ := held_of_running running
    exact (sound.lined place queue found).number_lt member

/-- The earlier events of the group of a call's event stand in the queue that the call
takes, as none goes past the overflow group. -/
theorem Sound.preceded_enqueue {target : String}
    {groupSenders : HashMap String GroupQueue} (sound : Sound config state)
    (undisturbed : Undisturbed config state (.enqueue event)) (free : state.sending = none)
    (choice : target = resolveGroup config event ∧
        (resolveGroup config event ∈ prune state.groupSenders ∨
          (prune state.groupSenders).len < config.maxGroups) ∨
      target = overflowGroup ∧ resolveGroup config event ∉ prune state.groupSenders)
    (made : Prepared state target groupSenders) (found : groupSenders.lookup target = some queue) :
    Preceded config (state.enqueued ++ [event]) state.finished queue.held
      ⟨state.enqueued.length, event⟩ := by
  intro number other before named same
  dsimp only at before named same
  rw [List.getElem?_append_left before] at named
  refine Classical.or_iff_not_imp_left.mpr fun unfinished => ?_
  obtain ⟨place, stood, job, present, member, isNumber, isEvent⟩ := sound.stands free named unfinished
  have placed := (sound.lined place stood (lookup_prune.mp present).1).placed job member
  rw [isEvent, same] at placed
  have isTarget : place = target := by
    by_contra different
    rcases choice with ⟨own, opened⟩ | ⟨isOverflow, absent⟩
    -- The event would go past the one in the overflow group.
    · rcases placed with isOwn | isOverflow
      · exact different (isOwn.symm.trans own.symm)
      · have notOverflow : resolveGroup config event ≠ overflowGroup := fun isOwn =>
          different (isOverflow.trans (isOwn.symm.trans own.symm))
        refine undisturbed opened notOverflow job ?_ (isEvent ▸ same)
        rw [RoutingState.overflowJobs, ← isOverflow, (lookup_prune.mp present).1]
        exact member
    · rcases placed with isOwn | elsewhere
      · exact absent (mem_iff_lookup.mpr ⟨stood, isOwn ▸ present⟩)
      · exact different (elsewhere.trans isOverflow.symm)
  have there := made.lookup_kept present
  rw [isTarget, found] at there
  exact ⟨job, Option.some.inj there ▸ member, isNumber⟩

/-- What the beginning of a call preserves when its event does not go past the overflow
group. -/
theorem Sound.enqueue (sound : Sound config state)
    (undisturbed : Undisturbed config state (.enqueue event))
    (moved : enqueue config state event = some next) : Sound config next := by
  rw [Routing.enqueue] at moved
  split_ifs at moved with busy
  have free : state.sending = none := by simpa using busy
  obtain ⟨choice, made⟩ :=
    groupSender_spec config (prune state.groupSenders) (resolveGroup config event)
  cases moved
  generalize groupSender config (prune state.groupSenders) (resolveGroup config event) = sender
    at choice made ⊢
  have made : Prepared state sender.2 sender.1 := made
  have closed : ∀ group queue, state.groupSenders.lookup group = some queue →
      queue.isClosed = true → queue.held = [] := by
    intro group queue found isClosed
    have gone : queue.worker = .gone := by simpa [GroupQueue.isClosed] using isClosed
    exact (sound.lined group queue found).held_eq_nil (Or.inr gone)
  refine ⟨sound.counted.enqueue free closed made, fun group queue found => ?_, ?_, ?_⟩
  · rcases made.lookup_cases found with rfl | before
    · exact lined_empty
    · exact (sound.lined group queue (lookup_prune.mp before).1).mono rfl (Subset.refl _)
  · rintro _ _ ⟨⟩
    obtain ⟨queue, found⟩ := made.lookup_target
    refine ⟨queue, found, List.getElem?_concat_length, ?_, ?_,
      sound.preceded_enqueue undisturbed free choice made found⟩
    · rcases choice with ⟨own, -⟩ | ⟨isOverflow, -⟩
      · exact Or.inl own.symm
      · exact Or.inr isOverflow
    · intro earlier member
      rcases made.lookup_cases found with rfl | before
      · cases member
      · exact (sound.lined sender.2 queue (lookup_prune.mp before).1).number_lt member
  · intro first second earlier other before begun named otherNamed same
    have inside := sound.number_lt_of_started begun
    dsimp only at named otherNamed
    rw [List.getElem?_append_left inside] at otherNamed
    rw [List.getElem?_append_left (Nat.lt_trans before inside)] at named
    exact sound.inOrder first second earlier other before begun named otherNamed same

theorem sound_fromConfig (config : ChannelsConfig) : Sound config (fromConfig config) where
  counted := ⟨Perm.refl _, Perm.refl _, Nat.add_zero _⟩
  lined _ _ found := by cases found
  underway _ _ sending := by cases sending
  inOrder _ _ _ _ _ begun := absurd begun not_mem_nil

/-- What an undisturbed step preserves. -/
theorem Sound.step {action : Action} (sound : Sound config state)
    (undisturbed : Undisturbed config state action) (moved : step config state action = some next) :
    Sound config next := by
  cases action with
  | enqueue event => exact sound.enqueue undisturbed moved
  | send => exact sound.send undisturbed moved
  | worker group move => exact sound.workerStep moved

theorem running_sublist (queue : GroupQueue) : queue.running.Sublist queue.heldNumbers := by
  obtain ⟨buffer, worker⟩ := queue
  cases worker with
  | handling job => exact (nil_sublist _).cons_cons job.number
  | waiting => exact nil_sublist _
  | leaving => exact nil_sublist _
  | gone => exact nil_sublist _
  | holding job => exact nil_sublist _

/-- No event is handed over twice. -/
theorem Counted.once (counted : Counted config state) (number : Nat) :
    state.started.count number ≤ 1 := by
  have begun := counted.begun.count_eq number
  have accounted := counted.accounted.count_eq number
  have single := nodup_iff_count_le_one.mp (@nodup_range state.enqueued.length) number
  have running : state.runningNumbers.count number ≤ state.heldNumbers.count number := by
    rw [RoutingState.runningNumbers, RoutingState.heldNumbers]
    induction state.groupSenders.values with
    | nil => exact Nat.le_refl _
    | cons queue rest ih =>
      rw [flatMap_cons, flatMap_cons, count_append, count_append]
      exact Nat.add_le_add ((running_sublist queue).count_le number) ih
  rw [count_append] at begun
  rw [count_append, count_append] at accounted
  omega

variable (sound : Sound config state) (resting : Resting config state)
include sound resting

/-- At rest no permit is taken. -/
theorem Sound.permits_of_resting :
    state.permits ≠ 0 := by
  intro none
  have enough := sound.counted.permitted
  have some : 0 < config.globalConcurrency := Nat.lt_of_lt_of_le Nat.one_pos (Nat.le_max_right _ _)
  rw [none, Nat.zero_add] at enough
  obtain ⟨number, running⟩ := exists_mem_of_length_pos (enough.symm ▸ some)
  obtain ⟨⟨buffer, worker⟩, stored, running⟩ := mem_flatMap.mp running
  obtain ⟨place, found⟩ := mem_values.mp stored
  have finishes := (resting.2 place).2.2
  cases worker with
  | handling job => simp [Routing.workerStep, found] at finishes
  | waiting => cases running
  | leaving => cases running
  | gone => cases running
  | holding job => cases running

/-- At rest no queue holds an event. -/
theorem Sound.held_of_resting
    (found : state.groupSenders.lookup group = some queue) : queue.held = [] := by
  obtain ⟨receives, starts, finishes⟩ := resting.2 group
  have lined := sound.lined group queue found
  obtain ⟨buffer, worker⟩ := queue
  cases worker with
  | waiting =>
    cases buffer with
    | nil => rfl
    | cons job rest => simp [Routing.workerStep, found] at receives
  | leaving => exact lined.held_eq_nil (Or.inl rfl)
  | gone => exact lined.held_eq_nil (Or.inr rfl)
  | holding job =>
    simp [Routing.workerStep, found, sound.permits_of_resting resting] at starts
  | handling job => simp [Routing.workerStep, found] at finishes

/-- At rest every event has been handed over. -/
theorem Sound.delivered (called : number < state.enqueued.length) : number ∈ state.started := by
  have somewhere := sound.counted.accounted.mem_iff.mpr (mem_range.mpr called)
  rcases mem_append.mp somewhere with open_ | done
  · exfalso
    rcases mem_append.mp open_ with held | sent
    · obtain ⟨queue, stored, held⟩ := mem_flatMap.mp held
      obtain ⟨place, found⟩ := mem_values.mp stored
      rw [GroupQueue.heldNumbers, sound.held_of_resting resting found] at held
      cases held
    · rw [RoutingState.sendingNumbers, mem_map] at sent
      obtain ⟨⟨target, job⟩, sending, -⟩ := sent
      rw [Option.mem_toList] at sending
      obtain ⟨queue, found, -⟩ := sound.underway target job sending
      have empty : queue.buffer = [] := by
        have none := sound.held_of_resting resting found
        obtain ⟨buffer, worker⟩ := queue
        cases worker with
        | holding job => cases none
        | handling job => cases none
        | waiting => exact none
        | leaving => exact none
        | gone => exact none
      have room : 0 < config.groupQueueCapacity :=
        Nat.lt_of_lt_of_le Nat.one_pos (Nat.le_max_right _ _)
      have sends := resting.1
      simp only [Routing.send, sending, found, empty, room, Option.bind_eq_bind, Option.bind_some,
        length_nil, if_true] at sends
      split at sends
      · cases sends
      · cases sends
  · exact sound.counted.begun.mem_iff.mpr (mem_append_left _ done)

end Order

section Progress

variable {config : ChannelsConfig} {state next : RoutingState} {group : String}

/-- The steps that a worker can take without new events. -/
def Worker.steps : Worker → Nat
  | .gone => 0
  | .leaving => 1
  | .waiting => 2
  | .handling _ => 3
  | .holding _ => 4

def GroupQueue.steps (queue : GroupQueue) : Nat := 3 * queue.buffer.length + queue.worker.steps

/-- The steps that can be taken until the next call. -/
def RoutingState.steps (state : RoutingState) : Nat :=
  (state.groupSenders.values.map GroupQueue.steps).sum + 4 * state.sending.toList.length

theorem steps_replaced {old : GroupQueue} (found : state.groupSenders.lookup group = some old)
    (new : GroupQueue) :
    ∃ rest, (state.groupSenders.values.map GroupQueue.steps).sum = old.steps + rest ∧
      ((values (state.groupSenders.insert group new)).map GroupQueue.steps).sum =
        new.steps + rest := by
  obtain ⟨rest, perm, inserted⟩ := values_perm found
  refine ⟨(rest.map GroupQueue.steps).sum, ?_, ?_⟩
  · rw [(perm.map GroupQueue.steps).sum_nat, map_cons, sum_cons]
  · rw [inserted new, map_cons, sum_cons]

/-- Every step but the beginning of a call uses one up. -/
theorem steps_lt {action : Action} (noCall : ∀ event, .enqueue event ≠ action)
    (moved : step config state action = some next) : next.steps < state.steps := by
  cases action with
  | enqueue event => exact absurd rfl (noCall event)
  | send =>
    obtain ⟨target, job, ⟨buffer, worker⟩, sending, found, outcome⟩ := send_cases moved
    rcases outcome with ⟨-, rfl⟩ | ⟨-, rfl⟩
    · simp [RoutingState.steps, sending]
    · obtain ⟨rest, before, after⟩ := steps_replaced found ⟨buffer ++ [job], worker⟩
      simp only [RoutingState.steps, before, after, sending, GroupQueue.steps, length_append,
        length_singleton, Option.toList_some, Option.toList_none, length_nil]
      omega
  | worker group move =>
    have used {old new : GroupQueue} (found : state.groupSenders.lookup group = some old)
        (fewer : new.steps < old.steps) : (state.setQueue group new).steps < state.steps := by
      obtain ⟨rest, before, after⟩ := steps_replaced found new
      simp only [RoutingState.steps, RoutingState.setQueue, before, after]
      omega
    cases workerStep_cases moved with
    | receive found =>
      exact used found (by simp only [GroupQueue.steps, Worker.steps, length_cons]; omega)
    | idle found => exact used found (Nat.lt_succ_self _)
    | exit found => exact used found (by simp only [GroupQueue.steps, Worker.steps, length_nil]; omega)
    | start found _ => exact used found (Nat.lt_succ_self _)
    | finish found => exact used found (Nat.lt_succ_self _)

/-- Without calls a run is no longer than the steps that are left. -/
theorem length_le_steps {actions : List Action} {final : RoutingState}
    (noCall : ∀ event, .enqueue event ∉ actions)
    (ran : run (step config) state actions = some final) :
    actions.length ≤ state.steps := by
  induction actions generalizing state with
  | nil => exact Nat.zero_le _
  | cons action rest ih =>
    obtain ⟨next, moved, ran⟩ := run_cons_eq_some ran
    have fewer : next.steps < state.steps :=
      steps_lt (fun event same => noCall event (mem_cons.mpr (Or.inl same))) moved
    have later := ih
      (fun event member => noCall event (mem_cons_of_mem _ member)) ran
    rw [length_cons]
    omega

/-- In every undisturbed run the events are handed over once and in the order of their
group. -/
theorem routed_in_order {actions : List Action}
    (undisturbed : Transitions.Guarded (step config) (Undisturbed config) (fromConfig config) actions)
    (ran : run (step config) (fromConfig config) actions = some state) :
    Faithful config state := by
  have sound : Sound config state :=
    run_invariant Sound.step (sound_fromConfig config) undisturbed ran
  exact ⟨sound.counted.once, sound.inOrder, ⟨state.steps, fun _ _ => length_le_steps⟩,
    fun resting number => sound.delivered resting⟩

end Progress

/-- One event, sent, received, handled and finished. -/
theorem routed_in_order_once :
    ∃ state, state.started = [0] ∧ Faithful ⟨1, 1, 1, []⟩ state := by
  refine ⟨_, ?_, routed_in_order ?_ (@rfl _ (run (step ⟨1, 1, 1, []⟩) (fromConfig ⟨1, 1, 1, []⟩)
    [.enqueue (.message "discord" "ops" none), .send, .worker "discord::ops" .receive,
      .worker "discord::ops" .start, .worker "discord::ops" .finish]))⟩
  · rfl
  · decide

/-- An event that is sent while the worker leaves is dropped, and one that comes after
the cap is free again passes the earlier one of its group in the overflow group. -/
theorem event_lost_or_overtaken :
    (¬∀ actions state, run (step ⟨3, 1, 2, []⟩) (fromConfig ⟨3, 1, 2, []⟩) actions = some state →
      Resting ⟨3, 1, 2, []⟩ state → ∀ number < state.enqueued.length, number ∈ state.started) ∧
    ¬∀ actions state, run (step ⟨3, 1, 2, []⟩) (fromConfig ⟨3, 1, 2, []⟩) actions = some state →
      InOrder ⟨3, 1, 2, []⟩ state := by
  constructor
  · intro always
    have handed := always
      [.enqueue (.message "discord" "a" none), .send, .worker "discord::a" .receive,
        .worker "discord::a" .start, .worker "discord::a" .finish, .worker "discord::a" .idle,
        .enqueue (.message "discord" "a" none), .worker "discord::a" .exit, .send]
      ⟨AList.insert "discord::a" ⟨[], .gone⟩ ∅, none, 3,
        [.message "discord" "a" none, .message "discord" "a" none], [0], [0]⟩ rfl
      ⟨rfl, fun group => ?_⟩ 1 (by decide)
    · exact absurd handed (by decide)
    · by_cases isGroup : group = "discord::a"
      · rw [isGroup]
        exact ⟨rfl, rfl, rfl⟩
      · have absent : AList.lookup group
            (AList.insert "discord::a" ⟨[], .gone⟩ ∅ : HashMap String GroupQueue) = none := by
          rw [lookup_insert_ne isGroup, lookup_empty]
        simp only [workerStep, absent, Option.bind_eq_bind, Option.bind_none, and_self]
  · intro always
    have done := always
      [.enqueue (.message "discord" "a" none), .send, .enqueue (.message "discord" "b" none), .send,
        .enqueue (.message "discord" "c" none), .send,
        .worker overflowGroup .receive, .worker overflowGroup .start,
        .worker "discord::a" .receive, .worker "discord::a" .start, .worker "discord::a" .finish,
        .worker "discord::a" .idle, .worker "discord::a" .exit,
        .worker "discord::b" .receive, .worker "discord::b" .start, .worker "discord::b" .finish,
        .worker "discord::b" .idle, .worker "discord::b" .exit,
        .enqueue (.message "discord" "c" none), .send,
        .worker "discord::c" .receive, .worker "discord::c" .start] _ rfl
      2 3 (.message "discord" "c" none) (.message "discord" "c" none) (by decide) (by decide) rfl rfl rfl
    exact absurd done (by decide)

end Asterel.Routing
