import Asterel.Library.Contest
import Asterel.Memory.PostgresWrite

/-!
# The order in which events arrive

Appends to one slot are a contest: each event replaces the active one or is only logged.
The restoration of a slot is a second contest, held over the logged events. Both follow
source priority and then confidence. Where those do not decide, an append compares the
time of the incoming event with the time at which the incumbent was written, and the
restoration compares two times of writing.

So the order of the appends decides between two events unless one of them beats the
other by priority or confidence.
-/

namespace Asterel.Postgres

open Library Library.Contest Library.Transitions List
open Asterel.Memory
open Asterel.Integrity (F64)

section Ranks

/-- Beats by priority, or at the same priority by more than the tolerance. -/
def beats (first second : MemorySource × ℚ) : Prop :=
  sourcePriority second.1 < sourcePriority first.1 ∨
    sourcePriority second.1 = sourcePriority first.1 ∧ second.2 + confidenceEpsilon < first.2

instance (first second : MemorySource × ℚ) : Decidable (beats first second) :=
  inferInstanceAs (Decidable (_ ∨ _))

def SlotRow.rank (row : SlotRow) : MemorySource × ℚ := (row.source, row.confidence)

def EventRow.rank (row : EventRow) : MemorySource × ℚ := (row.source, row.confidence)

/-- Whether an event replaces an active slot. -/
def outbids (rank : MemorySource × ℚ) (occurredAt : Option Int) (incumbent : SlotRow) : Bool :=
  match compare (sourcePriority rank.1) (sourcePriority incumbent.rank.1) with
  | .gt => true
  | .lt => false
  | .eq =>
    if confidenceEpsilon < |rank.2 - incumbent.rank.2| then incumbent.rank.2 < rank.2
    else compareNormalizedTimestamps occurredAt (timestampNanos incumbent.updatedAt) ≠ .lt

/-- Whether `max_by` goes on to a row that comes later. -/
def retains (incoming incumbent : EventRow) : Bool := compareRetained incumbent incoming ≠ .gt

variable {db : Database} {name : SlotName} {incumbent : SlotRow} {first second : MemorySource × ℚ}
  {incoming event : EventRow} {occurredAt : Option Int}

theorem epsilon_pos : 0 < confidenceEpsilon := by decide +kernel

theorem decideReplacement_of_active (found : db.slots.find name = some incumbent)
    (active : incumbent.status = .active) (source : MemorySource) (confidence : ℚ)
    (occurredAt : Option Int) :
    (decideReplacement db name source confidence occurredAt).1 =
      outbids (source, confidence) occurredAt incumbent := by
  rw [decideReplacement, found, Option.filter_some, if_pos (decide_eq_true active)]
  rfl

theorem decideReplacement_of_none (none : db.slots.find name = none) (source : MemorySource)
    (confidence : ℚ) (occurredAt : Option Int) :
    (decideReplacement db name source confidence occurredAt).1 = true := by
  rw [decideReplacement, none, Option.filter_none]

theorem apart_of_more {low high : ℚ} (more : low + confidenceEpsilon < high) :
    low < high ∧ confidenceEpsilon < |high - low| ∧ confidenceEpsilon < |low - high| := by
  have apart : confidenceEpsilon < |high - low| :=
    (lt_sub_iff_add_lt'.mpr more).trans_le (le_abs_self _)
  exact ⟨(lt_add_of_pos_right _ epsilon_pos).trans more, apart, abs_sub_comm high low ▸ apart⟩

theorem beats_asymm (wins : beats first second) : ¬ beats second first := by
  rintro (higher | ⟨level, more⟩)
  · rcases wins with above | ⟨level, _⟩
    · exact Nat.lt_asymm higher above
    · exact higher.ne' level
  · rcases wins with above | ⟨_, less⟩
    · exact above.ne' level
    · exact lt_asymm (apart_of_more more).1 (apart_of_more less).1

theorem outbids_of_beats (wins : beats first incumbent.rank) :
    outbids first occurredAt incumbent = true := by
  rw [outbids]
  rcases wins with higher | ⟨same, more⟩
  · rw [Nat.compare_eq_gt.mpr higher]
  · obtain ⟨larger, apart, _⟩ := apart_of_more more
    rw [Nat.compare_eq_eq.mpr same.symm]
    simp only [if_pos apart, decide_eq_true larger]

theorem not_outbids_of_beats (loses : beats incumbent.rank first) :
    outbids first occurredAt incumbent = false := by
  rw [outbids]
  rcases loses with higher | ⟨same, more⟩
  · rw [Nat.compare_eq_lt.mpr higher]
  · obtain ⟨larger, _, apart⟩ := apart_of_more more
    rw [Nat.compare_eq_eq.mpr same]
    simp only [if_pos apart, decide_eq_false larger.not_gt]

theorem compareRetained_of_beats (wins : beats incoming.rank event.rank) :
    compareRetained incoming event = .gt ∧ compareRetained event incoming = .lt := by
  rw [compareRetained, compareRetained]
  rcases wins with higher | ⟨same, more⟩
  · have above : compare (sourcePriority incoming.source) (sourcePriority event.source) = .gt :=
      Nat.compare_eq_gt.mpr higher
    have below : compare (sourcePriority event.source) (sourcePriority incoming.source) = .lt :=
      Nat.compare_eq_lt.mpr higher
    rw [above, below]
    exact ⟨rfl, rfl⟩
  · obtain ⟨larger, apart, reverse⟩ := apart_of_more more
    have level : compare (sourcePriority incoming.source) (sourcePriority event.source) = .eq :=
      Nat.compare_eq_eq.mpr same.symm
    have reverseLevel : compare (sourcePriority event.source) (sourcePriority incoming.source) = .eq :=
      Nat.compare_eq_eq.mpr same
    rw [level, reverseLevel]
    refine ⟨(if_pos apart).trans (compare_gt_iff_gt.mpr larger), ?_⟩
    exact (if_pos reverse).trans (compare_lt_iff_lt.mpr larger)

/-- Of two rows that do not beat each other the one that is not older stays. -/
theorem retains_of_tie (wins : ¬ beats event.rank incoming.rank)
    (loses : ¬ beats incoming.rank event.rank) (later : event.occurredAt = incoming.occurredAt) :
    retains incoming event = true := by
  have same : sourcePriority event.source = sourcePriority incoming.source :=
    Nat.le_antisymm (not_lt.mp fun higher => wins (.inl higher))
      (not_lt.mp fun higher => loses (.inl higher))
  have close : ¬ confidenceEpsilon < |event.confidence - incoming.confidence| := by
    rw [not_lt, abs_le]
    constructor
    · exact neg_le_sub_iff_le_add.mpr (not_lt.mp fun more => loses (.inr ⟨same, more⟩))
    · exact sub_le_iff_le_add'.mpr (not_lt.mp fun more => wins (.inr ⟨same.symm, more⟩))
  rw [retains, compareRetained, Nat.compare_eq_eq.mpr same]
  simp only [if_neg close, later]
  cases timestampNanos incoming.occurredAt <;> simp [compareNormalizedTimestamps]

/-- `max_by` is a contest. -/
theorem bestRetained_eq (rows : List EventRow) : bestRetained rows = winner retains rows := by
  have step : (fun best row : EventRow => if compareRetained best row = .gt then best else row) =
      keepBetter retains := by
    funext best row
    rw [keepBetter, retains]
    by_cases greater : compareRetained best row = .gt <;> simp [greater]
  cases rows with
  | nil => rfl
  | cons first rest => rw [bestRetained, step, winner]

end Ranks

section Arrivals

/-- An event for the slot that the ingress accepts. -/
structure Fact (name : SlotName) where
  raw : MemoryEventInput
  input : MemoryEventInput
  normalized : normalizeInput raw = .ok input
  ofSlot : (input.entityId, input.slotKey) = name
  signalTier : Option SignalTier
  occurredAt : Option Int
  eventId : String

/-- An event and the times of its append. -/
structure Arrival (name : SlotName) where
  fact : Fact name
  startedAt : Timestamp
  now : Timestamp

variable {name : SlotName}

def Fact.rank (fact : Fact name) : MemorySource × ℚ :=
  (fact.input.source, scoreValue fact.input.confidence)

def Arrival.call (arrival : Arrival name) : AppendCall where
  input := arrival.fact.raw
  signalTier := arrival.fact.signalTier
  occurredAt := arrival.fact.occurredAt
  eventId := arrival.fact.eventId
  startedAt := arrival.startedAt
  now := arrival.now

/-- The row that the append logs, but for the event it supersedes. -/
def Arrival.event (arrival : Arrival name) : EventRow := eventRow arrival.fact.input arrival.call none

def EventRow.unlinked (row : EventRow) : EventRow := { row with supersedesEventId := none }

/-- What the append writes into the slot if it wins. -/
def Arrival.slot (arrival : Arrival name) : SlotRow := slotOf arrival.event arrival.now

def Arrival.replaces (incoming incumbent : Arrival name) : Bool :=
  outbids incoming.fact.rank incoming.fact.occurredAt incumbent.slot

def appendStep (db : Database) (arrival : Arrival name) : Option Database :=
  (appendEvent db arrival.call).toOption.map Prod.fst

/-- The slot shows the winner of the arrivals, and the log shows all of them. -/
structure Follows (db : Database) (arrivals : List (Arrival name)) : Prop where
  slot : db.slots.find name = (winner Arrival.replaces arrivals).map Arrival.slot
  log : (retainedFor db name).map EventRow.unlinked = arrivals.map Arrival.event

variable {db next : Database} {arrival : Arrival name} {arrivals seen : List (Arrival name)}

theorem appendStep_ok (done : appendStep db arrival = some next) :
    ∃ event, appendEvent db arrival.call = .ok (next, event) := by
  rw [appendStep] at done
  cases appended : appendEvent db arrival.call with
  | error message =>
    rw [appended] at done
    cases done
  | ok result =>
    rw [appended] at done
    cases done
    exact ⟨result.2, rfl⟩

/-- The decision of an append is a round of the contest. -/
theorem Follows.replacement (follows : Follows db seen) (arrival : Arrival name) :
    (replacement db arrival.fact.input arrival.call).1 =
      (winner Arrival.replaces seen).elim true arrival.replaces := by
  rw [Postgres.replacement, arrival.fact.ofSlot]
  cases incumbent : winner Arrival.replaces seen with
  | none => exact decideReplacement_of_none (by rw [follows.slot, incumbent]; rfl) _ _ _
  | some holder =>
    have found : db.slots.find name = some holder.slot := by
      rw [follows.slot, incumbent]
      rfl
    exact decideReplacement_of_active found rfl _ _ _

theorem Follows.append (follows : Follows db seen) (done : appendStep db arrival = some next) :
    Follows next (seen ++ [arrival]) := by
  obtain ⟨event, appended⟩ := appendStep_ok done
  obtain ⟨input, normalized, sameEvent, written⟩ := appendEvent_ok appended
  cases Except.ok.inj (arrival.fact.normalized.symm.trans normalized)
  have ofSlot : event.name = name := sameEvent ▸ arrival.fact.ofSlot
  have logged : event.unlinked = arrival.event := by
    rw [sameEvent]
    rfl
  constructor
  · rw [winner_concat, Option.map_some]
    have decided := follows.replacement arrival
    rcases written with ⟨stays, same⟩ | ⟨replaced, wins⟩
    · rw [stays] at decided
      rw [same, follows.slot]
      cases incumbent : winner Arrival.replaces seen with
      | none => rw [incumbent] at decided; cases decided
      | some holder =>
        rw [incumbent, Option.elim_some] at decided
        rw [Option.elim_some, keepBetter, ← decided]
        rfl
    · rw [replaced] at decided
      rw [wins.slots, if_pos ofSlot.symm]
      have slot : slotOf event arrival.now = arrival.slot := by
        rw [sameEvent]
        rfl
      cases incumbent : winner Arrival.replaces seen with
      | none => exact congrArg some slot
      | some holder =>
        rw [incumbent, Option.elim_some] at decided
        rw [Option.elim_some, keepBetter, ← decided]
        exact congrArg some slot
  · rw [retainedFor, (events_appended appended).1, filter_append, map_append,
      map_append, ← follows.log, filter_cons_of_pos (by simpa using ofSlot)]
    exact congrArg _ (congrArg (fun row => [row]) logged)

theorem follows_run (follows : Follows db seen) (ran : run appendStep db arrivals = some next) :
    Follows next (seen ++ arrivals) := by
  induction arrivals generalizing db seen with
  | nil =>
    cases ran
    rwa [append_nil]
  | cons first rest ih =>
    obtain ⟨middle, done, later⟩ := run_cons_eq_some ran
    have complete := ih (follows.append done) later
    rwa [append_assoc] at complete

end Arrivals

section Orders

variable {name : SlotName} {db next : Database} {facts : List (Fact name)} {best : Fact name}
  {arrivals : List (Arrival name)} {scan : (ρ : Type) → List ρ → List ρ}

/-- Nothing is stored for the slot, and the ids of the events are unused. -/
structure Fresh (db : Database) (facts : List (Fact name)) : Prop where
  slot : db.slots.find name = none
  unit : db.units.find (unitIdOf name) = none
  log : retainedFor db name = []
  ids : ∀ fact ∈ facts, db.events.find fact.eventId = none

/-- The events arrive in some order. -/
structure Arrive (facts : List (Fact name)) (arrivals : List (Arrival name)) : Prop where
  all : (arrivals.map Arrival.fact).Perm facts
  ordered : arrivals.Pairwise fun earlier later => earlier.now ≤ later.now

/-- The active slot holds the event. -/
def Holds (db : Database) (name : SlotName) (eventId : String) : Prop :=
  ∃ slot, db.slots.find name = some slot ∧ slot.status = .active ∧ slot.winnerEventId = eventId

/-- The slot holds an event that no other one beats, and a restoration picks it again. -/
structure SettlesOn (facts : List (Fact name)) (db : Database) (best : Fact name) : Prop where
  held : Holds db name best.eventId
  unbeaten : ∀ fact ∈ facts, ¬ beats fact.rank best.rank
  restored : ∀ scan : (ρ : Type) → List ρ → List ρ, (∀ ρ rows, (scan ρ rows).Perm rows) → ∀ now,
    ∃ restored, restoreRetainedSlotProjection scan db name now = some restored ∧
      Holds restored name best.eventId

/-- Every order of the appends settles on one event. -/
def OrderFree (db : Database) (facts : List (Fact name)) : Prop :=
  facts ≠ [] → ∃ best ∈ facts, ∀ arrivals next, Arrive facts arrivals →
    run appendStep db arrivals = some next → SettlesOn facts next best

/-- One event beats every other. -/
def Decided (facts : List (Fact name)) : Prop :=
  facts ≠ [] → ∃ best ∈ facts, ∀ fact ∈ facts, fact.eventId ≠ best.eventId →
    beats best.rank fact.rank

theorem Fresh.follows (fresh : Fresh db facts) : Follows db ([] : List (Arrival name)) :=
  ⟨fresh.slot, by rw [fresh.log]; rfl⟩

theorem restored_holds_iff (listed : ∀ ρ rows, (scan ρ rows).Perm rows) (now : Timestamp)
    (eventId : String) :
    (∃ restored, restoreRetainedSlotProjection scan db name now = some restored ∧
      Holds restored name eventId) ↔ (bestFor scan db name).map EventRow.eventId = some eventId := by
  rw [restoreRetainedSlotProjection, ← bestFor]
  cases picked : bestFor scan db name with
  | none => simp
  | some event =>
    have written := find_upsertBeliefSlot db (slotOf event now) name
    have here : name = (slotOf event now).name := (bestFor_name listed picked).symm
    rw [if_pos here] at written
    constructor
    · rintro ⟨restored, same, slot, found, _, rfl⟩
      cases same
      cases written.symm.trans found
      rfl
    · intro same
      exact ⟨_, rfl, _, written, rfl, Option.some.inj same⟩

/-- Arrivals are told apart by their event. -/
theorem Arrive.eventId_ne (arrive : Arrive facts arrivals) (distinct : (facts.map Fact.eventId).Nodup)
    {first second : Arrival name} (inFirst : first ∈ arrivals) (inSecond : second ∈ arrivals)
    (differ : first ≠ second) : first.fact.eventId ≠ second.fact.eventId := by
  have ids : (arrivals.map fun arrival => arrival.fact.eventId).Nodup := by
    have perm := arrive.all.map Fact.eventId
    rw [map_map] at perm
    exact perm.nodup_iff.mpr distinct
  exact fun same => differ (inj_on_of_nodup_map ids inFirst inSecond same)

/-- Whoever beats all others holds the slot and is picked again. -/
theorem settled_of_decided (fresh : Fresh db facts) (distinct : (facts.map Fact.eventId).Nodup)
    (member : best ∈ facts)
    (decided : ∀ fact ∈ facts, fact.eventId ≠ best.eventId → beats best.rank fact.rank)
    (arrive : Arrive facts arrivals) (ran : run appendStep db arrivals = some next) :
    SettlesOn facts next best := by
  have follows := follows_run fresh.follows ran
  rw [nil_append] at follows
  obtain ⟨champion, inArrivals, rfl⟩ := mem_map.mp (arrive.all.mem_iff.mpr member)
  have wins : ∀ arrival ∈ arrivals, arrival ≠ champion →
      beats champion.fact.rank arrival.fact.rank := fun arrival inside differs =>
    decided arrival.fact (arrive.all.mem_iff.mp (mem_map_of_mem inside))
      (arrive.eventId_ne distinct inside inArrivals differs)
  refine ⟨?_, fun fact inFacts better => ?_, fun scan listed now => ?_⟩
  · have champions : Champion Arrival.replaces champion arrivals := fun arrival inside differs =>
      ⟨outbids_of_beats (wins arrival inside differs), not_outbids_of_beats (wins arrival inside differs)⟩
    refine ⟨champion.slot, ?_, rfl, rfl⟩
    rw [follows.slot, champions.winner_eq inArrivals]
    rfl
  · by_cases same : fact.eventId = champion.fact.eventId
    · cases inj_on_of_nodup_map distinct inFacts member same
      exact beats_asymm better better
    · exact beats_asymm better (decided fact inFacts same)
  · rw [restored_holds_iff listed]
    have champions : Champion retains champion.event
        ((scan _ (retainedFor next name)).map EventRow.unlinked) := by
      refine Champion.perm ?_ ((listed _ _).map EventRow.unlinked)
      rw [follows.log]
      intro event inEvents differs
      obtain ⟨arrival, inside, rfl⟩ := mem_map.mp inEvents
      have beaten := @compareRetained_of_beats champion.event arrival.event
        (wins arrival inside fun same => differs (congrArg Arrival.event same))
      rw [retains, retains, beaten.1, beaten.2]
      exact ⟨rfl, rfl⟩
    have listedAll := (listed _ (retainedFor next name)).map EventRow.unlinked
    rw [follows.log] at listedAll
    have picked := champions.winner_eq (listedAll.mem_iff.mpr (mem_map_of_mem inArrivals))
    rw [@winner_map _ _ retains retains EventRow.unlinked fun _ _ => rfl, ← bestRetained_eq] at picked
    obtain ⟨event, isBest, unlinked⟩ := Option.map_eq_some_iff.mp picked
    rw [bestFor, isBest, Option.map_some]
    exact congrArg some (congrArg EventRow.eventId unlinked)

/-- The unit of the slot is not from later. -/
def CreatedBy (db : Database) (name : SlotName) (moment : Timestamp) : Prop :=
  ∀ row, db.units.find (unitIdOf name) = some row → row.createdAt ≤ moment

theorem createdBy_append {arrival : Arrival name} (created : CreatedBy db name arrival.now)
    (done : appendStep db arrival = some next) : CreatedBy next name arrival.now := by
  obtain ⟨event, appended⟩ := appendStep_ok done
  obtain ⟨input, normalized, sameEvent, written⟩ := unit_appended appended
  cases Except.ok.inj (arrival.fact.normalized.symm.trans normalized)
  have ofSlot : event.name = name := sameEvent ▸ arrival.fact.ofSlot
  intro row found
  rcases written with ⟨_, same⟩ | ⟨_, unit, foundUnit, won⟩
  · exact created row (same ▸ found)
  · rw [ofSlot] at foundUnit won
    cases foundUnit.symm.trans found
    rw [won.createdAt]
    cases before : db.units.find (unitIdOf name) with
    | none => exact Int.le_refl _
    | some old => exact created old before

/-- Appends at one moment succeed in every order. -/
theorem run_succeeds {moment : Timestamp} (created : CreatedBy db name moment)
    (unused : ∀ fact ∈ facts, db.events.find fact.eventId = none)
    (distinct : (facts.map Fact.eventId).Nodup) :
    ∃ next, run appendStep db (facts.map fun fact => ⟨fact, moment, moment⟩) = some next := by
  induction facts generalizing db with
  | nil => exact ⟨db, rfl⟩
  | cons fact rest ih =>
    let arrival : Arrival name := ⟨fact, moment, moment⟩
    obtain ⟨others, distinctRest⟩ := nodup_cons.mp distinct
    have startable : ∀ old, db.units.find (unitIdOf (fact.input.entityId, fact.input.slotKey)) =
        some old → old.createdAt ≤ moment := by
      rw [fact.ofSlot]
      exact created
    obtain ⟨next, event, appended⟩ := @appendEvent_succeeds db arrival.call _ fact.normalized
      (unused fact mem_cons_self) startable
    have done : appendStep db arrival = some next := by
      rw [appendStep, appended]
      rfl
    have logged := (events_appended appended).1
    obtain ⟨_, _, sameEvent, _⟩ := unit_appended appended
    have eventId : event.eventId = fact.eventId := by rw [sameEvent]; rfl
    obtain ⟨final, ran⟩ := @ih next (createdBy_append created done)
      (fun other member => by
        refine KeyedTable.find_eq_none_iff.mpr fun row inRows same => ?_
        rw [logged, mem_append, mem_singleton] at inRows
        rcases inRows with before | rfl
        · exact KeyedTable.find_eq_none_iff.mp (unused other (mem_cons_of_mem _ member)) row
            before same
        · exact others (mem_map.mpr ⟨other, member, same.symm.trans eventId⟩))
      distinctRest
    refine ⟨final, ?_⟩
    rw [map_cons, run, done]
    exact ran

theorem exists_perm_cons {α : Type} {element : α} {list : List α} (member : element ∈ list) :
    ∃ rest, list.Perm (element :: rest) := by
  obtain ⟨front, back, rfl⟩ := append_of_mem member
  exact ⟨front ++ back, perm_middle⟩

/-- Where two events do not beat each other, the restoration follows the appends. -/
theorem decided_of_orderFree (fresh : Fresh db facts) (distinct : (facts.map Fact.eventId).Nodup)
    (orderFree : OrderFree db facts) : Decided facts := by
  intro nonempty
  obtain ⟨best, member, settles⟩ := orderFree nonempty
  refine ⟨best, member, fun rival inFacts differs => ?_⟩
  by_contra notBeaten
  obtain ⟨rest, split⟩ := exists_perm_cons member
  have inRest : rival ∈ rest :=
    (mem_cons.mp (split.mem_iff.mp inFacts)).resolve_left fun same => differs (by rw [same])
  obtain ⟨others, splitRest⟩ := exists_perm_cons inRest
  -- the rival comes last, right behind the event that is to win
  have order : (others ++ [best] ++ [rival]).Perm facts := by
    refine Perm.trans ?_ (split.trans (splitRest.cons best)).symm
    rw [append_assoc]
    exact perm_append_comm
  have distinctOrder := (order.map Fact.eventId).nodup_iff.mpr distinct
  have created : CreatedBy db name 0 := fun row found => by
    rw [fresh.unit] at found
    cases found
  obtain ⟨next, ran⟩ := run_succeeds created
    (fun fact inside => fresh.ids fact (order.mem_iff.mp inside)) distinctOrder
  have arrive : Arrive facts ((others ++ [best] ++ [rival]).map fun fact => ⟨fact, 0, 0⟩) := by
    refine ⟨?_, ?_⟩
    · rw [map_map]
      simpa [Function.comp_def] using order
    · exact pairwise_map.mpr (pairwise_of_forall fun _ _ => Int.le_refl _)
  have settled := settles _ next arrive ran
  have follows := follows_run fresh.follows ran
  have picked := (restored_holds_iff (fun _ rows => Perm.refl rows) 0 best.eventId).mp
    (settled.restored (fun _ rows => rows) (fun _ rows => Perm.refl rows) 0)
  obtain ⟨row, isBest, sameId⟩ := Option.map_eq_some_iff.mp picked
  let event : Fact name → EventRow := fun fact => (⟨fact, 0, 0⟩ : Arrival name).event
  have won : winner retains ((others ++ [best] ++ [rival]).map event) = some row.unlinked := by
    have rows := follows.log
    rw [nil_append, map_map] at rows
    have same := @winner_map _ _ retains retains EventRow.unlinked (fun _ _ => rfl)
      (retainedFor next name)
    rw [rows] at same
    exact same.trans (congrArg _ ((bestRetained_eq _).symm.trans isBest))
  have isBestFact : row.unlinked = event best := by
    obtain ⟨fact, inside, sameEvent⟩ := mem_map.mp (mem_of_winner won)
    have ids : fact.eventId = best.eventId :=
      (congrArg EventRow.eventId sameEvent).trans sameId
    rw [← sameEvent, inj_on_of_nodup_map distinctOrder inside (by simp) ids]
  rw [isBestFact, map_append, map_append] at won
  refine winner_behind_ne ?_ ?_ ?_ won
  · intro inside
    obtain ⟨fact, inOthers, sameEvent⟩ := mem_map.mp inside
    have ids : fact.eventId = best.eventId := congrArg EventRow.eventId sameEvent
    rw [append_assoc, map_append, nodup_append] at distinctOrder
    exact distinctOrder.2.2 _ (mem_map_of_mem inOthers) _ (by simp) ids
  · exact fun same => differs (congrArg EventRow.eventId same)
  · exact retains_of_tie notBeaten (settled.unbeaten rival inFacts) rfl

/-- Every order of the appends settles on one event if and only if one beats all others. -/
theorem order_free_iff (fresh : Fresh db facts) (distinct : (facts.map Fact.eventId).Nodup) :
    OrderFree db facts ↔ Decided facts := by
  refine ⟨decided_of_orderFree fresh distinct, fun decided nonempty => ?_⟩
  obtain ⟨best, member, beaten⟩ := decided nonempty
  exact ⟨best, member, fun arrivals next => settled_of_decided fresh distinct member beaten⟩

def teaName : SlotName := ("alice".toList, "tea".toList)

def teaInput (value : String) (source : MemorySource) : MemoryEventInput where
  entityId := "alice".toList
  slotKey := "tea".toList
  layer := .semantic
  eventType := .factAdded
  value := value.toList
  source := source
  confidence := ⟨0x3FF0000000000000⟩
  importance := ⟨0⟩
  provenance := none
  privacyLevel := .private

/-- A guess at the first nanosecond of the epoch. -/
def guessedGreen : Fact teaName where
  raw := teaInput "green" .inferred
  input := teaInput "green" .inferred
  normalized := by decide +kernel
  ofSlot := rfl
  signalTier := none
  occurredAt := some 1
  eventId := "green"

/-- A guess one nanosecond later. -/
def guessedBlack : Fact teaName where
  raw := teaInput "black" .inferred
  input := teaInput "black" .inferred
  normalized := by decide +kernel
  ofSlot := rfl
  signalTier := none
  occurredAt := some 2
  eventId := "black"

def toldWhite : Fact teaName where
  raw := teaInput "white" .explicitUser
  input := teaInput "white" .explicitUser
  normalized := by decide +kernel
  ofSlot := rfl
  signalTier := none
  occurredAt := some 0
  eventId := "white"

theorem empty_fresh (facts : List (Fact name)) : Fresh (Database.empty []) facts :=
  ⟨rfl, rfl, rfl, fun _ _ => rfl⟩

/-- What the user tells prevails over what is guessed later. -/
theorem told_prevails : OrderFree (Database.empty []) [guessedGreen, toldWhite] := by
  refine (order_free_iff (empty_fresh _) (by decide)).mpr fun _ => ⟨toldWhite, by simp, ?_⟩
  intro fact member _
  simp only [mem_cons, not_mem_nil, or_false] at member
  rcases member with rfl | rfl
  · exact .inl (by decide)
  · contradiction

/-- The event that the slot holds after the appends, and the one that a restoration picks. -/
def heldAndRestored (arrivals : List (Arrival teaName)) : Option (Option String × Option String) :=
  (run appendStep (Database.empty []) arrivals).map fun db =>
    ((db.slots.find teaName).map SlotRow.winnerEventId,
      (bestFor (fun _ rows => rows) db teaName).map EventRow.eventId)

/-- Of two guesses the slot keeps the one that arrives first and restores the other one. -/
theorem arrival_order_decides :
    guessedGreen.occurredAt ≠ guessedBlack.occurredAt ∧
      heldAndRestored [⟨guessedGreen, days 1, days 1⟩, ⟨guessedBlack, days 2, days 2⟩] =
        some (some "green", some "black") ∧
      heldAndRestored [⟨guessedBlack, days 1, days 1⟩, ⟨guessedGreen, days 2, days 2⟩] =
        some (some "black", some "green") := by
  decide +kernel

end Orders

end Asterel.Postgres
