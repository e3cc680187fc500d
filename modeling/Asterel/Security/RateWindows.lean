import Asterel.Library.SlidingWindow
import Asterel.Security.RateLedger

/-!
# Sliding windows enforced by the scoped limiter

Every scope admits a call only while fewer than its budget of earlier instants
lie within the scope's look-back, so each half-open window of that look-back
holds at most the budget. The hourly scopes look back one hour. The burst scope
looks back its configured window, but over a list already pruned to one hour:
its effective look-back is the shorter of the two.

A burst window longer than an hour is therefore enforced only when as many full
hours as it spans cannot add up to more than the burst budget.
-/

namespace Asterel.Trackers

variable {call : Call} {limiter : EntityRateLimiter} {ledger : Ledger} (admitted : List Call)
  {calls : List Call} {instants : List Nat} {now : Nat}

open Library.SlidingWindow List

/-- Nanoseconds in the hourly scopes' look-back. -/
def hourNanos : Nat := fromSecs hourSecs

/-- Every duration the limiter subtracts fits below the instant of each call. -/
def ClockCovers (limiter : EntityRateLimiter) (calls : List Call) : Prop :=
  ∀ call ∈ calls, hourNanos ≤ call.now ∧ fromSecs limiter.burstWindowSecs ≤ call.now

instance (limiter : EntityRateLimiter) (calls : List Call) :
    Decidable (ClockCovers limiter calls) :=
  inferInstanceAs (Decidable (∀ call ∈ calls, _))

/-- Instants of the calls a scope owns. -/
def instantsOf (owned : Call → Bool) (calls : List Call) : List Nat :=
  (calls.filter owned).map Call.now

/-- Every window of every enforced scope holds at most its budget of admitted
calls, wherever the window starts. -/
structure SlidingWindowSafe (limiter : EntityRateLimiter) (admitted : List Call) : Prop where
  globalActions : ∀ start,
    within start hourNanos (instantsOf (fun _ => true) admitted) ≤ limiter.globalMax
  entity : ∀ key start,
    within start hourNanos (instantsOf (fun call => call.entityId = key) admitted) ≤
      limiter.perEntityMax
  conversation : 0 < limiter.perConversationMax → ∀ key start,
    within start hourNanos (instantsOf (fun call => call.conversationId = some key) admitted) ≤
      limiter.perConversationMax
  workspace : 0 < limiter.perWorkspaceMax → ∀ key start,
    within start hourNanos (instantsOf (fun call => call.workspaceId = some key) admitted) ≤
      limiter.perWorkspaceMax
  burst : 0 < limiter.burstMax → 0 < limiter.burstWindowSecs → ∀ key start,
    within start (fromSecs limiter.burstWindowSecs)
      (instantsOf (fun call => call.entityId = key) admitted) ≤ limiter.burstMax

/-- The hours a burst window spans, counting a started hour as a whole one. -/
def burstHours (limiter : EntityRateLimiter) : Nat :=
  (limiter.burstWindowSecs + hourSecs - 1) / hourSecs

/-- The most one entity can be granted within one hour. -/
def hourlyGrant (limiter : EntityRateLimiter) : Nat :=
  min (min limiter.globalMax limiter.perEntityMax) limiter.burstMax

/-- The burst scope is disabled, looks back at most an hour, or cannot be
exceeded by one hourly grant for every hour its window spans. -/
def BurstCovered (limiter : EntityRateLimiter) : Prop :=
  limiter.burstMax = 0 ∨ limiter.burstWindowSecs ≤ hourSecs ∨
    burstHours limiter * hourlyGrant limiter ≤ limiter.burstMax

/-- What each scope's look-back saw at every recorded instant of its list. -/
structure Ledger.Admits (limiter : EntityRateLimiter) (ledger : Ledger) : Prop where
  globalActions : Admitted hourNanos limiter.globalMax ledger.globalActions
  entity : ∀ key, Admitted hourNanos limiter.perEntityMax (ledger.entity key)
  conversation : 0 < limiter.perConversationMax →
    ∀ key, Admitted hourNanos limiter.perConversationMax (ledger.conversation key)
  workspace : 0 < limiter.perWorkspaceMax →
    ∀ key, Admitted hourNanos limiter.perWorkspaceMax (ledger.workspace key)
  burst : 0 < limiter.burstMax → 0 < limiter.burstWindowSecs →
    ∀ key, Admitted (min hourNanos (fromSecs limiter.burstWindowSecs)) limiter.burstMax
      (ledger.entity key)

theorem hourlyCutoff_eq (fits : hourNanos ≤ now) :
    hourlyCutoff now = now - hourNanos :=
  checkedSub_getD fits

/-- Before an hour has passed on the clock, the cutoff is the instant itself. -/
theorem hourlyCutoff_early (early : now < hourNanos) : hourlyCutoff now = now :=
  checkedSub_getD_early early

theorem burstCutoff_eq (fits : fromSecs limiter.burstWindowSecs ≤ now) :
    burstCutoff limiter now = now - fromSecs limiter.burstWindowSecs :=
  checkedSub_getD fits

/-- The live instants of the hourly scopes are the recent ones. -/
theorem live_length (fits : hourNanos ≤ now) (actions : List Nat) :
    (retainAfter (hourlyCutoff now) actions).length = recent hourNanos now actions := by
  rw [retainAfter, ← countP_eq_length_filter, hourlyCutoff_eq fits, recent]
  apply countP_congr
  intro instant _
  simp only [decide_eq_true_eq]
  omega

/-- The burst count sees the shorter of the burst window and the hour, because
the list it counts has already been pruned to the hour. -/
theorem burst_count (hour : hourNanos ≤ now)
    (window : fromSecs limiter.burstWindowSecs ≤ now) (actions : List Nat) :
    (retainAfter (hourlyCutoff now) actions).countP (burstCutoff limiter now < ·) =
      recent (min hourNanos (fromSecs limiter.burstWindowSecs)) now actions := by
  rw [retainAfter, countP_filter, hourlyCutoff_eq hour, burstCutoff_eq window, recent]
  apply countP_congr
  intro instant _
  simp only [Bool.and_eq_true, decide_eq_true_eq]
  omega

theorem scopeVerdict_ok {limit : Nat} {key : String} {live : String → List Nat}
    {error : String → RateLimitError} (enforced : 0 < limit)
    (passed : Ledger.scopeVerdict limit (some key) live error = .ok ()) :
    (live key).length < limit := by
  simp only [Ledger.scopeVerdict, Option.filter, enforced, decide_true, ↓reduceIte] at passed
  split at passed
  · cases passed
  · omega

theorem judgeEntity_ok {actions : List Nat} :
    judgeEntity limiter call actions = .ok () ↔
      (0 < limiter.burstMax → 0 < limiter.burstWindowSecs →
        actions.countP (burstCutoff limiter call.now < ·) < limiter.burstMax) ∧
      actions.length < limiter.perEntityMax := by
  simp only [judgeEntity]
  split
  · next full =>
    obtain ⟨enabled, window, exhausted⟩ := full
    simp only [reduceCtorEq, false_iff, not_and]
    intro room
    have := room enabled window
    omega
  · next room =>
    split
    · next full =>
      simp only [reduceCtorEq, false_iff, not_and]
      omega
    · next spare =>
      simp only [true_iff]
      exact ⟨fun enabled window => by
        by_contra exhausted
        exact room ⟨enabled, window, Nat.le_of_not_gt exhausted⟩, by omega⟩

/-- An admitted call passed every scope of the ledger. -/
theorem verdict_ok :
    Ledger.verdict limiter ledger call = .ok () ↔
      Ledger.globalVerdict limiter ledger call = .ok () ∧
      Ledger.workspaceVerdict limiter ledger call = .ok () ∧
      Ledger.conversationVerdict limiter ledger call = .ok () ∧
      Ledger.entityVerdict limiter ledger call = .ok () := by
  rw [Ledger.verdict]
  cases Ledger.globalVerdict limiter ledger call with
  | error => simp [bind, Except.bind]
  | ok =>
    cases Ledger.workspaceVerdict limiter ledger call with
    | error => simp [bind, Except.bind]
    | ok => cases Ledger.conversationVerdict limiter ledger call <;> simp [bind, Except.bind]

theorem globalVerdict_ok :
    Ledger.globalVerdict limiter ledger call = .ok () ↔
      (retainAfter (hourlyCutoff call.now) ledger.globalActions).length < limiter.globalMax := by
  rw [Ledger.globalVerdict]
  split <;> simp <;> omega

/-- Recording an admitted call keeps what every look-back saw. -/
theorem record_admits (admits : ledger.Admits limiter) (hour : hourNanos ≤ call.now)
    (window : fromSecs limiter.burstWindowSecs ≤ call.now)
    (passed : Ledger.verdict limiter ledger call = .ok ()) :
    (ledger.record call).Admits limiter := by
  obtain ⟨globalOk, workspaceOk, conversationOk, entityOk⟩ := verdict_ok.mp passed
  obtain ⟨burstRoom, entityRoom⟩ := judgeEntity_ok.mp entityOk
  have push {width limit : Nat} {actions : List Nat} {owned : Prop} [Decidable owned]
      (before : Admitted width limit actions)
      (room : owned → recent width call.now actions < limit) :
      Admitted width limit (if owned then actions ++ [call.now] else actions) := by
    split
    · next owner => exact before.snoc _ _ (room owner)
    · exact before
  refine ⟨?_, ?_, ?_, ?_, ?_⟩
  · apply admits.globalActions.snoc _ _
    rw [← live_length hour]
    exact globalVerdict_ok.mp globalOk
  · intro key
    refine push (admits.entity key) fun same => ?_
    rw [← live_length hour, same]
    exact entityRoom
  · intro enforced key
    refine push (admits.conversation enforced key) fun same => ?_
    rw [← live_length hour]
    rw [Ledger.conversationVerdict, ← same] at conversationOk
    exact scopeVerdict_ok enforced conversationOk
  · intro enforced key
    refine push (admits.workspace enforced key) fun same => ?_
    rw [← live_length hour]
    rw [Ledger.workspaceVerdict, ← same] at workspaceOk
    exact scopeVerdict_ok enforced workspaceOk
  · intro enabled positive key
    refine push (admits.burst enabled positive key) fun same => ?_
    rw [← burst_count hour window, same]
    exact burstRoom enabled positive

/-- The final ledger records exactly the admitted calls, in order. -/
theorem final_ledger (limiter : EntityRateLimiter) (ledger : Ledger) (calls : List Call) :
    (Ledger.runCalls limiter ledger calls).2 =
      (accepted (Ledger.runCalls limiter ledger calls).1).foldl Ledger.record ledger := by
  induction calls generalizing ledger with
  | nil => rfl
  | cons call rest ih =>
    simp only [Ledger.runCalls, ih]
    cases passed : Ledger.verdict limiter ledger call with
    | error => simp [Ledger.afterCall, accepted, passed]
    | ok => simp [Ledger.afterCall, accepted, passed]

/-- Each scope of a folded ledger lists the instants of the calls it owns. -/
theorem folded_scopes (ledger : Ledger) :
    (admitted.foldl Ledger.record ledger).globalActions =
        ledger.globalActions ++ instantsOf (fun _ => true) admitted ∧
      (∀ key : String, (admitted.foldl Ledger.record ledger).entity ⟨key⟩ =
        ledger.entity ⟨key⟩ ++ instantsOf (fun call => call.entityId = key) admitted) ∧
      (∀ key, (admitted.foldl Ledger.record ledger).conversation key = ledger.conversation key ++
          instantsOf (fun call => call.conversationId = some key) admitted) ∧
      (∀ key, (admitted.foldl Ledger.record ledger).workspace key =
        ledger.workspace key ++ instantsOf (fun call => call.workspaceId = some key) admitted) := by
  induction admitted generalizing ledger with
  | nil => simp [instantsOf]
  | cons call rest ih =>
    obtain ⟨globalRest, entityRest, conversationRest, workspaceRest⟩ :=
      ih (ledger.record call)
    simp only [foldl_cons]
    refine ⟨?_, ?_, ?_, ?_⟩
    · rw [globalRest]
      simp [Ledger.record, instantsOf]
    · intro key
      rw [entityRest]
      by_cases same : key = call.entityId <;> simp [Ledger.record, instantsOf, same, eq_comm]
    · intro key
      rw [conversationRest]
      by_cases same : call.conversationId = some key <;>
        simp [Ledger.record, instantsOf, same, eq_comm]
    · intro key
      rw [workspaceRest]
      by_cases same : call.workspaceId = some key <;>
        simp [Ledger.record, instantsOf, same, eq_comm]

/-- The ledger of the admitted calls alone. -/
def ledgerOf (admitted : List Call) : Ledger := admitted.foldl Ledger.record Ledger.empty

theorem ledgerOf_globalActions :
    (ledgerOf admitted).globalActions = instantsOf (fun _ => true) admitted :=
  (folded_scopes admitted Ledger.empty).1

theorem ledgerOf_entity (key : String) :
    (ledgerOf admitted).entity ⟨key⟩ = instantsOf (fun call => call.entityId = key) admitted :=
  (folded_scopes admitted Ledger.empty).2.1 key

theorem ledgerOf_conversation (key : String) :
    (ledgerOf admitted).conversation key =
      instantsOf (fun call => call.conversationId = some key) admitted :=
  (folded_scopes admitted Ledger.empty).2.2.1 key

theorem ledgerOf_workspace (key : String) :
    (ledgerOf admitted).workspace key =
      instantsOf (fun call => call.workspaceId = some key) admitted :=
  (folded_scopes admitted Ledger.empty).2.2.2 key

/-- Every look-back of a run's final ledger was respected throughout the run. -/
theorem run_admits (calls : List Call)
    (admits : ledger.Admits limiter) (covers : ClockCovers limiter calls) :
    (Ledger.runCalls limiter ledger calls).2.Admits limiter := by
  induction calls generalizing ledger with
  | nil => exact admits
  | cons call rest ih =>
    obtain ⟨hour, window⟩ := covers call (by simp)
    have restCovers : ClockCovers limiter rest := fun other member =>
      covers other (by simp [member])
    apply ih _ restCovers
    rw [Ledger.afterCall]
    cases passed : Ledger.verdict limiter ledger call with
    | error => exact admits
    | ok => exact record_admits admits hour window passed

theorem empty_admits (limiter : EntityRateLimiter) : Ledger.empty.Admits limiter :=
  ⟨.nil, fun _ => .nil, fun _ _ => .nil, fun _ _ => .nil, fun _ _ _ => .nil⟩

/-- Non-decreasing instants at which the hour can be subtracted give
non-decreasing cutoffs. -/
theorem cutoffs_advance (ordered : NonDecreasing calls)
    (hour : ∀ call ∈ calls, hourNanos ≤ call.now) :
    calls.Pairwise fun earlier later => hourlyCutoff earlier.now ≤ hourlyCutoff later.now := by
  refine List.Pairwise.imp_of_mem ?_ ordered
  intro earlier later earlierMember laterMember order
  rw [hourlyCutoff_eq (hour earlier earlierMember), hourlyCutoff_eq (hour later laterMember)]
  omega

/-- A run from a fresh limiter returns the results of the empty ledger. -/
theorem fresh_run (ordered : NonDecreasing calls) (covers : ClockCovers limiter calls) :
    (runCalls limiter newWithScopes calls).1 = (Ledger.runCalls limiter Ledger.empty calls).1 :=
  (run_refines limiter calls tracks_new (fun _ _ => Nat.zero_le _)
    (cutoffs_advance ordered fun call member => (covers call member).1)).1

/-- A window over one scope's instants holds no more than over all of them. -/
theorem instantsOf_le (start width : Nat) (owned : Call → Bool) (admitted : List Call) :
    within start width (instantsOf owned admitted) ≤
      within start width (instantsOf (fun _ => true) admitted) := by
  have selected : (instantsOf owned admitted).Sublist (instantsOf (fun _ => true) admitted) := by
    simp only [instantsOf, filter_true]
    exact filter_sublist.map _
  exact selected.countP_le

/-- The window length in nanoseconds is at most its started hours. -/
theorem window_le_hours (limiter : EntityRateLimiter) :
    fromSecs limiter.burstWindowSecs ≤ burstHours limiter * hourNanos := by
  have seconds : limiter.burstWindowSecs ≤ burstHours limiter * hourSecs := by
    simp only [burstHours, hourSecs]
    omega
  simp only [hourNanos, fromSecs, ← Nat.mul_assoc]
  exact Nat.mul_le_mul_right _ seconds

/-- The run's scopes are bounded by their budgets, the burst scope under the
condition that its window is covered. -/
theorem safe_of_covered (covered : BurstCovered limiter)
    (ordered : NonDecreasing calls) (covers : ClockCovers limiter calls) :
    SlidingWindowSafe limiter (accepted (runCalls limiter newWithScopes calls).1) := by
  rw [fresh_run ordered covers]
  have admits := run_admits calls (empty_admits limiter) covers
  rw [final_ledger, ← ledgerOf] at admits
  generalize accepted (Ledger.runCalls limiter Ledger.empty calls).1 = admitted at admits ⊢
  have globalBound : ∀ start,
      within start hourNanos (instantsOf (fun _ => true) admitted) ≤ limiter.globalMax := by
    intro start
    rw [← ledgerOf_globalActions]
    exact admits.globalActions.window_bound start
  have entityBound : ∀ key start,
      within start hourNanos (instantsOf (fun call => call.entityId = key) admitted) ≤
        limiter.perEntityMax := by
    intro key start
    rw [← ledgerOf_entity]
    exact (admits.entity ⟨key⟩).window_bound start
  refine ⟨globalBound, entityBound, ?_, ?_, ?_⟩
  · intro enforced key start
    rw [← ledgerOf_conversation]
    exact (admits.conversation enforced key).window_bound start
  · intro enforced key start
    rw [← ledgerOf_workspace]
    exact (admits.workspace enforced key).window_bound start
  · intro enabled positive key start
    have burstBound : ∀ start, within start (min hourNanos (fromSecs limiter.burstWindowSecs))
        (instantsOf (fun call => call.entityId = key) admitted) ≤ limiter.burstMax := by
      intro start
      rw [← ledgerOf_entity]
      exact (admits.burst enabled positive ⟨key⟩).window_bound start
    rcases covered with disabled | short | granted
    · omega
    · have inside : fromSecs limiter.burstWindowSecs ≤ hourNanos := Nat.mul_le_mul_right _ short
      rw [Nat.min_eq_right inside] at burstBound
      exact burstBound start
    · by_cases inside : fromSecs limiter.burstWindowSecs ≤ hourNanos
      · rw [Nat.min_eq_right inside] at burstBound
        exact burstBound start
      · rw [Nat.min_eq_left (Nat.le_of_not_le inside)] at burstBound
        have hourly : ∀ start, within start hourNanos
            (instantsOf (fun call => call.entityId = key) admitted) ≤ hourlyGrant limiter := by
          intro start
          have globalShare := (instantsOf_le start hourNanos
            (fun call => call.entityId = key) admitted).trans (globalBound start)
          exact le_min (le_min globalShare (entityBound key start)) (burstBound start)
        calc within start (fromSecs limiter.burstWindowSecs)
              (instantsOf (fun call => call.entityId = key) admitted)
            ≤ within start (burstHours limiter * hourNanos)
                (instantsOf (fun call => call.entityId = key) admitted) :=
              within_mono start _ (window_le_hours limiter)
          _ ≤ burstHours limiter * hourlyGrant limiter :=
              within_cover start hourNanos _ _ hourly _
          _ ≤ limiter.burstMax := granted

/-- A call of one entity that names neither conversation nor workspace. -/
def entityCall (now : Nat) : Call := ⟨now, "entity", none, none⟩

theorem instantsOf_entityCalls {owned : Call → Bool}
    (owns : ∀ now, owned (entityCall now) = true) (instants : List Nat) :
    instantsOf owned (instants.map entityCall) = instants := by
  induction instants with
  | nil => rfl
  | cons now rest ih =>
    rw [instantsOf, map_cons, filter_cons_of_pos (owns now), map_cons, ← instantsOf, ih]
    rfl

/-- A ledger that admitted nothing but one entity's calls has room for another
one while the hourly grant is not used up. -/
theorem entityCall_admitted (globalScope : ledger.globalActions = instants)
    (entityScope : ledger.entity ⟨"entity"⟩ = instants) (hour : hourNanos ≤ now)
    (window : fromSecs limiter.burstWindowSecs ≤ now)
    (room : recent hourNanos now instants < hourlyGrant limiter) :
    Ledger.verdict limiter ledger (entityCall now) = .ok () := by
  simp only [hourlyGrant] at room
  have globalOk : Ledger.globalVerdict limiter ledger (entityCall now) = .ok () := by
    rw [globalVerdict_ok, globalScope]
    have live := live_length hour instants
    simp only [entityCall]
    omega
  have entityOk : Ledger.entityVerdict limiter ledger (entityCall now) = .ok () := by
    simp only [Ledger.entityVerdict, judgeEntity_ok, entityCall, entityScope]
    constructor
    · intro _ _
      have narrow := recent_mono now instants
        (Nat.min_le_left hourNanos (fromSecs limiter.burstWindowSecs))
      rw [burst_count hour window]
      omega
    · rw [live_length hour]
      omega
  exact verdict_ok.mpr ⟨globalOk, rfl, rfl, entityOk⟩

/-- Every instant list within the hourly grant is admitted call by call. -/
theorem entityCalls_admitted (admitted : Admitted hourNanos (hourlyGrant limiter) instants)
    (covers : ClockCovers limiter (instants.map entityCall)) :
    accepted (Ledger.runCalls limiter Ledger.empty (instants.map entityCall)).1 =
      instants.map entityCall := by
  induction admitted with
  | nil => rfl
  | snoc earlier now before room ih =>
    have earlierCovers : ClockCovers limiter (earlier.map entityCall) := fun call member =>
      covers call (by simpa using Or.inl (mem_map.mp member))
    obtain ⟨hour, window⟩ := covers (entityCall now) (by simp)
    have admittedEarlier := ih earlierCovers
    have reached : (Ledger.runCalls limiter Ledger.empty (earlier.map entityCall)).2 =
        ledgerOf (earlier.map entityCall) := by
      rw [final_ledger, admittedEarlier, ledgerOf]
    have passed : Ledger.verdict limiter (ledgerOf (earlier.map entityCall)) (entityCall now) =
        .ok () :=
      entityCall_admitted
        ((ledgerOf_globalActions _).trans (instantsOf_entityCalls (fun _ => rfl) earlier))
        ((ledgerOf_entity _ _).trans (instantsOf_entityCalls (fun _ => by simp [entityCall]) earlier))
        hour window room
    rw [map_append, Ledger.runCalls_append, reached]
    simp only [map_cons, map_nil, Ledger.runCalls, passed]
    rw [accepted, filter_append, map_append, ← accepted, admittedEarlier]
    rfl

/-- Every scope of every run stays within its budget in every window of its
length exactly when the burst window is covered by the hourly look-back. -/
theorem sliding_windows_safe_iff (limiter : EntityRateLimiter) :
    (∀ calls, NonDecreasing calls → ClockCovers limiter calls →
      SlidingWindowSafe limiter (accepted (runCalls limiter newWithScopes calls).1)) ↔
      BurstCovered limiter := by
  constructor
  · intro safe
    by_contra uncovered
    simp only [BurstCovered, not_or, Nat.not_le] at uncovered
    obtain ⟨enabled, long, exceeded⟩ := uncovered
    -- Spend a whole hourly grant at the start of every hour the window spans.
    let base := hourNanos + fromSecs limiter.burstWindowSecs
    let instants := batches base hourNanos (hourlyGrant limiter) (burstHours limiter)
    have later : ∀ instant ∈ instants, base ≤ instant := by
      intro instant member
      obtain ⟨hour, _, rfl⟩ := mem_batches member
      omega
    have covers : ClockCovers limiter (instants.map entityCall) := by
      intro call member
      obtain ⟨instant, present, rfl⟩ := mem_map.mp member
      have := later instant present
      simp only [entityCall]
      omega
    have ordered : NonDecreasing (instants.map entityCall) := by
      rw [NonDecreasing, pairwise_map]
      exact batches_sorted base hourNanos (hourlyGrant limiter) (burstHours limiter)
    have admitted := entityCalls_admitted (batches_admitted base hourNanos (hourlyGrant limiter)
      (burstHours limiter)) covers
    have bounded := (safe _ ordered covers).burst (by omega) (by omega) "entity" base
    rw [fresh_run ordered covers, admitted] at bounded
    have reaches : (burstHours limiter - 1) * hourNanos < fromSecs limiter.burstWindowSecs := by
      have seconds : (burstHours limiter - 1) * hourSecs < limiter.burstWindowSecs := by
        simp only [burstHours, hourSecs] at long ⊢
        omega
      simp only [hourNanos, fromSecs, ← Nat.mul_assoc]
      exact Nat.mul_lt_mul_of_pos_right seconds (by decide)
    rw [instantsOf_entityCalls (fun _ => by simp [entityCall]), batches_within reaches] at bounded
    omega
  · intro covered calls ordered covers
    exact safe_of_covered covered ordered covers

/-- A burst budget of one call in two hours grants two calls an hour apart. -/
theorem burst_budget_exceeded :
    ¬ ∀ (limiter : EntityRateLimiter) (calls : List Call), NonDecreasing calls →
      ClockCovers limiter calls →
      SlidingWindowSafe limiter (accepted (runCalls limiter newWithScopes calls).1) := by
  intro safe
  have bounded := (safe ⟨10, 10, 0, 0, 1, 7200⟩
    [entityCall (fromSecs 7200), entityCall (fromSecs 10800)] (by decide)
    (by decide)).burst (by decide) (by decide) "entity" (fromSecs 7200)
  revert bounded
  decide

end Asterel.Trackers
