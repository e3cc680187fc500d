import Asterel.Security.RateWindows

/-!
# Rejected calls and unrelated entities

Two runs of the limiter are compared: one makes a call, the other omits it.

When the call is rejected, the state it leaves tracks the same ledger as the
state before it, so every later result agrees. Cutoffs then have to advance from
the rejected call on. An instant from which the hour cannot be subtracted breaks
that order, but a call rejected there shows that some budget is zero, and such a
limiter records nothing at all.

When the call is admitted, another entity's list is untouched. Its verdicts can
still differ later, because the call spent global, conversation or workspace
budget and so changed which calls of the other entity were admitted in between.
-/

namespace Asterel.Trackers

variable {call : Call} {limiter : EntityRateLimiter} {ledger : Ledger} {history later : List Call}
  {property : List Nat → Prop} {error : RateLimitError} {state : RateLimiterState}

open Library List Ledger

/-- The result of the entity stage of a call, with the burst verdict in it. -/
def entityAnswer (limiter : EntityRateLimiter) (call : Call) (state : RateLimiterState) : Verdict :=
  (checkEntity limiter call (checkGlobal limiter call state).2).1

theorem entityAnswer_tracks {older : Nat} (tracks : Tracks older state ledger)
    (order : older ≤ hourlyCutoff call.now) :
    entityAnswer limiter call state = entityVerdict limiter ledger call :=
  (checkEntity_refines limiter call ledger _ (checkGlobal_refines limiter tracks order).2).1

/-- A call the ledger rejects leaves it unchanged. -/
theorem afterCall_rejected (rejected : Ledger.verdict limiter ledger call = .error error) :
    ledger.afterCall limiter call = ledger := by
  rw [Ledger.afterCall, rejected]

/-- While cutoffs advance, the state left by a rejected call and the state before
it answer every later run alike. -/
theorem rejected_unseen (rejected : (checkAndRecordScoped limiter call state).1 = .error error)
    (order : ∀ other ∈ later, hourlyCutoff call.now ≤ hourlyCutoff other.now)
    (advancing : later.Pairwise fun earlier other =>
      hourlyCutoff earlier.now ≤ hourlyCutoff other.now) :
    (runCalls limiter (checkAndRecordScoped limiter call state).2 later).1 =
      (runCalls limiter state later).1 := by
  have before : Tracks (hourlyCutoff call.now) state (ofState state) :=
    tracks_ofState _ state
  obtain ⟨answered, left⟩ := call_refines limiter before (Nat.le_refl _)
  rw [afterCall_rejected (answered.symm.trans rejected)] at left
  exact (run_refines limiter later left order advancing).1.trans
    (run_refines limiter later before order advancing).1.symm

/-- Every bucket of the state satisfies a property of lists. -/
structure Buckets (property : List Nat → Prop) (state : RateLimiterState) : Prop where
  globalActions : property state.globalActions
  entity : ∀ key, property (bucket state.perEntity key)
  conversation : ∀ key, property (bucket state.perConversation key)
  workspace : ∀ key, property (bucket state.perWorkspace key)

theorem enter_property {κ : Type} [DecidableEq κ]
    (closed : ∀ cutoff actions, property actions → property (retainAfter cutoff actions))
    {buckets : HashMap κ (List Nat)} (holds : ∀ key, property (bucket buckets key))
    (cutoff : Nat) (entered key : κ) :
    property (bucket (enterBucket buckets entered cutoff) key) := by
  rw [enterBucket, bucket_insert]
  split
  · exact closed cutoff _ (holds entered)
  · exact holds key

theorem andThen_buckets {first next : Stage}
    (firstKeeps : ∀ state, Buckets property state → Buckets property (first state).2)
    (nextKeeps : ∀ state, Buckets property state → Buckets property (next state).2)
    (state : RateLimiterState) (holds : Buckets property state) :
    Buckets property (first.andThen next state).2 := by
  have kept := firstKeeps state holds
  cases answer : first state with
  | mk verdict left =>
    rw [answer] at kept
    cases verdict with
    | error error =>
      rw [stage_andThen_error answer]
      exact kept
    | ok =>
      rw [stage_andThen_ok answer]
      exact nextKeeps left kept

/-- The checks only ever remove instants, so a property closed under pruning
survives them. -/
theorem checks_buckets
    (closed : ∀ cutoff actions, property actions → property (retainAfter cutoff actions))
    (limiter : EntityRateLimiter) (call : Call) (state : RateLimiterState)
    (holds : Buckets property state) :
    Buckets property (admissionChecks limiter call state).2 := by
  refine andThen_buckets ?_ (andThen_buckets ?_ (andThen_buckets ?_ ?_)) state holds
  · intro state holds
    have pruned : Buckets property (pruneExpiredScopeMaps
        { state with globalActions := retainAfter (hourlyCutoff call.now) state.globalActions }
        (hourlyCutoff call.now)) := by
      refine ⟨closed _ _ holds.globalActions, ?_, ?_, ?_⟩ <;> intro key <;>
        simp only [pruneExpiredScopeMaps, bucket_prune] <;> apply closed
      · exact holds.entity key
      · exact holds.conversation key
      · exact holds.workspace key
    simp only [checkGlobal]
    split <;> exact pruned
  · intro state holds
    simp only [checkWorkspace]
    split
    · exact holds
    · split <;> exact { holds with workspace := enter_property closed holds.workspace _ _ }
  · intro state holds
    simp only [checkConversation]
    split
    · exact holds
    · split <;> exact { holds with conversation := enter_property closed holds.conversation _ _ }
  · intro state holds
    exact { holds with entity := enter_property closed holds.entity _ _ }

/-- A zero global or entity budget: no call is ever admitted. -/
def NeverAdmits (limiter : EntityRateLimiter) : Prop :=
  limiter.globalMax = 0 ∨ limiter.perEntityMax = 0

theorem neverAdmits_rejects (never : NeverAdmits limiter) (ledger : Ledger) (call : Call) :
    ∃ error, Ledger.verdict limiter ledger call = .error error := by
  cases answer : Ledger.verdict limiter ledger call with
  | error error => exact ⟨error, rfl⟩
  | ok =>
    obtain ⟨globalOk, _, _, entityOk⟩ := verdict_ok.mp answer
    have globalRoom := globalVerdict_ok.mp globalOk
    have entityRoom := (judgeEntity_ok.mp entityOk).2
    rcases never with zero | zero <;> omega

/-- No visible instant: nothing after the clock's origin. -/
def Silent (actions : List Nat) : Prop := retainAfter 0 actions = []

theorem silent_retain (cutoff : Nat) (actions : List Nat) (silent : Silent actions) :
    Silent (retainAfter cutoff actions) := by
  simp only [Silent, retainAfter, filter_eq_nil_iff, mem_filter] at *
  exact fun instant member => silent instant member.1

theorem silent_tracks (silent : Buckets Silent state) :
    Tracks 0 state empty :=
  ⟨silent.globalActions, silent.entity, silent.conversation, silent.workspace⟩

/-- A limiter that admits nothing leaves a silent state silent and answers with
the verdicts of the empty ledger. -/
theorem never_call (never : NeverAdmits limiter) (call : Call) (silent : Buckets Silent state) :
    (checkAndRecordScoped limiter call state).1 = Ledger.verdict limiter empty call ∧
      Buckets Silent (checkAndRecordScoped limiter call state).2 := by
  obtain ⟨answered, _⟩ := call_refines limiter (silent_tracks silent)
    (Nat.zero_le (hourlyCutoff call.now))
  refine ⟨answered, ?_⟩
  obtain ⟨error, rejected⟩ := neverAdmits_rejects never empty call
  have kept := checks_buckets silent_retain limiter call state silent
  rw [checkAndRecord_eq] at answered ⊢
  cases answer : admissionChecks limiter call state with
  | mk verdict left =>
    rw [answer] at kept
    cases verdict with
    | error error =>
      rw [stage_andThen_error answer]
      exact kept
    | ok =>
      rw [stage_andThen_ok answer, rejected] at answered
      simp [recordAction] at answered

theorem never_run (never : NeverAdmits limiter)
    (calls : List Call) (silent : Buckets Silent state) :
    (runCalls limiter state calls).1 =
        calls.map (fun call => (call, Ledger.verdict limiter empty call)) ∧
      Buckets Silent (runCalls limiter state calls).2 := by
  induction calls generalizing state with
  | nil => exact ⟨rfl, silent⟩
  | cons call rest ih =>
    obtain ⟨answered, kept⟩ := never_call never call silent
    obtain ⟨sameRest, finalSilent⟩ := ih kept
    simp only [runCalls, map_cons, answered, sameRest]
    exact ⟨trivial, finalSilent⟩

theorem silent_new : Buckets Silent newWithScopes :=
  ⟨rfl, fun key => by simp [newWithScopes, Silent, retainAfter],
    fun key => by simp [newWithScopes, Silent, retainAfter],
    fun key => by simp [newWithScopes, Silent, retainAfter]⟩

/-- A scope without live instants has room for its budget, if it has one. -/
theorem scopeVerdict_empty (limit : Nat) (key : Option String) (error : String → RateLimitError) :
    scopeVerdict limit key (fun _ => []) error = .ok () := by
  simp only [scopeVerdict]
  split
  · rfl
  · next enforced =>
    obtain ⟨positive, _⟩ := Option.filter_eq_some_iff.mp enforced |>.symm
    have : 0 < limit := by simpa using positive
    rw [if_neg (by simp only [length_nil]; omega)]

/-- Where an hour cannot be subtracted, the cutoff is the call's own instant and
every recorded instant has expired, so only a zero budget can reject. -/
theorem early_rejection {admitted : List Call} (early : call.now < hourNanos)
    (earlier : ∀ other ∈ admitted, other.now ≤ call.now)
    (rejected : Ledger.verdict limiter (ledgerOf admitted) call = .error error) :
    NeverAdmits limiter := by
  have cutoff : hourlyCutoff call.now = call.now := hourlyCutoff_early early
  have expired (owned : Call → Bool) :
      retainAfter (hourlyCutoff call.now) (instantsOf owned admitted) = [] := by
    simp only [retainAfter, instantsOf, filter_eq_nil_iff, mem_map, mem_filter,
      cutoff, decide_eq_true_eq]
    rintro instant ⟨other, ⟨member, _⟩, rfl⟩
    exact Nat.not_lt.mpr (earlier other member)
  by_contra admits
  simp only [NeverAdmits, not_or] at admits
  have passed : Ledger.verdict limiter (ledgerOf admitted) call = .ok () := by
    refine verdict_ok.mpr ⟨?_, ?_, ?_, ?_⟩
    · rw [globalVerdict_ok, ledgerOf_globalActions, expired, length_nil]
      omega
    · simp only [workspaceVerdict, ledgerOf_workspace, expired]
      exact scopeVerdict_empty _ _ _
    · simp only [conversationVerdict, ledgerOf_conversation, expired]
      exact scopeVerdict_empty _ _ _
    · rw [entityVerdict, ledgerOf_entity, expired, judgeEntity_ok]
      simp only [countP_nil, length_nil]
      omega
  rw [passed] at rejected
  cases rejected

theorem accepted_mem {results : List (Call × Verdict)}
    (member : call ∈ accepted results) : call ∈ results.map Prod.fst := by
  simp only [accepted, mem_map, mem_filter] at member ⊢
  obtain ⟨result, ⟨present, _⟩, rfl⟩ := member
  exact ⟨result, present, rfl⟩

theorem Ledger.runCalls_calls (limiter : EntityRateLimiter) (ledger : Ledger)
    (calls : List Call) : (Ledger.runCalls limiter ledger calls).1.map Prod.fst = calls := by
  induction calls generalizing ledger with
  | nil => rfl
  | cons call rest ih => simp [Ledger.runCalls, ih]

/-- A call rejected before an hour has passed on the clock shows a zero budget. -/
theorem early_reached (ordered : NonDecreasing (history ++ [call])) (early : call.now < hourNanos)
    (rejected : (checkAndRecordScoped limiter call
      (runCalls limiter newWithScopes history).2).1 = .error error) :
    NeverAdmits limiter := by
  obtain ⟨historyOrdered, _, precedes⟩ := pairwise_append.mp ordered
  have before : ∀ other ∈ history, other.now ≤ call.now := fun other member =>
    precedes other member call (by simp)
  have cutoff : ∀ other ∈ history, hourlyCutoff other.now = other.now := fun other member =>
    hourlyCutoff_early (Nat.lt_of_le_of_lt (before other member) early)
  have advancing : history.Pairwise fun earlier other =>
      hourlyCutoff earlier.now ≤ hourlyCutoff other.now := by
    refine List.Pairwise.imp_of_mem ?_ historyOrdered
    intro earlier other earlierMember otherMember order
    rwa [cutoff earlier earlierMember, cutoff other otherMember]
  have tracks := (run_refines limiter history tracks_new (fun _ _ => Nat.zero_le _)
    advancing).2 (hourlyCutoff call.now) (Nat.zero_le _) fun other member => by
      rw [cutoff other member, hourlyCutoff_early early]
      exact before other member
  have answered := (call_refines limiter tracks (Nat.le_refl _)).1
  rw [final_ledger, ← ledgerOf] at answered
  refine early_rejection early ?_ (answered.symm.trans rejected)
  intro other member
  have present := accepted_mem member
  rw [runCalls_calls] at present
  exact before other present

/-- A rejected call consumes nothing: every later run returns what it would have
returned without the call. -/
theorem rejection_consumes_nothing (ordered : NonDecreasing (history ++ call :: later))
    (rejected : (checkAndRecordScoped limiter call
      (runCalls limiter newWithScopes history).2).1 = .error error) :
    (runCalls limiter (checkAndRecordScoped limiter call
        (runCalls limiter newWithScopes history).2).2 later).1 =
      (runCalls limiter (runCalls limiter newWithScopes history).2 later).1 := by
  obtain ⟨historyOrdered, fromCall, precedes⟩ := pairwise_append.mp ordered
  obtain ⟨afterCall, laterOrdered⟩ := pairwise_cons.mp fromCall
  by_cases early : call.now < hourNanos
  · -- Cutoffs may still move back, but this limiter never records anything.
    have shorter : NonDecreasing (history ++ [call]) :=
      pairwise_append.mpr ⟨historyOrdered, pairwise_singleton _ _,
        fun earlier member other last => by
          rw [mem_singleton.mp last]
          exact precedes earlier member call (by simp)⟩
    have never := early_reached shorter early rejected
    have silent := (never_run never history silent_new).2
    rw [(never_run never later silent).1,
      (never_run never later (never_call never call silent).2).1]
  · have hour : ∀ other ∈ call :: later, hourNanos ≤ other.now := by
      intro other member
      rcases mem_cons.mp member with rfl | present
      · omega
      · have := afterCall other present
        omega
    have advancing := cutoffs_advance fromCall hour
    obtain ⟨order, laterAdvancing⟩ := pairwise_cons.mp advancing
    exact rejected_unseen rejected order laterAdvancing

/-- Recording calls of other entities leaves an entity's list alone, and an
entity's own calls extend it by their instants. -/
theorem run_entity (limiter : EntityRateLimiter) (ledger : Ledger) (calls : List Call)
    (key : String) :
    (Ledger.runCalls limiter ledger calls).2.entity ⟨key⟩ =
      ledger.entity ⟨key⟩ ++ instantsOf (fun call => call.entityId = key)
        (accepted (Ledger.runCalls limiter ledger calls).1) := by
  rw [final_ledger]
  exact (folded_scopes _ ledger).2.1 key

theorem afterCall_entity {key : String} (other : key ≠ call.entityId) :
    (ledger.afterCall limiter call).entity ⟨key⟩ = ledger.entity ⟨key⟩ := by
  rw [Ledger.afterCall]
  split
  · simp [record, other]
  · rfl

/-- The calls of one entity that a run admitted. -/
def admittedOf (key : String) (results : List (Call × Verdict)) : List Call :=
  (accepted results).filter fun call => call.entityId = key

/-- The entity stage of a later call answers alike in both runs when the calls of
that entity admitted in between are the same ones. -/
theorem entity_isolated {last : Call} {between : List Call}
    (ordered : NonDecreasing (call :: between ++ [last]))
    (hour : ∀ other ∈ call :: between ++ [last], hourNanos ≤ other.now)
    (unrelated : last.entityId ≠ call.entityId) (same : admittedOf last.entityId
        (runCalls limiter (checkAndRecordScoped limiter call state).2 between).1 =
      admittedOf last.entityId (runCalls limiter state between).1) :
    entityAnswer limiter last
        (runCalls limiter (checkAndRecordScoped limiter call state).2 between).2 =
      entityAnswer limiter last (runCalls limiter state between).2 := by
  have advancing := cutoffs_advance ordered hour
  rw [cons_append, pairwise_cons] at advancing
  obtain ⟨fromCall, rest⟩ := advancing
  obtain ⟨betweenAdvancing, _, beforeLast⟩ := pairwise_append.mp rest
  have reaches : ∀ other ∈ between, hourlyCutoff other.now ≤ hourlyCutoff last.now :=
    fun other member => beforeLast other member last (by simp)
  have fromCallBetween : ∀ other ∈ between, hourlyCutoff call.now ≤ hourlyCutoff other.now :=
    fun other member => fromCall other (by simp [member])
  have order : hourlyCutoff call.now ≤ hourlyCutoff last.now := fromCall last (by simp)
  have before : Tracks (hourlyCutoff call.now) state (ofState state) :=
    tracks_ofState _ state
  have left := (call_refines limiter before (Nat.le_refl _)).2
  obtain ⟨sameWith, tracksWith⟩ := run_refines limiter between left fromCallBetween
    betweenAdvancing
  obtain ⟨sameWithout, tracksWithout⟩ := run_refines limiter between before
    fromCallBetween betweenAdvancing
  rw [entityAnswer_tracks (tracksWith _ order reaches) (Nat.le_refl _),
    entityAnswer_tracks (tracksWithout _ order reaches) (Nat.le_refl _)]
  rw [sameWith, sameWithout] at same
  simp only [entityVerdict, run_entity, afterCall_entity unrelated]
  simp only [admittedOf] at same
  rw [instantsOf, instantsOf, same]

/-- A rejected call consumes nothing, and an admitted or rejected call changes a
later entity verdict of another entity only through which of that entity's own
calls were admitted in between. -/
theorem rejection_and_isolation (limiter : EntityRateLimiter) (history later : List Call)
    (call : Call) (ordered : NonDecreasing (history ++ call :: later)) :
    (∀ error, (checkAndRecordScoped limiter call
        (runCalls limiter newWithScopes history).2).1 = .error error →
      (runCalls limiter (checkAndRecordScoped limiter call
          (runCalls limiter newWithScopes history).2).2 later).1 =
        (runCalls limiter (runCalls limiter newWithScopes history).2 later).1) ∧
    ((∀ other ∈ call :: later, hourNanos ≤ other.now) →
      ∀ between last, later = between ++ [last] → last.entityId ≠ call.entityId →
        admittedOf last.entityId (runCalls limiter (checkAndRecordScoped limiter call
            (runCalls limiter newWithScopes history).2).2 between).1 =
          admittedOf last.entityId
            (runCalls limiter (runCalls limiter newWithScopes history).2 between).1 →
        entityAnswer limiter last (runCalls limiter (checkAndRecordScoped limiter call
            (runCalls limiter newWithScopes history).2).2 between).2 =
          entityAnswer limiter last
            (runCalls limiter (runCalls limiter newWithScopes history).2 between).2) := by
  refine ⟨fun error rejected => rejection_consumes_nothing ordered rejected, ?_⟩
  rintro hour between last rfl unrelated same
  have fromCall := (pairwise_append.mp ordered).2.1
  exact entity_isolated fromCall hour unrelated same

/-- One budget of one call: the entity's second call is rejected, and both the
results and the entity verdict of another entity are as if it were not made. -/
theorem rejection_and_isolation_one_each :
    (runCalls ⟨5, 1, 0, 0, 0, 0⟩ (checkAndRecordScoped ⟨5, 1, 0, 0, 0, 0⟩
          ⟨fromSecs 3601, "a", none, none⟩ (runCalls ⟨5, 1, 0, 0, 0, 0⟩ newWithScopes
            [⟨fromSecs 3600, "a", none, none⟩]).2).2 [⟨fromSecs 3602, "b", none, none⟩]).1 =
        (runCalls ⟨5, 1, 0, 0, 0, 0⟩ (runCalls ⟨5, 1, 0, 0, 0, 0⟩ newWithScopes
          [⟨fromSecs 3600, "a", none, none⟩]).2 [⟨fromSecs 3602, "b", none, none⟩]).1 ∧
      entityAnswer ⟨5, 1, 0, 0, 0, 0⟩ ⟨fromSecs 3602, "b", none, none⟩
          (runCalls ⟨5, 1, 0, 0, 0, 0⟩ (checkAndRecordScoped ⟨5, 1, 0, 0, 0, 0⟩
            ⟨fromSecs 3601, "a", none, none⟩ (runCalls ⟨5, 1, 0, 0, 0, 0⟩ newWithScopes
              [⟨fromSecs 3600, "a", none, none⟩]).2).2 []).2 =
        entityAnswer ⟨5, 1, 0, 0, 0, 0⟩ ⟨fromSecs 3602, "b", none, none⟩
          (runCalls ⟨5, 1, 0, 0, 0, 0⟩ (runCalls ⟨5, 1, 0, 0, 0, 0⟩ newWithScopes
            [⟨fromSecs 3600, "a", none, none⟩]).2 []).2 := by
  have both := rejection_and_isolation ⟨5, 1, 0, 0, 0, 0⟩ [⟨fromSecs 3600, "a", none, none⟩]
    ([] ++ [⟨fromSecs 3602, "b", none, none⟩]) ⟨fromSecs 3601, "a", none, none⟩ (by decide)
  exact ⟨both.1 (.entityExhausted ⟨"a"⟩) (by decide),
    both.2 (by decide) [] ⟨fromSecs 3602, "b", none, none⟩ rfl (by decide) (by decide)⟩

/-- A call of one entity can turn a later call of another one from rejected to
admitted: it exhausts the global budget, so a call in between is not recorded. -/
theorem unrelated_call_changes_entity_answer :
    ¬ ∀ (limiter : EntityRateLimiter) (history between : List Call) (call last : Call),
      NonDecreasing (history ++ call :: (between ++ [last])) →
      (∀ other ∈ call :: (between ++ [last]), hourNanos ≤ other.now) →
      last.entityId ≠ call.entityId →
      entityAnswer limiter last (runCalls limiter (checkAndRecordScoped limiter call
          (runCalls limiter newWithScopes history).2).2 between).2 =
        entityAnswer limiter last
          (runCalls limiter (runCalls limiter newWithScopes history).2 between).2 := by
  intro isolated
  have same := isolated ⟨2, 1, 0, 0, 0, 0⟩ [⟨fromSecs 3600, "x", none, none⟩]
    [⟨fromSecs 3601, "other", none, none⟩] ⟨fromSecs 3600, "e", none, none⟩
    ⟨fromSecs 7200, "other", none, none⟩ (by decide) (by decide) (by decide)
  revert same
  decide

end Asterel.Trackers
