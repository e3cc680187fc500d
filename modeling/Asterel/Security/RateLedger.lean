import Asterel.Security.Trackers

/-!
# A limiter that never forgets

The ledger keeps every recorded instant of every scope. Its verdict counts the
instants after the cutoffs of the call at hand; it has no pruning, no buckets to
create and no state to lose on a rejection.

The stored limiter state tracks a ledger up to a cutoff: each of its lists holds
the same instants after that cutoff. Later cutoffs see no more, so expired
entries, dropped buckets and buckets left empty by a rejected call are all
invisible. One call of the limiter returns exactly the ledger's verdict and
tracks the ledger that recorded the call when it was admitted.
-/

namespace Asterel.Trackers

variable {call : Call} (limiter : EntityRateLimiter) {ledger : Ledger} {cutoff older : Nat}
  {state : RateLimiterState} {κ : Type} {full : κ → List Nat}

open Library

/-- Every recorded instant, by scope. -/
structure Ledger where
  globalActions : List Nat
  entity : EntityId → List Nat
  conversation : String → List Nat
  workspace : String → List Nat

namespace Ledger

def empty : Ledger := ⟨[], fun _ => [], fun _ => [], fun _ => []⟩

/-- The ledger holding exactly what a limiter state stores. -/
def ofState (state : RateLimiterState) : Ledger :=
  ⟨state.globalActions, bucket state.perEntity, bucket state.perConversation,
    bucket state.perWorkspace⟩

/-- The budget of an optional scope: skipped when zero or without a key. -/
def scopeVerdict (limit : Nat) (key : Option String) (live : String → List Nat)
    (error : String → RateLimitError) : Verdict :=
  match key.filter fun _ => 0 < limit with
  | none => .ok ()
  | some key => if limit ≤ (live key).length then .error (error key) else .ok ()

def globalVerdict (limiter : EntityRateLimiter) (ledger : Ledger) (call : Call) : Verdict :=
  if limiter.globalMax ≤ (retainAfter (hourlyCutoff call.now) ledger.globalActions).length then
    .error .globalExhausted
  else .ok ()

def workspaceVerdict (limiter : EntityRateLimiter) (ledger : Ledger) (call : Call) : Verdict :=
  scopeVerdict limiter.perWorkspaceMax call.workspaceId
    (fun key => retainAfter (hourlyCutoff call.now) (ledger.workspace key)) .workspaceExhausted

def conversationVerdict (limiter : EntityRateLimiter) (ledger : Ledger) (call : Call) : Verdict :=
  scopeVerdict limiter.perConversationMax call.conversationId
    (fun key => retainAfter (hourlyCutoff call.now) (ledger.conversation key))
    .conversationExhausted

def entityVerdict (limiter : EntityRateLimiter) (ledger : Ledger) (call : Call) : Verdict :=
  judgeEntity limiter call
    (retainAfter (hourlyCutoff call.now) (ledger.entity ⟨call.entityId⟩))

/-- The first exhausted budget in the limiter's order, if any. -/
def verdict (limiter : EntityRateLimiter) (ledger : Ledger) (call : Call) : Verdict :=
  globalVerdict limiter ledger call >>= fun _ =>
  workspaceVerdict limiter ledger call >>= fun _ =>
  conversationVerdict limiter ledger call >>= fun _ =>
  entityVerdict limiter ledger call

/-- Append the call's instant to every scope it names. -/
def record (ledger : Ledger) (call : Call) : Ledger where
  globalActions := ledger.globalActions ++ [call.now]
  entity key := if key = ⟨call.entityId⟩ then ledger.entity key ++ [call.now] else ledger.entity key
  conversation key :=
    if some key = call.conversationId then ledger.conversation key ++ [call.now]
    else ledger.conversation key
  workspace key :=
    if some key = call.workspaceId then ledger.workspace key ++ [call.now]
    else ledger.workspace key

/-- The ledger after a call: only an admitted call is recorded. -/
def afterCall (limiter : EntityRateLimiter) (ledger : Ledger) (call : Call) : Ledger :=
  match verdict limiter ledger call with
  | .ok () => ledger.record call
  | .error _ => ledger

/-- The ledger's results for successive calls, and the final ledger. -/
def runCalls (limiter : EntityRateLimiter) : Ledger → List Call → List (Call × Verdict) × Ledger
  | ledger, [] => ([], ledger)
  | ledger, call :: rest =>
    let (results, final) := runCalls limiter (ledger.afterCall limiter call) rest
    ((call, verdict limiter ledger call) :: results, final)

end Ledger

theorem Ledger.runCalls_append (ledger : Ledger) (first second : List Call) :
    Ledger.runCalls limiter ledger (first ++ second) = ((Ledger.runCalls limiter ledger first).1 ++
          (Ledger.runCalls limiter (Ledger.runCalls limiter ledger first).2 second).1,
        (Ledger.runCalls limiter (Ledger.runCalls limiter ledger first).2 second).2) := by
  induction first generalizing ledger with
  | nil => rfl
  | cons call rest ih =>
    simp only [List.cons_append, Ledger.runCalls, ih]

/-- Two lists hold the same instants after the cutoff, in the same order. -/
def AgreeAfter (cutoff : Nat) (left right : List Nat) : Prop :=
  retainAfter cutoff left = retainAfter cutoff right

theorem AgreeAfter.later {left right : List Nat}
    (agree : AgreeAfter older left right) (order : older ≤ cutoff) :
    AgreeAfter cutoff left right := by
  have absorbed : retainAfter cutoff (retainAfter older left) =
      retainAfter cutoff (retainAfter older right) := congrArg _ agree
  simpa only [AgreeAfter, retainAfter_absorb order] using absorbed

/-- Pruning the left list at the cutoff does not disturb agreement. -/
theorem AgreeAfter.retain {left right : List Nat} (agree : AgreeAfter cutoff left right) :
    AgreeAfter cutoff (retainAfter cutoff left) right := by
  rw [AgreeAfter, retainAfter_absorb (Nat.le_refl cutoff)]
  exact agree

theorem AgreeAfter.push {left right : List Nat} (agree : AgreeAfter cutoff left right) (now : Nat) :
    AgreeAfter cutoff (left ++ [now]) (right ++ [now]) := by
  simp only [AgreeAfter, retainAfter_append] at *
  rw [agree]

/-- The state holds the ledger's instants after the cutoff in every scope. -/
structure Tracks (cutoff : Nat) (state : RateLimiterState) (ledger : Ledger) : Prop where
  globalActions : AgreeAfter cutoff state.globalActions ledger.globalActions
  entity : ∀ key, AgreeAfter cutoff (bucket state.perEntity key) (ledger.entity key)
  conversation : ∀ key,
    AgreeAfter cutoff (bucket state.perConversation key) (ledger.conversation key)
  workspace : ∀ key, AgreeAfter cutoff (bucket state.perWorkspace key) (ledger.workspace key)

theorem Tracks.later (tracks : Tracks older state ledger) (order : older ≤ cutoff) :
    Tracks cutoff state ledger where
  globalActions := tracks.globalActions.later order
  entity key := (tracks.entity key).later order
  conversation key := (tracks.conversation key).later order
  workspace key := (tracks.workspace key).later order

theorem tracks_ofState (cutoff : Nat) (state : RateLimiterState) :
    Tracks cutoff state (Ledger.ofState state) :=
  ⟨rfl, fun _ => rfl, fun _ => rfl, fun _ => rfl⟩

theorem tracks_new : Tracks 0 newWithScopes Ledger.empty :=
  ⟨rfl, fun key => by simp [newWithScopes, Ledger.empty, AgreeAfter],
    fun key => by simp [newWithScopes, Ledger.empty, AgreeAfter],
    fun key => by simp [newWithScopes, Ledger.empty, AgreeAfter]⟩

/-- Entering a bucket prunes one list and changes no other. -/
theorem agree_enter [DecidableEq κ] {buckets : HashMap κ (List Nat)}
    (agree : ∀ key, AgreeAfter cutoff (bucket buckets key) (full key)) (entered key : κ) :
    AgreeAfter cutoff (bucket (enterBucket buckets entered cutoff) key) (full key) := by
  rw [enterBucket, bucket_insert]
  split
  · next same =>
    subst same
    exact (agree key).retain
  · exact agree key

/-- The bucket just entered holds exactly the live instants of the full list. -/
theorem enter_live [DecidableEq κ] {buckets : HashMap κ (List Nat)}
    (agree : ∀ key, AgreeAfter cutoff (bucket buckets key) (full key)) (key : κ) :
    bucket (enterBucket buckets key cutoff) key = retainAfter cutoff (full key) := by
  rw [enterBucket, bucket_insert, if_pos rfl]
  exact agree key

/-- A stage answers with a ledger verdict and keeps tracking that ledger. -/
def StageRefines (cutoff : Nat) (ledger : Ledger) (stage : Stage) (verdict : Verdict) : Prop :=
  ∀ state, Tracks cutoff state ledger →
    (stage state).1 = verdict ∧ Tracks cutoff (stage state).2 ledger

/-- Stages compose as their verdicts do: the first rejection wins. -/
theorem StageRefines.andThen {first next : Stage} {firstVerdict nextVerdict : Verdict}
    (firstRefines : StageRefines cutoff ledger first firstVerdict)
    (nextRefines : StageRefines cutoff ledger next nextVerdict) :
    StageRefines cutoff ledger (first.andThen next) (firstVerdict >>= fun _ => nextVerdict) := by
  intro state tracks
  obtain ⟨answered, kept⟩ := firstRefines state tracks
  cases answer : first state with
  | mk verdict left =>
    rw [answer] at answered kept
    subst answered
    cases verdict with
    | error error =>
      rw [stage_andThen_error answer]
      exact ⟨rfl, kept⟩
    | ok =>
      rw [stage_andThen_ok answer]
      exact nextRefines left kept

/-- The global stage advances tracking from any older cutoff to its own. -/
theorem checkGlobal_refines (tracks : Tracks older state ledger)
    (order : older ≤ hourlyCutoff call.now) :
    (checkGlobal limiter call state).1 = Ledger.globalVerdict limiter ledger call ∧
      Tracks (hourlyCutoff call.now) (checkGlobal limiter call state).2 ledger := by
  have current : Tracks (hourlyCutoff call.now) state ledger := tracks.later order
  have kept : Tracks (hourlyCutoff call.now) (checkGlobal limiter call state).2 ledger := by
    have pruned : Tracks (hourlyCutoff call.now) (pruneExpiredScopeMaps
        { state with globalActions := retainAfter (hourlyCutoff call.now) state.globalActions }
        (hourlyCutoff call.now)) ledger := by
      refine ⟨current.globalActions.retain, ?_, ?_, ?_⟩ <;> intro key <;>
        simp only [pruneExpiredScopeMaps, bucket_prune]
      · exact (current.entity key).retain
      · exact (current.conversation key).retain
      · exact (current.workspace key).retain
    simp only [checkGlobal]
    split <;> exact pruned
  refine ⟨?_, kept⟩
  have same : retainAfter (hourlyCutoff call.now) state.globalActions =
      retainAfter (hourlyCutoff call.now) ledger.globalActions := current.globalActions
  simp only [checkGlobal, pruneExpiredScopeMaps, Ledger.globalVerdict, same]
  split <;> rfl

theorem checkWorkspace_refines (call : Call) (ledger : Ledger) :
    StageRefines (hourlyCutoff call.now) ledger (checkWorkspace limiter call)
      (Ledger.workspaceVerdict limiter ledger call) := by
  intro state tracks
  simp only [checkWorkspace, Ledger.workspaceVerdict, Ledger.scopeVerdict]
  cases call.workspaceId.filter fun _ => 0 < limiter.perWorkspaceMax with
  | none => exact ⟨rfl, tracks⟩
  | some key =>
    have kept : Tracks (hourlyCutoff call.now)
        { state with perWorkspace := enterBucket state.perWorkspace key (hourlyCutoff call.now) }
        ledger :=
      { tracks with workspace := agree_enter tracks.workspace key }
    simp only [enter_live tracks.workspace key]
    split
    · exact ⟨rfl, kept⟩
    · exact ⟨rfl, kept⟩

theorem checkConversation_refines (call : Call) (ledger : Ledger) :
    StageRefines (hourlyCutoff call.now) ledger (checkConversation limiter call)
      (Ledger.conversationVerdict limiter ledger call) := by
  intro state tracks
  simp only [checkConversation, Ledger.conversationVerdict, Ledger.scopeVerdict]
  cases call.conversationId.filter fun _ => 0 < limiter.perConversationMax with
  | none => exact ⟨rfl, tracks⟩
  | some key =>
    have kept : Tracks (hourlyCutoff call.now)
        { state with
          perConversation := enterBucket state.perConversation key (hourlyCutoff call.now) }
        ledger :=
      { tracks with conversation := agree_enter tracks.conversation key }
    simp only [enter_live tracks.conversation key]
    split
    · exact ⟨rfl, kept⟩
    · exact ⟨rfl, kept⟩

theorem checkEntity_refines (call : Call) (ledger : Ledger) :
    StageRefines (hourlyCutoff call.now) ledger (checkEntity limiter call)
      (Ledger.entityVerdict limiter ledger call) := by
  intro state tracks
  refine ⟨?_, { tracks with entity := agree_enter tracks.entity _ }⟩
  simp only [checkEntity, enter_live tracks.entity, Ledger.entityVerdict]

/-- Recording pushes the same instant in the state and in the ledger. -/
theorem recordAction_tracks (call : Call) (tracks : Tracks cutoff state ledger) :
    Tracks cutoff (recordAction call state).2 (ledger.record call) := by
  have optional (key : Option String) (buckets : HashMap String (List Nat))
      (full : String → List Nat)
      (agree : ∀ key, AgreeAfter cutoff (bucket buckets key) (full key)) (other : String) :
      AgreeAfter cutoff
        (bucket (match key with
          | none => buckets
          | some key => pushAction buckets key call.now) other)
        (if some other = key then full other ++ [call.now] else full other) := by
    cases key with
    | none => simpa using agree other
    | some key =>
      simp only [pushAction, bucket_insert, Option.some.injEq]
      split
      · next same =>
        subst same
        exact (agree other).push call.now
      · exact agree other
  refine ⟨tracks.globalActions.push call.now, ?_, ?_, ?_⟩
  · intro key
    simp only [recordAction, pushAction, bucket_insert, Ledger.record]
    split
    · next same =>
      subst same
      exact (tracks.entity _).push call.now
    · exact tracks.entity key
  · exact optional call.conversationId state.perConversation ledger.conversation tracks.conversation
  · exact optional call.workspaceId state.perWorkspace ledger.workspace tracks.workspace

/-- The four checks of a call, without its record. -/
def admissionChecks (limiter : EntityRateLimiter) (call : Call) : Stage :=
  (checkGlobal limiter call).andThen <|
  (checkWorkspace limiter call).andThen <|
  (checkConversation limiter call).andThen <|
  checkEntity limiter call

theorem checkAndRecord_eq (call : Call) :
    checkAndRecordScoped limiter call = (admissionChecks limiter call).andThen (recordAction call) := by
  simp only [checkAndRecordScoped, admissionChecks, stage_andThen_assoc]

/-- One call refines one ledger step: the same verdict, and a state that tracks
the ledger the step leaves behind. The cutoff only has to move forward. -/
theorem call_refines (tracks : Tracks older state ledger) (order : older ≤ hourlyCutoff call.now) :
    (checkAndRecordScoped limiter call state).1 = Ledger.verdict limiter ledger call ∧
      Tracks (hourlyCutoff call.now) (checkAndRecordScoped limiter call state).2
        (ledger.afterCall limiter call) := by
  have scopes := (checkWorkspace_refines limiter call ledger).andThen
    ((checkConversation_refines limiter call ledger).andThen
      (checkEntity_refines limiter call ledger))
  have checks : (admissionChecks limiter call state).1 = Ledger.verdict limiter ledger call ∧
      Tracks (hourlyCutoff call.now) (admissionChecks limiter call state).2 ledger := by
    obtain ⟨globalAnswer, pruned⟩ := checkGlobal_refines limiter tracks order
    cases answer : checkGlobal limiter call state with
    | mk verdict left =>
      rw [answer] at globalAnswer pruned
      rw [Ledger.verdict, ← globalAnswer]
      cases verdict with
      | error error =>
        rw [admissionChecks, stage_andThen_error answer]
        exact ⟨rfl, pruned⟩
      | ok =>
        rw [admissionChecks, stage_andThen_ok answer]
        exact scopes left pruned
  obtain ⟨answered, kept⟩ := checks
  rw [checkAndRecord_eq, Ledger.afterCall, ← answered]
  cases answer : admissionChecks limiter call state with
  | mk verdict left =>
    rw [answer] at kept
    cases verdict with
    | error error =>
      rw [stage_andThen_error answer]
      exact ⟨rfl, kept⟩
    | ok =>
      rw [stage_andThen_ok answer]
      exact ⟨rfl, recordAction_tracks call kept⟩

/-- A whole run of calls at non-decreasing cutoffs returns the ledger's results. -/
theorem run_refines (calls : List Call) (tracks : Tracks older state ledger)
    (order : ∀ call ∈ calls, older ≤ hourlyCutoff call.now)
    (advancing : calls.Pairwise fun earlier later =>
      hourlyCutoff earlier.now ≤ hourlyCutoff later.now) :
    (runCalls limiter state calls).1 = (Ledger.runCalls limiter ledger calls).1 ∧
      ∀ cutoff, older ≤ cutoff → (∀ call ∈ calls, hourlyCutoff call.now ≤ cutoff) →
        Tracks cutoff (runCalls limiter state calls).2 (Ledger.runCalls limiter ledger calls).2 := by
  induction calls generalizing older state ledger with
  | nil => exact ⟨rfl, fun cutoff later _ => tracks.later later⟩
  | cons call rest ih =>
    obtain ⟨answered, next⟩ := call_refines limiter tracks (order call (by simp))
    obtain ⟨fromHere, restAdvancing⟩ := List.pairwise_cons.mp advancing
    obtain ⟨sameRest, finalTracks⟩ := ih next fromHere restAdvancing
    simp only [runCalls, Ledger.runCalls]
    refine ⟨by rw [answered, sameRest], ?_⟩
    intro cutoff later covers
    exact finalTracks cutoff (covers call (by simp)) fun other member =>
      covers other (by simp [member])

end Asterel.Trackers
