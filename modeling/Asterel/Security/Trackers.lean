import Asterel.Library.HashMap

/-!
# Scoped rate limiting

The limiter keeps one list of instants for the whole process and one list per
entity, conversation and workspace. A call first forgets instants older than an
hour, then checks the global, workspace, conversation and entity scopes in that
order, and records its own instant only when every scope admits it.

A rejected call still changes the stored state: expired instants are gone, empty
buckets have been dropped, and the buckets of the scopes already visited exist.
Each stage therefore returns the state it leaves behind beside its verdict.

Instants are nanoseconds since the origin of the monotonic clock. The mutex
around the state makes one call one atomic step.
-/

namespace Asterel.Trackers

open Library

def nanosPerSec : Nat := 1000000000

/-- `Duration::from_secs`, in nanoseconds. -/
def fromSecs (secs : Nat) : Nat := secs * nanosPerSec

/-- `Instant::checked_sub`: an instant before the clock's origin does not exist. -/
def checkedSub (instant : Nat) (duration : Nat) : Option Nat :=
  if duration ≤ instant then some (instant - duration) else none

def hourSecs : Nat := 3600

/-- The identifier newtype of an acting party. -/
structure EntityId where
  value : String
deriving DecidableEq

/-- The timestamp lists guarded by the limiter's mutex. -/
structure RateLimiterState where
  globalActions : List Nat
  perEntity : HashMap EntityId (List Nat)
  perConversation : HashMap String (List Nat)
  perWorkspace : HashMap String (List Nat)

/-- The limiter's configured budgets. -/
structure EntityRateLimiter where
  globalMax : Nat
  perEntityMax : Nat
  perConversationMax : Nat
  perWorkspaceMax : Nat
  burstMax : Nat
  burstWindowSecs : Nat
deriving DecidableEq

/-- Which budget rejected the call. -/
inductive RateLimitError where
  | globalExhausted
  | entityExhausted (entityId : EntityId)
  | conversationExhausted (conversationId : String)
  | workspaceExhausted (workspaceId : String)
  | burstExhausted (entityId : EntityId)
deriving DecidableEq

/-- `Ok(())` or the exhausted budget. -/
abbrev Verdict := Except RateLimitError Unit

/-- The arguments of one `check_and_record_scoped` call and the instant its
critical section reads. -/
structure Call where
  now : Nat
  entityId : String
  conversationId : Option String
  workspaceId : Option String
deriving DecidableEq

/-- The state of a limiter built by `new_with_scopes`. -/
def newWithScopes : RateLimiterState := ⟨[], ∅, ∅, ∅⟩

/-- `retain(|t| *t > cutoff)`. -/
def retainAfter (cutoff : Nat) (actions : List Nat) : List Nat :=
  actions.filter (cutoff < ·)

/-- The bucket behind `entry(key).or_default()`. -/
def bucket {κ : Type} [DecidableEq κ] (buckets : HashMap κ (List Nat)) (key : κ) :
    List Nat :=
  (buckets.lookup key).getD []

/-- Retain each bucket's live instants and drop the buckets left empty. -/
def pruneBuckets {κ : Type} (buckets : HashMap κ (List Nat)) (cutoff : Nat) :
    HashMap κ (List Nat) :=
  buckets.filterMap fun _ actions =>
    let live := retainAfter cutoff actions
    if live.isEmpty then none else some live

def pruneExpiredScopeMaps (state : RateLimiterState) (cutoff : Nat) : RateLimiterState :=
  { state with
    perEntity := pruneBuckets state.perEntity cutoff
    perConversation := pruneBuckets state.perConversation cutoff
    perWorkspace := pruneBuckets state.perWorkspace cutoff }

/-- Enter a bucket, creating it when absent, and retain its live instants. -/
def enterBucket {κ : Type} [DecidableEq κ] (buckets : HashMap κ (List Nat)) (key : κ)
    (cutoff : Nat) : HashMap κ (List Nat) :=
  buckets.insert key (retainAfter cutoff (bucket buckets key))

/-- `entry(key).or_default().push(now)`. -/
def pushAction {κ : Type} [DecidableEq κ] (buckets : HashMap κ (List Nat)) (key : κ)
    (now : Nat) : HashMap κ (List Nat) :=
  buckets.insert key (bucket buckets key ++ [now])

/-- A part of the critical section: it may reject, and leaves a state either way. -/
abbrev Stage := RateLimiterState → Verdict × RateLimiterState

/-- Run the second stage on the state the first leaves, unless the first rejects. -/
def Stage.andThen (first next : Stage) : Stage := fun state =>
  match first state with
  | (.error error, left) => (.error error, left)
  | (.ok (), left) => next left

/-- Cutoff of the hourly scopes; the current instant itself when an hour cannot
be subtracted from it. -/
def hourlyCutoff (now : Nat) : Nat :=
  (checkedSub now (fromSecs hourSecs)).getD now

/-- Cutoff of the burst window. -/
def burstCutoff (limiter : EntityRateLimiter) (now : Nat) : Nat :=
  (checkedSub now (fromSecs limiter.burstWindowSecs)).getD now

/-- Forget expired instants everywhere, then compare the global budget. -/
def checkGlobal (limiter : EntityRateLimiter) (call : Call) : Stage := fun state =>
  let cutoff := hourlyCutoff call.now
  let kept := pruneExpiredScopeMaps
    { state with globalActions := retainAfter cutoff state.globalActions } cutoff
  if limiter.globalMax ≤ kept.globalActions.length then (.error .globalExhausted, kept)
  else (.ok (), kept)

/-- The workspace budget, skipped when it is zero or the key is absent. -/
def checkWorkspace (limiter : EntityRateLimiter) (call : Call) : Stage := fun state =>
  match call.workspaceId.filter fun _ => 0 < limiter.perWorkspaceMax with
  | none => (.ok (), state)
  | some key =>
    let entered := enterBucket state.perWorkspace key (hourlyCutoff call.now)
    let left := { state with perWorkspace := entered }
    if limiter.perWorkspaceMax ≤ (bucket entered key).length then
      (.error (.workspaceExhausted key), left)
    else (.ok (), left)

/-- The conversation budget, skipped when it is zero or the key is absent. -/
def checkConversation (limiter : EntityRateLimiter) (call : Call) : Stage := fun state =>
  match call.conversationId.filter fun _ => 0 < limiter.perConversationMax with
  | none => (.ok (), state)
  | some key =>
    let entered := enterBucket state.perConversation key (hourlyCutoff call.now)
    let left := { state with perConversation := entered }
    if limiter.perConversationMax ≤ (bucket entered key).length then
      (.error (.conversationExhausted key), left)
    else (.ok (), left)

/-- Judge an entity's live instants: the burst window first, then the hour. -/
def judgeEntity (limiter : EntityRateLimiter) (call : Call) (actions : List Nat) : Verdict :=
  let key : EntityId := ⟨call.entityId⟩
  if 0 < limiter.burstMax ∧ 0 < limiter.burstWindowSecs ∧
      limiter.burstMax ≤ actions.countP (burstCutoff limiter call.now < ·) then
    .error (.burstExhausted key)
  else if limiter.perEntityMax ≤ actions.length then .error (.entityExhausted key)
  else .ok ()

/-- The entity budgets, which are never skipped. -/
def checkEntity (limiter : EntityRateLimiter) (call : Call) : Stage := fun state =>
  let key : EntityId := ⟨call.entityId⟩
  let entered := enterBucket state.perEntity key (hourlyCutoff call.now)
  (judgeEntity limiter call (bucket entered key), { state with perEntity := entered })

/-- Record the instant in every applicable bucket, enforced or not. -/
def recordAction (call : Call) : Stage := fun state =>
  (.ok (), {
    globalActions := state.globalActions ++ [call.now]
    perEntity := pushAction state.perEntity ⟨call.entityId⟩ call.now
    perConversation := match call.conversationId with
      | none => state.perConversation
      | some key => pushAction state.perConversation key call.now
    perWorkspace := match call.workspaceId with
      | none => state.perWorkspace
      | some key => pushAction state.perWorkspace key call.now })

/-- One atomic call: check every scope in order, then record. -/
def checkAndRecordScoped (limiter : EntityRateLimiter) (call : Call) : Stage :=
  (checkGlobal limiter call).andThen <|
  (checkWorkspace limiter call).andThen <|
  (checkConversation limiter call).andThen <|
  (checkEntity limiter call).andThen <|
  recordAction call

/-- Successive calls, each paired with its result, and the final state. -/
def runCalls (limiter : EntityRateLimiter) :
    RateLimiterState → List Call → List (Call × Verdict) × RateLimiterState
  | state, [] => ([], state)
  | state, call :: rest =>
    let (verdict, next) := checkAndRecordScoped limiter call state
    let (results, final) := runCalls limiter next rest
    ((call, verdict) :: results, final)

/-- The calls that were answered `Ok(())`. -/
def accepted (results : List (Call × Verdict)) : List Call :=
  (results.filter fun result => result.2 matches .ok ()).map Prod.fst

/-- The instants of successive calls never decrease. -/
def NonDecreasing (calls : List Call) : Prop :=
  calls.Pairwise fun earlier later => earlier.now ≤ later.now

instance (calls : List Call) : Decidable (NonDecreasing calls) :=
  inferInstanceAs (Decidable (calls.Pairwise _))

theorem checkedSub_getD {instant duration : Nat} (fits : duration ≤ instant) :
    (checkedSub instant duration).getD instant = instant - duration := by
  rw [checkedSub, if_pos fits, Option.getD_some]

theorem checkedSub_getD_early {instant duration : Nat} (early : instant < duration) :
    (checkedSub instant duration).getD instant = instant := by
  rw [checkedSub, if_neg (Nat.not_le.mpr early), Option.getD_none]

theorem stage_andThen_assoc (first next last : Stage) :
    (first.andThen next).andThen last = first.andThen (next.andThen last) := by
  funext state
  simp only [Stage.andThen]
  cases first state with
  | mk verdict left => cases verdict <;> rfl

theorem stage_andThen_ok {first next : Stage} {state left : RateLimiterState}
    (passed : first state = (.ok (), left)) : first.andThen next state = next left := by
  simp [Stage.andThen, passed]

theorem stage_andThen_error {first next : Stage} {state left : RateLimiterState}
    {error : RateLimitError} (rejected : first state = (.error error, left)) :
    first.andThen next state = (.error error, left) := by
  simp [Stage.andThen, rejected]

@[simp] theorem bucket_prune {κ : Type} [DecidableEq κ] (buckets : HashMap κ (List Nat))
    (cutoff : Nat) (key : κ) :
    bucket (pruneBuckets buckets cutoff) key = retainAfter cutoff (bucket buckets key) := by
  simp only [bucket, pruneBuckets, HashMap.lookup_filterMap]
  cases buckets.lookup key with
  | none => rfl
  | some actions =>
    by_cases empty : retainAfter cutoff actions = [] <;> simp [empty]

@[simp] theorem bucket_insert {κ : Type} [DecidableEq κ] (buckets : HashMap κ (List Nat))
    (key other : κ) (actions : List Nat) :
    bucket (buckets.insert key actions) other =
      if other = key then actions else bucket buckets other := by
  by_cases same : other = key
  · subst other
    simp [bucket]
  · simp [bucket, AList.lookup_insert_ne same, same]

@[simp] theorem bucket_empty {κ : Type} [DecidableEq κ] (key : κ) :
    bucket (∅ : HashMap κ (List Nat)) key = [] := by
  simp [bucket]

/-- An earlier prune with an older cutoff is invisible to a later one. -/
theorem retainAfter_absorb {older cutoff : Nat} (order : older ≤ cutoff) (actions : List Nat) :
    retainAfter cutoff (retainAfter older actions) = retainAfter cutoff actions := by
  simp only [retainAfter, List.filter_filter]
  apply List.filter_congr
  intro instant _
  rw [Bool.eq_iff_iff]
  simp only [Bool.and_eq_true, decide_eq_true_eq]
  omega

@[simp] theorem retainAfter_append (cutoff : Nat) (earlier later : List Nat) :
    retainAfter cutoff (earlier ++ later) =
      retainAfter cutoff earlier ++ retainAfter cutoff later :=
  List.filter_append ..

end Asterel.Trackers
