import Asterel.Contracts.Tenant

/-!
# Approving self-amendment candidates

Candidates wait in a bounded store until an operator approves them. An approval
looks up the latest candidate of an id and a tenant, has it appended to memory and
then removes every candidate of that id and tenant. The three are separate steps,
and a failed append leaves the store as it is.

Two approvals may find the same candidate and append it twice, and a removal drops
what has been recorded under the id besides the candidate that was found. The exact
condition on a run names those two steps. It is met by every run in which no two
approvals of one id and tenant overlap and no candidate is recorded while a
different one of its id and tenant is stored or under approval.
-/

namespace Asterel.SelfAmendment

open Library Transitions List
open Asterel.Permissions (TenantPolicyContext trimmed)

def maxReviewScopeMultiplier : Nat := 64

/-- A candidate; the kind, the status and the privacy have one value each. -/
structure SelfAmendmentCandidate where
  candidateId : String
  tenantId : Option String
  personId : String
  surface : String
  evidenceIds : List String
  reason : String
  proposedAmendment : String
deriving DecidableEq

/-- A candidate in the store. The serial is bookkeeping of the model. -/
structure Recorded where
  candidate : SelfAmendmentCandidate
  serial : Nat
deriving DecidableEq

section Store

def candidateMatchesScope (candidate : SelfAmendmentCandidate) (candidateId : String)
    (tenantId : Option String) : Bool :=
  candidate.candidateId = candidateId && candidate.tenantId = tenantId

/-- Make room in the workspace and for the tenant, then append. -/
def recordOne (capacity : Nat) (store : List Recorded) (entry : Recorded) : List Recorded :=
  let workspaceHardCapacity := max (min (capacity * maxReviewScopeMultiplier) (2 ^ 64 - 1)) capacity
  let store := store.drop (store.length + 1 - workspaceHardCapacity)
  let sameTenant : Recorded → Bool := fun existing =>
    existing.candidate.tenantId = entry.candidate.tenantId
  let store := if capacity ≤ store.countP sameTenant then store.eraseP sameTenant else store
  store ++ [entry]

def numbered (serial : Nat) (candidates : List SelfAmendmentCandidate) : List Recorded :=
  (candidates.zipIdx serial).map fun numbered => ⟨numbered.1, numbered.2⟩

def recordSelfAmendmentCandidates (capacity : Nat) (store : List Recorded) (serial : Nat)
    (candidates : List SelfAmendmentCandidate) : List Recorded :=
  if candidates = [] ∨ capacity = 0 then store
  else (numbered serial candidates).foldl (recordOne capacity) store

def latestCandidateForTenant (store : List Recorded) (candidateId : String)
    (tenantId : Option String) : Option Recorded :=
  store.reverse.find? fun entry => candidateMatchesScope entry.candidate candidateId tenantId

/-- The latest candidate and what stays; all of the id and tenant are taken out. -/
def takeLatestCandidateForTenant (store : List Recorded) (candidateId : String)
    (tenantId : Option String) : Option Recorded × List Recorded :=
  ((store.filter fun entry => candidateMatchesScope entry.candidate candidateId tenantId).getLast?,
    store.filter fun entry => !candidateMatchesScope entry.candidate candidateId tenantId)

end Store

section Arguments

/-- `char::is_control`. -/
def isControl (ch : Char) : Bool := ch.val < 32 || (127 ≤ ch.val && ch.val < 160)

/-- One space for every run of spaces. -/
def collapseSpaces : List Char → List Char
  | [] => []
  | first :: rest =>
    if first = ' ' ∧ rest.head? = some ' ' then collapseSpaces rest
    else first :: collapseSpaces rest

def sanitizePromptLine (value : String) : String :=
  trimmed (String.ofList (collapseSpaces
    (value.toList.map fun ch => if isControl ch then ' ' else ch)))

def approvalTenantScope (policyContext : TenantPolicyContext) :
    Except String (Option String) :=
  if !policyContext.tenantModeEnabled then .ok none
  else
    match policyContext.tenantId.filter fun tenantId => trimmed tenantId ≠ "" with
    | some tenantId => .ok (some tenantId)
    | none => .error "tenant scoped approval requires tenant_id"

end Arguments

section Steps

/-- An approval between its lookup and its removal. -/
structure ApprovalCall where
  candidateId : String
  tenantId : Option String
  found : Recorded
  persisted : Bool
  inScope : candidateMatchesScope found.candidate candidateId tenantId

/-- The store and the approvals under way. The next serial, the appended candidates
and the removed ones, each with the candidate its approval appended, are bookkeeping
of the model. -/
structure Review where
  store : List Recorded
  calls : List ApprovalCall
  nextSerial : Nat
  appended : List Recorded
  removed : List (Recorded × SelfAmendmentCandidate)

def Review.new : Review := ⟨[], [], 0, [], []⟩

inductive ReviewAction where
  | record (candidates : List SelfAmendmentCandidate)
  | lookup (policyContext : TenantPolicyContext) (candidateId reason : String)
  | persist (index : Nat) (saved : Except String Unit)
  | remove (index : Nat)

theorem inScope_of_latest {store : List Recorded} {candidateId : String} {tenantId : Option String}
    {entry : Recorded} (found : latestCandidateForTenant store candidateId tenantId = some entry) :
    candidateMatchesScope entry.candidate candidateId tenantId := by
  rw [latestCandidateForTenant] at found
  simpa using find?_some found

def Review.record (capacity : Nat) (state : Review) (candidates : List SelfAmendmentCandidate) :
    Review :=
  { state with
    store := recordSelfAmendmentCandidates capacity state.store state.nextSerial candidates
    nextSerial := state.nextSerial + candidates.length }

/-- An approval with blank arguments, without a tenant or without a candidate ends
here. -/
def Review.lookup (state : Review) (policyContext : TenantPolicyContext)
    (candidateId reason : String) : Review :=
  let candidateId := trimmed candidateId
  if candidateId = "" ∨ trimmed (sanitizePromptLine reason) = "" then state
  else
    match approvalTenantScope policyContext with
    | .error _ => state
    | .ok tenantId =>
      match found : latestCandidateForTenant state.store candidateId tenantId with
      | none => state
      | some entry =>
        { state with
          calls := state.calls ++ [⟨candidateId, tenantId, entry, false, inScope_of_latest found⟩] }

/-- The approval ends when the candidate cannot be appended. -/
def Review.persist (state : Review) (index : Nat) (call : ApprovalCall)
    (saved : Except String Unit) : Review :=
  match saved with
  | .error _ => { state with calls := state.calls.eraseIdx index }
  | .ok () =>
    { state with
      calls := state.calls.set index { call with persisted := true }
      appended := state.appended ++ [call.found] }

def Review.remove (state : Review) (index : Nat) (call : ApprovalCall) : Review :=
  let taken := state.store.filter fun entry =>
    candidateMatchesScope entry.candidate call.candidateId call.tenantId
  { state with
    store := (takeLatestCandidateForTenant state.store call.candidateId call.tenantId).2
    calls := state.calls.eraseIdx index
    removed := state.removed ++ taken.map fun entry => (entry, call.found.candidate) }

def reviewStep (capacity : Nat) (state : Review) : ReviewAction → Option Review
  | .record candidates => some (state.record capacity candidates)
  | .lookup policyContext candidateId reason => some (state.lookup policyContext candidateId reason)
  | .persist index saved =>
    match state.calls[index]? with
    | some call => if call.persisted then none else some (state.persist index call saved)
    | none => none
  | .remove index =>
    match state.calls[index]? with
    | some call => if call.persisted then some (state.remove index call) else none
    | none => none

end Steps

section Exactness

variable {index : Nat} {action : ReviewAction}

/-- No recorded candidate is appended twice, and a removed candidate is the one that
was appended. -/
structure SingleUse (state : Review) : Prop where
  once : state.appended.Nodup
  approved : ∀ removal ∈ state.removed, removal.1.candidate = removal.2

/-- No approval appends what another one has appended, and a removal takes nothing
but copies of the candidate that was found. -/
def ApprovesOnce (state : Review) : ReviewAction → Prop
  | .persist index saved => saved = .ok () → ∀ call, state.calls[index]? = some call →
    call.persisted = false → call.found ∉ state.appended
  | .remove index => ∀ call, state.calls[index]? = some call → call.persisted = true →
    ∀ entry ∈ state.store, candidateMatchesScope entry.candidate call.candidateId call.tenantId →
        entry.candidate = call.found.candidate
  | _ => True

variable {capacity : Nat} {state next : Review}

/-- A lookup changes nothing or begins an approval of a stored candidate. -/
theorem lookup_cases (state : Review) (policyContext : TenantPolicyContext)
    (candidateId reason : String) :
    state.lookup policyContext candidateId reason = state ∨
      ∃ call : ApprovalCall, call.candidateId = trimmed candidateId ∧
        approvalTenantScope policyContext = .ok call.tenantId ∧ call.found ∈ state.store ∧
        call.persisted = false ∧
        state.lookup policyContext candidateId reason =
          { state with calls := state.calls ++ [call] } := by
  rw [Review.lookup]
  split
  · exact .inl rfl
  · split
    · exact .inl rfl
    · next tenantId resolved =>
      split
      · exact .inl rfl
      · next entry found =>
        have stored : entry ∈ state.store := by
          rw [latestCandidateForTenant] at found
          exact mem_reverse.mp (List.mem_of_find?_eq_some found)
        exact .inr ⟨⟨_, tenantId, entry, false, inScope_of_latest found⟩, rfl, resolved, stored, rfl,
          rfl⟩

theorem persist_cases {saved : Except String Unit}
    (stepped : reviewStep capacity state (.persist index saved) = some next) :
    ∃ call, state.calls[index]? = some call ∧ call.persisted = false ∧
      next = state.persist index call saved := by
  simp only [reviewStep] at stepped
  split at stepped
  next call under =>
    split_ifs at stepped with persisted
    cases stepped
    exact ⟨call, under, by simpa using persisted, rfl⟩
  next => cases stepped

theorem remove_cases (stepped : reviewStep capacity state (.remove index) = some next) :
    ∃ call, state.calls[index]? = some call ∧ call.persisted = true ∧
      next = state.remove index call := by
  simp only [reviewStep] at stepped
  split at stepped
  next call under =>
    split_ifs at stepped with persisted
    cases stepped
    exact ⟨call, under, persisted, rfl⟩
  next => cases stepped

theorem lookup_logs (state : Review) (policyContext : TenantPolicyContext)
    (candidateId reason : String) :
    (state.lookup policyContext candidateId reason).appended = state.appended ∧
      (state.lookup policyContext candidateId reason).removed = state.removed := by
  rcases lookup_cases state policyContext candidateId reason with
    unchanged | ⟨call, _, _, _, _, begun⟩
  · rw [unchanged]
    exact ⟨rfl, rfl⟩
  · rw [begun]
    exact ⟨rfl, rfl⟩

theorem persist_singleUse_iff (single : SingleUse state) (index : Nat) (call : ApprovalCall) :
    SingleUse (state.persist index call (.ok ())) ↔ call.found ∉ state.appended := by
  constructor
  · intro after
    have distinct := after.once
    rw [Review.persist, nodup_append_comm, singleton_append, nodup_cons] at distinct
    exact distinct.1
  · intro unused
    refine ⟨?_, single.approved⟩
    rw [Review.persist, nodup_append_comm, singleton_append, nodup_cons]
    exact ⟨unused, single.once⟩

theorem remove_singleUse_iff (single : SingleUse state) (index : Nat) (call : ApprovalCall) :
    SingleUse (state.remove index call) ↔ ∀ entry ∈ state.store,
        candidateMatchesScope entry.candidate call.candidateId call.tenantId →
          entry.candidate = call.found.candidate := by
  constructor
  · intro after entry member inScope
    exact after.approved (entry, call.found.candidate) (mem_append_right _
      (mem_map_of_mem (mem_filter.mpr ⟨member, inScope⟩)))
  · intro copies
    refine ⟨single.once, ?_⟩
    intro removal member
    rcases mem_append.mp member with earlier | now
    · exact single.approved removal earlier
    · obtain ⟨entry, taken, rfl⟩ := mem_map.mp now
      obtain ⟨stored, inScope⟩ := mem_filter.mp taken
      exact copies entry stored inScope

/-- A step keeps the property exactly if it meets the condition. -/
theorem step_singleUse_iff (single : SingleUse state)
    (stepped : reviewStep capacity state action = some next) :
    SingleUse next ↔ ApprovesOnce state action := by
  cases action with
  | record candidates =>
    cases stepped
    exact iff_of_true ⟨single.once, single.approved⟩ trivial
  | lookup policyContext candidateId reason =>
    rw [reviewStep, Option.some.injEq] at stepped
    subst stepped
    obtain ⟨appended, removed⟩ := lookup_logs state policyContext candidateId reason
    refine iff_of_true ⟨?_, ?_⟩ trivial
    · rw [appended]
      exact single.once
    · rw [removed]
      exact single.approved
  | persist index saved =>
    obtain ⟨call, under, unpersisted, rfl⟩ := persist_cases stepped
    cases saved with
    | error error => exact iff_of_true ⟨single.once, single.approved⟩ nofun
    | ok _ =>
      rw [persist_singleUse_iff single, ApprovesOnce]
      constructor
      · intro unused _ other same _
        cases under.symm.trans same
        exact unused
      · intro unused
        exact unused rfl call under unpersisted
  | remove index =>
    obtain ⟨call, under, persisted, rfl⟩ := remove_cases stepped
    rw [remove_singleUse_iff single, ApprovesOnce]
    constructor
    · intro copies other same _
      cases under.symm.trans same
      exact copies
    · intro copies
      exact copies call under persisted

/-- What cannot be taken meets the condition. -/
theorem approvesOnce_of_disabled
    (stopped : reviewStep capacity state action = none) : ApprovesOnce state action := by
  cases action with
  | record candidates => cases stopped
  | lookup policyContext candidateId reason => cases stopped
  | persist index saved =>
    intro _ call under unpersisted
    simp [reviewStep, under, unpersisted] at stopped
  | remove index =>
    intro call under persisted
    simp [reviewStep, under, persisted] at stopped

theorem singleUse_new : SingleUse Review.new := by constructor <;> simp [Review.new]

end Exactness

section Orderly

variable {call : ApprovalCall} {store : List Recorded} {candidates : List SelfAmendmentCandidate}
  {index : Nat} {entry : Recorded} {candidateId : String}

/-- What approvals name candidates by. -/
def SelfAmendmentCandidate.key (candidate : SelfAmendmentCandidate) : String × Option String :=
  (candidate.candidateId, candidate.tenantId)

def ApprovalCall.key (call : ApprovalCall) : String × Option String :=
  (call.candidateId, call.tenantId)

/-- No approval starts while another one of its id and tenant is under way, and no
candidate is recorded while a different one of its id and tenant is there. -/
def Undisturbed (state : Review) : ReviewAction → Prop
  | .record candidates => ∀ candidate ∈ candidates,
    (∀ other ∈ candidates, other.key = candidate.key → other = candidate) ∧
      (∀ entry ∈ state.store, entry.candidate.key = candidate.key → entry.candidate = candidate) ∧
      ∀ call ∈ state.calls, call.key = candidate.key → call.found.candidate = candidate
  | .lookup policyContext candidateId _ => ∀ tenantId,
    approvalTenantScope policyContext = .ok tenantId →
      ∀ call ∈ state.calls, call.key ≠ (trimmed candidateId, tenantId)
  | _ => True

/-- Candidates of one id and tenant are copies, there is one approval for them at a
time, and an appended candidate that is still stored is about to be removed. -/
structure Orderly (state : Review) : Prop where
  known : ∀ entry, entry ∈ state.store ∨ entry ∈ state.appended ∨
    (∃ call ∈ state.calls, call.found = entry) → entry.serial < state.nextSerial
  oneCall : (state.calls.map ApprovalCall.key).Nodup
  copies : ∀ entry ∈ state.store, ∀ other ∈ state.store,
    entry.candidate.key = other.candidate.key → entry.candidate = other.candidate
  current : ∀ call ∈ state.calls, ∀ entry ∈ state.store,
    entry.candidate.key = call.key → entry.candidate = call.found.candidate
  unused : ∀ call ∈ state.calls, call.persisted = false → call.found ∉ state.appended
  leaving : ∀ entry ∈ state.store, entry ∈ state.appended →
    ∃ call ∈ state.calls, call.persisted = true ∧ call.key = entry.candidate.key

theorem matchesScope_iff {candidate : SelfAmendmentCandidate} {tenantId : Option String} :
    candidateMatchesScope candidate candidateId tenantId ↔ candidate.key = (candidateId, tenantId) := by
  simp [candidateMatchesScope, SelfAmendmentCandidate.key]

theorem ApprovalCall.found_key (call : ApprovalCall) : call.found.candidate.key = call.key :=
  matchesScope_iff.mp call.inScope

theorem mem_recordOne {capacity : Nat} {other : Recorded}
    (member : other ∈ recordOne capacity store entry) : other ∈ store ∨ other = entry := by
  rw [recordOne] at member
  rcases mem_append.mp member with kept | new
  · split_ifs at kept
    · exact .inl (mem_of_mem_drop (mem_of_mem_eraseP kept))
    · exact .inl (mem_of_mem_drop kept)
  · exact .inr (mem_singleton.mp new)

/-- Recording adds the candidates under new serials and may evict stored ones. -/
theorem mem_recordSelfAmendmentCandidates {capacity : Nat} {serial : Nat}
    (member : entry ∈ recordSelfAmendmentCandidates capacity store serial candidates) :
    entry ∈ store ∨ entry.candidate ∈ candidates ∧ serial ≤ entry.serial ∧
        entry.serial < serial + candidates.length := by
  have folded : ∀ (entries store : List Recorded), entry ∈ entries.foldl (recordOne capacity) store →
      entry ∈ store ∨ entry ∈ entries := by
    intro entries
    induction entries with
    | nil => exact fun store member => .inl member
    | cons first rest ih =>
      intro store member
      rcases ih _ member with stored | later
      · rcases mem_recordOne stored with earlier | same
        · exact .inl earlier
        · exact .inr (mem_cons.mpr (.inl same))
      · exact .inr (mem_cons_of_mem _ later)
  rw [recordSelfAmendmentCandidates] at member
  split_ifs at member
  · exact .inl member
  · rcases folded _ _ member with stored | new
    · exact .inl stored
    · obtain ⟨⟨candidate, index⟩, listed, rfl⟩ := mem_map.mp new
      obtain ⟨lower, upper, same⟩ := mem_zipIdx listed
      refine .inr ⟨?_, lower, upper⟩
      rw [same]
      exact getElem_mem _

variable {capacity : Nat} {state : Review}

section

variable (orderly : Orderly state)
include orderly

theorem record_orderly (undisturbed : Undisturbed state (.record candidates)) :
    Orderly (state.record capacity candidates) := by
  have stored : ∀ entry ∈ (state.record capacity candidates).store,
      entry ∈ state.store ∨ entry.candidate ∈ candidates ∧ state.nextSerial ≤ entry.serial ∧
        entry.serial < state.nextSerial + candidates.length :=
    fun entry member => mem_recordSelfAmendmentCandidates member
  constructor
  · intro entry origin
    have grown : state.nextSerial ≤ (state.record capacity candidates).nextSerial :=
      Nat.le_add_right _ _
    rcases origin with member | logged
    · rcases stored entry member with earlier | ⟨_, _, below⟩
      · exact Nat.lt_of_lt_of_le (orderly.known entry (.inl earlier)) grown
      · exact below
    · exact Nat.lt_of_lt_of_le (orderly.known entry (.inr logged)) grown
  · exact orderly.oneCall
  · intro entry member other otherMember same
    rcases stored entry member with earlier | ⟨new, _⟩
    · rcases stored other otherMember with otherEarlier | ⟨otherNew, _⟩
      · exact orderly.copies entry earlier other otherEarlier same
      · exact (undisturbed _ otherNew).2.1 entry earlier same
    · rcases stored other otherMember with otherEarlier | ⟨otherNew, _⟩
      · exact ((undisturbed _ new).2.1 other otherEarlier same.symm).symm
      · exact (undisturbed _ otherNew).1 _ new same
  · intro call under entry member same
    rcases stored entry member with earlier | ⟨new, _⟩
    · exact orderly.current call under entry earlier same
    · exact ((undisturbed _ new).2.2 call under same.symm).symm
  · exact orderly.unused
  · intro entry member logged
    rcases stored entry member with earlier | ⟨_, above, _⟩
    · exact orderly.leaving entry earlier logged
    · have below := orderly.known entry (.inr (.inl logged))
      omega

/-- An approval of a stored candidate begins. -/
theorem begun_orderly (stored : call.found ∈ state.store) (unpersisted : call.persisted = false)
    (alone : ∀ other ∈ state.calls, other.key ≠ call.key) :
    Orderly { state with calls := state.calls ++ [call] } := by
  have calls : ∀ other ∈ state.calls ++ [call], other ∈ state.calls ∨ other = call := by
    simp
  constructor
  · rintro entry (member | logged | ⟨other, under, same⟩)
    · exact orderly.known entry (.inl member)
    · exact orderly.known entry (.inr (.inl logged))
    · rcases calls other under with earlier | new
      · exact orderly.known entry (.inr (.inr ⟨other, earlier, same⟩))
      · subst new
        exact orderly.known entry (.inl (same ▸ stored))
  · rw [map_append, nodup_append_comm]
    apply nodup_cons.mpr
    refine ⟨?_, orderly.oneCall⟩
    intro listed
    obtain ⟨other, under, same⟩ := mem_map.mp listed
    exact alone other under same
  · exact orderly.copies
  · intro other under entry member same
    rcases calls other under with earlier | new
    · exact orderly.current other earlier entry member same
    · subst new
      exact orderly.copies entry member other.found stored (same.trans other.found_key.symm)
  · intro other under waiting
    rcases calls other under with earlier | new
    · exact orderly.unused other earlier waiting
    · subst new
      intro logged
      -- An appended candidate in the store has an approval of its own under way.
      obtain ⟨another, underWay, _, same⟩ := orderly.leaving other.found stored logged
      exact alone another underWay (same.trans other.found_key)
  · intro entry member logged
    obtain ⟨other, under, persisted⟩ := orderly.leaving entry member logged
    exact ⟨other, mem_append_left _ under, persisted⟩

theorem lookup_orderly {policyContext : TenantPolicyContext}
    {reason : String} (undisturbed : Undisturbed state (.lookup policyContext candidateId reason)) :
    Orderly (state.lookup policyContext candidateId reason) := by
  rcases lookup_cases state policyContext candidateId reason with
    unchanged | ⟨call, named, resolved, stored, unpersisted, begun⟩
  · rw [unchanged]
    exact orderly
  · rw [begun]
    apply begun_orderly orderly stored unpersisted
    rw [ApprovalCall.key, named]
    exact undisturbed call.tenantId resolved

/-- The approvals under way are the one at an index and others of other keys. -/
theorem Orderly.others (under : state.calls[index]? = some call) :
    ∀ other ∈ state.calls.eraseIdx index, other ∈ state.calls ∧ other.key ≠ call.key := by
  have parties := parties_perm under
  have distinct := (parties.map ApprovalCall.key).nodup_iff.mp orderly.oneCall
  intro other member
  refine ⟨parties.mem_iff.mpr (mem_cons_of_mem _ member), ?_⟩
  intro same
  rw [map_cons, nodup_cons] at distinct
  exact distinct.1 (same ▸ mem_map_of_mem member)

/-- The approval of an appended candidate that is still stored is another one, if the
one at the index is not for it. -/
theorem Orderly.leaving_others
    (under : state.calls[index]? = some call) (stored : entry ∈ state.store)
    (logged : entry ∈ state.appended)
    (unrelated : call.persisted = true → call.key ≠ entry.candidate.key) :
    ∃ other ∈ state.calls.eraseIdx index,
      other.persisted = true ∧ other.key = entry.candidate.key := by
  obtain ⟨other, listed, persisted, same⟩ := orderly.leaving entry stored logged
  rcases mem_cons.mp ((parties_perm under).mem_iff.mp listed) with self | left
  · subst self
    exact absurd same (unrelated persisted)
  · exact ⟨other, left, persisted, same⟩

/-- An approval ends without an append, and candidates of other keys stay. -/
theorem erased_orderly (under : state.calls[index]? = some call)
    {kept : List Recorded} (removed : List (Recorded × SelfAmendmentCandidate))
    (stored : ∀ entry ∈ kept, entry ∈ state.store ∧
      (call.persisted = true → call.key ≠ entry.candidate.key)) :
    Orderly { state with store := kept, calls := state.calls.eraseIdx index, removed } := by
  have others := orderly.others under
  constructor
  · rintro entry (member | logged | ⟨other, left, same⟩)
    · exact orderly.known entry (.inl (stored entry member).1)
    · exact orderly.known entry (.inr (.inl logged))
    · exact orderly.known entry (.inr (.inr ⟨other, (others other left).1, same⟩))
  · exact orderly.oneCall.sublist ((eraseIdx_sublist _ _).map _)
  · intro entry member other otherMember
    exact orderly.copies entry (stored entry member).1 other (stored other otherMember).1
  · intro other left entry member
    exact orderly.current other (others other left).1 entry (stored entry member).1
  · intro other left
    exact orderly.unused other (others other left).1
  · intro entry member logged
    obtain ⟨before, unrelated⟩ := stored entry member
    exact orderly.leaving_others under before logged unrelated

/-- An approval appends its candidate. -/
theorem persisted_orderly
    (under : state.calls[index]? = some call) (unpersisted : call.persisted = false) :
    Orderly (state.persist index call (.ok ())) := by
  have member : call ∈ state.calls := mem_of_getElem? under
  have others := orderly.others under
  have advanced := advanced_perm under { call with persisted := true }
  have calls : ∀ other, other ∈ (state.persist index call (.ok ())).calls ↔
      other = { call with persisted := true } ∨ other ∈ state.calls.eraseIdx index := by
    intro other
    exact advanced.mem_iff.trans mem_cons
  have appended : ∀ entry ∈ (state.persist index call (.ok ())).appended,
      entry ∈ state.appended ∨ entry = call.found := by
    intro entry logged
    simpa using mem_append.mp logged
  constructor
  · rintro entry (stored | logged | ⟨other, listed, same⟩)
    · exact orderly.known entry (.inl stored)
    · rcases appended entry logged with earlier | now
      · exact orderly.known entry (.inr (.inl earlier))
      · exact orderly.known entry (.inr (.inr ⟨call, member, now.symm⟩))
    · rcases (calls other).mp listed with self | left
      · subst self
        exact orderly.known entry (.inr (.inr ⟨call, member, same⟩))
      · exact orderly.known entry (.inr (.inr ⟨other, (others other left).1, same⟩))
  · have keys := ((parties_perm under).map ApprovalCall.key).nodup_iff.mp orderly.oneCall
    exact (advanced.map ApprovalCall.key).nodup_iff.mpr keys
  · exact orderly.copies
  · intro other listed
    rcases (calls other).mp listed with self | left
    · subst self
      exact orderly.current call member
    · exact orderly.current other (others other left).1
  · intro other listed waiting
    rcases (calls other).mp listed with self | left
    · subst self
      cases waiting
    · intro logged
      rcases appended other.found logged with earlier | now
      · exact orderly.unused other (others other left).1 waiting earlier
      · have sameKey := congrArg (·.candidate.key) now
        simp only [ApprovalCall.found_key] at sameKey
        exact (others other left).2 sameKey
  · intro entry stored logged
    rcases appended entry logged with earlier | now
    · obtain ⟨other, left, leaving⟩ := orderly.leaving_others under stored earlier
        (by simp [unpersisted])
      exact ⟨other, (calls other).mpr (.inr left), leaving⟩
    · subst now
      exact ⟨_, (calls _).mpr (.inl rfl), rfl, call.found_key.symm⟩

theorem remove_orderly
    (under : state.calls[index]? = some call) : Orderly (state.remove index call) := by
  refine erased_orderly orderly under _ fun entry member => ?_
  obtain ⟨before, kept⟩ := mem_filter.mp member
  refine ⟨before, fun _ same => ?_⟩
  rw [matchesScope_iff.mpr same.symm] at kept
  cases kept

/-- An undisturbed step keeps the order of the store. -/
theorem step_orderly {next : Review} {action : ReviewAction}
    (undisturbed : Undisturbed state action)
    (stepped : reviewStep capacity state action = some next) : Orderly next := by
  cases action with
  | record candidates =>
    cases stepped
    exact record_orderly orderly undisturbed
  | lookup policyContext candidateId reason =>
    rw [reviewStep, Option.some.injEq] at stepped
    subst stepped
    exact lookup_orderly orderly undisturbed
  | persist index saved =>
    obtain ⟨call, under, unpersisted, rfl⟩ := persist_cases stepped
    cases saved with
    | error error =>
      exact erased_orderly orderly under _ fun _ member => ⟨member, by simp [unpersisted]⟩
    | ok _ => exact persisted_orderly orderly under unpersisted
  | remove index =>
    obtain ⟨call, under, _, rfl⟩ := remove_cases stepped
    exact remove_orderly orderly under

/-- In an orderly store every step meets the exact condition. -/
theorem Orderly.approvesOnce (action : ReviewAction) :
    ApprovesOnce state action := by
  cases action with
  | record candidates => trivial
  | lookup policyContext candidateId reason => trivial
  | persist index saved =>
    intro _ call under unpersisted
    exact orderly.unused call (mem_of_getElem? under) unpersisted
  | remove index =>
    intro call under _ entry stored inScope
    exact orderly.current call (mem_of_getElem? under) entry stored
      (matchesScope_iff.mp inScope)

end

theorem orderly_new : Orderly Review.new := by constructor <;> simp [Review.new]

end Orderly

/-- A candidate is appended at most once and removed only as the appended one along
the whole run exactly if no approval appends what another one has appended and every
removal takes copies of the candidate that was found. Undisturbed runs are such
runs. -/
theorem single_use_iff (capacity : Nat) (actions : List ReviewAction) :
    (Always (reviewStep capacity) SingleUse Review.new actions ↔
        Guarded (reviewStep capacity) ApprovesOnce Review.new actions) ∧
      (Guarded (reviewStep capacity) Undisturbed Review.new actions →
        Always (reviewStep capacity) SingleUse Review.new actions) := by
  constructor
  · exact @always_iff_guarded_of_invariant _ _ (reviewStep capacity) ApprovesOnce SingleUse
      (fun _ => True) approvesOnce_of_disabled (fun _ _ _ => trivial)
      (fun _ single stepped => step_singleUse_iff single stepped) _ trivial singleUse_new actions
  · refine @always_of_guarded _ _ (reviewStep capacity) Undisturbed SingleUse
      (fun state => Orderly state ∧ SingleUse state) (fun both => both.2) ?_ _
      ⟨orderly_new, singleUse_new⟩ actions
    rintro state next action ⟨orderly, single⟩ undisturbed stepped
    exact ⟨step_orderly orderly undisturbed stepped,
      (step_singleUse_iff single stepped).mpr (orderly.approvesOnce action)⟩

/-- A candidate of one tenant. -/
def repairCandidate : SelfAmendmentCandidate where
  candidateId := "self_amendment:alpha:person:discord:repair_practice"
  tenantId := some "alpha"
  personId := "person"
  surface := "discord"
  evidenceIds := ["post_turn:soul_pressure"]
  reason := "explicit correction raised repair pressure; candidate is dry-run only"
  proposedAmendment := "When corrected, acknowledge briefly."

/-- Two operators approve the candidate at the same time. -/
def approvedTwice : List ReviewAction :=
  [.record [repairCandidate],
    .lookup (Tenant.enabled "alpha") repairCandidate.candidateId "reviewed",
    .lookup (Tenant.enabled "alpha") repairCandidate.candidateId "reviewed",
    .persist 0 (.ok ()), .persist 1 (.ok ())]

/-- The candidate is appended twice. -/
theorem candidate_appended_twice :
    ¬ ∀ (capacity : Nat) (actions : List ReviewAction) (final : Review),
      run (reviewStep capacity) Review.new actions = some final → SingleUse final := by
  intro always
  have twice : ∃ final, run (reviewStep 100) Review.new approvedTwice = some final ∧
      final.appended = [⟨repairCandidate, 0⟩, ⟨repairCandidate, 0⟩] := by
    refine ⟨_, rfl, ?_⟩
    decide +kernel
  obtain ⟨final, ran, appended⟩ := twice
  have once := (always 100 approvedTwice final ran).once
  rw [appended] at once
  simp at once

end Asterel.SelfAmendment
