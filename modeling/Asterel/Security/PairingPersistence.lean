import Asterel.Library.Transitions
import Asterel.Security.Pairing

/-!
# Which tokens survive a restart

Every operation that changes the token map persists it afterwards: it takes a
snapshot under the read lock and writes it to the file later, outside any lock.
A write replaces the whole file and is one step here; writes succeed.

The last write wins, whatever it snapshotted. A snapshot taken before a
revocation and written after it brings the revoked tokens back on the next
start. Reloading gives exactly the tokens in memory after every run that never
writes an older snapshot over a newer one.
-/

namespace Asterel.Pairing

open Library List Transitions HashMap
open Library.Transitions (parties_perm advanced_perm)

/-- Where one call of `persist_tokens` stands. The snapshot carries the number of
changes made before it was taken. -/
inductive PersistPhase where
  | changed
  | snapshotted (tokens : Tokens) (version : Nat)

/-- The guard, its file and the calls that still have to persist. The numbers of
changes behind the map and behind the file are bookkeeping of the model; no step
reads them. -/
structure Persisting where
  guard : PairingGuard
  file : Option (List PersistedPairingToken)
  persists : List PersistPhase
  version : Nat
  fileVersion : Nat

/-- The constructor persists what it loaded before anyone shares the guard. -/
def Persisting.new (guard : PairingGuard) : Persisting :=
  ⟨guard, some (storePairingTokens guard.pairedTokens), [], 0, 0⟩

/-- One step of a call that changes or persists the token map. Cleaning up stands
for the slow path of `is_accepted_token`, for `is_paired` and for `tokens`, which
all drop expired tokens and persist if that changed the map. -/
inductive PersistAction where
  | pair (submitted tokenHash : String) (issuedAt : Nat)
  | cleanUp (now : Nat)
  | revokeAll
  | snapshot (index : Nat)
  | write (index : Nat)

/-- A change of the map, which its caller goes on to persist. -/
def Persisting.change (state : Persisting) (guard : PairingGuard) : Persisting :=
  { state with
    guard := guard
    persists := state.persists ++ [.changed]
    version := state.version + 1 }

/-- `try_pair` with the right code stores a token; the code is consumed under the
lock it holds until it returns. -/
def Persisting.pair (state : Persisting) (submitted tokenHash : String) (issuedAt : Nat) :
    Persisting :=
  if state.guard.pairingCode.any fun expected => codeMatches submitted expected then
    state.change { state.guard with
      pairedTokens := state.guard.pairedTokens.insert tokenHash issuedAt
      pairingCode := none }
  else state

def Persisting.cleanUp (state : Persisting) (now : Nat) : Persisting :=
  let tokens := retainNonExpiredTokens state.guard.pairedTokens now state.guard.tokenTtlSecs
  if tokens.len ≠ state.guard.pairedTokens.len then
    state.change { state.guard with pairedTokens := tokens }
  else { state with guard := { state.guard with pairedTokens := tokens } }

def Persisting.revokeAll (state : Persisting) : Persisting :=
  state.change { state.guard with pairedTokens := ∅ }

def persistStep (state : Persisting) : PersistAction → Option Persisting
  | .pair submitted tokenHash issuedAt => some (state.pair submitted tokenHash issuedAt)
  | .cleanUp now => some (state.cleanUp now)
  | .revokeAll => some state.revokeAll
  | .snapshot index =>
    match state.persists[index]? with
    | some .changed =>
      some { state with
        persists := state.persists.set index
          (.snapshotted state.guard.pairedTokens state.version) }
    | _ => none
  | .write index =>
    match state.persists[index]? with
    | some (.snapshotted tokens version) =>
      some { state with
        file := some (storePairingTokens tokens)
        fileVersion := version
        persists := state.persists.eraseIdx index }
    | _ => none

/-- Reloading the file gives the tokens in memory that have a proper hash. -/
def ReloadsTokens (state : Persisting) : Prop :=
  ∀ hash, (loadPairingTokens state.file).lookup hash =
    if isTokenHash hash then state.guard.pairedTokens.lookup hash else none

/-- No write replaces a later snapshot in the file. -/
def WritesInOrder (state : Persisting) : PersistAction → Prop
  | .write index =>
    match state.persists[index]? with
    | some (.snapshotted _ version) => state.fileVersion ≤ version
    | _ => True
  | _ => True

instance (state : Persisting) (action : PersistAction) :
    Decidable (WritesInOrder state action) := by
  cases action with
  | write index =>
    simp only [WritesInOrder]
    split
    · infer_instance
    · infer_instance
  | _ => exact inferInstanceAs (Decidable True)

/-- The entries read back are, in some order, those with a proper hash. -/
theorem loaded_perm (tokens : Tokens) :
    (((storePairingTokens tokens).filter fun record => isTokenHash record.hash).map
      fun record => (⟨record.hash, record.issuedAt⟩ : Σ _ : String, Nat)).Perm
      (tokens.retain fun hash _ => isTokenHash hash).entries := by
  rw [entries_retain]
  refine (((mergeSort_perm _ _).filter _).map _).trans ?_
  rw [filter_map, map_map]
  exact .of_eq (map_id _)

/-- Loading what was stored keeps the tokens with a proper hash. -/
theorem load_store (tokens : Tokens) (hash : String) :
    (loadPairingTokens (some (storePairingTokens tokens))).lookup hash =
      if isTokenHash hash then tokens.lookup hash else none := by
  have loaded := loaded_perm tokens
  have kept := (tokens.retain fun hash _ => isTokenHash hash).nodupKeys
  have distinct := (perm_nodupKeys loaded).mpr kept
  have lookups : (loadPairingTokens (some (storePairingTokens tokens))).lookup hash =
      (tokens.retain fun hash _ => isTokenHash hash).lookup hash := by
    rw [loadPairingTokens, Option.getD_some, lookup_collect distinct]
    exact perm_dlookup hash distinct loaded
  rw [lookups, lookup_retain]
  cases proper : isTokenHash hash <;> cases tokens.lookup hash <;> simp

/-- The change a pending call will bring to the file at least. -/
def PersistPhase.Reaches (version : Nat) : PersistPhase → Prop
  | .changed => True
  | .snapshotted _ taken => taken = version

/-- A snapshot is never ahead of the map, and shows the map if nothing changed
since. -/
def PersistPhase.Shows (state : Persisting) : PersistPhase → Prop
  | .changed => True
  | .snapshotted tokens taken =>
    taken ≤ state.version ∧ (taken = state.version → tokens = state.guard.pairedTokens)

/-- The latest change is in the file or some call is still going to persist it. -/
structure Tracked (state : Persisting) : Prop where
  pending : state.fileVersion = state.version ∨
    ∃ phase ∈ state.persists, phase.Reaches state.version
  shows : ∀ phase ∈ state.persists, phase.Shows state
  behind : state.fileVersion ≤ state.version
  file : state.fileVersion = state.version →
    state.file = some (storePairingTokens state.guard.pairedTokens)

theorem tracked_new (guard : PairingGuard) : Tracked (Persisting.new guard) :=
  ⟨.inl rfl, fun _ member => (not_mem_nil member).elim, Nat.le_refl 0, fun _ => rfl⟩

section Steps

variable {state next : Persisting}

/-- A change leaves its own caller to persist it. -/
theorem Tracked.change (tracked : Tracked state) (guard : PairingGuard) :
    Tracked (state.change guard) := by
  have behind := tracked.behind
  refine ⟨.inr ⟨.changed, by simp [Persisting.change], trivial⟩, ?_, ?_, ?_⟩
  · intro phase member
    rcases mem_append.mp member with earlier | new
    · have shows := tracked.shows phase earlier
      cases phase with
      | changed => trivial
      | snapshotted tokens taken =>
        have before := shows.1
        simp only [PersistPhase.Shows, Persisting.change]
        exact ⟨by omega, fun same => by omega⟩
    · rw [mem_singleton.mp new]
      trivial
  · simp only [Persisting.change]
    omega
  · intro same
    simp only [Persisting.change] at same
    omega

/-- Dropping nothing leaves the map as it was. -/
theorem retained_eq {tokens : Tokens} {now tokenTtlSecs : Nat}
    (same : (retainNonExpiredTokens tokens now tokenTtlSecs).len = tokens.len) :
    retainNonExpiredTokens tokens now tokenTtlSecs = tokens := by
  apply AList.ext
  rw [retainNonExpiredTokens, len, entries_retain, len] at same
  rw [retainNonExpiredTokens, entries_retain]
  exact filter_sublist.eq_of_length same

variable (tracked : Tracked state)
include tracked

theorem Tracked.cleanUp (now : Nat) : Tracked (state.cleanUp now) := by
  rw [Persisting.cleanUp]
  dsimp only
  split_ifs with changed
  · exact tracked.change _
  · rw [retained_eq (not_not.mp changed)]
    exact tracked

/-- A snapshot taken now shows the map. -/
theorem Tracked.snapshot {index : Nat} (found : state.persists[index]? = some .changed) :
    Tracked { state with
      persists := state.persists.set index
        (.snapshotted state.guard.pairedTokens state.version) } := by
  have advanced := advanced_perm found (.snapshotted state.guard.pairedTokens state.version)
  have others := parties_perm found
  refine ⟨.inr ⟨_, advanced.mem_iff.mpr (mem_cons_self), rfl⟩, ?_, tracked.behind, tracked.file⟩
  intro phase member
  rcases mem_cons.mp (advanced.mem_iff.mp member) with rfl | other
  · exact ⟨Nat.le_refl _, fun _ => rfl⟩
  · exact tracked.shows phase (others.mem_iff.mpr (mem_cons_of_mem _ other))

/-- A write in order brings its snapshot to the file; the latest change is then
in the file or still pending. -/
theorem Tracked.write {index version : Nat} {tokens : Tokens}
    (found : state.persists[index]? = some (.snapshotted tokens version))
    (inOrder : state.fileVersion ≤ version) :
    Tracked { state with
      file := some (storePairingTokens tokens)
      fileVersion := version
      persists := state.persists.eraseIdx index } := by
  have others := parties_perm found
  obtain ⟨before, latest⟩ := tracked.shows _ (mem_of_getElem? found)
  refine ⟨?_, ?_, before, ?_⟩
  · by_cases current : version = state.version
    · exact .inl current
    · rcases tracked.pending with written | ⟨phase, member, reaches⟩
      · omega
      · rcases mem_cons.mp (others.mem_iff.mp member) with rfl | other
        · exact absurd reaches current
        · exact .inr ⟨phase, other, reaches⟩
  · intro phase member
    exact tracked.shows phase (others.mem_iff.mpr (mem_cons_of_mem _ member))
  · intro current
    rw [latest current]

/-- Every step in order keeps the file tracked. -/
theorem Tracked.step {action : PersistAction}
    (inOrder : WritesInOrder state action) (stepped : persistStep state action = some next) :
    Tracked next := by
  cases action with
  | pair submitted tokenHash issuedAt =>
    cases stepped
    rw [Persisting.pair]
    split_ifs
    · exact tracked.change _
    · exact tracked
  | cleanUp now =>
    cases stepped
    exact tracked.cleanUp now
  | revokeAll =>
    cases stepped
    exact tracked.change _
  | snapshot index =>
    rw [persistStep] at stepped
    split at stepped
    · cases stepped
      exact tracked.snapshot ‹_›
    · cases stepped
  | write index =>
    rw [persistStep] at stepped
    split at stepped
    · rename_i tokens version found
      cases stepped
      rw [WritesInOrder, found] at inOrder
      exact tracked.write found inOrder
    · cases stepped

end Steps

section Runs

variable (requirePairing : Bool) (existingTokens : List String) (tokenTtlSecs : Option Nat)
  (file : Option (List PersistedPairingToken)) (now : Nat) (generatedCode : String)

/-- A newly constructed guard with its file. -/
def newPersisting : Persisting :=
  .new (newWithStorage requirePairing existingTokens tokenTtlSecs file now generatedCode)

/-- In every run that writes snapshots in order, once every call has returned,
reloading the file gives the tokens in memory. -/
theorem reloads_tokens (actions : List PersistAction) (final : Persisting)
    (inOrder : Transitions.Guarded persistStep WritesInOrder (newPersisting requirePairing
      existingTokens tokenTtlSecs file now generatedCode) actions)
    (ran : run persistStep (newPersisting requirePairing existingTokens tokenTtlSecs
      file now generatedCode) actions = some final)
    (returned : final.persists = []) : ReloadsTokens final := by
  have tracked : Tracked final :=
    run_invariant (fun tracked => tracked.step) (tracked_new _) inOrder ran
  have current : final.fileVersion = final.version := by
    rcases tracked.pending with written | ⟨phase, member, _⟩
    · exact written
    · rw [returned] at member
      cases member
  intro hash
  rw [tracked.file current]
  exact load_store final.guard.pairedTokens hash

end Runs

/-- A pairing, an expiry and a revocation, each persisted before the next write. -/
theorem reloads_tokens_in_order :
    ∃ final, run persistStep (newPersisting true [] none none 0 "123456")
        [.pair "123456" "hash" 10, .snapshot 0, .write 0, .cleanUp 3000000, .revokeAll,
          .snapshot 1, .snapshot 0, .write 0, .write 0] = some final ∧
      ReloadsTokens final := by
  obtain ⟨final, ran, returned⟩ := (Option.any_eq_true _ _).mp (show ((run persistStep
      (newPersisting true [] none none 0 "123456")
      [.pair "123456" "hash" 10, .snapshot 0, .write 0, .cleanUp 3000000, .revokeAll,
        .snapshot 1, .snapshot 0, .write 0, .write 0]).any fun final =>
          final.persists.isEmpty) = true by decide)
  exact ⟨final, ran, reloads_tokens true [] none none 0 "123456" _ final (by decide) ran
    (List.isEmpty_iff.mp returned)⟩

/-- The hash of a paired token. -/
def pairedHash : String := String.ofList (replicate 64 'a')

/-- A pairing that writes its snapshot after a revocation brings its token back. -/
theorem revoked_token_reloaded :
    ¬ ∀ (actions : List PersistAction) (final : Persisting),
      run persistStep (newPersisting true [] none none 0 "123456") actions = some final →
        final.persists = [] → ReloadsTokens final := by
  intro reloads
  have observed : (run persistStep (newPersisting true [] none none 0 "123456")
      [.pair "123456" pairedHash 10, .snapshot 0, .revokeAll, .snapshot 1, .write 1,
        .write 0]).map (fun final => (final.file, final.persists, final.guard.pairedTokens)) =
      some (some (storePairingTokens (AList.singleton pairedHash 10)), [], ∅) := rfl
  obtain ⟨final, ran, shown⟩ := Option.map_eq_some_iff.mp observed
  simp only [Prod.mk.injEq] at shown
  obtain ⟨file, returned, tokens⟩ := shown
  have loaded := reloads _ final ran returned pairedHash
  rw [file, tokens, load_store] at loaded
  revert loaded
  decide

end Asterel.Pairing
