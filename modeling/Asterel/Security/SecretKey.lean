import Asterel.Security.Secrets

/-!
# Callers of the key file

A call reads the key file and, when there is none, creates it empty and writes a fresh
key into it. Between these steps other calls read and create, and a call can stop for
good. A call that reads the file before the key is written takes the empty text for a
key of no bytes, and one that finds the file created behind its own reading fails.
-/

namespace Asterel.Secrets

open Library

/-- Where a call stands between two of its steps. -/
inductive CallState where
  | start
  | missed
  | created
  | written
  | returned (result : Except SecretError Bytes)
  | stopped
deriving DecidableEq

section Callers

variable {ι : Type} [DecidableEq ι]
variable {caller : ι}

/-- The key file and the calls, of any number of processes and threads. -/
structure World (ι : Type) where
  keyFile : KeyFile
  calls : ι → CallState

def World.set (world : World ι) (caller : ι) (state : CallState) : World ι :=
  { world with calls := Function.update world.calls caller state }

def initialWorld : World ι := ⟨none, fun _ => .start⟩

/-- A call takes its next step, or stops for good. -/
inductive Event (ι : Type) where
  | advance (caller : ι)
  | stop (caller : ι)

/-- The next step of a call: read, create, write and return. -/
def advance (fresh : ι → Bytes) (world : World ι) (caller : ι) : Option (World ι) :=
  match world.calls caller with
  | .start =>
    match world.keyFile with
    | some hexKey => some (world.set caller (.returned (readKey hexKey)))
    | none => some (world.set caller .missed)
  | .missed =>
    match world.keyFile with
    | some _ => some (world.set caller (.returned (.error .createFailed)))
    | none => some { world.set caller .created with keyFile := some [] }
  | .created =>
    some { world.set caller .written with keyFile := some (Hex.encodeChars (fresh caller)) }
  | .written => some (world.set caller (.returned (.ok (fresh caller))))
  | .returned _ | .stopped => none

def step (fresh : ι → Bytes) (world : World ι) : Event ι → Option (World ι)
  | .advance caller => advance fresh world caller
  | .stop caller =>
    match world.calls caller with
    | .returned _ | .stopped => none
    | _ => some (world.set caller .stopped)

/-- The worlds that steps of a kind lead to from a missing key file. -/
inductive Run (fresh : ι → Bytes) (permits : World ι → Event ι → Prop) : World ι → Prop where
  | initial : Run fresh permits initialWorld
  | step {world next event} (run : Run fresh permits world) (permitted : permits world event)
      (moved : step fresh world event = some next) : Run fresh permits next

/-- Every call that has returned has the same key, and what one seals the others
open. -/
structure KeysAgree (world : World ι) : Prop where
  same : ∃ key, key.length = keyLen ∧
    ∀ caller result, world.calls caller = .returned result → result = .ok key
  readable : ∀ caller other key otherKey, world.calls caller = .returned (.ok key) →
    world.calls other = .returned (.ok otherKey) → ∀ (cipher : Cipher) (nonce : Bytes) (secret : List Char),
      cipher.Sound → nonce.length = nonceLen → secret ≠ [] →
      ∃ blob, sealWith cipher key nonce (Utf8.encode secret) =
          .ok (enc2Prefix ++ Hex.encodeChars blob) ∧
        openWith cipher otherKey (blob.take nonceLen) (blob.drop nonceLen) = .ok secret

/-- No step comes between the creation of the key file and the writing of the key,
no call finds the file created behind its own reading, and none stops in between. -/
def Undisturbed (world : World ι) : Event ι → Prop
  | .advance caller => (world.calls caller = .start → world.keyFile ≠ some []) ∧
      (world.calls caller = .missed → world.keyFile = none)
  | .stop caller => world.calls caller ≠ .created

/-- A call that neither holds the key file nor has returned. -/
def CallState.Outside (state : CallState) : Prop :=
  state = .start ∨ state = .missed ∨ state = .stopped

/-- The three forms of the key file with the calls that go with them. -/
inductive Settled (fresh : ι → Bytes) (world : World ι) : Prop where
  | missing (noFile : world.keyFile = none) (outside : ∀ caller, (world.calls caller).Outside)
  | creating (owner : ι) (empty : world.keyFile = some []) (holds : world.calls owner = .created)
      (outside : ∀ caller, caller ≠ owner → (world.calls caller).Outside)
  | filled (owner : ι) (full : world.keyFile = some (Hex.encodeChars (fresh owner)))
      (others : ∀ caller, (world.calls caller).Outside ∨
        caller = owner ∧ world.calls caller = .written ∨
        world.calls caller = .returned (.ok (fresh owner)))

variable {fresh : ι → Bytes} {world next : World ι}

theorem set_calls_self (world : World ι) (caller : ι) (state : CallState) :
    (world.set caller state).calls caller = state := Function.update_self ..

theorem set_calls_other {other : ι} (different : other ≠ caller) (world : World ι)
    (state : CallState) : (world.set caller state).calls other = world.calls other :=
  Function.update_of_ne different ..

theorem outside_missed : CallState.missed.Outside := Or.inr (Or.inl rfl)

theorem outside_stopped : CallState.stopped.Outside := Or.inr (Or.inr rfl)

/-- A call stays outside. -/
theorem Settled.keepsOutside {state : CallState} (settled : Settled fresh world)
    (notCreated : world.calls caller ≠ .created) (outside : state.Outside) :
    Settled fresh (world.set caller state) := by
  have all (other : ι) (before : (world.calls other).Outside) :
      ((world.set caller state).calls other).Outside := by
    by_cases same : other = caller
    · rw [same, set_calls_self]
      exact outside
    · rwa [set_calls_other same]
  cases settled with
  | missing noFile everyone => exact .missing noFile fun other => all other (everyone other)
  | creating owner empty holds others =>
    have different : owner ≠ caller := fun same => notCreated (same ▸ holds)
    exact .creating owner empty ((set_calls_other different ..).trans holds) fun other apart =>
      all other (others other apart)
  | filled owner full others =>
    refine .filled owner full fun other => ?_
    by_cases same : other = caller
    · rw [same, set_calls_self]
      exact Or.inl outside
    · rw [set_calls_other same]
      exact others other

theorem not_outside_created : ¬CallState.created.Outside := by
  rintro (same | same | same) <;> cases same

theorem not_outside_written : ¬CallState.written.Outside := by
  rintro (same | same | same) <;> cases same

section

variable (settled : Settled fresh world)
include settled

/-- A call that finds the written key returns it. -/
theorem Settled.reads {hexKey : List Char}
    (found : world.keyFile = some hexKey) (something : hexKey ≠ []) :
    Settled fresh (world.set caller (.returned (readKey hexKey))) := by
  cases settled with
  | missing noFile => exact absurd (noFile.symm.trans found) (Option.some_ne_none hexKey).symm
  | creating owner empty => exact absurd (Option.some.inj (found.symm.trans empty)) something
  | filled owner full others =>
    have isKey : hexKey = Hex.encodeChars (fresh owner) := Option.some.inj (found.symm.trans full)
    refine .filled owner full fun other => ?_
    by_cases same : other = caller
    · rw [same, set_calls_self, isKey, readKey_encodeChars]
      exact Or.inr (Or.inr rfl)
    · rw [set_calls_other same]
      exact others other

/-- A call that has created the file writes its key into it. -/
theorem Settled.writes (holds : world.calls caller = .created) :
    Settled fresh { world.set caller .written with
      keyFile := some (Hex.encodeChars (fresh caller)) } := by
  have inside : ¬(world.calls caller).Outside := holds ▸ not_outside_created
  cases settled with
  | missing noFile outside => exact absurd (outside caller) inside
  | creating owner empty ownerHolds outside =>
    have isOwner : caller = owner := by
      by_contra different
      exact inside (outside caller different)
    refine .filled caller rfl fun other => ?_
    by_cases same : other = caller
    · exact Or.inr (Or.inl ⟨same, same ▸ set_calls_self world caller .written⟩)
    · refine Or.inl ?_
      have before := outside other (isOwner ▸ same)
      rwa [← set_calls_other same world .written] at before
  | filled owner full others =>
    rw [holds] at inside
    rcases others caller with outside | ⟨-, written⟩ | returned
    · exact absurd (holds ▸ outside) inside
    · exact absurd (holds.symm.trans written) CallState.noConfusion
    · exact absurd (holds.symm.trans returned) CallState.noConfusion

/-- A call that has written its key returns it. -/
theorem Settled.returns (holds : world.calls caller = .written) :
    Settled fresh (world.set caller (.returned (.ok (fresh caller)))) := by
  have inside : ¬(world.calls caller).Outside := holds ▸ not_outside_written
  cases settled with
  | missing noFile outside => exact absurd (outside caller) inside
  | creating owner empty ownerHolds outside =>
    have different : caller ≠ owner := by
      rintro rfl
      exact absurd (holds.symm.trans ownerHolds) CallState.noConfusion
    exact absurd (outside caller different) inside
  | filled owner full others =>
    have isOwner : caller = owner := by
      rcases others caller with outside | ⟨same, -⟩ | returned
      · exact absurd outside inside
      · exact same
      · exact absurd (holds.symm.trans returned) CallState.noConfusion
    refine .filled owner full fun other => ?_
    by_cases same : other = caller
    · rw [same, set_calls_self, isOwner]
      exact Or.inr (Or.inr rfl)
    · rw [set_calls_other same]
      exact others other

/-- What an undisturbed step of a call preserves. -/
theorem Settled.advance (undisturbed : Undisturbed world (.advance caller))
    (moved : advance fresh world caller = some next) : Settled fresh next := by
  obtain ⟨reads, creates⟩ := undisturbed
  rw [Secrets.advance] at moved
  cases state : world.calls caller with
  | start =>
    have notCreated : world.calls caller ≠ .created := by simp [state]
    cases file : world.keyFile with
    | none =>
      rw [state, file] at moved
      cases moved
      exact settled.keepsOutside notCreated outside_missed
    | some hexKey =>
      rw [state, file] at moved
      cases moved
      exact settled.reads file fun empty => reads state (empty ▸ file)
  | missed =>
    have noFile := creates state
    rw [state, noFile] at moved
    cases moved
    cases settled with
    | missing _ outside =>
      refine .creating caller rfl (set_calls_self world caller .created) fun other different => ?_
      have before := outside other
      rwa [← set_calls_other different world .created] at before
    | creating owner empty => exact absurd (noFile.symm.trans empty) (Option.some_ne_none _).symm
    | filled owner full => exact absurd (noFile.symm.trans full) (Option.some_ne_none _).symm
  | created =>
    rw [state] at moved
    cases moved
    exact settled.writes state
  | written =>
    rw [state] at moved
    cases moved
    exact settled.returns state
  | returned result =>
    rw [state] at moved
    cases moved
  | stopped =>
    rw [state] at moved
    cases moved

theorem Settled.stop (undisturbed : Undisturbed world (.stop caller))
    (moved : step fresh world (.stop caller) = some next) : Settled fresh next := by
  have stopped : next = world.set caller .stopped := by
    rw [step] at moved
    split at moved
    · cases moved
    · cases moved
    · exact (Option.some.inj moved).symm
  rw [stopped]
  exact settled.keepsOutside undisturbed outside_stopped

end

theorem settled_of_run (run : Run fresh Undisturbed world) : Settled fresh world := by
  induction run with
  | initial => exact .missing rfl fun _ => Or.inl rfl
  | @step world next event _ permitted moved ih =>
    cases event with
    | advance caller => exact ih.advance permitted moved
    | stop caller => exact ih.stop permitted moved

/-- In a settled world every result is the owner's key. -/
theorem Settled.keysAgree (settled : Settled fresh world)
    (length : ∀ caller, (fresh caller).length = keyLen) : KeysAgree world := by
  have returnedInside (result : Except SecretError Bytes) :
      ¬(CallState.returned result).Outside := by
    rintro (same | same | same) <;> cases same
  have same : ∃ key, key.length = keyLen ∧
      ∀ caller result, world.calls caller = .returned result → result = .ok key := by
    cases settled with
    | missing noFile outside =>
      refine ⟨List.replicate keyLen 0, List.length_replicate, fun caller result returned => ?_⟩
      exact absurd (returned ▸ outside caller) (returnedInside result)
    | creating owner empty holds outside =>
      refine ⟨fresh owner, length owner, fun caller result returned => ?_⟩
      by_cases isOwner : caller = owner
      · rw [isOwner, holds] at returned
        cases returned
      · exact absurd (returned ▸ outside caller isOwner) (returnedInside result)
    | filled owner full others =>
      refine ⟨fresh owner, length owner, fun caller result returned => ?_⟩
      rcases others caller with outside | ⟨-, written⟩ | asOwner
      · exact absurd (returned ▸ outside) (returnedInside result)
      · exact absurd (returned.symm.trans written) CallState.noConfusion
      · exact CallState.returned.inj (returned.symm.trans asOwner)
  refine ⟨same, ?_⟩
  obtain ⟨shared, sharedLength, all⟩ := same
  intro caller other key otherKey returned otherReturned cipher nonce secret sound fits nonempty
  have isShared : key = shared := Except.ok.inj (all caller _ returned)
  have otherIsShared : otherKey = shared := Except.ok.inj (all other _ otherReturned)
  rw [isShared, otherIsShared]
  obtain ⟨blob, sealed, -, opened⟩ := sealWith_opens sound sharedLength fits nonempty
  exact ⟨blob, sealed, opened⟩

/-- In every run without a step between the creation of the key file and the writing
of the key, the calls agree. -/
theorem undisturbed_keys_agree (length : ∀ caller, (fresh caller).length = keyLen)
    (run : Run fresh Undisturbed world) : KeysAgree world :=
  (settled_of_run run).keysAgree length

end Callers

/-- A call alone creates, writes and returns its key. -/
theorem undisturbed_keys_agree_alone :
    ∃ world : World Bool, world.calls true = .returned (.ok (List.replicate 32 7)) ∧
      KeysAgree world := by
  have missed : Run (fun _ : Bool => List.replicate 32 7) Undisturbed _ :=
    @Run.step _ _ _ _ _ _ (.advance true) .initial ⟨fun _ => by decide, fun _ => rfl⟩ rfl
  have created := @Run.step _ _ _ _ _ _ (.advance true) missed
    ⟨fun _ => by decide, fun _ => rfl⟩ rfl
  have written := @Run.step _ _ _ _ _ _ (.advance true) created
    ⟨fun state => CallState.noConfusion state, fun state => CallState.noConfusion state⟩ rfl
  have returned := @Run.step _ _ _ _ _ _ (.advance true) written
    ⟨fun state => CallState.noConfusion state, fun state => CallState.noConfusion state⟩ rfl
  exact ⟨_, rfl, undisturbed_keys_agree (fun _ => rfl) returned⟩

/-- A call that reads the file while another is about to write takes no bytes for the
key. -/
theorem empty_key_read :
    ¬∀ world : World Bool,
      Run (fun _ => List.replicate 32 7) (fun _ _ => True) world → KeysAgree world := by
  intro always
  have missed : Run (fun _ : Bool => List.replicate 32 7) (fun _ _ => True) _ :=
    @Run.step _ _ _ _ _ _ (.advance true) .initial trivial rfl
  have created := @Run.step _ _ _ _ _ _ (.advance true) missed trivial rfl
  have read := @Run.step _ _ _ _ _ _ (.advance false) created trivial rfl
  obtain ⟨key, length, all⟩ := (always _ read).same
  have empty := all false (.ok []) rfl
  rw [← Except.ok.inj empty] at length
  exact absurd length (by decide)

end Asterel.Secrets
