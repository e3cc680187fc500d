import Asterel.Library.Transitions
import Asterel.Transport.ReplayGuard

/-!
# What the replay state file holds

Callers change the table under its lock and number their mutation afterwards. A
flush reads the number to reach, compares it with the published one, snapshots
the table under the lock, renames the serialized snapshot over the file and only
then publishes. Any number of callers and flushes take these steps in any order.

Publishing is a maximum, but the file belongs to whoever renamed last: an older
snapshot renamed after a newer one is published leaves the file behind what is
published. The file keeps every published mutation in every run that never
renames an older snapshot over a newer one, never evicts an unexpired nonce and
does not wrap the sequence number.

The clock of the model only advances. A caller reads it before it takes the lock,
so its reading may be older than the clock; a flush reads it under the lock. A
caller's operation number is drawn from a separate counter before the lock, so
any number may arrive.
-/

namespace Asterel.Replay

variable {numbered : List Nat}

open Library List
open Library.HashMap (IterationOrder)

/-- A change of the table: a nonce recorded with its second, or forgotten. -/
structure Mutation where
  nonce : String
  recorded : Option Nat
deriving DecidableEq

/-- Where one execution of `flush_replay_state` stands. The snapshot carries the
number of mutations made before it was taken. -/
inductive FlushPhase where
  | read (target : Nat)
  | dirty (target : Nat)
  | snapshotted (target : Nat) (snapshot : Seen) (made : Nat)
  | stored (target : Nat)

/-- The shared state of the storage runtime with its executing flushes, and the
file. The history of mutations in lock order, the positions of the numbered ones
in number order, and the history length behind the file are bookkeeping of the
model; no step reads them. -/
structure Runtime where
  seen : Seen
  ttlSecs : Nat
  clock : Nat
  mutationSeq : Nat
  persistedSeq : Nat
  file : Option Seen
  flushes : List FlushPhase
  history : List Mutation
  numbered : List Nat
  fileMade : Nat

/-- A storage runtime over the entries found in the file. -/
def Runtime.new (order : IterationOrder String Nat) (file : Option Seen) (now ttlSecs : Nat) :
    Runtime :=
  { seen := pruneEntries order (file.getD ∅) now ttlSecs
    ttlSecs := ttlSecs
    clock := now
    mutationSeq := 0
    persistedSeq := 0
    file := file
    flushes := []
    history := []
    numbered := []
    fileMade := 0 }

/-- One atomic step of a caller or of a flush. -/
inductive Action where
  | check (nonce : String) (now mutation : Nat) (order : IterationOrder String Nat)
  | forget (nonce : String)
  | number (position : Nat)
  | flushBegin
  | flushCompare (index : Nat)
  | flushSnapshot (index : Nat) (order : IterationOrder String Nat)
  | flushStore (index : Nat)
  | flushFail (index : Nat)
  | flushPublish (index : Nat)
  | tick (later : Nat)

/-- The locked block of a check, at a reading the clock has already reached. -/
def Runtime.check (state : Runtime) (nonce : String) (now mutation : Nat)
    (order : IterationOrder String Nat) : Runtime :=
  let outcome := recordIfFresh order state.seen nonce now state.ttlSecs mutation
  if outcome.1 then
    { state with seen := outcome.2, history := state.history ++ [⟨nonce, some now⟩] }
  else state

/-- The locked block of a forget; only a removal counts as a mutation. -/
def Runtime.forget (state : Runtime) (nonce : String) : Runtime :=
  if (state.seen.lookup nonce).isSome then
    { state with seen := state.seen.erase nonce, history := state.history ++ [⟨nonce, none⟩] }
  else state

/-- `record_mutation` draws the next sequence number for a mutation made. -/
def Runtime.number (state : Runtime) (position : Nat) : Option Runtime :=
  if position < state.history.length ∧ position ∉ state.numbered then
    some { state with
      mutationSeq := (state.mutationSeq + 1) % 2 ^ 64
      numbered := state.numbered ++ [position] }
  else none

/-- The steps of one execution of `flush_replay_state`. -/
def Runtime.flush (state : Runtime) (index : Nat) : FlushPhase → Action → Option Runtime
  | .read target, .flushCompare _ =>
    if target ≤ state.persistedSeq then some { state with flushes := state.flushes.eraseIdx index }
    else some { state with flushes := state.flushes.set index (.dirty target) }
  | .dirty target, .flushSnapshot _ order =>
    let seen := pruneEntries order state.seen state.clock state.ttlSecs
    some { state with
      seen := seen
      flushes := state.flushes.set index (.snapshotted target seen state.history.length) }
  | .snapshotted target snapshot made, .flushStore _ =>
    some { state with
      file := some snapshot
      fileMade := made
      flushes := state.flushes.set index (.stored target) }
  | .snapshotted _ _ _, .flushFail _ =>
    some { state with flushes := state.flushes.eraseIdx index }
  | .stored target, .flushPublish _ =>
    some { state with
      persistedSeq := max state.persistedSeq target
      flushes := state.flushes.eraseIdx index }
  | _, _ => none

/-- The flush an action belongs to. -/
def Action.flushIndex : Action → Option Nat
  | .flushCompare index => some index
  | .flushSnapshot index _ => some index
  | .flushStore index => some index
  | .flushFail index => some index
  | .flushPublish index => some index
  | _ => none

def step (state : Runtime) (action : Action) : Option Runtime :=
  match action with
  | .check nonce now mutation order =>
    if now ≤ state.clock then some (state.check nonce now mutation order) else none
  | .forget nonce => some (state.forget nonce)
  | .number position => state.number position
  | .flushBegin => some { state with flushes := state.flushes ++ [.read state.mutationSeq] }
  | .tick later => if state.clock ≤ later then some { state with clock := later } else none
  | other =>
    match other.flushIndex with
    | some index => (state.flushes[index]?).bind fun phase => state.flush index phase other
    | none => none

/-- The last mutation of its nonce among the first `made` of the history. -/
def Latest (history : List Mutation) (made position : Nat) (mutation : Mutation) : Prop :=
  position < made ∧ history[position]? = some mutation ∧
    ∀ later other, position < later → later < made → history[later]? = some other →
      other.nonce ≠ mutation.nonce

/-- What a mutation leaves in a table while it is its nonce's last one. -/
def Mutation.Holds (mutation : Mutation) (clock ttlSecs : Nat) (found : Option Nat) : Prop :=
  match mutation.recorded with
  | some ts => clock - ts < ttlSecs → found = some ts
  | none => found = none

/-- A table shows the last mutation of every nonce among the first `made`. -/
def Reflects (history : List Mutation) (made clock ttlSecs : Nat) (entries : Seen) : Prop :=
  ∀ position mutation, Latest history made position mutation →
    mutation.Holds clock ttlSecs (entries.lookup mutation.nonce)

/-- The file shows every nonce whose last mutation carries a published number. -/
def Durable (state : Runtime) : Prop :=
  ∀ position mutation, Latest state.history state.history.length position mutation →
    position ∈ state.numbered.take state.persistedSeq →
    mutation.Holds state.clock state.ttlSecs
      (state.file.bind fun entries => entries.lookup mutation.nonce)

/-- Everything is durable whenever no flush runs and nothing is left to
publish. -/
def QuietlyDurable (state : Runtime) : Prop :=
  state.flushes = [] → state.mutationSeq ≤ state.persistedSeq → Durable state

/-- The side conditions on single steps: recording leaves no more unexpired
nonces than fit, the sequence number does not wrap, and no snapshot replaces a
later one in the file. -/
def InOrder (state : Runtime) : Action → Prop
  | .check nonce now _ _ =>
    (unexpired (state.seen.insert nonce now) now state.ttlSecs).len ≤ maxEntries
  | .number _ => state.mutationSeq + 1 < 2 ^ 64
  | .flushStore index =>
    match state.flushes[index]? with
    | some (.snapshotted _ _ made) => state.fileMade ≤ made
    | _ => True
  | _ => True

instance (state : Runtime) (action : Action) : Decidable (InOrder state action) := by
  cases action with
  | check => exact inferInstanceAs (Decidable (_ ≤ _))
  | number => exact inferInstanceAs (Decidable (_ < _))
  | flushStore index =>
    simp only [InOrder]
    split
    · infer_instance
    · infer_instance
  | _ => exact inferInstanceAs (Decidable True)

section Tables

variable {history : List Mutation} {made clock ttlSecs : Nat} {entries : Seen}
variable {added mutation : Mutation} {later position : Nat}

/-- A later mutation does not change what came before it. -/
theorem Latest.of_snoc (before : made ≤ history.length)
    (latest : Latest (history ++ [added]) made position mutation) :
    Latest history made position mutation := by
  obtain ⟨inside, found, last⟩ := latest
  refine ⟨inside, ?_, ?_⟩
  · rwa [List.getElem?_append_left (by omega)] at found
  · intro later other after below present
    apply last later other after below
    rwa [List.getElem?_append_left (by omega)]

/-- A longer history has its new mutation last, and the old last mutations of all
other nonces. -/
theorem Latest.cases_snoc
    (latest : Latest (history ++ [added]) (history.length + 1) position mutation) :
    mutation = added ∨
      (mutation.nonce ≠ added.nonce ∧ Latest history history.length position mutation) := by
  obtain ⟨inside, found, last⟩ := latest
  rcases Nat.lt_or_ge position history.length with earlier | reached
  · right
    constructor
    · exact (last history.length added earlier (by omega) (by simp)).symm
    · refine Latest.of_snoc (Nat.le_refl _) ⟨earlier, found, ?_⟩
      intro later other after below present
      exact last later other after (by omega) present
  · left
    have same : position = history.length := by omega
    rw [same] at found
    simpa using found.symm

/-- Time passing only relaxes what an unexpired nonce requires. -/
theorem Mutation.Holds.tick {found : Option Nat}
    (holds : mutation.Holds clock ttlSecs found) (advanced : clock ≤ later) :
    mutation.Holds later ttlSecs found := by
  obtain ⟨nonce, recorded | ts⟩ := mutation
  · exact holds
  · intro live
    exact holds (by omega)

theorem Reflects.tick (reflects : Reflects history made clock ttlSecs entries)
    (advanced : clock ≤ later) : Reflects history made later ttlSecs entries :=
  fun position mutation latest => (reflects position mutation latest).tick advanced

theorem Reflects.snoc (reflects : Reflects history made clock ttlSecs entries)
    (before : made ≤ history.length) (added : Mutation) :
    Reflects (history ++ [added]) made clock ttlSecs entries :=
  fun position mutation latest => reflects position mutation (latest.of_snoc before)

/-- Changing one nonce makes that change its last mutation. -/
theorem Reflects.change (reflects : Reflects history history.length clock ttlSecs entries)
    {changed : Seen} (shown : added.Holds clock ttlSecs (changed.lookup added.nonce))
    (others : ∀ nonce, nonce ≠ added.nonce → changed.lookup nonce = entries.lookup nonce) :
    Reflects (history ++ [added]) (history.length + 1) clock ttlSecs changed := by
  intro position mutation latest
  rcases latest.cases_snoc with rfl | ⟨different, earlier⟩
  · exact shown
  · rw [others mutation.nonce different]
    exact reflects position mutation earlier

/-- A prune that evicts nothing keeps what the table shows. -/
theorem Reflects.prune (reflects : Reflects history made clock ttlSecs entries)
    (order : IterationOrder String Nat) {now : Nat} (reached : now ≤ clock)
    (fits : (unexpired entries now ttlSecs).len ≤ maxEntries) :
    Reflects history made clock ttlSecs (pruneEntries order entries now ttlSecs) := by
  intro position mutation latest
  have holds := reflects position mutation latest
  rw [pruneEntries_lookup_of_fits fits]
  obtain ⟨nonce, recorded | ts⟩ := mutation
  · rw [Mutation.Holds] at holds ⊢
    rw [holds]
    rfl
  · intro live
    have stored := holds live
    have kept : now - ts < ttlSecs := by omega
    simp only [stored, Option.filter_some, kept, decide_true, ↓reduceIte]

end Tables

/-- The sequence number a flush will publish. -/
def FlushPhase.target : FlushPhase → Nat
  | .read target => target
  | .dirty target => target
  | .snapshotted target _ _ => target
  | .stored target => target

/-- Every mutation numbered up to `target` is among the first `made`. -/
def Covers (numbered : List Nat) (target made : Nat) : Prop :=
  ∀ position ∈ numbered.take target, position < made

/-- What each execution of a flush has secured so far. -/
def FlushPhase.Secured (state : Runtime) : FlushPhase → Prop
  | .read _ => True
  | .dirty _ => True
  | .snapshotted target snapshot made =>
    made ≤ state.history.length ∧ Covers state.numbered target made ∧
      Reflects state.history made state.clock state.ttlSecs snapshot
  | .stored target => Covers state.numbered target state.fileMade

/-- Table, snapshots and file show what was made before them, and what is
published was made before the file. -/
structure Sound (state : Runtime) : Prop where
  fits : state.seen.len ≤ maxEntries
  table : Reflects state.history state.history.length state.clock state.ttlSecs state.seen
  counted : state.mutationSeq = state.numbered.length
  positions : ∀ position ∈ state.numbered, position < state.history.length
  targets : ∀ phase ∈ state.flushes, phase.target ≤ state.mutationSeq
  secured : ∀ phase ∈ state.flushes, phase.Secured state
  published : state.persistedSeq ≤ state.mutationSeq
  fileMade : state.fileMade ≤ state.history.length
  file : Reflects state.history state.fileMade state.clock state.ttlSecs (state.file.getD ∅)
  filePublished : Covers state.numbered state.persistedSeq state.fileMade

theorem Covers.weaken {target made later : Nat}
    (covers : Covers numbered target made) (grows : made ≤ later) : Covers numbered target later :=
  fun position member => Nat.lt_of_lt_of_le (covers position member) grows

/-- A new number lies beyond every target read so far. -/
theorem Covers.snoc {target made : Nat} (covers : Covers numbered target made)
    (reached : target ≤ numbered.length) (position : Nat) :
    Covers (numbered ++ [position]) target made := by
  rw [Covers, take_append_of_le_length reached]
  exact covers

theorem unexpired_len_le (seen : Seen) (now ttlSecs : Nat) :
    (unexpired seen now ttlSecs).len ≤ seen.len := by
  rw [unexpired, HashMap.len, HashMap.entries_retain, HashMap.len]
  exact length_filter_le _ _

/-- A fresh runtime has made no mutation yet. -/
theorem sound_new (order : IterationOrder String Nat) (file : Option Seen) (now ttlSecs : Nat) :
    Sound (Runtime.new order file now ttlSecs) := by
  have nothing : ∀ position mutation, ¬ Latest [] 0 position mutation := fun _ _ latest =>
    absurd latest.1 (Nat.not_lt_zero _)
  exact {
    fits := pruneEntries_len_le order (file.getD ∅) now ttlSecs
    table := fun position mutation latest => absurd latest (nothing position mutation)
    counted := rfl
    positions := fun position member => by cases member
    targets := fun phase member => by cases member
    secured := fun phase member => by cases member
    published := Nat.le_refl 0
    fileMade := Nat.le_refl 0
    file := fun position mutation latest => absurd latest (nothing position mutation)
    filePublished := fun position member => by cases member }

section Steps

variable {state : Runtime}
variable {action : Action} {index target : Nat} {next : Runtime}

variable (sound : Sound state)
include sound

/-- A mutation under the lock adds one entry to the history and leaves every
snapshot and the file as they were. -/
theorem Sound.mutate {added : Mutation} {changed : Seen} (fits : changed.len ≤ maxEntries)
    (table : Reflects (state.history ++ [added]) (state.history.length + 1) state.clock
      state.ttlSecs changed) :
    Sound { state with seen := changed, history := state.history ++ [added] } := by
  have longer : (state.history ++ [added]).length = state.history.length + 1 := by simp
  exact {
    fits := fits
    table := by rw [longer]; exact table
    counted := sound.counted
    positions := fun position member => by
      have := sound.positions position member
      simp only [longer]
      omega
    targets := sound.targets
    secured := by
      intro phase member
      have secured := sound.secured phase member
      cases phase with
      | read target => trivial
      | dirty target => trivial
      | snapshotted target snapshot made =>
        obtain ⟨before, covers, reflects⟩ := secured
        exact ⟨by simp only [longer]; omega, covers, reflects.snoc before added⟩
      | stored target => exact secured
    published := sound.published
    fileMade := by
      have := sound.fileMade
      simp only [longer]
      omega
    file := sound.file.snoc sound.fileMade added
    filePublished := sound.filePublished }

/-- Recording a nonce without evicting an unexpired one keeps the invariant. -/
theorem Sound.check {nonce : String} {now : Nat} (mutation : Nat)
    (order : IterationOrder String Nat) (reached : now ≤ state.clock)
    (room : (unexpired (state.seen.insert nonce now) now state.ttlSecs).len ≤ maxEntries) :
    Sound (state.check nonce now mutation order) := by
  have inserted : Reflects (state.history ++ [⟨nonce, some now⟩]) (state.history.length + 1)
      state.clock state.ttlSecs (state.seen.insert nonce now) := by
    apply sound.table.change
    · intro _
      exact AList.lookup_insert state.seen
    · intro other different
      exact AList.lookup_insert_ne different
  have fits := recordIfFresh_len_le sound.fits order nonce now state.ttlSecs mutation
  rw [Runtime.check]
  rcases recordIfFresh_cases order mutation state.seen nonce now state.ttlSecs with
    ⟨_, refused⟩ | ⟨_, recorded | pruned⟩
  · rw [refused]
    exact sound
  · rw [recorded] at fits ⊢
    exact sound.mutate fits inserted
  · rw [pruned] at fits ⊢
    exact sound.mutate fits (inserted.prune order reached room)

/-- Removing a nonce keeps the invariant. -/
theorem Sound.forget (nonce : String) : Sound (state.forget nonce) := by
  rw [Runtime.forget]
  split_ifs with held
  · apply sound.mutate
    · have shorter : (state.seen.erase nonce).entries.length ≤ state.seen.entries.length :=
        (kerase_sublist nonce state.seen.entries).length_le
      exact shorter.trans sound.fits
    · apply sound.table.change
      · exact AList.lookup_erase nonce state.seen
      · intro other different
        exact AList.lookup_erase_ne different
  · exact sound

/-- Numbering a mutation goes beyond every number read or published so far. -/
theorem Sound.number {position : Nat}
    (room : state.mutationSeq + 1 < 2 ^ 64) (numbered : state.number position = some next) :
    Sound next := by
  rw [Runtime.number] at numbered
  split_ifs at numbered with fresh
  cases numbered
  have drawn : (state.mutationSeq + 1) % 2 ^ 64 = state.mutationSeq + 1 := Nat.mod_eq_of_lt room
  have counted := sound.counted
  exact {
    fits := sound.fits
    table := sound.table
    counted := by
      rw [drawn, length_append, length_singleton, counted]
    positions := by
      intro other member
      rcases mem_append.mp member with earlier | new
      · exact sound.positions other earlier
      · rw [mem_singleton.mp new]
        exact fresh.1
    targets := by
      intro phase member
      have := sound.targets phase member
      simp only [drawn]
      omega
    secured := by
      intro phase member
      have secured := sound.secured phase member
      have target := sound.targets phase member
      rw [counted] at target
      cases phase with
      | read target => trivial
      | dirty target => trivial
      | snapshotted target snapshot made =>
        obtain ⟨before, covers, reflects⟩ := secured
        exact ⟨before, covers.snoc target position, reflects⟩
      | stored target => exact Covers.snoc secured target position
    published := by
      have := sound.published
      simp only [drawn]
      omega
    fileMade := sound.fileMade
    file := sound.file
    filePublished := sound.filePublished.snoc (counted ▸ sound.published) position }

/-- A flush that starts, gives up or finds nothing to do changes no table. -/
theorem Sound.reflush {flushes : List FlushPhase}
    (targets : ∀ phase ∈ flushes, phase.target ≤ state.mutationSeq)
    (secured : ∀ phase ∈ flushes, phase.Secured state) : Sound { state with flushes := flushes } :=
  { sound with
    targets := targets
    secured := fun phase member => by
      have before := secured phase member
      cases phase <;> exact before }

/-- Ending one flush leaves the others as they were. -/
theorem Sound.endFlush (index : Nat) :
    Sound { state with flushes := state.flushes.eraseIdx index } :=
  sound.reflush
    (fun phase present => sound.targets phase (mem_of_mem_eraseIdx present))
    (fun phase present => sound.secured phase (mem_of_mem_eraseIdx present))

/-- A flush that moves on keeps the number it has drawn. -/
theorem Sound.target_of_set {old new phase : FlushPhase}
    (member : old ∈ state.flushes) (present : phase ∈ state.flushes.set index new)
    (same : new.target = old.target) : phase.target ≤ state.mutationSeq := by
  rcases mem_or_eq_of_mem_set present with earlier | rfl
  · exact sound.targets phase earlier
  · rw [same]
    exact sound.targets old member

/-- A snapshot is the pruned table with everything made so far. -/
theorem Sound.snapshot (order : IterationOrder String Nat)
    (dirty : state.flushes[index]? = some (.dirty target)) :
    Sound { state with
      seen := pruneEntries order state.seen state.clock state.ttlSecs
      flushes := state.flushes.set index (.snapshotted target
        (pruneEntries order state.seen state.clock state.ttlSecs) state.history.length) } := by
  have fits : (unexpired state.seen state.clock state.ttlSecs).len ≤ maxEntries :=
    (unexpired_len_le _ _ _).trans sound.fits
  have table := sound.table.prune order (Nat.le_refl state.clock) fits
  have member : FlushPhase.dirty target ∈ state.flushes := mem_of_getElem? dirty
  exact {
    fits := pruneEntries_len_le order state.seen state.clock state.ttlSecs
    table := table
    counted := sound.counted
    positions := sound.positions
    targets := fun phase present => sound.target_of_set member present rfl
    secured := by
      intro phase present
      rcases mem_or_eq_of_mem_set present with earlier | rfl
      · have before := sound.secured phase earlier
        cases phase <;> exact before
      · refine ⟨Nat.le_refl _, ?_, table⟩
        intro position numbered
        exact sound.positions position (mem_of_mem_take numbered)
    published := sound.published
    fileMade := sound.fileMade
    file := sound.file
    filePublished := sound.filePublished }

/-- Renaming a snapshot no older than the file keeps what is published. -/
theorem Sound.store {made : Nat} {snapshot : Seen}
    (taken : state.flushes[index]? = some (.snapshotted target snapshot made))
    (newer : state.fileMade ≤ made) :
    Sound { state with
      file := some snapshot
      fileMade := made
      flushes := state.flushes.set index (.stored target) } := by
  have member : FlushPhase.snapshotted target snapshot made ∈ state.flushes :=
    mem_of_getElem? taken
  obtain ⟨before, covers, reflects⟩ := sound.secured _ member
  exact {
    fits := sound.fits
    table := sound.table
    counted := sound.counted
    positions := sound.positions
    targets := fun phase present => sound.target_of_set member present rfl
    secured := by
      intro phase present
      rcases mem_or_eq_of_mem_set present with earlier | rfl
      · have secured := sound.secured phase earlier
        cases phase with
        | stored other => exact Covers.weaken secured newer
        | _ => exact secured
      · exact covers
    published := sound.published
    fileMade := before
    file := reflects
    filePublished := sound.filePublished.weaken newer }

/-- Publishing what a flush has renamed keeps the invariant. -/
theorem Sound.publish (stored : state.flushes[index]? = some (.stored target)) :
    Sound { state with
      persistedSeq := max state.persistedSeq target
      flushes := state.flushes.eraseIdx index } := by
  have member : FlushPhase.stored target ∈ state.flushes := mem_of_getElem? stored
  have remaining := sound.endFlush index
  exact {
    remaining with
    published := Nat.max_le.mpr ⟨sound.published, sound.targets _ member⟩
    secured := fun phase present => by
      have before := remaining.secured phase present
      cases phase <;> exact before
    filePublished := by
      rcases Nat.le_total state.persistedSeq target with further | already
      · rw [Nat.max_eq_right further]
        exact sound.secured _ member
      · rw [Nat.max_eq_left already]
        exact sound.filePublished }

/-- Time passing keeps what table, snapshots and file show. -/
theorem Sound.tick {later : Nat} (advanced : state.clock ≤ later) :
    Sound { state with clock := later } :=
  { sound with
    table := sound.table.tick advanced
    secured := by
      intro phase member
      have secured := sound.secured phase member
      cases phase with
      | snapshotted target snapshot made =>
        obtain ⟨before, covers, reflects⟩ := secured
        exact ⟨before, covers, reflects.tick advanced⟩
      | _ => exact secured
    file := sound.file.tick advanced }

/-- The steps of a flush keep the invariant. -/
theorem Sound.flush {phase : FlushPhase} (running : state.flushes[index]? = some phase)
    (owns : action.flushIndex = some index) (inOrder : InOrder state action)
    (stepped : state.flush index phase action = some next) : Sound next := by
  have member := mem_of_getElem? running
  cases phase with
  | read target =>
    cases action <;> simp only [Runtime.flush, reduceCtorEq] at stepped
    split_ifs at stepped
    · cases stepped
      exact sound.endFlush index
    · cases stepped
      apply sound.reflush
      · exact fun phase present => sound.target_of_set member present rfl
      · intro other present
        rcases mem_or_eq_of_mem_set present with earlier | rfl
        · exact sound.secured other earlier
        · trivial
  | dirty target =>
    cases action <;> simp only [Runtime.flush, reduceCtorEq] at stepped
    cases stepped
    exact sound.snapshot _ running
  | snapshotted target snapshot made =>
    cases action with
    | flushStore other =>
      cases owns
      cases stepped
      rw [InOrder, running] at inOrder
      exact sound.store running inOrder
    | flushFail other =>
      cases stepped
      exact sound.endFlush index
    | _ => simp [Runtime.flush] at stepped
  | stored target =>
    cases action <;> simp only [Runtime.flush, reduceCtorEq] at stepped
    cases stepped
    exact sound.publish running

/-- Every step in order keeps the invariant. -/
theorem Sound.step
    (inOrder : InOrder state action) (stepped : Replay.step state action = some next) :
    Sound next := by
  cases action with
  | check nonce now mutation order =>
    simp only [Replay.step] at stepped
    split_ifs at stepped with reached
    cases stepped
    exact sound.check mutation order reached inOrder
  | forget nonce =>
    cases stepped
    exact sound.forget nonce
  | number position => exact sound.number inOrder stepped
  | flushBegin =>
    cases stepped
    apply sound.reflush
    · intro phase present
      rcases mem_append.mp present with earlier | new
      · exact sound.targets phase earlier
      · rw [mem_singleton.mp new]
        exact Nat.le_refl _
    · intro phase present
      rcases mem_append.mp present with earlier | new
      · exact sound.secured phase earlier
      · rw [mem_singleton.mp new]
        trivial
  | tick later =>
    simp only [Replay.step] at stepped
    split_ifs at stepped with advanced
    cases stepped
    exact sound.tick advanced
  | _ =>
    obtain ⟨phase, running, flushed⟩ := Option.bind_eq_some_iff.mp stepped
    exact sound.flush running rfl inOrder flushed

/-- What is published is in the file. -/
theorem Sound.durable : Durable state := by
  intro position mutation latest published
  have inFile : position < state.fileMade := sound.filePublished position published
  obtain ⟨_, found, last⟩ := latest
  have holds := sound.file position mutation ⟨inFile, found, fun later other after below =>
    last later other after (Nat.lt_of_lt_of_le below sound.fileMade)⟩
  have read : (state.file.bind fun entries => entries.lookup mutation.nonce) =
      (state.file.getD ∅).lookup mutation.nonce := by
    cases state.file <;> rfl
  rw [read]
  exact holds

end Steps

/-- In every run whose steps are in order, the file is durable whenever no flush
runs and nothing is left to publish. -/
theorem runs_in_order_durable (order : IterationOrder String Nat) (file : Option Seen)
    (now ttlSecs : Nat) (actions : List Action) (final : Runtime)
    (inOrder : Transitions.Guarded step InOrder (Runtime.new order file now ttlSecs) actions)
    (ran : Transitions.run step (Runtime.new order file now ttlSecs) actions = some final) :
    QuietlyDurable final := by
  have sound : Sound final :=
    Transitions.run_invariant (fun sound => sound.step) (sound_new order file now ttlSecs) inOrder ran
  exact fun _ _ => sound.durable

/-- The steps of one flush at this index. -/
def flushSteps (index : Nat) : List Action :=
  [.flushCompare index, .flushSnapshot index .held, .flushStore index, .flushPublish index]

/-- One flush after another keeps up with a recorded and a forgotten nonce. -/
theorem runs_in_order_durable_sample :
    ∃ final, Transitions.run step (Runtime.new .held none 0 300)
        ([.check "a" 0 1 .held, .number 0, .flushBegin] ++ flushSteps 0 ++
          [.tick 5, .check "b" 4 2 .held, .forget "a", .number 2, .number 1, .flushBegin] ++
          flushSteps 0) = some final ∧
      QuietlyDurable final := by
  obtain ⟨final, ran⟩ := Option.isSome_iff_exists.mp (show (Transitions.run step
      (Runtime.new .held none 0 300)
      ([.check "a" 0 1 .held, .number 0, .flushBegin] ++ flushSteps 0 ++
        [.tick 5, .check "b" 4 2 .held, .forget "a", .number 2, .number 1, .flushBegin] ++
        flushSteps 0)).isSome = true by decide)
  exact ⟨final, ran, runs_in_order_durable .held none 0 300 _ final (by decide) ran⟩

/-- An older snapshot renamed last leaves a published nonce out of the file. -/
theorem older_snapshot_renamed_last :
    ¬ ∀ (order : IterationOrder String Nat) (file : Option Seen) (now ttlSecs : Nat)
      (actions : List Action) (final : Runtime),
      Transitions.run step (Runtime.new order file now ttlSecs) actions = some final →
        QuietlyDurable final := by
  intro durable
  have observed : ((Transitions.run step (Runtime.new .held none 0 300)
      [.check "a" 0 1 .held, .number 0, .flushBegin, .flushCompare 0, .flushSnapshot 0 .held,
        .check "b" 0 2 .held, .number 1, .flushBegin, .flushCompare 1, .flushSnapshot 1 .held,
        .flushStore 1, .flushPublish 1, .flushStore 0, .flushPublish 0]).any fun final =>
      final.flushes.isEmpty && final.mutationSeq == 2 && final.persistedSeq == 2 &&
        final.history == [⟨"a", some 0⟩, ⟨"b", some 0⟩] && final.numbered == [0, 1] &&
        final.clock == 0 && final.ttlSecs == 300 &&
        (final.file.bind fun entries => entries.lookup "b").isNone) = true := by decide
  obtain ⟨final, ran, shown⟩ := (Option.any_eq_true _ _).mp observed
  simp only [Bool.and_eq_true, List.isEmpty_iff, beq_iff_eq, Option.isNone_iff_eq_none] at shown
  obtain ⟨⟨⟨⟨⟨⟨⟨quiet, drawn⟩, published⟩, history⟩, numbered⟩, clock⟩, ttl⟩, missing⟩ := shown
  have holds := durable _ _ _ _ _ final ran quiet (by omega) 1 ⟨"b", some 0⟩
  rw [history, numbered, published, clock, ttl, missing] at holds
  have last : Latest [⟨"a", some 0⟩, ⟨"b", some 0⟩] 2 1 ⟨"b", some 0⟩ := by
    refine ⟨by decide, rfl, ?_⟩
    intro later other after below
    omega
  have stored := holds last (by decide) (by decide)
  cases stored

end Asterel.Replay
