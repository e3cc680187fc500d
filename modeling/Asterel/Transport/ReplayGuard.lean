import Mathlib.Algebra.Order.Ring.Nat
import Asterel.Library.HashMap
import Asterel.Library.Hex

/-!
# The webhook replay guard

The guard remembers the hash of every accepted request body with the Unix second
of its acceptance and refuses the same hash while that second is less than the
time to live ago. A prune drops expired entries and, above the capacity, evicts
the oldest ones; ties at the eviction threshold are broken by the iteration
order of the hash table, which every prune therefore takes as an argument.

The SHA-256 function is a parameter. The lock makes each block of a request one
step, so the blocks are separate functions here and a request composes them.
-/

namespace Asterel.Replay

open Library Eviction HashMap
open Library.HashMap (IterationOrder)

/-- Seconds of acceptance by nonce. -/
abbrev Seen := HashMap String Nat

def defaultTtlSecs : Nat := 300
def maxEntries : Nat := 10000
def defaultPruneIntervalOps : Nat := 64

/-- The value at one position of the sorted timestamps. -/
def selectNthUnstable (timestamps : List Nat) (index : Nat) : Nat :=
  (ascending timestamps).getD index 0

/-- Drop expired entries, then the oldest ones above the capacity. -/
def pruneEntries (order : IterationOrder String Nat) (seen : Seen) (now ttlSecs : Nat) : Seen :=
  let seen := (seen.arranged order).retain fun _ ts => now - ts < ttlSecs
  if seen.len ≤ maxEntries then seen
  else
    let overflow := seen.len - maxEntries
    if overflow = 0 then seen
    else
      let threshold := selectNthUnstable seen.values (overflow - 1)
      let older := seen.dropUpTo overflow (fun ts => ts < threshold) 0
      if older.1 < overflow then
        (older.2.dropUpTo overflow (fun ts => ts = threshold) older.1).2
      else older.2

/-- The entries a prune at this second treats as unexpired. -/
def unexpired (seen : Seen) (now ttlSecs : Nat) : Seen :=
  seen.retain fun _ ts => now - ts < ttlSecs

/-- The guard's memory, its operation counter and its time to live in whole
seconds. -/
structure ReplayGuard where
  seen : Seen
  ttlSecs : Nat
  mutationCount : Nat

/-- A guard over the entries loaded from its storage. -/
def newWithOptions (order : IterationOrder String Nat) (loaded : Seen) (now ttlSecs : Nat) :
    ReplayGuard :=
  ⟨pruneEntries order loaded now ttlSecs, ttlSecs, 0⟩

section Nonces

variable (sha256 : List UInt8 → List UInt8)

/-- The hashed bytes of a scope and a body. -/
def nonceText (scope : String) (body : List UInt8) : List UInt8 :=
  scope.toUTF8.data.toList ++ ":".toUTF8.data.toList ++ body

def buildNonce (scope : String) (body : List UInt8) : String :=
  Hex.encode (sha256 (nonceText scope body))

/-- With an injective hash, a nonce determines the hashed bytes. -/
theorem buildNonce_inj {sha256 : List UInt8 → List UInt8} (injective : Function.Injective sha256)
    {scope otherScope : String} {body otherBody : List UInt8} :
    buildNonce sha256 scope body = buildNonce sha256 otherScope otherBody ↔
      nonceText scope body = nonceText otherScope otherBody :=
  (Hex.encode_injective.comp injective).eq_iff

end Nonces

/-- The locked block of a check: refuse an unexpired nonce, or record it and
prune when the table is too long or the counter says so. -/
def recordIfFresh (order : IterationOrder String Nat) (seen : Seen) (nonce : String)
    (now ttlSecs mutation : Nat) : Bool × Seen :=
  if (seen.lookup nonce).any fun ts => now - ts < ttlSecs then (false, seen)
  else
    let seen : Seen := seen.insert nonce now
    if maxEntries < seen.len ∨ mutation % defaultPruneIntervalOps = 0 then
      (true, pruneEntries order seen now ttlSecs)
    else (true, seen)

/-- Returns `true` if new (process), `false` if replay (reject). -/
def checkAndRecordHash (sha256 : List UInt8 → List UInt8) (order : IterationOrder String Nat)
    (guard : ReplayGuard) (scope : String) (body : List UInt8) (now : Nat) :
    Bool × ReplayGuard :=
  let nonce := buildNonce sha256 scope body
  let mutation := (guard.mutationCount + 1) % 2 ^ 64
  let outcome := recordIfFresh order guard.seen nonce now guard.ttlSecs mutation
  (outcome.1, { guard with seen := outcome.2, mutationCount := mutation })

/-- Remove a previously recorded nonce, allowing a subsequent retry. -/
def forgetScoped (sha256 : List UInt8 → List UInt8) (guard : ReplayGuard) (scope : String)
    (body : List UInt8) : ReplayGuard :=
  { guard with seen := guard.seen.erase (buildNonce sha256 scope body) }

/-- The locked block of a background flush prunes the shared table. -/
def pruneShared (order : IterationOrder String Nat) (guard : ReplayGuard) (now : Nat) :
    ReplayGuard :=
  { guard with seen := pruneEntries order guard.seen now guard.ttlSecs }

section Recording

variable (order : IterationOrder String Nat) {seen : Seen} {nonce : String}
  {now ttlSecs : Nat} (mutation : Nat)

/-- An unexpired nonce is refused and nothing changes. -/
theorem recordIfFresh_refused {ts : Nat} (stored : seen.lookup nonce = some ts)
    (live : now - ts < ttlSecs) :
    recordIfFresh order seen nonce now ttlSecs mutation = (false, seen) := by
  simp [recordIfFresh, stored, live]

/-- Any other nonce is recorded, possibly followed by a prune. -/
theorem recordIfFresh_recorded (fresh : ∀ ts, seen.lookup nonce = some ts → ttlSecs ≤ now - ts) :
    recordIfFresh order seen nonce now ttlSecs mutation = (true, seen.insert nonce now) ∨
      recordIfFresh order seen nonce now ttlSecs mutation =
        (true, pruneEntries order (seen.insert nonce now) now ttlSecs) := by
  have notReplayed : ((seen.lookup nonce).any fun ts => now - ts < ttlSecs) = false := by
    cases stored : seen.lookup nonce with
    | none => rfl
    | some ts => simpa using fresh ts stored
  rw [recordIfFresh, if_neg (by simp [notReplayed])]
  dsimp only
  split_ifs
  · exact .inr rfl
  · exact .inl rfl

/-- The locked block of a check refuses an unexpired nonce or records the nonce. -/
theorem recordIfFresh_cases (seen : Seen) (nonce : String) (now ttlSecs : Nat) :
    ((∃ ts, seen.lookup nonce = some ts ∧ now - ts < ttlSecs) ∧
        recordIfFresh order seen nonce now ttlSecs mutation = (false, seen)) ∨
      ((∀ ts, seen.lookup nonce = some ts → ttlSecs ≤ now - ts) ∧
        (recordIfFresh order seen nonce now ttlSecs mutation = (true, seen.insert nonce now) ∨
          recordIfFresh order seen nonce now ttlSecs mutation =
            (true, pruneEntries order (seen.insert nonce now) now ttlSecs))) := by
  by_cases replayed : ∃ ts, seen.lookup nonce = some ts ∧ now - ts < ttlSecs
  · obtain ⟨ts, stored, live⟩ := replayed
    exact .inl ⟨⟨ts, stored, live⟩, recordIfFresh_refused order mutation stored live⟩
  · have fresh : ∀ ts, seen.lookup nonce = some ts → ttlSecs ≤ now - ts := fun ts stored =>
      Nat.le_of_not_lt fun live => replayed ⟨ts, stored, live⟩
    exact .inr ⟨fresh, recordIfFresh_recorded order mutation fresh⟩

end Recording

section Pruning

variable {order : IterationOrder String Nat} {seen : Seen} {now ttlSecs : Nat}

/-- The unexpired entries in the order a prune visits them. -/
theorem unexpired_arranged_len (order : IterationOrder String Nat) (seen : Seen)
    (now ttlSecs : Nat) :
    (unexpired (seen.arranged order) now ttlSecs).len = (unexpired seen now ttlSecs).len := by
  simp only [unexpired, len, retain, filterMap]
  exact ((order.perm seen.entries).filterMap _).length_eq

/-- What a prune leaves behind when it has to evict. -/
structure Evicted (live result : List (Σ _ : String, Nat)) (overflow threshold : Nat) : Prop where
  positive : 0 < overflow
  excess : overflow + maxEntries = live.length
  selected : (ascending (live.map Sigma.snd))[overflow - 1]? = some threshold
  entries : result = evict Sigma.snd overflow threshold live

/-- A prune either keeps every unexpired entry or evicts the overflow by age. -/
theorem pruneEntries_cases (order : IterationOrder String Nat) (seen : Seen) (now ttlSecs : Nat) :
    ((unexpired seen now ttlSecs).len ≤ maxEntries ∧
        pruneEntries order seen now ttlSecs = unexpired (seen.arranged order) now ttlSecs) ∨
      (maxEntries < (unexpired seen now ttlSecs).len ∧
        ∃ overflow threshold, Evicted (unexpired (seen.arranged order) now ttlSecs).entries
          (pruneEntries order seen now ttlSecs).entries overflow threshold) := by
  rw [← unexpired_arranged_len order]
  simp only [pruneEntries, unexpired]
  generalize retain (fun _ ts => decide (now - ts < ttlSecs)) (seen.arranged order) = live
  by_cases fits : live.len ≤ maxEntries
  · exact .inl ⟨fits, if_pos fits⟩
  · refine .inr ⟨by omega, live.len - maxEntries,
      selectNthUnstable live.values (live.len - maxEntries - 1), by omega, ?_, ?_, ?_⟩
    · simp only [len] at fits ⊢
      omega
    · have inside : live.len - maxEntries - 1 <
          (ascending (live.entries.map Sigma.snd)).length := by
        simp only [ascending, List.length_mergeSort, List.length_map, len] at fits ⊢
        omega
      rw [List.getElem?_eq_getElem inside, selectNthUnstable, values,
        List.getD_eq_getElem?_getD, List.getElem?_eq_getElem inside, Option.getD_some]
    · have more : live.len - maxEntries ≠ 0 := by omega
      rw [if_neg fits, if_neg more]
      generalize live.len - maxEntries = overflow
      generalize selectNthUnstable live.values (overflow - 1) = threshold
      by_cases unfinished : (live.dropUpTo overflow (fun ts => ts < threshold) 0).1 < overflow
      · rw [if_pos unfinished]
        exact (if_pos unfinished).symm
      · rw [if_neg unfinished]
        exact (if_neg unfinished).symm

/-- Pruning keeps nothing but unexpired entries. -/
theorem lookup_of_pruned {nonce : String} {ts : Nat}
    (found : (pruneEntries order seen now ttlSecs).lookup nonce = some ts) :
    seen.lookup nonce = some ts ∧ now - ts < ttlSecs := by
  have live : (unexpired (seen.arranged order) now ttlSecs).lookup nonce = some ts := by
    rcases pruneEntries_cases order seen now ttlSecs with ⟨_, kept⟩ | ⟨_, _, _, evicted⟩
    · rwa [← kept]
    · rw [← Option.mem_def, AList.mem_lookup_iff] at found ⊢
      rw [evicted.entries] at found
      exact (evict_sublist _ _ _).mem found
  simpa [unexpired, Option.filter_eq_some_iff] using live

/-- A prune keeps as many unexpired entries as fit. -/
theorem pruneEntries_len (order : IterationOrder String Nat) (seen : Seen) (now ttlSecs : Nat) :
    (pruneEntries order seen now ttlSecs).len =
      min (unexpired seen now ttlSecs).len maxEntries := by
  have sameLength := unexpired_arranged_len order seen now ttlSecs
  rcases pruneEntries_cases order seen now ttlSecs with ⟨fits, kept⟩ | ⟨_, _, _, evicted⟩
  · rw [kept, sameLength, Nat.min_eq_left fits]
  · have count := evict_length evicted.positive evicted.selected
    have excess := evicted.excess
    rw [← evicted.entries] at count
    simp only [len] at sameLength count ⊢
    omega

/-- An unexpired entry is only dropped from a full table, and only if it is no
newer than every entry kept. -/
theorem pruned_entry_oldest {nonce : String} {ts : Nat} (found : seen.lookup nonce = some ts)
    (live : now - ts < ttlSecs)
    (dropped : (pruneEntries order seen now ttlSecs).lookup nonce = none) :
    (pruneEntries order seen now ttlSecs).len = maxEntries ∧
      ∀ other otherTs, (pruneEntries order seen now ttlSecs).lookup other = some otherTs →
        ts ≤ otherTs := by
  have lookupLive : (unexpired (seen.arranged order) now ttlSecs).lookup nonce = some ts := by
    simp [unexpired, found, live]
  rcases pruneEntries_cases order seen now ttlSecs with ⟨_, kept⟩ | ⟨full, _, _, evicted⟩
  · rw [kept, lookupLive] at dropped
    cases dropped
  · refine ⟨by rw [pruneEntries_len]; omega, ?_⟩
    intro other otherTs kept
    rw [← Option.mem_def, AList.mem_lookup_iff] at lookupLive kept
    have absent : (⟨nonce, ts⟩ : Σ _ : String, Nat) ∉
        (pruneEntries order seen now ttlSecs).entries := by
      intro member
      rw [← AList.mem_lookup_iff, dropped] at member
      cases member
    rw [evicted.entries] at kept absent
    exact (evicted_rank lookupLive absent).trans
      (kept_rank evicted.positive evicted.selected kept)

/-- A prune keeps unexpired entries only, as many as fit, and none that is older than one it
dropped. -/
theorem prune_keeps_newest (order : IterationOrder String Nat) (seen : Seen) (now ttlSecs : Nat) :
    (∀ nonce ts, (pruneEntries order seen now ttlSecs).lookup nonce = some ts →
      (unexpired seen now ttlSecs).lookup nonce = some ts) ∧
    (pruneEntries order seen now ttlSecs).len = min (unexpired seen now ttlSecs).len maxEntries ∧
    ∀ nonce ts, (unexpired seen now ttlSecs).lookup nonce = some ts →
      (pruneEntries order seen now ttlSecs).lookup nonce = none →
      ∀ other otherTs, (pruneEntries order seen now ttlSecs).lookup other = some otherTs →
        ts ≤ otherTs := by
  have live : ∀ nonce ts, (unexpired seen now ttlSecs).lookup nonce = some ts ↔
      seen.lookup nonce = some ts ∧ now - ts < ttlSecs := by
    intro nonce ts
    rw [unexpired, lookup_retain, Option.filter_eq_some_iff, decide_eq_true_eq]
  refine ⟨fun nonce ts found => (live nonce ts).mpr (lookup_of_pruned found),
    pruneEntries_len order seen now ttlSecs, fun nonce ts found dropped => ?_⟩
  obtain ⟨stored, fresh⟩ := (live nonce ts).mp found
  exact (pruned_entry_oldest stored fresh dropped).2

/-- Below the capacity a prune drops expired entries only. -/
theorem pruneEntries_lookup_of_fits (fits : (unexpired seen now ttlSecs).len ≤ maxEntries)
    (nonce : String) :
    (pruneEntries order seen now ttlSecs).lookup nonce =
      (seen.lookup nonce).filter fun ts => now - ts < ttlSecs := by
  rcases pruneEntries_cases order seen now ttlSecs with ⟨_, kept⟩ | ⟨full, _⟩
  · rw [kept]
    simp [unexpired]
  · omega

theorem pruneEntries_len_le (order : IterationOrder String Nat) (seen : Seen) (now ttlSecs : Nat) :
    (pruneEntries order seen now ttlSecs).len ≤ maxEntries := by
  rw [pruneEntries_len]
  exact Nat.min_le_right _ _

/-- A check never leaves more entries than fit. -/
theorem recordIfFresh_len_le (fits : seen.len ≤ maxEntries)
    (order : IterationOrder String Nat) (nonce : String) (now ttlSecs mutation : Nat) :
    (recordIfFresh order seen nonce now ttlSecs mutation).2.len ≤ maxEntries := by
  rw [recordIfFresh]
  by_cases replayed : (seen.lookup nonce).any fun ts => now - ts < ttlSecs
  · rw [if_pos replayed]
    exact fits
  · rw [if_neg replayed]
    dsimp only
    split_ifs with crowded
    · exact pruneEntries_len_le order _ now ttlSecs
    · simp only [not_or, Nat.not_lt] at crowded
      exact crowded.1

end Pruning

end Asterel.Replay
