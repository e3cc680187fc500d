import Asterel.Transport.ReplayGuard

/-!
# How long an accepted request stays refused

An accepted nonce stays in the table until it expires, is forgotten, or is
evicted from a full table. Eviction takes the oldest entries first, so it can
only reach the nonce when the table is full of other entries that are at least
as new. Entries of the same second count: they may already be in the table when
the nonce is accepted, and a tie is broken against either of them.

Forgetting goes by the hashed text, which joins scope and body with a colon.
Different pairs with the same text therefore share one nonce.
-/

namespace Asterel.Replay

open Library List AList HashMap
open Library.HashMap (IterationOrder)

/-- One step of a guard's life, at a given second where the code reads the clock. -/
inductive Call where
  | check (scope : String) (body : List UInt8) (now : Nat) (order : IterationOrder String Nat)
  | forget (scope : String) (body : List UInt8)
  | flush (now : Nat) (order : IterationOrder String Nat)

/-- The clock reading of a call. -/
def Call.second : Call → Option Nat
  | .check _ _ now _ => some now
  | .forget _ _ => none
  | .flush now _ => some now

section Runs

variable (sha256 : List UInt8 → List UInt8)

/-- The guard after one call. -/
def afterCall (guard : ReplayGuard) : Call → ReplayGuard
  | .check scope body now order => (checkAndRecordHash sha256 order guard scope body now).2
  | .forget scope body => forgetScoped sha256 guard scope body
  | .flush now order => pruneShared order guard now

def afterCalls (guard : ReplayGuard) (calls : List Call) : ReplayGuard :=
  calls.foldl (afterCall sha256) guard

/-- The nonce a call accepts as new. -/
def acceptedNonce (guard : ReplayGuard) : Call → Option String
  | .check scope body now order =>
    if (checkAndRecordHash sha256 order guard scope body now).1 then
      some (buildNonce sha256 scope body)
    else none
  | .forget _ _ => none
  | .flush _ _ => none

/-- The nonces a run accepts as new. -/
def acceptedNonces (guard : ReplayGuard) : List Call → List String
  | [] => []
  | call :: rest =>
    (acceptedNonce sha256 guard call).toList ++ acceptedNonces (afterCall sha256 guard call) rest

/-- No call of the run forgets a pair with this hashed text. -/
def NeverForgets (text : List UInt8) (calls : List Call) : Prop :=
  ∀ scope body, Call.forget scope body ∈ calls → nonceText scope body ≠ text

/-- Nonces already in the table with a second not before `now`. -/
def heldSince (guard : ReplayGuard) (now : Nat) : Finset String :=
  ((guard.seen.retain fun _ ts => now ≤ ts).keys).toFinset

/-- The other nonces that can outlive one accepted at `now`: those held with a
second not before it, and those the run accepts. -/
def rivals (guard : ReplayGuard) (nonce : String) (now : Nat) (later : ReplayGuard)
    (calls : List Call) : Finset String :=
  (heldSince guard now ∪ (acceptedNonces sha256 later calls).toFinset).erase nonce

end Runs

/-- The nonce is held with the second of its acceptance, and every other entry
that new belongs to a fixed set. -/
structure Remembers (seen : Seen) (nonce : String) (since : Nat) (others : Finset String) :
    Prop where
  stored : seen.lookup nonce = some since
  newer : ∀ other ts, other ≠ nonce → seen.lookup other = some ts → since ≤ ts → other ∈ others

section Steps

variable {seen : Seen} {nonce : String} {since : Nat} {others : Finset String}
variable {other : String}

section

variable (remembers : Remembers seen nonce since others)
include remembers

/-- A prune cannot evict the nonce while too few entries are as new. -/
theorem Remembers.prune
    (order : IterationOrder String Nat) {now ttlSecs : Nat} (live : now - since < ttlSecs)
    (few : others.card < maxEntries) :
    Remembers (pruneEntries order seen now ttlSecs) nonce since others := by
  constructor
  · cases kept : (pruneEntries order seen now ttlSecs).lookup nonce with
    | some ts =>
      have stored := (lookup_of_pruned kept).1
      rw [remembers.stored] at stored
      exact stored.symm
    | none =>
      obtain ⟨full, oldest⟩ := pruned_entry_oldest remembers.stored live kept
      have crowded : (pruneEntries order seen now ttlSecs).len ≤ others.card := by
        apply len_le_card
        intro other ts found
        refine remembers.newer other ts ?_ (lookup_of_pruned found).1 (oldest other ts found)
        rintro rfl
        rw [kept] at found
        cases found
      omega
  · intro other ts different found recent
    exact remembers.newer other ts different (lookup_of_pruned found).1 recent

/-- Recording another nonce of the fixed set keeps the nonce. -/
theorem Remembers.insert (different : other ≠ nonce) (member : other ∈ others) (now : Nat) :
    Remembers (seen.insert other now) nonce since others := by
  constructor
  · rw [lookup_insert_ne different.symm]
    exact remembers.stored
  · intro key ts notNonce found recent
    by_cases same : key = other
    · exact same ▸ member
    · rw [lookup_insert_ne same] at found
      exact remembers.newer key ts notNonce found recent

/-- Forgetting another nonce keeps the nonce. -/
theorem Remembers.erase
    (different : other ≠ nonce) : Remembers (seen.erase other) nonce since others := by
  constructor
  · rw [lookup_erase_ne different.symm]
    exact remembers.stored
  · intro key ts notNonce found recent
    by_cases same : key = other
    · rw [same, lookup_erase] at found
      cases found
    · rw [lookup_erase_ne same] at found
      exact remembers.newer key ts notNonce found recent

end

/-- Accepting the nonce itself starts remembering it. -/
theorem remembers_accepted {order : IterationOrder String Nat} {now ttlSecs mutation : Nat}
    (accepted : (recordIfFresh order seen nonce now ttlSecs mutation).1 = true)
    (newer : ∀ other ts, other ≠ nonce → seen.lookup other = some ts → now ≤ ts → other ∈ others)
    (positive : 0 < ttlSecs) (few : others.card < maxEntries) :
    Remembers (recordIfFresh order seen nonce now ttlSecs mutation).2 nonce now others := by
  have inserted : Remembers (seen.insert nonce now) nonce now others := by
    constructor
    · exact lookup_insert seen
    · intro other ts different found recent
      rw [lookup_insert_ne different] at found
      exact newer other ts different found recent
  rcases recordIfFresh_cases order mutation seen nonce now ttlSecs with
    ⟨_, refused⟩ | ⟨_, recorded | pruned⟩
  · rw [refused] at accepted
    cases accepted
  · rw [recorded]
    exact inserted
  · rw [pruned]
    exact inserted.prune order (by omega) few

/-- A later check of any nonce keeps the remembered one. -/
theorem Remembers.record (remembers : Remembers seen nonce since others)
    (order : IterationOrder String Nat) {now ttlSecs mutation : Nat}
    (member : (recordIfFresh order seen other now ttlSecs mutation).1 = true → other ≠ nonce →
      other ∈ others)
    (live : now - since < ttlSecs) (few : others.card < maxEntries) :
    Remembers (recordIfFresh order seen other now ttlSecs mutation).2 nonce since others := by
  rcases recordIfFresh_cases order mutation seen other now ttlSecs with
    ⟨_, refused⟩ | ⟨fresh, outcome⟩
  · rw [refused]
    exact remembers
  · have different : other ≠ nonce := by
      rintro rfl
      have expired := fresh since remembers.stored
      omega
    have accepted : (recordIfFresh order seen other now ttlSecs mutation).1 = true := by
      rcases outcome with recorded | pruned
      · rw [recorded]
      · rw [pruned]
    have inserted := remembers.insert different (member accepted different) now
    rcases outcome with recorded | pruned
    · rw [recorded]
      exact inserted
    · rw [pruned]
      exact inserted.prune order live few

end Steps

section Runs

variable {sha256 : List UInt8 → List UInt8} {scope : String} {body : List UInt8} {since : Nat}
  {others : Finset String}
variable {guard : ReplayGuard}

@[simp] theorem afterCall_ttl (guard : ReplayGuard) (call : Call) :
    (afterCall sha256 guard call).ttlSecs = guard.ttlSecs := by
  cases call <;> rfl

@[simp] theorem afterCalls_ttl (guard : ReplayGuard) (calls : List Call) :
    (afterCalls sha256 guard calls).ttlSecs = guard.ttlSecs := by
  induction calls generalizing guard with
  | nil => rfl
  | cons call rest ih =>
    rw [afterCalls, foldl_cons, ← afterCalls, ih, afterCall_ttl]

/-- One call keeps an unexpired nonce that it does not forget. -/
theorem Remembers.call (injective : Function.Injective sha256)
    (remembers : Remembers guard.seen (buildNonce sha256 scope body) since others) {call : Call}
    (live : ∀ now, call.second = some now → now - since < guard.ttlSecs)
    (few : others.card < maxEntries)
    (accepted : ∀ nonce ∈ acceptedNonce sha256 guard call, nonce ≠ buildNonce sha256 scope body →
      nonce ∈ others)
    (kept : ∀ other otherBody, call = .forget other otherBody →
      nonceText other otherBody ≠ nonceText scope body) :
    Remembers (afterCall sha256 guard call).seen (buildNonce sha256 scope body) since others := by
  cases call with
  | check other otherBody now order =>
    refine remembers.record order ?_ (live now rfl) few
    intro new different
    refine accepted _ ?_ different
    rw [acceptedNonce, checkAndRecordHash, if_pos new]
    rfl
  | forget other otherBody =>
    apply remembers.erase
    rw [Ne, buildNonce_inj injective]
    exact kept other otherBody rfl
  | flush now order => exact remembers.prune order (live now rfl) few

/-- A run keeps an unexpired nonce that it does not forget. -/
theorem Remembers.run (injective : Function.Injective sha256) (calls : List Call)
    (remembers : Remembers guard.seen (buildNonce sha256 scope body) since others)
    (live : ∀ now ∈ calls.filterMap Call.second, now - since < guard.ttlSecs)
    (few : others.card < maxEntries)
    (accepted : ∀ nonce ∈ acceptedNonces sha256 guard calls, nonce ≠ buildNonce sha256 scope body →
      nonce ∈ others)
    (kept : NeverForgets (nonceText scope body) calls) :
    Remembers (afterCalls sha256 guard calls).seen (buildNonce sha256 scope body) since others := by
  induction calls generalizing guard with
  | nil => exact remembers
  | cons call rest ih =>
    have step : Remembers (afterCall sha256 guard call).seen (buildNonce sha256 scope body) since
        others := by
      refine remembers.call injective ?_ few ?_ ?_
      · intro now reads
        exact live now (mem_filterMap.mpr ⟨call, by simp, reads⟩)
      · intro nonce member
        exact accepted nonce (by
          rw [acceptedNonces, mem_append]
          exact .inl (Option.mem_toList.mpr member))
      · rintro other otherBody rfl
        exact kept other otherBody (by simp)
    apply ih step
    · intro now member
      obtain ⟨later, present, reads⟩ := mem_filterMap.mp member
      rw [afterCall_ttl]
      exact live now (mem_filterMap.mpr ⟨later, by simp [present], reads⟩)
    · intro nonce member
      exact accepted nonce (by
        rw [acceptedNonces, mem_append]
        exact .inr member)
    · intro other otherBody member
      exact kept other otherBody (by simp [member])

end Runs

/-- An accepted request is refused for the time to live, unless its hashed text
is forgotten, while fewer than the capacity of other nonces are as new. -/
theorem accepted_request_refused {sha256 : List UInt8 → List UInt8}
    (injective : Function.Injective sha256) (guard : ReplayGuard) (scope : String)
    (body : List UInt8) (first later : Nat) (order laterOrder : IterationOrder String Nat)
    (between : List Call)
    (accepted : (checkAndRecordHash sha256 order guard scope body first).1 = true)
    (ordered : (first :: (between.filterMap Call.second ++ [later])).Pairwise (· ≤ ·))
    (kept : NeverForgets (nonceText scope body) between)
    (few : (rivals sha256 guard (buildNonce sha256 scope body) first
      (checkAndRecordHash sha256 order guard scope body first).2 between).card < maxEntries)
    (recent : later - first < guard.ttlSecs) :
    (checkAndRecordHash sha256 laterOrder
      (afterCalls sha256 (checkAndRecordHash sha256 order guard scope body first).2 between)
      scope body later).1 = false := by
  have started : Remembers (checkAndRecordHash sha256 order guard scope body first).2.seen
      (buildNonce sha256 scope body) first
      (rivals sha256 guard (buildNonce sha256 scope body) first
        (checkAndRecordHash sha256 order guard scope body first).2 between) := by
    refine remembers_accepted accepted ?_ (by omega) few
    intro other ts different found newer
    simp only [rivals, Finset.mem_erase, Finset.mem_union]
    refine ⟨different, .inl ?_⟩
    rw [heldSince, mem_toFinset, ← AList.mem_keys, mem_iff_lookup]
    exact ⟨ts, by simp [found, newer]⟩
  have held := started.run injective between ?_ few ?_ kept
  · have refused := recordIfFresh_refused laterOrder
      (((afterCalls sha256 (checkAndRecordHash sha256 order guard scope body first).2
        between).mutationCount + 1) % 2 ^ 64) held.stored recent
    rw [checkAndRecordHash, afterCalls_ttl]
    exact congrArg Prod.fst refused
  · intro now member
    have before := (pairwise_append.mp (pairwise_cons.mp ordered).2).2.2 now member later
      (by simp)
    show now - first < guard.ttlSecs
    omega
  · intro nonce member different
    simp only [rivals, Finset.mem_erase, Finset.mem_union]
    exact ⟨different, .inr (mem_toFinset.mpr member)⟩

/-- The digest of `webhook:same`. -/
def sampleDigest : List UInt8 :=
  [232, 58, 161, 94, 33, 249, 210, 41, 109, 139, 104, 106, 107, 181, 40, 117,
    16, 162, 53, 106, 174, 39, 241, 154, 62, 95, 199, 133, 39, 103, 148, 64]

/-- A stand-in for SHA-256: its digest of one text, and tagged copies of all
other texts, so that no two texts collide. -/
def sampleSha256 (text : List UInt8) : List UInt8 :=
  if text = nonceText "webhook" "same".toUTF8.data.toList then sampleDigest else 0 :: text

theorem sampleSha256_injective : Function.Injective sampleSha256 := by
  intro first second same
  simp only [sampleSha256] at same
  split_ifs at same with firstSample secondSample secondSample
  · rw [firstSample, secondSample]
  · simp [sampleDigest] at same
  · simp [sampleDigest] at same
  · exact tail_eq_of_cons_eq same

/-- The fresh guard with the default time to live. -/
def freshGuard : ReplayGuard := newWithOptions .held ∅ 0 defaultTtlSecs

/-- A request is refused again after another request and a forget. -/
theorem accepted_request_refused_sample :
    (checkAndRecordHash sampleSha256 .held (afterCalls sampleSha256
        (checkAndRecordHash sampleSha256 .held freshGuard "webhook" "same".toUTF8.data.toList 10).2
        [.check "a2a" "same".toUTF8.data.toList 20 .held, .forget "a2a" "same".toUTF8.data.toList])
      "webhook" "same".toUTF8.data.toList 309).1 = false :=
  accepted_request_refused sampleSha256_injective freshGuard "webhook" "same".toUTF8.data.toList
    10 309 .held .held
    [.check "a2a" "same".toUTF8.data.toList 20 .held, .forget "a2a" "same".toUTF8.data.toList]
    (by decide) (by decide)
    (by
      intro scope body member
      simp only [mem_cons, Call.forget.injEq, reduceCtorEq, not_mem_nil, or_false,
        false_or] at member
      obtain ⟨rfl, rfl⟩ := member
      decide)
    (by decide) (by decide)

section FullSecond

variable {count : Nat} {guard : ReplayGuard} {seen : Seen}

/-- Distinct bodies. -/
def numberedBody (number : Nat) : List UInt8 := replicate number 0

/-- Requests with the first `count` numbered bodies, all in one second. -/
def requests : Nat → List Call
  | 0 => []
  | count + 1 => requests count ++ [.check "webhook" (numberedBody count) 0 .held]

def numberedNonce (number : Nat) : String :=
  buildNonce sampleSha256 "webhook" (numberedBody number)

theorem numberedNonce_injective : Function.Injective numberedNonce := by
  intro first second same
  have texts := (buildNonce_inj sampleSha256_injective).mp same
  have bodies := append_cancel_left texts
  simpa [numberedBody] using congrArg List.length bodies

/-- The entries after the first numbered requests, newest first. -/
def numberedEntries : Nat → List (Σ _ : String, Nat)
  | 0 => []
  | count + 1 => ⟨numberedNonce count, 0⟩ :: numberedEntries count

@[simp] theorem numberedEntries_length (count : Nat) : (numberedEntries count).length = count := by
  induction count with
  | zero => rfl
  | succ count ih => simp [numberedEntries, ih]

theorem mem_numberedEntries {entry : Σ _ : String, Nat} (member : entry ∈ numberedEntries count) :
    entry.2 = 0 ∧ ∃ number < count, entry.1 = numberedNonce number := by
  induction count with
  | zero => cases member
  | succ count ih =>
    rcases mem_cons.mp member with rfl | earlier
    · exact ⟨rfl, count, by omega, rfl⟩
    · obtain ⟨zero, number, below, same⟩ := ih earlier
      exact ⟨zero, number, by omega, same⟩

section

variable (held : seen.entries = numberedEntries count)
include held

/-- A table of numbered requests does not hold the next one. -/
theorem numbered_absent :
    seen.lookup (numberedNonce count) = none := by
  cases found : seen.lookup (numberedNonce count) with
  | none => rfl
  | some ts =>
    rw [← Option.mem_def, mem_lookup_iff, held] at found
    obtain ⟨_, number, below, same⟩ := mem_numberedEntries found
    have := numberedNonce_injective same
    omega

/-- Recording the next request puts it in front. -/
theorem numbered_insert :
    (seen.insert (numberedNonce count) 0).entries = numberedEntries (count + 1) := by
  have fresh : numberedNonce count ∉ seen := by
    rw [← lookup_eq_none]
    exact numbered_absent held
  rw [entries_insert_of_notMem fresh, held, numberedEntries]

/-- Nothing expires within the second. -/
theorem numbered_unexpired :
    (unexpired seen 0 defaultTtlSecs).entries = numberedEntries count := by
  rw [unexpired, entries_retain, held, filter_eq_self]
  intro entry _
  simp [defaultTtlSecs]

/-- Below the capacity the next request of the second is accepted and kept. -/
theorem numbered_recorded (fits : count < maxEntries) (mutation : Nat) :
    (recordIfFresh .held seen (numberedNonce count) 0 defaultTtlSecs mutation).2.entries =
      numberedEntries (count + 1) := by
  have inserted := numbered_insert held
  have fresh : ∀ ts, seen.lookup (numberedNonce count) = some ts → defaultTtlSecs ≤ 0 - ts := by
    rw [numbered_absent held]
    intro ts impossible
    cases impossible
  rcases recordIfFresh_recorded .held mutation fresh with recorded | pruned
  · rw [recorded]
    exact inserted
  · have live := numbered_unexpired inserted
    rw [pruned]
    rcases pruneEntries_cases .held (seen.insert (numberedNonce count) 0) 0 defaultTtlSecs with
      ⟨_, kept⟩ | ⟨full, _⟩
    · rw [kept]
      exact live
    · rw [len, live, numberedEntries_length] at full
      omega

end

/-- A table within the capacity holds every request of the second. -/
theorem requests_seen (fits : count ≤ maxEntries) :
    (afterCalls sampleSha256 freshGuard (requests count)).seen.entries = numberedEntries count := by
  induction count with
  | zero => rfl
  | succ count ih =>
    have held := ih (by omega)
    have ttl : (afterCalls sampleSha256 freshGuard (requests count)).ttlSecs = defaultTtlSecs :=
      afterCalls_ttl freshGuard (requests count)
    rw [requests, afterCalls, foldl_append, ← afterCalls]
    have recorded := numbered_recorded held (by omega : count < maxEntries)
      (((afterCalls sampleSha256 freshGuard (requests count)).mutationCount + 1) % 2 ^ 64)
    rw [← ttl] at recorded
    exact recorded

/-- The request that overfills the second is accepted and evicted at once. -/
theorem overfull_evicted (held : seen.entries = numberedEntries maxEntries) (mutation : Nat) :
    (recordIfFresh .held seen (numberedNonce maxEntries) 0 defaultTtlSecs mutation).1 = true ∧
      (recordIfFresh .held seen (numberedNonce maxEntries) 0 defaultTtlSecs mutation).2.lookup
        (numberedNonce maxEntries) = none := by
  have inserted := numbered_insert held
  have live := numbered_unexpired inserted
  have fresh : ∀ ts, seen.lookup (numberedNonce maxEntries) = some ts → defaultTtlSecs ≤ 0 - ts := by
    rw [numbered_absent held]
    intro ts impossible
    cases impossible
  have liveLength : (unexpired (seen.insert (numberedNonce maxEntries) 0) 0 defaultTtlSecs).len =
      maxEntries + 1 := by
    rw [len, live, numberedEntries_length]
  have pruned : recordIfFresh .held seen (numberedNonce maxEntries) 0 defaultTtlSecs mutation =
      (true, pruneEntries .held (seen.insert (numberedNonce maxEntries) 0) 0 defaultTtlSecs) := by
    have long : maxEntries < len (seen.insert (numberedNonce maxEntries) 0) := by
      rw [len, inserted, numberedEntries_length]
      exact Nat.lt_succ_self _
    rw [recordIfFresh, numbered_absent held]
    simp only [Option.any_none, Bool.false_eq_true, ↓reduceIte, long, true_or]
  rw [pruned]
  refine ⟨rfl, ?_⟩
  rcases pruneEntries_cases .held (seen.insert (numberedNonce maxEntries) 0) 0 defaultTtlSecs with
    ⟨fits, _⟩ | ⟨_, overflow, threshold, evicted⟩
  · omega
  · have entries : (unexpired (arranged .held
        (seen.insert (numberedNonce maxEntries) 0)) 0 defaultTtlSecs).entries = numberedEntries (maxEntries + 1) := live
    rw [entries] at evicted
    have one : overflow = 1 := by
      have excess := evicted.excess
      rw [numberedEntries_length] at excess
      omega
    have equal : ∀ entry ∈ numberedEntries (maxEntries + 1), entry.2 = threshold := by
      obtain ⟨inside, same⟩ := List.getElem?_eq_some_iff.mp evicted.selected
      have chosen := getElem_mem inside
      rw [same, Eviction.ascending, mem_mergeSort, mem_map] at chosen
      obtain ⟨other, present, rank⟩ := chosen
      intro entry member
      rw [← rank, (mem_numberedEntries member).1, (mem_numberedEntries present).1]
    have remaining := evicted.entries
    rw [Eviction.evict_of_equal equal evicted.positive, one, numberedEntries, drop_one,
      tail_cons] at remaining
    cases found : (pruneEntries .held (seen.insert (numberedNonce maxEntries) 0) 0
      defaultTtlSecs).lookup (numberedNonce maxEntries) with
    | none => rfl
    | some ts =>
      rw [← Option.mem_def, mem_lookup_iff, remaining] at found
      obtain ⟨_, number, below, same⟩ := mem_numberedEntries found
      have := numberedNonce_injective same
      omega

/-- A request whose nonce is not held is accepted. -/
theorem check_accepts_absent {sha256 : List UInt8 → List UInt8}
    {order : IterationOrder String Nat} {scope : String} {body : List UInt8}
    {now : Nat} (absent : guard.seen.lookup (buildNonce sha256 scope body) = none) :
    (checkAndRecordHash sha256 order guard scope body now).1 = true := by
  have fresh : ∀ ts, guard.seen.lookup (buildNonce sha256 scope body) = some ts →
      guard.ttlSecs ≤ now - ts := by
    rw [absent]
    intro ts impossible
    cases impossible
  rcases recordIfFresh_recorded order ((guard.mutationCount + 1) % 2 ^ 64) fresh with
    recorded | pruned
  · exact congrArg Prod.fst recorded
  · exact congrArg Prod.fst pruned

/-- A guard that is full of one second's requests accepts the next one twice. -/
theorem overfull_accepted_twice
    (held : guard.seen.entries = numberedEntries maxEntries) (ttl : guard.ttlSecs = defaultTtlSecs) :
    (checkAndRecordHash sampleSha256 .held guard "webhook" (numberedBody maxEntries) 0).1 = true ∧
      (checkAndRecordHash sampleSha256 .held
        (checkAndRecordHash sampleSha256 .held guard "webhook" (numberedBody maxEntries) 0).2
        "webhook" (numberedBody maxEntries) 0).1 = true := by
  have evicted := overfull_evicted held ((guard.mutationCount + 1) % 2 ^ 64)
  rw [← ttl] at evicted
  exact ⟨evicted.1, check_accepts_absent evicted.2⟩

/-- A full second evicts the request it just accepted, and forgetting another
pair with the same hashed text forgets it as well. -/
theorem accepted_twice_within_ttl :
    (∃ guard, guard = afterCalls sampleSha256 freshGuard (requests maxEntries) ∧
      (checkAndRecordHash sampleSha256 .held guard "webhook" (numberedBody maxEntries) 0).1 = true ∧
      (checkAndRecordHash sampleSha256 .held
        (checkAndRecordHash sampleSha256 .held guard "webhook" (numberedBody maxEntries) 0).2
        "webhook" (numberedBody maxEntries) 0).1 = true) ∧
    (checkAndRecordHash sampleSha256 .held freshGuard "a" "b:c".toUTF8.data.toList 0).1 = true ∧
    (checkAndRecordHash sampleSha256 .held (forgetScoped sampleSha256
        (checkAndRecordHash sampleSha256 .held freshGuard "a" "b:c".toUTF8.data.toList 0).2
        "a:b" "c".toUTF8.data.toList)
      "a" "b:c".toUTF8.data.toList 0).1 = true := by
  refine ⟨⟨_, rfl, ?_⟩, by decide, by decide⟩
  exact overfull_accepted_twice (requests_seen (Nat.le_refl maxEntries))
    (afterCalls_ttl freshGuard (requests maxEntries))

end FullSecond

end Asterel.Replay
