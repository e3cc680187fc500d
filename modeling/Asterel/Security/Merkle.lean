import Asterel.Library.HashChain
import Asterel.Library.Hex

/-!
# The hash chain of audit entries

Each entry carries the digest of its predecessor, and its own digest covers its
fields joined with bars. `verify` recomputes every digest and compares every
link but the first. What it accepts with a given last digest is therefore fixed
only as far as that text fixes the fields: an earlier start and another division
of the fields at the bars are accepted as well.

The digest function is a parameter.
-/

namespace Asterel.Merkle

open Library List Hex

/-- A single entry in the audit hash chain. -/
structure AuditEntry where
  sequence : UInt64
  timestamp : String
  eventType : String
  payload : String
  prevHash : String
  hash : String
  deriving DecidableEq

inductive AuditChainError
  | emptyChain
  | brokenChain (atSequence : UInt64)
  | invalidHash (atSequence : UInt64)
  deriving DecidableEq

section Model

variable (sha256 : List UInt8 → List UInt8)

/-- The fields as they are hashed. -/
def entryText (sequence : UInt64) (timestamp eventType payload prevHash : String) : String :=
  Nat.repr sequence.toNat ++ "|" ++ timestamp ++ "|" ++ eventType ++ "|" ++ payload ++ "|" ++
    prevHash

def computeEntryHash (sequence : UInt64) (timestamp eventType payload prevHash : String) :
    String :=
  encode
    (sha256 (entryText sequence timestamp eventType payload prevHash).toUTF8.data.toList)

/-- The state of an append-only chain. -/
structure AuditChain where
  lastHash : String
  nextSequence : UInt64
  deriving DecidableEq

/-- Sentinel previous hash of the genesis entry. -/
def genesisPrevHash : String :=
  "0000000000000000000000000000000000000000000000000000000000000000"

def new : AuditChain := { lastHash := genesisPrevHash, nextSequence := 0 }

/-- A reading of the clock as RFC 3339 text, which contains no bar. -/
structure Rfc3339 where
  text : String
  unbarred : '|' ∉ text.toList

def append (chain : AuditChain) (now : Rfc3339) (eventType payload : String) :
    AuditEntry × AuditChain :=
  let sequence := chain.nextSequence
  let timestamp := now.text
  let prevHash := chain.lastHash
  let hash := computeEntryHash sha256 sequence timestamp eventType payload prevHash
  ({ sequence, timestamp, eventType, payload, prevHash, hash },
    { lastHash := hash, nextSequence := chain.nextSequence + 1 })

/-- Check the entries in order, given the one before them. -/
def verifyFrom : Option AuditEntry → List AuditEntry → Except AuditChainError Unit
  | _, [] => .ok ()
  | previous, entry :: rest =>
    let expectedHash := computeEntryHash sha256 entry.sequence entry.timestamp entry.eventType
      entry.payload entry.prevHash
    if entry.hash ≠ expectedHash then
      .error (.invalidHash entry.sequence)
    else if previous.any (fun prev => entry.prevHash ≠ prev.hash) then
      .error (.brokenChain entry.sequence)
    else
      verifyFrom (some entry) rest

def verify (entries : List AuditEntry) : Except AuditChainError Unit :=
  if entries.isEmpty then .error .emptyChain else verifyFrom sha256 none entries

/-- An event with the reading of the clock when it is appended. -/
structure Event where
  now : Rfc3339
  eventType : String
  payload : String

/-- The entries that appending the events in order returns. -/
def appended (chain : AuditChain) : List Event → List AuditEntry
  | [] => []
  | event :: rest =>
    let (entry, next) := append sha256 chain event.now event.eventType event.payload
    entry :: appended next rest

end Model

section Specification

variable (sha256 : List UInt8 → List UInt8)

/-- The entry stores the hash of its own fields. -/
def Sealed (entry : AuditEntry) : Prop :=
  entry.hash = computeEntryHash sha256 entry.sequence entry.timestamp entry.eventType
    entry.payload entry.prevHash

/-- Both lists end in entries with the same hash. -/
def SameEnd (entries others : List AuditEntry) : Prop :=
  ∃ last ∈ entries.getLast?, ∃ other ∈ others.getLast?, last.hash = other.hash

/-- Whatever verifies with the last hash of these entries is these entries. -/
def TamperEvident (kept : List AuditEntry) : Prop :=
  ∀ entries, verify sha256 entries = .ok () → SameEnd entries kept → entries = kept

/-- How the hashed text is divided into the free fields. -/
def framing (entry : AuditEntry) : Nat × Nat × Nat :=
  (entry.timestamp.length, entry.eventType.length, entry.payload.length)

/-- At most one event, with no bar in its fields, and no entry hashes to the
sentinel. -/
def Pinned (events : List Event) : Prop :=
  events = [] ∨ ∃ event, events = [event] ∧ '|' ∉ event.eventType.toList ∧
    '|' ∉ event.payload.toList ∧ ∀ sequence timestamp eventType payload prevHash,
      computeEntryHash sha256 sequence timestamp eventType payload prevHash ≠ genesisPrevHash

end Specification

section Encoding

variable {sha256 : List UInt8 → List UInt8}
variable {entry other : AuditEntry}

theorem toUTF8_injective {text other : String}
    (same : text.toUTF8.data.toList = other.toUTF8.data.toList) : text = other := by
  apply String.toByteArray_inj.mp
  apply ByteArray.ext
  exact Array.toList_inj.mp same

/-- With an injective digest, equal hashes come from equal texts. -/
theorem entryText_eq (injective : Function.Injective sha256) {sequence otherSequence : UInt64}
    {timestamp eventType payload prevHash otherTimestamp otherType otherPayload otherPrev : String}
    (same : computeEntryHash sha256 sequence timestamp eventType payload prevHash =
      computeEntryHash sha256 otherSequence otherTimestamp otherType otherPayload otherPrev) :
    entryText sequence timestamp eventType payload prevHash =
      entryText otherSequence otherTimestamp otherType otherPayload otherPrev :=
  toUTF8_injective (injective (encode_injective same))

theorem bar_notMem_repr (number : Nat) : '|' ∉ (Nat.repr number).toList := by
  intro member
  rw [Nat.repr, String.toList_ofList] at member
  have digit := Nat.isDigit_of_mem_toDigits (by decide) (by decide) member
  revert digit
  decide

theorem bar_notMem_encode (bytes : List UInt8) : '|' ∉ (encode bytes).toList := by
  simp only [encode, String.toList_ofList, encodeChars, mem_flatMap, not_exists,
    not_and, byteDigits, mem_cons, not_mem_nil, or_false, not_or]
  intro byte _
  constructor
  · exact (Nat.digitChar_ne '|' (by decide)).symm
  · exact (Nat.digitChar_ne '|' (by decide)).symm

/-- The hashed text is the five fields between bars. -/
theorem entryText_toList (sequence : UInt64) (timestamp eventType payload prevHash : String) :
    (entryText sequence timestamp eventType payload prevHash).toList =
      ['|'].intercalate [(Nat.repr sequence.toNat).toList, timestamp.toList, eventType.toList,
        payload.toList, prevHash.toList] := by
  have bar : "|".toList = ['|'] := by decide
  simp [entryText, intercalate_cons_cons, bar]

theorem bar_notMem_hash (sequence : UInt64) (timestamp eventType payload prevHash : String) :
    '|' ∉ (computeEntryHash sha256 sequence timestamp eventType payload prevHash).toList :=
  bar_notMem_encode _

theorem bar_notMem_sealed (isSealed : Sealed sha256 entry) :
    '|' ∉ entry.hash.toList := by
  rw [isSealed]
  exact bar_notMem_hash _ _ _ _ _

/-- Sealed entries with the same hash have the same text. -/
theorem sealed_text_eq (injective : Function.Injective sha256)
    (isSealed : Sealed sha256 entry) (otherSealed : Sealed sha256 other)
    (same : entry.hash = other.hash) :
    ['|'].intercalate [(Nat.repr entry.sequence.toNat).toList, entry.timestamp.toList,
        entry.eventType.toList, entry.payload.toList, entry.prevHash.toList] =
      ['|'].intercalate [(Nat.repr other.sequence.toNat).toList, other.timestamp.toList,
        other.eventType.toList, other.payload.toList, other.prevHash.toList] := by
  have hashes : computeEntryHash sha256 entry.sequence entry.timestamp entry.eventType
      entry.payload entry.prevHash = computeEntryHash sha256 other.sequence other.timestamp
        other.eventType other.payload other.prevHash := by
    rw [← isSealed, ← otherSealed, same]
  rw [← entryText_toList, ← entryText_toList, entryText_eq injective hashes]

theorem sequence_eq {sequence other : UInt64}
    (same : (Nat.repr sequence.toNat).toList = (Nat.repr other.toNat).toList) :
    sequence = other := by
  have digits : Nat.toDigits 10 sequence.toNat = Nat.toDigits 10 other.toNat := by
    simpa [Nat.repr] using same
  have numbers := congrArg (Nat.ofDigitChars 10 · 0) digits
  simp only [Nat.ofDigitChars_ten_toDigits] at numbers
  exact UInt64.toNat_inj.mp numbers

variable (injective : Function.Injective sha256) (isSealed : Sealed sha256 entry)
  (otherSealed : Sealed sha256 other)
include injective isSealed otherSealed

/-- Linked entries with the same hash are linked to entries with the same hash. -/
theorem links_eq (clear : '|' ∉ entry.prevHash.toList) (otherClear : '|' ∉ other.prevHash.toList)
    (same : entry.hash = other.hash) : entry.prevHash = other.prevHash := by
  have texts := sealed_text_eq injective isSealed otherSealed same
  simp only [intercalate_cons_cons, intercalate_singleton, ← append_assoc] at texts
  simp only [append_assoc _ ['|'], singleton_append] at texts
  exact String.toList_inj.mp (HashChain.last_field_eq clear otherClear texts).1

/-- Sealed entries with the same hash and the same division of the text are equal. -/
theorem entry_eq_of_framing
    (same : entry.hash = other.hash) (framed : framing entry = framing other) :
    entry = other := by
  have texts := sealed_text_eq injective isSealed otherSealed same
  simp only [intercalate_cons_cons, intercalate_singleton, append_assoc, singleton_append] at texts
  simp only [framing, Prod.mk.injEq, ← String.length_toList] at framed
  obtain ⟨timestampLength, typeLength, payloadLength⟩ := framed
  obtain ⟨digits, texts⟩ := HashChain.first_field_eq (bar_notMem_repr _) (bar_notMem_repr _) texts
  obtain ⟨timestamps, texts⟩ := append_inj texts timestampLength
  obtain ⟨types, texts⟩ := append_inj (List.cons.inj texts).2 typeLength
  obtain ⟨payloads, texts⟩ := append_inj (List.cons.inj texts).2 payloadLength
  have prevs := (List.cons.inj texts).2
  cases entry
  cases other
  simp only [AuditEntry.mk.injEq]
  exact ⟨sequence_eq digits, String.toList_inj.mp timestamps, String.toList_inj.mp types,
    String.toList_inj.mp payloads, String.toList_inj.mp prevs, same⟩

end Encoding

section Verification

variable {sha256 : List UInt8 → List UInt8}

/-- Every entry is linked to the one before it. -/
abbrev Linked (entries : List AuditEntry) : Prop :=
  HashChain.Linked AuditEntry.hash AuditEntry.prevHash entries

theorem verifyFrom_eq_ok_iff (previous : Option AuditEntry) (entries : List AuditEntry) :
    verifyFrom sha256 previous entries = .ok () ↔
      (∀ entry ∈ entries, Sealed sha256 entry) ∧ Linked (previous.toList ++ entries) := by
  induction entries generalizing previous with
  | nil => cases previous <;> simp [verifyFrom, HashChain.Linked]
  | cons entry rest ih =>
    rw [verifyFrom, forall_mem_cons]
    by_cases isSealed : Sealed sha256 entry
    · have accepted : ¬ entry.hash ≠ computeEntryHash sha256 entry.sequence entry.timestamp
          entry.eventType entry.payload entry.prevHash := fun differs => differs isSealed
      rw [if_neg accepted]
      cases previous with
      | none =>
        simp only [Option.any_none, Bool.false_eq_true, ↓reduceIte, Option.toList_none,
          nil_append, ih, Option.toList_some, singleton_append]
        exact ⟨fun met => ⟨⟨isSealed, met.1⟩, met.2⟩, fun met => ⟨met.1.2, met.2⟩⟩
      | some prev =>
        by_cases link : entry.prevHash = prev.hash
        · simp only [Option.any_some, ne_eq, link, not_true_eq_false, decide_false,
            Bool.false_eq_true, ↓reduceIte, ih, Option.toList_some,
            singleton_append, HashChain.Linked, isChain_cons_cons, true_and]
          exact ⟨fun met => ⟨⟨isSealed, met.1⟩, met.2⟩, fun met => ⟨met.1.2, met.2⟩⟩
        · simp [link, HashChain.Linked]
    · have refused : entry.hash ≠ computeEntryHash sha256 entry.sequence entry.timestamp
          entry.eventType entry.payload entry.prevHash := isSealed
      simp [refused, isSealed]

/-- What `verify` accepts: entries that store their own hash, each linked to the
one before it. -/
theorem verify_eq_ok_iff (entries : List AuditEntry) :
    verify sha256 entries = .ok () ↔
      entries ≠ [] ∧ (∀ entry ∈ entries, Sealed sha256 entry) ∧ Linked entries := by
  cases entries with
  | nil => simp [verify]
  | cons entry rest =>
    rw [verify, isEmpty_cons, if_neg Bool.false_ne_true, verifyFrom_eq_ok_iff]
    simp

theorem linked_cons {entry : AuditEntry} {rest : List AuditEntry} :
    Linked (entry :: rest) ↔ (∀ head ∈ rest.head?, head.prevHash = entry.hash) ∧ Linked rest := by
  cases rest with
  | nil => simp [HashChain.Linked]
  | cons head others => simp [HashChain.Linked, isChain_cons_cons]

end Verification

section Appending

variable (sha256 : List UInt8 → List UInt8)
variable (chain : AuditChain)

theorem appended_length (events : List Event) :
    (appended sha256 chain events).length = events.length := by
  induction events generalizing chain with
  | nil => rfl
  | cons event rest ih => simp [appended, ih]

theorem appended_sealed (events : List Event) :
    ∀ entry ∈ appended sha256 chain events, Sealed sha256 entry := by
  induction events generalizing chain with
  | nil => simp [appended]
  | cons event rest ih =>
    simp only [appended, append, forall_mem_cons]
    exact ⟨rfl, ih _⟩

/-- The first entry is linked to where the chain stood. -/
theorem appended_head (events : List Event) :
    ∀ head ∈ (appended sha256 chain events).head?, head.prevHash = chain.lastHash := by
  cases events <;> simp [appended, append]

theorem appended_linked (events : List Event) :
    Linked (appended sha256 chain events) := by
  induction events generalizing chain with
  | nil => simp [appended, HashChain.Linked]
  | cons event rest ih =>
    rw [appended, linked_cons]
    exact ⟨appended_head sha256 _ _, ih _⟩

/-- Every list of entries appended to a chain verifies. -/
theorem appended_verified {events : List Event} (some : events ≠ []) :
    verify sha256 (appended sha256 chain events) = .ok () := by
  have nonempty : appended sha256 chain events ≠ [] := by
    intro empty
    have length := appended_length sha256 chain events
    rw [empty, length_nil] at length
    exact some (length_eq_zero_iff.mp length.symm)
  exact (verify_eq_ok_iff _).mpr ⟨nonempty, appended_sealed sha256 chain events,
    appended_linked sha256 chain events⟩

end Appending

section Tampering

variable {sha256 : List UInt8 → List UInt8} {entries kept : List AuditEntry}
variable (event : Event)

/-- Verified lists of one length with the same last hash have the same hash in
every place. -/
theorem hashes_agree (injective : Function.Injective sha256)
    (isSealed : ∀ entry ∈ entries, Sealed sha256 entry) (linked : Linked entries)
    (keptSealed : ∀ entry ∈ kept, Sealed sha256 entry) (keptLinked : Linked kept)
    (length : entries.length = kept.length) (ending : SameEnd entries kept) :
    Forall₂ (fun entry other => entry.hash = other.hash) entries kept := by
  apply HashChain.digests_agree linked keptLinked length
  · intro entry inEntries other inKept before inBefore otherBefore inOther link otherLink same
    have clear : '|' ∉ entry.prevHash.toList := by
      rw [link]
      exact bar_notMem_sealed (isSealed before inBefore)
    have otherClear : '|' ∉ other.prevHash.toList := by
      rw [otherLink]
      exact bar_notMem_sealed (keptSealed otherBefore inOther)
    have links := links_eq injective (isSealed entry inEntries) (keptSealed other inKept) clear
      otherClear same
    rw [← link, ← otherLink, links]
  · obtain ⟨last, lastFound, other, otherFound, same⟩ := ending
    rw [Option.mem_def.mp lastFound, Option.mem_def.mp otherFound, Option.map_some,
      Option.map_some, same]

/-- Places with the same hash and the same division hold the same entry. -/
theorem entries_eq_of_framing (injective : Function.Injective sha256)
    (isSealed : ∀ entry ∈ entries, Sealed sha256 entry)
    (keptSealed : ∀ entry ∈ kept, Sealed sha256 entry)
    (agree : Forall₂ (fun entry other => entry.hash = other.hash) entries kept)
    (framed : entries.map framing = kept.map framing) : entries = kept := by
  induction agree with
  | nil => rfl
  | cons same _ ih =>
    obtain ⟨entrySealed, restSealed⟩ := forall_mem_cons.mp isSealed
    obtain ⟨otherSealed, othersSealed⟩ := forall_mem_cons.mp keptSealed
    obtain ⟨first, rest⟩ := List.cons.inj framed
    rw [entry_eq_of_framing injective entrySealed otherSealed same first,
      ih restSealed othersSealed rest]

/-- A verified list with the last hash of the entries appended is that list when
it divides into as many entries with fields of the same lengths. -/
theorem eq_appended_iff_framing (injective : Function.Injective sha256) (events : List Event)
    (verified : verify sha256 entries = .ok ())
    (ending : SameEnd entries (appended sha256 new events)) :
    entries = appended sha256 new events ↔
      entries.map framing = (appended sha256 new events).map framing := by
  constructor
  · intro same
    rw [same]
  · intro framed
    obtain ⟨_, isSealed, linked⟩ := (verify_eq_ok_iff entries).mp verified
    have length : entries.length = (appended sha256 new events).length := by
      simpa using congrArg List.length framed
    have agree := hashes_agree injective isSealed linked (appended_sealed sha256 new events)
      (appended_linked sha256 new events) length ending
    exact entries_eq_of_framing injective isSealed (appended_sealed sha256 new events) agree framed

/-- Without its first entry the list still verifies. -/
theorem verify_tail {entry next : AuditEntry} {rest : List AuditEntry}
    (verified : verify sha256 (entry :: next :: rest) = .ok ()) :
    verify sha256 (next :: rest) = .ok () := by
  obtain ⟨_, isSealed, linked⟩ := (verify_eq_ok_iff _).mp verified
  obtain ⟨_, restSealed⟩ := forall_mem_cons.mp isSealed
  exact (verify_eq_ok_iff _).mpr ⟨by simp, restSealed, (linked_cons.mp linked).2⟩

/-- Two events or more are not tamper evident: the first entry can be dropped. -/
theorem not_tamperEvident_of_two (first second : Event) (rest : List Event) :
    ¬ TamperEvident sha256 (appended sha256 new (first :: second :: rest)) := by
  intro evident
  have verified := appended_verified sha256 new (cons_ne_nil first (second :: rest))
  simp only [appended] at verified evident
  have shorter := evident _ (verify_tail verified) (by
    refine ⟨_, getLast?_eq_some_getLast (cons_ne_nil _ _), _, ?_, rfl⟩
    rw [Option.mem_def, getLast?_cons_cons]
    exact getLast?_eq_some_getLast (cons_ne_nil _ _))
  have lengths := congrArg List.length shorter
  simp at lengths

/-- An entry whose text divides into other fields as well can be replaced. -/
theorem not_tamperEvident_of_reading {entry : AuditEntry} (isSealed : Sealed sha256 entry)
    (timestamp eventType payload prevHash : String)
    (reading : entryText entry.sequence timestamp eventType payload prevHash =
      entryText entry.sequence entry.timestamp entry.eventType entry.payload entry.prevHash)
    (different : eventType ≠ entry.eventType) : ¬ TamperEvident sha256 [entry] := by
  intro evident
  let forged : AuditEntry := { entry with timestamp, eventType, payload, prevHash }
  have forgedSealed : Sealed sha256 forged := by
    rw [Sealed, computeEntryHash, reading, ← computeEntryHash]
    exact isSealed
  have verified : verify sha256 [forged] = .ok () :=
    (verify_eq_ok_iff _).mpr ⟨by simp, by simpa using forgedSealed, by simp [HashChain.Linked]⟩
  have same : [forged] = [entry] := evident _ verified ⟨forged, rfl, entry, rfl, rfl⟩
  exact different (congrArg AuditEntry.eventType (List.cons.inj same).1)

/-- The text around a bar. -/
theorem exists_around_bar {text : String} (bar : '|' ∈ text.toList) :
    ∃ before after : String, text = before ++ "|" ++ after := by
  obtain ⟨before, after, split⟩ := append_of_mem bar
  refine ⟨String.ofList before, String.ofList after, String.toList_inj.mp ?_⟩
  have single : "|".toList = ['|'] := by decide
  simp [split, single]

theorem not_tamperEvident_of_bar (bar : '|' ∈ event.eventType.toList ∨ '|' ∈ event.payload.toList) :
    ¬ TamperEvident sha256 (appended sha256 new [event]) := by
  have isSealed := appended_sealed sha256 new [event]
  simp only [appended, append, forall_mem_singleton] at isSealed ⊢
  cases bar with
  | inl inType =>
    obtain ⟨before, after, split⟩ := exists_around_bar inType
    -- the type is cut at its bar and the rest moved to the payload
    apply not_tamperEvident_of_reading isSealed event.now.text before
      (after ++ "|" ++ event.payload) genesisPrevHash
    · simp [entryText, split, new, String.append_assoc]
    · intro same
      have lengths := congrArg String.length (same.trans split)
      have single : "|".length = 1 := by decide
      simp only [String.length_append] at lengths
      omega
  | inr inPayload =>
    obtain ⟨before, after, split⟩ := exists_around_bar inPayload
    -- the payload is cut at its bar and its start moved to the type
    apply not_tamperEvident_of_reading isSealed event.now.text
      (event.eventType ++ "|" ++ before) after genesisPrevHash
    · simp [entryText, split, new, String.append_assoc]
    · intro same
      have lengths := congrArg String.length same
      simp only [String.length_append] at lengths
      have single : "|".length = 1 := by decide
      omega

/-- With a digest equal to the sentinel, an entry can be put before the first. -/
theorem not_tamperEvident_of_sentinel {sequence : UInt64}
    {timestamp eventType payload prevHash : String}
    (hit : computeEntryHash sha256 sequence timestamp eventType payload prevHash =
      genesisPrevHash) : ¬ TamperEvident sha256 (appended sha256 new [event]) := by
  intro evident
  have isSealed := appended_sealed sha256 new [event]
  have head := appended_head sha256 new [event]
  simp only [appended, forall_mem_singleton, head?_cons, Option.mem_def,
    Option.some.injEq, forall_eq'] at isSealed head evident
  let earlier : AuditEntry :=
    { sequence, timestamp, eventType, payload, prevHash, hash := genesisPrevHash }
  have earlierSealed : Sealed sha256 earlier := hit.symm
  have verified : verify sha256 [earlier, (append sha256 new event.now event.eventType
      event.payload).1] = .ok () := by
    refine (verify_eq_ok_iff _).mpr ⟨by simp, ?_, ?_⟩
    · simpa using ⟨earlierSealed, isSealed⟩
    · simpa [HashChain.Linked, earlier] using head.trans (show new.lastHash = genesisPrevHash from rfl)
  have lengths := congrArg List.length
    (evident _ verified ⟨_, rfl, _, rfl, rfl⟩)
  simp at lengths

/-- One event without bars is tamper evident, when no entry hashes to the sentinel. -/
theorem tamperEvident_single (injective : Function.Injective sha256) (event : Event)
    (typeClear : '|' ∉ event.eventType.toList) (payloadClear : '|' ∉ event.payload.toList)
    (missed : ∀ sequence timestamp eventType payload prevHash,
      computeEntryHash sha256 sequence timestamp eventType payload prevHash ≠ genesisPrevHash) :
    TamperEvident sha256 (appended sha256 new [event]) := by
  intro entries verified ending
  obtain ⟨_, isSealed, linked⟩ := (verify_eq_ok_iff entries).mp verified
  have eventSealed := appended_sealed sha256 new [event]
  simp only [appended, append, forall_mem_singleton] at eventSealed
  obtain ⟨last, lastFound, kept, keptFound, same⟩ := ending
  simp only [appended, append, getLast?_singleton, Option.mem_def, Option.some.injEq]
    at keptFound
  subst keptFound
  have lastSealed := isSealed last (mem_of_getLast? lastFound)
  have texts := sealed_text_eq injective lastSealed eventSealed same
  have clear : '|' ∉ genesisPrevHash.toList := by decide
  have fieldsClear : ∀ field ∈ [(Nat.repr (0 : UInt64).toNat).toList, event.now.text.toList,
      event.eventType.toList, event.payload.toList, genesisPrevHash.toList], '|' ∉ field := by
    simp only [forall_mem_cons, not_mem_nil, false_implies, implies_true, and_true]
    exact ⟨bar_notMem_repr _, event.now.unbarred, typeClear, payloadClear, clear⟩
  have fields := HashChain.fields_eq (by simp) fieldsClear texts
  simp only [List.cons.injEq, and_true] at fields
  obtain ⟨digits, timestamps, types, payloads, prevs⟩ := fields
  have lastEq : last = (append sha256 new event.now event.eventType event.payload).1 := by
    cases last
    simp only [append, AuditEntry.mk.injEq]
    exact ⟨sequence_eq digits, String.toList_inj.mp timestamps, String.toList_inj.mp types,
      String.toList_inj.mp payloads, String.toList_inj.mp prevs, same⟩
  obtain ⟨rest, split⟩ := getLast?_eq_some_iff.mp lastFound
  cases earlierFound : rest.getLast? with
  | none =>
    rw [split, getLast?_eq_none_iff.mp earlierFound, lastEq]
    rfl
  | some earlier =>
    rw [split] at linked isSealed
    have link := (HashChain.linked_concat.mp linked).2 earlier earlierFound
    have earlierSealed := isSealed earlier
      (mem_append_left _ (mem_of_getLast? earlierFound))
    exact absurd (by rw [← earlierSealed, ← link, lastEq]; rfl)
      (missed earlier.sequence earlier.timestamp earlier.eventType earlier.payload earlier.prevHash)

/-- Which appended lists are pinned by their last hash. -/
theorem tamperEvident_iff (injective : Function.Injective sha256) (events : List Event) :
    TamperEvident sha256 (appended sha256 new events) ↔ Pinned sha256 events := by
  cases events with
  | nil =>
    have vacuous : TamperEvident sha256 (appended sha256 new []) := by
      rintro entries _ ⟨_, _, _, found, _⟩
      simp [appended] at found
    exact iff_of_true vacuous (Or.inl rfl)
  | cons event rest =>
    cases rest with
    | nil =>
      constructor
      · intro evident
        refine Or.inr ⟨event, rfl, fun bar => ?_, fun bar => ?_, fun _ _ _ _ _ hit => ?_⟩
        · exact not_tamperEvident_of_bar event (Or.inl bar) evident
        · exact not_tamperEvident_of_bar event (Or.inr bar) evident
        · exact not_tamperEvident_of_sentinel event hit evident
      · rintro (none | ⟨single, same, typeClear, payloadClear, missed⟩)
        · cases none
        · cases same
          exact tamperEvident_single injective event typeClear payloadClear missed
    | cons second others =>
      apply iff_of_false (not_tamperEvident_of_two event second others)
      rintro (none | ⟨_, same, _⟩)
      · cases none
      · cases same

end Tampering

/-- Appended entries always verify. What verifies with their last hash is these
entries exactly when it divides into as many entries with fields of the same
lengths; all that verifies so is these entries exactly for at most one event
without bars, when no entry hashes to the sentinel. -/
theorem tamper_evidence_exact (sha256 : List UInt8 → List UInt8)
    (injective : Function.Injective sha256) (events : List Event) :
    (TamperEvident sha256 (appended sha256 new events) ↔ Pinned sha256 events) ∧
      (∀ entries, verify sha256 entries = .ok () → SameEnd entries (appended sha256 new events) →
          (entries = appended sha256 new events ↔
            entries.map framing = (appended sha256 new events).map framing)) ∧
      (events ≠ [] → verify sha256 (appended sha256 new events) = .ok ()) := by
  refine ⟨tamperEvident_iff injective events, fun entries verified ending => ?_, fun some => ?_⟩
  · exact eq_appended_iff_framing injective events verified ending
  · exact appended_verified sha256 new some

/-- A login and the action after it. -/
def sampleEvents : List Event :=
  [⟨⟨"2025-01-01T00:00:00+00:00", by decide⟩, "login", "user=alice"⟩,
    ⟨⟨"2025-01-01T00:00:05+00:00", by decide⟩, "action", "transfer $100"⟩]

/-- The SHA-256 digest of the text of the login. -/
def loginDigest : List UInt8 :=
  [87, 7, 205, 232, 28, 148, 244, 43, 231, 59, 238, 133, 147, 100, 27, 222,
    116, 249, 40, 219, 177, 233, 32, 198, 185, 237, 25, 99, 178, 218, 241, 47]

/-- The SHA-256 digest of the text of the action. -/
def actionDigest : List UInt8 :=
  [181, 41, 235, 23, 23, 254, 80, 19, 61, 53, 227, 182, 98, 86, 193, 243,
    41, 20, 147, 14, 67, 8, 188, 134, 230, 127, 94, 212, 32, 21, 17, 41]

/-- SHA-256 on the texts of the two entries, and longer than any digest elsewhere. -/
def sampleSha256 (bytes : List UInt8) : List UInt8 :=
  if bytes = (entryText 0 "2025-01-01T00:00:00+00:00" "login" "user=alice"
      genesisPrevHash).toUTF8.data.toList then
    loginDigest
  else if bytes = (entryText 1 "2025-01-01T00:00:05+00:00" "action" "transfer $100"
      (encode loginDigest)).toUTF8.data.toList then
    actionDigest
  else
    replicate 33 0 ++ bytes

theorem sampleSha256_injective : Function.Injective sampleSha256 := by
  have loginShort : ∀ bytes, loginDigest ≠ replicate 33 0 ++ bytes := by
    intro bytes same
    have lengths := congrArg List.length same
    simp [loginDigest] at lengths
  have actionShort : ∀ bytes, actionDigest ≠ replicate 33 0 ++ bytes := by
    intro bytes same
    have lengths := congrArg List.length same
    simp [actionDigest] at lengths
  have distinct : loginDigest ≠ actionDigest := by decide
  intro bytes other same
  simp only [sampleSha256] at same
  split at same
  · split at same
    · simp only [*]
    · split at same
      · exact absurd same distinct
      · exact absurd same (loginShort other)
  · split at same
    · split at same
      · exact absurd same.symm distinct
      · split at same
        · simp only [*]
        · exact absurd same (actionShort other)
    · split at same
      · exact absurd same.symm (loginShort bytes)
      · split at same
        · exact absurd same.symm (actionShort bytes)
        · exact append_cancel_left same

/-- The list stays acceptable with its last hash when the login is dropped. -/
theorem dropped_login_accepted :
    Function.Injective sampleSha256 ∧
      ¬ TamperEvident sampleSha256 (appended sampleSha256 new sampleEvents) :=
  ⟨sampleSha256_injective, not_tamperEvident_of_two _ _ []⟩

theorem tamper_evidence_exact_sample :
    (TamperEvident sampleSha256 (appended sampleSha256 new sampleEvents) ↔
        Pinned sampleSha256 sampleEvents) ∧
      (∀ entries, verify sampleSha256 entries = .ok () →
        SameEnd entries (appended sampleSha256 new sampleEvents) →
          (entries = appended sampleSha256 new sampleEvents ↔
            entries.map framing = (appended sampleSha256 new sampleEvents).map framing)) ∧
      (sampleEvents ≠ [] → verify sampleSha256 (appended sampleSha256 new sampleEvents) = .ok ()) :=
  tamper_evidence_exact sampleSha256 sampleSha256_injective sampleEvents

end Asterel.Merkle
