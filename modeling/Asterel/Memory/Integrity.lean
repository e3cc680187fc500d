import Asterel.Library.HashChain
import Asterel.Library.Hex
import Asterel.Library.SealedChain
import Mathlib.Data.String.Basic

/-!
# The hash chains of the memory tables

`memory_events` and `deletion_ledger` store with every row the hash of the row before
it and a hash of the canonical text of the row, a line for each field. The verifier
reads the rows back in the order of `seq_id`, no more than its limit of them, and
recomputes every hash from what it read.

The canonical text joins free text with line feeds, and reads an absent field as the
empty text. The digest function is a parameter.
-/

namespace Asterel.Integrity

open Library List SealedChain

section Scores

/-- An `f64` by its bits. -/
structure F64 where
  bits : UInt64
  deriving DecidableEq

namespace F64

def isSignNegative (v : F64) : Bool := 2 ^ 63 ≤ v.bits.toNat

def exponent (v : F64) : Nat := v.bits.toNat / 2 ^ 52 % 2 ^ 11

def fraction (v : F64) : Nat := v.bits.toNat % 2 ^ 52

def isNan (v : F64) : Bool := v.exponent = 2047 && v.fraction ≠ 0

def isInfinite (v : F64) : Bool := v.exponent = 2047 && v.fraction = 0

def max : F64 := ⟨0x7FEFFFFFFFFFFFFF⟩

def min : F64 := ⟨0xFFEFFFFFFFFFFFFF⟩

/-- The distance from zero of a finite number in units of `2 ^ -1074`. -/
def magnitude (v : F64) : Nat :=
  if v.exponent = 0 then v.fraction else (2 ^ 52 + v.fraction) * 2 ^ (v.exponent - 1)

/-- The quotient rounded to the nearest, and to even between two. -/
def roundQuotient (dividend divisor : Nat) : Nat :=
  let quotient := dividend / divisor
  let remainder := dividend % divisor
  if 2 * remainder < divisor then quotient
  else if divisor < 2 * remainder then quotient + 1
  else quotient + quotient % 2

/-- The format with 17 digits behind the point. -/
def fixed17 (v : F64) : String :=
  let units := roundQuotient (v.magnitude * 10 ^ 17) (2 ^ 1074)
  let decimals := Nat.repr (units % 10 ^ 17)
  let padding := String.ofList (replicate (17 - decimals.length) '0')
  (if v.isSignNegative then "-" else "") ++ Nat.repr (units / 10 ^ 17) ++ "." ++ padding ++ decimals

end F64

def canonicalF64 (v : F64) : String :=
  if v.isNan then "0"
  else if v.isInfinite then (if v.isSignNegative then F64.min else F64.max).fixed17
  else if v.magnitude = 0 then "0"
  else v.fixed17

/-- A score with digits that are not exact. -/
example : canonicalF64 ⟨0x3FEB333333333333⟩ = "0.84999999999999998" := by decide +kernel

end Scores

section Tables

def optionalOrEmpty (v : Option String) : String := v.getD ""

/-- Fields required to compute a `memory_events` integrity hash. -/
structure MemoryEventHashFields where
  eventId : String
  entityId : String
  slotKey : String
  layer : String
  eventType : String
  value : String
  source : String
  confidence : F64
  importance : F64
  provenanceSourceClass : Option String
  provenanceReference : Option String
  provenanceEvidenceUri : Option String
  retentionTier : String
  retentionExpiresAt : Option String
  signalTier : String
  sourceKind : Option String
  privacyLevel : String
  occurredAt : String
  ingestedAt : String
  supersedesEventId : Option String
  deriving DecidableEq

/-- Fields required to compute a `deletion_ledger` integrity hash. -/
structure DeletionLedgerHashFields where
  ledgerId : String
  entityId : String
  targetSlotKey : String
  phase : String
  reason : String
  requestedBy : String
  executedAt : String
  deriving DecidableEq

/-- What the two tables with a hash chain differ in. -/
structure ChainedTable (φ : Type) where
  chain : String
  genesisSeed : String
  rowKey : φ → String
  canonicalFields : φ → List (String × String)
  names : List String
  named : ∀ fields, (canonicalFields fields).map Prod.fst = names
  some : names ≠ []
  seed : genesisSeed.toList.head? ≠ Option.some 'v'

def memoryEvents : ChainedTable MemoryEventHashFields where
  chain := "memory_events"
  genesisSeed := "asterel-integrity:memory_events:genesis:v1"
  rowKey := MemoryEventHashFields.eventId
  canonicalFields f :=
    [("event_id", f.eventId), ("entity_id", f.entityId), ("slot_key", f.slotKey),
      ("layer", f.layer), ("event_type", f.eventType), ("value", f.value), ("source", f.source),
      ("confidence", canonicalF64 f.confidence), ("importance", canonicalF64 f.importance),
      ("provenance_source_class", optionalOrEmpty f.provenanceSourceClass),
      ("provenance_reference", optionalOrEmpty f.provenanceReference),
      ("provenance_evidence_uri", optionalOrEmpty f.provenanceEvidenceUri),
      ("retention_tier", f.retentionTier),
      ("retention_expires_at", optionalOrEmpty f.retentionExpiresAt),
      ("signal_tier", f.signalTier), ("source_kind", optionalOrEmpty f.sourceKind),
      ("privacy_level", f.privacyLevel), ("occurred_at", f.occurredAt),
      ("ingested_at", f.ingestedAt), ("supersedes_event_id", optionalOrEmpty f.supersedesEventId)]
  names :=
    ["event_id", "entity_id", "slot_key", "layer", "event_type", "value", "source", "confidence",
      "importance", "provenance_source_class", "provenance_reference", "provenance_evidence_uri",
      "retention_tier", "retention_expires_at", "signal_tier", "source_kind", "privacy_level",
      "occurred_at", "ingested_at", "supersedes_event_id"]
  named _ := rfl
  some := cons_ne_nil _ _
  seed := by decide

def deletionLedger : ChainedTable DeletionLedgerHashFields where
  chain := "deletion_ledger"
  genesisSeed := "asterel-integrity:deletion_ledger:genesis:v1"
  rowKey := DeletionLedgerHashFields.ledgerId
  canonicalFields f :=
    [("ledger_id", f.ledgerId), ("entity_id", f.entityId), ("target_slot_key", f.targetSlotKey),
      ("phase", f.phase), ("reason", f.reason), ("requested_by", f.requestedBy),
      ("executed_at", f.executedAt)]
  names :=
    ["ledger_id", "entity_id", "target_slot_key", "phase", "reason", "requested_by", "executed_at"]
  named _ := rfl
  some := cons_ne_nil _ _
  seed := by decide

end Tables

section Chains

variable {φ : Type} (sha256 : List UInt8 → List UInt8) (table : ChainedTable φ)

def digestText (text : List Char) : String :=
  Hex.encode (sha256 (String.ofList text).toUTF8.data.toList)

def genesisHash : String := digestText sha256 table.genesisSeed.toList

/-- A line of the canonical text. -/
def canonicalLine (field : String × String) : List Char := field.1.toList ++ '=' :: field.2.toList

def canonicalText (fields : List (String × String)) : List Char :=
  ['\n'].intercalate (fields.map canonicalLine)

def computeHash (prevHash : String) (f : φ) : String :=
  digestText sha256 (canonicalText
    (("v", "1") :: ("chain", table.chain) :: ("prev_hash", prevHash) :: table.canonicalFields f))

/-- Compute the integrity hash for a `memory_events` row. -/
def computeMemoryEventHash : String → MemoryEventHashFields → String :=
  computeHash sha256 memoryEvents

/-- Compute the integrity hash for a `deletion_ledger` row. -/
def computeDeletionLedgerHash : String → DeletionLedgerHashFields → String :=
  computeHash sha256 deletionLedger

/-- A row as the verifier reads it back. -/
structure Row (φ : Type) where
  fields : φ
  integrityPrevHash : String
  integrityHash : String
  deriving DecidableEq

/-- Compute the next hash in the chain, behind the last row of the table. -/
def nextChain (rows : List (Row φ)) (f : φ) : String × String :=
  let prevHash := (rows.getLast?.map Row.integrityHash).getD (genesisHash sha256 table)
  (prevHash, computeHash sha256 table prevHash f)

def nextMemoryEventChain :
    List (Row MemoryEventHashFields) → MemoryEventHashFields → String × String :=
  nextChain sha256 memoryEvents

def nextDeletionLedgerChain :
    List (Row DeletionLedgerHashFields) → DeletionLedgerHashFields → String × String :=
  nextChain sha256 deletionLedger

def appendRow (rows : List (Row φ)) (f : φ) : List (Row φ) :=
  let (prevHash, hash) := nextChain sha256 table rows f
  rows ++ [⟨f, prevHash, hash⟩]

/-- The table that appending the rows in order leaves. -/
def appended (log : List φ) : List (Row φ) := log.foldl (appendRow sha256 table) []

structure MemoryIntegrityIssue where
  chain : String
  rowKey : String
  reason : String
  deriving DecidableEq

/-- The hash the next row is expected to store, and the issues of this one. -/
def verifyRow (expectedPrev : String) (row : Row φ) : String × List MemoryIntegrityIssue :=
  let storedPrev := row.integrityPrevHash
  let storedHash := row.integrityHash
  let rowKey := table.rowKey row.fields
  let linkIssues :=
    if storedPrev ≠ expectedPrev then
      [⟨table.chain, rowKey,
        "prev_hash mismatch: expected=" ++ expectedPrev ++ ", stored=" ++ storedPrev⟩]
    else []
  let computed := computeHash sha256 table storedPrev row.fields
  let hashIssues :=
    if computed ≠ storedHash then
      [⟨table.chain, rowKey, "hash mismatch: computed=" ++ computed ++ ", stored=" ++ storedHash⟩]
    else []
  (storedHash, linkIssues ++ hashIssues)

def verifyMemoryEventRow :
    String → Row MemoryEventHashFields → String × List MemoryIntegrityIssue :=
  verifyRow sha256 memoryEvents

def verifyDeletionLedgerRow :
    String → Row DeletionLedgerHashFields → String × List MemoryIntegrityIssue :=
  verifyRow sha256 deletionLedger

/-- Walk the rows with the hash expected of the next one. -/
def verifyRows : String → List (Row φ) → List MemoryIntegrityIssue
  | _, [] => []
  | expectedPrev, row :: rest =>
    let (nextPrev, issues) := verifyRow sha256 table expectedPrev row
    issues ++ verifyRows nextPrev rest

def integrityVerificationRowLimit : Nat := 100000

structure ChainVerification where
  checkedRows : Nat
  truncated : Bool
  issues : List MemoryIntegrityIssue
  deriving DecidableEq

def verifyChain (rows : List (Row φ)) : ChainVerification :=
  let rows := rows.take integrityVerificationRowLimit
  { checkedRows := rows.length
    truncated := integrityVerificationRowLimit ≤ rows.length
    issues := verifyRows sha256 table (genesisHash sha256 table) rows }

def verifyMemoryEventsChain : List (Row MemoryEventHashFields) → ChainVerification :=
  verifyChain sha256 memoryEvents

def verifyDeletionLedgerChain : List (Row DeletionLedgerHashFields) → ChainVerification :=
  verifyChain sha256 deletionLedger

structure MemoryIntegrityReport where
  backend : String
  isVerified : Bool
  checkedMemoryEvents : Nat
  checkedDeletionLedger : Nat
  issues : List MemoryIntegrityIssue
  deriving DecidableEq

def truncationIssue (chain : String) : MemoryIntegrityIssue :=
  ⟨chain, "", "Verification truncated at " ++ Nat.repr integrityVerificationRowLimit ++
    " rows; remaining rows were not checked"⟩

/-- Verify integrity of both hash chains. -/
def verifyIntegrity (eventRows : List (Row MemoryEventHashFields))
    (ledgerRows : List (Row DeletionLedgerHashFields)) : MemoryIntegrityReport :=
  let events := verifyMemoryEventsChain sha256 eventRows
  let ledger := verifyDeletionLedgerChain sha256 ledgerRows
  let issues := events.issues ++
    (if events.truncated then [truncationIssue "memory_events"] else []) ++
    (if ledger.truncated then [truncationIssue "deletion_ledger"] else []) ++ ledger.issues
  { backend := "postgres"
    isVerified := issues.isEmpty
    checkedMemoryEvents := events.checkedRows
    checkedDeletionLedger := ledger.checkedRows
    issues }

end Chains

section CanonicalText

variable {fields others : List (String × String)}

theorem canonicalLine_injective {field other : String × String} (name : field.1 = other.1)
    (same : canonicalLine field = canonicalLine other) : field = other := by
  rw [canonicalLine, canonicalLine, name] at same
  have values := (List.cons.inj (append_cancel_left same)).2
  exact Prod.ext name (String.toList_inj.mp values)

/-- The text around one line does not depend on the line. -/
theorem intercalate_middle (before after : List (List Char)) :
    ∃ front back, ∀ line, ['\n'].intercalate (before ++ line :: after) = front ++ line ++ back := by
  induction before with
  | nil =>
    cases after with
    | nil => exact ⟨[], [], fun line => by simp⟩
    | cons next rest =>
      exact ⟨[], ['\n'] ++ ['\n'].intercalate (next :: rest), fun line => by
        rw [nil_append, nil_append, intercalate_cons_cons, append_assoc]⟩
  | cons first rest ih =>
    obtain ⟨front, back, around⟩ := ih
    refine ⟨first ++ ['\n'] ++ front, back, fun line => ?_⟩
    have some := append_ne_nil_of_right_ne_nil rest (cons_ne_nil line after)
    rw [cons_append, intercalate_cons_of_ne_nil some, around]
    simp only [append_assoc]

/-- The line of the field contains no line feed. -/
def SingleLine (field : String × String) : Prop := '\n' ∉ canonicalLine field

/-- The records differ in one field, or the first has no line feeds, or line feeds occur in
one and the same field of both. -/
def Framed (fields others : List (String × String)) : Prop :=
  (∃ before field other after, fields = before ++ field :: after ∧
    others = before ++ other :: after) ∨
  (∀ field ∈ fields, SingleLine field) ∨
  ∃ before field after otherBefore other otherAfter, fields = before ++ field :: after ∧
    others = otherBefore ++ other :: otherAfter ∧ before.length = otherBefore.length ∧
    (∀ field ∈ before ++ after, SingleLine field) ∧
    ∀ field ∈ otherBefore ++ otherAfter, SingleLine field

theorem singleLine_map (clear : ∀ field ∈ fields, SingleLine field) :
    ∀ line ∈ fields.map canonicalLine, '\n' ∉ line := by
  intro line member
  obtain ⟨field, inFields, rfl⟩ := mem_map.mp member
  exact clear field inFields

theorem canonicalLines_injective (names : fields.map Prod.fst = others.map Prod.fst)
    (lines : fields.map canonicalLine = others.map canonicalLine) : fields = others := by
  induction fields generalizing others with
  | nil => exact (map_eq_nil_iff.mp names.symm).symm
  | cons field rest ih =>
    cases others with
    | nil => cases names
    | cons other others =>
      obtain ⟨name, names⟩ := List.cons.inj names
      obtain ⟨line, lines⟩ := List.cons.inj lines
      rw [canonicalLine_injective name line, ih names lines]

/-- Between such records the canonical text tells the fields. -/
theorem canonicalText_injective
    (names : fields.map Prod.fst = others.map Prod.fst) (framed : Framed fields others)
    (same : canonicalText fields = canonicalText others) : fields = others := by
  have length := congrArg List.length names
  rw [length_map, length_map] at length
  rcases framed with ⟨before, field, other, after, rfl, rfl⟩ | clear |
    ⟨before, field, after, otherBefore, other, otherAfter, rfl, rfl, front, clear, otherClear⟩
  · obtain ⟨front, back, around⟩ :=
      intercalate_middle (before.map canonicalLine) (after.map canonicalLine)
    rw [canonicalText, canonicalText, map_append, map_append, map_cons,
      map_cons, around, around] at same
    have line := append_cancel_left (append_cancel_right same)
    rw [map_append, map_append] at names
    have name := (List.cons.inj (append_cancel_left names)).1
    rw [canonicalLine_injective name line]
  · refine canonicalLines_injective names (HashChain.fields_eq ?_ (singleLine_map clear) same.symm).symm
    rw [length_map, length_map, length]
  · have lines := singleLine_map clear
    have otherLines := singleLine_map otherClear
    simp only [canonicalText, map_append, map_cons] at same lines otherLines
    refine canonicalLines_injective names ?_
    simp only [map_append, map_cons]
    simp only [length_append, length_cons] at length
    refine HashChain.fields_eq_around ?_ ?_ lines otherLines same
    · rw [length_map, length_map, front]
    · rw [length_map, length_map]
      omega

end CanonicalText

section Digests

variable {φ : Type} (sha256 : List UInt8 → List UInt8) (table : ChainedTable φ)
variable (prevHash : String)

/-- The lines in front of the fields. -/
def headLines (prevHash : String) : List (String × String) :=
  [("v", "1"), ("chain", table.chain), ("prev_hash", prevHash)]

/-- The text of the fields of a row. -/
def fieldsText (f : φ) : List Char := canonicalText (table.canonicalFields f)

def digestOf (prevHash : String) (text : List Char) : String :=
  digestText sha256 (canonicalText (headLines table prevHash) ++ '\n' :: text)

theorem computeHash_eq (f : φ) :
    computeHash sha256 table prevHash f = digestOf sha256 table prevHash (fieldsText table f) := by
  obtain ⟨first, rest, shape⟩ : ∃ first rest, table.canonicalFields f = first :: rest := by
    cases fields : table.canonicalFields f with
    | nil => exact absurd ((table.named f).symm.trans (by rw [fields]; rfl)) table.some
    | cons first rest => exact ⟨first, rest, rfl⟩
  rw [computeHash, digestOf, fieldsText, shape]
  simp only [canonicalText, headLines, map_cons, map_nil, intercalate_cons_cons,
    intercalate_singleton, append_assoc, cons_append, nil_append]

/-- The head of the canonical text up to the hash of the row before. -/
theorem headLines_text :
    canonicalText (headLines table prevHash) =
      "v=1\nchain=".toList ++ table.chain.toList ++ "\nprev_hash=".toList ++ prevHash.toList := by
  have head : "v=1\nchain=".toList = ['v', '=', '1', '\n', 'c', 'h', 'a', 'i', 'n', '='] := by
    decide
  have next : "\nprev_hash=".toList =
      ['\n', 'p', 'r', 'e', 'v', '_', 'h', 'a', 's', 'h', '='] := by decide
  have version : "v".toList = ['v'] := by decide
  have one : "1".toList = ['1'] := by decide
  have chain : "chain".toList = ['c', 'h', 'a', 'i', 'n'] := by decide
  have link : "prev_hash".toList = ['p', 'r', 'e', 'v', '_', 'h', 'a', 's', 'h'] := by decide
  simp only [canonicalText, headLines, canonicalLine, map_cons, map_nil,
    intercalate_cons_cons, intercalate_singleton, head, next, version, one, chain, link,
    append_assoc, cons_append, nil_append]

theorem lineFeed_notMem_encode (bytes : List UInt8) : '\n' ∉ (Hex.encode bytes).toList := by
  simp only [Hex.encode, String.toList_ofList, Hex.encodeChars, mem_flatMap, not_exists,
    not_and, Hex.byteDigits, mem_cons, not_mem_nil, or_false, not_or]
  intro byte _
  exact ⟨(Nat.digitChar_ne '\n' (by decide)).symm, (Nat.digitChar_ne '\n' (by decide)).symm⟩

variable {sha256} in
theorem digestText_injective (injective : Function.Injective sha256) {text other : List Char}
    (same : digestText sha256 text = digestText sha256 other) : text = other := by
  have bytes := injective (Hex.encode_injective same)
  have strings : String.ofList text = String.ofList other :=
    String.toByteArray_inj.mp (ByteArray.ext (Array.toList_inj.mp bytes))
  exact String.ofList_injective strings

variable {sha256} in
/-- The digest of a row separates the hash of the row before and the text of the fields. -/
theorem digestOf_separates (injective : Function.Injective sha256) :
    SealedChain.Separates (digestOf sha256 table) (genesisHash sha256 table)
      fun hash => '\n' ∉ hash.toList where
  start_clean := lineFeed_notMem_encode _
  digest_clean _ _ := lineFeed_notMem_encode _
  digest_ne_start prevHash text same := by
    have texts := digestText_injective injective same
    have first := congrArg head? texts
    rw [headLines_text] at first
    exact table.seed first.symm
  digest_injective {prevHash other text otherText} clear otherClear same := by
    have texts := digestText_injective injective same
    simp only [headLines_text, append_assoc, append_cancel_left_eq] at texts
    obtain ⟨links, rest⟩ := HashChain.first_field_eq clear otherClear texts
    exact ⟨String.toList_inj.mp links, rest⟩

end Digests

section Verification

variable {φ : Type} (sha256 : List UInt8 → List UInt8) (table : ChainedTable φ)
variable (eventRows : List (Row MemoryEventHashFields)) (log : List φ)

/-- What the chain sees of a row. -/
def rowLink (row : Row φ) : SealedChain.Link String (List Char) :=
  ⟨row.integrityPrevHash, fieldsText table row.fields, row.integrityHash⟩

variable {sha256 table}

theorem verifyRows_eq_nil_iff (expectedPrev : String) (rows : List (Row φ)) :
    verifyRows sha256 table expectedPrev rows = [] ↔
      SealedChain.Verified (digestOf sha256 table) expectedPrev (rows.map (rowLink table)) := by
  induction rows generalizing expectedPrev with
  | nil => exact iff_of_true rfl trivial
  | cons row rest ih =>
    rw [verifyRows, verifyRow, map_cons, SealedChain.Verified, append_eq_nil_iff,
      append_eq_nil_iff, ih, rowLink, computeHash_eq]
    simp only [ite_eq_right_iff, cons_ne_nil, imp_false, Decidable.not_not, ne_eq, and_assoc]
    exact and_congr_right' (and_congr_left' eq_comm)

/-- Every row of the table was checked, and none has an issue. -/
def ChainVerification.Clear (chain : ChainVerification) : Prop :=
  chain.truncated = false ∧ chain.issues = []

theorem verifyChain_clear_iff (rows : List (Row φ)) :
    (verifyChain sha256 table rows).Clear ↔ rows.length < integrityVerificationRowLimit ∧
      SealedChain.Verified (digestOf sha256 table) (genesisHash sha256 table)
        (rows.map (rowLink table)) := by
  rw [ChainVerification.Clear, verifyChain]
  by_cases short : rows.length < integrityVerificationRowLimit
  · rw [take_of_length_le (Nat.le_of_lt short)]
    exact and_congr (iff_of_true (decide_eq_false (Nat.not_le_of_lt short)) short)
      (verifyRows_eq_nil_iff _ rows)
  · have long := Nat.le_of_not_lt short
    refine iff_of_false ?_ fun clear => short clear.1
    rintro ⟨complete, _⟩
    rw [length_take, Nat.min_eq_left long] at complete
    exact absurd (Nat.le_refl integrityVerificationRowLimit) (of_decide_eq_false complete)

theorem report_issues_eq_nil_iff (ledgerRows : List (Row DeletionLedgerHashFields)) :
    (verifyIntegrity sha256 eventRows ledgerRows).issues = [] ↔
      (verifyMemoryEventsChain sha256 eventRows).Clear ∧
        (verifyDeletionLedgerChain sha256 ledgerRows).Clear := by
  simp only [verifyIntegrity, ChainVerification.Clear, append_eq_nil_iff]
  cases (verifyMemoryEventsChain sha256 eventRows).truncated <;>
    cases (verifyDeletionLedgerChain sha256 ledgerRows).truncated <;> simp

theorem isVerified_iff (ledgerRows : List (Row DeletionLedgerHashFields)) :
    (verifyIntegrity sha256 eventRows ledgerRows).isVerified = true ↔
      (verifyIntegrity sha256 eventRows ledgerRows).issues = [] := List.isEmpty_iff

variable (sha256 table)

theorem appended_concat (f : φ) :
    appended sha256 table (log ++ [f]) = appendRow sha256 table (appended sha256 table log) f := by
  rw [appended, foldl_concat, appended]

/-- The rows of an appended log are the chain of the texts of its fields. -/
theorem appended_links :
    (appended sha256 table log).map (rowLink table) =
      SealedChain.chain (digestOf sha256 table) (genesisHash sha256 table)
        (log.map (fieldsText table)) ∧
      ((appended sha256 table log).getLast?.map Row.integrityHash).getD
        (genesisHash sha256 table) =
          SealedChain.tip (digestOf sha256 table) (genesisHash sha256 table)
            (log.map (fieldsText table)) := by
  induction log using reverseRecOn with
  | nil => exact ⟨rfl, rfl⟩
  | append_singleton before f ih =>
    obtain ⟨links, tip⟩ := ih
    rw [appended_concat, appendRow, nextChain, tip, map_append, map_append, links,
      map_singleton, map_singleton, chain_concat, tip_concat,
      getLast?_concat, rowLink, computeHash_eq]
    exact ⟨rfl, rfl⟩

theorem appended_length : (appended sha256 table log).length = log.length := by
  have lengths := congrArg List.length (appended_links sha256 table log).1
  rwa [length_map, chain_length, length_map] at lengths

theorem appended_clear_iff :
    (verifyChain sha256 table (appended sha256 table log)).Clear ↔
      log.length < integrityVerificationRowLimit := by
  rw [verifyChain_clear_iff, (appended_links sha256 table log).1, appended_length]
  exact and_iff_left (chain_verified _ _)

end Verification

section Tampering

variable {φ : Type} (sha256 : List UInt8 → List UInt8) (table : ChainedTable φ)

/-- A stored hash of the row differs, or the canonical text of its fields. -/
def Altered (row other : Row φ) : Prop :=
  other.integrityPrevHash ≠ row.integrityPrevHash ∨ other.integrityHash ≠ row.integrityHash ∨
    fieldsText table other.fields ≠ fieldsText table row.fields

/-- The stored hash of the row is not recomputed for what else changes. -/
def NotResealed (row other : Row φ) : Prop :=
  other.integrityHash = row.integrityHash ∨
    other.integrityPrevHash = row.integrityPrevHash ∧ other.fields = row.fields

/-- What is noticed of the rows that appending a log leaves. -/
structure TamperEvident (noticed : List (Row φ) → Prop) : Prop where
  changed : ∀ (log : List φ) (index : Nat) (row other : Row φ),
    (appended sha256 table log)[index]? = some row → Altered table row other →
      (index + 1 < log.length ∨ NotResealed row other) →
        noticed ((appended sha256 table log).set index other)
  deleted : ∀ (log : List φ) (index : Nat), index + 1 < log.length →
    noticed ((appended sha256 table log).eraseIdx index)
  reordered : ∀ (log : List φ) (rows : List (Row φ)), rows.Perm (appended sha256 table log) →
    rows ≠ appended sha256 table log → noticed rows
  told : ∀ f other : φ, table.canonicalFields f ≠ table.canonicalFields other →
    Framed (table.canonicalFields f) (table.canonicalFields other) →
      fieldsText table other ≠ fieldsText table f

variable {sha256 table}

theorem rowLink_ne {row other : Row φ} (altered : Altered table row other) :
    rowLink table other ≠ rowLink table row := by
  intro same
  simp only [rowLink, SealedChain.Link.mk.injEq] at same
  obtain ⟨previous, text, hash⟩ := same
  rcases altered with differs | differs | differs
  · exact differs previous
  · exact differs hash
  · exact differs text

theorem tamperEvident_of_verified (injective : Function.Injective sha256)
    {noticed : List (Row φ) → Prop}
    (unnoticed : ∀ rows, ¬ noticed rows → SealedChain.Verified (digestOf sha256 table)
      (genesisHash sha256 table) (rows.map (rowLink table))) :
    TamperEvident sha256 table noticed := by
  have separates := digestOf_separates table injective
  refine ⟨?_, ?_, ?_, ?_⟩
  · intro log index row other found altered kept
    refine Classical.byContradiction fun quiet => rowLink_ne altered ?_
    have verified := unnoticed _ quiet
    rw [map_set, (appended_links sha256 table log).1] at verified
    refine eq_of_set separates ?_ ?_ verified
    · rw [← (appended_links sha256 table log).1, List.getElem?_map, found, Option.map_some]
    · rw [length_map]
      refine kept.imp_right (Or.imp_right ?_)
      rintro ⟨previous, fields⟩
      exact ⟨previous, congrArg (fieldsText table) fields⟩
  · intro log index before
    refine Classical.byContradiction fun quiet => ?_
    have verified := unnoticed _ quiet
    rw [← eraseIdx_map, (appended_links sha256 table log).1] at verified
    exact not_verified_eraseIdx separates (by rwa [length_map]) verified
  · intro log rows perm differs
    refine Classical.byContradiction fun quiet => differs ?_
    have verified := unnoticed _ quiet
    have links := (appended_links sha256 table log).1
    have same := eq_of_perm separates (links ▸ perm.map (rowLink table)) verified
    rw [← links] at same
    have distinct := links ▸ chain_nodup separates (log.map (fieldsText table))
    refine ext_getElem? fun index => ?_
    have here := congrArg (fun links => links[index]?) same
    simp only [List.getElem?_map] at here
    cases found : rows[index]? with
    | none => rw [found] at here; exact (Option.map_eq_none_iff.mp here.symm).symm
    | some row =>
      rw [found, Option.map_some] at here
      obtain ⟨other, otherFound, link⟩ := Option.map_eq_some_iff.mp here.symm
      rw [otherFound, inj_on_of_nodup_map distinct (mem_of_getElem? otherFound)
        (perm.subset (mem_of_getElem? found)) link]
  · intro f other differs framed same
    refine differs (canonicalText_injective ?_ framed same.symm)
    rw [table.named, table.named]

/-- Logs below the row limit are reported verified, and no row of either chain is
changed, taken from the middle or moved without an issue. -/
theorem tamper_evidence (sha256 : List UInt8 → List UInt8) (injective : Function.Injective sha256) :
    (∀ events ledger, (verifyIntegrity sha256 (appended sha256 memoryEvents events)
        (appended sha256 deletionLedger ledger)).isVerified = true ↔
      events.length < integrityVerificationRowLimit ∧
        ledger.length < integrityVerificationRowLimit) ∧
      TamperEvident sha256 memoryEvents (fun eventRows =>
        ∀ ledgerRows, (verifyIntegrity sha256 eventRows ledgerRows).issues ≠ []) ∧
      TamperEvident sha256 deletionLedger (fun ledgerRows =>
        ∀ eventRows, (verifyIntegrity sha256 eventRows ledgerRows).issues ≠ []) := by
  refine ⟨?_, ?_, ?_⟩
  · intro events ledger
    rw [isVerified_iff, report_issues_eq_nil_iff]
    exact and_congr (appended_clear_iff sha256 memoryEvents events)
      (appended_clear_iff sha256 deletionLedger ledger)
  · refine tamperEvident_of_verified injective ?_
    intro eventRows quiet
    obtain ⟨ledgerRows, clean⟩ := not_forall.mp quiet
    have clear := (report_issues_eq_nil_iff _ _).mp (not_not.mp clean)
    exact ((verifyChain_clear_iff eventRows).mp clear.1).2
  · refine tamperEvident_of_verified injective ?_
    intro ledgerRows quiet
    obtain ⟨eventRows, clean⟩ := not_forall.mp quiet
    have clear := (report_issues_eq_nil_iff _ _).mp (not_not.mp clean)
    exact ((verifyChain_clear_iff ledgerRows).mp clear.2).2

end Tampering

section Collisions

/-- A preference with a line break in its text. -/
def teaEvent : MemoryEventHashFields where
  eventId := "0b1c7d52-6b0f-4a51-9a0e-4a3f4d1f2a10"
  entityId := "person:alice"
  slotKey := "preference.drink"
  layer := "working"
  eventType := "fact_added"
  value := "likes tea\nsource=system"
  source := "explicit_user"
  confidence := ⟨0x3FEB333333333333⟩
  importance := ⟨0x3FE0000000000000⟩
  provenanceSourceClass := none
  provenanceReference := none
  provenanceEvidenceUri := none
  retentionTier := "working"
  retentionExpiresAt := some "2026-01-03T08:00:00.000000Z"
  signalTier := "raw"
  sourceKind := none
  privacyLevel := "private"
  occurredAt := "2026-01-01T08:00:00.000000Z"
  ingestedAt := "2026-01-01T08:00:00.000000Z"
  supersedesEventId := none

/-- The line break moves text from the value to the source. -/
def swappedTeaEvent : MemoryEventHashFields :=
  { teaEvent with value := "likes tea", source := "system\nsource=explicit_user" }

/-- The absent reference becomes the empty one. -/
def referencedTeaEvent : MemoryEventHashFields := { teaEvent with provenanceReference := some "" }

/-- Two neighbouring lines may be cut at another line break. -/
theorem intercalate_pair {separator : Char} {first second first' second' : List Char}
    (same : first ++ separator :: second = first' ++ separator :: second')
    (before after : List (List Char)) :
    [separator].intercalate (before ++ first :: second :: after) =
      [separator].intercalate (before ++ first' :: second' :: after) := by
  induction before with
  | nil =>
    have joined : ∀ first second : List Char, [separator].intercalate (first :: second :: after) =
        first ++ separator :: second ++ after.flatMap (separator :: ·) := by
      intro first second
      induction after generalizing first second with
      | nil => simp
      | cons line after ih =>
        rw [intercalate_cons_cons, ih]
        simp
    rw [nil_append, nil_append, joined, joined, same]
  | cons line before ih =>
    rw [cons_append, cons_append, intercalate_cons_of_ne_nil (by simp),
      intercalate_cons_of_ne_nil (by simp), ih]

theorem fieldsText_swapped :
    fieldsText memoryEvents swappedTeaEvent = fieldsText memoryEvents teaEvent := by
  have same : canonicalLine ("value", "likes tea") ++
      '\n' :: canonicalLine ("source", "system\nsource=explicit_user") =
        canonicalLine ("value", "likes tea\nsource=system") ++
          '\n' :: canonicalLine ("source", "explicit_user") := by decide +kernel
  exact intercalate_pair same ((memoryEvents.canonicalFields teaEvent).take 5 |>.map canonicalLine)
    ((memoryEvents.canonicalFields teaEvent).drop 7 |>.map canonicalLine)

theorem fieldsText_referenced :
    fieldsText memoryEvents referencedTeaEvent = fieldsText memoryEvents teaEvent := by
  have same : memoryEvents.canonicalFields referencedTeaEvent =
      memoryEvents.canonicalFields teaEvent := rfl
  exact congrArg canonicalText same

/-- A row is as good as another with the same canonical text. -/
theorem verified_of_fieldsText_eq (sha256 : List UInt8 → List UInt8)
    {f other : MemoryEventHashFields}
    (same : fieldsText memoryEvents other = fieldsText memoryEvents f) :
    (verifyIntegrity sha256 ((appended sha256 memoryEvents [f]).map fun row =>
      { row with fields := other }) []).isVerified = true := by
  rw [isVerified_iff, report_issues_eq_nil_iff]
  refine ⟨(verifyChain_clear_iff _).mpr ⟨?_, ?_⟩, ?_⟩
  · rw [length_map, appended_length, length_singleton]
    decide
  · have links : ((appended sha256 memoryEvents [f]).map fun row =>
        { row with fields := other }).map (rowLink memoryEvents) =
          (appended sha256 memoryEvents [f]).map (rowLink memoryEvents) := by
      simp only [appended, appendRow, foldl_cons, foldl_nil, nil_append,
        map_cons, map_nil, rowLink, same]
    rw [links, (appended_links sha256 memoryEvents [f]).1]
    exact chain_verified _ _
  · exact (appended_clear_iff sha256 deletionLedger []).mpr (by decide)

/-- Whatever the digest, a log of as many rows as the limit is not reported verified, and
changes that leave the canonical text are. -/
theorem row_limit_and_collisions :
    (¬ ∃ sha256, ∀ log, (verifyIntegrity sha256 (appended sha256 memoryEvents log) []).isVerified =
      true) ∧
    (¬ ∃ sha256, (verifyIntegrity sha256 ((appended sha256 memoryEvents [teaEvent]).map fun row =>
      { row with fields := swappedTeaEvent }) []).isVerified = false) ∧
    ¬ ∃ sha256, (verifyIntegrity sha256 ((appended sha256 memoryEvents [teaEvent]).map fun row =>
      { row with fields := referencedTeaEvent }) []).isVerified = false := by
  refine ⟨?_, ?_, ?_⟩
  · rintro ⟨sha256, verified⟩
    have clear := (report_issues_eq_nil_iff _ _).mp ((isVerified_iff _ _).mp
      (verified (replicate integrityVerificationRowLimit teaEvent)))
    have few := (appended_clear_iff sha256 memoryEvents _).mp clear.1
    rw [length_replicate] at few
    exact Nat.lt_irrefl _ few
  · rintro ⟨sha256, refused⟩
    exact Bool.false_ne_true (refused.symm.trans
      (verified_of_fieldsText_eq sha256 fieldsText_swapped))
  · rintro ⟨sha256, refused⟩
    exact Bool.false_ne_true (refused.symm.trans
      (verified_of_fieldsText_eq sha256 fieldsText_referenced))

/-- The SHA-256 digests of the two genesis seeds and of the row of the preference. -/
def sampleDigests : List (List UInt8 × List UInt8) :=
  [(memoryEvents.genesisSeed.toUTF8.data.toList,
      [155, 170, 74, 134, 161, 147, 245, 118, 221, 83, 132, 77, 124, 79, 13, 163, 143, 125, 207,
        143, 75, 194, 90, 67, 116, 12, 63, 166, 38, 190, 149, 101]),
    (deletionLedger.genesisSeed.toUTF8.data.toList,
      [152, 164, 111, 186, 230, 154, 70, 82, 126, 13, 51, 163, 68, 156, 16, 246, 101, 101, 131,
        161, 146, 153, 123, 44, 118, 70, 52, 191, 129, 13, 37, 225]),
    ((String.ofList (canonicalText (("v", "1") :: ("chain", "memory_events") ::
          ("prev_hash", "9baa4a86a193f576dd53844d7c4f0da38f7dcf8f4bc25a43740c3fa626be9565") ::
            memoryEvents.canonicalFields teaEvent))).toUTF8.data.toList,
      [106, 124, 240, 50, 203, 133, 52, 134, 145, 38, 232, 2, 20, 34, 136, 154, 142, 135, 125, 49,
        56, 40, 190, 54, 128, 221, 192, 3, 174, 91, 81, 187])]

def sampleSha256 : List UInt8 → List UInt8 := HashChain.digestWith sampleDigests

theorem sampleSha256_injective : Function.Injective sampleSha256 :=
  HashChain.digestWith_injective (by decide) (by decide)

theorem tamper_evidence_sample :
    (∀ events ledger, (verifyIntegrity sampleSha256 (appended sampleSha256 memoryEvents events)
        (appended sampleSha256 deletionLedger ledger)).isVerified = true ↔
      events.length < integrityVerificationRowLimit ∧
        ledger.length < integrityVerificationRowLimit) ∧
      TamperEvident sampleSha256 memoryEvents (fun eventRows =>
        ∀ ledgerRows, (verifyIntegrity sampleSha256 eventRows ledgerRows).issues ≠ []) ∧
      TamperEvident sampleSha256 deletionLedger (fun ledgerRows =>
        ∀ eventRows, (verifyIntegrity sampleSha256 eventRows ledgerRows).issues ≠ []) :=
  tamper_evidence sampleSha256 sampleSha256_injective

end Collisions

end Asterel.Integrity
