import Asterel.Contracts.Tenant
import Asterel.Memory.Integrity

/-!
# Memory events at the ingress

Before an event reaches a backend its identifiers are rewritten to a safe character
set, its scores are clamped and its provenance is checked against its source. Value,
reference and evidence URI pass as they are.

Texts are lists of characters.
-/

namespace Asterel.Memory

open Library Text
open Asterel.Integrity (F64)
open Asterel.Permissions (TenantPolicyContext)
open Asterel.Tenant (isAsciiAlphanumeric trimMatches)

abbrev Chars := List Char

inductive MemoryLayer where
  | working
  | episodic
  | semantic
  | procedural
  | identity
  deriving DecidableEq

inductive MemorySource where
  | explicitUser
  | toolVerified
  | system
  | inferred
  | externalPrimary
  | externalSecondary
  deriving DecidableEq

inductive MemoryEventType where
  | factAdded
  | factUpdated
  | toolExecuted
  | identityObjectiveChanged
  | identityCommitmentAdded
  | identityCommitmentCompleted
  | identityDriftDetected
  | preferenceSet
  | preferenceUnset
  | inferredClaim
  | contradictionMarked
  | softDeleted
  | hardDeleted
  | tombstoneWritten
  | summaryCompacted
  deriving DecidableEq

inductive PrivacyLevel where
  | «public»
  | «private»
  | secret
  deriving DecidableEq

structure MemoryProvenance where
  sourceClass : MemorySource
  reference : Chars
  evidenceUri : Option Chars
  deriving DecidableEq

structure MemoryEventInput where
  entityId : Chars
  slotKey : Chars
  layer : MemoryLayer
  eventType : MemoryEventType
  value : Chars
  source : MemorySource
  confidence : F64
  importance : F64
  provenance : Option MemoryProvenance
  privacyLevel : PrivacyLevel
  deriving DecidableEq

structure RecallQuery where
  entityId : Chars
  query : Chars
  limit : Nat
  policyContext : TenantPolicyContext
  layerFilter : Option MemoryLayer

section Scores

def isFinite (v : F64) : Bool := v.exponent ≠ 2047

/-- Clamp to the unit interval, and anything that is no number to zero. -/
def newScore (v : F64) : F64 :=
  if v.isNan then ⟨0⟩
  else if v.isSignNegative then if v.magnitude = 0 then v else ⟨0⟩
  else if 0x3FF0000000000000 < v.bits then ⟨0x3FF0000000000000⟩
  else v

def normalizeScore (score : F64) (field : String) : Except String F64 :=
  if isFinite score then .ok (newScore score) else .error (field ++ " must be finite")

def normalizeConfidence : F64 → String → Except String F64 := normalizeScore

def normalizeImportance : F64 → String → Except String F64 := normalizeScore

end Scores

section Identifiers

def isIdentifierChar (allowSlash : Bool) (ch : Char) : Bool :=
  isAsciiAlphanumeric ch || ch = '.' || ch = '_' || ch = '-' || ch = ':' || (allowSlash && ch = '/')

/-- Runs of other characters collapse to one underscore. -/
def collapse (allowSlash lastUnderscore : Bool) : Chars → Chars
  | [] => []
  | ch :: rest =>
    if isIdentifierChar allowSlash ch then ch :: collapse allowSlash false rest
    else if lastUnderscore then collapse allowSlash true rest
    else '_' :: collapse allowSlash true rest

def normalizeIdentifier (raw : Chars) (allowSlash : Bool) : Chars :=
  trimMatches '_' (collapse allowSlash false (trim raw))

def byteLen (text : Chars) : Nat := (String.ofList text).utf8ByteSize

def normalizeEntityId (raw : Chars) : Except String Chars :=
  let normalized := normalizeIdentifier raw false
  if normalized.isEmpty then .error "memory_event_input.entity_id must not be empty"
  else if 128 < byteLen normalized then .error "memory_event_input.entity_id must be <= 128 chars"
  else .ok normalized

def isValidSlotKeyPattern : Chars → Bool
  | [] => false
  | first :: rest => isAsciiAlphanumeric first && rest.all (isIdentifierChar true)

def normalizeSlotKey (raw : Chars) : Except String Chars :=
  let normalized := normalizeIdentifier raw true
  if normalized.isEmpty then .error "memory_event_input.slot_key must not be empty"
  else if 256 < byteLen normalized then .error "memory_event_input.slot_key must be <= 256 chars"
  else if !isValidSlotKeyPattern normalized then
    .error "memory_event_input.slot_key must match taxonomy pattern"
  else .ok normalized

end Identifiers

section Ingress

def validateProvenance (source : MemorySource) (provenance : MemoryProvenance) :
    Except String Unit :=
  if provenance.sourceClass ≠ source then
    .error "memory_event_input.provenance.source_class must match memory_event_input.source"
  else if (trim provenance.reference).isEmpty then
    .error "memory_event_input.provenance.reference must not be empty"
  else if 256 < byteLen provenance.reference then
    .error "memory_event_input.provenance.reference must be <= 256 chars"
  else if provenance.evidenceUri.any fun uri => (trim uri).isEmpty then
    .error "memory_event_input.provenance.evidence_uri must not be empty"
  else .ok ()

/-- `normalize_memory_event_input`. -/
def normalizeForIngress (input : MemoryEventInput) : Except String MemoryEventInput := do
  let entityId ← normalizeEntityId input.entityId
  let slotKey ← normalizeSlotKey input.slotKey
  let confidence ← normalizeConfidence input.confidence "memory_event_input.confidence"
  let importance ← normalizeImportance input.importance "memory_event_input.importance"
  input.provenance.elim (.ok ()) (validateProvenance input.source)
  .ok { input with entityId, slotKey, confidence, importance }

end Ingress

section Facts

theorem collapse_chars (allowSlash lastUnderscore : Bool) (text : Chars) :
    ∀ ch ∈ collapse allowSlash lastUnderscore text, isIdentifierChar allowSlash ch = true := by
  induction text generalizing lastUnderscore with
  | nil => nofun
  | cons first rest ih =>
    rw [collapse]
    split
    case isTrue allowed => exact List.forall_mem_cons.mpr ⟨allowed, ih _⟩
    case isFalse =>
      split
      · exact ih _
      · refine List.forall_mem_cons.mpr ⟨?_, ih _⟩
        cases allowSlash <;> decide

/-- Identifiers consist of the characters they keep. -/
theorem normalizeIdentifier_chars (raw : Chars) (allowSlash : Bool) :
    ∀ ch ∈ normalizeIdentifier raw allowSlash, isIdentifierChar allowSlash ch = true := by
  intro ch member
  rw [normalizeIdentifier, trimMatches, List.mem_reverse] at member
  have inner := (List.dropWhile_sublist _).subset member
  rw [List.mem_reverse] at inner
  exact collapse_chars _ _ _ ch ((List.dropWhile_sublist _).subset inner)

theorem normalizeEntityId_ok {raw normalized : Chars}
    (accepted : normalizeEntityId raw = .ok normalized) :
    normalized = normalizeIdentifier raw false ∧ normalized ≠ [] := by
  rw [normalizeEntityId] at accepted
  split_ifs at accepted with empty long
  cases accepted
  exact ⟨rfl, fun nil => empty (List.isEmpty_iff.mpr nil)⟩

theorem normalizeSlotKey_ok {raw normalized : Chars}
    (accepted : normalizeSlotKey raw = .ok normalized) :
    normalized = normalizeIdentifier raw true ∧
      ∃ first rest, normalized = first :: rest ∧ isAsciiAlphanumeric first = true := by
  rw [normalizeSlotKey] at accepted
  split_ifs at accepted with empty long invalid
  cases accepted
  refine ⟨rfl, ?_⟩
  cases shape : normalizeIdentifier raw true with
  | nil => exact absurd (List.isEmpty_iff.mpr shape) empty
  | cons first rest =>
    rw [shape, isValidSlotKeyPattern, Bool.not_eq_true', Bool.not_eq_false, Bool.and_eq_true]
      at invalid
    exact ⟨first, rest, rfl, invalid.1⟩

theorem validateProvenance_ok {source : MemorySource} {provenance : MemoryProvenance}
    (accepted : validateProvenance source provenance = .ok ()) :
    provenance.sourceClass = source ∧ trim provenance.reference ≠ [] ∧
      ∀ uri ∈ provenance.evidenceUri, trim uri ≠ [] := by
  rw [validateProvenance] at accepted
  split_ifs at accepted with class_ blank long uri
  refine ⟨not_not.mp class_, fun nil => blank (List.isEmpty_iff.mpr nil), ?_⟩
  intro text given nil
  rw [Option.mem_def.mp given, Option.any_some] at uri
  exact uri (List.isEmpty_iff.mpr nil)

theorem ok_of_bind {ε α β : Type} {first : Except ε α} {second : α → Except ε β} {result : β}
    (done : first >>= second = .ok result) :
    ∃ value, first = .ok value ∧ second value = .ok result := by
  cases first with
  | error message => cases done
  | ok value => exact ⟨value, rfl, done⟩

/-- What the ingress accepts, and what it leaves as it was. -/
structure Accepted (input event : MemoryEventInput) : Prop where
  entityId : event.entityId = normalizeIdentifier input.entityId false ∧ event.entityId ≠ []
  slotKey : event.slotKey = normalizeIdentifier input.slotKey true ∧
    ∃ first rest, event.slotKey = first :: rest ∧ isAsciiAlphanumeric first = true
  kept : event.layer = input.layer ∧ event.eventType = input.eventType ∧
    event.value = input.value ∧ event.source = input.source ∧
    event.provenance = input.provenance ∧ event.privacyLevel = input.privacyLevel
  provenance : ∀ provenance ∈ event.provenance,
    provenance.sourceClass = event.source ∧ trim provenance.reference ≠ [] ∧
      ∀ uri ∈ provenance.evidenceUri, trim uri ≠ []

theorem normalizeForIngress_ok {input event : MemoryEventInput}
    (accepted : normalizeForIngress input = .ok event) : Accepted input event := by
  obtain ⟨entityId, entity, accepted⟩ := ok_of_bind accepted
  obtain ⟨slotKey, slot, accepted⟩ := ok_of_bind accepted
  obtain ⟨confidence, _, accepted⟩ := ok_of_bind accepted
  obtain ⟨importance, _, accepted⟩ := ok_of_bind accepted
  obtain ⟨_, checked, accepted⟩ := ok_of_bind accepted
  cases accepted
  refine ⟨normalizeEntityId_ok entity, normalizeSlotKey_ok slot, ⟨rfl, rfl, rfl, rfl, rfl, rfl⟩, ?_⟩
  intro provenance given
  rw [Option.mem_def.mp given] at checked
  exact validateProvenance_ok checked

end Facts

end Asterel.Memory
