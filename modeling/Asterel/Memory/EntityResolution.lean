import Asterel.Library.Dedupe
import Asterel.Library.HashMap
import Asterel.Library.Lines
import Asterel.Library.Spelling
import Asterel.Utils.CharBoundary
import Mathlib.Algebra.Order.Ring.Rat

/-!
# Entity resolution

Extracted entities are compared with the canonical ones found so far, in order, and merged into
the first that is the same. The answers of the embedding provider and of the judge depend on
the comparison they are asked for; the comparisons are counted.
-/

namespace Asterel.EntityResolver

open Library
open Chunker (byteLength)

abbrev Chars := List Char

inductive OntologyEntityType where
  | user | roomContext | identity | sessionWorking | topic | continuity | preference | relationship
  deriving DecidableEq

structure ExtractedEntity where
  entityKey : Chars
  canonicalName : Chars
  entityType : OntologyEntityType
  aliases : List Chars
  summary : Chars
  evidenceIds : List Chars
  deriving DecidableEq

/-- A relation; what is carried along with its endpoints is its content. -/
structure ExtractedRelation (Content : Type) where
  sourceEntityKey : Chars
  targetEntityKey : Chars
  content : Content
  deriving DecidableEq

structure EntityAliasRecord where
  alias_ : Chars
  canonicalEntityKey : Chars
  confidence : ℚ
  deriving DecidableEq

structure EntityResolution (Content : Type) where
  entities : List ExtractedEntity
  relations : List (ExtractedRelation Content)
  aliases : List EntityAliasRecord

section Names

def asciiLetter (char : Char) : Option Char := if char.isAlphanum then some char.toLower else none

def normalize (value : Chars) : Chars := Spelling.spell asciiLetter value

def dedupeStrings (values : List Chars) : List Chars :=
  dedupeBy normalize [] ((values.map Text.trim).filter fun trimmed => !trimmed.isEmpty)

/-- The name of an entity and its aliases, as they are. -/
def ExtractedEntity.values (entity : ExtractedEntity) : List Chars :=
  entity.canonicalName :: entity.aliases

def aliasValues (entity : ExtractedEntity) : List Chars := dedupeStrings entity.values

/-- The longer text, the current one where they are equally long. -/
def longer (current candidate : Chars) : Chars :=
  if byteLength candidate > byteLength current then candidate else current

def preferredName (current candidate : Chars) : Chars := longer current candidate

def preferredSummary (current candidate : Chars) : Chars := longer current candidate

def mergeEntities (canonical candidate : ExtractedEntity) : ExtractedEntity :=
  let canonical := { canonical with
    canonicalName := preferredName canonical.canonicalName candidate.canonicalName
    summary := preferredSummary canonical.summary candidate.summary }
  { canonical with
    aliases := dedupeStrings (aliasValues canonical ++ aliasValues candidate)
    evidenceIds := dedupeBy id [] (canonical.evidenceIds ++ candidate.evidenceIds) }

def dedupeAliases (values : List EntityAliasRecord) : List EntityAliasRecord :=
  dedupeBy (fun value => (normalize value.alias_, value.canonicalEntityKey)) [] values

end Names

section Scores

/-- The shared part of two sets of words; counts stop at the largest `u32`. -/
def overlap (lhs rhs : List Chars) : ℚ :=
  let union := (lhs.dedup ∪ rhs.dedup).length
  if union = 0 then 0
  else (min (lhs.dedup ∩ rhs.dedup).length (2 ^ 32 - 1) : Nat) / (min union (2 ^ 32 - 1) : Nat)

/-- `pairwise_score` of two normalized texts. -/
def scoreOf (lhs rhs : Chars) : ℚ :=
  if lhs = rhs then 1
  else if Text.occurs rhs lhs || Text.occurs lhs rhs then 19 / 20
  else overlap (Text.splitWhitespace lhs) (Text.splitWhitespace rhs)

def pairwiseScore (lhs rhs : Chars) : ℚ := scoreOf (normalize lhs) (normalize rhs)

def exactAliasMatch (lhs rhs : ExtractedEntity) : Bool :=
  lhs.entityType = rhs.entityType &&
    ((aliasValues lhs).map normalize).any fun value => (aliasValues rhs).map normalize |>.contains value

def lexicalScore (lhs rhs : ExtractedEntity) : ℚ :=
  if lhs.entityType ≠ rhs.entityType then 0
  else ((aliasValues lhs).flatMap fun lhsValue =>
    (aliasValues rhs).map fun rhsValue => pairwiseScore lhsValue rhsValue).foldl max 0

end Scores

section Resolve

/-- What the embedding provider and the judge answer to each comparison; a judge can fail. -/
structure Outcomes where
  similarity : Nat → ℚ
  sameEntity : Nat → Option Bool

/-- Embeddings have no dimensions, and the judge always answers different. -/
def Outcomes.disabled : Outcomes := ⟨fun _ => 0, fun _ => some false⟩

def lexicalMergeThreshold : ℚ := 9 / 10

def embeddingMergeThreshold : ℚ := 23 / 25

def judgeThreshold : ℚ := 9 / 20

structure Resolving where
  canonicals : List ExtractedEntity
  aliases : List EntityAliasRecord
  remap : HashMap Chars Chars
  compared : Nat

def Resolving.start : Resolving := ⟨[], [], ∅, 0⟩

variable (outcomes : Outcomes)

def shouldMerge (comparison : Nat) (entity canonical : ExtractedEntity) : Option Bool :=
  let score := lexicalScore entity canonical
  let similarity := outcomes.similarity comparison
  if exactAliasMatch entity canonical || lexicalMergeThreshold ≤ score ||
      embeddingMergeThreshold ≤ similarity then
    some true
  else if judgeThreshold ≤ score || judgeThreshold ≤ similarity then outcomes.sameEntity comparison
  else some false

/-- The first canonical entity to merge with, between those before and after it, and the number
of the next comparison. -/
def findCanonical (entity : ExtractedEntity) : Nat → List ExtractedEntity →
    Option (Option (List ExtractedEntity × ExtractedEntity × List ExtractedEntity) × Nat)
  | comparison, [] => some (none, comparison)
  | comparison, canonical :: rest => do
    if ← shouldMerge outcomes comparison entity canonical then
      some (some ([], canonical, rest), comparison + 1)
    else
      let (found, next) ← findCanonical entity (comparison + 1) rest
      some (found.map fun (before, same, after) => (canonical :: before, same, after), next)

/-- One round of the loop, with the place of the canonical entity that the entity ends in. -/
def settle (state : Resolving) (entity : ExtractedEntity) : Option (Resolving × Nat) := do
  let (found, compared) ← findCanonical outcomes entity state.compared state.canonicals
  match found with
  | some (before, canonical, after) =>
    let confidence := max (max (outcomes.similarity (compared - 1)) (lexicalScore entity canonical)) (3 / 5)
    let records := (aliasValues entity).map fun value =>
      { alias_ := value, canonicalEntityKey := canonical.entityKey, confidence }
    some ({ canonicals := before ++ mergeEntities canonical entity :: after
            aliases := state.aliases ++ records
            remap := state.remap.insert entity.entityKey canonical.entityKey
            compared }, before.length)
  | none =>
    some ({ state with
            canonicals := state.canonicals ++ [entity]
            remap := state.remap.insert entity.entityKey entity.entityKey
            compared }, state.canonicals.length)

variable {Content : Type}

def remapRelation (remap : HashMap Chars Chars) (relation : ExtractedRelation Content) :
    ExtractedRelation Content :=
  { relation with
    sourceEntityKey := (remap.lookup relation.sourceEntityKey).getD relation.sourceEntityKey
    targetEntityKey := (remap.lookup relation.targetEntityKey).getD relation.targetEntityKey }

def resolve (entities : List ExtractedEntity) (relations : List (ExtractedRelation Content)) :
    Option (EntityResolution Content) := do
  let state ← entities.foldlM (fun state entity => (settle outcomes state entity).map Prod.fst)
    Resolving.start
  some { entities := state.canonicals
         relations := relations.map (remapRelation state.remap)
         aliases := dedupeAliases state.aliases }

end Resolve

end Asterel.EntityResolver
