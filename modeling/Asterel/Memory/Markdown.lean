import Asterel.Library.Latest
import Asterel.Library.SortedMap
import Asterel.Memory.MarkdownLine
import Mathlib.Algebra.Order.Ring.Unbundled.Rat
import Mathlib.Order.WithBot

/-!
# The markdown memory backend

Events are appended to `MEMORY.md` or to the log of the day, and every reader parses
all files again. The files together are a log of entries with the stem of their file
as time stamp: within one file entries stand in the order of their appends, and the
order in which the directory lists the files makes no difference.

`to_lowercase` is a parameter.
-/

namespace Asterel.Markdown

open Library Library.Latest Library.OrderedTable List
open Asterel.Memory

inductive MemoryCategory where
  | core
  | daily
  | conversation
  deriving DecidableEq

structure MemoryEntry where
  key : Chars
  content : Chars
  category : MemoryCategory
  timestamp : String
  score : Option ℚ
  source : Option MemorySource
  layer : Option MemoryLayer
  deriving DecidableEq

structure TimestampedParsedLine where
  timestamp : String
  entry : ParsedMarkdownLine
  deriving DecidableEq

structure BeliefSlot where
  entityId : Chars
  slotKey : Chars
  value : Chars
  source : MemorySource
  confidence : ℚ
  importance : ℚ
  privacyLevel : PrivacyLevel
  updatedAt : String
  deriving DecidableEq

structure MemoryRecallEntry where
  entityId : Chars
  slotKey : Chars
  value : Chars
  source : MemorySource
  confidence : ℚ
  importance : ℚ
  privacyLevel : PrivacyLevel
  score : ℚ
  occurredAt : String
  deriving DecidableEq

section Files

def coreStem : String := "MEMORY"

/-- A date as the clock formats it. -/
structure Day where
  text : String
  dated : text ≠ coreStem
  oneLine : '\n' ∉ text.toList

structure DailyFile where
  day : Day
  content : Chars

/-- The files of a workspace; a missing file is an empty one, and the daily logs stand as
the directory lists them. -/
structure Files where
  core : Chars
  daily : List DailyFile
  distinct : (daily.map fun file => file.day.text).Nodup

def Files.empty : Files := ⟨[], [], nodup_nil⟩

/-- The same files, listed in another order. -/
def Files.Relisted (files others : Files) : Prop :=
  others.core = files.core ∧ files.daily.Perm others.daily

theorem Files.Relisted.refl (files : Files) : files.Relisted files := ⟨rfl, Perm.refl _⟩

def coreHeader : Chars := "# Long-Term Memory\n\n".toList

def dailyHeader (date : Day) : Chars := "# Daily Log — ".toList ++ date.text.toList ++ "\n\n".toList

/-- The text that `append_to_file_sync` writes. -/
def updatedText (existing header content : Chars) : Chars :=
  if existing.isEmpty then header ++ content ++ ['\n']
  else existing ++ '\n' :: content ++ ['\n']

/-- Append to the log of a day, which is there or is made. -/
def appendDaily (day headerDay : Day) (content : Chars) : List DailyFile → List DailyFile
  | [] => [⟨day, updatedText [] (dailyHeader headerDay) content⟩]
  | file :: rest =>
    if file.day.text = day.text then
      ⟨file.day, updatedText file.content (dailyHeader headerDay) content⟩ :: rest
    else file :: appendDaily day headerDay content rest

theorem days_appendDaily (day headerDay : Day) (content : Chars) (daily : List DailyFile) :
    (appendDaily day headerDay content daily).map (fun file => file.day.text) =
      if day.text ∈ daily.map (fun file => file.day.text) then daily.map fun file => file.day.text
      else daily.map (fun file => file.day.text) ++ [day.text] := by
  induction daily with
  | nil => rfl
  | cons file rest ih =>
    rw [appendDaily]
    split
    case isTrue same => simp [same]
    case isFalse differs =>
      rw [map_cons, ih, map_cons]
      have other : day.text ≠ file.day.text := Ne.symm differs
      by_cases member : day.text ∈ rest.map fun file => file.day.text
      · rw [if_pos member, if_pos (mem_cons_of_mem _ member)]
      · rw [if_neg member, if_neg (by simp [other, member]), cons_append]

theorem distinct_appendDaily (day headerDay : Day) (content : Chars) {daily : List DailyFile}
    (distinct : (daily.map fun file => file.day.text).Nodup) :
    ((appendDaily day headerDay content daily).map fun file => file.day.text).Nodup := by
  rw [days_appendDaily]
  split
  case isTrue => exact distinct
  case isFalse absent =>
    rw [← concat_eq_append]
    exact distinct.concat absent

end Files

section Readers

def layerPrior : MemoryLayer → ℚ
  | .identity => 95 / 100
  | .procedural => 85 / 100
  | .semantic => 75 / 100
  | .episodic => 65 / 100
  | .working => 55 / 100

def toEntry (filename : String) (category : MemoryCategory) (entry : ParsedMarkdownLine) :
    MemoryEntry where
  key := entry.key
  content := entry.content
  category := category
  timestamp := filename
  score := entry.layer.map layerPrior
  source := (entry.provenance.map MemoryProvenance.sourceClass).or
    (entry.layer.map fun _ => MemorySource.system)
  layer := entry.layer

def parseEntriesFromFile (filename : String) (content : Chars) (category : MemoryCategory) :
    List MemoryEntry := (parsedLines content).map (toEntry filename category)

def projectionTimestampCmp (left right : String) : Ordering :=
  match decide (left = coreStem), decide (right = coreStem) with
  | true, true => .eq
  | true, false => .lt
  | false, true => .gt
  | false, false => cmp left right

def projectionTimestampIsNewerOrEqual (left right : String) : Bool :=
  projectionTimestampCmp left right ≠ .lt

/-- All entries, those with the latest time stamp first. -/
def readAllEntries (files : Files) : List MemoryEntry :=
  (parseEntriesFromFile coreStem files.core .core ++
    files.daily.flatMap fun file => parseEntriesFromFile file.day.text file.content .daily)
      |>.insertionSort fun a b => projectionTimestampCmp b.timestamp a.timestamp ≠ .gt

/-- All lines by their plain time stamps. -/
def readAllParsedLines (files : Files) : List TimestampedParsedLine :=
  ((parsedLines files.core).map (TimestampedParsedLine.mk coreStem) ++
    files.daily.flatMap fun file =>
      (parsedLines file.content).map (TimestampedParsedLine.mk file.day.text))
        |>.insertionSort fun a b => b.timestamp ≤ a.timestamp

def fetchProjectionEntry (files : Files) (key : Chars) : Option MemoryEntry :=
  ((readAllEntries files).filter fun entry => entry.key = key).foldl (fun latest entry =>
    match latest with
    | some current =>
      if projectionTimestampCmp current.timestamp entry.timestamp = .gt then some current
      else some entry
    | none => some entry) none

def joinKey (entityId slotKey : Chars) : Chars := entityId ++ ':' :: slotKey

def entityPrefix (entityId : Chars) : Chars := entityId ++ [':']

def toSlot (entityId slotKey : Chars) (entry : MemoryEntry) : BeliefSlot where
  entityId := entityId
  slotKey := slotKey
  value := entry.content
  source := entry.source.getD .system
  confidence := 1 / 2
  importance := 1 / 2
  privacyLevel := .private
  updatedAt := entry.timestamp

def resolveSlot (files : Files) (entityId slotKey : Chars) : Option BeliefSlot :=
  (fetchProjectionEntry files (joinKey entityId slotKey)).map (toSlot entityId slotKey)

def replaceOlder (entry : MemoryEntry) : Option MemoryEntry → MemoryEntry
  | none => entry
  | some current =>
    if projectionTimestampIsNewerOrEqual entry.timestamp current.timestamp then entry else current

/-- The slots of an entity by their keys, each with its current entry. -/
def currentSlots (files : Files) (entityId : Chars) : SortedMap Chars MemoryEntry :=
  (readAllEntries files).foldl (fun latest entry =>
    match (entityPrefix entityId).isPrefixOf? entry.key with
    | none => latest
    | some slotKey => latest.alter (replaceOlder entry) slotKey) .empty

def listSlots (files : Files) (entityId : Chars) : List BeliefSlot :=
  (currentSlots files entityId).entries.map fun (slotKey, entry) => toSlot entityId slotKey entry

def slotProvenance (files : Files) (entityId slotKey : Chars) : Option MemoryProvenance :=
  let key := joinKey entityId slotKey
  let latest := ((readAllParsedLines files).filter fun line => line.entry.key = key).foldl
    (fun latest line =>
      match latest with
      | some current => if line.timestamp < current.timestamp then some current else some line
      | none => some line) none
  latest.bind fun line => line.entry.provenance

end Readers

section Recall

variable (toLowercase : Chars → Chars)

def boundedCount (value : Nat) : ℚ := min value 4294967295

def isSlotPrefixLookup : List Chars → Bool
  | [keyword] => keyword.contains '/' || keyword.contains ':' || keyword.contains '.' ||
      keyword.getLast? = some '_'
  | _ => false

/-- The entry with its score, if a keyword matches. -/
def scoreEntry (keywords : List Chars) (entry : MemoryEntry) : Option MemoryEntry :=
  let contentLower := toLowercase entry.content
  let keyLower := toLowercase entry.key
  let matched := keywords.countP fun keyword =>
    (isSlotPrefixLookup keywords && Text.occurs keyword keyLower) || Text.occurs keyword contentLower
  if 0 < matched then
    some { entry with score := some (boundedCount matched / boundedCount keywords.length) }
  else none

/-- The matching entries, best scores first. -/
def scoredEntries (files : Files) (query : Chars) (layerFilter : Option MemoryLayer)
    (keyPrefix : Chars) : List MemoryEntry :=
  let keywords := Text.splitWhitespace (toLowercase query)
  ((readAllEntries files).filter fun entry => keyPrefix.isPrefixOf entry.key)
    |>.filter (fun entry => layerFilter.all fun layer => entry.layer = some layer)
    |>.filterMap (scoreEntry toLowercase keywords)
    |>.insertionSort fun a b => b.score.getD 0 ≤ a.score.getD 0

def searchProjection (files : Files) (query : Chars) (limit : Nat) (layerFilter : Option MemoryLayer)
    (keyPrefix : Chars) : List MemoryEntry :=
  (scoredEntries toLowercase files query layerFilter keyPrefix).take limit

def toRecallEntry (entityId : Chars) (entry : MemoryEntry) : MemoryRecallEntry where
  entityId := entityId
  slotKey := ((entityPrefix entityId).isPrefixOf? entry.key).getD entry.key
  value := entry.content
  source := entry.source.getD .system
  confidence := 1 / 2
  importance := 1 / 2
  privacyLevel := .private
  score := entry.score.getD 0
  occurredAt := entry.timestamp

def recallScoped (files : Files) (query : RecallQuery) : Except String (List MemoryRecallEntry) := do
  Tenant.enforceRecallScope query.policyContext (String.ofList query.entityId)
  let rows := searchProjection toLowercase files query.query query.limit query.layerFilter
    (entityPrefix query.entityId)
  return rows.map (toRecallEntry query.entityId)

end Recall

section Appending

def defaultCategory : MemorySource → MemoryCategory
  | .explicitUser | .toolVerified | .externalPrimary => .core
  | .system => .daily
  | .inferred | .externalSecondary => .conversation

/-- An update stays where the slot is. -/
def projectionCategoryForEvent (files : Files) (key : Chars) (input : MemoryEventInput) :
    MemoryCategory :=
  if input.eventType = .factUpdated then
    match fetchProjectionEntry files key with
    | some current => current.category
    | none => defaultCategory input.source
  else defaultCategory input.source

/-- The clock when the path of the log is chosen, and when its header is written. -/
structure Clock where
  day : Day
  headerDay : Day

def upsertProjection (files : Files) (clock : Clock) (key content : Chars)
    (category : MemoryCategory) (layer : MemoryLayer) (provenance : Option MemoryProvenance) :
    Files :=
  let entry := formatTaggedLine key content layer provenance
  match category with
  | .core => { files with core := updatedText files.core coreHeader entry }
  | _ =>
    { files with
      daily := appendDaily clock.day clock.headerDay entry files.daily
      distinct := distinct_appendDaily clock.day clock.headerDay entry files.distinct }

def eventKey (event : MemoryEventInput) : Chars := joinKey event.entityId event.slotKey

/-- The files after the append of an event, and the event as it was normalized. -/
def appendEvent (files : Files) (clock : Clock) (input : MemoryEventInput) :
    Except String (Files × MemoryEventInput) := do
  let event ← normalizeForIngress input
  let category := projectionCategoryForEvent files (eventKey event) event
  return (upsertProjection files clock (eventKey event) event.value category event.layer
    event.provenance, event)

end Appending

end Asterel.Markdown
