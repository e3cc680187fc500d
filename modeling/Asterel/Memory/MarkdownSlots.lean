import Asterel.Memory.MarkdownLog

/-!
# Slots of the markdown memory

An accepted event has a key without any mark of its line and a provenance whose tags are
not empty. Its line is read back if it can be written at all, and the row it adds is
seen by the readers of its key and by no others.
-/

namespace Asterel.Markdown

open Library Library.Latest Library.OrderedTable List OrderDual
open Asterel.Memory

section Accepted

variable {input event : MemoryEventInput}

theorem plainKey_of_accepted (accepted : Accepted input event) : PlainKey (eventKey event) := by
  have chars : ∀ ch ∈ eventKey event, isIdentifierChar true ch = true := by
    intro ch member
    rcases mem_append.mp member with inEntity | inSlot
    · rw [accepted.entityId.1] at inEntity
      have kept := normalizeIdentifier_chars _ _ ch inEntity
      simp only [isIdentifierChar, Bool.false_and, Bool.or_false] at kept
      simp only [isIdentifierChar, kept, Bool.true_or]
    · rcases mem_cons.mp inSlot with rfl | inSlot
      · decide
      · rw [accepted.slotKey.1] at inSlot
        exact normalizeIdentifier_chars _ _ ch inSlot
  refine ⟨fun star => ?_, fun bracket => ?_, fun lineFeed => ?_⟩
  · exact absurd (chars _ star) (by decide)
  · exact absurd (chars _ bracket) (by decide)
  · exact absurd (chars _ lineFeed) (by decide)

theorem filled_of_accepted (accepted : Accepted input event) : Filled event.provenance := by
  intro given present
  obtain ⟨_, reference, uris⟩ := accepted.provenance given present
  refine ⟨fun nil => reference (by rw [nil]; rfl), fun uri inUris nil => uris uri inUris ?_⟩
  rw [nil]
  rfl

theorem appendEvent_ok {files files' : Files} {clock : Clock}
    (appended : appendEvent files clock input = .ok (files', event)) :
    Accepted input event ∧ files' = upsertProjection files clock (eventKey event) event.value
        (projectionCategoryForEvent files (eventKey event) event) event.layer event.provenance := by
  obtain ⟨normalized, accepted, rest⟩ := ok_of_bind appended
  cases rest
  exact ⟨normalizeForIngress_ok accepted, rfl⟩

end Accepted

section Adding

/-- The row that an append adds. -/
def addedRow (files : Files) (clock : Clock) (event : MemoryEventInput) (line : ParsedMarkdownLine) :
    LogRow where
  timestamp := appendStem clock (projectionCategoryForEvent files (eventKey event) event)
  category := fileCategory (projectionCategoryForEvent files (eventKey event) event)
  line := line

def writtenLine (event : MemoryEventInput) : ParsedMarkdownLine :=
  ⟨eventKey event, event.value, some event.layer, event.provenance⟩

variable {files files' others : Files} {clock : Clock} {input event : MemoryEventInput}

section

variable (appended : appendEvent files clock input = .ok (files', event))
  (relisted : files'.Relisted others)
include appended relisted

/-- A line without line feeds adds one row, which has the key of the event. -/
theorem rows_appended (oneLine : '\n' ∉ event.value) (provenance : OneLine event.provenance) :
    ∃ line : ParsedMarkdownLine, line.key = eventKey event ∧
      SameLog (rows others) (rows files ++ [addedRow files clock event line]) := by
  obtain ⟨accepted, rfl⟩ := appendEvent_ok appended
  have added := (rows_relisted relisted).symm.trans
    (rows_upsertProjection files clock (eventKey event) event.value _ event.layer event.provenance)
  rw [rowsOf, parsedLines_formatted (plainKey_of_accepted accepted) (filled_of_accepted accepted)
    provenance oneLine] at added
  refine ⟨_, ?_, added⟩
  split <;> rfl

theorem rows_appended_of_writable (writable : Writable event.value event.provenance) :
    SameLog (rows others) (rows files ++ [addedRow files clock event (writtenLine event)]) := by
  obtain ⟨accepted, rfl⟩ := appendEvent_ok appended
  have added := (rows_relisted relisted).symm.trans
    (rows_upsertProjection files clock (eventKey event) event.value _ event.layer event.provenance)
  rw [rowsOf, roundTrips_of_writable (plainKey_of_accepted accepted) (filled_of_accepted accepted)
    writable] at added
  exact added

end

variable {before after : List LogRow} {row : LogRow}

theorem currentEntry_of_sameLog (same : SameLog after before) (key : Chars) :
    currentEntry after key = currentEntry before key :=
  latest_eq_of_sameRows ((entriesOf_sameRows same).filter _)

theorem currentLine_of_sameLog (same : SameLog after before) (key : Chars) :
    currentLine after key = currentLine before key :=
  latest_eq_of_sameRows ((linesOf_sameRows same).filter _)

/-- What a reader keeps of one more row. -/
theorem filter_append_row {σ : Type} {view : LogRow → σ} {keyOf : σ → Chars}
    (keys : ∀ row, keyOf (view row) = row.line.key) (before : List LogRow) (row : LogRow)
    (key : Chars) :
    ((before ++ [row]).map view).filter (fun seen => keyOf seen = key) =
      (before.map view).filter (fun seen => keyOf seen = key) ++
        if row.line.key = key then [view row] else [] := by
  rw [map_append, filter_append, map_singleton]
  congr 1
  by_cases same : row.line.key = key
  · rw [if_pos same, filter_cons_of_pos (by rw [keys]; exact decide_eq_true same), filter_nil]
  · rw [if_neg same, filter_cons_of_neg (by rw [keys]; simpa using same), filter_nil]

/-- The rows of a key that a reader sees are rows of the log. -/
theorem bounded_of_rows {σ κ : Type} [LinearOrder κ] {view : LogRow → σ} {keyOf : σ → Chars}
    {order : σ → κ} (keys : ∀ row, keyOf (view row) = row.line.key) {key : Chars} {bound : κ}
    (fresh : ∀ other ∈ before, other.line.key = key → order (view other) ≤ bound) :
    ∀ seen ∈ (before.map view).filter (fun seen => keyOf seen = key), order seen ≤ bound := by
  intro seen member
  obtain ⟨inLog, same⟩ := mem_filter.mp member
  obtain ⟨other, inBefore, rfl⟩ := mem_map.mp inLog
  rw [decide_eq_true_iff, keys] at same
  exact fresh other inBefore same

theorem memoryEntry_key (row : LogRow) : row.memoryEntry.key = row.line.key := rfl

theorem parsedLine_key (row : LogRow) : row.parsedLine.entry.key = row.line.key := rfl

/-- Rows of other keys do not show. -/
theorem currentEntry_append_other {key : Chars} (other : row.line.key ≠ key) :
    currentEntry (before ++ [row]) key = currentEntry before key := by
  rw [currentEntry, entriesOf, filter_append_row memoryEntry_key, if_neg other, append_nil]
  rfl

/-- A row that is as fresh as all others of its key is the current one. -/
theorem currentEntry_append_fresh (fresh : ∀ other ∈ before, other.line.key = row.line.key →
      rank other.timestamp ≤ rank row.timestamp) :
    currentEntry (before ++ [row]) row.line.key = some row.memoryEntry := by
  rw [currentEntry, entriesOf, filter_append_row memoryEntry_key, if_pos rfl]
  exact latest_concat_of_le (bounded_of_rows memoryEntry_key fresh)

/-- A row that is older than one of its key does not show. -/
theorem currentEntry_append_older {fresher : LogRow} (inLog : fresher ∈ before)
    (same : fresher.line.key = row.line.key) (older : rank row.timestamp < rank fresher.timestamp) :
    currentEntry (before ++ [row]) row.line.key = currentEntry before row.line.key := by
  have member : fresher.memoryEntry ∈
      (before.map LogRow.memoryEntry).filter fun entry => entry.key = row.line.key :=
    mem_filter.mpr ⟨mem_map_of_mem inLog, decide_eq_true same⟩
  rw [currentEntry, entriesOf, filter_append_row memoryEntry_key, if_pos rfl, latest_concat,
    currentEntry, entriesOf]
  cases found : latest freshness
      ((before.map LogRow.memoryEntry).filter fun entry => entry.key = row.line.key) with
  | none =>
    rw [latest_eq_none_iff.mp found] at member
    exact absurd member not_mem_nil
  | some current =>
    exact if_pos (lt_of_lt_of_le older ((mem_of_latest found).2 _ member))

theorem currentLine_append_fresh
    (fresh : ∀ other ∈ before, other.line.key = row.line.key → other.timestamp ≤ row.timestamp) :
    currentLine (before ++ [row]) row.line.key = some row.parsedLine := by
  rw [currentLine, linesOf,
    @filter_append_row _ LogRow.parsedLine (fun line => line.entry.key) parsedLine_key, if_pos rfl]
  exact latest_concat_of_le
    (@bounded_of_rows before _ _ _ LogRow.parsedLine (fun line => line.entry.key)
      TimestampedParsedLine.timestamp parsedLine_key _ _ fresh)

/-- A slot that does not resolve has no rows. -/
theorem no_rows_of_currentEntry {key : Chars} (absent : currentEntry before key = none) :
    ∀ row ∈ before, row.line.key ≠ key := by
  intro row member same
  have empty := latest_eq_none_iff.mp absent
  have seen : row.memoryEntry ∈ (entriesOf before).filter fun entry => entry.key = key :=
    mem_filter.mpr ⟨mem_map_of_mem member, decide_eq_true same⟩
  rw [empty] at seen
  exact not_mem_nil seen

end Adding

section Samples

def sampleEvent (entityId slotKey value : String) (source : MemorySource) : MemoryEventInput where
  entityId := entityId.toList
  slotKey := slotKey.toList
  layer := .semantic
  eventType := .factAdded
  value := value.toList
  source := source
  confidence := ⟨0⟩
  importance := ⟨0⟩
  provenance := none
  privacyLevel := .private

def sampleDay : Day := ⟨"2026-02-16", by decide, by decide⟩

def sampleClock : Clock := ⟨sampleDay, sampleDay⟩

def teaEvent : MemoryEventInput := sampleEvent "alice" "note" "tea" .system

def teaFiles : Files :=
  upsertProjection .empty sampleClock (eventKey teaEvent) teaEvent.value .daily teaEvent.layer none

theorem teaFiles_appended : appendEvent .empty sampleClock teaEvent = .ok (teaFiles, teaEvent) := rfl

theorem teaEvent_writable : Writable teaEvent.value teaEvent.provenance :=
  ⟨by decide, by decide, by decide, nofun⟩

end Samples

section RoundTrip

/-- The line of an event, behind any text of its file, is read as one entry with what the
event says. -/
def ReadsBack (event : MemoryEventInput) : Prop :=
  ∀ existing header, Heading header → ∃ entry : ParsedMarkdownLine,
    parsedLines (updatedText existing header
      (formatTaggedLine (eventKey event) event.value event.layer event.provenance)) =
        parsedLines existing ++ [entry] ∧
      entry.key = eventKey event ∧ entry.content = event.value ∧ entry.layer = some event.layer ∧
      ∀ given ∈ event.provenance, entry.provenance = some given

/-- The first append to a slot resolves to what was appended. -/
def FirstAppendResolves (input event : MemoryEventInput) : Prop :=
  ∀ (files files' others : Files) (clock : Clock),
    resolveSlot files event.entityId event.slotKey = none →
    appendEvent files clock input = .ok (files', event) → files'.Relisted others →
      (resolveSlot others event.entityId event.slotKey).map BeliefSlot.value = some event.value ∧
      ∀ given ∈ event.provenance, slotProvenance others event.entityId event.slotKey = some given

variable {input event : MemoryEventInput}

theorem readsBack_iff : ReadsBack event ↔
    RoundTrips (eventKey event) event.value event.layer event.provenance := by
  constructor
  · intro reads
    obtain ⟨entry, whole, same⟩ := reads [] coreHeader coreHeader_heading
    rw [parsedLines_updatedText [] coreHeader_heading, append_cancel_left_eq] at whole
    exact ⟨entry, whole, same⟩
  · rintro ⟨entry, single, same⟩ existing header heading
    exact ⟨entry, by rw [parsedLines_updatedText existing heading, single], same⟩

theorem firstAppendResolves_of_writable (writable : Writable event.value event.provenance) :
    FirstAppendResolves input event := by
  intro files files' others clock absent appended relisted
  have added := rows_appended_of_writable appended relisted writable
  have none : ∀ row ∈ rows files, row.line.key ≠ eventKey event := by
    rw [resolveSlot, Option.map_eq_none_iff, fetchProjectionEntry_eq] at absent
    exact no_rows_of_currentEntry absent
  constructor
  · rw [resolveSlot, fetchProjectionEntry_eq, currentEntry_of_sameLog added]
    have current := @currentEntry_append_fresh (rows files)
      (addedRow files clock event (writtenLine event))
      fun other member same => absurd same (none other member)
    rw [show joinKey event.entityId event.slotKey =
      (addedRow files clock event (writtenLine event)).line.key from rfl, current]
    rfl
  · intro given present
    rw [slotProvenance_eq, currentLine_of_sameLog added]
    have current := @currentLine_append_fresh (rows files)
      (addedRow files clock event (writtenLine event))
      fun other member same => absurd same (none other member)
    rw [show joinKey event.entityId event.slotKey =
      (addedRow files clock event (writtenLine event)).line.key from rfl, current]
    exact present

/-- An accepted event is read back, and its first append resolves to it, exactly if its
value is one line without blanks at its end and its provenance has no line feeds. -/
theorem round_trip_iff_writable (accepted : normalizeForIngress input = .ok event) :
    ReadsBack event ∧ FirstAppendResolves input event ↔ Writable event.value event.provenance := by
  have facts := normalizeForIngress_ok accepted
  rw [readsBack_iff, roundTrips_iff (plainKey_of_accepted facts) (filled_of_accepted facts)]
  exact and_iff_left_of_imp firstAppendResolves_of_writable

theorem tea_round_trip : ReadsBack teaEvent ∧ FirstAppendResolves teaEvent teaEvent :=
  (round_trip_iff_writable (show normalizeForIngress teaEvent = .ok teaEvent from rfl)).mpr
    teaEvent_writable

/-- A blank at the end of a value and a line feed in it are both lost. -/
theorem trailing_blank_lost :
    (normalizeForIngress (sampleEvent "alice" "note" "tea " .system) =
        .ok (sampleEvent "alice" "note" "tea " .system) ∧
      ¬ ReadsBack (sampleEvent "alice" "note" "tea " .system)) ∧
    (normalizeForIngress (sampleEvent "alice" "note" "green\ntea" .system) =
        .ok (sampleEvent "alice" "note" "green\ntea" .system) ∧
      ¬ ReadsBack (sampleEvent "alice" "note" "green\ntea" .system)) := by
  have lost : ∀ event : MemoryEventInput, normalizeForIngress event = .ok event →
      ¬ Writable event.value event.provenance → ¬ ReadsBack event := by
    intro event accepted broken reads
    have facts := normalizeForIngress_ok accepted
    exact broken ((roundTrips_iff (plainKey_of_accepted facts) (filled_of_accepted facts)).mp
      (readsBack_iff.mp reads))
  have blank : normalizeForIngress (sampleEvent "alice" "note" "tea " .system) =
      .ok (sampleEvent "alice" "note" "tea " .system) := by decide +kernel
  have lineFeed : normalizeForIngress (sampleEvent "alice" "note" "green\ntea" .system) =
      .ok (sampleEvent "alice" "note" "green\ntea" .system) := by decide +kernel
  refine ⟨⟨blank, lost _ blank fun writable => ?_⟩, lineFeed, lost _ lineFeed fun writable => ?_⟩
  · exact absurd writable.trimmed (by decide +kernel)
  · exact absurd writable.oneLine (by decide +kernel)

end RoundTrip

section LastAppend

/-- The stem of the file that an event is appended to. -/
def eventStem (files : Files) (clock : Clock) (event : MemoryEventInput) : String :=
  appendStem clock (projectionCategoryForEvent files (eventKey event) event)

/-- A row of the slot is fresher than the file of the event. -/
def Fresher (files : Files) (clock : Clock) (event : MemoryEventInput) : Prop :=
  ∃ row ∈ rows files, row.line.key = eventKey event ∧
    rank (eventStem files clock event) < rank row.timestamp

/-- The rows of the slot are in the core file like the event, or in dated logs like it. -/
def SameKind (files : Files) (clock : Clock) (event : MemoryEventInput) : Prop :=
  ∀ row ∈ rows files, row.line.key = eventKey event →
    (row.timestamp = coreStem ↔ eventStem files clock event = coreStem)

theorem timestamp_le_of_rank_le {first second : String}
    (sameKind : first = coreStem ↔ second = coreStem) (older : rank first ≤ rank second) :
    first ≤ second := by
  by_cases isCore : first = coreStem
  · rw [isCore, sameKind.mp isCore]
  · rw [rank, rank, if_neg isCore, if_neg (fun core => isCore (sameKind.mpr core))] at older
    exact WithBot.coe_le_coe.mp older

variable {files files' others : Files} {clock : Clock} {input event : MemoryEventInput}

/-- The list of slots shows what the slots resolve to. -/
theorem find?_listSlots (files : Files) (entityId slotKey : Chars) :
    ((listSlots files entityId).find? fun slot => slot.slotKey = slotKey) =
      resolveSlot files entityId slotKey := by
  have isKey : ∀ entry : Chars × MemoryEntry,
      ((fun slot : BeliefSlot => decide (slot.slotKey = slotKey)) ∘ fun current =>
        toSlot entityId current.1 current.2) entry = true ↔ entry.1 = slotKey := fun entry =>
    decide_eq_true_iff
  rw [listSlots, List.find?_map, SortedMap.find?_entries _ isKey, get_currentSlots, Option.map_map,
    resolveSlot, fetchProjectionEntry_eq]
  rfl

section

variable (appended : appendEvent files clock input = .ok (files', event))
  (writable : Writable event.value event.provenance) (relisted : files'.Relisted others)
include appended writable relisted

theorem resolveSlot_of_fresher (fresher : Fresher files clock event) :
    resolveSlot others event.entityId event.slotKey =
      resolveSlot files event.entityId event.slotKey := by
  obtain ⟨row, member, same, older⟩ := fresher
  rw [resolveSlot, fetchProjectionEntry_eq, resolveSlot, fetchProjectionEntry_eq,
    currentEntry_of_sameLog (rows_appended_of_writable appended relisted writable)]
  have current := @currentEntry_append_older (rows files)
    (addedRow files clock event (writtenLine event)) row member same older
  exact congrArg _ current

theorem resolveSlot_of_not_fresher (last : ¬ Fresher files clock event) :
    (resolveSlot others event.entityId event.slotKey).map BeliefSlot.value = some event.value := by
  rw [resolveSlot, fetchProjectionEntry_eq,
    currentEntry_of_sameLog (rows_appended_of_writable appended relisted writable)]
  have current := @currentEntry_append_fresh (rows files)
    (addedRow files clock event (writtenLine event))
    fun other member same => not_lt.mp fun older => last ⟨other, member, same, older⟩
  exact congrArg (Option.map BeliefSlot.value ∘ Option.map _) current

theorem slotProvenance_of_not_fresher
    (last : ¬ Fresher files clock event) (sameKind : SameKind files clock event) :
    slotProvenance others event.entityId event.slotKey = event.provenance := by
  rw [slotProvenance_eq,
    currentLine_of_sameLog (rows_appended_of_writable appended relisted writable)]
  have current := @currentLine_append_fresh (rows files)
    (addedRow files clock event (writtenLine event))
    fun other member same => timestamp_le_of_rank_le (sameKind other member same)
      (not_lt.mp fun older => last ⟨other, member, same, older⟩)
  exact congrArg (Option.bind · fun line => line.entry.provenance) current

end

/-- After an append, slots are listed as they resolve. The slot of the event shows the
event, unless one of its rows is fresher than the file of the event: then it shows what
it showed before. -/
theorem freshest_append_wins (appended : appendEvent files clock input = .ok (files', event))
    (writable : Writable event.value event.provenance) (relisted : files'.Relisted others) :
    (∀ entityId slotKey, ((listSlots others entityId).find? fun slot => slot.slotKey = slotKey) =
      resolveSlot others entityId slotKey) ∧
    (Fresher files clock event → resolveSlot others event.entityId event.slotKey =
      resolveSlot files event.entityId event.slotKey) ∧
    (¬ Fresher files clock event →
      (resolveSlot others event.entityId event.slotKey).map BeliefSlot.value = some event.value ∧
      (SameKind files clock event →
        slotProvenance others event.entityId event.slotKey = event.provenance)) :=
  ⟨find?_listSlots others, resolveSlot_of_fresher appended writable relisted, fun last =>
    ⟨resolveSlot_of_not_fresher appended writable relisted last,
      slotProvenance_of_not_fresher appended writable relisted last⟩⟩

theorem tea_is_current :
    (resolveSlot teaFiles "alice".toList "note".toList).map BeliefSlot.value =
      some "tea".toList := by
  have wins := (freshest_append_wins teaFiles_appended teaEvent_writable (Files.Relisted.refl _)).2.2
  refine (wins ?_).1
  rintro ⟨row, member, _⟩
  exact absurd member not_mem_nil

/-- What two appends on one day leave of a slot. -/
def afterBoth (first second : MemoryEventInput) :
    Except String (Option Chars × Option MemoryProvenance) := do
  let (files, _) ← appendEvent .empty sampleClock first
  let (files, event) ← appendEvent files sampleClock second
  return ((resolveSlot files event.entityId event.slotKey).map BeliefSlot.value,
    slotProvenance files event.entityId event.slotKey)

def cited (event : MemoryEventInput) (reference : String) : MemoryEventInput :=
  { event with provenance := some ⟨event.source, reference.toList, none⟩ }

/-- An append to the core file does not show behind a dated one, and a dated append
behind one in the core file shows with the provenance of the latter. -/
theorem core_append_shadowed :
    afterBoth (sampleEvent "alice" "note" "tea" .system)
        (sampleEvent "alice" "note" "coffee" .explicitUser) = .ok (some "tea".toList, none) ∧
      afterBoth (cited (sampleEvent "alice" "note" "tea" .explicitUser) "chat")
          (cited (sampleEvent "alice" "note" "coffee" .system) "log") =
        .ok (some "coffee".toList, some ⟨.explicitUser, "chat".toList, none⟩) := by
  decide +kernel

end LastAppend

section Isolation

variable {files others : Files} {row : LogRow}

theorem entriesOf_concat (before : List LogRow) (row : LogRow) :
    entriesOf (before ++ [row]) = entriesOf before ++ [row.memoryEntry] := map_append

section

variable (added : SameLog (rows others) (rows files ++ [row]))
include added

/-- The entries that are kept are those of before if the added row is not one of them. -/
theorem readAllEntries_filter {keep : MemoryEntry → Bool} (dropped : keep row.memoryEntry = false) :
    (readAllEntries others).filter keep = (readAllEntries files).filter keep := by
  have same : SameRows (toDual ∘ freshness) ((entriesOf (rows others)).filter keep)
      ((entriesOf (rows files)).filter keep) := by
    have entries := ((entriesOf_sameRows added).comp toDual.injective).filter keep
    rwa [entriesOf_concat, filter_append, filter_cons_of_neg (by simp [dropped]),
      filter_nil, append_nil] at entries
  rw [readAllEntries_eq, readAllEntries_eq, filter_ordered, filter_ordered,
    ordered_eq_of_sameRows same]

/-- The added row comes in between the others. -/
theorem readAllEntries_sublist :
    (readAllEntries files).Sublist (readAllEntries others) := by
  rw [readAllEntries_eq, readAllEntries_eq,
    ordered_eq_of_sameRows ((entriesOf_sameRows added).comp toDual.injective)]
  exact ordered_sublist ((sublist_append_left _ _).map LogRow.memoryEntry)

theorem resolveSlot_other
    {entityId slotKey : Chars} (other : joinKey entityId slotKey ≠ row.line.key) :
    resolveSlot others entityId slotKey = resolveSlot files entityId slotKey := by
  rw [resolveSlot, fetchProjectionEntry_eq, currentEntry_of_sameLog added,
    currentEntry_append_other other.symm, ← fetchProjectionEntry_eq, resolveSlot]

theorem listSlots_other (entityId : Chars) :
    (listSlots others entityId).filter (fun slot => joinKey entityId slot.slotKey ≠ row.line.key) =
      (listSlots files entityId).filter fun slot =>
        joinKey entityId slot.slotKey ≠ row.line.key := by
  have kept : ∀ files : Files,
      (listSlots files entityId).filter (fun slot => joinKey entityId slot.slotKey ≠ row.line.key) =
        ((currentSlots files entityId).entries.filter fun entry =>
          joinKey entityId entry.1 ≠ row.line.key).map fun entry =>
            toSlot entityId entry.1 entry.2 := by
    intro files
    rw [listSlots, filter_map]
    rfl
  have same : ∀ slotKey, decide (joinKey entityId slotKey ≠ row.line.key) = true →
      (currentSlots others entityId).get slotKey = (currentSlots files entityId).get slotKey := by
    intro slotKey other
    rw [get_currentSlots, get_currentSlots, currentEntry_of_sameLog added,
      currentEntry_append_other (of_decide_eq_true other).symm]
  rw [kept, kept]
  exact congrArg _ (SortedMap.filter_entries_eq same)

end

variable (toLowercase : Chars → Chars)

/-- The entries that a recall scores, before they are ordered. -/
def matching (files : Files) (query : Chars) (layerFilter : Option MemoryLayer) (keyPrefix : Chars) :
    List MemoryEntry :=
  (((readAllEntries files).filter fun entry => keyPrefix.isPrefixOf entry.key).filter
    fun entry => layerFilter.all fun layer => entry.layer = some layer).filterMap
      (scoreEntry toLowercase (Text.splitWhitespace (toLowercase query)))

def scoreOrder (entry : MemoryEntry) : ℚᵒᵈ := toDual (entry.score.getD 0)

theorem scoredEntries_eq (files : Files) (query : Chars) (layerFilter : Option MemoryLayer)
    (keyPrefix : Chars) :
    scoredEntries toLowercase files query layerFilter keyPrefix =
      ordered scoreOrder (matching toLowercase files query layerFilter keyPrefix) := rfl

variable {toLowercase}

theorem scoreEntry_key {keywords : List Chars} {entry scored : MemoryEntry}
    (found : scoreEntry toLowercase keywords entry = some scored) : scored.key = entry.key := by
  rw [scoreEntry] at found
  split at found
  · cases found
    rfl
  · cases found

/-- Entries are kept before they are scored or afterwards. -/
theorem filter_matching (files : Files) (query : Chars) (layerFilter : Option MemoryLayer)
    (keyPrefix : Chars) (keep : Chars → Bool) :
    (matching toLowercase files query layerFilter keyPrefix).filter (fun entry => keep entry.key) =
      ((((readAllEntries files).filter fun entry => keep entry.key).filter fun entry =>
        keyPrefix.isPrefixOf entry.key).filter fun entry =>
          layerFilter.all fun layer => entry.layer = some layer).filterMap
            (scoreEntry toLowercase (Text.splitWhitespace (toLowercase query))) := by
  rw [matching, filter_comm (fun entry : MemoryEntry => keyPrefix.isPrefixOf entry.key),
    filter_comm _ (fun entry : MemoryEntry => keep entry.key)]
  generalize ((readAllEntries files).filter fun entry => keyPrefix.isPrefixOf entry.key).filter
    (fun entry => layerFilter.all fun layer => entry.layer = some layer) = passing
  rw [filter_filterMap, filterMap_filter]
  refine filterMap_congr fun entry _ => ?_
  cases found : scoreEntry toLowercase (Text.splitWhitespace (toLowercase query)) entry with
  | none => split <;> rfl
  | some scored =>
    rw [Option.filter_some, scoreEntry_key found]

/-- The other entries of a page are the beginning of those of the page before, and all of
them if nothing is cut off. -/
theorem searchProjection_other (added : SameLog (rows others) (rows files ++ [row])) (query : Chars)
    (limit : Nat) (layerFilter : Option MemoryLayer) (keyPrefix : Chars) :
    ((searchProjection toLowercase others query limit layerFilter keyPrefix).filter fun entry =>
      entry.key ≠ row.line.key) <+:
        ((searchProjection toLowercase files query limit layerFilter keyPrefix).filter fun entry =>
          entry.key ≠ row.line.key) ∧
    ((scoredEntries toLowercase others query layerFilter keyPrefix).length ≤ limit →
      (searchProjection toLowercase others query limit layerFilter keyPrefix).filter (fun entry =>
        entry.key ≠ row.line.key) =
          (searchProjection toLowercase files query limit layerFilter keyPrefix).filter fun entry =>
            entry.key ≠ row.line.key) := by
  have fewer : (scoredEntries toLowercase files query layerFilter keyPrefix).Sublist
      (scoredEntries toLowercase others query layerFilter keyPrefix) := by
    rw [scoredEntries_eq, scoredEntries_eq]
    exact ordered_sublist ((((readAllEntries_sublist added).filter _).filter _).filterMap _)
  have same : (scoredEntries toLowercase others query layerFilter keyPrefix).filter (fun entry =>
      entry.key ≠ row.line.key) =
        (scoredEntries toLowercase files query layerFilter keyPrefix).filter fun entry =>
          entry.key ≠ row.line.key := by
    have dropped : decide (row.memoryEntry.key ≠ row.line.key) = false := by
      rw [memoryEntry_key, decide_eq_false_iff_not, not_not]
    rw [scoredEntries_eq, scoredEntries_eq, filter_ordered, filter_ordered,
      filter_matching others query layerFilter keyPrefix fun key => key ≠ row.line.key,
      filter_matching files query layerFilter keyPrefix fun key => key ≠ row.line.key,
      readAllEntries_filter added dropped]
  refine ⟨filter_take_front fewer same limit, fun whole => ?_⟩
  rw [searchProjection, searchProjection, take_of_length_le whole,
    take_of_length_le (fewer.length_le.trans whole), same]

theorem mem_searchProjection {query : Chars} {limit : Nat} {layerFilter : Option MemoryLayer}
    {keyPrefix : Chars} {entry : MemoryEntry}
    (member : entry ∈ searchProjection toLowercase files query limit layerFilter keyPrefix) :
    keyPrefix <+: entry.key := by
  have scored := mem_of_mem_take member
  rw [scoredEntries_eq, (ordered_perm _).mem_iff] at scored
  obtain ⟨source, passing, found⟩ := mem_filterMap.mp scored
  rw [scoreEntry_key found]
  exact isPrefixOf_iff_prefix.mp (mem_filter.mp (mem_filter.mp passing).1).2

theorem joinKey_toRecallEntry {entityId : Chars} {entry : MemoryEntry}
    (starts : entityPrefix entityId <+: entry.key) :
    joinKey entityId (toRecallEntry entityId entry).slotKey = entry.key := by
  obtain ⟨slotKey, whole⟩ := starts
  rw [toRecallEntry, isPrefixOf?_eq_some_iff_append_eq.mpr whole, Option.getD_some, ← whole,
    entityPrefix, joinKey, append_assoc]
  rfl

/-- The entries of an answer whose slots have other keys. -/
def otherEntries (key entityId : Chars) (answer : Except String (List MemoryRecallEntry)) :
    Except String (List MemoryRecallEntry) :=
  answer.map fun entries => entries.filter fun entry => joinKey entityId entry.slotKey ≠ key

theorem recallScoped_eq (files : Files) (query : RecallQuery) :
    recallScoped toLowercase files query =
      (Tenant.enforceRecallScope query.policyContext (String.ofList query.entityId)).map fun _ =>
        (searchProjection toLowercase files query.query query.limit query.layerFilter
          (entityPrefix query.entityId)).map (toRecallEntry query.entityId) := by
  rw [recallScoped]
  cases Tenant.enforceRecallScope query.policyContext (String.ofList query.entityId) <;> rfl

theorem otherEntries_recallScoped (key : Chars) (files : Files) (query : RecallQuery) :
    otherEntries key query.entityId (recallScoped toLowercase files query) =
      (Tenant.enforceRecallScope query.policyContext (String.ofList query.entityId)).map fun _ =>
        ((searchProjection toLowercase files query.query query.limit query.layerFilter
          (entityPrefix query.entityId)).filter fun entry => entry.key ≠ key).map
            (toRecallEntry query.entityId) := by
  have entries : ((searchProjection toLowercase files query.query query.limit query.layerFilter
      (entityPrefix query.entityId)).map (toRecallEntry query.entityId)).filter (fun entry =>
        joinKey query.entityId entry.slotKey ≠ key) =
      ((searchProjection toLowercase files query.query query.limit query.layerFilter
        (entityPrefix query.entityId)).filter fun entry => entry.key ≠ key).map
          (toRecallEntry query.entityId) := by
    rw [filter_map]
    refine congrArg _ (filter_congr fun entry member => ?_)
    rw [Function.comp_apply, joinKey_toRecallEntry (mem_searchProjection member)]
  rw [otherEntries, recallScoped_eq]
  cases Tenant.enforceRecallScope query.policyContext (String.ofList query.entityId) with
  | error message => rfl
  | ok _ => exact congrArg Except.ok entries

/-- A recall of entities that the key does not belong to is not touched. -/
theorem recallScoped_outside (added : SameLog (rows others) (rows files ++ [row]))
    {query : RecallQuery} (outside : ¬ entityPrefix query.entityId <+: row.line.key) :
    recallScoped toLowercase others query = recallScoped toLowercase files query := by
  have dropped : (entityPrefix query.entityId).isPrefixOf row.memoryEntry.key = false := by
    rw [memoryEntry_key, Bool.eq_false_iff, ne_eq, isPrefixOf_iff_prefix]
    exact outside
  rw [recallScoped_eq, recallScoped_eq, searchProjection, searchProjection, scoredEntries_eq,
    scoredEntries_eq, matching, matching, readAllEntries_filter added dropped]

/-- A recall keeps the entries of other keys, up to its limit. -/
theorem recallScoped_other (added : SameLog (rows others) (rows files ++ [row]))
    (query : RecallQuery) :
    (∃ count, otherEntries row.line.key query.entityId (recallScoped toLowercase others query) =
      (otherEntries row.line.key query.entityId (recallScoped toLowercase files query)).map
        (List.take count)) ∧
    ((scoredEntries toLowercase others query.query query.layerFilter
        (entityPrefix query.entityId)).length ≤ query.limit →
      otherEntries row.line.key query.entityId (recallScoped toLowercase others query) =
        otherEntries row.line.key query.entityId (recallScoped toLowercase files query)) := by
  obtain ⟨page, whole⟩ := @searchProjection_other files others row toLowercase added query.query
    query.limit query.layerFilter (entityPrefix query.entityId)
  rw [otherEntries_recallScoped, otherEntries_recallScoped]
  constructor
  · have beginning := prefix_iff_eq_take.mp page
    generalize List.length _ = count at beginning
    refine ⟨count, ?_⟩
    rw [beginning, map_take]
    cases Tenant.enforceRecallScope query.policyContext (String.ofList query.entityId) <;> rfl
  · intro fits
    rw [whole fits]

end Isolation

section Appends

variable {files files' others : Files} {clock : Clock} {input event : MemoryEventInput}

/-- An append without line feeds leaves the answers about all other keys, except that a
recall whose limit is reached may cut off more of them. -/
theorem append_isolated (appended : appendEvent files clock input = .ok (files', event))
    (relisted : files'.Relisted others) (oneLine : '\n' ∉ event.value)
    (provenance : OneLine event.provenance) :
    (∀ entityId slotKey, joinKey entityId slotKey ≠ eventKey event →
      resolveSlot others entityId slotKey = resolveSlot files entityId slotKey) ∧
    (∀ entityId, (listSlots others entityId).filter (fun slot =>
        joinKey entityId slot.slotKey ≠ eventKey event) =
          (listSlots files entityId).filter fun slot =>
            joinKey entityId slot.slotKey ≠ eventKey event) ∧
    (∀ toLowercase query, ¬ entityPrefix query.entityId <+: eventKey event →
      recallScoped toLowercase others query = recallScoped toLowercase files query) ∧
    ∀ toLowercase query,
      (∃ count, otherEntries (eventKey event) query.entityId (recallScoped toLowercase others query) =
        (otherEntries (eventKey event) query.entityId (recallScoped toLowercase files query)).map
          (List.take count)) ∧
      ((scoredEntries toLowercase others query.query query.layerFilter
          (entityPrefix query.entityId)).length ≤ query.limit →
        otherEntries (eventKey event) query.entityId (recallScoped toLowercase others query) =
          otherEntries (eventKey event) query.entityId (recallScoped toLowercase files query)) := by
  obtain ⟨line, same, added⟩ := rows_appended appended relisted oneLine provenance
  rw [← same]
  exact ⟨fun _ _ other => resolveSlot_other added other, listSlots_other added,
    fun _ _ outside => recallScoped_outside added outside, fun _ query =>
      recallScoped_other added query⟩

theorem tea_leaves_bob :
    resolveSlot teaFiles "bob".toList "pet".toList = none := by
  have isolated := append_isolated teaFiles_appended (Files.Relisted.refl _)
    teaEvent_writable.oneLine teaEvent_writable.provenance
  rw [isolated.1 "bob".toList "pet".toList (by decide)]
  rfl

/-- The value of a slot after appends on one day. -/
def valueAfter (inputs : List MemoryEventInput) (entityId slotKey : String) :
    Except String (Option Chars) := do
  let files ← inputs.foldlM (fun files input => do
    let (files, _) ← appendEvent files sampleClock input
    return files) Files.empty
  return (resolveSlot files entityId.toList slotKey.toList).map BeliefSlot.value

def recalledAfter (inputs : List MemoryEventInput) (query : RecallQuery) :
    Except String (List Chars) := do
  let files ← inputs.foldlM (fun files input => do
    let (files, _) ← appendEvent files sampleClock input
    return files) Files.empty
  let entries ← recallScoped id files query
  return entries.map MemoryRecallEntry.slotKey

def teaQuery : RecallQuery := ⟨"alice".toList, "tea".toList, 1, ⟨false, none⟩, none⟩

/-- A line feed in a value writes to another slot; two pairs can share a joined name,
also through the normalization of names; and a recall has a limit. -/
theorem other_answers_change :
    (valueAfter [] "bob" "pet" = .ok none ∧
      valueAfter [sampleEvent "alice" "note" "x\n- **bob:pet**: cat" .system] "bob" "pet" =
        .ok (some "cat".toList)) ∧
    (valueAfter [] "person:alice" "note" = .ok none ∧
      valueAfter [sampleEvent "person" "alice:note" "tea" .system] "person:alice" "note" =
        .ok (some "tea".toList)) ∧
    (valueAfter [] "al_ice" "note" = .ok none ∧
      valueAfter [sampleEvent "al ice" "note" "tea" .system] "al_ice" "note" =
        .ok (some "tea".toList)) ∧
    (recalledAfter [sampleEvent "alice" "note" "tea" .explicitUser] teaQuery = .ok ["note".toList] ∧
      recalledAfter [sampleEvent "alice" "note" "tea" .explicitUser,
        sampleEvent "alice" "drink" "tea" .system] teaQuery = .ok ["drink".toList]) := by
  decide +kernel

end Appends

end Asterel.Markdown
