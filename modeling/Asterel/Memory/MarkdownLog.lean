import Asterel.Memory.Markdown

/-!
# The markdown files as a log

The files hold rows: a parsed line with the stem and the kind of its file. Every reader
shows the rows of some keys in an order of their stems, so what it returns depends only
on the rows of every stem and not on the order of the files. An append adds the rows of
its line behind those of its stem.
-/

namespace Asterel.Markdown

open Library Library.Latest Library.OrderedTable List OrderDual Text
open Asterel.Memory

structure LogRow where
  timestamp : String
  category : MemoryCategory
  line : ParsedMarkdownLine

def rowsOf (timestamp : String) (category : MemoryCategory) (content : Chars) : List LogRow :=
  (parsedLines content).map (LogRow.mk timestamp category)

/-- The rows of all files. -/
def rows (files : Files) : List LogRow :=
  rowsOf coreStem .core files.core ++
    files.daily.flatMap fun file => rowsOf file.day.text .daily file.content

def LogRow.memoryEntry (row : LogRow) : MemoryEntry := toEntry row.timestamp row.category row.line

def LogRow.parsedLine (row : LogRow) : TimestampedParsedLine := ⟨row.timestamp, row.line⟩

/-- The order of the stems: a dated log is fresher than the core file. -/
def rank (timestamp : String) : WithBot String := if timestamp = coreStem then ⊥ else timestamp

section Ranks

theorem rank_injective : Function.Injective rank := by
  intro first second same
  rw [rank, rank] at same
  split_ifs at same with isCore otherCore otherCore
  · rw [isCore, otherCore]
  · cases same
  · cases same
  · exact WithBot.coe_injective same

/-- The core file is older than every day. -/
theorem projectionTimestampCmp_eq (left right : String) :
    projectionTimestampCmp left right = cmp (rank left) (rank right) := by
  rw [projectionTimestampCmp, rank, rank]
  by_cases leftCore : left = coreStem <;> by_cases rightCore : right = coreStem
  · rw [decide_eq_true leftCore, decide_eq_true rightCore, if_pos leftCore, if_pos rightCore]
    exact (cmp_self_eq_eq _).symm
  · rw [decide_eq_true leftCore, decide_eq_false rightCore, if_pos leftCore, if_neg rightCore]
    exact (cmp_eq_lt_iff _ _).mpr (WithBot.bot_lt_coe right) |>.symm
  · rw [decide_eq_false leftCore, decide_eq_true rightCore, if_neg leftCore, if_pos rightCore]
    exact (cmp_eq_gt_iff _ _).mpr (WithBot.bot_lt_coe left) |>.symm
  · rw [decide_eq_false leftCore, decide_eq_false rightCore, if_neg leftCore, if_neg rightCore]
    exact (WithBot.coe_strictMono.cmp_map_eq left right).symm

theorem projectionTimestampCmp_eq_gt_iff (left right : String) :
    projectionTimestampCmp left right = .gt ↔ rank right < rank left := by
  rw [projectionTimestampCmp_eq, cmp_eq_gt_iff]

theorem projectionTimestampIsNewerOrEqual_iff (left right : String) :
    projectionTimestampIsNewerOrEqual left right = true ↔ ¬ rank left < rank right := by
  rw [projectionTimestampIsNewerOrEqual, decide_eq_true_iff, projectionTimestampCmp_eq, ne_eq,
    cmp_eq_lt_iff]

end Ranks

section Reading

variable {files others : Files}

/-- Rows with equal stems in the order of the log. -/
abbrev SameLog (files others : List LogRow) : Prop := SameRows LogRow.timestamp files others

theorem timestamp_of_mem_rowsOf {timestamp : String} {category : MemoryCategory} {content : Chars}
    {row : LogRow} (member : row ∈ rowsOf timestamp category content) :
    row.timestamp = timestamp ∧ row.category = category := by
  obtain ⟨line, _, rfl⟩ := mem_map.mp member
  exact ⟨rfl, rfl⟩

/-- The order in which the directory lists the files does not show. -/
theorem rows_relisted (relisted : files.Relisted others) : SameLog (rows files) (rows others) := by
  rw [rows, rows, relisted.1]
  refine (SameRows.refl _).append (sameRows_of_perm (fun file row member => ?_) relisted.2
    files.distinct)
  exact (timestamp_of_mem_rowsOf member).1

/-- The entries as the readers see them, in the order of the log. -/
def entriesOf (rows : List LogRow) : List MemoryEntry := rows.map LogRow.memoryEntry

def linesOf (rows : List LogRow) : List TimestampedParsedLine := rows.map LogRow.parsedLine

def freshness : MemoryEntry → WithBot String := rank ∘ MemoryEntry.timestamp

theorem entriesOf_sameRows {first second : List LogRow} (same : SameLog first second) :
    SameRows freshness (entriesOf first) (entriesOf second) :=
  SameRows.comp rank_injective (SameRows.map (fun _ => rfl) same)

theorem linesOf_sameRows {first second : List LogRow} (same : SameLog first second) :
    SameRows TimestampedParsedLine.timestamp (linesOf first) (linesOf second) :=
  SameRows.map (fun _ => rfl) same

theorem readAllEntries_eq (files : Files) :
    readAllEntries files = ordered (toDual ∘ freshness) (entriesOf (rows files)) := by
  have entries : parseEntriesFromFile coreStem files.core .core ++
      (files.daily.flatMap fun file => parseEntriesFromFile file.day.text file.content .daily) =
        entriesOf (rows files) := by
    simp only [entriesOf, rows, rowsOf, parseEntriesFromFile, map_append, map_map, map_flatMap]
    rfl
  have relation : (fun a b : MemoryEntry => projectionTimestampCmp b.timestamp a.timestamp ≠ .gt) =
      fun a b => (toDual ∘ freshness) a ≤ (toDual ∘ freshness) b := by
    funext a b
    rw [ne_eq, projectionTimestampCmp_eq_gt_iff, not_lt]
    rfl
  rw [readAllEntries, entries, ordered]
  congr!

theorem readAllParsedLines_eq (files : Files) :
    readAllParsedLines files =
      ordered (toDual ∘ TimestampedParsedLine.timestamp) (linesOf (rows files)) := by
  have lines : (parsedLines files.core).map (TimestampedParsedLine.mk coreStem) ++
      (files.daily.flatMap fun file =>
        (parsedLines file.content).map (TimestampedParsedLine.mk file.day.text)) =
          linesOf (rows files) := by
    simp only [linesOf, rows, rowsOf, map_append, map_map, map_flatMap]
    rfl
  rw [readAllParsedLines, lines, ordered]
  rfl

/-- The freshest entry of a key. -/
def currentEntry (rows : List LogRow) (key : Chars) : Option MemoryEntry :=
  latest freshness ((entriesOf rows).filter fun entry => entry.key = key)

/-- The step of the fold over the entries. -/
theorem newer_freshness_eq : (fun (latest : Option MemoryEntry) entry =>
    match latest with
    | some current =>
      if projectionTimestampCmp current.timestamp entry.timestamp = .gt then some current
      else some entry
    | none => some entry) = newer freshness := by
  funext latest entry
  cases latest with
  | none => rfl
  | some current => exact if_congr (projectionTimestampCmp_eq_gt_iff _ _) rfl rfl

theorem fetchProjectionEntry_eq (files : Files) (key : Chars) :
    fetchProjectionEntry files key = currentEntry (rows files) key := by
  rw [currentEntry, ← latest_filter_ordered, ← readAllEntries_eq, latest, ← newer_freshness_eq]
  rfl

/-- The list of slots shows the entries that resolving them shows. -/
theorem get_currentSlots (files : Files) (entityId slotKey : Chars) :
    (currentSlots files entityId).get slotKey = currentEntry (rows files) (joinKey entityId slotKey) := by
  have slots : currentSlots files entityId = (readAllEntries files).foldl (fun latest entry =>
      ((entityPrefix entityId).isPrefixOf? entry.key).elim latest fun slotKey =>
        latest.alter (replaceOlder entry) slotKey) .empty := by
    rw [currentSlots]
    congr 1
    funext latest entry
    cases (entityPrefix entityId).isPrefixOf? entry.key <;> rfl
  have keep : (readAllEntries files).filter (fun entry =>
      (entityPrefix entityId).isPrefixOf? entry.key = some slotKey) =
        (readAllEntries files).filter fun entry => entry.key = joinKey entityId slotKey := by
    refine filter_congr fun entry _ => ?_
    rw [decide_eq_decide, isPrefixOf?_eq_some_iff_append_eq, entityPrefix, joinKey, append_assoc]
    exact eq_comm
  have step : (fun (current : Option MemoryEntry) entry => some (replaceOlder entry current)) =
      newer freshness := by
    funext current entry
    cases current with
    | none => rfl
    | some current =>
      rw [newer, replaceOlder, freshness, Function.comp_apply, Function.comp_apply]
      by_cases older : rank entry.timestamp < rank current.timestamp
      · rw [if_pos older, if_neg]
        rwa [projectionTimestampIsNewerOrEqual_iff, not_not]
      · rw [if_neg older, if_pos]
        rwa [projectionTimestampIsNewerOrEqual_iff]
  rw [slots, SortedMap.get_foldl_alter, step, currentEntry, ← latest_filter_ordered,
    ← readAllEntries_eq, ← keep, latest]
  congr!

/-- The freshest line of a key, by the plain order of the stems. -/
def currentLine (rows : List LogRow) (key : Chars) : Option TimestampedParsedLine :=
  latest TimestampedParsedLine.timestamp ((linesOf rows).filter fun line => line.entry.key = key)

/-- The step of the fold over the lines. -/
theorem newer_timestamp_eq : (fun (latest : Option TimestampedParsedLine) line =>
    match latest with
    | some current => if line.timestamp < current.timestamp then some current else some line
    | none => some line) = newer TimestampedParsedLine.timestamp := by
  funext latest line
  cases latest <;> rfl

theorem slotProvenance_eq (files : Files) (entityId slotKey : Chars) :
    slotProvenance files entityId slotKey =
      (currentLine (rows files) (joinKey entityId slotKey)).bind fun line =>
        line.entry.provenance := by
  rw [currentLine, ← latest_filter_ordered, ← readAllParsedLines_eq, latest, ← newer_timestamp_eq]
  rfl

end Reading

section Appending

/-- A heading holds no entries. -/
theorem parsedLines_heading {title : Chars} (oneLine : '\n' ∉ title) :
    parsedLines ('#' :: title) = [] := by
  have visible : isWhitespace '#' = false := by decide
  have trimmed : trim ('#' :: title) = '#' :: trimEnd title := by
    rw [trim, trimStart_eq_self (by simpa using visible)]
    exact trimEnd_append_cons visible [] title
  rw [parsedLines_eq, splitOn_eq_singleton (by simpa using oneLine), filterMap_cons,
    parse_eq_none (by rw [trimmed, head?_cons]; decide), filterMap_nil]

/-- What stands before the first entry of a file. -/
def Heading (header : Chars) : Prop :=
  ∃ title : Chars, '\n' ∉ title ∧ header = '#' :: title ++ ['\n', '\n']

theorem coreHeader_heading : Heading coreHeader :=
  ⟨" Long-Term Memory".toList, by decide, by decide +kernel⟩

theorem dailyTitle_eq : "# Daily Log — ".toList = '#' :: " Daily Log — ".toList := by
  decide +kernel

theorem dailyTitle_oneLine : '\n' ∉ " Daily Log — ".toList := by decide +kernel

theorem lineFeeds_eq : "\n\n".toList = ['\n', '\n'] := by decide +kernel

theorem dailyHeader_eq (date : Day) :
    dailyHeader date = '#' :: (" Daily Log — ".toList ++ date.text.toList) ++ ['\n', '\n'] := by
  have written : dailyHeader date =
      "# Daily Log — ".toList ++ date.text.toList ++ "\n\n".toList := rfl
  rw [written, dailyTitle_eq, lineFeeds_eq, cons_append]

theorem dailyHeader_heading (date : Day) : Heading (dailyHeader date) := by
  have clear := dailyTitle_oneLine
  have shape := dailyHeader_eq date
  generalize " Daily Log — ".toList = title at clear shape
  refine ⟨title ++ date.text.toList, ?_, shape⟩
  rw [mem_append, not_or]
  exact ⟨clear, date.oneLine⟩

/-- The entries of an appended text come behind those that were there. -/
theorem parsedLines_updatedText (existing : Chars) {header : Chars} (heading : Heading header)
    (content : Chars) :
    parsedLines (updatedText existing header content) = parsedLines existing ++ parsedLines content := by
  obtain ⟨title, oneLine, rfl⟩ := heading
  rw [updatedText]
  split
  case isTrue empty =>
    rw [List.isEmpty_iff.mp empty, parsedLines_nil, nil_append]
    have shape : '#' :: title ++ ['\n', '\n'] ++ content ++ ['\n'] =
        '#' :: title ++ '\n' :: ([] ++ '\n' :: (content ++ '\n' :: [])) := by simp
    rw [shape, parsedLines_append, parsedLines_append, parsedLines_append,
      parsedLines_heading oneLine, parsedLines_nil]
    simp
  case isFalse =>
    rw [append_assoc, cons_append, parsedLines_append, parsedLines_append, parsedLines_nil,
      append_nil]

/-- The stem of the file that an append goes to. -/
def appendStem (clock : Clock) : MemoryCategory → String
  | .core => coreStem
  | _ => clock.day.text

def fileCategory : MemoryCategory → MemoryCategory
  | .core => .core
  | _ => .daily

theorem rowsOf_updatedText (timestamp : String) (category : MemoryCategory) (existing : Chars)
    {header : Chars} (heading : Heading header) (content : Chars) :
    rowsOf timestamp category (updatedText existing header content) =
      rowsOf timestamp category existing ++ rowsOf timestamp category content := by
  rw [rowsOf, parsedLines_updatedText existing heading, map_append, rowsOf, rowsOf]

theorem rows_appendDaily (day headerDay : Day) (content : Chars) {daily : List DailyFile}
    (distinct : (daily.map fun file => file.day.text).Nodup) :
    SameLog
      ((appendDaily day headerDay content daily).flatMap fun file =>
        rowsOf file.day.text .daily file.content)
      ((daily.flatMap fun file => rowsOf file.day.text .daily file.content) ++
        rowsOf day.text .daily content) := by
  induction daily with
  | nil =>
    rw [appendDaily, flatMap_singleton, rowsOf_updatedText _ _ _ (dailyHeader_heading headerDay)]
    exact SameRows.refl _
  | cons file rest ih =>
    obtain ⟨absent, restDistinct⟩ := nodup_cons.mp distinct
    rw [appendDaily]
    split
    case isTrue same =>
      rw [flatMap_cons, flatMap_cons,
        rowsOf_updatedText _ _ _ (dailyHeader_heading headerDay), append_assoc,
        append_assoc, same]
      refine (SameRows.refl _).append (sameRows_swap fun row inNew other inRest equal => ?_)
      obtain ⟨another, inFiles, inAnother⟩ := mem_flatMap.mp inRest
      refine absent (mem_map.mpr ⟨another, inFiles, ?_⟩)
      change another.day.text = file.day.text
      rw [same, ← (timestamp_of_mem_rowsOf inNew).1, equal, (timestamp_of_mem_rowsOf inAnother).1]
    case isFalse =>
      rw [flatMap_cons, flatMap_cons, append_assoc]
      exact (SameRows.refl _).append (ih restDistinct)

/-- An append adds the rows of its line behind those of its stem. -/
theorem rows_upsertProjection (files : Files) (clock : Clock) (key content : Chars)
    (category : MemoryCategory) (layer : MemoryLayer) (provenance : Option MemoryProvenance) :
    SameLog (rows (upsertProjection files clock key content category layer provenance))
      (rows files ++ rowsOf (appendStem clock category) (fileCategory category)
        (formatTaggedLine key content layer provenance)) := by
  have daily : SameLog
      (rowsOf coreStem .core files.core ++
        (appendDaily clock.day clock.headerDay (formatTaggedLine key content layer provenance)
          files.daily).flatMap fun file => rowsOf file.day.text .daily file.content)
      (rows files ++ rowsOf clock.day.text .daily (formatTaggedLine key content layer provenance)) := by
    rw [rows, append_assoc]
    exact (SameRows.refl _).append
      (rows_appendDaily clock.day clock.headerDay _ files.distinct)
  cases category with
  | core =>
    rw [rows, upsertProjection, rowsOf_updatedText _ _ _ coreHeader_heading, rows, append_assoc,
      append_assoc]
    refine (SameRows.refl _).append (sameRows_swap fun row inNew other inDaily equal => ?_)
    obtain ⟨file, _, inFile⟩ := mem_flatMap.mp inDaily
    apply file.day.dated
    rw [← (timestamp_of_mem_rowsOf inFile).1, ← equal, (timestamp_of_mem_rowsOf inNew).1]
  | daily => exact daily
  | conversation => exact daily

end Appending

end Asterel.Markdown
