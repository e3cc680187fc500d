import Asterel.Memory.MarkdownSlots

/-!
# Archiving the daily logs

The hygiene pass moves the logs of old days to a directory that no reader opens. The
core file has no date and stays, and it is older than every log. So the slots whose
freshest lines are moved show what the core file still says about them.
-/

namespace Asterel.Markdown

open Library Library.Latest List
open Asterel.Memory

section Pass

variable (parseDate : Chars → Option Int)

/-- The date that a stem shows, as a number of days. -/
def memoryDateFromFilename (stem : String) : Option Int :=
  parseDate (stem.toList.takeWhile (· ≠ '_'))

def archived (cutoff : Int) (file : DailyFile) : Bool :=
  (memoryDateFromFilename parseDate file.day.text).any fun fileDate => fileDate < cutoff

/-- The files without the logs from before a date. -/
def keptFiles (cutoff : Int) (files : Files) : Files where
  core := files.core
  daily := files.daily.filter fun file => ! archived parseDate cutoff file
  distinct := files.distinct.sublist (filter_sublist.map _)

/-- The files that stay, and the logs that are moved to the archive. -/
def archiveDailyMemoryFiles (today : Int) (archiveAfterDays : Nat) (files : Files) :
    Files × List DailyFile :=
  if archiveAfterDays = 0 then (files, [])
  else
    let cutoff := today - archiveAfterDays
    (keptFiles parseDate cutoff files, files.daily.filter (archived parseDate cutoff))

/-- The days are read as dates, and their texts are ordered like these. -/
structure ReadsDates (days : Set Day) : Prop where
  dated : ∀ day ∈ days, (memoryDateFromFilename parseDate day.text).isSome
  ordered : ∀ first ∈ days, ∀ second ∈ days,
    ∀ earlier ∈ memoryDateFromFilename parseDate first.text,
    ∀ later ∈ memoryDateFromFilename parseDate second.text,
      earlier < later → first.text < second.text

/-- The files that appends on some days and earlier passes leave. -/
inductive Kept (days : Set Day) : Files → Prop where
  | empty : Kept days .empty
  | appended {files files' : Files} {clock : Clock} {input event : MemoryEventInput}
      (before : Kept days files) (known : clock.day ∈ days)
      (step : appendEvent files clock input = .ok (files', event)) : Kept days files'
  | relisted {files others : Files} (before : Kept days files) (same : files.Relisted others) :
      Kept days others
  | archived {files : Files} (before : Kept days files) (today : Int) (archiveAfterDays : Nat) :
      Kept days (archiveDailyMemoryFiles parseDate today archiveAfterDays files).1

variable {parseDate} {days : Set Day} {files : Files}

theorem day_of_mem_appendDaily {day headerDay : Day} {content : Chars} {daily : List DailyFile}
    {file : DailyFile} (member : file ∈ appendDaily day headerDay content daily) :
    file.day = day ∨ ∃ old ∈ daily, file.day = old.day := by
  induction daily with
  | nil =>
    rw [appendDaily, mem_singleton] at member
    exact .inl (congrArg DailyFile.day member)
  | cons first rest ih =>
    rw [appendDaily] at member
    split at member
    · rcases mem_cons.mp member with rfl | inRest
      · exact .inr ⟨first, mem_cons_self, rfl⟩
      · exact .inr ⟨file, mem_cons_of_mem _ inRest, rfl⟩
    · rcases mem_cons.mp member with rfl | inRest
      · exact .inr ⟨file, mem_cons_self, rfl⟩
      · rcases ih inRest with here | ⟨old, inOld, same⟩
        · exact .inl here
        · exact .inr ⟨old, mem_cons_of_mem _ inOld, same⟩

theorem days_upsertProjection {clock : Clock} {key content : Chars} {category : MemoryCategory}
    {layer : MemoryLayer} {provenance : Option MemoryProvenance} {file : DailyFile}
    (member : file ∈ (upsertProjection files clock key content category layer provenance).daily) :
    file.day = clock.day ∨ ∃ old ∈ files.daily, file.day = old.day := by
  cases category with
  | core => exact .inr ⟨file, member, rfl⟩
  | daily => exact day_of_mem_appendDaily member
  | conversation => exact day_of_mem_appendDaily member

theorem archived_sublist (today : Int) (archiveAfterDays : Nat) (files : Files) :
    (archiveDailyMemoryFiles parseDate today archiveAfterDays files).1.daily.Sublist files.daily := by
  rw [archiveDailyMemoryFiles]
  split
  · exact Sublist.refl _
  · exact filter_sublist

/-- All logs are of the days of the appends. -/
theorem Kept.day_mem (kept : Kept parseDate days files) : ∀ file ∈ files.daily, file.day ∈ days := by
  induction kept with
  | empty => exact fun _ member => absurd member not_mem_nil
  | appended _ known step ih =>
    intro file member
    obtain ⟨_, rfl⟩ := appendEvent_ok step
    rcases days_upsertProjection member with here | ⟨old, inFiles, same⟩
    · rwa [here]
    · rw [same]
      exact ih old inFiles
  | relisted _ same ih =>
    exact fun file member => ih file (same.2.mem_iff.mpr member)
  | archived _ today archiveAfterDays ih =>
    exact fun file member =>
      ih file ((archived_sublist today archiveAfterDays _).subset member)

end Pass

section Current

variable {files : Files} {key : Chars}

/-- The last line about a key in the text of a file. -/
def lastLine (content key : Chars) : Option ParsedMarkdownLine :=
  ((parsedLines content).filter fun line => line.key = key).getLast?

theorem keyed_entries (timestamp : String) (category : MemoryCategory) (content key : Chars) :
    (entriesOf (rowsOf timestamp category content)).filter (fun entry => entry.key = key) =
      ((parsedLines content).filter fun line => line.key = key).map (toEntry timestamp category) := by
  rw [entriesOf, rowsOf, map_map, filter_map]
  rfl

/-- The entries of a log behind others that are no fresher hold the current one. -/
theorem currentEntry_append_file (before : List LogRow) (timestamp : String)
    (category : MemoryCategory) (content : Chars)
    (below : ∀ row ∈ before, row.line.key = key → rank row.timestamp ≤ rank timestamp) :
    currentEntry (before ++ rowsOf timestamp category content) key =
      ((lastLine content key).map (toEntry timestamp category)).or (currentEntry before key) := by
  rw [currentEntry, entriesOf, map_append, filter_append, ← entriesOf, ← entriesOf,
    keyed_entries, @latest_append_level _ _ _ freshness _ _ (rank timestamp), getLast?_map]
  · rfl
  · exact bounded_of_rows memoryEntry_key below
  · intro entry member
    obtain ⟨line, _, rfl⟩ := mem_map.mp member
    rfl

theorem lastLine_of_row {timestamp : String} {category : MemoryCategory} {content : Chars}
    {row : LogRow} (member : row ∈ rowsOf timestamp category content) (same : row.line.key = key) :
    lastLine content key ≠ none := by
  obtain ⟨line, inContent, rfl⟩ := mem_map.mp member
  rw [lastLine, ne_eq, getLast?_eq_none_iff]
  exact ne_nil_of_mem (mem_filter.mpr ⟨inContent, decide_eq_true same⟩)

/-- The freshest log that has a line about a key. -/
structure Freshest (files : Files) (key : Chars) (file : DailyFile) : Prop where
  member : file ∈ files.daily
  speaks : lastLine file.content key ≠ none
  last : ∀ other ∈ files.daily, lastLine other.content key ≠ none → other.day.text ≤ file.day.text

theorem currentEntry_freshest {file : DailyFile} (freshest : Freshest files key file) :
    currentEntry (rows files) key =
      (lastLine file.content key).map (toEntry file.day.text .daily) := by
  obtain ⟨front, back, split⟩ := append_of_mem freshest.member
  have perm : files.daily.Perm ((front ++ back) ++ [file]) := by
    rw [split]
    exact perm_middle.trans (perm_append_singleton file _).symm
  have same := @rows_relisted files
    ⟨files.core, (front ++ back) ++ [file], (perm.map _).nodup_iff.mp files.distinct⟩ ⟨rfl, perm⟩
  rw [currentEntry_of_sameLog same, rows, flatMap_append, ← append_assoc,
    flatMap_singleton, currentEntry_append_file]
  · obtain ⟨line, found⟩ := Option.ne_none_iff_exists'.mp freshest.speaks
    rw [found, Option.map_some, Option.some_or]
  · intro row member speaks
    rcases mem_append.mp member with inCore | inDaily
    · rw [(timestamp_of_mem_rowsOf inCore).1]
      exact bot_le
    · obtain ⟨other, inOthers, inFile⟩ := mem_flatMap.mp inDaily
      have inFiles : other ∈ files.daily := perm.mem_iff.mpr (mem_append_left _ inOthers)
      rw [(timestamp_of_mem_rowsOf inFile).1, rank, rank, if_neg other.day.dated,
        if_neg file.day.dated]
      exact WithBot.coe_le_coe.mpr (freshest.last other inFiles (lastLine_of_row inFile speaks))

/-- A slot that no log speaks of is read from the core file. -/
theorem currentEntry_core (silent : ∀ file ∈ files.daily, lastLine file.content key = none) :
    currentEntry (rows files) key = (lastLine files.core key).map (toEntry coreStem .core) := by
  have same := (@sameRows_swap _ _ _ LogRow.timestamp (rowsOf coreStem .core files.core)
    (files.daily.flatMap fun file => rowsOf file.day.text .daily file.content)) fun row inCore other
      inDaily equal => by
    obtain ⟨file, _, inFile⟩ := mem_flatMap.mp inDaily
    apply file.day.dated
    rw [← (timestamp_of_mem_rowsOf inFile).1, ← equal, (timestamp_of_mem_rowsOf inCore).1]
  have quiet : ∀ row ∈ files.daily.flatMap fun file => rowsOf file.day.text .daily file.content,
      row.line.key ≠ key := by
    intro row member speaks
    obtain ⟨file, inFiles, inFile⟩ := mem_flatMap.mp member
    exact lastLine_of_row inFile speaks (silent file inFiles)
  have none : currentEntry
      (files.daily.flatMap fun file => rowsOf file.day.text .daily file.content) key = none := by
    rw [currentEntry, latest_eq_none_iff, filter_eq_nil_iff]
    intro entry member
    obtain ⟨row, inDaily, rfl⟩ := mem_map.mp member
    exact fun same => quiet row inDaily (of_decide_eq_true same)
  rw [rows, currentEntry_of_sameLog same, currentEntry_append_file, none, Option.or_none]
  exact fun row member speaks => absurd speaks (quiet row member)

/-- Some log speaks of a slot last, or none does at all. -/
theorem silent_or_freshest (files : Files) (key : Chars) :
    (∀ file ∈ files.daily, lastLine file.content key = none) ∨ ∃ file, Freshest files key file := by
  cases found : latest (fun file : DailyFile => file.day.text)
      (files.daily.filter fun file => (lastLine file.content key).isSome) with
  | none =>
    left
    intro file member
    rw [latest_eq_none_iff, filter_eq_nil_iff] at found
    simpa using found file member
  | some file =>
    right
    obtain ⟨member, last⟩ := mem_of_latest found
    obtain ⟨inFiles, speaks⟩ := mem_filter.mp member
    refine ⟨file, inFiles, Option.isSome_iff_ne_none.mp speaks, fun other inOthers otherSpeaks => ?_⟩
    exact last other (mem_filter.mpr ⟨inOthers, Option.isSome_iff_ne_none.mpr otherSpeaks⟩)

/-- What a slot shows. -/
def valueOf (files : Files) (entityId slotKey : Chars) : Option Chars :=
  (resolveSlot files entityId slotKey).map BeliefSlot.value

variable {entityId slotKey : Chars}

theorem valueOf_eq (files : Files) (entityId slotKey : Chars) :
    valueOf files entityId slotKey =
      (currentEntry (rows files) (joinKey entityId slotKey)).map MemoryEntry.content := by
  rw [valueOf, resolveSlot, fetchProjectionEntry_eq, Option.map_map]
  rfl

theorem valueOf_freshest {file : DailyFile} (freshest : Freshest files (joinKey entityId slotKey) file) :
    valueOf files entityId slotKey =
      (lastLine file.content (joinKey entityId slotKey)).map ParsedMarkdownLine.content := by
  rw [valueOf_eq, currentEntry_freshest freshest, Option.map_map]
  rfl

theorem valueOf_core
    (silent : ∀ file ∈ files.daily, lastLine file.content (joinKey entityId slotKey) = none) :
    valueOf files entityId slotKey =
      (lastLine files.core (joinKey entityId slotKey)).map ParsedMarkdownLine.content := by
  rw [valueOf_eq, currentEntry_core silent, Option.map_map]
  rfl

end Current

section Revival

variable {parseDate : Chars → Option Int} {days : Set Day} {files : Files}

/-- Every slot shows what it showed, or nothing. -/
def RevivesNothing (before after : Files) : Prop :=
  ∀ entityId slotKey, valueOf after entityId slotKey = none ∨
    valueOf after entityId slotKey = valueOf before entityId slotKey

/-- The core file agrees with the log that speaks last of a slot, if this log is old. -/
def CoreAgrees (parseDate : Chars → Option Int) (today : Int) (archiveAfterDays : Nat)
    (files : Files) : Prop :=
  archiveAfterDays ≠ 0 → ∀ entityId slotKey file, Freshest files (joinKey entityId slotKey) file →
    archived parseDate (today - archiveAfterDays) file = true →
    ∀ line ∈ lastLine file.content (joinKey entityId slotKey),
    ∀ old ∈ lastLine files.core (joinKey entityId slotKey), old.content = line.content

variable {cutoff : Int} {key : Chars} {today : Int} {archiveAfterDays : Nat}

/-- A log that stays is younger than one that is moved. -/
theorem text_lt_of_archived (reads : ReadsDates parseDate days) {old young : DailyFile}
    (oldDay : old.day ∈ days) (youngDay : young.day ∈ days)
    (moved : archived parseDate cutoff old = true) (stays : archived parseDate cutoff young = false) :
    old.day.text < young.day.text := by
  obtain ⟨earlier, ofOld⟩ := Option.isSome_iff_exists.mp (reads.dated old.day oldDay)
  obtain ⟨later, ofYoung⟩ := Option.isSome_iff_exists.mp (reads.dated young.day youngDay)
  rw [archived, ofOld, Option.any_some, decide_eq_true_iff] at moved
  rw [archived, ofYoung, Option.any_some, decide_eq_false_iff_not, not_lt] at stays
  exact reads.ordered old.day oldDay young.day youngDay earlier ofOld later ofYoung
    (lt_of_lt_of_le moved stays)

theorem mem_keptFiles {file : DailyFile} : file ∈ (keptFiles parseDate cutoff files).daily ↔
    file ∈ files.daily ∧ archived parseDate cutoff file = false := by
  rw [keptFiles, mem_filter, Bool.not_eq_true']

theorem Freshest.kept {file : DailyFile} (freshest : Freshest files key file)
    (stays : archived parseDate cutoff file = false) :
    Freshest (keptFiles parseDate cutoff files) key file :=
  ⟨mem_keptFiles.mpr ⟨freshest.member, stays⟩, freshest.speaks, fun other member =>
    freshest.last other (mem_keptFiles.mp member).1⟩

/-- When the log that speaks last of a slot is moved, no other log of the slot stays. -/
theorem Freshest.silent (reads : ReadsDates parseDate days)
    (known : ∀ file ∈ files.daily, file.day ∈ days) {file : DailyFile}
    (freshest : Freshest files key file) (moved : archived parseDate cutoff file = true) :
    ∀ other ∈ (keptFiles parseDate cutoff files).daily, lastLine other.content key = none := by
  intro other member
  obtain ⟨inFiles, stays⟩ := mem_keptFiles.mp member
  by_contra speaks
  exact absurd (freshest.last other inFiles speaks) (not_le.mpr (text_lt_of_archived reads
    (known file freshest.member) (known other inFiles) moved stays))

theorem silent_kept (silent : ∀ file ∈ files.daily, lastLine file.content key = none) :
    ∀ file ∈ (keptFiles parseDate cutoff files).daily, lastLine file.content key = none :=
  fun file member => silent file (mem_keptFiles.mp member).1

/-- A pass brings back no value that was replaced, exactly if the core file agrees with the
old logs about the slots of which these speak last. -/
theorem archive_revives_nothing_iff (reads : ReadsDates parseDate days)
    (kept : Kept parseDate days files) (today : Int) (archiveAfterDays : Nat) :
    RevivesNothing files (archiveDailyMemoryFiles parseDate today archiveAfterDays files).1 ↔
      CoreAgrees parseDate today archiveAfterDays files := by
  rw [archiveDailyMemoryFiles]
  split
  case isTrue off => exact iff_of_true (fun _ _ => .inr rfl) fun on => absurd off on
  case isFalse on =>
    constructor
    · intro revivesNothing _ entityId slotKey file freshest moved line found old inCore
      have shown := revivesNothing entityId slotKey
      rw [valueOf_core (freshest.silent reads kept.day_mem moved), valueOf_freshest freshest,
        keptFiles, Option.mem_def.mp found, Option.mem_def.mp inCore] at shown
      rcases shown with none | same
      · cases none
      · exact Option.some.inj same
    · intro agrees entityId slotKey
      rcases silent_or_freshest files (joinKey entityId slotKey) with silent | ⟨file, freshest⟩
      · right
        rw [valueOf_core silent, valueOf_core (silent_kept silent), keptFiles]
      · cases moved : archived parseDate (today - archiveAfterDays) file with
        | false =>
          right
          rw [valueOf_freshest freshest, valueOf_freshest (freshest.kept moved)]
        | true =>
          rw [valueOf_core (freshest.silent reads kept.day_mem moved), valueOf_freshest freshest,
            keptFiles]
          obtain ⟨line, found⟩ := Option.ne_none_iff_exists'.mp freshest.speaks
          cases inCore : lastLine files.core (joinKey entityId slotKey) with
          | none => exact .inl rfl
          | some old =>
            right
            rw [found, Option.map_some, Option.map_some,
              agrees on entityId slotKey file freshest moved line found old inCore]

section Samples

/-- The only day of the samples, in days since 1970. -/
def sampleDate (text : Chars) : Option Int :=
  if text = "2026-02-16".toList then some 20500 else none

theorem sampleDate_reads : ReadsDates sampleDate {sampleDay} := by
  have read : memoryDateFromFilename sampleDate sampleDay.text = some 20500 := by decide +kernel
  constructor
  · rintro day rfl
    rw [read, Option.isSome_some]
  · rintro first rfl second rfl earlier ofFirst later ofSecond older
    rw [Option.mem_def.mp ofFirst] at ofSecond
    exact absurd older (by rw [Option.some.inj ofSecond]; exact lt_irrefl later)

theorem teaFiles_kept : Kept sampleDate {sampleDay} teaFiles :=
  @Kept.appended _ _ _ _ sampleClock _ _ .empty rfl teaFiles_appended

theorem tea_revives_nothing :
    RevivesNothing teaFiles (archiveDailyMemoryFiles sampleDate 20507 3 teaFiles).1 := by
  refine (archive_revives_nothing_iff sampleDate_reads teaFiles_kept 20507 3).mpr ?_
  intro _ entityId slotKey file _ _ line _ old inCore
  cases inCore

/-- The user says green, and the system later that it is black. -/
def greenFact : MemoryEventInput := sampleEvent "alice" "tea" "green" .explicitUser

def blackFact : MemoryEventInput := sampleEvent "alice" "tea" "black" .system

def greenFiles : Files :=
  upsertProjection .empty sampleClock (eventKey greenFact) greenFact.value .core greenFact.layer none

def blackFiles : Files :=
  upsertProjection greenFiles sampleClock (eventKey blackFact) blackFact.value .daily blackFact.layer
    none

theorem blackFiles_kept : Kept sampleDate {sampleDay} blackFiles := by
  have first : Kept sampleDate {sampleDay} greenFiles :=
    @Kept.appended _ _ _ _ sampleClock greenFact greenFact .empty rfl rfl
  exact @Kept.appended _ _ _ _ sampleClock blackFact blackFact first rfl rfl

/-- A week later the log is moved, and the fact that it replaced is back. -/
theorem replaced_fact_is_back :
    Kept sampleDate {sampleDay} blackFiles ∧
    valueOf blackFiles "alice".toList "tea".toList = some "black".toList ∧
    valueOf (archiveDailyMemoryFiles sampleDate 20507 3 blackFiles).1 "alice".toList "tea".toList =
      some "green".toList ∧
    ¬ RevivesNothing blackFiles (archiveDailyMemoryFiles sampleDate 20507 3 blackFiles).1 := by
  have before : valueOf blackFiles "alice".toList "tea".toList = some "black".toList := by
    decide +kernel
  have after : valueOf (archiveDailyMemoryFiles sampleDate 20507 3 blackFiles).1 "alice".toList
      "tea".toList = some "green".toList := by
    decide +kernel
  refine ⟨blackFiles_kept, before, after, fun revivesNothing => ?_⟩
  have shown := revivesNothing "alice".toList "tea".toList
  rw [before, after] at shown
  exact absurd shown (by decide +kernel)

end Samples

end Revival

end Asterel.Markdown
