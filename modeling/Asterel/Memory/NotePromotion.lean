import Asterel.Memory.PostgresTables
import Mathlib

/-!
# Episodes promoted to notes

A sleep pass groups the unlinked episodes of an owner by their label, keeps those that
are similar to each other, and writes a group of three or more into a note: the values
line by line, the highest importance, and the source, the confidence and the privacy
level of the first episode. A note of that label that is there already is overwritten.
The episodes are linked to the note and leave later groups.

The order of the rows that a query returns, the order of the groups, the similarity of
two episodes and the fresh ids are given with each pass.
-/

namespace Asterel.Sleep

open Library List KeyedTable
open Asterel.Memory
open Asterel.Postgres (Timestamp)

inductive NodeTier where
  | episode
  | note
  deriving DecidableEq

/-- A score in the unit interval. -/
structure Importance where
  value : ℚ
  nonneg : 0 ≤ value
  le_one : value ≤ 1
  deriving DecidableEq

def Importance.new (value : ℚ) : Importance where
  value := max 0 (min value 1)
  nonneg := le_max_left _ _
  le_one := max_le zero_le_one (min_le_right _ _)

structure GraphEntity where
  graphEntityId : Chars
  ownerEntityId : Chars
  isSlot : Bool
  label : Chars
  value : Chars
  source : MemorySource
  confidence : ℚ
  importance : Importance
  nodeTier : NodeTier
  parentGraphEntityId : Option Chars
  promotedAt : Option Timestamp
  privacyLevel : PrivacyLevel
  updatedAt : Timestamp
  deriving DecidableEq

abbrev GraphEntities := KeyedTable GraphEntity.graphEntityId

/-- How restrictive a level is. -/
def privacyRank : PrivacyLevel → Nat
  | .public => 1
  | .private => 2
  | .secret => 3

/-- An order in which a query may return rows. -/
structure RowOrder where
  arrange : List GraphEntity → List GraphEntity
  perm : ∀ rows, (arrange rows).Perm rows

def RowOrder.stored : RowOrder := ⟨id, fun _ => .refl _⟩

/-- The values line by line. A separator comes only behind text. -/
def synthesizedText (values : List Chars) : Chars :=
  values.foldl (fun text value => if text.isEmpty then value else text ++ '\n' :: value) []

/-- The lines of a text. -/
def lines (text : Chars) : List Chars := text.splitOn '\n'

def noteLabel (label : Chars) : Chars := "Note: ".toList ++ label

def promoteEpisodeGroupToNote (exemplar : GraphEntity) (episodes : List GraphEntity)
    (text noteId : Chars) (now : Timestamp) : GraphEntity where
  graphEntityId := noteId
  ownerEntityId := exemplar.ownerEntityId
  isSlot := exemplar.isSlot
  label := noteLabel exemplar.label
  value := text
  source := exemplar.source
  confidence := exemplar.confidence
  importance := .new ((episodes.map fun episode => episode.importance.value).foldl max 0)
  nodeTier := .note
  parentGraphEntityId := none
  promotedAt := none
  privacyLevel := exemplar.privacyLevel
  updatedAt := now

/-- What an overwritten note takes from the new one. -/
def GraphEntity.overwrittenBy (note old : GraphEntity) : GraphEntity :=
  { old with
    value := note.value
    source := note.source
    confidence := note.confidence
    importance := note.importance
    nodeTier := note.nodeTier
    privacyLevel := note.privacyLevel
    updatedAt := note.updatedAt }

def GraphEntity.linkedTo (noteId : Chars) (now : Timestamp) (episode : GraphEntity) : GraphEntity :=
  { episode with parentGraphEntityId := some noteId, promotedAt := some now }

theorem GraphEntity.overwrittenBy_id (note old : GraphEntity) :
    (note.overwrittenBy old).graphEntityId = old.graphEntityId := rfl

theorem GraphEntity.linkedTo_id (noteId : Chars) (now : Timestamp) (episode : GraphEntity) :
    (episode.linkedTo noteId now).graphEntityId = episode.graphEntityId := rfl

/-- A group with the fresh id for its note. -/
structure PromotionGroup where
  episodes : List GraphEntity
  freshId : Chars
  order : RowOrder
  now : Timestamp

/-- The note of a label that is there. -/
def existingNote (table : GraphEntities) (order : RowOrder) (owner label : Chars) : Option GraphEntity :=
  (order.arrange table.rows).find? fun row =>
    row.ownerEntityId = owner && row.label = label && row.nodeTier = .note

/-- The id under which the note of a group is written. -/
def noteIdOf (table : GraphEntities) (group : PromotionGroup) (exemplar : GraphEntity) : Chars :=
  ((existingNote table group.order exemplar.ownerEntityId (noteLabel exemplar.label)).map
    GraphEntity.graphEntityId).getD group.freshId

/-- The note of a group with a first episode. -/
def noteOf (table : GraphEntities) (group : PromotionGroup) (exemplar : GraphEntity) : GraphEntity :=
  promoteEpisodeGroupToNote exemplar group.episodes
    (synthesizedText (group.episodes.map GraphEntity.value)) (noteIdOf table group exemplar) group.now

def persistPromotedNote (table : GraphEntities) (group : PromotionGroup) : GraphEntities :=
  match group.episodes with
  | [] => table
  | exemplar :: _ =>
    let note := noteOf table group exemplar
    let written := table.upsert note note.overwrittenBy note.overwrittenBy_id
    written.updateWhere
      (fun row => row.ownerEntityId = note.ownerEntityId &&
        (group.episodes.map GraphEntity.graphEntityId).contains row.graphEntityId)
      (GraphEntity.linkedTo note.graphEntityId group.now)
      (GraphEntity.linkedTo_id note.graphEntityId group.now)

/-- What is given with a pass over the episodes of an owner. -/
structure Pass where
  owner : Chars
  order : RowOrder
  arrangeLabels : List Chars → List Chars
  arranged : ∀ labels, (arrangeLabels labels).Perm labels
  similar : GraphEntity → GraphEntity → Bool
  freshId : Chars → Chars
  now : Timestamp

def isCandidate (owner : Chars) (row : GraphEntity) : Bool :=
  row.ownerEntityId = owner && row.isSlot && row.nodeTier = .episode && row.parentGraphEntityId = none

def selectPromotionGroup (similar : GraphEntity → GraphEntity → Bool) (candidates : List GraphEntity) :
    List GraphEntity :=
  candidates.foldl (fun selected candidate =>
    if selected.all fun existing => similar candidate existing then selected ++ [candidate]
    else selected) []

def minPromotionGroupSize : Nat := 3

def loadCandidates (table : GraphEntities) (pass : Pass) : List GraphEntity :=
  (pass.order.arrange table.rows).filter fun row => isCandidate pass.owner row

/-- The group of a label among the candidates of a pass. -/
def groupOf (table : GraphEntities) (pass : Pass) (label : Chars) : PromotionGroup where
  episodes := selectPromotionGroup pass.similar
    ((loadCandidates table pass).filter fun row => row.label = label)
  freshId := pass.freshId label
  order := pass.order
  now := pass.now

/-- The groups that a pass promotes. -/
def promotionGroups (table : GraphEntities) (pass : Pass) : List PromotionGroup :=
  let labels := pass.arrangeLabels ((loadCandidates table pass).map GraphEntity.label).dedup
  (labels.map (groupOf table pass)).filter fun group => minPromotionGroupSize ≤ group.episodes.length

def promoteSleepEpisodeGroups (table : GraphEntities) (pass : Pass) : GraphEntities :=
  (promotionGroups table pass).foldl persistPromotedNote table

/-- An id that nothing has and nothing is linked to. -/
def Unused (table : GraphEntities) (id : Chars) : Prop :=
  table.find id = none ∧ ∀ row ∈ table.rows, row.parentGraphEntityId ≠ some id

/-- Every linked episode is in its note: its value is a line of it, and the note is at
least as important and at least as restricted. -/
def Kept (table : GraphEntities) : Prop :=
  ∀ episode ∈ table.rows, episode.nodeTier = .episode → ∀ note ∈ table.rows, note.nodeTier = .note →
    episode.parentGraphEntityId = some note.graphEntityId →
    episode.value ∈ lines note.value ∧ episode.importance.value ≤ note.importance.value ∧
      privacyRank episode.privacyLevel ≤ privacyRank note.privacyLevel

/-- The tables that added episodes, and passes of a kind with fresh ids, lead to. -/
inductive Run (permits : GraphEntities → Pass → Prop) : GraphEntities → Prop where
  | initial {table} (kept : Kept table) : Run permits table
  | add {table next entity} (run : Run permits table) (isEpisode : entity.nodeTier = .episode)
      (unlinked : entity.parentGraphEntityId = none) (added : table.insert entity = some next) :
      Run permits next
  | promote {table pass} (run : Run permits table) (distinct : Function.Injective pass.freshId)
      (unused : ∀ label, Unused table (pass.freshId label)) (permitted : permits table pass) :
      Run permits (promoteSleepEpisodeGroups table pass)

/-- A group whose note loses nothing: no episode is linked to a note that it overwrites,
no value has more than one line, an empty value is not cut off before the first text, and
no episode is more restricted than the first one. -/
def Preserving (table : GraphEntities) (group : PromotionGroup) : Prop :=
  ∀ exemplar ∈ group.episodes.head?,
    (∀ note ∈ existingNote table group.order exemplar.ownerEntityId (noteLabel exemplar.label),
      ∀ episode ∈ table.rows, episode.nodeTier = .episode →
        episode.parentGraphEntityId ≠ some note.graphEntityId) ∧
    (∀ episode ∈ group.episodes, '\n' ∉ episode.value) ∧
    ([] ∈ group.episodes.map GraphEntity.value → (∀ episode ∈ group.episodes, episode.value = []) ∨
        [] ∈ (group.episodes.map GraphEntity.value).dropWhile List.isEmpty) ∧
    ∀ episode ∈ group.episodes, privacyRank episode.privacyLevel ≤ privacyRank exemplar.privacyLevel

/-- Every group of a pass is preserving when its turn comes. -/
def PassPreserving (table : GraphEntities) (pass : Pass) : Prop :=
  Transitions.Guarded (fun table group => some (persistPromotedNote table group)) Preserving table
    (promotionGroups table pass)

section Text

variable {values : List Chars} {value : Chars}

/-- Behind a text every value stands in a line of its own. -/
theorem foldl_text (text : Chars) (nonempty : text ≠ []) (values : List Chars) :
    values.foldl (fun text value => if text.isEmpty then value else text ++ '\n' :: value) text =
      ['\n'].intercalate (text :: values) := by
  induction values generalizing text with
  | nil => simp
  | cons value rest ih =>
    have more : text ++ '\n' :: value ≠ [] := append_ne_nil_of_left_ne_nil nonempty _
    rw [foldl_cons, if_neg (by simpa using nonempty), ih _ more, intercalate_cons_cons]
    cases rest with
    | nil => simp
    | cons next others => simp [intercalate_cons_cons]

/-- The text has a line for every value from the first one that is not empty. -/
theorem synthesizedText_eq (values : List Chars) :
    synthesizedText values = ['\n'].intercalate (values.dropWhile List.isEmpty) := by
  rw [synthesizedText]
  induction values with
  | nil => rfl
  | cons value rest ih =>
    rw [foldl_cons, isEmpty_nil, if_pos rfl]
    by_cases empty : value = []
    · rw [empty, ih, dropWhile_cons_of_pos rfl]
    · rw [foldl_text value empty, dropWhile_cons_of_neg (by simpa using empty)]

/-- Values of one line each are the lines of their text, when no empty one is cut off. -/
theorem mem_lines_synthesizedText (single : ∀ value ∈ values, '\n' ∉ value)
    (uncut : [] ∈ values → (∀ value ∈ values, value = []) ∨ [] ∈ values.dropWhile List.isEmpty)
    (member : value ∈ values) : value ∈ lines (synthesizedText values) := by
  have inTail : value ≠ [] → value ∈ values.dropWhile List.isEmpty := by
    intro nonempty
    rw [← @takeWhile_append_dropWhile _ List.isEmpty values] at member
    rcases mem_append.mp member with cut | stays
    · exact absurd (List.isEmpty_iff.mp (mem_takeWhile_imp cut)) nonempty
    · exact stays
  rw [lines, synthesizedText_eq]
  cases kept : values.dropWhile List.isEmpty with
  | nil =>
    have isEmpty : value = [] := by
      by_contra nonempty
      rw [kept] at inTail
      exact not_mem_nil (inTail nonempty)
    rw [isEmpty]
    exact mem_singleton_self _
  | cons first rest =>
    have pieces : ∀ piece ∈ first :: rest, '\n' ∉ piece := by
      intro piece inside
      rw [← kept] at inside
      exact single piece ((dropWhile_sublist _).mem inside)
    rw [splitOn_intercalate '\n' pieces (cons_ne_nil first rest), ← kept]
    by_cases isEmpty : value = []
    · rw [isEmpty] at member ⊢
      rcases uncut member with all | stays
      · have first_mem : first ∈ values.dropWhile List.isEmpty := by
          rw [kept]
          exact mem_cons_self
        exact all first ((dropWhile_sublist _).mem first_mem) ▸ first_mem
      · exact stays
    · exact inTail isEmpty

end Text

section Persisting

variable {table : GraphEntities} {group : PromotionGroup} {exemplar row : GraphEntity}

/-- A group as a pass loads it: stored episodes without a link. -/
structure Loaded (table : GraphEntities) (group : PromotionGroup) : Prop where
  stored : ∀ episode ∈ group.episodes, episode ∈ table.rows
  isEpisode : ∀ episode ∈ group.episodes, episode.nodeTier = .episode
  unlinked : ∀ episode ∈ group.episodes, episode.parentGraphEntityId = none
  unused : Unused table group.freshId

theorem existingNote_eq_some {order : RowOrder} {owner label : Chars} {note : GraphEntity}
    (found : existingNote table order owner label = some note) :
    note ∈ table.rows ∧ note.nodeTier = .note := by
  refine ⟨(order.perm table.rows).mem_iff.mp (List.mem_of_find?_eq_some found), ?_⟩
  have holds := find?_some found
  simp only [Bool.and_eq_true, decide_eq_true_eq] at holds
  exact holds.2

/-- The note's id is no episode's. -/
theorem noteIdOf_ne_of_episode (unused : Unused table group.freshId) (member : row ∈ table.rows)
    (isEpisode : row.nodeTier = .episode) : row.graphEntityId ≠ noteIdOf table group exemplar := by
  intro same
  rw [noteIdOf] at same
  cases found : existingNote table group.order exemplar.ownerEntityId (noteLabel exemplar.label) with
  | none =>
    rw [found] at same
    exact KeyedTable.find_eq_none_iff.mp unused.1 row member same
  | some note =>
    obtain ⟨stored, isNote⟩ := existingNote_eq_some found
    rw [found] at same
    have isRow : row = note := inj_on_of_nodup_map table.distinct member stored same
    rw [isRow, isNote] at isEpisode
    cases isEpisode

theorem find_persistPromotedNote {rest : List GraphEntity} (shape : group.episodes = exemplar :: rest)
    (wanted : Chars) :
    (persistPromotedNote table group).find wanted = (if wanted = noteIdOf table group exemplar then
        some (((table.find wanted).map (noteOf table group exemplar).overwrittenBy).getD
          (noteOf table group exemplar))
      else table.find wanted).map fun row =>
        if row.ownerEntityId = exemplar.ownerEntityId &&
          decide (row.graphEntityId ∈ group.episodes.map GraphEntity.graphEntityId) then
          row.linkedTo (noteIdOf table group exemplar) group.now
        else row := by
  rw [persistPromotedNote, shape]
  simp only [contains_eq_mem]
  rw [find_updateWhere, find_upsert]
  rfl

/-- A row as the note of a group: only its links are older. -/
structure IsNoteOf (table : GraphEntities) (group : PromotionGroup) (exemplar row : GraphEntity) :
    Prop where
  isNote : row.nodeTier = .note
  sameId : row.graphEntityId = noteIdOf table group exemplar
  sameValue : row.value = (noteOf table group exemplar).value
  sameImportance : row.importance = (noteOf table group exemplar).importance
  samePrivacy : row.privacyLevel = exemplar.privacyLevel
  oldLink : row.parentGraphEntityId = none ∨
    ∃ old ∈ table.rows, row.parentGraphEntityId = old.parentGraphEntityId

/-- The note of a group, its episodes linked to it, and the other rows are what there is
after a group is persisted. -/
theorem mem_persistPromotedNote {rest : List GraphEntity} (shape : group.episodes = exemplar :: rest)
    (loaded : Loaded table group) (member : row ∈ (persistPromotedNote table group).rows) :
    IsNoteOf table group exemplar row ∨
    (∃ episode ∈ group.episodes, row = episode.linkedTo (noteIdOf table group exemplar) group.now) ∨
    (row ∈ table.rows ∧ row.graphEntityId ≠ noteIdOf table group exemplar) := by
  have found := find_of_mem member
  rw [find_persistPromotedNote shape, Option.map_eq_some_iff] at found
  obtain ⟨before, found, changed⟩ := found
  by_cases isNote : row.graphEntityId = noteIdOf table group exemplar
  · rw [if_pos isNote] at found
    have written : IsNoteOf table group exemplar before := by
      rw [← Option.some.inj found]
      cases old : table.find row.graphEntityId with
      | none => exact ⟨rfl, rfl, rfl, rfl, rfl, Or.inl rfl⟩
      | some stored =>
        exact ⟨rfl, (find_key old).trans isNote, rfl, rfl, rfl,
          Or.inr ⟨stored, mem_of_find old, rfl⟩⟩
    have noEpisode : before.graphEntityId ∉ group.episodes.map GraphEntity.graphEntityId := by
      rw [written.sameId, mem_map]
      rintro ⟨episode, inGroup, same⟩
      exact noteIdOf_ne_of_episode loaded.unused (loaded.stored episode inGroup)
        (loaded.isEpisode episode inGroup) same
    rw [if_neg (by simp [noEpisode])] at changed
    exact Or.inl (changed ▸ written)
  · rw [if_neg isNote] at found
    obtain ⟨stored, sameId⟩ := find_eq_some_iff.mp found
    split_ifs at changed with linked
    · rw [Bool.and_eq_true, decide_eq_true_eq, decide_eq_true_eq, mem_map] at linked
      obtain ⟨-, episode, inGroup, same⟩ := linked
      have isEpisode : episode = before :=
        inj_on_of_nodup_map table.distinct (loaded.stored episode inGroup) stored same
      exact Or.inr (Or.inl ⟨episode, inGroup, by rw [isEpisode, changed]⟩)
    · rw [changed] at stored
      exact Or.inr (Or.inr ⟨stored, isNote⟩)

/-- A row that is neither in the group nor its note stays. -/
theorem mem_persistPromotedNote_of_other (member : row ∈ table.rows)
    (isEpisode : row.nodeTier = .episode) (unused : Unused table group.freshId)
    (other : row.graphEntityId ∉ group.episodes.map GraphEntity.graphEntityId) :
    row ∈ (persistPromotedNote table group).rows := by
  cases shape : group.episodes with
  | nil =>
    rw [persistPromotedNote, shape]
    exact member
  | cons exemplar rest =>
    have found : (persistPromotedNote table group).find row.graphEntityId = some row := by
      rw [find_persistPromotedNote shape, if_neg (noteIdOf_ne_of_episode unused member isEpisode),
        find_of_mem member, Option.map_some, if_neg (by simp [other])]
    exact mem_of_find found

/-- An id that is fresh and not the group's stays fresh. -/
theorem Unused.persist {id : Chars} (unused : Unused table id) (loaded : Loaded table group)
    (different : group.freshId ≠ id) : Unused (persistPromotedNote table group) id := by
  cases shape : group.episodes with
  | nil =>
    rw [persistPromotedNote, shape]
    exact unused
  | cons exemplar rest =>
    have notNote : id ≠ noteIdOf table group exemplar := by
      rw [noteIdOf]
      cases found : existingNote table group.order exemplar.ownerEntityId (noteLabel exemplar.label) with
      | none => exact different.symm
      | some note =>
        intro same
        exact KeyedTable.find_eq_none_iff.mp unused.1 note (existingNote_eq_some found).1 same.symm
    constructor
    · rw [find_persistPromotedNote shape, if_neg notNote, unused.1]
      rfl
    · intro row member
      rcases mem_persistPromotedNote shape loaded member with note | ⟨episode, -, rfl⟩ | ⟨stored, -⟩
      · rcases note.oldLink with none | ⟨old, stored, same⟩
        · rw [none]
          exact Option.some_ne_none id ∘ Eq.symm
        · rw [same]
          exact unused.2 old stored
      · exact fun same => notNote (Option.some.inj same).symm
      · exact unused.2 row stored

theorem le_foldl_max {start : ℚ} {values : List ℚ} :
    start ≤ values.foldl max start ∧ ∀ value ∈ values, value ≤ values.foldl max start := by
  induction values generalizing start with
  | nil => exact ⟨le_refl _, fun _ member => absurd member not_mem_nil⟩
  | cons first rest ih =>
    obtain ⟨fromStart, fromRest⟩ := @ih (max start first)
    refine ⟨(le_max_left _ _).trans fromStart, fun value member => ?_⟩
    rcases mem_cons.mp member with isFirst | inRest
    · rw [isFirst]
      exact (le_max_right start first).trans fromStart
    · exact fromRest value inRest

/-- The note of a group is at least as important as its episodes. -/
theorem importance_le_noteOf {episode : GraphEntity} (member : episode ∈ group.episodes) :
    episode.importance.value ≤ (noteOf table group exemplar).importance.value := by
  have least := (@le_foldl_max 0 (group.episodes.map fun episode => episode.importance.value)).2
    episode.importance.value (mem_map_of_mem member)
  exact (le_min least episode.importance.le_one).trans (le_max_right _ _)

/-- A preserving group keeps every linked episode in its note. -/
theorem Kept.persist (kept : Kept table) (loaded : Loaded table group)
    (preserving : Preserving table group) : Kept (persistPromotedNote table group) := by
  cases shape : group.episodes with
  | nil =>
    rw [persistPromotedNote, shape]
    exact kept
  | cons exemplar rest =>
    obtain ⟨noLinks, single, uncut, restricted⟩ := preserving exemplar (by rw [shape]; rfl)
    intro episode member isEpisode note noteMember isNote link
    rcases mem_persistPromotedNote shape loaded member with asNote | ⟨loadedEpisode, inGroup, rfl⟩ |
      ⟨stored, -⟩
    · rw [asNote.isNote] at isEpisode
      cases isEpisode
    · have isItsNote := (Option.some.inj link).symm
      rcases mem_persistPromotedNote shape loaded noteMember with itsNote | ⟨other, otherIn, rfl⟩ |
        ⟨-, different⟩
      · refine ⟨?_, ?_, ?_⟩
        · rw [itsNote.sameValue]
          have valueIn : loadedEpisode.value ∈ group.episodes.map GraphEntity.value :=
            mem_map_of_mem inGroup
          refine mem_lines_synthesizedText ?_ ?_ valueIn
          · intro value valueMember
            obtain ⟨source, sourceIn, rfl⟩ := mem_map.mp valueMember
            exact single source sourceIn
          · intro empty
            refine (uncut empty).imp_left fun all value valueMember => ?_
            obtain ⟨source, sourceIn, rfl⟩ := mem_map.mp valueMember
            exact all source sourceIn
        · rw [itsNote.sameImportance]
          exact @importance_le_noteOf table group exemplar loadedEpisode inGroup
        · rw [itsNote.samePrivacy]
          exact restricted loadedEpisode inGroup
      · exact absurd (isNote.symm.trans (loaded.isEpisode other otherIn)) (by decide)
      · exact absurd isItsNote different
    · rcases mem_persistPromotedNote shape loaded noteMember with itsNote | ⟨other, otherIn, rfl⟩ |
        ⟨noteStored, -⟩
      -- The episode was linked to the note before.
      · rw [itsNote.sameId, noteIdOf] at link
        cases found : existingNote table group.order exemplar.ownerEntityId (noteLabel exemplar.label) with
        | none =>
          rw [found] at link
          exact absurd link (loaded.unused.2 episode stored)
        | some old =>
          rw [found] at link
          exact absurd link (noLinks old found episode stored isEpisode)
      · exact absurd (isNote.symm.trans (loaded.isEpisode other otherIn)) (by decide)
      · exact kept episode stored isEpisode note noteStored isNote link

end Persisting

section Passes

variable {table next : GraphEntities} {group : PromotionGroup} {row : GraphEntity} {pass : Pass}

theorem mem_of_mem_select {similar : GraphEntity → GraphEntity → Bool}
    {candidates selected : List GraphEntity}
    (member : row ∈ candidates.foldl (fun selected candidate =>
      if selected.all fun existing => similar candidate existing then selected ++ [candidate]
      else selected) selected) : row ∈ selected ∨ row ∈ candidates := by
  induction candidates generalizing selected with
  | nil => exact Or.inl member
  | cons candidate rest ih =>
    rw [foldl_cons] at member
    rcases ih member with chosen | later
    · split_ifs at chosen
      · rcases mem_append.mp chosen with before | isCandidate
        · exact Or.inl before
        · exact Or.inr (mem_cons.mpr (Or.inl (mem_singleton.mp isCandidate)))
      · exact Or.inl chosen
    · exact Or.inr (mem_cons_of_mem _ later)

theorem mem_groupOf {label : Chars} (member : row ∈ (groupOf table pass label).episodes) :
    row ∈ table.rows ∧ isCandidate pass.owner row = true ∧ row.label = label := by
  have candidate := (mem_of_mem_select member).resolve_left not_mem_nil
  obtain ⟨candidate, sameLabel⟩ := mem_filter.mp candidate
  obtain ⟨arranged, isCandidate⟩ := mem_filter.mp candidate
  exact ⟨(pass.order.perm table.rows).mem_iff.mp arranged, isCandidate, of_decide_eq_true sameLabel⟩

theorem groupOf_of_mem (member : group ∈ promotionGroups table pass) :
    ∃ label, group = groupOf table pass label := by
  obtain ⟨inLabels, -⟩ := mem_filter.mp member
  obtain ⟨label, -, rfl⟩ := mem_map.mp inLabels
  exact ⟨label, rfl⟩

/-- The groups of a pass are loaded. -/
theorem loaded_of_mem (unused : ∀ label, Unused table (pass.freshId label))
    (member : group ∈ promotionGroups table pass) : Loaded table group := by
  obtain ⟨label, rfl⟩ := groupOf_of_mem member
  have candidate (episode : GraphEntity) (inGroup : episode ∈ (groupOf table pass label).episodes) :
      episode.nodeTier = .episode ∧ episode.parentGraphEntityId = none := by
    have holds := (mem_groupOf inGroup).2.1
    simp only [isCandidate, Bool.and_eq_true, decide_eq_true_eq] at holds
    exact ⟨holds.1.2, holds.2⟩
  exact {
    stored := fun episode inGroup => (mem_groupOf inGroup).1
    isEpisode := fun episode inGroup => (candidate episode inGroup).1
    unlinked := fun episode inGroup => (candidate episode inGroup).2
    unused := unused label }

/-- The groups of a pass have different ids and labels. -/
theorem promotionGroups_apart (distinct : Function.Injective pass.freshId) :
    (promotionGroups table pass).Pairwise fun first second => first.freshId ≠ second.freshId ∧
      ∀ episode ∈ first.episodes, ∀ other ∈ second.episodes, episode.label ≠ other.label := by
  have labels := (pass.arranged ((loadCandidates table pass).map GraphEntity.label).dedup).nodup_iff.mpr
    (nodup_dedup _)
  refine List.Pairwise.filter _ (pairwise_map.mpr (labels.imp fun {first second} different => ?_))
  refine ⟨fun same => different (distinct same), fun episode inFirst other inSecond same => different ?_⟩
  rw [← (@mem_groupOf table episode pass first inFirst).2.2, same,
    (@mem_groupOf table other pass second inSecond).2.2]

/-- What groups one after the other preserve. -/
theorem Kept.persistAll {groups : List PromotionGroup} (kept : Kept table)
    (loaded : ∀ group ∈ groups, Loaded table group)
    (apart : groups.Pairwise fun first second => first.freshId ≠ second.freshId ∧
      ∀ episode ∈ first.episodes, ∀ other ∈ second.episodes, episode.label ≠ other.label)
    (preserving : Transitions.Guarded (fun table group => some (persistPromotedNote table group))
      Preserving table groups) : Kept (groups.foldl persistPromotedNote table) := by
  induction groups generalizing table with
  | nil => exact kept
  | cons group rest ih =>
    obtain ⟨here, later⟩ := preserving
    have loadedHere := loaded group mem_cons_self
    rw [foldl_cons]
    refine ih (kept.persist loadedHere here) ?_ apart.of_cons (later _ rfl)
    intro other member
    have loadedThere := loaded other (mem_cons_of_mem _ member)
    obtain ⟨differentId, differentLabels⟩ := rel_of_pairwise_cons apart member
    refine { loadedThere with stored := ?_, unused := loadedThere.unused.persist loadedHere differentId }
    intro episode inOther
    refine mem_persistPromotedNote_of_other (loadedThere.stored episode inOther)
      (loadedThere.isEpisode episode inOther) loadedHere.unused ?_
    rw [mem_map]
    rintro ⟨first, inGroup, same⟩
    have isFirst : first = episode := inj_on_of_nodup_map table.distinct
      (loadedHere.stored first inGroup) (loadedThere.stored episode inOther) same
    exact differentLabels first inGroup episode inOther (congrArg GraphEntity.label isFirst)

theorem Kept.add {entity : GraphEntity} (kept : Kept table) (isEpisode : entity.nodeTier = .episode)
    (unlinked : entity.parentGraphEntityId = none) (added : table.insert entity = some next) :
    Kept next := by
  obtain ⟨rows, -⟩ := rows_insert added
  intro episode member tier note noteMember isNote link
  rw [rows, mem_append, mem_singleton] at member noteMember
  rcases member with stored | rfl
  · rcases noteMember with noteStored | rfl
    · exact kept episode stored tier note noteStored isNote link
    · rw [isEpisode] at isNote
      cases isNote
  · rw [unlinked] at link
    cases link

/-- In every run whose passes are preserving, the linked episodes are in their notes. -/
theorem linked_episodes_kept (run : Run PassPreserving table) : Kept table := by
  induction run with
  | initial kept => exact kept
  | add _ isEpisode unlinked added ih =>
    exact ih.add isEpisode unlinked added
  | promote _ distinct unused permitted ih =>
    exact ih.persistAll (fun _ => loaded_of_mem unused)
      (promotionGroups_apart distinct) permitted

theorem kept_of_unlinked (unlinked : ∀ row ∈ table.rows, row.parentGraphEntityId = none) :
    Kept table := by
  intro episode member _ note _ _ link
  rw [unlinked episode member] at link
  cases link

end Passes

instance (table : GraphEntities) (group : PromotionGroup) : Decidable (Preserving table group) :=
  inferInstanceAs (Decidable (∀ exemplar ∈ group.episodes.head?, _))

/-- An episode of a trip, with its id for its value. -/
def tripEpisode (id : Char) : GraphEntity where
  graphEntityId := [id]
  ownerEntityId := ['p']
  isSlot := true
  label := ['t']
  value := [id]
  source := .explicitUser
  confidence := 1
  importance := .new 0
  nodeTier := .episode
  parentGraphEntityId := none
  promotedAt := none
  privacyLevel := .private
  updatedAt := 0

/-- A pass that finds all episodes similar and takes ids behind a letter. -/
def tripPass (letter : Char) : Pass where
  owner := ['p']
  order := .stored
  arrangeLabels := id
  arranged _ := .refl _
  similar _ _ := true
  freshId label := letter :: letter :: label
  now := 0

def threeEpisodes : GraphEntities := ⟨[tripEpisode 'a', tripEpisode 'b', tripEpisode 'c'], by decide⟩

theorem tripPass_distinct (letter : Char) : Function.Injective (tripPass letter).freshId :=
  cons_injective.comp cons_injective

/-- A letter that begins no id is good for the ids of a pass. -/
theorem unused_tripPass {table : GraphEntities} {letter : Char}
    (free : ∀ row ∈ table.rows, row.graphEntityId.head? ≠ some letter ∧
      ∀ parent ∈ row.parentGraphEntityId, parent.head? ≠ some letter) (label : Chars) :
    Unused table ((tripPass letter).freshId label) := by
  refine ⟨KeyedTable.find_eq_none_iff.mpr fun row member same => ?_, fun row member same => ?_⟩
  · exact (free row member).1 (same ▸ rfl)
  · exact (free row member).2 _ same rfl

/-- Three episodes of a label that are promoted. -/
theorem linked_episodes_kept_once :
    ∃ table : GraphEntities, (table.rows.map GraphEntity.value).getLast? = some ['a', '\n', 'b', '\n', 'c'] ∧
      Kept table := by
  have run : Run PassPreserving (promoteSleepEpisodeGroups threeEpisodes (tripPass 'n')) := by
    refine .promote (.initial (kept_of_unlinked (by decide))) (tripPass_distinct 'n')
      (unused_tripPass (by decide)) ?_
    rw [PassPreserving]
    decide
  exact ⟨_, by decide, linked_episodes_kept run⟩

/-- A second pass overwrites the note, and the values of the first one are gone. -/
theorem note_overwritten :
    ¬∀ table, Run (fun _ _ => True) table → Kept table := by
  intro always
  have first : Run (fun _ _ => True) (promoteSleepEpisodeGroups threeEpisodes (tripPass 'n')) :=
    .promote (.initial (kept_of_unlinked (by decide))) (tripPass_distinct 'n')
      (unused_tripPass (by decide)) trivial
  have fourth := @Run.add _ _ _ (tripEpisode 'd') first rfl rfl rfl
  have fifth := @Run.add _ _ _ (tripEpisode 'e') fourth rfl rfl rfl
  have sixth := @Run.add _ _ _ (tripEpisode 'f') fifth rfl rfl rfl
  have second := Run.promote sixth (tripPass_distinct 'm') (unused_tripPass (by decide)) trivial
  have kept := always _ second ((tripEpisode 'a').linkedTo ['n', 'n', 't'] 0) (by decide) rfl
    (promoteEpisodeGroupToNote (tripEpisode 'd') [] ['d', '\n', 'e', '\n', 'f'] ['n', 'n', 't'] 0)
    (by decide) rfl rfl
  exact absurd kept.1 (by decide)

end Asterel.Sleep
