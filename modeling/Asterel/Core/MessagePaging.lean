import Asterel.Core.SessionCompaction
import Asterel.Security.Permissions
import Mathlib.Data.Prod.Lex

/-!
# Reading the messages of a session page by page

A page read looks up the row of its cursor and then selects the first rows behind
it, ordered by the instant and the id. Between the two statements and between two
reads other calls append messages and delete old ones. When the row of the cursor
is gone the read starts from the front of the table.

A deletion removes the rows before an instant. If it removes the row of the cursor
it has removed every row shown so far, so the read from the front shows no row
again. The operator listing reads one row more than it shows, to know whether
there is a next page.
-/

namespace Asterel.Sessions

open Library OrderedTable Transitions List
open Asterel.Permissions (trimmed)

section Reading

/-- `i64::MAX`. -/
def maxI64 : Nat := 2 ^ 63 - 1

def pageKey (row : ChatMessage) : String ×ₗ String := toLex (row.createdAt, row.id)

/-- The position of the row with the cursor's id, if the session has it. -/
def Store.loadMessagePageCursor (store : Store) (sessionId : String) (cursor : Option String) :
    Option (String × String) :=
  match (cursor.map trimmed).filter (· ≠ "") with
  | none => none
  | some cursor =>
    (store.chatMessages.find? fun row => row.sessionId = sessionId ∧ row.id = cursor).map
      fun row => (row.createdAt, row.id)

/-- The condition of the query with a cursor; the other query has none. -/
def afterCursor (position : Option (String × String)) (row : ChatMessage) : Bool :=
  position.all fun cursor =>
    cursor.1 < row.createdAt || row.createdAt = cursor.1 && cursor.2 < row.id

def Store.selectMessagesPage (store : Store) (sessionId : String)
    (position : Option (String × String)) (limit : Nat) : List ChatMessage :=
  (ordered pageKey (store.chatMessages.filter fun row =>
    row.sessionId = sessionId && afterCursor position row)).take limit

/-- What a page read does before it selects: nothing for the limit zero, an error for
a limit that the database cannot take, and otherwise the lookup of the cursor. -/
def Store.startPage (store : Store) (sessionId : String) (cursor : Option String) (limit : Nat) :
    Except String (Option (Option (String × String))) :=
  if limit = 0 then .ok none
  else if maxI64 < limit then
    .error "message page limit conversion failed: out of range integral type conversion attempted"
  else .ok (some (store.loadMessagePageCursor sessionId cursor))

def Store.deleteMessagesBefore (store : Store) (sessionId beforeId : String) : Nat × Store :=
  let cutoff := store.createdAtOf sessionId beforeId
  ((store.chatMessages.filter (olderThan sessionId cutoff)).length,
    store.deleteOlder sessionId cutoff)

def defaultPageLimit : Nat := 50
def maxPageLimit : Nat := 200

def pageLimit (requested : Option Nat) : Nat := min (requested.getD defaultPageLimit) maxPageLimit

/-- A request for the next page: of the store itself or through the operator listing. -/
inductive PageRequest where
  | getMessagesPage (limit : Nat)
  | listOperatorSessionMessages (limit : Option Nat)

/-- How many rows the request shows at most. -/
def PageRequest.limit : PageRequest → Nat
  | .getMessagesPage limit => limit
  | .listOperatorSessionMessages limit => pageLimit limit

def PageRequest.fetchLimit : PageRequest → Nat
  | .getMessagesPage limit => limit
  | .listOperatorSessionMessages limit => pageLimit limit + 1

/-- Whether there may be rows behind the page. -/
def PageRequest.hasMore (request : PageRequest) (messages : List ChatMessage) : Bool :=
  match request with
  | .getMessagesPage limit => limit ≤ messages.length
  | .listOperatorSessionMessages limit => pageLimit limit < messages.length

/-- The rows of the page among the rows read. -/
def PageRequest.shown (request : PageRequest) (messages : List ChatMessage) : List ChatMessage :=
  match request with
  | .getMessagesPage _ => messages
  | .listOperatorSessionMessages limit =>
    if pageLimit limit < messages.length then messages.take (pageLimit limit) else messages

/-- The client, which asks for the next page with the id of the last row shown, and
the store. The ids given out so far are bookkeeping of the model. -/
structure Paging where
  store : Store
  cursor : Option String
  reading : Option (PageRequest × Option (String × String))
  pages : List (List ChatMessage)
  finished : Bool
  issued : List String

def Paging.new (store : Store) : Paging :=
  ⟨store, none, none, [], false, store.chatMessages.map ChatMessage.id⟩

/-- The form of a generated id: not blank, and nothing to trim. -/
def TidyId (id : String) : Prop := trimmed id = id ∧ id ≠ ""

instance (id : String) : Decidable (TidyId id) := inferInstanceAs (Decidable (_ ∧ _))

/-- The ids are new and well formed, as generated ids are. -/
def Generated (issued ids : List String) : Prop := ∀ id ∈ ids, id ∉ issued ∧ TidyId id

instance (issued ids : List String) : Decidable (Generated issued ids) :=
  inferInstanceAs (Decidable (∀ id ∈ ids, _))

/-- One statement of a page read, or a whole call that changes the messages. -/
inductive PagingAction where
  | start (request : PageRequest)
  | select
  | append (row : ChatMessage)
  | deleteMessagesBefore (beforeId : String)
  | compactMessagesBefore (beforeId : String) (contents : List String) (stamps : Nat → Stamp)
    (now : String)

/-- The second statement completes the page. -/
def Paging.select (state : Paging) (sessionId : String) (request : PageRequest)
    (position : Option (String × String)) : Paging :=
  let messages := state.store.selectMessagesPage sessionId position request.fetchLimit
  { state with
    cursor := (request.shown messages).getLast?.map ChatMessage.id
    reading := none
    pages := state.pages ++ [request.shown messages]
    finished := !request.hasMore messages }

/-- A failed call leaves everything as it was. -/
def pagingStep (sessionId : String) (state : Paging) : PagingAction → Option Paging
  | .start request =>
    if state.finished || state.reading.isSome || request.limit = 0 then none
    else
      match state.store.startPage sessionId state.cursor request.fetchLimit with
      | .ok (some position) => some { state with reading := some (request, position) }
      | .ok none => some state
      | .error _ => some state
  | .select =>
    match state.reading with
    | none => none
    | some (request, position) => some (state.select sessionId request position)
  | .append row =>
    if Generated state.issued [row.id] then
      match state.store.insert row with
      | .ok store => some { state with store, issued := state.issued ++ [row.id] }
      | .error _ => some state
    else none
  | .deleteMessagesBefore beforeId =>
    some { state with store := (state.store.deleteMessagesBefore sessionId beforeId).2 }
  | .compactMessagesBefore beforeId contents stamps now =>
    let ids := (compactionRows sessionId stamps contents).map ChatMessage.id
    if Generated state.issued ids then
      match state.store.compactMessagesBefore sessionId beforeId contents stamps now with
      | .ok (_, store) => some { state with store, issued := state.issued ++ ids }
      | .error _ => some state
    else none

end Reading

section Positions

variable {id : String}

/-- The messages of a session. -/
def Store.sessionRows (store : Store) (sessionId : String) : List ChatMessage :=
  store.chatMessages.filter (·.sessionId = sessionId)

variable {store : Store} {sessionId : String} {row : ChatMessage}

theorem mem_sessionRows :
    row ∈ store.sessionRows sessionId ↔ row ∈ store.chatMessages ∧ row.sessionId = sessionId := by
  simp [Store.sessionRows]

theorem pageKey_injective {first second : ChatMessage} (firstMember : first ∈ store.chatMessages)
    (secondMember : second ∈ store.chatMessages) (same : pageKey first = pageKey second) :
    first = second := by
  have ids : first.id = second.id := congrArg (fun key => (ofLex key).2) same
  exact inj_on_of_nodup_map store.idsDistinct firstMember secondMember ids

/-- The condition of the query is the order of the page. -/
theorem afterCursor_iff (position : Option (String × String)) (row : ChatMessage) :
    afterCursor position row ↔ After pageKey (position.map toLex) row := by
  cases position with
  | none => simp [afterCursor, After]
  | some cursor =>
    simp only [afterCursor, After, pageKey, Option.all_some, Option.map_some, Option.mem_def,
      Option.some.injEq, forall_eq', Prod.Lex.toLex_lt_toLex, Bool.or_eq_true, Bool.and_eq_true,
      decide_eq_true_eq, @eq_comm _ row.createdAt]

/-- The second statement reads the page of the position. -/
theorem selectMessagesPage_eq (store : Store) (sessionId : String)
    (position : Option (String × String)) (limit : Nat) :
    store.selectMessagesPage sessionId position limit =
      page pageKey (position.map toLex) limit (store.sessionRows sessionId) := by
  rw [Store.selectMessagesPage, page, Store.sessionRows, filter_filter]
  congr 2
  apply filter_congr
  intro row _
  rw [Bool.eq_iff_iff, Bool.and_eq_true, Bool.and_eq_true, afterCursor_iff, decide_eq_true_eq,
    decide_eq_true_eq, and_comm]

/-- The cursor of a row of the session leads to the row. -/
theorem loadMessagePageCursor_eq (member : row ∈ store.sessionRows sessionId)
    (tidy : TidyId row.id) :
    store.loadMessagePageCursor sessionId (some row.id) = some (row.createdAt, row.id) := by
  obtain ⟨stored, inSession⟩ := mem_sessionRows.mp member
  have named : ((some row.id).map trimmed).filter (· ≠ "") = some row.id := by
    simp [Option.filter, tidy.1, tidy.2]
  simp only [Store.loadMessagePageCursor, named]
  cases found : store.chatMessages.find? fun other =>
      other.sessionId = sessionId ∧ other.id = row.id with
  | none =>
    have missing := find?_eq_none.mp found row stored
    simp [inSession] at missing
  | some other =>
    have matched := find?_some found
    simp only [decide_eq_true_eq] at matched
    have same : other = row :=
      inj_on_of_nodup_map store.idsDistinct (List.mem_of_find?_eq_some found) stored matched.2
    rw [same, Option.map_some]

/-- A cursor that is the id of no row of the session leads nowhere. -/
theorem loadMessagePageCursor_eq_none (tidy : TidyId id)
    (absent : ∀ row ∈ store.sessionRows sessionId, row.id ≠ id) :
    store.loadMessagePageCursor sessionId (some id) = none := by
  have named : ((some id).map trimmed).filter (· ≠ "") = some id := by
    simp [Option.filter, tidy.1, tidy.2]
  simp only [Store.loadMessagePageCursor, named, Option.map_eq_none_iff, find?_eq_none]
  intro row member matched
  simp only [decide_eq_true_eq] at matched
  exact absent row (mem_sessionRows.mpr ⟨member, matched.1⟩) matched.2

/-- What other calls do to the messages: new rows have new ids, and a row of the
session that is gone was older than every row that stays. -/
structure MessageChange (sessionId : String) (issued : List String) (before after : Store) :
    Prop where
  keptOrNew : ∀ row ∈ after.chatMessages, row ∈ before.chatMessages ∨ row.id ∉ issued
  newTidy : ∀ row ∈ after.chatMessages, row ∉ before.chatMessages → TidyId row.id
  goneOlder : ∀ gone ∈ before.sessionRows sessionId, gone ∉ after.chatMessages →
    ∀ kept ∈ after.sessionRows sessionId, kept ∈ before.chatMessages →
      gone.createdAt < kept.createdAt

/-- A change leaves the position of a cursor, or takes its row away together with all
rows up to it. -/
theorem position_change {issued : List String} {before after : Store}
    (change : MessageChange sessionId issued before after) (tidy : TidyId id)
    (given : id ∈ issued) :
    after.loadMessagePageCursor sessionId (some id) =
        before.loadMessagePageCursor sessionId (some id) ∨
      after.loadMessagePageCursor sessionId (some id) = none ∧
        ∀ kept ∈ after.sessionRows sessionId, kept ∈ before.chatMessages →
          After pageKey ((before.loadMessagePageCursor sessionId (some id)).map toLex) kept := by
  have old : ∀ row ∈ after.sessionRows sessionId, row.id = id → row ∈ before.chatMessages := by
    rintro row member rfl
    exact (change.keptOrNew row (mem_sessionRows.mp member).1).resolve_right (not_not.mpr given)
  by_cases known : ∃ row ∈ before.sessionRows sessionId, row.id = id
  · obtain ⟨row, member, rfl⟩ := known
    obtain ⟨stored, inSession⟩ := mem_sessionRows.mp member
    by_cases kept : row ∈ after.chatMessages
    · left
      rw [loadMessagePageCursor_eq member tidy,
        loadMessagePageCursor_eq (mem_sessionRows.mpr ⟨kept, inSession⟩) tidy]
    · right
      constructor
      · apply loadMessagePageCursor_eq_none tidy
        intro other otherMember same
        have sameRow : other = row :=
          inj_on_of_nodup_map before.idsDistinct (old other otherMember same) stored same
        exact kept (sameRow ▸ (mem_sessionRows.mp otherMember).1)
      · intro other otherMember otherStored
        have older := change.goneOlder row member kept other otherMember otherStored
        rw [loadMessagePageCursor_eq member tidy, ← afterCursor_iff, afterCursor, Option.all_some,
          Bool.or_eq_true]
        exact .inl (decide_eq_true older)
  · left
    push Not at known
    rw [loadMessagePageCursor_eq_none tidy known]
    apply loadMessagePageCursor_eq_none tidy
    intro row member same
    exact known row (mem_sessionRows.mpr ⟨old row member same, (mem_sessionRows.mp member).2⟩) same

end Positions

section Changes

variable {store : Store} {sessionId : String} {issued : List String}

theorem deleteOlder_change (store : Store) (sessionId : String) (issued : List String)
    (cutoff : Option String) :
    MessageChange sessionId issued store (store.deleteOlder sessionId cutoff) := by
  constructor
  · intro row member
    exact .inl (mem_of_mem_filter member)
  · intro row member new
    exact absurd (mem_of_mem_filter member) new
  · intro gone goneMember removed kept keptMember _
    obtain ⟨stored, _⟩ := mem_sessionRows.mp goneMember
    obtain ⟨keptStored, keptInSession⟩ := mem_sessionRows.mp keptMember
    have goneOld : olderThan sessionId cutoff gone = true := by
      by_contra young
      exact removed (mem_filter.mpr ⟨stored, by simpa using young⟩)
    have keptYoung : olderThan sessionId cutoff kept = false := by
      simpa using (mem_filter.mp keptStored).2
    cases cutoff with
    | none => simp [olderThan] at goneOld
    | some instant =>
      simp only [olderThan, Option.any_some, Bool.and_eq_true, decide_eq_true_eq] at goneOld
      simp only [olderThan, keptInSession, Option.any_some, decide_true, Bool.true_and,
        decide_eq_false_iff_not, not_lt] at keptYoung
      exact lt_of_lt_of_le goneOld.2 keptYoung

/-- Rows with generated ids are added. -/
theorem added_change {before after : Store} {rows : List ChatMessage}
    (change : MessageChange sessionId issued store before)
    (added : after.chatMessages = before.chatMessages ++ rows)
    (generated : Generated issued (rows.map ChatMessage.id))
    (ofIssued : ∀ row ∈ store.chatMessages, row.id ∈ issued) :
    MessageChange sessionId issued store after := by
  have cases : ∀ row ∈ after.chatMessages, row ∈ before.chatMessages ∨
      row.id ∉ issued ∧ TidyId row.id := by
    intro row member
    rw [added, mem_append] at member
    exact member.imp_right fun new => generated row.id (mem_map_of_mem new)
  constructor
  · intro row member
    rcases cases row member with old | new
    · exact change.keptOrNew row old
    · exact .inr new.1
  · intro row member absent
    rcases cases row member with old | new
    · exact change.newTidy row old absent
    · exact new.2
  · intro gone goneMember removed kept keptMember keptStored
    have removedBefore : gone ∉ before.chatMessages := fun still =>
      removed (added ▸ mem_append_left _ still)
    obtain ⟨keptAfter, keptInSession⟩ := mem_sessionRows.mp keptMember
    have keptBefore : kept ∈ before.chatMessages :=
      (cases kept keptAfter).resolve_right fun new => new.1 (ofIssued kept keptStored)
    exact change.goneOlder gone goneMember removedBefore kept
      (mem_sessionRows.mpr ⟨keptBefore, keptInSession⟩) keptStored

theorem insert_ok {after : Store} {row : ChatMessage} (inserted : store.insert row = .ok after) :
    after.chatMessages = store.chatMessages ++ [row] := by
  rw [Store.insert] at inserted
  split at inserted
  · cases inserted
  · cases inserted
    rfl

theorem unchanged (store : Store) (sessionId : String) (issued : List String) :
    MessageChange sessionId issued store store := by
  constructor
  · intro row member
    exact .inl member
  · intro row member absent
    exact absurd member absent
  · intro gone goneMember removed
    exact absurd (mem_sessionRows.mp goneMember).1 removed

end Changes

section Runs

variable {sessionId : String} {initial : List ChatMessage} {state next : Paging}
variable {row : ChatMessage} {rows : List ChatMessage} (store : Store)

/-- The position behind which the next selection reads: the one looked up, or the one
a lookup would find now. -/
def Paging.position (state : Paging) (sessionId : String) : Option (String ×ₗ String) :=
  (state.reading.elim (state.store.loadMessagePageCursor sessionId state.cursor) Prod.snd).map
    toLex

/-- The messages shown so far. -/
def Paging.shown (state : Paging) : List ChatMessage := state.pages.flatten

/-- While the client reads, the rows shown are those up to the position, as far as they
are still there, and the rows of the start that are still there are shown or come
after it. -/
structure PagedOnce (sessionId : String) (initial : List ChatMessage) (state : Paging) : Prop where
  distinct : (state.shown.map ChatMessage.id).Nodup
  shownIssued : ∀ row ∈ state.shown, row.id ∈ state.issued
  stored : ∀ row ∈ state.store.chatMessages, row.id ∈ state.issued ∧ TidyId row.id
  initialIssued : ∀ row ∈ initial, row.id ∈ state.issued
  cursorIssued : ∀ id ∈ state.cursor, id ∈ state.issued ∧ TidyId id
  requested : ∀ reading ∈ state.reading, 0 < reading.1.limit
  finishedIdle : state.finished → state.reading = none
  behind : state.finished = false → ∀ row ∈ state.store.sessionRows sessionId,
    row.id ∈ state.shown.map ChatMessage.id → ¬ After pageKey (state.position sessionId) row
  ahead : state.finished = false → ∀ row ∈ state.store.sessionRows sessionId, row ∈ initial →
    row ∈ state.shown ∨ After pageKey (state.position sessionId) row
  complete : state.finished → ∀ row ∈ state.store.sessionRows sessionId, row ∈ initial →
    row ∈ state.shown

theorem new_pagedOnce (sessionId : String) (tidy : ∀ row ∈ store.chatMessages, TidyId row.id) :
    PagedOnce sessionId store.chatMessages (Paging.new store) := by
  have issued : ∀ row ∈ store.chatMessages, row.id ∈ store.chatMessages.map ChatMessage.id :=
    fun row member => mem_map_of_mem member
  have everything : ∀ row, After pageKey ((Paging.new store).position sessionId) row := by
    intro row
    simp [Paging.position, Paging.new, Store.loadMessagePageCursor, After, Option.filter]
  constructor
  · exact nodup_nil
  · intro row member
    cases member
  · intro row member
    exact ⟨issued row member, tidy row member⟩
  · exact issued
  · rintro id ⟨⟩
  · rintro reading ⟨⟩
  · intro finished
    cases finished
  · intro _ row _ member
    cases member
  · intro _ row _ _
    exact .inr (everything row)
  · intro finished
    cases finished

/-- A change of the messages by another call keeps the invariant. -/
theorem change_pagedOnce {store : Store} {added : List String}
    (paged : PagedOnce sessionId initial state)
    (change : MessageChange sessionId state.issued state.store store)
    (addedIssued : ∀ row ∈ store.chatMessages, row.id ∈ state.issued ++ added) :
    PagedOnce sessionId initial { state with store, issued := state.issued ++ added } := by
  have old : ∀ row ∈ store.sessionRows sessionId, row.id ∈ state.issued →
      row ∈ state.store.sessionRows sessionId := by
    intro row member given
    obtain ⟨stored, inSession⟩ := mem_sessionRows.mp member
    exact mem_sessionRows.mpr
      ⟨(change.keptOrNew row stored).resolve_right (not_not.mpr given), inSession⟩
  have shownOld : ∀ row ∈ store.sessionRows sessionId, row.id ∈ state.shown.map ChatMessage.id →
      row ∈ state.store.sessionRows sessionId := by
    intro row member inShown
    obtain ⟨shown, shownMember, same⟩ := mem_map.mp inShown
    exact old row member (same ▸ paged.shownIssued shown shownMember)
  -- the position stays, or all rows up to it are gone
  have positions : ({ state with store, issued := state.issued ++ added } : Paging).position
        sessionId = state.position sessionId ∨
      ({ state with store, issued := state.issued ++ added } : Paging).position sessionId = none ∧
        ∀ row ∈ store.sessionRows sessionId, row ∈ state.store.sessionRows sessionId →
          After pageKey (state.position sessionId) row := by
    simp only [Paging.position]
    cases state.reading with
    | some reading => exact .inl rfl
    | none =>
      simp only [Option.elim_none]
      cases cursor : state.cursor with
      | none => exact .inl rfl
      | some id =>
        obtain ⟨given, tidy⟩ := paged.cursorIssued id cursor
        rcases position_change change tidy given with same | ⟨gone, rest⟩
        · exact .inl (by rw [same])
        · exact .inr ⟨by rw [gone, Option.map_none], fun row member wasStored =>
            rest row member (mem_sessionRows.mp wasStored).1⟩
  constructor
  · exact paged.distinct
  · intro row member
    exact mem_append_left _ (paged.shownIssued row member)
  · intro row member
    refine ⟨addedIssued row member, ?_⟩
    by_cases before : row ∈ state.store.chatMessages
    · exact (paged.stored row before).2
    · exact change.newTidy row member before
  · intro row member
    exact mem_append_left _ (paged.initialIssued row member)
  · intro id member
    obtain ⟨given, tidy⟩ := paged.cursorIssued id member
    exact ⟨mem_append_left _ given, tidy⟩
  · exact paged.requested
  · exact paged.finishedIdle
  · intro unfinished row member inShown
    have before := shownOld row member inShown
    have behind := paged.behind unfinished row before inShown
    rcases positions with same | ⟨_, rest⟩
    · rwa [same]
    · exact absurd (rest row member before) behind
  · intro unfinished row member fromStart
    have before := old row member (paged.initialIssued row fromStart)
    rcases positions with same | ⟨gone, _⟩
    · rw [same]
      exact paged.ahead unfinished row before fromStart
    · right
      rw [gone]
      rintro _ ⟨⟩
  · intro finished row member fromStart
    exact paged.complete finished row (old row member (paged.initialIssued row fromStart)) fromStart

/-- What a request shows is the page of its limit. -/
theorem shown_eq (request : PageRequest) (position : Option (String ×ₗ String))
    (rows : List ChatMessage) :
    request.shown (page pageKey position request.fetchLimit rows) =
      page pageKey position request.limit rows := by
  cases request with
  | getMessagesPage limit => rfl
  | listOperatorSessionMessages limit =>
    have shorter : (page pageKey position (pageLimit limit + 1) rows).take (pageLimit limit) =
        page pageKey position (pageLimit limit) rows := by
      rw [page, page, take_take, Nat.min_eq_left (Nat.le_succ _)]
    show (if pageLimit limit < (page pageKey position (pageLimit limit + 1) rows).length then _
      else _) = page pageKey position (pageLimit limit) rows
    by_cases more : pageLimit limit < (page pageKey position (pageLimit limit + 1) rows).length
    · rw [if_pos more]
      exact shorter
    · rw [if_neg more]
      exact (take_of_length_le (Nat.le_of_not_lt more)).symm.trans shorter

/-- When there is nothing more, every row after the position is shown. -/
theorem all_shown {request : PageRequest} {position : Option (String ×ₗ String)}
    (last : request.hasMore (page pageKey position request.fetchLimit rows) = false)
    (member : row ∈ rows) (after : After pageKey position row) :
    row ∈ page pageKey position request.limit rows := by
  have read : row ∈ page pageKey position request.fetchLimit rows := by
    rcases page_rest member after with shown | ⟨full, _⟩
    · exact shown
    · cases request with
      | getMessagesPage limit => exact absurd full (of_decide_eq_false last)
      | listOperatorSessionMessages limit =>
        exact absurd (Nat.lt_of_succ_le full) (of_decide_eq_false last)
  rw [← shown_eq]
  cases request with
  | getMessagesPage limit => exact read
  | listOperatorSessionMessages limit =>
    simp only [PageRequest.hasMore, decide_eq_false_iff_not] at last
    rw [PageRequest.shown, if_neg last]
    exact read

/-- A page with more behind it has a last row. -/
theorem last_shown {request : PageRequest} {position : Option (String ×ₗ String)}
    (positive : 0 < request.limit)
    (more : request.hasMore (page pageKey position request.fetchLimit rows) = true) :
    ∃ last, (page pageKey position request.limit rows).getLast? = some last := by
  have nonempty : page pageKey position request.limit rows ≠ [] := by
    rw [← length_pos_iff, ← shown_eq]
    cases request with
    | getMessagesPage limit =>
      simp only [PageRequest.hasMore, PageRequest.limit, decide_eq_true_eq] at more positive
      exact lt_of_lt_of_le positive more
    | listOperatorSessionMessages limit =>
      simp only [PageRequest.hasMore, PageRequest.limit, decide_eq_true_eq] at more positive
      rw [PageRequest.shown, if_pos more, length_take]
      omega
  exact ⟨_, getLast?_eq_some_getLast nonempty⟩

/-- The page that a selection shows. -/
def Paging.nextPage (state : Paging) (sessionId : String) (request : PageRequest) :
    List ChatMessage :=
  page pageKey (state.position sessionId) request.limit (state.store.sessionRows sessionId)

theorem mem_nextPage {request : PageRequest} (member : row ∈ state.nextPage sessionId request) :
    row ∈ state.store.sessionRows sessionId ∧ After pageKey (state.position sessionId) row :=
  mem_of_mem_page member

theorem sessionRows_distinct (sessionId : String) :
    ((store.sessionRows sessionId).map ChatMessage.id).Nodup :=
  store.idsDistinct.sublist (filter_sublist.map ChatMessage.id)

section Selection

variable {request : PageRequest} {position : Option (String × String)}
  (reading : state.reading = some (request, position))
include reading

/-- A selection reads behind the position of its cursor. -/
theorem select_messages :
    state.store.selectMessagesPage sessionId position request.fetchLimit =
      page pageKey (state.position sessionId) request.fetchLimit
        (state.store.sessionRows sessionId) := by
  rw [selectMessagesPage_eq, Paging.position, reading, Option.elim_some]

theorem select_shown :
    (state.select sessionId request position).shown =
      state.shown ++ state.nextPage sessionId request := by
  simp [Paging.shown, Paging.select, select_messages reading, shown_eq, Paging.nextPage]

theorem select_cursor :
    (state.select sessionId request position).cursor =
      (state.nextPage sessionId request).getLast?.map ChatMessage.id := by
  simp [Paging.select, select_messages reading, shown_eq, Paging.nextPage]

theorem select_finished :
    (state.select sessionId request position).finished =
      !request.hasMore (page pageKey (state.position sessionId) request.fetchLimit
        (state.store.sessionRows sessionId)) := by
  simp [Paging.select, select_messages reading]

/-- The position moves to the last row shown. -/
theorem select_position {last : ChatMessage} (tidy : TidyId last.id)
    (ends : (state.nextPage sessionId request).getLast? = some last) :
    (state.select sessionId request position).position sessionId = some (pageKey last) := by
  have stored := (mem_nextPage (mem_of_getLast? ends)).1
  have readingNext : (state.select sessionId request position).reading = none := rfl
  have storeNext : (state.select sessionId request position).store = state.store := rfl
  rw [Paging.position, readingNext, Option.elim_none, storeNext, select_cursor reading, ends,
    Option.map_some, loadMessagePageCursor_eq stored tidy, Option.map_some]
  rfl

theorem select_unfinished (positive : 0 < request.limit)
    (more : (state.select sessionId request position).finished = false) :
    ∃ last, (state.nextPage sessionId request).getLast? = some last := by
  rw [select_finished reading, Bool.not_eq_false'] at more
  exact last_shown positive more

/-- Completing a page keeps the invariant. -/
theorem select_pagedOnce (paged : PagedOnce sessionId initial state) :
    PagedOnce sessionId initial (state.select sessionId request position) := by
  have unfinished : state.finished = false := by
    by_contra finished
    have idle := paged.finishedIdle (by simpa using finished)
    simp [idle] at reading
  have storedRow : ∀ row ∈ state.store.sessionRows sessionId, row.id ∈ state.issued ∧ TidyId row.id :=
    fun row member => paged.stored row (mem_sessionRows.mp member).1
  have fresh : ∀ row ∈ state.nextPage sessionId request, row.id ∉ state.shown.map ChatMessage.id := by
    intro row member inShown
    obtain ⟨stored, after⟩ := mem_nextPage member
    exact paged.behind unfinished row stored inShown after
  -- While there is more, the next position is a row of the page.
  have advanced : (state.select sessionId request position).finished = false → ∃ last,
      (state.nextPage sessionId request).getLast? = some last ∧
        (state.select sessionId request position).position sessionId = some (pageKey last) := by
    intro more
    obtain ⟨last, ends⟩ := select_unfinished reading (paged.requested _ reading) more
    have stored := (mem_nextPage (mem_of_getLast? ends)).1
    exact ⟨last, ends, select_position reading (storedRow last stored).2 ends⟩
  constructor
  · rw [select_shown reading, map_append, nodup_append']
    refine ⟨paged.distinct, page_nodup (sessionRows_distinct _ _), ?_⟩
    intro id inOld inNew
    obtain ⟨row, member, rfl⟩ := mem_map.mp inNew
    exact fresh row member inOld
  · intro row member
    rw [select_shown reading, mem_append] at member
    rcases member with old | new
    · exact paged.shownIssued row old
    · exact (storedRow row (mem_nextPage new).1).1
  · exact paged.stored
  · exact paged.initialIssued
  · intro id member
    rw [select_cursor reading, Option.mem_def, Option.map_eq_some_iff] at member
    obtain ⟨last, ends, rfl⟩ := member
    exact storedRow last (mem_nextPage (mem_of_getLast? ends)).1
  · rintro _ ⟨⟩
  · intro _
    rfl
  · intro more row member inShown after
    obtain ⟨last, ends, moved⟩ := advanced more
    rw [moved] at after
    rw [select_shown reading, map_append, mem_append] at inShown
    have beyond : pageKey last < pageKey row := after _ rfl
    rcases inShown with old | new
    · -- a row shown before is not after the old position, and the last row is
      apply paged.behind unfinished row member old
      intro at_ held
      have lastAfter := (mem_nextPage (mem_of_getLast? ends)).2
      exact (lastAfter at_ held).trans beyond
    · obtain ⟨other, otherShown, sameId⟩ := mem_map.mp new
      have sameRow : other = row := inj_on_of_nodup_map (sessionRows_distinct _ _)
        (mem_nextPage otherShown).1 member sameId
      have upTo : pageKey row ≤ pageKey last := sameRow ▸ page_le_last ends otherShown
      exact absurd beyond (not_lt_of_ge upTo)
  · intro more row member fromStart
    obtain ⟨last, ends, moved⟩ := advanced more
    rw [moved, select_shown reading, mem_append]
    rcases paged.ahead unfinished row member fromStart with old | after
    · exact .inl (.inl old)
    · have distinctKeys : ∀ first ∈ state.store.sessionRows sessionId,
          ∀ second ∈ state.store.sessionRows sessionId, pageKey first = pageKey second →
            first = second := fun first inFirst second inSecond same =>
        pageKey_injective (mem_sessionRows.mp inFirst).1 (mem_sessionRows.mp inSecond).1 same
      rcases page_next distinctKeys ends member after with new | behind
      · exact .inl (.inr new)
      · exact .inr behind
  · intro done row member fromStart
    rw [select_finished reading, Bool.not_eq_true'] at done
    rw [select_shown reading, mem_append]
    rcases paged.ahead unfinished row member fromStart with old | after
    · exact .inl old
    · exact .inr (all_shown done member after)

end Selection

/-- Looking up the cursor moves nothing. -/
theorem start_pagedOnce {request : PageRequest} {position : Option (String × String)}
    (paged : PagedOnce sessionId initial state) (idle : state.reading = none)
    (positive : 0 < request.limit)
    (found : position = state.store.loadMessagePageCursor sessionId state.cursor)
    (unfinished : state.finished = false) :
    PagedOnce sessionId initial { state with reading := some (request, position) } := by
  have same : ({ state with reading := some (request, position) } : Paging).position sessionId =
      state.position sessionId := by
    simp only [Paging.position, idle, found, Option.elim_none, Option.elim_some]
  constructor
  · exact paged.distinct
  · exact paged.shownIssued
  · exact paged.stored
  · exact paged.initialIssued
  · exact paged.cursorIssued
  · rintro _ ⟨⟩
    exact positive
  · intro finished
    exact absurd finished (by simp [unfinished])
  · rw [same]
    exact paged.behind
  · rw [same]
    exact paged.ahead
  · exact paged.complete

/-- Every step keeps the invariant. -/
theorem step_pagedOnce {action : PagingAction} (paged : PagedOnce sessionId initial state)
    (stepped : pagingStep sessionId state action = some next) :
    PagedOnce sessionId initial next := by
  have issued : ∀ row ∈ state.store.chatMessages, row.id ∈ state.issued := fun row member =>
    (paged.stored row member).1
  cases action with
  | start request =>
    simp only [pagingStep] at stepped
    split_ifs at stepped with busy
    simp only [Bool.or_eq_true, decide_eq_true_eq, not_or, Bool.not_eq_true,
      Option.isSome_eq_false_iff, Option.isNone_iff_eq_none] at busy
    obtain ⟨⟨unfinished, idle⟩, positive⟩ := busy
    rw [Store.startPage] at stepped
    split_ifs at stepped with nothing overflow
    · cases stepped
      exact paged
    · cases stepped
      exact paged
    · cases stepped
      exact start_pagedOnce paged idle (Nat.pos_of_ne_zero positive) rfl unfinished
  | select =>
    simp only [pagingStep] at stepped
    cases reading : state.reading with
    | none => simp [reading] at stepped
    | some pending =>
      simp only [reading] at stepped
      cases stepped
      exact select_pagedOnce reading paged
  | append row =>
    simp only [pagingStep] at stepped
    split_ifs at stepped with generated
    cases inserted : state.store.insert row with
    | error message =>
      simp only [inserted] at stepped
      cases stepped
      exact paged
    | ok store =>
      simp only [inserted] at stepped
      cases stepped
      have added := insert_ok inserted
      apply change_pagedOnce paged (added_change (unchanged _ _ _) added generated issued)
      intro other member
      rw [added, mem_append, mem_singleton] at member
      rcases member with old | rfl
      · exact mem_append_left _ (issued other old)
      · exact mem_append_right _ mem_cons_self
  | deleteMessagesBefore beforeId =>
    cases stepped
    have change := deleteOlder_change state.store sessionId state.issued
      (state.store.createdAtOf sessionId beforeId)
    have stillIssued : ∀ row ∈ (state.store.deleteOlder sessionId
        (state.store.createdAtOf sessionId beforeId)).chatMessages, row.id ∈ state.issued ++ [] := by
      intro row member
      rw [append_nil]
      exact issued row (mem_of_mem_filter member)
    have deleted := change_pagedOnce paged change stillIssued
    rwa [append_nil] at deleted
  | compactMessagesBefore beforeId contents stamps now =>
    simp only [pagingStep] at stepped
    split_ifs at stepped with generated
    cases compacted : state.store.compactMessagesBefore sessionId beforeId contents stamps now with
    | error message =>
      simp only [compacted] at stepped
      cases stepped
      exact paged
    | ok outcome =>
      simp only [compacted] at stepped
      cases stepped
      obtain ⟨_, added⟩ := compactMessagesBefore_ok compacted
      have deleted := deleteOlder_change state.store sessionId state.issued
        (state.store.createdAtOf sessionId beforeId)
      apply change_pagedOnce paged (added_change deleted added generated issued)
      intro other member
      rw [added, mem_append] at member
      rcases member with old | new
      · exact mem_append_left _ (issued other (mem_of_mem_filter old))
      · exact mem_append_right _ (mem_map_of_mem new)

/-- A message on pages without repetition is on exactly one of them. -/
theorem unique_page {pages : List (List ChatMessage)}
    (distinct : pages.flatten.Nodup) (shown : row ∈ pages.flatten) :
    ∃! index : Nat, ∃ page, pages[index]? = some page ∧ row ∈ page := by
  obtain ⟨page, inPages, onPage⟩ := mem_flatten.mp shown
  obtain ⟨index, inside, same⟩ := getElem_of_mem inPages
  have disjoint := (nodup_flatten.mp distinct).2
  refine ⟨index, ⟨page, by rw [List.getElem?_eq_getElem inside, same], onPage⟩, ?_⟩
  rintro other ⟨otherPage, found, onOther⟩
  obtain ⟨otherInside, rfl⟩ := List.getElem?_eq_some_iff.mp found
  subst same
  rcases Nat.lt_trichotomy other index with less | equal | more
  · exact absurd onPage (pairwise_iff_getElem.mp disjoint other index otherInside inside less
      onOther)
  · exact equal
  · exact absurd onOther (pairwise_iff_getElem.mp disjoint index other inside otherInside more
      onPage)

/-- Along every run no message is shown twice, and when the client is done every
message of the session that stayed the whole time is on exactly one page. -/
theorem pages_show_once {store : Store} {actions : List PagingAction} {final : Paging}
    (tidy : ∀ row ∈ store.chatMessages, TidyId row.id)
    (ran : run (pagingStep sessionId) (Paging.new store) actions = some final) :
    (final.pages.flatten.map ChatMessage.id).Nodup ∧
      (final.finished → ∀ row ∈ store.chatMessages, row.sessionId = sessionId →
        row ∈ final.store.chatMessages →
          ∃! index : Nat, ∃ page, final.pages[index]? = some page ∧ row ∈ page) := by
  have paged : PagedOnce sessionId store.chatMessages final := by
    have kept : ∀ {state next : Paging} {action : PagingAction},
        PagedOnce sessionId store.chatMessages state → True →
          pagingStep sessionId state action = some next →
            PagedOnce sessionId store.chatMessages next :=
      fun paged _ stepped => step_pagedOnce paged stepped
    apply run_invariant kept _ (guarded_true _ _) ran
    exact new_pagedOnce store sessionId tidy
  refine ⟨paged.distinct, ?_⟩
  intro finished row fromStart inSession stays
  have shown := paged.complete finished row (mem_sessionRows.mpr ⟨stays, inSession⟩) fromStart
  exact unique_page (Nodup.of_map _ paged.distinct) shown

def pagedMessage (id createdAt : String) : ChatMessage :=
  ⟨id, "session-1", .user, "hello", none, none, createdAt⟩

def pagedStore : Store where
  sessions := []
  chatMessages := [pagedMessage "m1" "2026-01-01", pagedMessage "m2" "2026-01-02"]
  idsDistinct := by decide

/-- The row of the cursor is deleted between two pages. -/
def pagedReads : List PagingAction :=
  [.start (.getMessagesPage 1), .select, .deleteMessagesBefore "m2",
    .start (.getMessagesPage 2), .select]

theorem pages_show_once_deleted_cursor :
    ∃ final, run (pagingStep "session-1") (Paging.new pagedStore) pagedReads = some final ∧
      (final.pages.flatten.map ChatMessage.id).Nodup ∧
        (final.finished → ∀ row ∈ pagedStore.chatMessages, row.sessionId = "session-1" →
          row ∈ final.store.chatMessages →
            ∃! index : Nat, ∃ page, final.pages[index]? = some page ∧ row ∈ page) := by
  have enabled : (run (pagingStep "session-1") (Paging.new pagedStore) pagedReads).isSome := by
    decide
  obtain ⟨final, ran⟩ := Option.isSome_iff_exists.mp enabled
  exact ⟨final, ran, pages_show_once (by decide) ran⟩

end Runs

end Asterel.Sessions
