import Asterel.Core.TranscriptTail
import Asterel.Library.FilteredPages
import Asterel.Library.KeyedTable
import Asterel.Transport.OwnerScope

/-!
# The sessions an operator sees

The listing reads the sessions of a tenant in batches of four times the page limit, keeps
those of the operator's principal, and stops with more than a page of them, at the end of
the table or after eight batches. The cursor of the next page is the last session shown or
the last session read.

Two filters meet here: the query selects the rows of the trimmed tenant, partly with a
pattern into which the tenant is put as it is, and the program keeps the rows whose owner
names the tenant of the scope. The pages are complete exactly if the query selects every
row that the program would keep. A tenant with a backslash breaks that: in a pattern the
backslash escapes the character behind it.
-/

namespace Asterel.OperatorSessions

open Library OrderedTable FilteredPages List OrderDual
open Asterel.Permissions (trimmed)
open Asterel.Sessions (Session SessionState TidyId maxI64 pageLimit saturatingMul)
open Asterel.OwnerScope (SessionOwnerScope)

structure OperatorScope where
  principal : String
  tenantId : Option String
  tenantModeAvailable : Bool

/-- The rows of the table; the id is its primary key. -/
abbrev Sessions := KeyedTable Session.id

/-! ## The queries -/

/-- `LIKE`: a percent sign stands for any text, an underscore for any character, and a
backslash takes the next character as it is. -/
def like : List Char → List Char → Bool
  | [], text => text.isEmpty
  | '%' :: pattern, text => text.tails.any (like pattern)
  | '_' :: pattern, text =>
    match text with
    | [] => false
    | _ :: rest => like pattern rest
  | '\\' :: char :: pattern, text =>
    match text with
    | [] => false
    | other :: rest => char = other && like pattern rest
  | char :: pattern, text =>
    match text with
    | [] => false
    | other :: rest => char = other && like pattern rest

def tenantPrefix (tenantId : String) : String := "tenant::" ++ tenantId ++ "::%"

/-- The condition of both queries on the owner and the surface. -/
def tenantScoped (tenantId : String) (session : Session) : Bool :=
  let tenantScope := "tenant:" ++ tenantId
  let tenantPrefix := (tenantPrefix tenantId).toList
  session.ownerScope = tenantId || session.surface = tenantId ||
    session.ownerScope = tenantScope || session.surface = tenantScope ||
    like tenantPrefix session.ownerScope.toList || like tenantPrefix session.surface.toList

def sessionKey (session : Session) : String ×ₗ String := toLex (session.updatedAt, session.id)

/-- The condition of the query with a cursor; the other query has none. -/
def beforeCursor (position : Option (String × String)) (session : Session) : Bool :=
  position.all fun cursor =>
    session.updatedAt < cursor.1 || session.updatedAt = cursor.1 && session.id < cursor.2

def loadSessionPageCursor (table : Sessions) (cursor : Option String) : Option (String × String) :=
  match (cursor.map trimmed).filter (· ≠ "") with
  | none => none
  | some cursor => (table.find cursor).map fun row => (row.updatedAt, row.id)

/-- `ORDER BY updated_at DESC, id DESC LIMIT`. -/
def listTenantScopedSessionsPage (table : Sessions) (tenantId : String) (cursor : Option String)
    (limit : Nat) : Except String (List Session) :=
  let tenantId := trimmed tenantId
  if tenantId = "" ∨ limit = 0 then .ok []
  else if maxI64 < limit then
    .error "session page limit conversion failed: out of range integral type conversion attempted"
  else
    let position := loadSessionPageCursor table cursor
    .ok ((ordered (toDual ∘ sessionKey) (table.rows.filter fun session =>
      tenantScoped tenantId session && beforeCursor position session)).take limit)

/-! ## The listing -/

def sessionMatchesOperatorScope (session : Session) (scope : OperatorScope) : Bool :=
  match scope.tenantId with
  | none => false
  | some tenantId =>
    let principal := trimmed scope.principal
    if trimmed tenantId = "" ∨ principal = "" then false
    else
      match SessionOwnerScope.parse session.ownerScope with
      | .tenantPrincipal scopeTenant scopePrincipal _ =>
        scopeTenant = tenantId && scopePrincipal = principal
      | _ => false

/-- The label of a state, `Debug`. -/
def stateLabel : SessionState → String
  | .active => "Active"
  | .archived => "Archived"
  | .compacted => "Compacted"

structure SessionSummaryReadModel where
  id : String
  surface : String
  ownerScope : String
  state : String
  createdAt : String
  updatedAt : String
deriving DecidableEq

def summary (session : Session) : SessionSummaryReadModel :=
  { id := session.id
    surface := session.surface
    ownerScope := session.ownerScope
    state := stateLabel session.state
    createdAt := session.createdAt
    updatedAt := session.updatedAt }

def buildSessionListReadModel (sessions : List Session) : List SessionSummaryReadModel :=
  sessions.map summary

def operatorScopeFetchMultiplier : Nat := 4

def operatorScopeMaxScans : Nat := 8

/-- What the scans have collected. -/
structure Scans where
  scanCursor : Option String
  visible : List Session
  exhausted : Bool

/-- The loop over the batches. -/
def scanBatches (table : Sessions) (scope : OperatorScope) (tenantId : String)
    (limit fetchLimit : Nat) : Nat → Scans → Except String Scans
  | 0, scans => .ok scans
  | remaining + 1, scans =>
    match listTenantScopedSessionsPage table tenantId scans.scanCursor fetchLimit with
    | .error error => .error error
    | .ok batch =>
      if batch = [] then .ok { scans with exhausted := true }
      else
        let reachedBatchEnd := batch.length < fetchLimit
        let scanCursor := batch.getLast?.map Session.id
        let visible := scans.visible ++
          batch.filter fun session => sessionMatchesOperatorScope session scope
        if limit < visible.length then .ok ⟨scanCursor, visible, scans.exhausted⟩
        else if reachedBatchEnd then .ok ⟨scanCursor, visible, true⟩
        else scanBatches table scope tenantId limit fetchLimit remaining
          ⟨scanCursor, visible, scans.exhausted⟩

structure OperatorSessionPage where
  items : List SessionSummaryReadModel
  nextCursor : Option String

def listOperatorSessions (table : Sessions) (scope : OperatorScope) (cursor : Option String)
    (limit : Option Nat) : Except String OperatorSessionPage :=
  let tenantId := scope.tenantId.getD ""
  let limit := pageLimit limit
  let fetchLimit := max (max (saturatingMul limit operatorScopeFetchMultiplier) limit) 1
  match scanBatches table scope tenantId limit fetchLimit operatorScopeMaxScans
      ⟨cursor, [], false⟩ with
  | .error error => .error error
  | .ok scans =>
    let hasMore := limit < scans.visible.length || !scans.exhausted
    let nextCursor :=
      if hasMore then
        if limit < scans.visible.length then (scans.visible[limit - 1]?).map Session.id
        else scans.scanCursor
      else none
    .ok ⟨buildSessionListReadModel (scans.visible.take limit), nextCursor⟩

/-- Every id is one that the store generated; no other statement inserts a session. -/
structure SessionTable where
  sessions : Sessions
  generated : ∀ row ∈ sessions.rows, TidyId row.id

/-! ## The rows of the query -/

section Rows

variable {table : SessionTable} {tenantId : String}

/-- The rows that the query selects without a cursor and without a limit. -/
def selectedRows (table : SessionTable) (tenantId : String) : List Session :=
  ordered (toDual ∘ sessionKey)
    (table.sessions.rows.filter (tenantScoped (trimmed tenantId)))

theorem mem_selectedRows {row : Session} :
    row ∈ selectedRows table tenantId ↔
      row ∈ table.sessions.rows ∧ tenantScoped (trimmed tenantId) row = true := by
  rw [selectedRows, (ordered_perm _).mem_iff, mem_filter]

/-- The order of the query is strict, since the ids are distinct. -/
theorem increasing_ordered {rows : List Session} (distinct : (rows.map Session.id).Nodup) :
    Increasing (toDual ∘ sessionKey)
      (ordered (toDual ∘ sessionKey) rows) := by
  have ids : (ordered (toDual ∘ sessionKey) rows).Pairwise
      fun first second => first.id ≠ second.id :=
    pairwise_map.mp (((ordered_perm rows).map Session.id).nodup_iff.mpr distinct)
  have sorted := @ordered_pairwise _ _ _ (toDual ∘ sessionKey) rows
  refine (sorted.and ids).imp ?_
  rintro first second ⟨before, different⟩
  refine lt_of_le_of_ne before ?_
  intro same
  have keys : sessionKey first = sessionKey second := same
  exact different (congrArg Prod.snd keys)

theorem increasing_selectedRows : Increasing (toDual ∘ sessionKey)
    (selectedRows table tenantId) :=
  increasing_ordered (table.sessions.distinct.sublist (filter_sublist.map Session.id))

/-- The condition with a cursor selects the rows behind the row of the cursor. -/
theorem beforeCursor_iff (row other : Session) :
    beforeCursor (some (row.updatedAt, row.id)) other = true ↔
      After (toDual ∘ sessionKey) (some (toDual (sessionKey row))) other := by
  simp only [beforeCursor, Option.all_some, Bool.or_eq_true, Bool.and_eq_true, decide_eq_true_eq,
    After, Option.mem_some_iff, forall_eq', Function.comp_apply, toDual_lt_toDual,
    sessionKey, Prod.Lex.toLex_lt_toLex]

theorem loadSessionPageCursor_eq {row : Session} (member : row ∈ table.sessions.rows) :
    loadSessionPageCursor table.sessions (some row.id) = some (row.updatedAt, row.id) := by
  obtain ⟨tidy, named⟩ := table.generated row member
  have kept : ((some row.id).map trimmed).filter (· ≠ "") = some row.id := by
    rw [Option.map_some, tidy]
    exact Option.filter_some_pos (by simpa using named)
  rw [loadSessionPageCursor, kept]
  dsimp only
  rw [KeyedTable.find_of_mem member]
  rfl

/-- A batch is the beginning of the rows behind the cursor. -/
theorem listTenantScopedSessionsPage_eq {cursor : Option String} {rest : List Session}
    {limit : Nat} (behind : Behind Session.id (selectedRows table tenantId) cursor rest)
    (filled : trimmed tenantId ≠ "") (positive : 0 < limit) (small : limit ≤ maxI64) :
    listTenantScopedSessionsPage table.sessions tenantId cursor limit = .ok (rest.take limit) := by
  rw [listTenantScopedSessionsPage]
  dsimp only
  rw [if_neg (by simp [filled, positive.ne']), if_neg (by omega)]
  congr 2
  cases behind with
  | start =>
    have none : loadSessionPageCursor table.sessions none = none := rfl
    simp [none, beforeCursor, selectedRows]
  | after front row _ split =>
    have member : row ∈ selectedRows table tenantId := by simp [split]
    have increasing := @increasing_selectedRows table tenantId
    rw [loadSessionPageCursor_eq (mem_selectedRows.mp member).1]
    have filters : table.sessions.rows.filter (fun session =>
        tenantScoped (trimmed tenantId) session &&
          beforeCursor (some (row.updatedAt, row.id)) session) =
        (table.sessions.rows.filter (tenantScoped (trimmed tenantId))).filter
          (beforeCursor (some (row.updatedAt, row.id))) := by
      rw [filter_filter]
      congr 1
      funext session
      exact Bool.and_comm _ _
    have behindRow : (selectedRows table tenantId).filter
        (beforeCursor (some (row.updatedAt, row.id))) = rest := by
      rw [split] at increasing ⊢
      refine Eq.trans (filter_congr fun session _ => ?_) (filter_after increasing)
      exact Bool.eq_iff_iff.mpr ((beforeCursor_iff row session).trans decide_eq_true_iff.symm)
    rw [filters, ordered_filter increasing, ← selectedRows, behindRow]

end Rows

/-! ## The scans of one page -/

section Scanning

variable {table : SessionTable} {scope : OperatorScope} {tenantId : String}
  {limit fetchLimit : Nat} {start read rest : List Session} {scans : Scans}

/-- The scans have read a beginning of the rows and kept what the operator may see of it. -/
structure Scanned (table : SessionTable) (scope : OperatorScope) (tenantId : String)
    (start read rest : List Session) (scans : Scans) : Prop where
  parts : start = read ++ rest
  visible : scans.visible = read.filter fun session => sessionMatchesOperatorScope session scope
  behind : Behind Session.id (selectedRows table tenantId) scans.scanCursor rest
  cursor : ∀ last ∈ read.getLast?, scans.scanCursor = some last.id

/-- A batch that is not empty is read on. -/
theorem Scanned.batch (scanned : Scanned table scope tenantId start read rest scans)
    (some : rest.take fetchLimit ≠ []) (exhausted : Bool) :
    Scanned table scope tenantId start (read ++ rest.take fetchLimit) (rest.drop fetchLimit)
      ⟨(rest.take fetchLimit).getLast?.map Session.id, scans.visible ++
        (rest.take fetchLimit).filter fun session => sessionMatchesOperatorScope session scope,
        exhausted⟩ := by
  obtain ⟨front, last, ends⟩ := (eq_nil_or_concat (rest.take fetchLimit)).resolve_left some
  have isLast : (rest.take fetchLimit).getLast? = Option.some last := by
    rw [ends, concat_eq_append, getLast?_concat]
  constructor
  · rw [append_assoc, take_append_drop]
    exact scanned.parts
  · rw [filter_append, ← scanned.visible]
  · have behind := scanned.behind
    rw [← take_append_drop fetchLimit rest] at behind
    rw [isLast]
    exact behind.advance isLast
  · intro other member
    rw [getLast?_append_of_ne_nil _ some, isLast, Option.mem_some_iff] at member
    rw [isLast, ← member]
    rfl

/-- The scans read on until there is more than a page, or the rows end, or the scans are
used up. -/
theorem scanBatches_scanned (filled : trimmed tenantId ≠ "") (positive : 0 < fetchLimit)
    (small : fetchLimit ≤ maxI64) (remaining : Nat)
    (scanned : Scanned table scope tenantId start read rest scans)
    (going : scans.exhausted = false) :
    ∃ result readOn restOn,
      scanBatches table.sessions scope tenantId limit fetchLimit remaining scans = .ok result ∧
        Scanned table scope tenantId start readOn restOn result ∧
        (result.exhausted = true → restOn = []) ∧
        (result.exhausted = false → 0 < remaining ∨ read ≠ [] → readOn ≠ []) := by
  induction remaining generalizing read rest scans with
  | zero =>
    refine ⟨scans, read, rest, rfl, scanned, ?_, ?_⟩
    · intro exhausted
      rw [going] at exhausted
      cases exhausted
    · intro _ more
      exact more.resolve_left (Nat.lt_irrefl 0)
  | succ remaining ih =>
    rw [scanBatches, listTenantScopedSessionsPage_eq scanned.behind filled positive small]
    dsimp only
    split
    · rename_i none
      have ended : rest = [] := by
        rw [take_eq_nil_iff] at none
        exact none.resolve_left positive.ne'
      refine ⟨_, read, rest, rfl, ⟨scanned.parts, scanned.visible, scanned.behind,
        scanned.cursor⟩, fun _ => ended, ?_⟩
      intro exhausted
      cases exhausted
    · rename_i some
      have some : rest.take fetchLimit ≠ [] := some
      have readOn : read ++ rest.take fetchLimit ≠ [] := by simp [some]
      split
      · refine ⟨_, _, _, rfl, scanned.batch some scans.exhausted, ?_, fun _ _ => readOn⟩
        intro exhausted
        rw [going] at exhausted
        cases exhausted
      · split
        · rename_i short
          refine ⟨_, _, _, rfl, scanned.batch some true, fun _ => ?_, ?_⟩
          · rw [length_take] at short
            exact drop_eq_nil_of_le (by omega)
          · intro exhausted
            cases exhausted
        · obtain ⟨result, last, later, ran, after, ends, moves⟩ :=
            ih (scanned.batch some scans.exhausted) going
          exact ⟨result, last, later, ran, after, ends, fun exhausted _ => moves exhausted (.inr readOn)⟩

end Scanning

/-! ## The pages -/

section Pages

variable (table : SessionTable) (scope : OperatorScope) (limit : Option Nat)

/-- A page as the client sees it: what it shows and the cursor of the next page. -/
def operatorPage (cursor : Option String) :
    Except String (List SessionSummaryReadModel × Option String) :=
  (listOperatorSessions table.sessions scope cursor limit).map fun page =>
    (page.items, page.nextCursor)

/-- The sessions of the operator, the latest first. -/
def operatorSessions : List Session :=
  ordered (toDual ∘ sessionKey)
    (table.sessions.rows.filter fun session => sessionMatchesOperatorScope session scope)

variable {table scope limit} {tenantId : String} {cursor : Option String} {rest : List Session}

section

variable (named : scope.tenantId = some tenantId) (filled : trimmed tenantId ≠ "")
  (positive : ∀ requested ∈ limit, 0 < requested)
include named filled positive

/-- A page ends at the last session that it shows or at the last one that it read. -/
theorem operatorPage_serves (behind : Behind Session.id (selectedRows table tenantId) cursor rest) :
    Serves Session.id (operatorPage table scope limit) summary
      (fun session => sessionMatchesOperatorScope session scope) (pageLimit limit) cursor rest := by
  have several : 0 < pageLimit limit := by
    cases limit with
    | none => decide
    | some requested => exact lt_min (positive requested rfl) (by decide)
  have few : pageLimit limit ≤ 200 := min_le_right _ _
  have fetched : max (max (saturatingMul (pageLimit limit) operatorScopeFetchMultiplier)
      (pageLimit limit)) 1 ≤ maxI64 := by
    simp only [saturatingMul, operatorScopeFetchMultiplier, maxI64]
    omega
  have begun : Scanned table scope tenantId rest [] rest ⟨cursor, [], false⟩ :=
    ⟨rfl, rfl, behind, by simp⟩
  obtain ⟨scans, read, later, ran, scanned, ends, moves⟩ :=
    @scanBatches_scanned table scope tenantId (pageLimit limit) _ rest [] rest _ filled
      (Nat.lt_of_lt_of_le Nat.zero_lt_one (le_max_right _ _)) fetched operatorScopeMaxScans
      begun rfl
  have page : operatorPage table scope limit cursor = .ok
      (buildSessionListReadModel (scans.visible.take (pageLimit limit)),
        if pageLimit limit < scans.visible.length || !scans.exhausted then
          if pageLimit limit < scans.visible.length then
            (scans.visible[pageLimit limit - 1]?).map Session.id
          else scans.scanCursor
        else none) := by
    rw [operatorPage, listOperatorSessions]
    dsimp only
    rw [named, Option.getD_some, ran]
    rfl
  refine ⟨_, _, page, ?_, ?_⟩
  · rw [buildSessionListReadModel, length_map, length_take]
    exact min_le_left _ _
  have parts := scanned.parts
  by_cases more : pageLimit limit < scans.visible.length
  · right
    rw [scanned.visible] at more ⊢
    obtain ⟨row, found⟩ : ∃ row, (read.filter fun session =>
        sessionMatchesOperatorScope session scope)[pageLimit limit - 1]? = some row :=
      ⟨_, List.getElem?_eq_getElem (Nat.lt_of_le_of_lt (Nat.sub_le (pageLimit limit) 1) more)⟩
    obtain ⟨taken, unread, split, isLast, kept⟩ := exists_prefix_filter found
    refine ⟨taken, unread ++ later, _, ?_, isLast, ?_, ?_⟩
    · rw [parts, split, append_assoc]
    · simp [more, found]
    · rw [kept, Nat.sub_add_cancel several, buildSessionListReadModel]
  · have whole : scans.visible.take (pageLimit limit) = scans.visible :=
      take_of_length_le (Nat.le_of_not_lt more)
    rw [whole, scanned.visible, buildSessionListReadModel]
    rw [scanned.visible] at more
    cases exhausted : scans.exhausted with
    | true =>
      left
      rw [ends exhausted, append_nil] at parts
      rw [parts]
      simp [more]
    | false =>
      right
      obtain ⟨front, last, ending⟩ := (eq_nil_or_concat read).resolve_left
        (moves exhausted (.inl (by decide)))
      have isLast : read.getLast? = some last := by
        rw [ending, concat_eq_append, getLast?_concat]
      refine ⟨read, later, last, parts, isLast, ?_, rfl⟩
      rw [scanned.cursor last isLast]
      simp [more]

/-- Following the cursors ends, and the pages show the selected sessions of the operator. -/
theorem exists_listing :
    ∃ pages, Listing (operatorPage table scope limit) none pages ∧
      pages.flatten = ((operatorSessions table scope).filter
        (tenantScoped (trimmed tenantId))).map summary ∧
      ∀ shown ∈ pages, shown.length ≤ pageLimit limit := by
  obtain ⟨pages, listing, union, bounded⟩ := listing_of_serves
    (fun position rest => @operatorPage_serves table scope limit tenantId position rest named
      filled positive) Behind.start
  refine ⟨pages, listing, ?_, bounded⟩
  have increasing := increasing_ordered table.sessions.distinct
  rw [union, selectedRows, operatorSessions, ordered_filter increasing, ordered_filter increasing,
    filter_comm]

end

variable (table scope limit) in
/-- The listing ends, shows every session of the operator once and in order, and every page
keeps to the limit. -/
def CompleteListing : Prop :=
  ∃ pages, Listing (operatorPage table scope limit) none pages ∧
    pages.flatten = (operatorSessions table scope).map summary ∧
    ∀ shown ∈ pages, shown.length ≤ pageLimit limit

/-- Nothing is missing exactly if the query drops no session of the operator. -/
theorem completeListing_iff_filter (named : scope.tenantId = some tenantId)
    (filled : trimmed tenantId ≠ "") (positive : ∀ requested ∈ limit, 0 < requested) :
    CompleteListing table scope limit ↔
      (operatorSessions table scope).filter (tenantScoped (trimmed tenantId)) =
        operatorSessions table scope := by
  obtain ⟨pages, listing, union, bounded⟩ :=
    @exists_listing table scope limit tenantId named filled positive
  constructor
  · rintro ⟨others, other, complete, _⟩
    rw [← listing.unique other, union] at complete
    have lengths := congrArg List.length complete
    rw [length_map, length_map, length_filter_eq_length_iff] at lengths
    exact filter_eq_self.mpr lengths
  · intro kept
    exact ⟨pages, listing, by rw [union, kept], bounded⟩

end Pages

/-! ## Which listings are complete -/

/-- The listing is complete exactly if the query selects every session of the operator. -/
theorem completeListing_iff {table : SessionTable} {scope : OperatorScope} {limit : Option Nat}
    {tenantId : String} (named : scope.tenantId = some tenantId) (filled : trimmed tenantId ≠ "")
    (positive : ∀ requested ∈ limit, 0 < requested) :
    CompleteListing table scope limit ↔
      ∀ session ∈ table.sessions.rows, sessionMatchesOperatorScope session scope = true →
        tenantScoped (trimmed tenantId) session = true := by
  rw [completeListing_iff_filter named filled positive, filter_eq_self]
  simp only [operatorSessions, (ordered_perm _).mem_iff, mem_filter, and_imp]

/-- A session of a principal of the tenant. -/
def sessionOf (tenantId : String) : Session where
  id := "5b0c"
  surface := "gateway"
  ownerScope := "tenant::" ++ tenantId ++ "::principal::auth-1::notes"
  state := .active
  model := none
  metadata := none
  createdAt := "2026-01-01T00:00:00Z"
  updatedAt := "2026-01-01T00:00:00Z"
  archivedAt := none

def tableOf (tenantId : String) : SessionTable where
  sessions := ⟨[sessionOf tenantId], nodup_singleton _⟩
  generated := by
    have tidy : TidyId "5b0c" := by decide
    intro row member
    obtain rfl := mem_singleton.mp member
    exact tidy

def scopeOf (tenantId : String) : OperatorScope where
  principal := "auth-1"
  tenantId := some tenantId
  tenantModeAvailable := true

theorem completeListing_iff_plain :
    CompleteListing (tableOf "acme") (scopeOf "acme") (some 1) := by
  refine (@completeListing_iff (tableOf "acme") (scopeOf "acme") (some 1) "acme" rfl (by decide)
    (by decide)).mpr ?_
  intro session member _
  obtain rfl := mem_singleton.mp member
  decide

/-- A backslash in the tenant escapes the character behind it, and the session is not found. -/
theorem escaped_tenant_misses_session : ¬ ∀ (table : SessionTable) (scope : OperatorScope)
    (limit : Option Nat) (tenantId : String), scope.tenantId = some tenantId →
      trimmed tenantId ≠ "" → (∀ requested ∈ limit, 0 < requested) →
        CompleteListing table scope limit := by
  intro complete
  have listed := complete (tableOf "acme\\eu") (scopeOf "acme\\eu") (some 1) "acme\\eu" rfl
    (by decide) (by decide)
  rw [completeListing_iff_filter rfl (by decide) (by decide), filter_eq_self] at listed
  have dropped : tenantScoped (trimmed "acme\\eu") (sessionOf "acme\\eu") = false := by decide
  have member : sessionOf "acme\\eu" ∈ operatorSessions (tableOf "acme\\eu") (scopeOf "acme\\eu") := by
    rw [operatorSessions, (ordered_perm _).mem_iff]
    exact mem_filter.mpr ⟨mem_singleton.mpr rfl, by decide⟩
  rw [listed _ member] at dropped
  cases dropped

end Asterel.OperatorSessions
