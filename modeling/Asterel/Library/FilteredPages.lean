import Asterel.Library.OrderedTable

/-!
# Pages of a filtered reading

A reading is taken page by page. A page shows those of the next rows that pass a filter
and names the row that it ends at, or no row if it has shown the rest. Whatever number of
rows a page covers, the pages show every row that passes exactly once and in order, and
after finitely many of them none is left.
-/

namespace Library.FilteredPages

open List

universe u v

variable {ρ ι : Type u} {identity : ρ → ι} {rows front taken rest : List ρ} {position : Option ι}

variable (identity rows) in
/-- The rows that lie behind a position of the reading. -/
inductive Behind : Option ι → List ρ → Prop
  | start : Behind none rows
  | after (front : List ρ) (row : ρ) (rest : List ρ) (split : rows = front ++ row :: rest) :
      Behind (some (identity row)) rest

/-- The position of the last row of some rows that were read on. -/
theorem Behind.advance (behind : Behind identity rows position (taken ++ rest))
    {last : ρ} (ends : taken.getLast? = some last) :
    Behind identity rows (some (identity last)) rest := by
  obtain ⟨front, rfl⟩ := getLast?_eq_some_iff.mp ends
  generalize same : front ++ [last] ++ rest = remaining at behind
  cases behind with
  | start => exact .after front last rest (by rw [← same, append_assoc]; rfl)
  | after before row _ split =>
    refine .after (before ++ row :: front) last rest ?_
    rw [split, ← same]
    simp

/-- The beginning of some rows up to one of those that pass the filter. -/
theorem exists_prefix_filter {shows : ρ → Bool} {before : Nat} {row : ρ}
    (found : (rows.filter shows)[before]? = some row) :
    ∃ taken rest, rows = taken ++ rest ∧ taken.getLast? = some row ∧
      taken.filter shows = (rows.filter shows).take (before + 1) := by
  induction rows generalizing before with
  | nil => simp at found
  | cons first others ih =>
    by_cases shown : shows first = true
    · rw [filter_cons_of_pos shown] at found ⊢
      cases before with
      | zero =>
        cases found
        exact ⟨[row], others, rfl, rfl, by simp [shown]⟩
      | succ before =>
        obtain ⟨taken, rest, rfl, last, kept⟩ := ih found
        refine ⟨first :: taken, rest, rfl, by simp [getLast?_cons, last], ?_⟩
        rw [filter_cons_of_pos shown, kept, take_succ_cons]
    · rw [filter_cons_of_neg shown] at found ⊢
      obtain ⟨taken, rest, rfl, last, kept⟩ := ih found
      refine ⟨first :: taken, rest, rfl, by simp [getLast?_cons, last], ?_⟩
      rw [filter_cons_of_neg shown, kept]

/-! ## Following the pages -/

variable {α : Type v} {ε : Type*} {page : Option ι → Except ε (List α × Option ι)} {item : ρ → α}
  {shows : ρ → Bool}

variable (page) in
/-- The pages that a client sees that asks for the next page until there is none. -/
inductive Listing : Option ι → List (List α) → Prop
  | last (position : Option ι) (items : List α) (read : page position = .ok (items, none)) :
      Listing position [items]
  | more (position : Option ι) (items : List α) (next : ι) (pages : List (List α))
      (read : page position = .ok (items, some next)) (later : Listing (some next) pages) :
      Listing position (items :: pages)

/-- The pages follow from the first position. -/
theorem Listing.unique {pages others : List (List α)} (listing : Listing page position pages)
    (other : Listing page position others) : pages = others := by
  induction listing generalizing others with
  | last position items read =>
    cases other with
    | last _ _ same =>
      rw [read] at same
      cases same
      rfl
    | more _ _ next _ same _ =>
      rw [read] at same
      cases same
  | more position items next pages read later ih =>
    cases other with
    | last _ _ same =>
      rw [read] at same
      cases same
    | more _ _ following _ same rest =>
      rw [read] at same
      cases same
      rw [ih rest]

variable (page identity item shows) in
/-- What a page does with the rows behind its position: it shows the rest, or it ends at one
of them and shows those up to it. -/
def Serves (bound : Nat) (position : Option ι) (rest : List ρ) : Prop :=
  ∃ items next, page position = .ok (items, next) ∧ items.length ≤ bound ∧
    (next = none ∧ items = (rest.filter shows).map item ∨
      ∃ taken later last, rest = taken ++ later ∧ taken.getLast? = some last ∧
        next = some (identity last) ∧ items = (taken.filter shows).map item)

/-- The pages from a position show the rows behind it that pass the filter. -/
theorem listing_of_serves {bound : Nat}
    (serves : ∀ position rest, Behind identity rows position rest →
      Serves identity page item shows bound position rest)
    (behind : Behind identity rows position rest) :
    ∃ pages, Listing page position pages ∧ pages.flatten = (rest.filter shows).map item ∧
      ∀ shown ∈ pages, shown.length ≤ bound := by
  induction measure : rest.length using Nat.strong_induction_on generalizing position rest with
  | _ measure ih =>
    obtain ⟨items, next, read, short, ⟨rfl, rfl⟩ | ⟨taken, later, last, rfl, isLast, rfl, rfl⟩⟩ :=
      serves position rest behind
    · refine ⟨[(rest.filter shows).map item], .last position _ read, by simp, ?_⟩
      intro listed member
      rw [mem_singleton.mp member]
      exact short
    · have some : 0 < taken.length := length_pos_of_mem (mem_of_getLast? isLast)
      rw [length_append] at measure
      obtain ⟨pages, listing, union, bounded⟩ :=
        ih later.length (by omega) (behind.advance isLast) rfl
      refine ⟨(taken.filter shows).map item :: pages, .more position _ _ pages read listing, ?_, ?_⟩
      · rw [flatten_cons, union, ← map_append, ← filter_append]
      · intro listed member
        obtain rfl | member := mem_cons.mp member
        · exact short
        · exact bounded listed member

/-! ## Positions as keys -/

section Keys

open OrderedTable

variable {κ : Type v} [LinearOrder κ] {key : ρ → κ}

/-- Behind a row of a strictly ordered reading come the rows with greater keys. -/
theorem filter_after {row : ρ} (increasing : Increasing key (front ++ row :: rest)) :
    (front ++ row :: rest).filter (fun other => After key (some (key row)) other) = rest := by
  obtain ⟨_, tail, across⟩ := pairwise_append.mp increasing
  have before : front.filter (fun other => After key (some (key row)) other) = [] := by
    rw [filter_eq_nil_iff]
    intro other member
    have less : key other < key row := across other member row mem_cons_self
    simpa [After] using less.le
  have behind : rest.filter (fun other => After key (some (key row)) other) = rest := by
    rw [filter_eq_self]
    intro other member
    have greater : key row < key other := (pairwise_cons.mp tail).1 other member
    simpa [After] using greater
  rw [filter_append, before, filter_cons, behind]
  simp [After]

end Keys

end Library.FilteredPages
