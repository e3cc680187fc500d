import Mathlib.Data.List.Basic

/-!
# Cutting a list where an automaton says so

A cutter reads a list from the left and decides from its state whether a symbol
separates. A cut is the list of the pieces between the separators, empty pieces
included. Every piece but the first begins right after a separator, so a piece is
known from the prefix the cutter has read before it.
-/

namespace Library

open List

/-- The state of a cutter is what it remembers of the symbols it has read. -/
structure Cutter (State Symbol : Type*) where
  separates : State → Symbol → Bool
  next : State → Symbol → State

namespace Cutter

variable {State Symbol Other : Type*} (cutter : Cutter State Symbol)
variable {list part : List Symbol} {other : Other} {view : Other → Option Symbol} (state : State)
  {symbol : Symbol} (separates : Symbol → Bool)

/-- The pieces of a list between the separators. -/
def cut : State → List Symbol → List (List Symbol)
  | _, [] => [[]]
  | state, symbol :: rest =>
    if cutter.separates state symbol then [] :: cut (cutter.next state symbol) rest
    else (cut (cutter.next state symbol) rest).modifyHead (symbol :: ·)

/-- The part of a list in front of its first separator. -/
def piece : State → List Symbol → List Symbol
  | _, [] => []
  | state, symbol :: rest =>
    if cutter.separates state symbol then []
    else symbol :: piece (cutter.next state symbol) rest

/-- The state after a part of the list. -/
def after (state : State) (read : List Symbol) : State := read.foldl cutter.next state

@[simp] theorem after_nil : cutter.after state [] = state := rfl

theorem after_concat (read : List Symbol) (symbol : Symbol) :
    cutter.after state (read ++ [symbol]) = cutter.next (cutter.after state read) symbol := by
  simp [after]

/-- A cut begins with the part in front of the first separator. -/
theorem cut_eq_piece_cons (list : List Symbol) :
    cutter.cut state list = cutter.piece state list :: (cutter.cut state list).tail := by
  induction list generalizing state with
  | nil => rfl
  | cons symbol rest ih =>
    rw [cut, piece]
    split
    · rfl
    · rw [ih]
      rfl

theorem piece_mem_cut (list : List Symbol) :
    cutter.piece state list ∈ cutter.cut state list := by
  rw [cut_eq_piece_cons]
  exact mem_cons_self

/-- The other pieces are those in front of which a separator stands. -/
theorem mem_tail_cut_iff {state : State} :
    part ∈ (cutter.cut state list).tail ↔ ∃ before symbol rest, list = before ++ symbol :: rest ∧
        cutter.separates (cutter.after state before) symbol ∧
        part = cutter.piece (cutter.after state (before ++ [symbol])) rest := by
  induction list generalizing state with
  | nil => simp [cut]
  | cons first list ih =>
    constructor
    · intro member
      by_cases separator : cutter.separates state first
      · rw [cut, if_pos separator, tail_cons, cut_eq_piece_cons, mem_cons] at member
        cases member with
        | inl atHead => exact ⟨[], first, list, rfl, separator, atHead⟩
        | inr inTail =>
          obtain ⟨before, symbol, rest, same, cuts, found⟩ := ih.mp inTail
          exact ⟨first :: before, symbol, rest, by rw [same]; rfl, cuts, found⟩
      · rw [cut, if_neg separator, tail_modifyHead] at member
        obtain ⟨before, symbol, rest, same, cuts, found⟩ := ih.mp member
        exact ⟨first :: before, symbol, rest, by rw [same]; rfl, cuts, found⟩
    · rintro ⟨before, symbol, rest, same, cuts, found⟩
      cases before with
      | nil =>
        cases same
        rw [after_nil] at cuts
        rw [cut, if_pos cuts, found]
        exact cutter.piece_mem_cut _ _
      | cons head before =>
        cases same
        have deeper := ih.mpr ⟨before, symbol, rest, rfl, cuts, found⟩
        by_cases separator : cutter.separates state first
        · rw [cut, if_pos separator]
          exact mem_of_mem_tail deeper
        · rw [cut, if_neg separator, tail_modifyHead]
          exact deeper

theorem mem_cut_iff {state : State} :
    part ∈ cutter.cut state list ↔ part = cutter.piece state list ∨
      ∃ before symbol rest, list = before ++ symbol :: rest ∧
        cutter.separates (cutter.after state before) symbol ∧
        part = cutter.piece (cutter.after state (before ++ [symbol])) rest := by
  rw [cut_eq_piece_cons, mem_cons, mem_tail_cut_iff]

theorem piece_isPrefix (list : List Symbol) : cutter.piece state list <+: list := by
  induction list generalizing state with
  | nil => exact nil_prefix
  | cons symbol rest ih =>
    rw [piece]
    split
    · exact nil_prefix
    · exact cons_prefix_cons.mpr ⟨rfl, ih _⟩

/-- The pieces of a cut are parts of the list. -/
theorem isInfix_of_mem_cut {state : State}
    (member : part ∈ cutter.cut state list) : part <:+: list := by
  cases cutter.mem_cut_iff.mp member with
  | inl atFront =>
    rw [atFront]
    exact (cutter.piece_isPrefix state list).isInfix
  | inr behind =>
    obtain ⟨before, symbol, rest, same, -, atRest⟩ := behind
    have suffix : rest <:+ before ++ symbol :: rest :=
      (suffix_cons symbol rest).trans (suffix_append before _)
    rw [atRest, same]
    exact (cutter.piece_isPrefix _ rest).isInfix.trans suffix.isInfix

/-- A symbol that never separates stays in some piece. -/
theorem mem_piece_of_never_separates (never : ∀ state, cutter.separates state symbol = false)
    (member : symbol ∈ list) (state : State) :
    ∃ part ∈ cutter.cut state list, symbol ∈ part := by
  induction list generalizing state with
  | nil => simp at member
  | cons first rest ih =>
    rw [cut]
    by_cases same : symbol = first
    · rw [if_neg (by simp [← same, never]), cut_eq_piece_cons]
      exact ⟨_, mem_cons_self, by simp [same]⟩
    · obtain ⟨part, found, inside⟩ := ih
        ((mem_cons.mp member).resolve_left same) (cutter.next state first)
      by_cases separator : cutter.separates state first
      · rw [if_pos separator]
        exact ⟨part, mem_cons_of_mem _ found, inside⟩
      · rw [if_neg separator, cut_eq_piece_cons]
        rw [cut_eq_piece_cons] at found
        cases mem_cons.mp found with
        | inl atHead => exact ⟨_, mem_cons_self, by simp [← atHead, inside]⟩
        | inr inTail => exact ⟨part, mem_cons_of_mem _ inTail, inside⟩

/-- The cutter of a list some elements of which do not count. -/
def through (view : Other → Option Symbol) : Cutter State Other where
  separates state other := (view other).any (cutter.separates state)
  next state other := (view other).elim state (cutter.next state)

theorem through_none (seen : view other = none) (state : State) :
    (cutter.through view).separates state other = false ∧
      (cutter.through view).next state other = state := by
  simp [through, seen]

theorem through_some (seen : view other = some symbol) (state : State) :
    (cutter.through view).separates state other = cutter.separates state symbol ∧
      (cutter.through view).next state other = cutter.next state symbol := by
  simp [through, seen]

/-- Cutting before or after the elements that do not count are dropped is the
same. -/
theorem cut_through (view : Other → Option Symbol) (state : State) (list : List Other) :
    ((cutter.through view).cut state list).map (·.filterMap view) =
      cutter.cut state (list.filterMap view) := by
  induction list generalizing state with
  | nil => rfl
  | cons other rest ih =>
    rw [cut]
    cases seen : view other with
    | none =>
      obtain ⟨keeps, stays⟩ := cutter.through_none seen state
      rw [filterMap_cons_none seen, keeps, stays, ← ih state, cut_eq_piece_cons]
      simp [seen]
    | some symbol =>
      obtain ⟨cuts, moves⟩ := cutter.through_some seen state
      rw [filterMap_cons_some seen, cut, cuts, moves, ← ih]
      split
      · simp
      · rw [cut_eq_piece_cons]
        simp [seen]

/-- The cutter without memory. -/
def bySymbol (separates : Symbol → Bool) : Cutter Unit Symbol where
  separates _ := separates
  next _ _ := ()

theorem cut_bySymbol (list : List Symbol) :
    (bySymbol separates).cut () list = list.splitOnP separates := by
  induction list with
  | nil => simp [cut]
  | cons symbol rest ih =>
    rw [splitOnP_cons_eq_if_modifyHead, cut, ← ih]
    rfl

theorem piece_bySymbol (state : Unit) (list : List Symbol) :
    (bySymbol separates).piece state list = list.takeWhile fun symbol => !separates symbol := by
  induction list with
  | nil => rfl
  | cons symbol rest ih =>
    rw [piece, takeWhile_cons, ← ih]
    cases separator : separates symbol <;> simp [bySymbol, separator]

/-- A piece of a split list stands at its front or behind a separator. -/
theorem mem_splitOnP_iff {separates : Symbol → Bool} :
    part ∈ list.splitOnP separates ↔ part = list.takeWhile (fun symbol => !separates symbol) ∨
        ∃ before symbol rest, list = before ++ symbol :: rest ∧ separates symbol ∧
          part = rest.takeWhile fun symbol => !separates symbol := by
  rw [← cut_bySymbol, mem_cut_iff]
  simp only [piece_bySymbol]
  rfl

end Cutter

end Library
