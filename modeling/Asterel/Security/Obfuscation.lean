import Asterel.Library.Respelling
import Asterel.Security.Normalize
import Asterel.Utils.CharBoundary

/-!
# Obfuscated text

A text is written around a pattern by characters that are not seen, by full-width
letters, by percent escapes and by HTML entities. Each phase of the normalization runs
once, so it undoes what is written in the order of the phases: entities first, then
unseen characters and full-width letters, also inside of entities, and percent escapes
over all of that.

An entity is decoded behind the phases that drop, compose and collapse characters. It
stands for a character that these leave alone, and not where two characters would
have been read together.
-/

namespace Asterel.ExternalContent

open Library List Option Utf8
open scoped Library.Text
open Library.Text (isWhitespace)

/-! ## Ways to write a character -/

/-- Bytes as percent escapes. -/
inductive PercentForm : List UInt8 → List Char → Prop where
  | done : PercentForm [] []
  | escape {byte : UInt8} {hi lo : Char} {high low : Nat} {bytes : List UInt8} {text : List Char}
      (first : digitValue 16 hi = some high) (second : digitValue 16 lo = some low)
      (value : byte.toNat = 16 * high + low) (rest : PercentForm bytes text) :
      PercentForm (byte :: bytes) ('%' :: hi :: lo :: text)

/-- The name of a decimal or hexadecimal entity, with any number of leading zeros. -/
def EntityName (ch : Char) (name : List Char) : Prop :=
  ∃ digits, (name = '#' :: digits ∧ numeral 10 digits = some ch.toNat) ∨
    ((name = '#' :: 'x' :: digits ∨ name = '#' :: 'X' :: digits) ∧
      numeral 16 digits = some ch.toNat)

def entity (name : List Char) : List Char := '&' :: (name ++ [';'])

/-- A character as an entity. -/
def EntityForm (ch : Char) (word : List Char) : Prop :=
  ∃ name, EntityName ch name ∧ word = entity name

def fullwidthForm (ch : Char) : Char := Char.ofNat (ch.toNat + 0xFEE0)

def isAsciiAlphabetic (ch : Char) : Bool := ch.isAlpha

/-- Characters that a reader does not see, and markdown emphasis. -/
def Unseen (ch : Char) : Prop := isInvisible ch ∨ ch = '*' ∨ ch = '`'

/-- One step of obfuscation, at any position. -/
inductive Obfuscates : List Char → List Char → Prop where
  | insert (before after : List Char) {ch : Char} (unseen : Unseen ch) :
      Obfuscates (before ++ after) (before ++ ch :: after)
  | widen (before after : List Char) {ch : Char} (letter : isAsciiAlphabetic ch) :
      Obfuscates (before ++ ch :: after) (before ++ fullwidthForm ch :: after)
  | percent (before after : List Char) {ch : Char} {word : List Char}
      (form : PercentForm (String.utf8EncodeChar ch) word) :
      Obfuscates (before ++ ch :: after) (before ++ word ++ after)
  | entity (before after : List Char) {ch : Char} {word : List Char} (form : EntityForm ch word) :
      Obfuscates (before ++ ch :: after) (before ++ word ++ after)

/-- Any number of steps in any order. -/
def Obfuscated : List Char → List Char → Prop := Relation.ReflTransGen Obfuscates

section Entities

variable {char : Char} {name text : List Char}

/-- The name of an entity resolves to its character. -/
theorem EntityName.resolves (named : EntityName char name) : resolveEntity name = some char := by
  have valid : char.toNat < 0xD800 ∨ 0xDFFF < char.toNat ∧ char.toNat < 0x110000 := char.valid
  have small : char.toNat < 2 ^ 32 := by omega
  have notDecimal : ∀ (mark : Char) (digits : List Char), digitValue 10 mark = none →
      u32FromStrRadix 10 (mark :: digits) = none ∨ mark = '+' := by
    intro mark digits unread
    by_cases sign : mark = '+'
    · exact .inr sign
    · refine .inl (eq_none_iff_forall_not_mem.mpr ?_)
      intro value read
      rw [mem_def, u32FromStrRadix, head?_cons, if_neg (mt Option.some.inj sign)] at read
      obtain ⟨digit, found⟩ := numeral_digits (filter_eq_some_iff.mp read).1 mark
        mem_cons_self
      cases unread.symm.trans found
  obtain ⟨digits, ⟨rfl, decimal⟩ | ⟨rfl | rfl, hex⟩⟩ := named
  · have stripped := stripPrefix_eq_some_iff.mpr (show '#' :: digits = ['#'] ++ digits from rfl)
    rw [resolveEntity, stripped, bind_some, u32FromStrRadix_numeral decimal small]
    exact charFromU32_toNat char
  · have stripped := stripPrefix_eq_some_iff.mpr
      (show '#' :: 'x' :: digits = ['#'] ++ ('x' :: digits) from rfl)
    have behind := stripPrefix_eq_some_iff.mpr
      (show '#' :: 'x' :: digits = ['#', 'x'] ++ digits from rfl)
    have unread := (notDecimal 'x' digits (by decide)).resolve_right (by decide)
    rw [resolveEntity, stripped, bind_some, unread, behind]
    have read := u32FromStrRadix_numeral hex small
    simp only [orElse_eq_orElse, orElse_eq_or, some_or, bind_some, read]
    exact charFromU32_toNat char
  · have stripped := stripPrefix_eq_some_iff.mpr
      (show '#' :: 'X' :: digits = ['#'] ++ ('X' :: digits) from rfl)
    have other : stripPrefix ['#', 'x'] ('#' :: 'X' :: digits) = none := by
      rw [stripPrefix, if_neg]
      intro begins
      exact absurd (cons_prefix_cons.mp (cons_prefix_cons.mp begins).2).1 (by decide)
    have behind := stripPrefix_eq_some_iff.mpr
      (show '#' :: 'X' :: digits = ['#', 'X'] ++ digits from rfl)
    have unread := (notDecimal 'X' digits (by decide)).resolve_right (by decide)
    rw [resolveEntity, stripped, bind_some, unread, other, behind]
    have read := u32FromStrRadix_numeral hex small
    simp only [orElse_eq_orElse, orElse_eq_or, none_or, bind_some, read]
    exact charFromU32_toNat char

theorem EntityName.chars (named : EntityName char name) :
    ∀ other ∈ name, entityChar other = true := resolveEntity_entityChar named.resolves

/-- A short entity is decoded, and what it stands for is dropped if it is invisible. -/
theorem decodeEntitiesFrom_entity (named : EntityName char name) (short : name.length ≤ 9) :
    decodeEntitiesFrom 0 (entity name ++ text) =
      (if isInvisible char then [] else [char]) ++ decodeEntitiesFrom 0 text := by
  have begins : name ++ [';'] <+: name ++ [';'] ++ text := prefix_append _ _
  have found := entityAhead_eq_some_iff.mpr ⟨named.resolves, short, begins⟩
  have bytes : Chunker.byteLength name = name.length := by
    refine CharBoundary.byteLength_ascii ?_
    intro other member
    exact (entityChar_plain (named.chars other member)).2.2
  rw [entity, cons_append, decodeEntitiesFrom, if_neg (not_not.mpr rfl), found]
  have behind : (name ++ [';'] ++ text).drop (name.length + 1) = text :=
    drop_left' (by rw [length_append, length_singleton])
  simp only
  rw [decodeEntitiesFrom_skip, bytes, behind]

end Entities

/-! ## Entities behind the phases that read characters together -/

/-- Two characters next to each other that a phase before the entities turns into one. -/
def ReadTogether (prev next : Char) : Prop :=
  (isWhitespace prev ∧ isWhitespace next) ∨ (composedPair prev next).isSome

/-- The second text is the first one with characters written as entities, and with
entities of invisible characters put in. `image` is what the char-level pass leaves of a
character, and `prev` is the last one that it has left. An entity stands only where its
character and the ones beside it are not read together. -/
inductive EntityCoded (image : Char → Option Char) (joins : Char → Char → Prop) :
    Option Char → List Char → List Char → Prop where
  | done {prev : Option Char} : EntityCoded image joins prev [] []
  | kept {prev : Option Char} (char : Char) {plain text : List Char}
      (rest : EntityCoded image joins ((image char).or prev) plain text) :
      EntityCoded image joins prev (char :: plain) (char :: text)
  | coded {prev : Option Char} {char : Char} {name plain text : List Char}
      (named : EntityName char name) (short : name.length ≤ 9)
      (stays : normalizeChar char = some char) (space : isWhitespace char → char = ' ')
      (before : ∀ other ∈ prev, ¬ joins other char)
      (behind : ∀ other ∈ (plain.filterMap image).head?, ¬ joins char other)
      (rest : EntityCoded image joins (some char) plain text) :
      EntityCoded image joins prev (char :: plain) (entity name ++ text)
  | unseen {prev : Option Char} {char : Char} {name plain text : List Char}
      (named : EntityName char name) (short : name.length ≤ 9) (invisible : isInvisible char)
      (between : ∀ other ∈ prev, ∀ next ∈ (plain.filterMap image).head?, ¬ joins other next)
      (rest : EntityCoded image joins prev plain text) :
      EntityCoded image joins prev plain (entity name ++ text)

section Phases

variable {other : Char} {image : Char → Option Char} {prev' : Option Char}

theorem EntityCoded.refl {joins : Char → Char → Prop}
    (prev : Option Char) (text : List Char) : EntityCoded image joins prev text text := by
  induction text generalizing prev with
  | nil => exact .done
  | cons char text ih => exact .kept char (ih _)

variable {char : Char} {name plain text : List Char} {prev : Option Char}
  {joins : Char → Char → Prop}

theorem entity_plain (named : EntityName char name) (member : other ∈ entity name) :
    normalizeChar other = some other ∧ isWhitespace other = false ∧ other.toNat < 128 := by
  rw [entity, mem_cons, mem_append, mem_singleton] at member
  rcases member with rfl | inside | rfl
  · decide
  · have only := named.chars other inside
    exact ⟨(entityChar_plain only).1, (entityChar_plain only).2.1, entityChar_ascii only⟩
  · decide

/-- Phase 2 leaves entities as they are. -/
theorem normalizeChars_entity (named : EntityName char name) :
    normalizeChars (entity name ++ text) = entity name ++ normalizeChars text := by
  have same : ∀ other ∈ entity name, normalizeChar other = some other :=
    fun other member => (entity_plain named member).1
  rw [normalizeChars, filterMap_append, filterMap_congr same, filterMap_some]
  rfl

theorem EntityCoded.byChar (coded : EntityCoded normalizeChar joins prev plain text) :
    EntityCoded some joins prev (normalizeChars plain) (normalizeChars text) := by
  induction coded with
  | done => exact .done
  | kept char rest ih =>
    rw [normalizeChars, normalizeChars] at *
    cases left : normalizeChar char with
    | none =>
      rw [filterMap_cons_none left, filterMap_cons_none left]
      rwa [left] at ih
    | some image =>
      rw [filterMap_cons_some left, filterMap_cons_some left]
      rw [left] at ih
      exact .kept image ih
  | coded named short stays space before behind rest ih =>
    rw [normalizeChars_entity named, normalizeChars, filterMap_cons_some stays]
    refine .coded named short stays space before ?_ ih
    rwa [filterMap_some]
  | unseen named short invisible between rest ih =>
    rw [normalizeChars_entity named]
    refine .unseen named short invisible ?_ ih
    rwa [filterMap_some]

/-- Two white space characters next to each other. -/
def BothBlank (prev next : Char) : Prop := isWhitespace prev ∧ isWhitespace next

/-- Whether the character before was white space. -/
def blank (prev : Option Char) : Bool := prev.any isWhitespace

theorem not_bothBlank (apart : ∀ before ∈ prev, ¬ ReadTogether before other)
    (same : blank prev' = blank prev) :
    ∀ before ∈ prev', ¬ BothBlank before other := by
  rintro before member ⟨first, second⟩
  have before' : blank prev' = true := by
    rw [blank, mem_def.mp member]
    exact first
  rw [same] at before'
  cases prev with
  | none => cases before'
  | some char => exact apart char rfl (.inl ⟨before', second⟩)

/-- A text begins with an entity or as it did. -/
theorem EntityCoded.head
    (coded : EntityCoded image joins prev plain text) (head : other ∈ text.head?) :
    other = '&' ∨ other ∈ plain.head? := by
  cases coded with
  | done => exact .inr head
  | kept _ _ => exact .inr head
  | coded _ _ _ _ _ _ _ => exact .inl (Option.some.inj head).symm
  | unseen _ _ _ _ _ => exact .inl (Option.some.inj head).symm

/-- Phase 3 composes nothing across an entity, and nothing that one stands between. -/
theorem EntityCoded.compose (coded : EntityCoded some ReadTogether prev plain text)
    (same : blank prev' = blank prev) :
    EntityCoded some BothBlank prev' (composeKatakanaVoicing plain)
      (composeKatakanaVoicing text) := by
  generalize bound : text.length = length
  induction length using Nat.strong_induction_on generalizing plain text prev prev' with
  | _ length ih =>
    cases coded with
    | done => exact .done
    | @kept _ char plain text rest =>
      by_cases pair : ∃ next ∈ plain.head?, ∃ composed, composedPair char next = some composed
      · obtain ⟨next, head, composed, pair⟩ := pair
        obtain ⟨others, rfl⟩ := head?_eq_some_iff.mp head
        have joined : ReadTogether char next := .inr (by rw [pair]; rfl)
        cases rest with
        | @kept _ _ _ text rest =>
          rw [composeKatakanaVoicing_pair pair, composeKatakanaVoicing_pair pair]
          refine .kept composed (ih text.length ?_ rest ?_ rfl)
          · rw [← bound, length_cons, length_cons]
            omega
          · obtain ⟨_, mark, letter⟩ := composedPair_eq_some pair
            exact letter.trans mark.symm
        | coded _ _ _ _ before => exact absurd joined (before char rfl)
        | unseen _ _ _ between => exact absurd joined (between char rfl next rfl)
      · have apart : ∀ next ∈ plain.head?, composedPair char next = none := by
          intro next head
          exact eq_none_iff_forall_not_mem.mpr fun composed found =>
            pair ⟨next, head, composed, found⟩
        have apart' : ∀ next ∈ text.head?, composedPair char next = none := by
          intro next head
          rcases rest.head head with rfl | before
          · rfl
          · exact apart next before
        rw [composeKatakanaVoicing_apart apart, composeKatakanaVoicing_apart apart']
        refine .kept char (ih text.length ?_ rest rfl rfl)
        rw [← bound, length_cons]
        omega
    | @coded _ char name plain text named short stays space before behind rest =>
      rw [filterMap_some] at behind
      have apart : ∀ next ∈ plain.head?, composedPair char next = none := by
        intro next head
        refine eq_none_iff_forall_not_mem.mpr fun composed found => behind next head ?_
        exact .inr (by rw [mem_def.mp found]; rfl)
      have ascii : ∀ other ∈ entity name, other.toNat < 128 :=
        fun other member => (entity_plain named member).2.2
      rw [composeKatakanaVoicing_apart apart, composeKatakanaVoicing_ascii ascii]
      refine .coded named short stays space (not_bothBlank before same) ?_
        (ih text.length ?_ rest rfl rfl)
      · rintro next head ⟨first, second⟩
        rw [filterMap_some] at head
        exact behind next (composeKatakanaVoicing_head head second) (.inl ⟨first, second⟩)
      · rw [← bound, length_append, entity, length_cons]
        omega
    | @unseen _ char name plain text named short invisible between rest =>
      rw [filterMap_some] at between
      have ascii : ∀ other ∈ entity name, other.toNat < 128 :=
        fun other member => (entity_plain named member).2.2
      rw [composeKatakanaVoicing_ascii ascii]
      refine .unseen named short invisible ?_ (ih text.length ?_ rest same rfl)
      · intro before member next head both
        rw [filterMap_some] at head
        refine not_bothBlank (fun other otherMember => ?_) same before member both
        exact between other otherMember next (composeKatakanaVoicing_head head both.2)
      · rw [← bound, length_append, entity, length_cons]
        omega

/-- Phase 4 collapses no white space across an entity. -/
theorem EntityCoded.collapse (coded : EntityCoded some BothBlank prev plain text)
    (prev' : Option Char) : EntityCoded some (fun _ _ => False) prev'
      (collapseFrom (blank prev) plain) (collapseFrom (blank prev) text) := by
  have across : ∀ {char : Char} {name : List Char} (flag : Bool) (rest : List Char),
      EntityName char name →
        collapseFrom flag (entity name ++ rest) = entity name ++ collapseFrom false rest := by
    intro char name flag rest named
    exact collapseFrom_word nofun fun other member => (entity_plain named member).2.1
  have solid : ∀ {plain text : List Char} {prev : Option Char},
      EntityCoded some BothBlank prev plain text →
        (∀ next ∈ plain.head?, isWhitespace next = false) →
          ∀ next ∈ text.head?, isWhitespace next = false := by
    intro plain text prev coded solid next head
    rcases coded.head head with rfl | before
    · rfl
    · exact solid next before
  induction coded generalizing prev' with
  | done =>
    rw [collapseFrom]
    exact .done
  | @kept prev char plain text rest ih =>
    rw [collapseFrom, collapseFrom]
    cases white : isWhitespace char with
    | false =>
      have later := ih (some char)
      rw [some_or, blank, any_some, white] at later
      exact .kept char later
    | true =>
      have later := ih
      rw [some_or, blank, any_some, white] at later
      cases blank prev with
      | false => exact .kept ' ' (later _)
      | true => exact later prev'
  | @coded prev char name plain text named short stays space before behind rest
      ih =>
    rw [filterMap_some] at behind
    rw [across _ _ named, collapseFrom]
    have later := ih (some char)
    rw [blank, any_some] at later
    cases white : isWhitespace char with
    | false =>
      rw [white] at later
      exact .coded named short stays space (fun _ _ => not_false) (fun _ _ => not_false) later
    | true =>
      have first : blank prev = false := by
        cases prev with
        | none => rfl
        | some other => exact eq_false_of_ne_true fun left => before other rfl ⟨left, white⟩
      have last : ∀ next ∈ plain.head?, isWhitespace next = false :=
        fun next head => eq_false_of_ne_true fun right => behind next head ⟨white, right⟩
      rw [white, collapseFrom_flag (solid rest last) true false] at later
      rw [first, ← space white]
      exact .coded named short stays space (fun _ _ => not_false) (fun _ _ => not_false) later
  | @unseen prev char name plain text named short invisible between rest ih =>
    rw [filterMap_some] at between
    rw [across _ _ named]
    have later := ih prev'
    cases behind : blank prev with
    | false =>
      rw [behind] at later
      exact .unseen named short invisible (fun _ _ _ _ => not_false) later
    | true =>
      obtain ⟨other, rfl, white⟩ := (Option.any_eq_true _ _).mp behind
      have last : ∀ next ∈ plain.head?, isWhitespace next = false :=
        fun next head => eq_false_of_ne_true fun right => between other rfl next head ⟨white, right⟩
      rw [behind, collapseFrom_flag (solid rest last) true false] at later
      exact .unseen named short invisible (fun _ _ _ _ => not_false) later

theorem EntityCoded.respelled (coded : EntityCoded image joins prev plain text) :
    Respelled EntityForm (fun word => ∃ ch, isInvisible ch ∧ EntityForm ch word) plain text := by
  induction coded with
  | done => exact .done
  | kept char _ ih => exact .kept char ih
  | coded named _ _ _ _ _ _ ih =>
    exact .spelled ⟨_, named, rfl⟩ ih
  | unseen named _ invisible _ _ ih =>
    exact .inserted ⟨_, invisible, _, named, rfl⟩ ih

/-- No ampersand in the text begins an entity. -/
def EntityFree (text : List Char) : Prop :=
  ∀ after, '&' :: after <:+ text → entityAhead after = none

theorem entityFree_of_absent (absent : '&' ∉ text) : EntityFree text :=
  fun _ suffix => absurd (suffix.mem mem_cons_self) absent

theorem EntityForm.foreign {word : List Char} {within : Char → Prop} (outside : ¬ within '&')
    (form : EntityForm char word) : Foreign within word := by
  obtain ⟨name, _, rfl⟩ := form
  exact ⟨'&', rfl, outside⟩

/-- Phase 5 reads the entities back, and no others. -/
theorem EntityCoded.decode (coded : EntityCoded some joins prev plain text)
    (free : EntityFree plain) : decodeEntitiesFrom 0 text = plain := by
  induction coded with
  | done => rfl
  | @kept prev char plain text rest ih =>
    have later := ih fun after suffix =>
      free after (suffix.trans (suffix_cons _ _))
    rw [decodeEntitiesFrom]
    split
    · rw [later]
    · rename_i mark
      rw [not_not] at mark
      have unread : entityAhead text = none := by
        refine eq_none_iff_forall_not_mem.mpr ?_
        rintro ⟨name, decoded⟩ found
        obtain ⟨resolved, short, begins⟩ := entityAhead_eq_some_iff.mp found
        have only : ∀ other ∈ name ++ [';'], other ≠ '&' := by
          refine forall_mem_append.mpr ⟨?_, by decide⟩
          exact fun other member =>
            (entityChar_ne (resolveEntity_entityChar resolved other member)).2.1
        have before := rest.respelled.prefix_of_prefix
          (fun _ _ form => form.foreign (not_not.mpr rfl))
          (by rintro _ ⟨_, _, form⟩; exact form.foreign (not_not.mpr rfl)) only begins
        have absent := free plain (mark ▸ suffix_refl _)
        cases absent.symm.trans (entityAhead_eq_some_iff.mpr ⟨resolved, short, before⟩)
      rw [unread, mark, later]
  | @coded prev char name plain text named short stays space before behind rest
      ih =>
    rw [decodeEntitiesFrom_entity named short, normalizeChar_visible stays,
      ih fun after suffix => free after (suffix.trans (suffix_cons _ _))]
    rfl
  | @unseen prev char name plain text named short invisible between rest ih =>
    rw [decodeEntitiesFrom_entity named short, if_pos invisible, ih free]
    rfl

/-- Phases 2 to 5 read the entities back. -/
theorem EntityCoded.read (coded : EntityCoded normalizeChar ReadTogether none plain text)
    (free : EntityFree (collapseWhitespace (composeKatakanaVoicing (normalizeChars plain)))) :
    decodeHtmlEntities (collapseWhitespace (composeKatakanaVoicing (normalizeChars text))) =
      decodeHtmlEntities (collapseWhitespace (composeKatakanaVoicing (normalizeChars plain))) := by
  have composed := coded.byChar.compose (rfl : blank none = blank none)
  have itself := (@EntityCoded.refl some BothBlank none _).decode free
  rw [decodeHtmlEntities_eq, decodeHtmlEntities_eq, itself]
  exact (composed.collapse none).decode free

end Phases

/-! ## Unseen characters and full-width letters -/

/-- The second text is the first one with letters in full-width form and with unseen
characters put in. -/
def Adorned : List Char → List Char → Prop :=
  Respelled (fun ch word => isAsciiAlphabetic ch ∧ word = [fullwidthForm ch])
    fun word => ∃ ch, Unseen ch ∧ word = [ch]

section Adorning

variable {ch : Char} {plain text : List Char}

theorem fullwidthForm_toNat (letter : isAsciiAlphabetic ch) :
    (fullwidthForm ch).toNat = ch.toNat + 0xFEE0 ∧
      normalizeChar (fullwidthForm ch) = normalizeChar ch := by
  have small : ∀ code < 128, isAsciiAlphabetic (Char.ofNat code) = true →
      (fullwidthForm (Char.ofNat code)).toNat = (Char.ofNat code).toNat + 0xFEE0 ∧
        normalizeChar (fullwidthForm (Char.ofNat code)) = normalizeChar (Char.ofNat code) := by
    decide +kernel
  have word : entityChar ch = true := by
    rw [isAsciiAlphabetic] at letter
    rw [entityChar, Char.isAlphanum, letter]
    rfl
  have same := small ch.toNat (entityChar_ascii word)
  rw [Char.ofNat_toNat] at same
  exact same letter

theorem Unseen.dropped (unseen : Unseen ch) : normalizeChar ch = none := by
  rcases unseen with invisible | rfl | rfl
  · rw [normalizeChar, invisible]
    rfl
  · decide
  · decide

/-- Phase 2 takes the adornment off. -/
theorem Adorned.normalizeChars_eq (adorned : Adorned plain text) :
    normalizeChars text = normalizeChars plain := by
  induction adorned with
  | done => rfl
  | kept ch rest ih =>
    rw [normalizeChars, normalizeChars, filterMap_cons, filterMap_cons]
    rw [normalizeChars, normalizeChars] at ih
    rw [ih]
  | @spelled ch word plain text spelling rest ih =>
    obtain ⟨letter, rfl⟩ := spelling
    rw [normalizeChars, normalizeChars] at ih
    rw [normalizeChars, normalizeChars, singleton_append, filterMap_cons,
      filterMap_cons, (fullwidthForm_toNat letter).2, ih]
  | @inserted word plain text unsaid rest ih =>
    obtain ⟨ch, unseen, rfl⟩ := unsaid
    rw [normalizeChars, singleton_append, filterMap_cons_none unseen.dropped]
    exact ih

end Adorning

/-! ## Percent escapes -/

def isHex (ch : Char) : Prop := (digitValue 16 ch).isSome

/-- No percent sign in the text begins an escape. -/
def EscapeFree (text : List Char) : Prop :=
  ∀ hi lo, isHex hi → isHex lo → ¬ ['%', hi, lo] <:+: text

/-- The second text is the first one with characters written as percent escapes. -/
def PercentCoded : List Char → List Char → Prop :=
  Respelled (fun ch word => PercentForm (String.utf8EncodeChar ch) word) fun _ => False

/-- No percent sign stands in a text with characters beyond ASCII. -/
def Unmixed (text : List Char) : Prop := '%' ∈ text → ∀ ch ∈ text, ch.toNat < 128

section Escapes

variable {ch hi lo : Char} {plain text word : List Char}
variable {bytes : List UInt8} {byte : UInt8}

theorem isHex.entityChar (hex : isHex ch) : entityChar ch = true := by
  obtain ⟨digit, found⟩ := isSome_iff_exists.mp hex
  exact digitValue_entityChar found

theorem not_isHex_ampersand : ¬ isHex '&' := fun hex => by cases hex.entityChar

theorem not_isHex_percent : ¬ isHex '%' := fun hex => by cases hex.entityChar

theorem isHex_pair (first : isHex hi) (second : isHex lo) : ∀ ch ∈ [hi, lo], isHex ch :=
  forall_mem_cons.mpr ⟨first, forall_mem_singleton.mpr second⟩

/-- Entities begin no escape. -/
theorem EntityCoded.escapeFree {image : Char → Option Char} {joins : Char → Char → Prop}
    {prev : Option Char} (coded : EntityCoded image joins prev plain text)
    (free : EscapeFree plain) : EscapeFree text := by
  intro hi lo first second occurs
  have outside : ∀ {ch word}, EntityForm ch word → '%' ∉ word ∧ Foreign isHex word := by
    intro ch word form
    refine ⟨?_, form.foreign not_isHex_ampersand⟩
    obtain ⟨name, named, rfl⟩ := form
    rw [entity, mem_cons, mem_append, mem_singleton]
    rintro (mark | inside | mark)
    · cases mark
    · exact (entityChar_ne (named.chars '%' inside)).2.2 rfl
    · cases mark
  exact free hi lo first second (coded.respelled.infix_of_infix (fun _ _ => outside)
    (fun _ ⟨_, _, form⟩ => outside form) (isHex_pair first second) occurs)

theorem Unseen.foreign (unseen : Unseen ch) : '%' ∉ [ch] ∧ Foreign isHex [ch] := by
  have strange : ch ≠ '%' ∧ entityChar ch = false := by
    rcases unseen with invisible | rfl | rfl
    · have large : ¬ ch.toNat < 128 := by
        rw [isInvisible] at invisible
        grind
      refine ⟨?_, eq_false_of_ne_true fun named => large (entityChar_ascii named)⟩
      rintro rfl
      exact large (by decide)
    · decide
    · decide
  refine ⟨fun member => strange.1 (mem_singleton.mp member).symm, ch, rfl, fun hex => ?_⟩
  cases strange.2.symm.trans hex.entityChar

theorem fullwidthForm_foreign (letter : isAsciiAlphabetic ch) :
    '%' ∉ [fullwidthForm ch] ∧ Foreign isHex [fullwidthForm ch] := by
  have code := (fullwidthForm_toNat letter).1
  refine ⟨fun member => ?_, _, rfl, fun hex => ?_⟩
  · rw [← mem_singleton.mp member] at code
    have percent : '%'.toNat = 37 := rfl
    omega
  · have small := entityChar_ascii hex.entityChar
    omega

theorem Adorned.escapeFree (adorned : Adorned plain text) (free : EscapeFree plain) :
    EscapeFree text := by
  intro hi lo first second occurs
  refine free hi lo first second (adorned.infix_of_infix ?_ ?_ (isHex_pair first second) occurs)
  · rintro ch _ ⟨letter, rfl⟩
    exact fullwidthForm_foreign letter
  · rintro _ ⟨ch, unseen, rfl⟩
    exact unseen.foreign

theorem utf8EncodeChar_ascii (ascii : ch.toNat < 128) :
    String.utf8EncodeChar ch = [UInt8.ofNat ch.toNat] := by
  have code : ch.toNat = ch.val.toNat := rfl
  rcases encode_cases ch with ⟨_, same⟩ | ⟨above, _⟩ | ⟨above, _⟩ | ⟨above, _⟩
  · exact same
  · omega
  · omega
  · omega

theorem encode_ascii (ascii : ch.toNat < 128) :
    encode (ch :: text) = UInt8.ofNat ch.toNat :: encode text := by
  rw [encode_cons, utf8EncodeChar_ascii ascii]
  rfl

theorem hexDigit_ascii (ascii : ch.toNat < 128) :
    hexDigit (UInt8.ofNat ch.toNat) = (digitValue 16 ch).map UInt8.ofNat := by
  have small : ∀ code < 128, hexDigit (UInt8.ofNat (Char.ofNat code).toNat) =
      (digitValue 16 (Char.ofNat code)).map UInt8.ofNat := by
    decide +kernel
  have same := small ch.toNat ascii
  rwa [Char.ofNat_toNat] at same

theorem digitValue_lt {radix value : Nat} (found : digitValue radix ch = some value) :
    value < radix := by
  obtain ⟨small, same⟩ := ite_none_right_eq_some.mp found
  rwa [← Option.some.inj same]

theorem hexPair_digits {high low : Nat} (first : digitValue 16 hi = some high)
    (second : digitValue 16 lo = some low) (value : byte.toNat = 16 * high + low) :
    hexPair (UInt8.ofNat hi.toNat) (UInt8.ofNat lo.toNat) = some byte := by
  have joined : ∀ high < 16, ∀ low < 16,
      UInt8.ofNat high <<< 4 ||| UInt8.ofNat low = UInt8.ofNat (16 * high + low) := by decide +kernel
  rw [hexPair, hexDigit_ascii (entityChar_ascii (digitValue_entityChar first)),
    hexDigit_ascii (entityChar_ascii (digitValue_entityChar second)), first, second]
  rw [map_some, map_some, bind_some, map_some,
    joined high (digitValue_lt first) low (digitValue_lt second), ← value, UInt8.ofNat_toNat]

/-- The bytes of an escape are pending until a character that is none. -/
theorem decodePercentFrom_form (form : PercentForm bytes word)
    (pending : List UInt8) : decodePercentFrom pending 0 (encode (word ++ text)) =
      decodePercentFrom (pending ++ bytes) 0 (encode text) := by
  induction form generalizing pending with
  | done => rw [nil_append, append_nil]
  | @escape byte hi lo high low bytes word first second value rest ih =>
    have pair := hexPair_digits first second value
    rw [cons_append, cons_append, cons_append, encode_ascii (by decide),
      encode_ascii (entityChar_ascii (digitValue_entityChar first)),
      encode_ascii (entityChar_ascii (digitValue_entityChar second)), decodePercentFrom]
    have found : escapeAt (UInt8.ofNat '%'.toNat) (UInt8.ofNat hi.toNat :: UInt8.ofNat lo.toNat ::
        encode (word ++ text)) = some byte := by
      rw [escapeAt, if_pos (by decide), pair]
    rw [found]
    simp only
    rw [decodePercentFrom, decodePercentFrom, ih, append_assoc]
    rfl

/-- A byte that begins an escape is the percent sign in front of two hexadecimal digits. -/
theorem escapeAt_eq_some (ascii : ∀ other ∈ ch :: text, other.toNat < 128)
    (found : escapeAt (UInt8.ofNat ch.toNat) (encode text) = some byte) :
    ch = '%' ∧ ∃ hi lo, isHex hi ∧ isHex lo ∧ [hi, lo] <+: text := by
  obtain ⟨small, others⟩ := forall_mem_cons.mp ascii
  match text with
  | [] => cases found
  | [hi] =>
    rw [encode_ascii (others hi mem_cons_self)] at found
    cases found
  | hi :: lo :: rest =>
    have first := others hi mem_cons_self
    have second := others lo (mem_cons_of_mem _ mem_cons_self)
    rw [encode_ascii first, encode_ascii second, escapeAt, hexPair, hexDigit_ascii first,
      hexDigit_ascii second] at found
    split at found
    · rename_i mark
      obtain ⟨high, highEq, lower⟩ := bind_eq_some_iff.mp found
      obtain ⟨low, lowEq, _⟩ := map_eq_some_iff.mp lower
      obtain ⟨highValue, highRead, _⟩ := map_eq_some_iff.mp highEq
      obtain ⟨lowValue, lowRead, _⟩ := map_eq_some_iff.mp lowEq
      have code : ch.toNat = '%'.toNat := by
        have byte := congrArg UInt8.toNat mark
        rwa [toNat_ofNat (by omega)] at byte
      refine ⟨?_, hi, lo, ?_, ?_, ⟨rest, rfl⟩⟩
      · rw [← Char.ofNat_toNat ch, code]
        rfl
      · exact isSome_iff_exists.mpr ⟨highValue, highRead⟩
      · exact isSome_iff_exists.mpr ⟨lowValue, lowRead⟩
    · cases found

theorem PercentForm.begins (form : PercentForm bytes word)
    (nonempty : bytes ≠ []) : ∃ rest, word = '%' :: rest := by
  cases form with
  | done => exact absurd rfl nonempty
  | escape _ _ _ _ => exact ⟨_, rfl⟩

/-- In an ASCII text phase 1 reads the escapes back, and no others. -/
theorem PercentCoded.decodeFrom (coded : PercentCoded plain text)
    (ascii : ∀ ch ∈ text, ch.toNat < 128) (free : EscapeFree plain) (front : List Char) :
    decodePercentFrom (encode front) 0 (encode text) = front ++ plain := by
  induction coded generalizing front with
  | done =>
    rw [append_nil]
    exact decodeLossy_encode front
  | @kept ch plain text rest ih =>
    obtain ⟨small, others⟩ := forall_mem_cons.mp ascii
    have later := ih others
      (fun hi lo first second occurs => free hi lo first second (infix_cons occurs)) []
    have unread : escapeAt (UInt8.ofNat ch.toNat) (encode text) = none := by
      refine eq_none_iff_forall_not_mem.mpr ?_
      intro byte found
      obtain ⟨rfl, hi, lo, first, second, begins⟩ := escapeAt_eq_some ascii found
      have percent : ∀ bytes word, PercentForm bytes word → bytes ≠ [] → Foreign isHex word := by
        intro bytes word form nonempty
        cases form with
        | done => exact absurd rfl nonempty
        | escape _ _ _ _ => exact ⟨'%', rfl, not_isHex_percent⟩
      have before := rest.prefix_of_prefix
        (fun ch word form => percent _ word form (String.utf8EncodeChar_ne_nil))
        (fun _ never => never.elim) (isHex_pair first second) begins
      exact free hi lo first second (cons_prefix_cons.mpr ⟨rfl, before⟩).isInfix
    have byte : ¬ 0x7F < UInt8.ofNat ch.toNat := by
      rw [UInt8.lt_iff_toNat_lt, toNat_ofNat (by omega)]
      exact Nat.not_lt.mpr (Nat.le_of_lt_succ small)
    have same : Char.ofNat (UInt8.ofNat ch.toNat).toNat = ch := by
      rw [toNat_ofNat (by omega), Char.ofNat_toNat]
    rw [encode_ascii small, decodePercentFrom, unread]
    simp only
    rw [if_neg byte, decodeLossy_encode, same]
    exact congrArg (front ++ ch :: ·) later
  | @spelled ch word plain text spelling rest ih =>
    have later := ih (forall_mem_append.mp ascii).2
      (fun hi lo first second occurs => free hi lo first second (infix_cons occurs))
      (front ++ [ch])
    rw [decodePercentFrom_form spelling]
    rw [encode, flatMap_append, flatMap_singleton, append_assoc] at later
    exact later
  | inserted never _ _ => exact never.elim

/-- A text without a percent sign has no escape in it. -/
theorem PercentCoded.eq_of_absent (coded : PercentCoded plain text) (absent : '%' ∉ text) :
    text = plain := by
  induction coded with
  | done => rfl
  | kept ch _ ih =>
    rw [ih (not_mem_of_not_mem_cons absent)]
  | @spelled ch word plain text spelling rest ih =>
    obtain ⟨rest, rfl⟩ := spelling.begins String.utf8EncodeChar_ne_nil
    exact absurd mem_cons_self absent
  | inserted never _ _ => exact never.elim

/-- Phase 1 reads the escapes of an unmixed text back. -/
theorem PercentCoded.decode (coded : PercentCoded plain text) (unmixed : Unmixed text)
    (free : EscapeFree plain) : decodePercentEncoding text = plain := by
  rw [decodePercentEncoding]
  split
  · exact coded.eq_of_absent ‹_›
  · rename_i present
    exact coded.decodeFrom (unmixed (not_not.mp present)) free []

/-- A text without a percent sign has no escape of its own. -/
theorem escapeFree_of_absent (absent : '%' ∉ text) : EscapeFree text := by
  intro hi lo _ _ occurs
  exact absent (occurs.mem mem_cons_self)

end Escapes

/-! ## All layers -/

/-- The second text is the first one obfuscated in the order of the phases. -/
def Layered (plain text : List Char) : Prop :=
  ∃ coded adorned, EntityCoded normalizeChar ReadTogether none plain coded ∧
    Adorned coded adorned ∧ PercentCoded adorned text

section Layers

variable {plain text : List Char}

theorem Layered.obfuscated (layered : Layered plain text) : Obfuscated plain text := by
  obtain ⟨coded, adorned, entities, dressing, escapes⟩ := layered
  have first : Obfuscated plain coded := by
    refine entities.respelled.steps ?_ ?_ []
    · intro before after ch word form
      exact .single (.entity before after form)
    · rintro before after word ⟨ch, invisible, form⟩
      exact .tail (.single (.insert before after (.inl invisible))) (.entity before after form)
  have second : Obfuscated coded adorned := by
    refine dressing.steps ?_ ?_ []
    · rintro before after ch _ ⟨letter, rfl⟩
      rw [append_assoc]
      exact .single (.widen before after letter)
    · rintro before after _ ⟨ch, unseen, rfl⟩
      rw [append_assoc]
      exact .single (.insert before after unseen)
  have third : Obfuscated adorned text := by
    refine escapes.steps ?_ ?_ []
    · intro before after ch word form
      exact .single (.percent before after form)
    · exact fun _ _ _ never => never.elim
  exact (first.trans second).trans third

/-- What a text writes in the order of the phases is read back, if it has no percent
escapes and no entities of its own. -/
theorem Layered.read (layered : Layered plain text) (escapes : EscapeFree plain)
    (entities : EntityFree (collapseWhitespace (composeKatakanaVoicing (normalizeChars plain))))
    (plainUnmixed : Unmixed plain) (textUnmixed : Unmixed text) :
    normalizeDetection text = normalizeDetection plain := by
  obtain ⟨coded, adorned, first, second, third⟩ := layered
  have readText := third.decode textUnmixed (second.escapeFree (first.escapeFree escapes))
  have readPlain := PercentCoded.decode (.refl plain) plainUnmixed escapes
  rw [normalizeDetection, normalizeDetection, readText, readPlain, second.normalizeChars_eq]
  exact congrArg (fun buf => toAsciiLowercase (normalizeLeetspeak buf)) (first.read entities)

/-- Two texts that write the same text in the order of the phases are normalized to the
same; one of them may be the text itself. -/
theorem same_detection {other : List Char} (layered : Layered plain text)
    (layered' : Layered plain other) (escapes : EscapeFree plain)
    (entities : EntityFree (collapseWhitespace (composeKatakanaVoicing (normalizeChars plain))))
    (plainUnmixed : Unmixed plain) (textUnmixed : Unmixed text) (otherUnmixed : Unmixed other) :
    normalizeDetection other = normalizeDetection text :=
  (layered'.read escapes entities plainUnmixed otherUnmixed).trans
    (layered.read escapes entities plainUnmixed textUnmixed).symm

/-- A letter as an entity with a character inside that is escaped, and a full-width letter. -/
theorem same_detection_entity :
    normalizeDetection "&#%2A97;%EF%BD%82".toList = normalizeDetection "ab".toList := by
  have entities : EntityCoded normalizeChar ReadTogether none "ab".toList "&#97;b".toList := by
    refine @EntityCoded.coded _ _ none 'a' ['#', '9', '7'] ['b'] ['b'] ?_ (by decide) (by decide)
      (by decide) nofun ?_ (EntityCoded.refl _ _)
    · exact ⟨['9', '7'], .inl ⟨rfl, by decide⟩⟩
    · rintro other head (⟨white, _⟩ | pair)
      · exact absurd white (by decide)
      · rw [composedPair_ascii (by decide)] at pair
        cases pair
  have dressing : Adorned "&#97;b".toList "&#*97;ｂ".toList := by
    refine .kept _ (.kept _ (@Respelled.inserted _ _ _ ['*'] _ _ ⟨'*', .inr (.inl rfl), rfl⟩ ?_))
    refine .kept _ (.kept _ (.kept _ ?_))
    exact @Respelled.spelled _ _ _ 'b' ['ｂ'] [] [] ⟨by decide, by decide⟩ .done
  have escapes : PercentCoded "&#*97;ｂ".toList "&#%2A97;%EF%BD%82".toList := by
    refine .kept _ (.kept _ (@Respelled.spelled _ _ _ '*' ['%', '2', 'A'] _ _ ?_ ?_))
    · exact @PercentForm.escape 0x2A '2' 'A' 2 10 [] [] (by decide) (by decide) (by decide) .done
    · refine .kept _ (.kept _ (.kept _ ?_))
      refine @Respelled.spelled _ _ _ 'ｂ' "%EF%BD%82".toList [] [] ?_ .done
      refine @PercentForm.escape 0xEF 'E' 'F' 14 15 _ _ (by decide) (by decide) (by decide) ?_
      refine @PercentForm.escape 0xBD 'B' 'D' 11 13 _ _ (by decide) (by decide) (by decide) ?_
      exact @PercentForm.escape 0x82 '8' '2' 8 2 [] [] (by decide) (by decide) (by decide) .done
  refine same_detection ⟨_, _, EntityCoded.refl _ _, .refl _, .refl _⟩
    ⟨_, _, entities, dressing, escapes⟩ ?_ ?_ ?_ ?_ ?_
  · exact escapeFree_of_absent (by decide)
  · exact entityFree_of_absent (by decide)
  · exact fun percent => absurd percent (by decide)
  · exact fun percent => absurd percent (by decide)
  · exact fun _ => by decide

/-- Texts that are obfuscated in another order, or by an entity with a long name, are seen
as they are: leading zeros, a full-width letter as an entity, an unseen character inside of
an escape, an escaped escape, and white space that would have been collapsed. -/
theorem detection_changes :
    (Obfuscated "a".toList "&#0000000097;".toList ∧
        normalizeDetection "&#0000000097;".toList ≠ normalizeDetection "a".toList) ∧
      (Obfuscated "a".toList "&#65345;".toList ∧
        normalizeDetection "&#65345;".toList ≠ normalizeDetection "a".toList) ∧
      (Obfuscated "a".toList "%*61".toList ∧
        normalizeDetection "%*61".toList ≠ normalizeDetection "a".toList) ∧
      (Obfuscated "a".toList "%2561".toList ∧
        normalizeDetection "%2561".toList ≠ normalizeDetection "a".toList) ∧
      (Obfuscated "a  b".toList "a &#32;b".toList ∧
        normalizeDetection "a &#32;b".toList ≠ normalizeDetection "a  b".toList) := by
  have escaped : Obfuscated "a".toList "%61".toList := .single (@Obfuscates.percent [] [] 'a' _
    (@PercentForm.escape 0x61 '6' '1' 6 1 [] [] (by decide) (by decide) (by decide) .done))
  refine ⟨⟨?_, by decide⟩, ⟨?_, by decide⟩, ⟨?_, by decide⟩, ⟨?_, by decide⟩, ⟨?_, by decide⟩⟩
  · exact .single (@Obfuscates.entity [] [] 'a' _
      ⟨"#0000000097".toList, ⟨"0000000097".toList, .inl ⟨rfl, by decide⟩⟩, rfl⟩)
  · exact .tail (.single (@Obfuscates.widen [] [] 'a' (by decide))) (@Obfuscates.entity [] [] 'ａ' _
      ⟨"#65345".toList, ⟨"65345".toList, .inl ⟨rfl, by decide⟩⟩, rfl⟩)
  · exact .tail escaped (@Obfuscates.insert ['%'] ['6', '1'] '*' (.inr (.inl rfl)))
  · exact .tail escaped (@Obfuscates.percent [] ['6', '1'] '%' _
      (@PercentForm.escape 0x25 '2' '5' 2 5 [] [] (by decide) (by decide) (by decide) .done))
  · exact .single (@Obfuscates.entity ['a', ' '] ['b'] ' ' _
      ⟨"#32".toList, ⟨"32".toList, .inl ⟨rfl, by decide⟩⟩, rfl⟩)

end Layers

end Asterel.ExternalContent
