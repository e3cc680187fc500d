import Asterel.Security.Obfuscation

/-!
# Normalization of lines

A line is normalized alike by itself and between other lines: no phase reads anything
together across a line feed. The one exception is a percent sign elsewhere in the text,
which changes how the characters beyond ASCII are read in a line without one.
-/

namespace Asterel.ExternalContent

open Library List Utf8
open Library.Text (isWhitespace)
open Chunker (byteLength)

section Percent

variable {pending rest : List UInt8}

theorem hexDigit_newline : hexDigit 10 = none := by decide

/-- A line feed is no part of an escape. -/
theorem escapeAt_newline (byte : UInt8) (bytes : List UInt8) :
    escapeAt byte (bytes ++ 10 :: rest) = escapeAt byte bytes := by
  match bytes with
  | [] =>
    cases rest with
    | nil => rfl
    | cons lo rest =>
      rw [nil_append, escapeAt, hexPair, hexDigit_newline]
      exact ite_self none
  | [hi] =>
    rw [singleton_append, escapeAt, hexPair, hexDigit_newline]
    cases hexDigit hi with
    | none => exact ite_self none
    | some _ => exact ite_self none
  | hi :: lo :: bytes => rfl

theorem length_of_escapeAt {byte decoded : UInt8} {bytes : List UInt8}
    (found : escapeAt byte bytes = some decoded) : 2 ≤ bytes.length := by
  match bytes with
  | [] => cases found
  | [_] => cases found
  | _ :: _ :: _ => exact Nat.le_add_left 2 _

theorem decodePercentFrom_newline {bytes : List UInt8} {skip : Nat} (within : skip ≤ bytes.length) :
    decodePercentFrom pending skip (bytes ++ 10 :: rest) =
      decodePercentFrom pending skip bytes ++ '\n' :: decodePercentFrom [] 0 rest := by
  induction bytes generalizing pending skip with
  | nil =>
    obtain rfl : skip = 0 := Nat.le_zero.mp within
    have unread : escapeAt 10 rest = none := by
      match rest with
      | [] => rfl
      | [_] => rfl
      | _ :: _ :: _ => rfl
    have empty : decodePercentFrom pending 0 [] = decodeLossy pending := by
      rw [decodePercentFrom]
    rw [empty, nil_append, decodePercentFrom, unread]
    rfl
  | cons byte bytes ih =>
    cases skip with
    | succ skip => exact ih (Nat.le_of_succ_le_succ within)
    | zero =>
      rw [cons_append, decodePercentFrom, decodePercentFrom, escapeAt_newline]
      cases found : escapeAt byte bytes with
      | some decoded => exact ih (length_of_escapeAt found)
      | none =>
        simp only
        rw [append_assoc]
        split
        · exact congrArg _ (ih (Nat.zero_le _))
        · exact congrArg (fun out => _ ++ _ :: out) (ih (Nat.zero_le _))

/-- Decode on the slow path. -/
def percentDecoded (text : List Char) : List Char := decodePercentFrom [] 0 (encode text)

theorem percentDecoded_newline (front back : List Char) :
    percentDecoded (front ++ '\n' :: back) = percentDecoded front ++ '\n' :: percentDecoded back := by
  have bytes : encode (front ++ '\n' :: back) = encode front ++ 10 :: encode back := by
    rw [encode, flatMap_append, flatMap_cons]
    rfl
  rw [percentDecoded, bytes, decodePercentFrom_newline (Nat.zero_le _)]
  rfl

/-- The slow path changes nothing in an ASCII text without percent sign. -/
theorem percentDecoded_ascii {text : List Char} (absent : '%' ∉ text)
    (ascii : ∀ ch ∈ text, ch.toNat < 128) : percentDecoded text = text :=
  PercentCoded.decodeFrom (.refl text) ascii (escapeFree_of_absent absent) []

/-- No percent sign around the line changes how it is read. -/
def Sheltered (front line back : List Char) : Prop :=
  '%' ∈ front ++ back → '%' ∈ line ∨ ∀ ch ∈ line, ch.toNat < 128

theorem decodePercentEncoding_between {front line back : List Char}
    (sheltered : Sheltered front line back) :
    ∃ before after, decodePercentEncoding (front ++ '\n' :: (line ++ '\n' :: back)) =
      before ++ '\n' :: (decodePercentEncoding line ++ '\n' :: after) := by
  by_cases present : '%' ∈ front ++ '\n' :: (line ++ '\n' :: back)
  · refine ⟨percentDecoded front, percentDecoded back, ?_⟩
    have same : decodePercentEncoding line = percentDecoded line := by
      rw [decodePercentEncoding]
      split
      · rename_i absent
        have around : '%' ∈ front ++ back := by
          rw [mem_append]
          rw [mem_append, mem_cons, mem_append, mem_cons] at present
          rcases present with inFront | mark | inLine | mark | inBack
          · exact .inl inFront
          · cases mark
          · exact absurd inLine absent
          · cases mark
          · exact .inr inBack
        exact (percentDecoded_ascii absent ((sheltered around).resolve_left absent)).symm
      · rfl
    rw [decodePercentEncoding, if_neg (not_not.mpr present), same, ← percentDecoded_newline,
      ← percentDecoded_newline]
    rfl
  · have absent : '%' ∉ line := by
      intro inLine
      refine present (mem_append_right _ (mem_cons_of_mem _ ?_))
      exact mem_append_left _ inLine
    refine ⟨front, back, ?_⟩
    rw [decodePercentEncoding, decodePercentEncoding, if_pos present, if_pos absent]

end Percent

section Voicing

theorem composeKatakanaVoicing_newline (front back : List Char) :
    composeKatakanaVoicing (front ++ '\n' :: back) =
      composeKatakanaVoicing front ++ '\n' :: composeKatakanaVoicing back := by
  have newline : composeKatakanaVoicing ('\n' :: back) = '\n' :: composeKatakanaVoicing back :=
    composeKatakanaVoicing_apart fun _ _ => composedPair_ascii (by decide)
  induction front using composeKatakanaVoicing.induct with
  | case1 => exact newline
  | case2 ch =>
    have apart : ∀ next ∈ ('\n' :: back).head?, composedPair ch next = none := by
      rintro next ⟨⟩
      rfl
    exact (composeKatakanaVoicing_apart apart).trans (congrArg (ch :: ·) newline)
  | case3 base mark rest composed pair ih =>
    rw [cons_append, cons_append, composeKatakanaVoicing_pair pair,
      composeKatakanaVoicing_pair pair, ih]
    rfl
  | case4 base mark rest pair ih =>
    rw [cons_append, cons_append, composeKatakanaVoicing, pair, composeKatakanaVoicing, pair]
    exact congrArg (base :: ·) ih

end Voicing

section Collapsing

/-- Whether the text so far ends in white space. -/
def endsBlank : Bool → List Char → Bool
  | flag, [] => flag
  | _, ch :: rest => endsBlank (isWhitespace ch) rest

/-- A line feed becomes a blank unless there is one before it. -/
theorem collapseFrom_newline (flag : Bool) (front back : List Char) :
    collapseFrom flag (front ++ '\n' :: back) =
      collapseFrom flag front ++ (if endsBlank flag front then [] else [' ']) ++
        collapseFrom true back := by
  induction front generalizing flag with
  | nil => cases flag <;> rfl
  | cons ch front ih =>
    rw [cons_append, collapseFrom, collapseFrom, endsBlank]
    cases white : isWhitespace ch with
    | true =>
      cases flag with
      | true => exact ih true
      | false => exact congrArg (' ' :: ·) (ih true)
    | false => exact congrArg (ch :: ·) (ih false)

theorem collapseFrom_endsBlank {flag : Bool} {text : List Char}
    (ends : endsBlank flag text = true) :
    (flag = true ∧ collapseFrom flag text = []) ∨ ∃ front, collapseFrom flag text = front ++ [' '] := by
  induction text generalizing flag with
  | nil => exact .inl ⟨ends, rfl⟩
  | cons ch text ih =>
    rw [endsBlank] at ends
    rw [collapseFrom]
    cases white : isWhitespace ch with
    | false =>
      rw [white] at ends
      rcases ih ends with ⟨never, _⟩ | ⟨front, same⟩
      · cases never
      · exact .inr ⟨ch :: front, congrArg (ch :: ·) same⟩
    | true =>
      rw [white] at ends
      have later := ih ends
      cases flag with
      | true => exact later
      | false =>
        rcases later with ⟨_, none⟩ | ⟨front, same⟩
        · exact .inr ⟨[], congrArg (' ' :: ·) none⟩
        · exact .inr ⟨' ' :: front, congrArg (' ' :: ·) same⟩

/-- There is a blank in front of a line behind another one. -/
theorem collapseWhitespace_newline (front back : List Char) :
    ∃ before, collapseWhitespace (front ++ '\n' :: back) = before ++ ' ' :: collapseFrom true back := by
  rw [collapseWhitespace, collapseFrom_newline]
  cases ends : endsBlank false front with
  | false => exact ⟨_, by rw [if_neg (by decide), append_assoc]; rfl⟩
  | true =>
    rcases collapseFrom_endsBlank ends with ⟨never, _⟩ | ⟨before, same⟩
    · cases never
    · refine ⟨before, ?_⟩
      rw [same, if_pos rfl, append_nil, append_assoc]
      rfl

end Collapsing

section Entities

variable {front back : List Char}

/-- The name of an entity does not go on behind a blank. -/
theorem entityAhead_blank : entityAhead (front ++ ' ' :: back) = entityAhead front := by
  have solid : ∀ name decoded, resolveEntity name = some decoded → ' ' ∉ name ++ [';'] := by
    intro name decoded resolved member
    rcases mem_append.mp member with inside | last
    · cases (entityChar_plain (resolveEntity_entityChar resolved ' ' inside)).2.1
    · exact absurd (mem_singleton.mp last) (by decide)
  refine Option.ext ?_
  rintro ⟨name, decoded⟩
  rw [entityAhead_eq_some_iff, entityAhead_eq_some_iff]
  refine and_congr_right fun resolved => and_congr_right fun _ => ?_
  exact ⟨prefix_beside (solid name decoded resolved),
    fun begins => begins.trans (prefix_append _ _)⟩

theorem length_of_entityAhead {name : List Char} {decoded : Char}
    (found : entityAhead front = some (name, decoded)) :
    byteLength name + 1 ≤ front.length := by
  obtain ⟨resolved, _, begins⟩ := entityAhead_eq_some_iff.mp found
  have bytes : byteLength name = name.length := CharBoundary.byteLength_ascii
    fun other member => (entityChar_plain (resolveEntity_entityChar resolved other member)).2.2
  have short := begins.length_le
  rwa [length_append, length_singleton, ← bytes] at short

theorem decodeEntitiesFrom_blank {skip : Nat} (within : skip ≤ front.length) :
    decodeEntitiesFrom skip (front ++ ' ' :: back) =
      decodeEntitiesFrom skip front ++ ' ' :: decodeEntitiesFrom 0 back := by
  induction front generalizing skip with
  | nil =>
    obtain rfl : skip = 0 := Nat.le_zero.mp within
    rfl
  | cons ch front ih =>
    cases skip with
    | succ skip => exact ih (Nat.le_of_succ_le_succ within)
    | zero =>
      rw [cons_append, decodeEntitiesFrom, decodeEntitiesFrom, entityAhead_blank]
      split
      · exact congrArg (ch :: ·) (ih (Nat.zero_le _))
      · cases found : entityAhead front with
        | none => exact congrArg ('&' :: ·) (ih (Nat.zero_le _))
        | some pair =>
          simp only
          rw [ih (length_of_entityAhead found), append_assoc]

theorem decodeHtmlEntities_blank (front back : List Char) :
    decodeHtmlEntities (front ++ ' ' :: back) =
      decodeHtmlEntities front ++ ' ' :: decodeHtmlEntities back := by
  rw [decodeHtmlEntities_eq, decodeHtmlEntities_eq, decodeHtmlEntities_eq,
    decodeEntitiesFrom_blank (Nat.zero_le _)]

end Entities

section Lines

/-- The phases behind the single characters. -/
def normalizeRest (buf : List Char) : List Char :=
  toAsciiLowercase (normalizeLeetspeak (decodeHtmlEntities (collapseWhitespace buf)))

theorem mapped_append (front back : List Char) :
    toAsciiLowercase (normalizeLeetspeak (front ++ back)) =
      toAsciiLowercase (normalizeLeetspeak front) ++ toAsciiLowercase (normalizeLeetspeak back) := by
  rw [normalizeLeetspeak, map_append, toAsciiLowercase, map_append]
  rfl

/-- What stands behind a line feed is read as by itself. -/
theorem normalizeRest_behind (front back : List Char) :
    ∃ before, normalizeRest (front ++ '\n' :: back) = before ++ normalizeRest back := by
  obtain ⟨before, same⟩ := collapseWhitespace_newline front back
  rw [normalizeRest, same]
  cases back with
  | nil =>
    refine ⟨toAsciiLowercase (normalizeLeetspeak (decodeHtmlEntities (before ++ [' ']))), ?_⟩
    exact (append_nil _).symm
  | cons ch back =>
    cases white : isWhitespace ch with
    | true =>
      -- the blank in front of the line is the one that it begins with
      have alone : collapseWhitespace (ch :: back) = ' ' :: collapseFrom true back := by
        rw [collapseWhitespace, collapseFrom, white]
        rfl
      have among : collapseFrom true (ch :: back) = collapseFrom true back := by
        rw [collapseFrom, white]
        rfl
      have empty : decodeHtmlEntities [] = [] := rfl
      have begins := decodeHtmlEntities_blank [] (collapseFrom true back)
      rw [empty, nil_append, nil_append] at begins
      rw [normalizeRest, alone, among, decodeHtmlEntities_blank, ← begins, mapped_append]
      exact ⟨_, rfl⟩
    | false =>
      have apart : ∀ next ∈ (ch :: back).head?, isWhitespace next = false := by
        rintro next ⟨⟩
        exact white
      rw [collapseFrom_flag apart true false, decodeHtmlEntities_blank, append_cons, mapped_append]
      exact ⟨_, rfl⟩

/-- What stands in front of a line feed is read as by itself. -/
theorem normalizeRest_before (front back : List Char) :
    ∃ after, normalizeRest (front ++ '\n' :: back) = normalizeRest front ++ after := by
  rw [normalizeRest, collapseWhitespace, collapseFrom_newline, normalizeRest, collapseWhitespace]
  cases ends : endsBlank false front with
  | false =>
    rw [if_neg (by decide), append_assoc, singleton_append, decodeHtmlEntities_blank, mapped_append]
    exact ⟨_, rfl⟩
  | true =>
    rcases collapseFrom_endsBlank ends with ⟨never, _⟩ | ⟨before, same⟩
    · cases never
    · rw [if_pos rfl, append_nil, same, append_assoc, singleton_append,
        decodeHtmlEntities_blank, decodeHtmlEntities_blank, append_cons, mapped_append]
      exact ⟨_, rfl⟩

/-- A line is normalized between other lines as by itself. -/
theorem normalizeDetection_between {front line back : List Char}
    (sheltered : Sheltered front line back) :
    normalizeDetection line <:+: normalizeDetection (front ++ '\n' :: (line ++ '\n' :: back)) := by
  obtain ⟨before, after, decoded⟩ := decodePercentEncoding_between sheltered
  have newline : normalizeChar '\n' = some '\n' := by decide
  have chars : normalizeChars (before ++ '\n' :: (decodePercentEncoding line ++ '\n' :: after)) =
      normalizeChars before ++
        '\n' :: (normalizeChars (decodePercentEncoding line) ++ '\n' :: normalizeChars after) := by
    rw [normalizeChars, filterMap_append, filterMap_cons_some newline,
      filterMap_append, filterMap_cons_some newline]
    rfl
  have unfold : ∀ text, normalizeDetection text = normalizeRest (composeKatakanaVoicing
      (normalizeChars (decodePercentEncoding text))) := fun _ => rfl
  rw [unfold, unfold, decoded, chars, composeKatakanaVoicing_newline,
    composeKatakanaVoicing_newline]
  obtain ⟨left, behind⟩ := normalizeRest_behind (composeKatakanaVoicing (normalizeChars before))
    (composeKatakanaVoicing (normalizeChars (decodePercentEncoding line)) ++
      '\n' :: composeKatakanaVoicing (normalizeChars after))
  obtain ⟨right, ahead⟩ := normalizeRest_before
    (composeKatakanaVoicing (normalizeChars (decodePercentEncoding line)))
    (composeKatakanaVoicing (normalizeChars after))
  rw [behind, ahead, ← append_assoc]
  exact infix_append _ _ _

end Lines


end Asterel.ExternalContent
