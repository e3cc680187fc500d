import Asterel.Library.Text
import Asterel.Library.Utf8
import Asterel.Security.EvasionTables
import Asterel.Transport.Chunker

/-!
# Normalization of external content

Before injection patterns are searched in a text, seven phases undo the usual ways
of writing around them. They run once, in a fixed order: percent escapes are decoded,
single characters are dropped or replaced, katakana is composed, white space is
collapsed, HTML entities are decoded, digits that stand for letters are replaced, and
ASCII letters are made small.
-/

namespace Asterel.ExternalContent

open Library List
open scoped Library.Text
open Library.Text (isWhitespace)
open Chunker (byteLength)

/-! ## Phase 1: percent-encoding -/

def hexDigit (b : UInt8) : Option UInt8 :=
  if 0x30 ≤ b ∧ b ≤ 0x39 then some (b - 0x30)
  else if 0x41 ≤ b ∧ b ≤ 0x46 then some (b - 0x41 + 10)
  else if 0x61 ≤ b ∧ b ≤ 0x66 then some (b - 0x61 + 10)
  else none

def hexPair (hi lo : UInt8) : Option UInt8 :=
  (hexDigit hi).bind fun h => (hexDigit lo).map fun l => h <<< 4 ||| l

/-- The byte that an escape stands for, if the byte begins one. -/
def escapeAt (byte : UInt8) : List UInt8 → Option UInt8
  | hi :: lo :: _ => if byte = 0x25 then hexPair hi lo else none
  | _ => none

/-- Decode the bytes but the first `skip`, which belong to an escape that is already read.
`pending` are the bytes that are not yet read as characters. -/
def decodePercentFrom (pending : List UInt8) : Nat → List UInt8 → List Char
  | _, [] => Utf8.decodeLossy pending
  | skip + 1, _ :: rest => decodePercentFrom pending skip rest
  | 0, byte :: rest =>
    match escapeAt byte rest with
    | some decoded => decodePercentFrom (pending ++ [decoded]) 2 rest
    | none =>
      Utf8.decodeLossy pending ++
        -- the bytes of a character that is not escaped are flushed one by one
        if 0x7F < byte then decodePercentFrom [byte] 0 rest
        else Char.ofNat byte.toNat :: decodePercentFrom [] 0 rest

def decodePercentEncoding (s : List Char) : List Char :=
  if '%' ∉ s then s else decodePercentFrom [] 0 (Utf8.encode s)

/-! ## Phase 2: single characters -/

def isInvisible (ch : Char) : Bool :=
  let code := ch.toNat
  (0x200B ≤ code && code ≤ 0x200F) || (0x202A ≤ code && code ≤ 0x202E) ||
    (0x2060 ≤ code && code ≤ 0x2064) || code == 0xFEFF || (0xFE00 ≤ code && code ≤ 0xFE0F) ||
    code == 0x00AD

def isCombiningMark (ch : Char) : Bool :=
  let code := ch.toNat
  (0x0300 ≤ code && code ≤ 0x036F) || (0x1AB0 ≤ code && code ≤ 0x1AFF) ||
    (0x1DC0 ≤ code && code ≤ 0x1DFF) || (0x20D0 ≤ code && code ≤ 0x20FF) ||
    (0xFE20 ≤ code && code ≤ 0xFE2F)

def isEmoji (ch : Char) : Bool :=
  let code := ch.toNat
  (0x2600 ≤ code && code ≤ 0x27BF) || (0x1F300 ≤ code && code ≤ 0x1F5FF) ||
    (0x1F600 ≤ code && code ≤ 0x1F64F) || (0x1F680 ≤ code && code ≤ 0x1F6FF) ||
    (0x1F900 ≤ code && code ≤ 0x1F9FF) || (0x1FA00 ≤ code && code ≤ 0x1FA6F) ||
    (0x1FA70 ≤ code && code ≤ 0x1FAFF) || (0x1F1E0 ≤ code && code ≤ 0x1F1FF)

def isMarkdownFormatting (ch : Char) : Bool := ch == '*' || ch == '`'

def fullwidthToAscii (ch : Char) : Option Char :=
  let code := ch.toNat
  if 0xFF01 ≤ code ∧ code ≤ 0xFF5E then charFromU32 (code - 0xFF01 + 0x0021) else none

/-- Delimiter normalization. -/
def delimiterToSpace (ch : Char) : Char := if ch = '.' ∨ ch = '-' ∨ ch = '_' then ' ' else ch

/-- What the char-level pass leaves of a character. -/
def normalizeChar (ch : Char) : Option Char :=
  if isInvisible ch || isCombiningMark ch || isEmoji ch || isMarkdownFormatting ch then none
  else
    fullwidthToAscii ch <|> halfwidthKanaToFullwidth ch <|> confusableToLatin ch <|>
      specialUnicodeToAscii ch <|> mathAlphanumericToAscii ch <|> some (delimiterToSpace ch)

theorem normalizeChar_visible {ch image : Char} (left : normalizeChar ch = some image) :
    isInvisible ch = false := by
  rw [normalizeChar] at left
  split at left
  · cases left
  · rename_i kept
    rw [Bool.or_eq_true, Bool.or_eq_true, Bool.or_eq_true, not_or, not_or, not_or] at kept
    exact eq_false_of_ne_true kept.1.1.1

def normalizeChars (text : List Char) : List Char := text.filterMap normalizeChar

/-! ## Phase 3: katakana voicing -/

/-- The composition of two adjacent characters, if the second one is a voicing mark. -/
def composedPair (base mark : Char) : Option Char :=
  if mark = '\u3099' ∨ mark = '\u309A' then composeVoicing base mark else none

def composeKatakanaVoicing : List Char → List Char
  | [] => []
  | [ch] => [ch]
  | base :: mark :: rest =>
    match composedPair base mark with
    | some composed => composed :: composeKatakanaVoicing rest
    | none => base :: composeKatakanaVoicing (mark :: rest)

section Voicing

variable {base mark composed : Char} {word rest : List Char}

theorem charFromU32_eq_some {code : Nat} {char : Char} (found : charFromU32 code = some char) :
    char = Char.ofNat code := by
  rw [charFromU32] at found
  split at found
  · exact (Option.some.inj found).symm
  · cases found

/-- A composed letter, its base and its mark are no ASCII characters and no white space. -/
theorem composedPair_eq_some (pair : composedPair base mark = some composed) :
    128 ≤ base.toNat ∧ isWhitespace mark = false ∧ isWhitespace composed = false := by
  have dakuten : ∀ code ∈ dakutenBases,
      128 ≤ code ∧ isWhitespace (Char.ofNat (code + 1)) = false := by decide
  have ha : ∀ code ∈ haRow, 128 ≤ code ∧ isWhitespace (Char.ofNat (code + 1)) = false ∧
      isWhitespace (Char.ofNat (code + 2)) = false := by decide
  rw [composedPair] at pair
  split at pair
  · rw [composeVoicing] at pair
    split_ifs at pair with voiced inDakuten inHa special semi inHa
    · rw [charFromU32_eq_some pair, voiced]
      exact ⟨(dakuten _ inDakuten).1, by decide, (dakuten _ inDakuten).2⟩
    · rw [charFromU32_eq_some pair, voiced]
      exact ⟨(ha _ inHa).1, by decide, (ha _ inHa).2.1⟩
    · rw [← Option.some.inj pair, voiced, special]
      decide
    · rw [charFromU32_eq_some pair, semi]
      exact ⟨(ha _ inHa).1, by decide, (ha _ inHa).2.2⟩
  · cases pair

theorem composedPair_ascii (ascii : base.toNat < 128) : composedPair base mark = none := by
  refine Option.eq_none_iff_forall_not_mem.mpr ?_
  intro composed pair
  have large := (composedPair_eq_some pair).1
  omega

theorem composeKatakanaVoicing_apart (apart : ∀ next ∈ rest.head?, composedPair base next = none) :
    composeKatakanaVoicing (base :: rest) = base :: composeKatakanaVoicing rest := by
  cases rest with
  | nil => rfl
  | cons mark rest => rw [composeKatakanaVoicing, apart mark rfl]

theorem composeKatakanaVoicing_pair (pair : composedPair base mark = some composed) :
    composeKatakanaVoicing (base :: mark :: rest) = composed :: composeKatakanaVoicing rest := by
  rw [composeKatakanaVoicing, pair]

theorem composeKatakanaVoicing_ascii (ascii : ∀ char ∈ word, char.toNat < 128) :
    composeKatakanaVoicing (word ++ rest) = word ++ composeKatakanaVoicing rest := by
  induction word with
  | nil => rfl
  | cons char word ih =>
    obtain ⟨first, others⟩ := forall_mem_cons.mp ascii
    rw [cons_append, composeKatakanaVoicing_apart fun _ _ => composedPair_ascii first, ih others]
    rfl

/-- White space at the front of the composed text was there before. -/
theorem composeKatakanaVoicing_head {char : Char}
    (head : char ∈ (composeKatakanaVoicing word).head?) (blank : isWhitespace char = true) :
    char ∈ word.head? := by
  cases word with
  | nil => exact head
  | cons base word =>
    cases word with
    | nil => exact head
    | cons mark rest =>
      cases pair : composedPair base mark with
      | none =>
        rw [composeKatakanaVoicing, pair] at head
        exact head
      | some composed =>
        rw [composeKatakanaVoicing_pair pair] at head
        cases head
        cases blank.symm.trans (composedPair_eq_some pair).2.2

end Voicing

/-! ## Phase 4: white space -/

def collapseFrom : Bool → List Char → List Char
  | _, [] => []
  | prevWs, ch :: rest =>
    if isWhitespace ch then
      if prevWs then collapseFrom true rest else ' ' :: collapseFrom true rest
    else ch :: collapseFrom false rest

def collapseWhitespace (s : List Char) : List Char := collapseFrom false s

section Collapsing

variable {flag : Bool} {word rest : List Char}

/-- Only white space behind white space is dropped. -/
theorem collapseFrom_flag (apart : ∀ char ∈ rest.head?, isWhitespace char = false)
    (flag other : Bool) : collapseFrom flag rest = collapseFrom other rest := by
  cases rest with
  | nil => rw [collapseFrom, collapseFrom]
  | cons char rest =>
    have solid := apart char rfl
    rw [collapseFrom, collapseFrom, solid]
    rfl

/-- A word is kept, and what follows stands behind no white space. -/
theorem collapseFrom_word (nonempty : word ≠ [])
    (solid : ∀ char ∈ word, isWhitespace char = false) :
    collapseFrom flag (word ++ rest) = word ++ collapseFrom false rest := by
  induction word generalizing flag with
  | nil => exact absurd rfl nonempty
  | cons char word ih =>
    obtain ⟨first, others⟩ := forall_mem_cons.mp solid
    rw [cons_append, collapseFrom, first]
    cases word with
    | nil => rfl
    | cons next word => exact congrArg (char :: ·) (ih nofun others)

end Collapsing

/-! ## Phase 5: HTML entities -/

def digitValue (radix : Nat) (ch : Char) : Option Nat :=
  let code := ch.toNat
  let value :=
    if 48 ≤ code ∧ code ≤ 57 then code - 48
    else if 65 ≤ code ∧ code ≤ 90 then code - 55
    else if 97 ≤ code ∧ code ≤ 122 then code - 87
    else radix
  if value < radix then some value else none

/-- The number that digits write. -/
def numeral (radix : Nat) (digits : List Char) : Option Nat :=
  if digits = [] then none
  else digits.foldlM (fun value digit => (digitValue radix digit).map (radix * value + ·)) 0

/-- `u32::from_str_radix`, which takes a sign. -/
def u32FromStrRadix (radix : Nat) (text : List Char) : Option Nat :=
  let digits := if text.head? = some '+' then text.tail else text
  (numeral radix digits).filter fun value => value < 2 ^ 32

/-- `strip_prefix`. -/
def stripPrefix (front text : List Char) : Option (List Char) :=
  if front <+: text then some (text.drop front.length) else none

def namedEntity (name : List Char) : Option Char :=
  if name = "lt".toList then some '<'
  else if name = "gt".toList then some '>'
  else if name = "amp".toList then some '&'
  else if name = "quot".toList then some '"'
  else if name = "#39".toList ∨ name = "apos".toList then some '\''
  else none

def resolveEntity (name : List Char) : Option Char :=
  match (stripPrefix ['#'] name).bind (u32FromStrRadix 10) with
  | some code => charFromU32 code
  | none =>
    match (stripPrefix ['#', 'x'] name <|> stripPrefix ['#', 'X'] name).bind
        (u32FromStrRadix 16) with
    | some code => charFromU32 code
    | none => namedEntity name

/-- The entity behind an ampersand: its name, which ends within ten characters, and what
it stands for. -/
def entityAhead (rest : List Char) : Option (List Char × Char) :=
  let saved := rest.take 10
  if ';' ∈ saved then
    let entity := saved.takeWhile fun ch => ch != ';'
    (resolveEntity entity).map fun decoded => (entity, decoded)
  else none

/-- Decode the characters but the first `skip`, which belong to an entity that is already
read. -/
def decodeEntitiesFrom : Nat → List Char → List Char
  | _, [] => []
  | skip + 1, _ :: rest => decodeEntitiesFrom skip rest
  | 0, ch :: rest =>
    if ch ≠ '&' then ch :: decodeEntitiesFrom 0 rest
    else
      match entityAhead rest with
      | some (entity, decoded) =>
        (if isInvisible decoded then [] else [decoded]) ++
          decodeEntitiesFrom (byteLength entity + 1) rest
      | none => '&' :: decodeEntitiesFrom 0 rest

def decodeHtmlEntities (s : List Char) : List Char :=
  if '&' ∉ s then s else decodeEntitiesFrom 0 s

section Entities

variable {char decoded : Char} {name digits rest text : List Char}

/-- The characters of the names that resolve to something. -/
def entityChar (ch : Char) : Bool := ch.isAlphanum || ch == '#' || ch == '+'

theorem decodeEntitiesFrom_skip (skip : Nat) (text : List Char) :
    decodeEntitiesFrom skip text = decodeEntitiesFrom 0 (text.drop skip) := by
  induction text generalizing skip with
  | nil => rw [drop_nil, decodeEntitiesFrom, decodeEntitiesFrom]
  | cons char text ih =>
    cases skip with
    | zero => rfl
    | succ skip => exact ih skip

theorem decodeEntitiesFrom_absent (absent : '&' ∉ text) : decodeEntitiesFrom 0 text = text := by
  induction text with
  | nil => rfl
  | cons char text ih =>
    have different := (ne_of_not_mem_cons absent).symm
    rw [decodeEntitiesFrom, if_pos different, ih (not_mem_of_not_mem_cons absent)]

/-- Without an ampersand nothing is decoded on the slow path either. -/
theorem decodeHtmlEntities_eq (text : List Char) :
    decodeHtmlEntities text = decodeEntitiesFrom 0 text := by
  rw [decodeHtmlEntities]
  split
  · exact (decodeEntitiesFrom_absent ‹_›).symm
  · rfl

theorem digitValue_entityChar {radix value : Nat}
    (digit : digitValue radix char = some value) : entityChar char = true := by
  rw [digitValue] at digit
  rw [entityChar, Bool.or_eq_true, Bool.or_eq_true, Text.isAlphanum_iff]
  grind

theorem foldlM_digits {radix start value : Nat}
    (read : digits.foldlM (fun value digit => (digitValue radix digit).map (radix * value + ·))
      start = some value) : ∀ char ∈ digits, ∃ digit, digitValue radix char = some digit := by
  induction digits generalizing start with
  | nil => exact forall_mem_nil _
  | cons digit digits ih =>
    rw [foldlM_cons, Option.bind_eq_bind, Option.bind_eq_some_iff] at read
    obtain ⟨next, first, others⟩ := read
    obtain ⟨one, found, _⟩ := Option.map_eq_some_iff.mp first
    exact forall_mem_cons.mpr ⟨⟨one, found⟩, ih others⟩

theorem numeral_digits {radix value : Nat} (read : numeral radix digits = some value) :
    ∀ char ∈ digits, ∃ digit, digitValue radix char = some digit := by
  rw [numeral] at read
  split at read
  · cases read
  · exact foldlM_digits read

theorem numeral_entityChar {radix value : Nat} (read : numeral radix digits = some value) :
    ∀ char ∈ digits, entityChar char = true := by
  intro char member
  obtain ⟨_, digit⟩ := numeral_digits read char member
  exact digitValue_entityChar digit

theorem u32FromStrRadix_entityChar {radix value : Nat}
    (read : u32FromStrRadix radix text = some value) : ∀ char ∈ text, entityChar char = true := by
  rw [u32FromStrRadix] at read
  obtain ⟨number, _⟩ := Option.filter_eq_some_iff.mp read
  have digits := numeral_entityChar number
  cases text with
  | nil => exact forall_mem_nil _
  | cons first text =>
    rw [head?_cons, tail_cons] at digits
    by_cases sign : first = '+'
    · rw [if_pos (congrArg some sign)] at digits
      exact forall_mem_cons.mpr ⟨by rw [sign]; rfl, digits⟩
    · rwa [if_neg fun same => sign (Option.some.inj same)] at digits

theorem stripPrefix_eq_some_iff {front behind : List Char} :
    stripPrefix front text = some behind ↔ text = front ++ behind := by
  rw [stripPrefix]
  constructor
  · intro found
    split at found
    · obtain ⟨back, rfl⟩ := ‹front <+: text›
      rw [drop_left] at found
      rw [Option.some.inj found]
    · cases found
  · rintro rfl
    rw [if_pos (prefix_append _ _), drop_left]

theorem stripPrefix_entityChar {front : List Char} {radix code : Nat}
    (only : ∀ char ∈ front, entityChar char = true)
    (read : (stripPrefix front text).bind (u32FromStrRadix radix) = some code) :
    ∀ char ∈ text, entityChar char = true := by
  obtain ⟨behind, stripped, number⟩ := Option.bind_eq_some_iff.mp read
  rw [stripPrefix_eq_some_iff.mp stripped]
  exact forall_mem_append.mpr ⟨only, u32FromStrRadix_entityChar number⟩

theorem digitValue_sign (radix : Nat) : digitValue radix '+' = none :=
  if_neg (Nat.lt_irrefl radix)

/-- A numeral has no sign. -/
theorem u32FromStrRadix_numeral {radix value : Nat} (read : numeral radix digits = some value)
    (small : value < 2 ^ 32) : u32FromStrRadix radix digits = some value := by
  have unsigned : digits.head? ≠ some '+' := by
    intro sign
    obtain ⟨others, rfl⟩ := head?_eq_some_iff.mp sign
    obtain ⟨digit, found⟩ := numeral_digits read '+' mem_cons_self
    cases (digitValue_sign radix).symm.trans found
  rw [u32FromStrRadix, if_neg unsigned, read]
  exact Option.filter_eq_some_iff.mpr ⟨rfl, decide_eq_true small⟩

theorem namedEntity_entityChar (named : namedEntity name = some decoded) :
    ∀ char ∈ name, entityChar char = true := by
  rw [namedEntity] at named
  split_ifs at named with lt gt amp quot apos
  · rw [lt]; decide
  · rw [gt]; decide
  · rw [amp]; decide
  · rw [quot]; decide
  · rcases apos with apos | apos <;> rw [apos] <;> decide

/-- Only letters, digits and two signs stand in a name that resolves. -/
theorem resolveEntity_entityChar (resolved : resolveEntity name = some decoded) :
    ∀ char ∈ name, entityChar char = true := by
  rw [resolveEntity] at resolved
  split at resolved
  · exact @stripPrefix_entityChar _ ['#'] _ _ (by decide) ‹_›
  · split at resolved
    · rename_i code hex
      obtain ⟨behind, stripped, number⟩ := Option.bind_eq_some_iff.mp hex
      rw [Option.orElse_eq_orElse, Option.orElse_eq_or] at stripped
      rcases Option.or_eq_some_iff.mp stripped with small | ⟨_, large⟩
      · rw [stripPrefix_eq_some_iff.mp small]
        exact forall_mem_append.mpr ⟨by decide, u32FromStrRadix_entityChar number⟩
      · rw [stripPrefix_eq_some_iff.mp large]
        exact forall_mem_append.mpr ⟨by decide, u32FromStrRadix_entityChar number⟩
    · exact namedEntity_entityChar resolved

theorem entityChar_ascii (named : entityChar char = true) : char.toNat < 128 := by
  rw [entityChar, Bool.or_eq_true, Bool.or_eq_true, beq_iff_eq, beq_iff_eq] at named
  rcases named with (word | rfl) | rfl
  · exact Text.toNat_lt_of_isAlphanum word
  · decide
  · decide

/-- No phase before the entities changes the characters of their names. -/
theorem entityChar_plain (named : entityChar char = true) :
    normalizeChar char = some char ∧ isWhitespace char = false ∧ char.utf8Size = 1 := by
  have small : ∀ code < 128, entityChar (Char.ofNat code) = true →
      normalizeChar (Char.ofNat code) = some (Char.ofNat code) ∧
        isWhitespace (Char.ofNat code) = false ∧ (Char.ofNat code).utf8Size = 1 := by
    decide +kernel
  have plain := small char.toNat (entityChar_ascii named)
  rw [Char.ofNat_toNat] at plain
  exact plain named

theorem entityChar_ne (named : entityChar char = true) :
    char ≠ ';' ∧ char ≠ '&' ∧ char ≠ '%' := by
  refine ⟨?_, ?_, ?_⟩ <;> rintro rfl <;> cases named

theorem takeWhile_entity (only : ∀ char ∈ name, entityChar char = true) :
    (name ++ ';' :: rest).takeWhile (fun ch => ch != ';') = name := by
  have stays : ∀ char ∈ name, (char != ';') = true :=
    fun char member => bne_iff_ne.mpr (entityChar_ne (only char member)).1
  rw [takeWhile_append_of_pos stays]
  exact append_nil name

/-- The entity behind an ampersand ends at the first semicolon, which is one of the next
ten characters. -/
theorem entityAhead_eq_some_iff :
    entityAhead rest = some (name, decoded) ↔
      resolveEntity name = some decoded ∧ name.length ≤ 9 ∧ name ++ [';'] <+: rest := by
  rw [entityAhead]
  constructor
  · intro found
    split at found
    · rename_i member
      obtain ⟨other, resolved, same⟩ := Option.map_eq_some_iff.mp found
      obtain ⟨rfl, rfl⟩ := Prod.mk.inj same
      have stops : ((rest.take 10).dropWhile fun ch => ch != ';') ≠ [] := by
        intro none
        rw [dropWhile_eq_nil_iff] at none
        exact absurd (none ';' member) (by decide)
      obtain ⟨mark, behind, split⟩ := exists_cons_of_ne_nil stops
      have head := head_dropWhile_not (fun ch => ch != ';') stops
      have markEq : mark = ';' := by simpa [split] using head
      have whole := @takeWhile_append_dropWhile _ (fun ch => ch != ';') (rest.take 10)
      rw [split, markEq] at whole
      have count := congrArg List.length whole
      rw [length_append, length_cons, length_take] at count
      refine ⟨resolved, by omega, ?_⟩
      refine IsPrefix.trans ⟨behind, ?_⟩ (List.take_prefix 10 rest)
      rw [append_assoc]
      exact whole
    · cases found
  · rintro ⟨resolved, short, behind, rfl⟩
    have only := resolveEntity_entityChar resolved
    have seen : (name ++ [';'] ++ behind).take 10 =
        name ++ ';' :: behind.take (9 - name.length) := by
      rw [append_assoc, singleton_append, take_append,
        take_of_length_le (by omega), show 10 - name.length = 9 - name.length + 1 by omega,
        take_succ_cons]
    have member : ';' ∈ name ++ ';' :: behind.take (9 - name.length) := by simp
    simp only [seen, if_pos member, takeWhile_entity only, resolved, Option.map_some]

end Entities

/-! ## Phases 6 and 7 -/

def leetspeakChar (ch : Char) : Char :=
  match ch with
  | '0' => 'o'
  | '1' => 'i'
  | '3' => 'e'
  | '4' | '@' => 'a'
  | '5' => 's'
  | '7' => 't'
  | _ => ch

def normalizeLeetspeak (s : List Char) : List Char := s.map leetspeakChar

def toAsciiLowercase (s : List Char) : List Char := s.map Char.toLower

/-- Normalize text for injection-pattern detection. -/
def normalizeDetection (text : List Char) : List Char :=
  let decoded := decodePercentEncoding text
  let buf := normalizeChars decoded
  let buf := composeKatakanaVoicing buf
  let buf := collapseWhitespace buf
  let buf := decodeHtmlEntities buf
  let buf := normalizeLeetspeak buf
  toAsciiLowercase buf

end Asterel.ExternalContent
