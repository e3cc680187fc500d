import Mathlib.Data.List.Basic

/-!
# Lookup tables against look-alike characters

External content is normalized before patterns are searched in it. The tables map
homoglyphs, enclosed and raised letters, mathematical letters and half-width
katakana to the characters they stand for, and join a katakana letter with the
voicing mark behind it.
-/

namespace Asterel.ExternalContent

/-- `char::from_u32`. -/
def charFromU32 (code : Nat) : Option Char :=
  if code < 0xD800 ∨ 0xDFFF < code ∧ code < 0x110000 then some (Char.ofNat code) else none

theorem charFromU32_toNat (char : Char) : charFromU32 char.toNat = some char := by
  have valid : char.toNat < 0xD800 ∨ 0xDFFF < char.toNat ∧ char.toNat < 0x110000 := char.valid
  rw [charFromU32, if_pos valid, Char.ofNat_toNat]

/-- Map Cyrillic/Greek homoglyphs to their Latin lookalikes. -/
def confusableToLatin (ch : Char) : Option Char :=
  match ch with
  | '\u0430' | '\u0410' | '\u03B1' | '\u0391' => some 'a'
  | '\u0392' => some 'b'
  | '\u0441' | '\u0421' => some 'c'
  | '\u0435' | '\u0415' | '\u03B5' | '\u0395' => some 'e'
  | '\u04BB' | '\u0397' => some 'h'
  | '\u0456' | '\u0406' | '\u03B9' | '\u0399' => some 'i'
  | '\u0458' | '\u0408' => some 'j'
  | '\u039A' => some 'k'
  | '\u039C' => some 'm'
  | '\u039D' => some 'n'
  | '\u043E' | '\u041E' | '\u03BF' | '\u039F' => some 'o'
  | '\u0440' | '\u0420' | '\u03C1' | '\u03A1' => some 'p'
  | '\u0455' | '\u0405' => some 's'
  | '\u03A4' => some 't'
  | '\u03C5' => some 'u'
  | '\u0445' | '\u0425' | '\u03A7' => some 'x'
  | '\u0443' | '\u0423' | '\u03A5' => some 'y'
  | '\u0396' => some 'z'
  | _ => none

/-- Modifier / superscript letters. -/
def modifierToAscii (ch : Char) : Option Char :=
  match ch with
  | '\u1D43' => some 'a'
  | '\u1D47' => some 'b'
  | '\u1D48' => some 'd'
  | '\u1D49' => some 'e'
  | '\u02E0' | '\u1D4D' => some 'g'
  | '\u02B0' => some 'h'
  | '\u2071' => some 'i'
  | '\u02B2' => some 'j'
  | '\u1D4F' => some 'k'
  | '\u02E1' => some 'l'
  | '\u1D50' => some 'm'
  | '\u207F' => some 'n'
  | '\u1D52' => some 'o'
  | '\u1D56' => some 'p'
  | '\u02B3' => some 'r'
  | '\u02E2' => some 's'
  | '\u1D57' => some 't'
  | '\u1D58' => some 'u'
  | '\u1D5B' => some 'v'
  | '\u02B7' => some 'w'
  | '\u02B8' => some 'y'
  | _ => none

/-- Map enclosed alphanumerics, superscript/modifier letters to ASCII. -/
def specialUnicodeToAscii (ch : Char) : Option Char :=
  let code := ch.toNat
  if 0x24D0 ≤ code ∧ code ≤ 0x24E9 then charFromU32 (code - 0x24D0 + 'a'.toNat)
  else if 0x24B6 ≤ code ∧ code ≤ 0x24CF then charFromU32 (code - 0x24B6 + 'a'.toNat)
  else modifierToAscii ch

/-- Full-width katakana in the order of the half-width ones from U+FF65 on. -/
def hwToFw : List Char :=
  ['\u30FB', '\u30F2',
    '\u30A1', '\u30A3', '\u30A5', '\u30A7', '\u30A9', '\u30E3', '\u30E5', '\u30E7',
    '\u30C3', '\u30FC',
    '\u30A2', '\u30A4', '\u30A6', '\u30A8', '\u30AA',
    '\u30AB', '\u30AD', '\u30AF', '\u30B1', '\u30B3',
    '\u30B5', '\u30B7', '\u30B9', '\u30BB', '\u30BD',
    '\u30BF', '\u30C1', '\u30C4', '\u30C6', '\u30C8',
    '\u30CA', '\u30CB', '\u30CC', '\u30CD', '\u30CE',
    '\u30CF', '\u30D2', '\u30D5', '\u30D8', '\u30DB',
    '\u30DE', '\u30DF', '\u30E0', '\u30E1', '\u30E2',
    '\u30E4', '\u30E6', '\u30E8',
    '\u30E9', '\u30EA', '\u30EB', '\u30EC', '\u30ED',
    '\u30EF', '\u30F3',
    '\u3099', '\u309A']

/-- Half-width katakana (U+FF65..U+FF9F) to full-width katakana. -/
def halfwidthKanaToFullwidth (ch : Char) : Option Char :=
  let code := ch.toNat
  if 0xFF65 ≤ code ∧ code ≤ 0xFF9F then hwToFw[code - 0xFF65]? else none

/-- The letters that take the dakuten with their successor as the voiced letter. -/
def dakutenBases : List Nat :=
  [0x30AB, 0x30AD, 0x30AF, 0x30B1, 0x30B3, 0x30B5, 0x30B7, 0x30B9, 0x30BB, 0x30BD, 0x30BF, 0x30C1,
    0x30C4, 0x30C6, 0x30C8]

/-- The Ha-row, which takes both marks. -/
def haRow : List Nat := [0x30CF, 0x30D2, 0x30D5, 0x30D8, 0x30DB]

/-- Compose a full-width katakana base + voicing mark into a single character. -/
def composeVoicing (base mark : Char) : Option Char :=
  let baseCode := base.toNat
  if mark = '\u3099' then
    if baseCode ∈ dakutenBases then charFromU32 (baseCode + 1)
    else if baseCode ∈ haRow then charFromU32 (baseCode + 1)
    else if baseCode = 0x30A6 then some '\u30F4'
    else none
  else if mark = '\u309A' then
    if baseCode ∈ haRow then charFromU32 (baseCode + 2) else none
  else none

/-- `MATH_ALPHA_RANGES`: blocks of 26 letters that all begin at `a`. -/
def mathAlphaRanges : List (Nat × Nat × Char) :=
  [(0x1D400, 0x1D419, 'a'), (0x1D41A, 0x1D433, 'a'), (0x1D434, 0x1D44D, 'a'),
    (0x1D44E, 0x1D467, 'a'), (0x1D468, 0x1D481, 'a'), (0x1D482, 0x1D49B, 'a'),
    (0x1D49C, 0x1D4B5, 'a'), (0x1D4B6, 0x1D4CF, 'a'), (0x1D4D0, 0x1D4E9, 'a'),
    (0x1D4EA, 0x1D503, 'a'), (0x1D504, 0x1D51D, 'a'), (0x1D51E, 0x1D537, 'a'),
    (0x1D538, 0x1D551, 'a'), (0x1D552, 0x1D56B, 'a'), (0x1D56C, 0x1D585, 'a'),
    (0x1D586, 0x1D59F, 'a'), (0x1D5A0, 0x1D5B9, 'a'), (0x1D5BA, 0x1D5D3, 'a'),
    (0x1D5D4, 0x1D5ED, 'a'), (0x1D5EE, 0x1D607, 'a'), (0x1D608, 0x1D621, 'a'),
    (0x1D622, 0x1D63B, 'a'), (0x1D63C, 0x1D655, 'a'), (0x1D656, 0x1D66F, 'a'),
    (0x1D670, 0x1D689, 'a'), (0x1D68A, 0x1D6A3, 'a')]

/-- Map Mathematical Alphanumeric Symbols (U+1D400..U+1D7FF) to ASCII. -/
def mathAlphanumericToAscii (ch : Char) : Option Char :=
  let code := ch.toNat
  if ¬ (0x1D400 ≤ code ∧ code ≤ 0x1D7FF) then none
  else
    (mathAlphaRanges.find? fun range => decide (range.1 ≤ code ∧ code ≤ range.2.1)).bind
      fun range => charFromU32 (range.2.2.toNat + (code - range.1) % 26)

end Asterel.ExternalContent
