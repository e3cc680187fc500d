import Asterel.Library.Search
import Asterel.Library.Utf8
import Asterel.Memory.Ingress

/-!
# Lines of the markdown memory

An entry is one line: a bullet with the key, the tags with layer and provenance, and
the value as it is. Tag values are percent-encoded, line breaks are not. The reader
splits a file into lines, trims every line and takes it apart again.
-/

namespace Asterel.Markdown

open Library List Text Utf8
open Asterel.Memory
open Library.Text (trim trimStart trimEnd isWhitespace)

structure ParsedMarkdownLine where
  key : Chars
  content : Chars
  layer : Option MemoryLayer
  provenance : Option MemoryProvenance
  deriving DecidableEq

section Tags

def encodeTagChar (ch : Char) : Chars :=
  if ch = '%' then "%25".toList
  else if ch = ';' then "%3B".toList
  else if ch = '=' then "%3D".toList
  else if ch = '&' then "%26".toList
  else if ch = '\\' then "%5C".toList
  else if ch = '[' then "%5B".toList
  else if ch = ']' then "%5D".toList
  else [ch]

def encodeTagValue (value : Chars) : Chars := value.flatMap encodeTagChar

def hexDigit (ch : Char) : Option Nat :=
  let code := ch.toNat
  if 48 ≤ code ∧ code ≤ 57 then some (code - 48)
  else if 65 ≤ code ∧ code ≤ 70 then some (code - 55)
  else if 97 ≤ code ∧ code ≤ 102 then some (code - 87)
  else none

/-- `u8::from_str_radix` on two characters, the first of which may be a sign. -/
def hexPair (a b : Char) : Option UInt8 :=
  if a = '+' then (hexDigit b).map UInt8.ofNat
  else (hexDigit a).bind fun high => (hexDigit b).map fun low => UInt8.ofNat (16 * high + low)

/-- Decode behind a run of percent-encoded bytes. -/
def decodeFrom (byteBuf : List UInt8) : Chars → Chars
  | [] => decodeLossy byteBuf
  | ch :: rest =>
    if ch ≠ '%' then decodeLossy byteBuf ++ ch :: decodeFrom [] rest
    else
      match rest with
      -- a run that ends in a bare sign drops it, and one with half a pair moves it to the front
      | [] => if byteBuf.isEmpty then ['%'] else decodeLossy byteBuf
      | [a] => '%' :: a :: decodeLossy byteBuf
      | a :: b :: rest =>
        match hexPair a b with
        | some byte => decodeFrom (byteBuf ++ [byte]) rest
        | none => decodeLossy byteBuf ++ '%' :: a :: b :: decodeFrom [] rest

def decodeTagValue (value : Chars) : Chars := decodeFrom [] value

/-- The tags in the order of the text; of equal names the last one counts. -/
def parseMarkdownTags (raw : Chars) : List (Chars × Chars) :=
  (raw.splitOn ';').filterMap fun chunk =>
    (splitOnce '=' chunk).bind fun (k, v) =>
      if k.isEmpty || v.isEmpty then none else some (k, decodeTagValue v)

def getTag (tags : List (Chars × Chars)) (name : String) : Option Chars :=
  (tags.reverse.find? fun tag => tag.1 = name.toList).map Prod.snd

def memoryLayerToStr : MemoryLayer → String
  | .working => "working"
  | .episodic => "episodic"
  | .semantic => "semantic"
  | .procedural => "procedural"
  | .identity => "identity"

def parseMemoryLayer (raw : Chars) : Option MemoryLayer :=
  [.working, .episodic, .semantic, .procedural, .identity].find? fun layer =>
    (memoryLayerToStr layer).toList = raw

def memorySourceToStr : MemorySource → String
  | .explicitUser => "explicit_user"
  | .toolVerified => "tool_verified"
  | .system => "system"
  | .inferred => "inferred"
  | .externalPrimary => "external_primary"
  | .externalSecondary => "external_secondary"

def parseMemorySource (raw : Chars) : Option MemorySource :=
  [.explicitUser, .toolVerified, .system, .inferred, .externalPrimary, .externalSecondary].find?
    fun source => (memorySourceToStr source).toList = raw

end Tags

section Lines

/-- A tag as it is written. -/
def tagField (name : String) (value : Chars) : Chars := name.toList ++ '=' :: value

def tagFields (layer : MemoryLayer) (provenance : Option MemoryProvenance) : List Chars :=
  tagField "layer" (memoryLayerToStr layer).toList :: match provenance with
    | none => []
    | some provenance =>
      tagField "provenance_source_class" (memorySourceToStr provenance.sourceClass).toList ::
        tagField "provenance_reference" (encodeTagValue provenance.reference) ::
          (provenance.evidenceUri.map fun uri =>
            tagField "provenance_evidence_uri" (encodeTagValue uri)).toList

def formatTaggedLine (key value : Chars) (layer : MemoryLayer)
    (provenance : Option MemoryProvenance) : Chars :=
  "- **".toList ++ key ++ "** [md:".toList ++ [';'].intercalate (tagFields layer provenance) ++
    "]: ".toList ++ value

def parseProvenance (tags : List (Chars × Chars)) : Option MemoryProvenance := do
  let source ← parseMemorySource (← getTag tags "provenance_source_class")
  let reference ← getTag tags "provenance_reference"
  return ⟨source, reference, getTag tags "provenance_evidence_uri"⟩

/-- What follows the key and its closing asterisks. -/
def parseRest (key rest : Chars) : Option ParsedMarkdownLine :=
  match ": ".toList.isPrefixOf? rest with
  | some content => some { key, content, layer := none, provenance := none }
  | none =>
    ("[md:".toList.isPrefixOf? rest).map fun marked =>
      match find "]: ".toList marked with
      | none => { key, content := "[md:".toList ++ marked, layer := none, provenance := none }
      | some (rawTags, content) =>
        let tags := parseMarkdownTags rawTags
        { key
          content
          layer := some (((getTag tags "layer").bind parseMemoryLayer).getD .working)
          provenance := parseProvenance tags }

def parseMarkdownEntryLine (line : Chars) : Option ParsedMarkdownLine := do
  let withoutBullet ← "- ".toList.isPrefixOf? (trim line)
  let withoutKey ← "**".toList.isPrefixOf? withoutBullet
  let (key, rest) ← find "**".toList withoutKey
  parseRest key (trimStart rest)

def stripCarriageReturn (line : Chars) : Chars :=
  if line.getLast? = some '\r' then line.dropLast else line

/-- `str::lines`: a text behind the last line feed is a line unless it is empty. -/
def lines (content : Chars) : List Chars :=
  let pieces := content.splitOn '\n'
  let last := pieces.getLastD []
  pieces.dropLast.map stripCarriageReturn ++ if last.isEmpty then [] else [last]

/-- The entries of a file: of lines that are neither blank nor headings. -/
def parsedLines (content : Chars) : List ParsedMarkdownLine :=
  ((lines content).filter fun line =>
    !(trim line).isEmpty && (trim line).head? ≠ some '#').filterMap parseMarkdownEntryLine

end Lines

section TagValues

variable {ch : Char} {value : Chars}

/-- A character that is written as a pair of digits is read from that pair. -/
theorem encodeTagChar_cases (ch : Char) :
    (encodeTagChar ch = [ch] ∧ ch ∉ ['%', ';', '=', '[', ']']) ∨
      ∃ a b byte, encodeTagChar ch = ['%', a, b] ∧ hexPair a b = some byte ∧
        String.utf8EncodeChar ch = [byte] ∧ a ∉ [';', '[', ']', '\n'] ∧ b ∉ [';', '[', ']', '\n'] := by
  rw [encodeTagChar]
  split_ifs with percent semicolon equals ampersand backslash opening closing
  · subst percent; exact .inr ⟨'2', '5', 0x25, by decide⟩
  · subst semicolon; exact .inr ⟨'3', 'B', 0x3B, by decide⟩
  · subst equals; exact .inr ⟨'3', 'D', 0x3D, by decide⟩
  · subst ampersand; exact .inr ⟨'2', '6', 0x26, by decide⟩
  · subst backslash; exact .inr ⟨'5', 'C', 0x5C, by decide⟩
  · subst opening; exact .inr ⟨'5', 'B', 0x5B, by decide⟩
  · subst closing; exact .inr ⟨'5', 'D', 0x5D, by decide⟩
  · left
    simp [percent, semicolon, equals, opening, closing]

theorem decodeFrom_plain (notPercent : ch ≠ '%') (byteBuf : List UInt8) (rest : Chars) :
    decodeFrom byteBuf (ch :: rest) = decodeLossy byteBuf ++ ch :: decodeFrom [] rest := by
  rw [decodeFrom.eq_def]
  exact if_pos notPercent

theorem decodeFrom_pair {a b : Char} {byte : UInt8} (read : hexPair a b = some byte)
    (byteBuf : List UInt8) (rest : Chars) :
    decodeFrom byteBuf ('%' :: a :: b :: rest) = decodeFrom (byteBuf ++ [byte]) rest := by
  rw [decodeFrom.eq_def]
  simp only [ne_eq, not_true_eq_false, ↓reduceIte, read]

/-- Behind a run that spells a text, the encoded value is read as that text and the value. -/
theorem decodeFrom_encode (spelled value : Chars) :
    decodeFrom (encode spelled) (encodeTagValue value) = spelled ++ value := by
  induction value generalizing spelled with
  | nil => rw [encodeTagValue, flatMap_nil, decodeFrom, decodeLossy_encode, append_nil]
  | cons ch rest ih =>
    rw [encodeTagValue, flatMap_cons]
    rcases encodeTagChar_cases ch with ⟨plain, ordinary⟩ | ⟨a, b, byte, pair, read, encoded, _⟩
    · have notPercent : ch ≠ '%' := fun same => ordinary (same ▸ mem_cons_self)
      have later := ih []
      rw [nil_append] at later
      rw [plain, singleton_append, decodeFrom_plain notPercent, decodeLossy_encode]
      exact congrArg (fun text => spelled ++ ch :: text) later
    · have run : encode spelled ++ [byte] = encode (spelled ++ [ch]) := by
        rw [encode, encode, flatMap_append, flatMap_singleton, encoded]
      rw [pair, cons_append, cons_append, singleton_append, decodeFrom_pair read, run,
        ← encodeTagValue, ih, append_assoc, singleton_append]

theorem decodeTagValue_encode (value : Chars) : decodeTagValue (encodeTagValue value) = value :=
  decodeFrom_encode [] value

theorem mem_encodeTagValue (member : ch ∈ encodeTagValue value) :
    ch ∉ [';', '[', ']'] ∧ (ch = '\n' → '\n' ∈ value) := by
  obtain ⟨source, inValue, written⟩ := mem_flatMap.mp member
  rcases encodeTagChar_cases source with ⟨plain, ordinary⟩ | ⟨a, b, byte, pair, _, _, first, second⟩
  · rw [plain, mem_singleton] at written
    subst written
    refine ⟨fun special => ordinary ?_, fun same => same ▸ inValue⟩
    revert special
    simp only [mem_cons]
    tauto
  · rw [pair] at written
    simp only [mem_cons, not_mem_nil, or_false] at written first second ⊢
    rcases written with rfl | rfl | rfl
    · exact ⟨by decide, fun same => absurd same (by decide)⟩
    · tauto
    · tauto

theorem lineFeed_mem_encode (member : '\n' ∈ value) :
    '\n' ∈ encodeTagValue value :=
  mem_flatMap.mpr ⟨'\n', member, by decide⟩

theorem encodeTagValue_ne_nil (some : value ≠ []) : encodeTagValue value ≠ [] := by
  intro empty
  have decoded := decodeTagValue_encode value
  rw [empty] at decoded
  exact some decoded.symm

theorem decodeTagValue_plain {text : Chars} (plain : '%' ∉ text) : decodeTagValue text = text := by
  rw [decodeTagValue]
  induction text with
  | nil => rfl
  | cons ch rest ih =>
    have notPercent : ch ≠ '%' := fun same => plain (same ▸ mem_cons_self)
    rw [decodeFrom_plain notPercent, ih fun member => plain (mem_cons_of_mem _ member)]
    rfl

end TagValues

section Tagging

variable {ch separator : Char} (layer : MemoryLayer) {provenance : Option MemoryProvenance}
  {name : String}

/-- A tag as it is written and as it is read. -/
structure Tag where
  name : String
  written : Chars
  value : Chars

/-- What is written is read again. -/
structure Tag.Sound (tag : Tag) : Prop where
  name_ne : tag.name.toList ≠ []
  name_clear : ∀ ch ∈ tag.name.toList, ch ∉ [';', '=', '[', ']', '\n']
  written_ne : tag.written ≠ []
  written_clear : ∀ ch ∈ tag.written, ch ∉ [';', '[', ']']
  written_break : '\n' ∈ tag.written ↔ '\n' ∈ tag.value
  read : decodeTagValue tag.written = tag.value

def tagsOf (layer : MemoryLayer) (provenance : Option MemoryProvenance) : List Tag :=
  ⟨"layer", (memoryLayerToStr layer).toList, (memoryLayerToStr layer).toList⟩ ::
    match provenance with
    | none => []
    | some provenance =>
      ⟨"provenance_source_class", (memorySourceToStr provenance.sourceClass).toList,
          (memorySourceToStr provenance.sourceClass).toList⟩ ::
        ⟨"provenance_reference", encodeTagValue provenance.reference, provenance.reference⟩ ::
          (provenance.evidenceUri.map fun uri =>
            ⟨"provenance_evidence_uri", encodeTagValue uri, uri⟩).toList

theorem tagsOf_ne_nil (provenance : Option MemoryProvenance) :
    tagsOf layer provenance ≠ [] := cons_ne_nil _ _

theorem tagFields_eq (provenance : Option MemoryProvenance) :
    tagFields layer provenance =
      (tagsOf layer provenance).map fun tag => tagField tag.name tag.written := by
  rcases provenance with _ | ⟨source, reference, _ | uri⟩ <;> rfl

/-- The names of layers and sources are letters and underscores. -/
theorem plain_name (letters : name.toList.all fun ch => 'a' ≤ ch ∨ ch = '_') :
    (∀ ch ∈ name.toList, ch ∉ [';', '=', '[', ']', '\n']) ∧
      decodeTagValue name.toList = name.toList := by
  have clear : ∀ ch ∈ name.toList, ch ∉ [';', '=', '[', ']', '\n', '%'] := by
    intro ch member special
    have letter := all_eq_true.mp letters ch member
    revert letter
    simp only [mem_cons, not_mem_nil, or_false] at special
    rcases special with rfl | rfl | rfl | rfl | rfl | rfl <;> decide
  refine ⟨fun ch member special => clear ch member ?_, decodeTagValue_plain fun member => ?_⟩
  · simp only [mem_cons, not_mem_nil, or_false] at special ⊢
    tauto
  · exact clear '%' member (by decide)

theorem sound_of_name {text : String} (nameLetters : name.toList.all fun ch => 'a' ≤ ch ∨ ch = '_')
    (letters : text.toList.all fun ch => 'a' ≤ ch ∨ ch = '_') (name_ne : name.toList ≠ [])
    (some : text.toList ≠ []) : Tag.Sound ⟨name, text.toList, text.toList⟩ where
  name_ne := name_ne
  name_clear := (plain_name nameLetters).1
  written_ne := some
  written_clear ch member special := (plain_name letters).1 ch member (by
    simp only [mem_cons, not_mem_nil, or_false] at special ⊢
    tauto)
  written_break := Iff.rfl
  read := (plain_name letters).2

theorem sound_of_value (nameLetters : name.toList.all fun ch => 'a' ≤ ch ∨ ch = '_')
    (name_ne : name.toList ≠ []) {value : Chars} (some : value ≠ []) :
    Tag.Sound ⟨name, encodeTagValue value, value⟩ where
  name_ne := name_ne
  name_clear := (plain_name nameLetters).1
  written_ne := encodeTagValue_ne_nil some
  written_clear _ member := (mem_encodeTagValue member).1
  written_break := ⟨fun member => (mem_encodeTagValue member).2 rfl, lineFeed_mem_encode⟩
  read := decodeTagValue_encode value

/-- Reference and evidence URI are not empty. -/
def Filled (provenance : Option MemoryProvenance) : Prop :=
  ∀ given ∈ provenance, given.reference ≠ [] ∧ ∀ uri ∈ given.evidenceUri, uri ≠ []

theorem tagsOf_sound (filled : Filled provenance) : ∀ tag ∈ tagsOf layer provenance, tag.Sound := by
  have layerSound : Tag.Sound
      ⟨"layer", (memoryLayerToStr layer).toList, (memoryLayerToStr layer).toList⟩ := by
    cases layer <;> exact sound_of_name (by decide) (by decide) (by decide) (by decide)
  refine forall_mem_cons.mpr ⟨layerSound, ?_⟩
  rcases provenance with _ | ⟨source, reference, evidenceUri⟩
  · nofun
  · obtain ⟨referenceFilled, uriFilled⟩ := filled _ rfl
    have sourceSound : Tag.Sound ⟨"provenance_source_class", (memorySourceToStr source).toList,
        (memorySourceToStr source).toList⟩ := by
      cases source <;> exact sound_of_name (by decide) (by decide) (by decide) (by decide)
    refine forall_mem_cons.mpr ⟨sourceSound, forall_mem_cons.mpr
      ⟨sound_of_value (by decide) (by decide) referenceFilled, ?_⟩⟩
    cases evidenceUri with
    | none => nofun
    | some uri =>
      exact forall_mem_singleton.mpr
        (sound_of_value (by decide) (by decide) (uriFilled uri rfl))

theorem splitOnce_at {front : Chars} (absent : separator ∉ front) (back : Chars) :
    splitOnce separator (front ++ separator :: back) = some (front, back) := by
  induction front with
  | nil => simp [splitOnce]
  | cons ch rest ih =>
    have differs : ch ≠ separator := fun same => absent (same ▸ mem_cons_self)
    rw [cons_append, splitOnce, if_neg differs, ih fun member => absent (mem_cons_of_mem _ member)]
    rfl

theorem parseMarkdownTags_fields {tags : List Tag} (some : tags ≠ []) (sound : ∀ tag ∈ tags, tag.Sound) :
    parseMarkdownTags ([';'].intercalate (tags.map fun tag => tagField tag.name tag.written)) =
      tags.map fun tag => (tag.name.toList, tag.value) := by
  have clear : ∀ field ∈ tags.map fun tag => tagField tag.name tag.written, ';' ∉ field := by
    intro field member inside
    obtain ⟨tag, inTags, rfl⟩ := mem_map.mp member
    rcases mem_append.mp inside with inName | inRest
    · exact (sound tag inTags).name_clear ';' inName (by decide)
    · rcases mem_cons.mp inRest with same | inWritten
      · exact absurd same (by decide)
      · exact (sound tag inTags).written_clear ';' inWritten (by decide)
  rw [parseMarkdownTags, splitOn_intercalate ';' clear (by simpa using some),
    filterMap_map, ← filterMap_eq_map]
  refine filterMap_congr fun tag member => ?_
  obtain ⟨name_ne, name_clear, written_ne, _, _, read⟩ := sound tag member
  have absent : '=' ∉ tag.name.toList := fun inName => name_clear '=' inName (by decide)
  simp only [Function.comp_apply, tagField, splitOnce_at absent, Option.bind_some, read,
    isEmpty_eq_false_iff.mpr name_ne, isEmpty_eq_false_iff.mpr written_ne, Bool.or_self,
    Bool.false_eq_true, ↓reduceIte]

/-- The tags between the brackets. -/
def tagText (layer : MemoryLayer) (provenance : Option MemoryProvenance) : Chars :=
  [';'].intercalate (tagFields layer provenance)

theorem getTag_fields (tags : List Tag) (name : String) :
    getTag (tags.map fun tag => (tag.name.toList, tag.value)) name =
      (tags.reverse.find? fun tag => tag.name = name).map Tag.value := by
  rw [getTag, ← map_reverse, find?_map, Option.map_map]
  have sameTest : ((fun tag : Chars × Chars => decide (tag.1 = name.toList)) ∘
      fun tag : Tag => (tag.name.toList, tag.value)) = fun tag => decide (tag.name = name) := by
    funext tag
    exact decide_eq_decide.mpr String.toList_inj
  rw [sameTest]
  rfl

theorem parseMemoryLayer_toStr :
    parseMemoryLayer (memoryLayerToStr layer).toList = some layer := by
  cases layer <;> decide

theorem parseMemorySource_toStr (source : MemorySource) :
    parseMemorySource (memorySourceToStr source).toList = some source := by
  cases source <;> decide

/-- Layer and provenance are read from the tags as they were written. -/
theorem parse_tagText (filled : Filled provenance) :
    (getTag (parseMarkdownTags (tagText layer provenance)) "layer").bind parseMemoryLayer =
        some layer ∧
      parseProvenance (parseMarkdownTags (tagText layer provenance)) = provenance := by
  rw [tagText, tagFields_eq,
    parseMarkdownTags_fields (tagsOf_ne_nil _ _) (tagsOf_sound layer filled), parseProvenance]
  simp only [getTag_fields]
  rcases provenance with _ | ⟨source, reference, _ | uri⟩ <;>
    simp [tagsOf, parseMemoryLayer_toStr, parseMemorySource_toStr]

theorem mem_intercalate_of_mem {fields : List Chars} {field : Chars}
    (inFields : field ∈ fields) (member : ch ∈ field) : ch ∈ [separator].intercalate fields := by
  induction fields with
  | nil => cases inFields
  | cons first rest ih =>
    cases rest with
    | nil =>
      rw [intercalate_singleton, ← mem_singleton.mp inFields]
      exact member
    | cons second others =>
      rw [intercalate_cons_cons]
      rcases mem_cons.mp inFields with rfl | later
      · exact mem_append_left _ (mem_append_left _ member)
      · exact mem_append_right _ (ih later)

theorem mem_tagText {layer : MemoryLayer}
    (filled : Filled provenance) (member : ch ∈ tagText layer provenance) :
    ch ∉ ['[', ']'] := by
  rw [tagText, tagFields_eq] at member
  intro special
  rcases mem_intercalate member with rfl | ⟨field, inFields, inField⟩
  · exact absurd special (by decide)
  · obtain ⟨tag, inTags, rfl⟩ := mem_map.mp inFields
    have tagSound := tagsOf_sound layer filled tag inTags
    simp only [mem_cons, not_mem_nil, or_false] at special
    rcases mem_append.mp inField with inName | inRest
    · refine tagSound.name_clear ch inName ?_
      rcases special with rfl | rfl <;> decide
    · rcases mem_cons.mp inRest with rfl | inWritten
      · exact absurd special (by decide)
      · refine tagSound.written_clear ch inWritten ?_
        rcases special with rfl | rfl <;> decide

/-- No text of the provenance has a line feed. -/
def OneLine (provenance : Option MemoryProvenance) : Prop :=
  ∀ given ∈ provenance, '\n' ∉ given.reference ∧ ∀ uri ∈ given.evidenceUri, '\n' ∉ uri

theorem lineFeed_notMem_tagText (filled : Filled provenance) (oneLine : OneLine provenance) :
    '\n' ∉ tagText layer provenance := by
  have names : ∀ layer source, '\n' ∉ (memoryLayerToStr layer).toList ∧
      '\n' ∉ (memorySourceToStr source).toList := by
    intro layer source
    cases layer <;> cases source <;> decide
  have values : ∀ tag ∈ tagsOf layer provenance, '\n' ∉ tag.value := by
    rcases provenance with _ | ⟨source, reference, _ | uri⟩
    · simp [tagsOf, names layer .system]
    · have clear := oneLine _ rfl
      simp [tagsOf, names layer source, clear.1]
    · have clear := oneLine _ rfl
      simp [tagsOf, names layer source, clear.1, clear.2 uri rfl]
  intro member
  rw [tagText, tagFields_eq] at member
  rcases mem_intercalate member with same | ⟨field, inFields, inField⟩
  · exact absurd same (by decide)
  · obtain ⟨tag, inTags, rfl⟩ := mem_map.mp inFields
    have tagSound := tagsOf_sound layer filled tag inTags
    rcases mem_append.mp inField with inName | inRest
    · exact tagSound.name_clear '\n' inName (by decide)
    · rcases mem_cons.mp inRest with same | inWritten
      · exact absurd same (by decide)
      · exact values tag inTags (tagSound.written_break.mp inWritten)

/-- A line feed in the provenance is written as it is. -/
theorem oneLine_of_notMem
    (filled : Filled provenance) (clear : '\n' ∉ tagText layer provenance) : OneLine provenance := by
  have values : ∀ tag ∈ tagsOf layer provenance, '\n' ∉ tag.value := by
    intro tag inTags member
    refine clear ?_
    rw [tagText, tagFields_eq]
    refine mem_intercalate_of_mem (mem_map_of_mem inTags) (mem_append_right _ ?_)
    exact mem_cons_of_mem _ ((tagsOf_sound layer filled tag inTags).written_break.mpr member)
  rintro ⟨source, reference, evidenceUri⟩ given
  rw [Option.mem_def.mp given, tagsOf] at values
  refine ⟨values ⟨"provenance_reference", encodeTagValue reference, reference⟩ (by simp), ?_⟩
  intro uri uriGiven
  obtain rfl : evidenceUri = some uri := uriGiven
  exact values ⟨"provenance_evidence_uri", encodeTagValue uri, uri⟩ (by simp)

end Tagging

section Parsing

variable (key : Chars) {provenance : Option MemoryProvenance}

theorem isPrefixOf?_append (front back : Chars) : front.isPrefixOf? (front ++ back) = some back :=
  List.isPrefixOf?_eq_some_iff_append_eq.mpr rfl

/-- The line up to the value. -/
def lineFront (key : Chars) (layer : MemoryLayer) (provenance : Option MemoryProvenance) : Chars :=
  "- **".toList ++ key ++ "** [md:".toList ++ tagText layer provenance

theorem formatTaggedLine_eq (value : Chars) (layer : MemoryLayer)
    (provenance : Option MemoryProvenance) :
    formatTaggedLine key value layer provenance =
      lineFront key layer provenance ++ "]: ".toList ++ value := rfl

/-- White space behind the value is trimmed, and the blank in front of nothing too. -/
theorem trim_line (value : Chars) (layer : MemoryLayer) (provenance : Option MemoryProvenance) :
    trim (lineFront key layer provenance ++ "]: ".toList ++ value) =
      lineFront key layer provenance ++
        if trimEnd value = [] then "]:".toList else "]: ".toList ++ trimEnd value := by
  have marker : "]: ".toList = [']', ':', ' '] := by decide
  have cut : "]:".toList = [']', ':'] := by decide
  have start : trimStart (lineFront key layer provenance ++ "]: ".toList ++ value) =
      lineFront key layer provenance ++ "]: ".toList ++ value := by
    apply trimStart_eq_self
    intro ch first
    have dash : ch = '-' := (Option.some.inj first).symm
    subst dash
    decide
  have blank : trimEnd (' ' :: value) =
      if trimEnd value = [] then [] else ' ' :: trimEnd value := by
    rw [trimEnd, reverse_cons, trimStart, dropWhile_append]
    by_cases empty : trimEnd value = []
    · have none : value.reverse.dropWhile isWhitespace = [] := by
        simpa [trimEnd, trimStart] using empty
      rw [if_pos (by simp [none]), if_pos empty]
      decide
    · have some : ¬ (value.reverse.dropWhile isWhitespace).isEmpty = true := by
        intro none
        apply empty
        rw [trimEnd, trimStart, List.isEmpty_iff.mp none, reverse_nil]
      rw [if_neg some, if_neg empty, reverse_append]
      rfl
  have visible : isWhitespace ':' = false := by decide
  have split : lineFront key layer provenance ++ "]: ".toList ++ value =
      (lineFront key layer provenance ++ [']']) ++ ':' :: ' ' :: value := by
    simp [marker]
  rw [trim, start, split, trimEnd_append_cons visible, blank]
  split_ifs <;> simp [marker, cut]

/-- The key of a line without asterisks is found again. -/
theorem parse_front {key : Chars} (plain : '*' ∉ key) {line rest : Chars}
    (trimmed : trim line = "- **".toList ++ key ++ "** [md:".toList ++ rest) :
    parseMarkdownEntryLine line = parseRest key ("[md:".toList ++ rest) := by
  have bullet : trim line = "- ".toList ++ ("**".toList ++ (key ++ "**".toList ++
      (' ' :: ("[md:".toList ++ rest)))) := by
    rw [trimmed]
    have opening : "- **".toList = "- ".toList ++ "**".toList := by decide
    have closing : "** [md:".toList = "**".toList ++ ' ' :: "[md:".toList := by decide
    simp only [opening, closing, append_assoc, cons_append]
  have asterisks : "**".toList = '*' :: ['*'] := by decide
  have white : trimStart (' ' :: ("[md:".toList ++ rest)) = "[md:".toList ++ rest := by
    have marker : "[md:".toList = '[' :: "md:".toList := by decide
    have blank : isWhitespace ' ' = true := by decide
    have visible : isWhitespace '[' = false := by decide
    rw [marker, cons_append]
    simp [trimStart, blank, visible]
  rw [parseMarkdownEntryLine, bullet, isPrefixOf?_append]
  simp only [Option.bind_eq_bind, Option.bind_some, isPrefixOf?_append]
  rw [asterisks, find_behind ['*'] _ plain, Option.bind_some, white]

/-- The tags are found again in front of a value. -/
theorem parseRest_tagged (layer : MemoryLayer) (filled : Filled provenance) (content : Chars) :
    parseRest key ("[md:".toList ++ (tagText layer provenance ++ "]: ".toList ++ content)) =
      some ⟨key, content, some layer, provenance⟩ := by
  have marker : "]: ".toList = ']' :: [':', ' '] := by decide
  have absent : ']' ∉ tagText layer provenance := fun member =>
    mem_tagText filled member (by decide)
  have untagged : ": ".toList.isPrefixOf?
      ("[md:".toList ++ (tagText layer provenance ++ "]: ".toList ++ content)) = none := rfl
  obtain ⟨layers, provenances⟩ := parse_tagText layer filled
  rw [parseRest, untagged, isPrefixOf?_append, Option.map_some, marker, find_behind _ _ absent]
  simp only [layers, provenances, Option.getD_some]

/-- Without the marker behind the tags the line counts as untagged. -/
theorem parseRest_unmarked {rest : Chars} (absent : ¬ "]: ".toList <:+: rest) :
    parseRest key ("[md:".toList ++ rest) = some ⟨key, "[md:".toList ++ rest, none, none⟩ := by
  have untagged : ": ".toList.isPrefixOf? ("[md:".toList ++ rest) = none := rfl
  have unmarked : find "]: ".toList rest = none := find_eq_none_iff.mpr absent
  simp only [parseRest, untagged, isPrefixOf?_append, Option.map_some, unmarked]

/-- What the reader makes of a line as the writer formats it. -/
theorem parse_formatted {key : Chars} (plain : '*' ∉ key) (value : Chars) (layer : MemoryLayer)
    (filled : Filled provenance) :
    parseMarkdownEntryLine (formatTaggedLine key value layer provenance) =
      some (if trimEnd value = [] then
        ⟨key, "[md:".toList ++ (tagText layer provenance ++ "]:".toList), none, none⟩
      else ⟨key, trimEnd value, some layer, provenance⟩) := by
  have trimmed := trim_line key value layer provenance
  rw [formatTaggedLine_eq]
  split_ifs at trimmed ⊢ with empty
  · refine (parse_front plain (trimmed.trans (append_assoc _ _ _))).trans
      (parseRest_unmarked key ?_)
    -- an occurrence would begin inside of the tags
    rintro ⟨front, back, occurs⟩
    have marker : "]: ".toList = [']', ':', ' '] := by decide
    have cut : "]:".toList = [']', ':'] := by decide
    rw [marker, cut, append_assoc] at occurs
    have lengths := congrArg List.length occurs
    simp only [length_append, length_cons, length_nil] at lengths
    have symbol := congrArg (fun text : Chars => text[front.length]?) occurs
    rw [List.getElem?_append_right (Nat.le_refl _), Nat.sub_self, cons_append,
      List.getElem?_cons_zero, List.getElem?_append_left (by omega)] at symbol
    exact mem_tagText filled (mem_of_getElem? symbol.symm) (by decide)
  · rw [parse_front plain (trimmed.trans (append_assoc _ _ _)),
      ← append_assoc (tagText layer provenance), parseRest_tagged key layer filled]

end Parsing

section Files

theorem trim_stripCarriageReturn (line : Chars) :
    trim (stripCarriageReturn line) = trim line := by
  rw [stripCarriageReturn]
  split
  case isTrue ending =>
    have white : isWhitespace '\r' = true := by decide
    conv_rhs => rw [← dropLast_append_getLast? '\r' ending]
    rw [trim_concat_white white]
  case isFalse => rfl

/-- Only lines that begin with a bullet are entries. -/
theorem parse_eq_none {line : Chars} (noBullet : (trim line).head? ≠ some '-') :
    parseMarkdownEntryLine line = none := by
  have none : "- ".toList.isPrefixOf? (trim line) = none := by
    cases found : "- ".toList.isPrefixOf? (trim line) with
    | none => rfl
    | some rest =>
      rw [← List.isPrefixOf?_eq_some_iff_append_eq.mp found] at noBullet
      exact absurd rfl noBullet
  rw [parseMarkdownEntryLine, none]
  rfl

/-- Blank lines, headings and carriage returns make no difference to the entries. -/
theorem parsedLines_eq (content : Chars) :
    parsedLines content = (content.splitOn '\n').filterMap parseMarkdownEntryLine := by
  have kept : ∀ lines : List Chars, (lines.filter fun line => !(trim line).isEmpty &&
      (trim line).head? ≠ some '#').filterMap parseMarkdownEntryLine =
        lines.filterMap parseMarkdownEntryLine := by
    intro lines
    rw [filterMap_filter]
    refine filterMap_congr fun line _ => ?_
    split
    · rfl
    · refine (parse_eq_none fun bullet => ?_).symm
      cases shape : trim line with
      | nil => simp [shape] at bullet
      | cons first rest =>
        simp only [shape, head?_cons, Option.some.injEq] at bullet
        subst bullet
        simp_all
  have stripped : ∀ line, parseMarkdownEntryLine (stripCarriageReturn line) =
      parseMarkdownEntryLine line := by
    intro line
    rw [parseMarkdownEntryLine, trim_stripCarriageReturn, parseMarkdownEntryLine]
  rw [parsedLines, kept, lines]
  have some := splitOn_ne_nil '\n' content
  conv_rhs => rw [← dropLast_concat_getLast some]
  rw [filterMap_append, filterMap_append, filterMap_map]
  congr 1
  · exact filterMap_congr fun line _ => stripped line
  · rw [getLastD_eq_getLast?, getLast?_eq_some_getLast some, Option.getD_some]
    split
    case isTrue empty =>
      rw [List.isEmpty_iff.mp empty]
      rfl
    case isFalse => rfl

/-- The entries of two texts with a line feed between them. -/
theorem parsedLines_append (front back : Chars) :
    parsedLines (front ++ '\n' :: back) = parsedLines front ++ parsedLines back := by
  rw [parsedLines_eq, splitOn_append_cons_self, filterMap_append, parsedLines_eq, parsedLines_eq]

@[simp] theorem parsedLines_nil : parsedLines [] = [] := rfl

end Files

section RoundTrip

variable {back front line : Chars} {entry : ParsedMarkdownLine}

/-- Where the parts of an entry stand in its line. -/
theorem parse_cases (parsed : parseMarkdownEntryLine line = some entry) :
    (∀ ch ∈ entry.content, ch ∈ line) ∧ (entry.provenance = none ∨ ∃ blank tags, Text.Blank blank ∧
        trim line = "- **".toList ++ entry.key ++ "**".toList ++ blank ++ "[md:".toList ++ tags ++
          "]: ".toList ++ entry.content) := by
  simp only [parseMarkdownEntryLine, Option.bind_eq_bind, Option.bind_eq_some_iff] at parsed
  obtain ⟨withoutBullet, bullet, withoutKey, asterisks, ⟨key, rest⟩, found, parsed⟩ := parsed
  rw [List.isPrefixOf?_eq_some_iff_append_eq] at bullet asterisks
  have split := find_eq_some found
  obtain ⟨blank, isBlank, restEq⟩ : ∃ blank, Text.Blank blank ∧ rest = blank ++ trimStart rest :=
    ⟨rest.takeWhile isWhitespace, fun _ member => mem_takeWhile_imp member,
      takeWhile_append_dropWhile.symm⟩
  have whole : trim line = "- **".toList ++ key ++ "**".toList ++ blank ++ trimStart rest := by
    have opening : "- **".toList = "- ".toList ++ "**".toList := by decide
    rw [← bullet, ← asterisks, split, opening]
    conv_lhs => rw [restEq]
    simp only [append_assoc]
  have inside : ∀ ch ∈ trimStart rest, ch ∈ line := by
    intro ch member
    refine (trim_isInfix line).subset ?_
    rw [whole]
    exact mem_append_right _ member
  rw [parseRest] at parsed
  split at parsed
  case h_1 content untagged =>
    cases parsed
    rw [List.isPrefixOf?_eq_some_iff_append_eq] at untagged
    exact ⟨fun ch member => inside ch (untagged ▸ mem_append_right _ member), .inl rfl⟩
  case h_2 =>
    obtain ⟨marked, tagged, parsed⟩ := Option.map_eq_some_iff.mp parsed
    rw [List.isPrefixOf?_eq_some_iff_append_eq] at tagged
    split at parsed
    case h_1 =>
      cases parsed
      exact ⟨fun ch member => inside ch (tagged ▸ member), .inl rfl⟩
    case h_2 rawTags content ends =>
      cases parsed
      have marks := find_eq_some ends
      refine ⟨fun ch member => inside ch ?_, .inr ⟨blank, rawTags, isBlank, ?_⟩⟩
      · rw [← tagged, marks]
        exact mem_append_right _ (mem_append_right _ member)
      · rw [whole, ← tagged, marks]
        simp only [append_assoc]

theorem provenance_eq_none (unmarked : ']' ∉ line)
    (parsed : parseMarkdownEntryLine line = some entry) : entry.provenance = none := by
  rcases (parse_cases parsed).2 with none | ⟨blank, tags, _, whole⟩
  · exact none
  · refine absurd ((trim_isInfix line).subset ?_) unmarked
    rw [whole]
    simp

/-- A line that closes brackets before it opens any is no tagged entry of a plain key. -/
theorem mem_key_of_closed (unopened : '[' ∉ front)
    (parsed : parseMarkdownEntryLine (front ++ ']' :: back) = some entry)
    (some : entry.provenance ≠ none) : ']' ∈ entry.key := by
  rcases (parse_cases parsed).2 with none | ⟨blank, tags, isBlank, whole⟩
  · exact absurd none some
  · have visible : isWhitespace ']' = false := by decide
    have start : trimStart (front ++ ']' :: back) = trimStart front ++ ']' :: back := by
      rw [trimStart, dropWhile_append, trimStart]
      split
      case isTrue empty =>
        rw [List.isEmpty_iff.mp empty, dropWhile_cons_of_neg (by simp [visible])]
        rfl
      case isFalse => rfl
    rw [trim, start, trimEnd_append_cons visible] at whole
    have opening : "[md:".toList = '[' :: "md:".toList := by decide
    have shape : trimStart front ++ ']' :: trimEnd back =
        ("- **".toList ++ entry.key ++ "**".toList ++ blank) ++ '[' :: ("md:".toList ++ tags ++
          "]: ".toList ++ entry.content) := by
      rw [whole, opening]
      simp only [append_assoc, cons_append]
    have closed : ']' ∈ "- **".toList ++ entry.key ++ "**".toList ++ blank := by
      rcases append_eq_append_iff.mp shape with ⟨gap, behind, same⟩ | ⟨gap, inFront, same⟩
      · cases gap with
        | nil => cases (List.cons.inj same).1
        | cons ch others =>
          rw [behind, (List.cons.inj same).1]
          exact mem_append_right _ mem_cons_self
      · cases gap with
        | nil => cases (List.cons.inj same).1
        | cons ch others =>
          refine absurd ((dropWhile_sublist _).subset (?_ : '[' ∈ trimStart front)) unopened
          rw [inFront, (List.cons.inj same).1]
          exact mem_append_right _ mem_cons_self
    simp only [mem_append] at closed
    rcases closed with ((inBullet | inKey) | inStars) | inBlank
    · exact absurd inBullet (by decide)
    · exact inKey
    · exact absurd inStars (by decide)
    · exact absurd (isBlank _ inBlank) (by simp [visible])

/-- A line feed behind the first text and not behind the second stands in the second. -/
theorem tail_of_break {tags before rest : Chars} (frontClear : '\n' ∉ front)
    (backClear : '\n' ∉ back) (whole : front ++ tags ++ back = before ++ '\n' :: rest) :
    ∃ tail, (∀ ch ∈ tail, ch ∈ tags) ∧ rest = tail ++ back := by
  rcases append_eq_append_iff.mp whole with ⟨gap, _, behind⟩ | ⟨gap, inside, behind⟩
  · exact absurd (behind ▸ mem_append_right gap mem_cons_self) backClear
  · cases gap with
    | nil =>
      rw [nil_append] at behind
      exact absurd (behind ▸ mem_cons_self) backClear
    | cons ch tail =>
      obtain ⟨rfl, rfl⟩ := List.cons.inj behind
      refine ⟨tail, fun symbol member => ?_, rfl⟩
      rcases append_eq_append_iff.mp inside with ⟨gap, _, tagsEq⟩ | ⟨gap, frontEq, tagsEq⟩
      · rw [tagsEq]
        exact mem_append_right _ (mem_cons_of_mem _ member)
      · cases gap with
        | nil =>
          rw [nil_append] at tagsEq
          exact tagsEq ▸ mem_cons_of_mem _ member
        | cons first others =>
          obtain ⟨rfl, _⟩ := List.cons.inj tagsEq
          exact absurd (frontEq ▸ mem_append_right _ mem_cons_self) frontClear

/-- The pieces of a text with a line feed in the tags: the first one ends inside of them,
and the others end inside of them or are read up to the value. -/
theorem pieces_of_broken {tags value : Chars} (frontClear : '\n' ∉ front)
    (broken : '\n' ∈ tags) (valueClear : '\n' ∉ value) :
    ∀ piece ∈ (front ++ tags ++ "]: ".toList ++ value).splitOn '\n',
      (∀ ch ∈ piece, ch ∈ front ∨ ch ∈ tags) ∨
        ∃ tail, (∀ ch ∈ tail, ch ∈ tags) ∧ piece = tail ++ "]: ".toList ++ value := by
  intro piece member
  rw [splitOn_eq_splitOnP, Cutter.mem_splitOnP_iff] at member
  have stop : ∀ {text more : Chars}, '\n' ∈ text →
      ∀ ch ∈ (text ++ more).takeWhile (fun symbol => !(symbol == '\n')), ch ∈ text := by
    intro text more inside ch member
    rw [takeWhile_append] at member
    split at member
    case isTrue whole =>
      have all := takeWhile_eq_self_iff.mp
        ((List.takeWhile_prefix _).eq_of_length whole) _ inside
      simp at all
    case isFalse => exact (takeWhile_sublist _).subset member
  rcases member with rfl | ⟨before, symbol, rest, whole, separates, rfl⟩
  · left
    intro ch member
    rw [append_assoc] at member
    exact mem_append.mp (stop (mem_append_right front broken) ch member)
  · rw [beq_iff_eq] at separates
    subst separates
    rw [append_assoc] at whole
    have clear : '\n' ∉ "]: ".toList ++ value := by
      rw [mem_append, not_or]
      exact ⟨by decide, valueClear⟩
    obtain ⟨tail, tailInTags, rfl⟩ := tail_of_break frontClear clear whole
    by_cases more : '\n' ∈ tail
    · exact .inl fun ch member => .inr (tailInTags ch (stop more ch member))
    · refine .inr ⟨tail, tailInTags, ?_⟩
      rw [append_assoc]
      refine takeWhile_eq_self_iff.mpr fun ch member => ?_
      have differs : ch ≠ '\n' := by
        rintro rfl
        rcases mem_append.mp member with inTail | inRest
        · exact more inTail
        · exact clear inRest
      simpa using differs

/-- What the value and the provenance must be like to be read as they were written. -/
structure Writable (value : Chars) (provenance : Option MemoryProvenance) : Prop where
  oneLine : '\n' ∉ value
  nonempty : value ≠ []
  trimmed : trimEnd value = value
  provenance : OneLine provenance

/-- The line is read as one entry with all that was written. -/
def RoundTrips (key value : Chars) (layer : MemoryLayer) (provenance : Option MemoryProvenance) :
    Prop :=
  ∃ entry, parsedLines (formatTaggedLine key value layer provenance) = [entry] ∧
    entry.key = key ∧ entry.content = value ∧ entry.layer = some layer ∧
    ∀ given ∈ provenance, entry.provenance = some given

/-- Keys contain neither of the characters that mark the parts of a line. -/
def PlainKey (key : Chars) : Prop := '*' ∉ key ∧ ']' ∉ key ∧ '\n' ∉ key

variable {key value : Chars} {layer : MemoryLayer} {provenance : Option MemoryProvenance}

variable (plain : PlainKey key) (filled : Filled provenance)
include plain filled

theorem lineFeed_notMem_front
    (oneLine : OneLine provenance) : '\n' ∉ lineFront key layer provenance := by
  unfold lineFront
  refine not_mem_append (not_mem_append (not_mem_append ?_ plain.2.2) ?_)
    (lineFeed_notMem_tagText layer filled oneLine)
  · decide
  · decide

/-- Without line feeds the line is read as one entry. -/
theorem parsedLines_formatted (oneLine : OneLine provenance) (valueClear : '\n' ∉ value) :
    parsedLines (formatTaggedLine key value layer provenance) = [if trimEnd value = [] then
        ⟨key, "[md:".toList ++ (tagText layer provenance ++ "]:".toList), none, none⟩
      else ⟨key, trimEnd value, some layer, provenance⟩] := by
  have single : '\n' ∉ formatTaggedLine key value layer provenance := by
    rw [formatTaggedLine_eq, mem_append, mem_append, not_or, not_or]
    exact ⟨⟨lineFeed_notMem_front plain filled oneLine, by decide⟩, valueClear⟩
  rw [parsedLines_eq, splitOn_eq_singleton single, filterMap_cons,
    parse_formatted plain.1 value layer filled, filterMap_nil]

theorem roundTrips_of_writable (writable : Writable value provenance) :
    parsedLines (formatTaggedLine key value layer provenance) =
      [⟨key, value, some layer, provenance⟩] := by
  rw [parsedLines_formatted plain filled writable.provenance writable.oneLine, writable.trimmed,
    if_neg writable.nonempty]

/-- With a line feed in the tags no entry has the key and a provenance. -/
theorem no_provenance_of_broken
    (broken : '\n' ∈ tagText layer provenance) (valueClear : '\n' ∉ value) :
    ∀ entry ∈ parsedLines (formatTaggedLine key value layer provenance), entry.key = key →
      entry.provenance = none := by
  intro entry member same
  rw [parsedLines_eq] at member
  obtain ⟨piece, inPieces, parsed⟩ := mem_filterMap.mp member
  have frontClear : '\n' ∉ "- **".toList ++ key ++ "** [md:".toList := by
    simp only [mem_append, not_or]
    exact ⟨⟨by decide, plain.2.2⟩, by decide⟩
  rcases pieces_of_broken frontClear broken valueClear piece inPieces with
    inside | ⟨tail, inTags, rfl⟩
  · refine provenance_eq_none (fun closing => ?_) parsed
    rcases inside ']' closing with inFront | inTags
    · simp only [mem_append] at inFront
      rcases inFront with (inBullet | inKey) | inMarker
      · exact absurd inBullet (by decide)
      · exact plain.2.1 inKey
      · exact absurd inMarker (by decide)
    · exact mem_tagText filled inTags (by decide)
  · by_contra some
    have marker : "]: ".toList = ']' :: [':', ' '] := by decide
    rw [marker, append_assoc, cons_append] at parsed
    have unopened : '[' ∉ tail := fun opening => mem_tagText filled (inTags _ opening) (by decide)
    exact plain.2.1 (same ▸ mem_key_of_closed unopened parsed some)

theorem roundTrips_iff :
    RoundTrips key value layer provenance ↔ Writable value provenance := by
  constructor
  · rintro ⟨entry, single, sameKey, sameValue, _, sameProvenance⟩
    have member : entry ∈ parsedLines (formatTaggedLine key value layer provenance) := by
      rw [single]
      exact mem_cons_self
    have valueClear : '\n' ∉ value := by
      rw [parsedLines_eq] at member
      obtain ⟨piece, inPieces, parsed⟩ := mem_filterMap.mp member
      intro broken
      have inPiece := (parse_cases parsed).1 '\n' (sameValue ▸ broken)
      rw [splitOn_eq_splitOnP, Cutter.mem_splitOnP_iff] at inPieces
      rcases inPieces with rfl | ⟨_, _, _, _, _, rfl⟩
      · exact absurd (mem_takeWhile_imp inPiece) (by decide)
      · exact absurd (mem_takeWhile_imp inPiece) (by decide)
    have oneLine : OneLine provenance := by
      by_contra broken
      have inTags : '\n' ∈ tagText layer provenance :=
        Classical.not_not.mp fun clear => broken (oneLine_of_notMem layer filled clear)
      have none := no_provenance_of_broken plain filled inTags valueClear entry member sameKey
      refine broken fun given isGiven => ?_
      cases none.symm.trans (sameProvenance given isGiven)
    rw [parsedLines_formatted plain filled oneLine valueClear, List.cons.injEq] at single
    have content := (congrArg ParsedMarkdownLine.content single.1).trans sameValue
    have trimmed : trimEnd value = value ∧ value ≠ [] := by
      split_ifs at content with empty
      · have visible : isWhitespace '[' = false := by decide
        have marker : "[md:".toList = '[' :: "md:".toList := by decide
        have kept := trimEnd_append_cons visible []
          ("md:".toList ++ (tagText layer provenance ++ "]:".toList))
        rw [nil_append, ← cons_append, ← marker] at kept
        rw [show "[md:".toList ++ (tagText layer provenance ++ "]:".toList) = value from content,
          empty] at kept
        cases kept
      · refine ⟨content, ?_⟩
        rintro rfl
        exact empty rfl
    exact ⟨valueClear, trimmed.2, trimmed.1, oneLine⟩
  · intro writable
    exact ⟨_, roundTrips_of_writable plain filled writable, rfl, rfl, rfl, fun _ given => given⟩

end RoundTrip

end Asterel.Markdown
