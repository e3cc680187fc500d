import Asterel.Library.Cut
import Mathlib.Data.List.DropRight
import Mathlib.Data.List.Infix

/-!
# Text as a list of characters

White space is the Unicode `White_Space` property. Trimming drops it at both
ends, and splitting on it yields the maximal runs of other characters, the
words of the text.
-/

namespace Library.Text

variable {char separator : Char} (separates : Char → Bool) {before front rest text word : List Char}

open Library List

/-- The characters with the Unicode `White_Space` property. -/
def isWhitespace (char : Char) : Bool :=
  let code := char.toNat
  (9 ≤ code && code ≤ 13) || code == 32 || code == 0x85 || code == 0xA0 || code == 0x1680 ||
    (0x2000 ≤ code && code ≤ 0x200A) || code == 0x2028 || code == 0x2029 || code == 0x202F ||
    code == 0x205F || code == 0x3000

def trimStart (text : List Char) : List Char := text.dropWhile isWhitespace

def trimEnd (text : List Char) : List Char := (trimStart text.reverse).reverse

def trim (text : List Char) : List Char := trimEnd (trimStart text)

/-- The words of a text. -/
def splitWhitespace (text : List Char) : List (List Char) :=
  (text.splitOnP isWhitespace).filter fun word => word ≠ []

/-- The text before and after the first occurrence of a character. -/
def splitOnce (separator : Char) : List Char → Option (List Char × List Char)
  | [] => none
  | char :: rest =>
    if char = separator then some ([], rest)
    else (splitOnce separator rest).map fun parts => (char :: parts.1, parts.2)

/-- What holds of all characters of a text is decided over the text. -/
scoped instance (priority := high) decidableForallMem {text : List Char} {p : Char → Prop}
    [DecidablePred p] : Decidable (∀ char ∈ text, p char) := decidableBAll p text

/-- Whether a text occurs inside another one. -/
def occurs (pattern text : List Char) : Bool := pattern <:+: text

def replaceChar (old new : Char) (text : List Char) : List Char :=
  text.map fun char => if char = old then new else char

/-- Replace the occurrences of a pattern of two characters, from the left and
without overlap. -/
def replacePair (first second new : Char) : List Char → List Char
  | [] => []
  | [char] => [char]
  | char :: next :: rest =>
    if char = first ∧ next = second then new :: replacePair first second new rest
    else char :: replacePair first second new (next :: rest)

/-- The lower case of a character. Beyond ASCII only the two characters whose
lower case has an ASCII letter in it are mapped, so an ASCII text occurs in the
result exactly when it occurs in the full Unicode lower case. -/
def lowerChar (char : Char) : List Char :=
  if char.toNat = 0x212A then ['k']
  else if char.toNat = 0x130 then ['i', '\u0307']
  else [char.toLower]

def toLowercase (text : List Char) : List Char := text.flatMap lowerChar

/-- A text of white space only. -/
def Blank (text : List Char) : Prop := ∀ char ∈ text, isWhitespace char

/-- The word a text begins with, after white space. -/
def firstWord (text : List Char) : Option (List Char) := (splitWhitespace text).head?

@[simp] theorem splitWhitespace_nil : splitWhitespace [] = [] := by
  simp [splitWhitespace]

theorem splitWhitespace_cons_white (white : isWhitespace char)
    (rest : List Char) : splitWhitespace (char :: rest) = splitWhitespace rest := by
  simp [splitWhitespace, splitOnP_cons_eq_if_modifyHead, white]

/-- The first piece of a split text runs up to the first separator. -/
theorem splitOnP_eq_takeWhile_cons (text : List Char) :
    text.splitOnP separates = text.takeWhile (fun char => !separates char) ::
      (text.splitOnP separates).tail := by
  induction text with
  | nil => simp
  | cons char rest ih =>
    rw [splitOnP_cons_eq_if_modifyHead]
    by_cases separator : separates char
    · simp [separator]
    · rw [if_neg separator, ih]
      simp [separator]

theorem firstWord_nil : firstWord [] = none := by simp [firstWord]

theorem firstWord_cons_white (white : isWhitespace char) (rest : List Char) :
    firstWord (char :: rest) = firstWord rest := by
  rw [firstWord, splitWhitespace_cons_white white, firstWord]

theorem firstWord_cons (visible : isWhitespace char = false) (rest : List Char) :
    firstWord (char :: rest) = some (char :: rest.takeWhile fun next => !isWhitespace next) := by
  rw [firstWord, splitWhitespace, splitOnP_cons_eq_if_modifyHead, if_neg (by simp [visible]),
    splitOnP_eq_takeWhile_cons]
  simp

theorem firstWord_eq_none_iff : firstWord text = none ↔ Blank text := by
  induction text with
  | nil => simp [firstWord_nil, Blank]
  | cons char rest ih =>
    cases white : isWhitespace char with
    | true => simpa [firstWord_cons_white white, Blank, white] using ih
    | false => simp [firstWord_cons white, Blank, white]

theorem splitWhitespace_eq_nil_iff :
    splitWhitespace text = [] ↔ Blank text := by
  rw [← firstWord_eq_none_iff, firstWord, List.head?_eq_none_iff]

theorem firstWord_length (found : firstWord text = some word) :
    word ≠ [] ∧ word.length ≤ text.length := by
  induction text with
  | nil => simp [firstWord_nil] at found
  | cons char rest ih =>
    cases white : isWhitespace char with
    | true =>
      rw [firstWord_cons_white white] at found
      obtain ⟨nonempty, bound⟩ := ih found
      exact ⟨nonempty, Nat.le_succ_of_le bound⟩
    | false =>
      rw [firstWord_cons white] at found
      cases found
      constructor
      · exact cons_ne_nil _ _
      · have taken : (rest.takeWhile fun next => !isWhitespace next).Sublist rest :=
          takeWhile_sublist _
        simpa using taken.length_le

/-- The words behind the first piece of a split text. -/
theorem filter_tail_splitOnP (text : List Char) :
    ((text.splitOnP isWhitespace).tail.filter fun word => word ≠ []) =
      splitWhitespace (text.dropWhile fun char => !isWhitespace char) := by
  induction text with
  | nil => simp
  | cons char rest ih =>
    rw [splitOnP_cons_eq_if_modifyHead]
    cases white : isWhitespace char with
    | true =>
      rw [if_pos rfl, dropWhile_cons_of_neg (by simp [white]), splitWhitespace_cons_white white]
      rfl
    | false =>
      rw [if_neg Bool.false_ne_true, tail_modifyHead, dropWhile_cons_of_pos (by simp [white]), ih]

/-- Words are parts of the text without white space. -/
theorem mem_splitWhitespace (member : word ∈ splitWhitespace text) :
    word ≠ [] ∧ word <:+: text ∧ ∀ char ∈ word, isWhitespace char = false := by
  obtain ⟨piece, nonempty⟩ := mem_filter.mp member
  refine ⟨by simpa using nonempty, ?_, ?_⟩
  · rw [← Cutter.cut_bySymbol] at piece
    exact Cutter.isInfix_of_mem_cut _ piece
  · intro char inside
    cases Cutter.mem_splitOnP_iff.mp piece with
    | inl atFront =>
      rw [atFront] at inside
      simpa using mem_takeWhile_imp inside
    | inr behind =>
      obtain ⟨_, _, _, _, _, atRest⟩ := behind
      rw [atRest] at inside
      simpa using mem_takeWhile_imp inside

/-- A word that ends before a character of the text stays the first word whatever
follows this character. -/
theorem firstWord_append_cons (rest other : List Char) (visible : isWhitespace char = false)
    (found : firstWord (before ++ char :: rest) = some word) (absent : char ∉ word) :
    firstWord (before ++ char :: other) = some word := by
  induction before with
  | nil =>
    rw [nil_append, firstWord_cons visible] at found
    cases found
    simp at absent
  | cons head tail ih =>
    cases white : isWhitespace head with
    | true =>
      simp only [cons_append, firstWord_cons_white white] at found ⊢
      exact ih found
    | false =>
      simp only [cons_append, firstWord_cons white] at found ⊢
      cases found
      by_cases unbroken : ∀ next ∈ tail, isWhitespace next = false
      · rw [takeWhile_append_of_pos (by simpa using unbroken)] at absent
        simp [visible] at absent
      · have broken : (tail.takeWhile fun next => !isWhitespace next).length ≠ tail.length := by
          intro whole
          have same := (List.takeWhile_prefix fun next => !isWhitespace next).eq_of_length whole
          rw [takeWhile_eq_self_iff] at same
          exact unbroken fun next member => by simpa using same next member
        simp [takeWhile_append, broken]

section Trimming

variable {char : Char}

theorem trimStart_eq_self {text : List Char}
    (visible : ∀ char ∈ text.head?, isWhitespace char = false) : trimStart text = text := by
  cases text with
  | nil => rfl
  | cons char rest => simp [trimStart, visible char (by simp)]

/-- The words of a text from a visible character on. -/
theorem splitWhitespace_cons (visible : isWhitespace char = false) (rest : List Char) :
    splitWhitespace (char :: rest) = (char :: rest.takeWhile fun next => !isWhitespace next) ::
      splitWhitespace (rest.dropWhile fun next => !isWhitespace next) := by
  rw [splitWhitespace, splitOnP_cons_eq_if_modifyHead, if_neg (by simp [visible]),
    splitOnP_eq_takeWhile_cons, modifyHead_cons, filter_cons_of_pos (by simp),
    filter_tail_splitOnP]

/-- A word ends where white space or the end of the text follows. -/
theorem splitWhitespace_append {word text : List Char} (nonempty : word ≠ [])
    (visible : ∀ char ∈ word, isWhitespace char = false)
    (ends : ∀ char ∈ text.head?, isWhitespace char = true) :
    splitWhitespace (word ++ text) = word :: splitWhitespace text := by
  have shown : ∀ char ∈ word, (!isWhitespace char) = true := by simpa using visible
  have stops : text.takeWhile (fun next => !isWhitespace next) = [] ∧
      text.dropWhile (fun next => !isWhitespace next) = text := by
    cases text with
    | nil => exact ⟨rfl, rfl⟩
    | cons char text => simp [ends char (by simp)]
  cases word with
  | nil => exact absurd rfl nonempty
  | cons char word =>
    have tail : ∀ next ∈ word, (!isWhitespace next) = true :=
      fun next member => shown next (mem_cons_of_mem _ member)
    rw [cons_append, splitWhitespace_cons (visible char mem_cons_self),
      takeWhile_append_of_pos tail, dropWhile_append_of_pos tail, stops.1, stops.2,
      append_nil]

/-- Words joined by blanks are the words of the text they make. -/
theorem splitWhitespace_intercalate {words : List (List Char)}
    (shown : ∀ word ∈ words, word ≠ [] ∧ ∀ char ∈ word, isWhitespace char = false) :
    splitWhitespace ([' '].intercalate words) = words := by
  induction words with
  | nil => simp
  | cons word rest ih =>
    obtain ⟨nonempty, visible⟩ := shown word mem_cons_self
    have deeper := ih fun other member => shown other (mem_cons_of_mem _ member)
    cases rest with
    | nil =>
      have alone := @splitWhitespace_append word [] nonempty visible (by simp)
      simpa using alone
    | cons next rest =>
      rw [intercalate_cons_cons, append_assoc, splitWhitespace_append nonempty visible
        (by simp [isWhitespace]), singleton_append, splitWhitespace_cons_white (by decide),
        deeper]

/-- A text with a first word is this word, white space in front of it, and a rest
with the other words. -/
theorem words_of_firstWord {text word : List Char} (found : firstWord text = some word) :
    ∃ rest, trimStart text = word ++ rest ∧
      splitWhitespace text = word :: splitWhitespace rest := by
  induction text with
  | nil => simp [firstWord_nil] at found
  | cons char rest ih =>
    cases white : isWhitespace char with
    | true =>
      rw [firstWord_cons_white white] at found
      obtain ⟨behind, start, words⟩ := ih found
      rw [splitWhitespace_cons_white white, trimStart, dropWhile_cons_of_pos white]
      exact ⟨behind, start, words⟩
    | false =>
      rw [firstWord_cons white] at found
      cases found
      refine ⟨rest.dropWhile fun next => !isWhitespace next, ?_, splitWhitespace_cons white rest⟩
      rw [trimStart_eq_self (by simpa using white), cons_append, takeWhile_append_dropWhile]

theorem splitWhitespace_trimStart (text : List Char) :
    splitWhitespace (trimStart text) = splitWhitespace text := by
  induction text with
  | nil => rfl
  | cons char rest ih =>
    cases white : isWhitespace char with
    | true =>
      rw [splitWhitespace_cons_white white, ← ih]
      simp [trimStart, white]
    | false => simp [trimStart, white]

theorem trimEnd_concat_white (white : isWhitespace char) (text : List Char) :
    trimEnd (text ++ [char]) = trimEnd text := by
  simp [trimEnd, trimStart, white]

theorem trimEnd_concat (visible : isWhitespace char = false)
    (text : List Char) : trimEnd (text ++ [char]) = text ++ [char] := by
  simp [trimEnd, trimStart, visible]

/-- Trimming the end stops at the last visible character. -/
theorem trimEnd_append_cons (visible : isWhitespace char = false)
    (text rest : List Char) : trimEnd (text ++ char :: rest) = text ++ char :: trimEnd rest := by
  rw [trimEnd, reverse_append, reverse_cons, append_assoc, trimStart, dropWhile_append]
  split
  next gone =>
    have nothing : rest.reverse.dropWhile isWhitespace = [] := List.isEmpty_iff.mp gone
    simp [trimEnd, trimStart, nothing, visible]
  next => simp [trimEnd, trimStart]

theorem trimEnd_cons (char : Char) (line : List Char) :
    trimEnd (char :: line) =
      if isWhitespace char ∧ trimEnd line = [] then [] else char :: trimEnd line := by
  rw [trimEnd, trimEnd, reverse_cons, trimStart, trimStart, dropWhile_append]
  by_cases gone : line.reverse.dropWhile isWhitespace = []
  · cases white : isWhitespace char <;> simp [gone, white]
  · simp [gone]

theorem splitWhitespace_concat_white (white : isWhitespace char)
    (text : List Char) : splitWhitespace (text ++ [char]) = splitWhitespace text := by
  rw [splitWhitespace, splitOnP_append_cons text [] white]
  simp [splitWhitespace]

theorem splitWhitespace_trimEnd (text : List Char) :
    splitWhitespace (trimEnd text) = splitWhitespace text := by
  induction text using reverseRecOn with
  | nil => rfl
  | append_singleton text char ih =>
    cases white : isWhitespace char with
    | true =>
      rw [trimEnd_concat_white white, splitWhitespace_concat_white white, ih]
    | false => rw [trimEnd_concat white]

/-- Trimming leaves the words. -/
@[simp] theorem splitWhitespace_trim (text : List Char) :
    splitWhitespace (trim text) = splitWhitespace text := by
  rw [trim, splitWhitespace_trimEnd, splitWhitespace_trimStart]

end Trimming

theorem trim_eq_nil_iff : trim text = [] ↔ Blank text := by
  constructor
  · intro empty
    rw [← splitWhitespace_eq_nil_iff, ← splitWhitespace_trim, empty, splitWhitespace_nil]
  · intro blank
    have start : trimStart text = [] := dropWhile_eq_nil_iff.mpr blank
    rw [trim, start]
    rfl

theorem trimStart_append_blank (blank : Blank front) (text : List Char) :
    trimStart (front ++ text) = trimStart text := dropWhile_append_of_pos blank

/-- White space in front of a text is trimmed. -/
theorem trim_append_blank (blank : Blank front) (text : List Char) :
    trim (front ++ text) = trim text := by
  rw [trim, trimStart_append_blank blank, trim]

theorem trim_concat_white (white : isWhitespace char) (text : List Char) :
    trim (text ++ [char]) = trim text := by
  by_cases blank : Blank text
  · rw [trim_append_blank blank, trim_eq_nil_iff.mpr blank]
    simp [trim, trimStart, trimEnd, white]
  · have start : trimStart (text ++ [char]) = trimStart text ++ [char] := by
      obtain ⟨visible, member, notWhite⟩ : ∃ visible ∈ text, ¬ isWhitespace visible := by
        simpa [Blank] using blank
      simp only [trimStart, dropWhile_append]
      rw [if_neg]
      intro gone
      exact notWhite (dropWhile_eq_nil_iff.mp (List.isEmpty_iff.mp gone) _ member)
    rw [trim, start, trimEnd_concat_white white, trim]

theorem trim_eq_self (visible : ∀ char ∈ text, isWhitespace char = false) :
    trim text = text := by
  have start : trimStart text = text :=
    trimStart_eq_self fun char first => visible char (mem_of_mem_head? first)
  have ending : trimStart text.reverse = text.reverse :=
    trimStart_eq_self fun char first =>
      visible char (mem_reverse.mp (mem_of_mem_head? first))
  rw [trim, start, trimEnd, ending, reverse_reverse]

theorem trim_isInfix (text : List Char) : trim text <:+: text := by
  have start : trimStart text <:+ text := dropWhile_suffix isWhitespace
  have ending : trimEnd (trimStart text) <+: trimStart text :=
    rdropWhile_prefix isWhitespace _
  exact ending.isInfix.trans start.isInfix

/-- What stands around a trimmed text. -/
theorem trim_parts (text : List Char) :
    ∃ trailing, Blank trailing ∧ text = text.takeWhile isWhitespace ++ (trim text ++ trailing) := by
  refine ⟨((trimStart text).reverse.takeWhile isWhitespace).reverse, ?_, ?_⟩
  · intro char member
    exact mem_takeWhile_imp (mem_reverse.mp member)
  · have whole : trim text ++ ((trimStart text).reverse.takeWhile isWhitespace).reverse =
        trimStart text := by
      rw [trim, trimEnd, trimStart, ← reverse_append, takeWhile_append_dropWhile, reverse_reverse]
    rw [whole, trimStart, takeWhile_append_dropWhile]

/-- No piece of a text that is split has the separator in it. -/
theorem not_mem_piece {piece : List Char}
    (member : piece ∈ text.splitOn separator) : separator ∉ piece := by
  intro inside
  obtain same | ⟨_, _, _, _, _, same⟩ := Cutter.mem_splitOnP_iff.mp member
  · rw [same] at inside
    simpa using mem_takeWhile_imp inside
  · rw [same] at inside
    simpa using mem_takeWhile_imp inside

/-- Joined texts, each but the last one with the separator behind it. -/
theorem intercalate_concat (separator : Char) (ended : List (List Char)) (last : List Char) :
    [separator].intercalate (ended ++ [last]) = (ended.map (· ++ [separator])).flatten ++ last := by
  induction ended with
  | nil => simp [intercalate]
  | cons line ended ih =>
    have step : [separator].intercalate (line :: (ended ++ [last])) =
        line ++ [separator] ++ [separator].intercalate (ended ++ [last]) := by
      cases whole : ended ++ [last] with
      | nil => simp at whole
      | cons next others => simp [intercalate]
    rw [cons_append, step, ih, map_cons, flatten_cons, ← append_assoc]

theorem mem_intercalate {ch : Char} {fields : List (List Char)}
    (member : ch ∈ [separator].intercalate fields) :
    ch = separator ∨ ∃ field ∈ fields, ch ∈ field := by
  induction fields with
  | nil => cases member
  | cons first rest ih =>
    cases rest with
    | nil =>
      rw [intercalate_singleton] at member
      exact .inr ⟨first, mem_cons_self, member⟩
    | cons second others =>
      rw [intercalate_cons_cons, append_assoc, mem_append] at member
      rcases member with inFirst | later
      · exact .inr ⟨first, mem_cons_self, inFirst⟩
      · rcases mem_cons.mp later with same | inRest
        · exact .inl same
        · rcases ih inRest with same | ⟨field, inFields, inField⟩
          · exact .inl same
          · exact .inr ⟨field, mem_cons_of_mem _ inFields, inField⟩

theorem splitOnce_eq (found : splitOnce separator text = some (before, rest)) :
    text = before ++ separator :: rest := by
  induction text generalizing before with
  | nil => simp [splitOnce] at found
  | cons char text ih =>
    rw [splitOnce] at found
    split at found
    next same =>
      cases found
      rw [same, nil_append]
    next =>
      obtain ⟨parts, deeper, same⟩ := Option.map_eq_some_iff.mp found
      cases same
      rw [ih deeper, cons_append]

theorem splitOnce_isSuffix
    (found : splitOnce separator text = some (before, rest)) : rest <:+ text :=
  ⟨before ++ [separator], by rw [splitOnce_eq found, append_assoc, singleton_append]⟩

theorem trimStart_trim (text : List Char) : trimStart (trim text) = trim text := by
  apply trimStart_eq_self
  intro char first
  have visible := List.head?_dropWhile_not isWhitespace text
  have front : trimEnd (trimStart text) <+: trimStart text := rdropWhile_prefix isWhitespace _
  obtain ⟨behind, whole⟩ := front
  cases trimmed : trim text with
  | nil => simp [trimmed] at first
  | cons head rest =>
    rw [trimmed] at first
    cases first
    rw [trim] at trimmed
    rw [trimmed, trimStart] at whole
    rw [← whole] at visible
    simpa using visible

/-- Trimming again changes nothing. -/
theorem trim_trim (text : List Char) : trim (trim text) = trim text := by
  have start := trimStart_trim text
  have ending : trimEnd (trimEnd (trimStart text)) = trimEnd (trimStart text) :=
    rdropWhile_idempotent isWhitespace (trimStart text)
  rw [trim, start, trim, ending]

/-- A trimmed text does not begin with white space. -/
theorem head_visible (trimmed : trim text = text) :
    ∀ char ∈ text.head?, isWhitespace char = false := by
  intro char first
  have visible := List.head?_dropWhile_not isWhitespace text
  have start : text.dropWhile isWhitespace = text := by
    have same := trimStart_trim text
    rwa [trimmed] at same
  rw [start, Option.mem_def.mp first] at visible
  simpa using visible

/-- A trimmed text does not end in white space. -/
theorem last_visible (trimmed : trim text = text) :
    ∀ char ∈ text.getLast?, isWhitespace char = false := by
  intro char last
  have visible := List.head?_dropWhile_not isWhitespace (trimStart text).reverse
  have ending : (trimStart (trimStart text).reverse).head? = text.getLast? := by
    rw [← List.head?_reverse, ← reverse_reverse (trimStart (trimStart text).reverse)]
    exact congrArg (fun text : List Char => text.reverse.head?) trimmed
  rw [← trimStart, ending, Option.mem_def.mp last] at visible
  simpa using visible

/-- A trimmed text stays trimmed behind a text that does not begin with white
space. -/
theorem trim_append_trim (something : front ≠ [])
    (visible : ∀ char ∈ front.head?, isWhitespace char = false) (some : trim text ≠ []) :
    trim (front ++ trim text) = front ++ trim text := by
  have whole : front ++ trim text ≠ [] := by simp [something]
  have start : trimStart (front ++ trim text) = front ++ trim text := by
    apply trimStart_eq_self
    rwa [List.head?_append_of_ne_nil _ something]
  have last : ¬ isWhitespace ((trim text).getLast some) :=
    rdropWhile_eq_self_iff.mp (rdropWhile_idempotent isWhitespace _) some
  have ending : trimEnd (front ++ trim text) = front ++ trim text := by
    apply rdropWhile_eq_self_iff.mpr
    intro nonempty
    rw [getLast_append_of_ne_nil nonempty some]
    exact last
  rw [trim, start, ending]

section Replacing

variable {first second new : Char}
variable {char : Char} {rest text : List Char}

theorem replacePair_pair (rest : List Char) :
    replacePair first second new (first :: second :: rest) =
      new :: replacePair first second new rest := by
  rw [replacePair, if_pos ⟨rfl, rfl⟩]

theorem replacePair_cons (unpaired : char = first → rest.head? ≠ some second) :
    replacePair first second new (char :: rest) = char :: replacePair first second new rest := by
  cases rest with
  | nil => rfl
  | cons next rest =>
    rw [replacePair, if_neg]
    rintro ⟨same, paired⟩
    exact unpaired same (by simp [paired])

theorem replacePair_cons_ne (different : char ≠ first) (rest : List Char) :
    replacePair first second new (char :: rest) = char :: replacePair first second new rest :=
  replacePair_cons fun same => absurd same different

/-- A first character that is gone after the replacement stood before a second one. -/
theorem next_of_replaced {next : Char} (begins : char = first)
    (gone : first ∉ replacePair first second new (char :: next :: rest)) : next = second := by
  by_contra single
  rw [replacePair_cons fun _ found => single (by simpa using found)] at gone
  exact gone (by simp [begins])

/-- A replacement begins with the new character or with what the text begins with. -/
theorem head?_replacePair (found : (replacePair first second new text).head? = some char) :
    char = new ∨ text.head? = some char := by
  match text with
  | [] => simp [replacePair] at found
  | [_] => exact Or.inr found
  | head :: next :: rest =>
    rw [replacePair] at found
    split at found
    · exact Or.inl (by simpa using found.symm)
    · exact Or.inr (by simpa using found)

/-- A replacement has the characters of the text that are no part of it. -/
theorem mem_replacePair_iff (notFirst : char ≠ first) (notSecond : char ≠ second)
    (notNew : char ≠ new) :
    char ∈ replacePair first second new text ↔ char ∈ text := by
  induction text using twoStepInduction with
  | nil => simp [replacePair]
  | singleton head => simp [replacePair]
  | cons_cons head next rest shorter ih =>
    rw [replacePair]
    split
    · rename_i paired
      simp [paired.1, paired.2, notFirst, notSecond, notNew, shorter]
    · simp [ih next]

end Replacing

/-- What a list of words takes with a blank behind every word. -/
def spacedLength (words : List (List Char)) : Nat := (words.flatMap (· ++ [' '])).length

@[simp] theorem spacedLength_nil : spacedLength [] = 0 := rfl

@[simp] theorem spacedLength_cons (word : List Char) (words : List (List Char)) :
    spacedLength (word :: words) = word.length + 1 + spacedLength words := by
  rw [spacedLength, flatMap_cons, length_append, length_append]
  rfl

@[simp] theorem spacedLength_append (words others : List (List Char)) :
    spacedLength (words ++ others) = spacedLength words + spacedLength others := by
  simp [spacedLength]

theorem spacedLength_filter_le (keep : List Char → Bool) (words : List (List Char)) :
    spacedLength (words.filter keep) ≤ spacedLength words := by
  induction words with
  | nil => exact le_rfl
  | cons word words ih =>
    rw [filter_cons]
    split
    · simpa using ih
    · rw [spacedLength_cons]
      omega

theorem spacedLength_splitOnP (text : List Char) :
    spacedLength (text.splitOnP separates) = text.length + 1 := by
  induction text with
  | nil => simp
  | cons char rest ih =>
    rw [splitOnP_cons_eq_if_modifyHead]
    rw [splitOnP_eq_takeWhile_cons] at ih ⊢
    rw [spacedLength_cons] at ih
    split
    · rw [spacedLength_cons, spacedLength_cons, length_nil, length_cons]
      omega
    · rw [modifyHead_cons, spacedLength_cons, length_cons, length_cons]
      omega

theorem spacedLength_splitWhitespace_le (text : List Char) :
    spacedLength (splitWhitespace text) ≤ text.length + 1 := by
  calc spacedLength (splitWhitespace text)
      ≤ spacedLength (text.splitOnP isWhitespace) := spacedLength_filter_le _ _
    _ = text.length + 1 := spacedLength_splitOnP _ _

theorem length_intercalate_blank {words : List (List Char)} (some : words ≠ []) :
    ([' '].intercalate words).length + 1 = spacedLength words := by
  induction words with
  | nil => exact absurd rfl some
  | cons word words ih =>
    cases words with
    | nil => simp
    | cons next words =>
      have rest := ih (cons_ne_nil next words)
      rw [intercalate_cons_cons, spacedLength_cons, ← rest]
      simp only [length_append, length_cons, length_nil]
      omega

theorem length_trimStart_le (text : List Char) : (trimStart text).length ≤ text.length :=
  (dropWhile_sublist isWhitespace).length_le

theorem length_trim_le (text : List Char) : (trim text).length ≤ text.length := by
  have ending := length_trimStart_le (trimStart text).reverse
  have start := length_trimStart_le text
  rw [trim, trimEnd, length_reverse]
  rw [length_reverse] at ending
  omega

section LowerCase

variable {char : Char}

theorem toLowercase_append (before rest : List Char) :
    toLowercase (before ++ rest) = toLowercase before ++ toLowercase rest := flatMap_append

theorem toLowercase_isInfix {part text : List Char} (inside : part <:+: text) :
    toLowercase part <:+: toLowercase text := by
  obtain ⟨before, behind, same⟩ := inside
  refine ⟨toLowercase before, toLowercase behind, ?_⟩
  rw [← same, toLowercase_append, toLowercase_append]

theorem toLower_eq_self (high : 128 ≤ char.toNat) : char.toLower = char := by
  unfold Char.toLower
  rw [dif_neg]
  rintro ⟨-, upper⟩
  have bound : char.toNat ≤ 90 := upper
  omega

theorem isAlphanum_iff : char.isAlphanum = true ↔ (65 ≤ char.toNat ∧ char.toNat ≤ 90) ∨
    (97 ≤ char.toNat ∧ char.toNat ≤ 122) ∨ (48 ≤ char.toNat ∧ char.toNat ≤ 57) := by
  change (decide _ || (decide _ && decide _) || (decide _ && decide _)) = true ↔ _
  simp only [Bool.or_eq_true, Bool.and_eq_true, decide_eq_true_eq, or_assoc]
  rfl

theorem toNat_lt_of_isAlphanum (plain : char.isAlphanum = true) : char.toNat < 128 := by
  have range := isAlphanum_iff.mp plain
  omega

theorem isWhitespace_alphanum_ascii : ∀ code : Fin 128,
    (Char.ofNat code).isAlphanum = true → isWhitespace (Char.ofNat code) = false := by
  decide

theorem isWhitespace_of_isAlphanum (plain : char.isAlphanum = true) :
    isWhitespace char = false := by
  have checked := isWhitespace_alphanum_ascii ⟨char.toNat, toNat_lt_of_isAlphanum plain⟩
  rw [Char.ofNat_toNat] at checked
  exact checked plain

theorem isWhitespace_toLower_ascii : ∀ code : Fin 128,
    isWhitespace (Char.ofNat code).toLower = isWhitespace (Char.ofNat code) := by
  decide

theorem isWhitespace_toLower (char : Char) : isWhitespace char.toLower = isWhitespace char := by
  by_cases ascii : char.toNat < 128
  · have checked := isWhitespace_toLower_ascii ⟨char.toNat, ascii⟩
    rwa [Char.ofNat_toNat] at checked
  · rw [toLower_eq_self (Nat.not_lt.mp ascii)]

theorem toLower_toLower_ascii : ∀ code : Fin 128,
    (Char.ofNat code).toLower.toLower = (Char.ofNat code).toLower := by
  decide

theorem toLower_toLower (char : Char) : char.toLower.toLower = char.toLower := by
  by_cases ascii : char.toNat < 128
  · have checked := toLower_toLower_ascii ⟨char.toNat, ascii⟩
    rwa [Char.ofNat_toNat] at checked
  · rw [toLower_eq_self (Nat.not_lt.mp ascii), toLower_eq_self (Nat.not_lt.mp ascii)]

/-- A map of characters that keeps white space maps what is left by trimming. -/
theorem trim_map {rewrite : Char → Char}
    (kept : ∀ char, isWhitespace (rewrite char) = isWhitespace char) (text : List Char) :
    trim (text.map rewrite) = (trim text).map rewrite := by
  have start : ∀ text : List Char, trimStart (text.map rewrite) = (trimStart text).map rewrite := by
    intro text
    have same : isWhitespace ∘ rewrite = isWhitespace := funext kept
    rw [trimStart, dropWhile_map, same, trimStart]
  rw [trim, trimEnd, start, ← map_reverse, start, ← map_reverse, trim, trimEnd]

theorem lowerChar_of_ascii (ascii : char.toLower.toNat < 128) :
    lowerChar char = [char.toLower] := by
  have low : char.toNat < 128 := by
    by_contra high
    rw [toLower_eq_self (by omega)] at ascii
    omega
  rw [lowerChar, if_neg (by omega), if_neg (by omega)]

/-- An ASCII text in front of the text in ASCII lower case is also in front of the
text in lower case. -/
theorem prefix_toLowercase {key text : List Char} (ascii : ∀ char ∈ key, char.toNat < 128)
    (begins : key <+: text.map Char.toLower) : key <+: toLowercase text := by
  induction text generalizing key with
  | nil =>
    rw [map_nil, prefix_nil] at begins
    exact begins ▸ nil_prefix
  | cons char rest ih =>
    cases key with
    | nil => exact nil_prefix
    | cons first key =>
      rw [map_cons, cons_prefix_cons] at begins
      have low : char.toLower.toNat < 128 := begins.1 ▸ ascii first mem_cons_self
      rw [toLowercase, flatMap_cons, lowerChar_of_ascii low, singleton_append, cons_prefix_cons]
      exact ⟨begins.1, ih (fun other member =>
        ascii other (mem_cons_of_mem _ member)) begins.2⟩

end LowerCase

end Library.Text
