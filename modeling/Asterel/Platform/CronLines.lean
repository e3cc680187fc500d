import Asterel.Platform.CronFields

/-!
# Lines of a crontab and intervals as text

A crontab line is handed on to the library with a second in front of it, an interval as a step
within the hour or the day.
-/

namespace Asterel.Cron

open Library Library.Calendar List Text
open Library.Text (trim splitWhitespace)

variable {expression : Chars} {fields : Crontab}

section Lines

variable {char : Char} {front text : Chars}

/-- The characters of a field without names. -/
def Plain (char : Char) : Prop := char.isDigit = true ∨ char ∈ ['*', ',', '-', '/']

theorem plain_toLower (plain : Plain char) : char.toLower ∉ ['h', 'd', 'e', 'w'] := by
  have checked : ∀ code : Fin 128, (Char.ofNat code).isDigit = true →
      (Char.ofNat code).toLower ∉ ['h', 'd', 'e', 'w'] := by decide +kernel
  rcases plain with digit | mark
  · have low : char.toNat < 128 := toNat_lt_of_isAlphanum (by simp [Char.isAlphanum, digit])
    have same := checked ⟨char.toNat, low⟩
    rw [Char.ofNat_toNat] at same
    exact same digit
  · simp only [mem_cons, not_mem_nil, or_false] at mark
    rcases mark with rfl | rfl | rfl | rfl <;> decide

theorem plain_of_readNumber {value : Nat} (read : readNumber text = some value) :
    ∀ char ∈ text, Plain char := by
  rw [readNumber] at read
  split at read
  · rename_i digits
    exact fun char member => Or.inl (all_eq_true.mp digits char member)
  · cases read

theorem plain_of_readToken {token : Token} (read : readToken [] text = some token) :
    ∀ char ∈ text, Plain char := by
  rw [readToken] at read
  split at read
  · rename_i value number
    exact plain_of_readNumber number
  · cases read

theorem plain_append {back : Chars} {mark : Char} (plainFront : ∀ char ∈ front, Plain char)
    (plainMark : Plain mark) (plainBack : ∀ char ∈ back, Plain char) :
    ∀ char ∈ front ++ mark :: back, Plain char := by
  intro char member
  rcases mem_append.mp member with early | late
  · exact plainFront char early
  · rcases mem_cons.mp late with rfl | late
    · exact plainMark
    · exact plainBack char late

theorem plain_of_readSpan {span : Span} (read : readSpan [] text = some span) :
    ∀ char ∈ text, Plain char := by
  rw [readSpan] at read
  split at read
  · rename_i asterisk
    intro char member
    rw [asterisk] at member
    rw [mem_singleton.mp member]
    exact Or.inr (by decide)
  · split at read
    · obtain ⟨token, read, _⟩ := Option.map_eq_some_iff.mp read
      exact plain_of_readToken read
    · rename_i low high parts
      simp only [Option.bind_eq_bind, Option.bind_eq_some_iff] at read
      obtain ⟨first, readLow, last, readHigh, _⟩ := read
      rw [splitOnce_eq parts]
      exact plain_append (plain_of_readToken readLow) (Or.inr (by decide)) (plain_of_readToken readHigh)

theorem plain_of_readItem {item : Item} (read : readItem [] text = some item) :
    ∀ char ∈ text, Plain char := by
  rw [readItem] at read
  split at read
  · obtain ⟨span, read, _⟩ := Option.map_eq_some_iff.mp read
    exact plain_of_readSpan read
  · rename_i spanText stepText parts
    rw [Option.bind_eq_bind, Option.bind_eq_some_iff] at read
    obtain ⟨span, readSpan, read⟩ := read
    rw [splitOnce_eq parts]
    cases span with
    | point value => cases read
    | all =>
      obtain ⟨step, number, _⟩ := Option.bind_eq_some_iff.mp read
      exact plain_append (plain_of_readSpan readSpan) (Or.inr (by decide)) (plain_of_readNumber number)
    | range low high =>
      obtain ⟨step, number, _⟩ := Option.bind_eq_some_iff.mp read
      exact plain_append (plain_of_readSpan readSpan) (Or.inr (by decide)) (plain_of_readNumber number)

theorem exists_of_mapM {α β : Type} {f : α → Option β} {items : List α} {results : List β}
    (mapped : items.mapM f = some results) : ∀ item ∈ items, ∃ result, f item = some result := by
  induction items generalizing results with
  | nil => exact fun _ member => absurd member not_mem_nil
  | cons first rest ih =>
    simp only [mapM_cons, Option.bind_eq_bind, Option.bind_eq_some_iff] at mapped
    obtain ⟨result, found, others, later, _⟩ := mapped
    exact forall_mem_cons.mpr ⟨⟨result, found⟩, ih later⟩

theorem plain_of_readField {field : Field} (read : readField [] text = some field) :
    ∀ char ∈ text, Plain char := by
  intro char member
  have whole : [','].intercalate (text.splitOn ',') = text := intercalate_splitOn ','
  rw [← whole] at member
  rcases mem_intercalate member with rfl | ⟨piece, among, inside⟩
  · exact Or.inr (by decide)
  · obtain ⟨item, found⟩ := exists_of_mapM read piece among
    exact plain_of_readItem found char inside

theorem isPrefixOf?_head {first : Char} (begins : front.head? = some first)
    (different : first ≠ char) (rest : Chars) : front.isPrefixOf? (char :: rest) = none := by
  cases front with
  | nil => cases begins
  | cons head front =>
    cases begins
    rw [List.isPrefixOf?, if_neg (by simpa using different)]

/-- A text that does not begin with one of four letters is no natural expression. -/
theorem normalizeNatural_none {rest : Chars} (begins : trim expression = char :: rest)
    (plain : char.toLower ∉ ['h', 'd', 'e', 'w']) : normalizeNaturalExpression expression = .ok none := by
  have lowered : toAsciiLowercase (trim expression) = char.toLower :: toAsciiLowercase rest := by
    rw [begins]
    rfl
  have apart : ∀ first ∈ ['h', 'd', 'e', 'w'], first ≠ char.toLower :=
    fun first member same => plain (same ▸ member)
  have unequal : ∀ (word : Chars) (first : Char), word.head? = some first →
      first ∈ ['h', 'd', 'e', 'w'] → char.toLower :: toAsciiLowercase rest ≠ word := by
    intro word first head member same
    rw [← same] at head
    exact apart first member (Option.some.inj head).symm
  have none_ : ∀ (word : Chars) (first : Char), word.head? = some first →
      first ∈ ['h', 'd', 'e', 'w'] →
      word.isPrefixOf? (char.toLower :: toAsciiLowercase rest) = none :=
    fun word first head member => isPrefixOf?_head head (apart first member) _
  rw [normalizeNaturalExpression, lowered, if_neg (unequal _ 'h' rfl (by decide)), if_neg]
  · rw [none_ _ 'd' rfl (by decide), none_ _ 'e' rfl (by decide), none_ _ 'w' rfl (by decide),
      none_ _ 'e' rfl (by decide), normalizeWeekly, none_ _ 'w' rfl (by decide)]
    rfl
  · rintro (same | same)
    · exact unequal _ 'd' rfl (by decide) same
    · exact unequal _ 'e' rfl (by decide) same

/-- The field with a zero. -/
def zeroField : Field := [⟨.point (.numeral 0), 1⟩]

theorem readSix_zero (text : Chars) : readSix ("0 ".toList ++ text) =
    (readFields (splitWhitespace text)).map fun fields => (zeroField, fields) := by
  have words : splitWhitespace ("0 ".toList ++ text) = ['0'] :: splitWhitespace text := by
    have first : splitWhitespace (['0'] ++ ' ' :: text) = ['0'] :: splitWhitespace (' ' :: text) :=
      splitWhitespace_append (cons_ne_nil _ _) (forall_mem_singleton.mpr (by decide))
        (by simp [isWhitespace])
    rw [splitWhitespace_cons_white (by decide)] at first
    exact first
  have zero : readField [] ['0'] = some zeroField := by decide +kernel
  rw [readSix, words]
  dsimp only
  rw [zero]
  cases readFields (splitWhitespace text) <;> rfl

/-- A crontab line is handed on with a second in front. -/
theorem normalizeExpression_crontab (read : readCrontab expression = some fields) :
    normalizeExpression expression = .ok ("0 ".toList ++ trim expression) ∧
      readSix ("0 ".toList ++ trim expression) = some (zeroField, fields) := by
  have six : readSix ("0 ".toList ++ trim expression) = some (zeroField, fields) := by
    rw [readSix_zero, splitWhitespace_trim]
    exact congrArg _ read
  refine ⟨?_, six⟩
  unfold readCrontab readFields at read
  split at read
  · rename_i minute hour dayOfMonth month dayOfWeek words
    obtain ⟨minutes, readMinute, _⟩ := Option.bind_eq_some_iff.mp read
    rw [← splitWhitespace_trim] at words
    cases trimmed : trim expression with
    | nil =>
      rw [trimmed, splitWhitespace_nil] at words
      cases words
    | cons char rest =>
      have twice := trim_trim expression
      rw [trimmed] at twice words
      have visible := head_visible twice char rfl
      have count := congrArg List.length words
      rw [splitWhitespace_cons visible] at words
      have first : char ∈ minute := (List.cons.inj words).1 ▸ mem_cons_self
      have natural := normalizeNatural_none twice (plain_toLower (plain_of_readField readMinute char first))
      have five : (splitWhitespace (char :: rest)).length = 5 := count
      unfold normalizeExpression
      rw [trimmed]
      dsimp only
      rw [if_neg (cons_ne_nil char rest), natural, five]
      rfl
  · cases read

end Lines

section Intervals

variable {number rest unit : Chars} {count : Nat}

def minuteUnits : List Chars := ["minutes".toList, "minute".toList]

def hourUnits : List Chars := ["hours".toList, "hour".toList]

/-- An expression of the form `every n minutes` or `every n hours`. -/
def Every (expression : Chars) (units : List Chars) (count : Nat) : Prop :=
  ∃ rest number unit, "every ".toList.isPrefixOf? (toAsciiLowercase (trim expression)) = some rest ∧
    splitWhitespace rest = [number, unit] ∧ parseU32 number = some count ∧ unit ∈ units

section

variable (begins : "every ".toList.isPrefixOf? (toAsciiLowercase (trim expression)) = some rest)
  (words : splitWhitespace rest = [number, unit]) (parsed : parseU32 number = some count)
include begins words parsed

/-- No other natural expression begins so. -/
theorem normalizeNatural_interval :
    normalizeNaturalExpression expression = normalizeInterval expression [number, unit] := by
  have whole := List.isPrefixOf?_eq_some_iff_append_eq.mp begins
  have unequal : ∀ (word : Chars) (first : Char), word.head? = some first → first ≠ 'e' →
      toAsciiLowercase (trim expression) ≠ word := by
    intro word first head different same
    rw [← same, ← whole] at head
    exact different (Option.some.inj head).symm
  have none_ : ∀ (word : Chars) (first : Char), word.head? = some first → first ≠ 'e' →
      word.isPrefixOf? (toAsciiLowercase (trim expression)) = none := by
    intro word first head different
    rw [← whole]
    exact isPrefixOf?_head head different _
  have everyDay : toAsciiLowercase (trim expression) ≠ "every day".toList := by
    intro same
    rw [← whole] at same
    have common : "every ".toList ++ rest = "every ".toList ++ "day".toList := same
    have day : rest = "day".toList := append_cancel_left common
    have alone : splitWhitespace "day".toList = ["day".toList] := by decide +kernel
    rw [day, alone] at words
    cases words
  have everyDayAt : "every day at ".toList.isPrefixOf? (toAsciiLowercase (trim expression)) = none := by
    cases found : "every day at ".toList.isPrefixOf? (toAsciiLowercase (trim expression)) with
    | none => rfl
    | some time =>
      have same := List.isPrefixOf?_eq_some_iff_append_eq.mp found
      rw [← whole] at same
      have common : "every ".toList ++ ("day".toList ++ " at ".toList ++ time) =
          "every ".toList ++ rest := same
      have day : "day".toList ++ " at ".toList ++ time = rest := append_cancel_left common
      have dayVisible : ∀ char ∈ "day".toList, isWhitespace char = false := by simp [isWhitespace]
      rw [← day, append_assoc, splitWhitespace_append (by decide) dayVisible] at words
      · obtain rfl := (List.cons.inj words).1
        have wordless : parseU32 "day".toList = none := by decide +kernel
        rw [wordless] at parsed
        cases parsed
      · intro char head
        obtain rfl : ' ' = char := Option.some.inj head
        rfl
  rw [normalizeNaturalExpression, if_neg (unequal _ 'h' rfl (by decide)), if_neg,
    none_ _ 'd' rfl (by decide), everyDayAt, none_ _ 'w' rfl (by decide), begins]
  · dsimp only
    rw [words]
  · rintro (same | same)
    · exact unequal _ 'd' rfl (by decide) same
    · exact everyDay same

/-- An interval is normalized or refused, as its number fits. -/
theorem normalizeExpression_interval
    {fits : Prop} [Decidable fits] {text : Chars} {message : String}
    (interval : normalizeInterval (trim expression) [number, unit] =
      if fits then .ok (some text) else .error message) :
    (fits → normalizeExpression expression = .ok text) ∧
      (¬ fits → ∃ message, normalizeExpression expression = .error message) := by
  have nonempty : trim expression ≠ [] := by
    intro empty
    rw [empty] at begins
    cases begins
  have natural : normalizeNaturalExpression (trim expression) =
      if fits then .ok (some text) else .error message := by
    rw [← interval]
    apply normalizeNatural_interval (by rw [trim_trim]; exact begins) words parsed
  have whole : normalizeExpression expression = if fits then .ok text else .error message := by
    unfold normalizeExpression
    dsimp only
    rw [if_neg nonempty, natural]
    split <;> rfl
  constructor
  · intro inside
    exact whole.trans (if_pos inside)
  · intro outside
    exact ⟨message, whole.trans (if_neg outside)⟩

end

/-- Minutes become a step within the hour, if there are fewer than sixty. -/
theorem normalizeExpression_minutes (every : Every expression minuteUnits count) :
    (1 ≤ count ∧ count ≤ 59 → normalizeExpression expression = .ok s!"0 */{count} * * * *".toList) ∧
      (¬ (1 ≤ count ∧ count ≤ 59) → ∃ message, normalizeExpression expression = .error message) := by
  obtain ⟨rest, number, unit, begins, words, parsed, known⟩ := every
  have named : unit = "minutes".toList ∨ unit = "minute".toList := mem_pair.mp known
  apply normalizeExpression_interval begins words parsed
  rw [normalizeInterval, parsed]
  exact if_pos named

/-- Hours become a step within the day, if there are fewer than twenty-four. -/
theorem normalizeExpression_hours (every : Every expression hourUnits count) :
    (1 ≤ count ∧ count ≤ 23 → normalizeExpression expression = .ok s!"0 0 */{count} * * *".toList) ∧
      (¬ (1 ≤ count ∧ count ≤ 23) → ∃ message, normalizeExpression expression = .error message) := by
  obtain ⟨rest, number, unit, begins, words, parsed, known⟩ := every
  have named : unit = "hours".toList ∨ unit = "hour".toList := mem_pair.mp known
  have other : ¬ (unit = "minutes".toList ∨ unit = "minute".toList) := by
    rcases named with rfl | rfl <;> decide +kernel
  apply normalizeExpression_interval begins words parsed
  rw [normalizeInterval, parsed]
  exact (if_neg other).trans (if_pos named)

/-- A field with a step through all its numbers. -/
def stepField (count : Nat) : Field := [⟨.all, count⟩]

theorem readSix_minutes : ∀ count < 60, readSix s!"0 */{count} * * * *".toList =
    some (zeroField, ⟨stepField count, stepField 1, stepField 1, stepField 1, stepField 1⟩) := by
  decide +kernel

theorem readSix_hours : ∀ count < 24, readSix s!"0 0 */{count} * * *".toList =
    some (zeroField, ⟨zeroField, stepField count, stepField 1, stepField 1, stepField 1⟩) := by
  decide +kernel

end Intervals

end Asterel.Cron
