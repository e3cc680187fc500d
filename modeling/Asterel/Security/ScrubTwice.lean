import Asterel.Library.Text
import Asterel.Security.ScrubSeams

/-!
# Scrubbing twice

The passes leave no token for a second scrubbing, but the removal of the PEM blocks may
leave a block. A BEGIN marker that has no kind, or no END line of its kind behind it, is
passed over, and the blocks behind it are replaced. The replacement can take away the
dashes that ended its kind, or complete an END line, and then the marker begins a block
of the scrubbed text. Scrubbing is idempotent exactly where that happens to no marker.
-/

namespace Asterel.Scrub

open Library List Option
open scoped Library.Text

/-! ## Reading a text as the last pass does -/

/-- Text without a BEGIN marker, a BEGIN marker that is passed over, or a block. -/
inductive PemPiece
  | plain (text : List Char)
  | passedOver
  | block

/-- What stands for a piece when the blocks are replaced. -/
def PemPiece.replaced : PemPiece → List Char
  | .plain text => text
  | .passedOver => pemBegin
  | .block => redactedPem

def replacedBlocks (pieces : List PemPiece) : List Char := pieces.flatMap PemPiece.replaced

/-- The pieces of a text from left to right. A marker begins a block if its line has a kind
and an END line of the kind. -/
inductive PemReading : List Char → List PemPiece → Prop
  | plain (text : List Char) (noBegin : find pemBegin text = none) :
      PemReading text [.plain text]
  | passedOver (text before line : List Char) (pieces : List PemPiece)
      (begins : find pemBegin text = some (before, line)) (incomplete : blockRest line = none)
      (behind : PemReading line pieces) : PemReading text (.plain before :: .passedOver :: pieces)
  | block (text before line rest : List Char) (pieces : List PemPiece)
      (begins : find pemBegin text = some (before, line)) (complete : blockRest line = some rest)
      (behind : PemReading (dropLineEnding rest) pieces) :
      PemReading text (.plain before :: .block :: pieces)

/-- A marker that is passed over gets no kind and END line from the replacement of the
blocks behind it. -/
def NoneCompleted : List PemPiece → Prop
  | [] => True
  | .passedOver :: pieces => blockRest (replacedBlocks pieces) = none ∧ NoneCompleted pieces
  | .plain _ :: pieces => NoneCompleted pieces
  | .block :: pieces => NoneCompleted pieces

section Reading

variable {text before line rest : List Char} {pieces : List PemPiece}

theorem length_blockRest_lt (complete : blockRest line = some rest) :
    redactedPem.length + (dropLineEnding rest).length < pemBegin.length + line.length := by
  obtain ⟨kind, content, body, foundKind, nonempty, foundEnd⟩ := blockRest_eq_some complete
  have short := (dropLineEnding_isSuffix rest).length_le
  have some : 0 < kind.length := length_pos_iff.mpr nonempty
  have marks : redactedPem.length = 14 ∧ pemBegin.length = 11 ∧ pemLineSuffix.length = 5 ∧
      pemEndMarker.length = 9 := by decide
  rw [find_eq_some foundKind, find_eq_some foundEnd, endMarker]
  simp only [length_append]
  omega

theorem exists_pemReading (text : List Char) : ∃ pieces, PemReading text pieces := by
  induction measure : text.length using Nat.strong_induction_on generalizing text with
  | _ measure ih =>
    cases begins : find pemBegin text with
    | none => exact ⟨_, .plain text begins⟩
    | some parts =>
      obtain ⟨before, line⟩ := parts
      have whole : text.length = before.length + pemBegin.length + line.length := by
        rw [find_eq_some begins, length_append, length_append]
      have marks : pemBegin.length = 11 := by decide
      cases complete : blockRest line with
      | none =>
        obtain ⟨pieces, behind⟩ := ih line.length (by omega) line rfl
        exact ⟨_, .passedOver text before line pieces begins complete behind⟩
      | some rest =>
        have shorter := length_blockRest_lt complete
        obtain ⟨pieces, behind⟩ := ih (dropLineEnding rest).length (by omega)
          (dropLineEnding rest) rfl
        exact ⟨_, .block text before line rest pieces begins complete behind⟩

/-- The last pass replaces the blocks of the reading. -/
theorem scrubPemBlocks_eq (reading : PemReading text pieces) :
    scrubPemBlocks text = replacedBlocks pieces := by
  induction reading with
  | plain text noBegin => rw [pem_none noBegin, replacedBlocks]; simp [PemPiece.replaced]
  | passedOver text before line pieces begins incomplete behind ih =>
    rw [pem_step begins, incomplete, elim_none, ih]
    simp [replacedBlocks, PemPiece.replaced]
  | block text before line rest pieces begins complete behind ih =>
    rw [pem_step begins, complete, elim_some, ih]
    simp [replacedBlocks, PemPiece.replaced]

theorem length_replacedBlocks_le (reading : PemReading text pieces) :
    (replacedBlocks pieces).length ≤ text.length := by
  induction reading with
  | plain text noBegin => simp [replacedBlocks, PemPiece.replaced]
  | passedOver text before line pieces begins incomplete behind ih =>
    rw [find_eq_some begins]
    simp only [replacedBlocks, flatMap_cons, PemPiece.replaced, length_append] at *
    omega
  | block text before line rest pieces begins complete behind ih =>
    have shorter := length_blockRest_lt complete
    rw [find_eq_some begins]
    simp only [replacedBlocks, flatMap_cons, PemPiece.replaced, length_append] at *
    omega

theorem length_scrubPemBlocks_le (text : List Char) :
    (scrubPemBlocks text).length ≤ text.length := by
  obtain ⟨pieces, reading⟩ := exists_pemReading text
  rw [scrubPemBlocks_eq reading]
  exact length_replacedBlocks_le reading

end Reading

/-! ## The second pass -/

section Second

variable {text before line : List Char} {pieces : List PemPiece}

/-- No BEGIN marker stands before the first one. -/
theorem noBegin_before (begins : find pemBegin text = some (before, line)) :
    find pemBegin before = none := by
  rw [find_eq_none_iff]
  rintro ⟨lead, tail, parts⟩
  have first := find_first begins
    (show text = lead ++ pemBegin ++ (tail ++ pemBegin ++ line) by
      rw [find_eq_some begins, ← parts]
      simp)
  have marks : 0 < pemBegin.length := by decide
  rw [← parts] at first
  simp only [length_append] at first
  omega

/-- The pass goes over the replacement of a block. -/
theorem scrubPemBlocks_behind_block (noBegin : find pemBegin before = none) (back : List Char) :
    scrubPemBlocks (before ++ redactedPem ++ back) =
      before ++ redactedPem ++ scrubPemBlocks back := by
  have parted : Parted pemBegin (before ++ redactedPem) back := by
    rintro first second cut some _ ⟨lead, ends⟩ _
    have last : (lead ++ first).getLast? = Option.some ']' := by
      rw [ends, getLast?_append_of_ne_nil _ (by decide)]
      decide
    rw [getLast?_append_of_ne_nil _ some] at last
    have closing : ']' ∈ pemBegin := by
      rw [cut]
      exact mem_append_left _ (mem_of_getLast? last)
    exact absurd closing (by decide)
  have missing : find pemBegin (before ++ redactedPem) = none := by
    rw [find_eq_none_iff]
    intro occurs
    have apart : Rewrites.Apart pemBegin redactedPem :=
      Rewrites.apart_delimited "REDACTED-PEM".toList (by decide) (by decide) (by decide)
    obtain inFront | inBack := apart before [] (by simpa using occurs)
    · exact find_eq_none_iff.mp noBegin inFront
    · exact absurd inBack (by decide)
  have found := find_parted parted missing
  cases later : find pemBegin back with
  | none =>
    rw [later, map_none] at found
    rw [pem_none found, pem_none later]
  | some parts =>
    obtain ⟨between, line⟩ := parts
    rw [later, map_some] at found
    rw [pem_step found, pem_step later]
    cases blockRest line with
    | none => simp only [elim_none, append_assoc]
    | some rest => simp only [elim_some, append_assoc]

/-- The second pass changes nothing exactly if no marker that was passed over has become
the beginning of a block. -/
theorem scrubPemBlocks_replaced_iff (reading : PemReading text pieces) :
    scrubPemBlocks (replacedBlocks pieces) = replacedBlocks pieces ↔ NoneCompleted pieces := by
  induction reading with
  | plain text noBegin =>
    have same : replacedBlocks [.plain text] = text := by simp [replacedBlocks, PemPiece.replaced]
    rw [same]
    exact iff_of_true (pem_none noBegin) trivial
  | passedOver text before line pieces begins incomplete behind ih =>
    have whole : replacedBlocks (.plain before :: .passedOver :: pieces) =
        before ++ pemBegin ++ replacedBlocks pieces := by
      simp [replacedBlocks, PemPiece.replaced]
    have found := find_replace_after (replacedBlocks pieces) begins
    rw [whole, pem_step found, NoneCompleted, NoneCompleted, ← ih]
    cases complete : blockRest (replacedBlocks pieces) with
    | none => rw [elim_none, append_right_inj]; simp
    | some rest =>
      refine iff_of_false ?_ (by simp)
      intro same
      have shorter := length_blockRest_lt complete
      have later := length_scrubPemBlocks_le (dropLineEnding rest)
      have lengths := congrArg List.length same
      simp only [elim_some, length_append] at lengths
      omega
  | block text before line rest pieces begins complete behind ih =>
    have whole : replacedBlocks (.plain before :: .block :: pieces) =
        before ++ redactedPem ++ replacedBlocks pieces := by
      simp [replacedBlocks, PemPiece.replaced]
    rw [whole, scrubPemBlocks_behind_block (noBegin_before begins), append_right_inj,
      NoneCompleted, NoneCompleted, ih]

end Second

/-- Scrubbing again changes nothing exactly if, in the text whose tokens are redacted, no
BEGIN marker that is passed over gets a kind and an END line from the replacement of the
blocks behind it. -/
theorem scrubSecrets_twice_iff (input : List Char) :
    scrubSecrets (scrubSecrets input) = scrubSecrets input ↔
      ∃ pieces, PemReading (scrubMarkers passes input) pieces ∧ NoneCompleted pieces := by
  have once : scrubSecrets (scrubSecrets input) = scrubPemBlocks (scrubSecrets input) := by
    rw [scrubSecrets_eq (scrubSecrets input), scrubMarkers_scrubbed infix_rfl]
  rw [once, scrubSecrets_eq]
  constructor
  · intro same
    obtain ⟨pieces, reading⟩ := exists_pemReading (scrubMarkers passes input)
    rw [scrubPemBlocks_eq reading] at same
    exact ⟨pieces, reading, (scrubPemBlocks_replaced_iff reading).mp same⟩
  · rintro ⟨pieces, reading, none⟩
    rw [scrubPemBlocks_eq reading]
    exact (scrubPemBlocks_replaced_iff reading).mpr none

/-! ## A block inside a BEGIN line -/

/-- The line of the first BEGIN marker ends where the block in it begins. -/
def nestedBlock : List Char :=
  "-----BEGIN A-----BEGIN B-----x-----END B----------\n-----END A[REDACTED-PEM]-----".toList

def nestedBlockOnce : List Char :=
  "-----BEGIN A[REDACTED-PEM]-----\n-----END A[REDACTED-PEM]-----".toList

/-- What is behind the inner block. -/
def outerEnd : List Char := "-----\n-----END A[REDACTED-PEM]-----".toList

theorem nestedBlock_reading :
    PemReading nestedBlock [.plain [], .passedOver, .plain ['A'], .block, .plain outerEnd] :=
  .passedOver _ [] ("A-----BEGIN B-----x-----END B-----".toList ++ outerEnd) _ (by decide)
    (by decide) (.block _ ['A'] ("B-----x-----END B-----".toList ++ outerEnd) outerEnd _ (by decide)
      (by decide) (.plain _ (by decide)))

/-- Every pattern of the passes has a character that the text does not have. -/
theorem passes_foreign : ∀ marker ∈ passes, ¬ ∀ char ∈ marker, char ∈ nestedBlock := by
  decide +kernel

/-- Without the inner block the outer marker has its END line, and the second scrubbing
removes what the first one left. -/
theorem nested_block_scrubbed_twice :
    scrubSecrets (scrubSecrets nestedBlock) ≠ scrubSecrets nestedBlock := by
  have absent : ∀ marker ∈ passes, ¬ marker <:+: nestedBlock := fun marker member occurs =>
    passes_foreign marker member fun _ inMarker => occurs.subset inMarker
  have chars : nestedBlockOnce ⊆ nestedBlock := by decide
  have absentOnce : ∀ marker ∈ passes, ¬ marker <:+: nestedBlockOnce := fun marker member occurs =>
    passes_foreign marker member fun _ inMarker => chars (occurs.subset inMarker)
  have once : scrubSecrets nestedBlock = nestedBlockOnce := by
    rw [scrubSecrets_eq, scrubMarkers_absent absent, scrubPemBlocks_eq nestedBlock_reading]
    decide
  have reading : PemReading nestedBlockOnce [.plain [], .block, .plain []] :=
    .block _ [] "A[REDACTED-PEM]-----\n-----END A[REDACTED-PEM]-----".toList [] _ (by decide)
      (by decide) (.plain _ (by decide))
  rw [once, scrubSecrets_eq, scrubMarkers_absent absentOnce, scrubPemBlocks_eq reading]
  decide

end Asterel.Scrub
