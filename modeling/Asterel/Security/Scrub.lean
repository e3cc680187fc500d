import Asterel.Library.Replacement

/-!
# Scrubbing secrets

`scrub_secrets` passes over the text once for every known token prefix and every
marker, each pass replacing the marker and the run of secret characters behind it,
and removes the PEM blocks last. The passes replace disjoint parts of the input,
and no later one exposes a token behind a marker of an earlier one.
-/

namespace Asterel.Scrub

variable {char : Char} {markers : List (List Char)}
  {before body content first kind line marker new old out rest second text : List Char}

open Library List

def isSecretChar (char : Char) : Bool :=
  char.isAlphanum || ['-', '_', '.', ':', '+', '/', '='].contains char

def redacted : List Char := "[REDACTED]".toList

/-- `REDACTED_PEM`. -/
def redactedPem : List Char := "[REDACTED-PEM]".toList

/-- `PEM_BEGIN_MARKER`. -/
def pemBegin : List Char := "-----BEGIN ".toList

/-- `PEM_LINE_SUFFIX`. -/
def pemLineSuffix : List Char := "-----".toList

theorem pemBegin_ne_nil : pemBegin ≠ [] := by decide

theorem pemLineSuffix_ne_nil : pemLineSuffix ≠ [] := by decide

/-- The part of `end_marker` before the kind. -/
def pemEndMarker : List Char := "-----END ".toList

/-- `end_marker`. -/
def endMarker (kind : List Char) : List Char := pemEndMarker ++ kind ++ pemLineSuffix

theorem length_find_lt {pattern after : List Char} (nonempty : pattern ≠ [])
    (found : find pattern text = some (before, after)) : after.length < text.length := by
  have positive : 0 < pattern.length := List.length_pos_iff.mpr nonempty
  rw [find_eq_some found]
  simp only [List.length_append]
  omega

/-- `scrub_after_marker` from `search_from` on. A marker without a token is passed
over. No marker of the tables is empty. -/
def scrubAfterMarker (marker text : List Char) : List Char :=
  if _empty : marker = [] then text
  else
    match _found : find marker text with
    | none => text
    | some (before, content) =>
      if content.takeWhile isSecretChar = [] then
        before ++ marker ++ scrubAfterMarker marker content
      else before ++ redacted ++ scrubAfterMarker marker (content.dropWhile isSecretChar)
  termination_by text.length
  decreasing_by
    · exact length_find_lt _empty _found
    · exact Nat.lt_of_le_of_lt (List.dropWhile_suffix _).length_le (length_find_lt _empty _found)

/-- The line ending behind an END line. -/
def dropLineEnding : List Char → List Char
  | '\r' :: '\n' :: rest => rest
  | '\n' :: rest => rest
  | rest => rest

theorem dropLineEnding_isSuffix (text : List Char) : dropLineEnding text <:+ text := by
  unfold dropLineEnding
  split
  · exact (List.suffix_cons _ _).trans (List.suffix_cons _ _)
  · exact List.suffix_cons _ _
  · exact List.suffix_refl _

theorem length_pem_lt (foundBegin : find pemBegin text = some (before, line))
    (foundKind : find pemLineSuffix line = some (kind, content))
    (foundEnd : find (endMarker kind) content = some (body, rest)) :
    (dropLineEnding rest).length < text.length := by
  have endNonempty : endMarker kind ≠ [] := by
    intro empty
    exact pemLineSuffix_ne_nil (List.append_eq_nil_iff.mp empty).2
  have short := (dropLineEnding_isSuffix rest).length_le
  have first := length_find_lt pemBegin_ne_nil foundBegin
  have second := length_find_lt pemLineSuffix_ne_nil foundKind
  have third := length_find_lt endNonempty foundEnd
  omega

/-- `scrub_pem_blocks` from `search_from` on. -/
def scrubPemBlocks (text : List Char) : List Char :=
  match _foundBegin : find pemBegin text with
  | none => text
  | some (before, line) =>
    match _foundKind : find pemLineSuffix line with
    | none => before ++ pemBegin ++ scrubPemBlocks line
    | some (kind, content) =>
      if kind = [] then before ++ pemBegin ++ scrubPemBlocks line
      else
        match _foundEnd : find (endMarker kind) content with
        | none => before ++ pemBegin ++ scrubPemBlocks line
        | some (_, rest) => before ++ redactedPem ++ scrubPemBlocks (dropLineEnding rest)
  termination_by text.length
  decreasing_by
    · exact length_find_lt pemBegin_ne_nil _foundBegin
    · exact length_find_lt pemBegin_ne_nil _foundBegin
    · exact length_find_lt pemBegin_ne_nil _foundBegin
    · exact length_pem_lt _foundBegin _foundKind _foundEnd

/-- `PREFIX_PATTERNS`. -/
def prefixPatterns : List (List Char) :=
  ["sk-", "xoxb-", "xoxp-", "xoxs-", "xoxa-", "xoxe-", "xapp-", "ghp_", "github_pat_", "hf_",
    "glpat-", "ya29.", "AIza", "AKIA", "ASIA", "eyJ", "-----BEGIN ", "GOCSPX-", "gho_", "ghu_",
    "ghs_", "sshpass-", "AGE-SECRET-KEY-"].map String.toList

/-- `MARKER_PATTERNS`. -/
def markerPatterns : List (List Char) :=
  ["Authorization: Bearer ", "authorization: bearer ", "\"authorization\":\"Bearer ",
    "\"authorization\":\"bearer ", "api_key=", "access_token=", "refresh_token=", "id_token=",
    "\"api_key\":\"", "\"access_token\":\"", "\"refresh_token\":\"", "\"id_token\":\"",
    "\"token\":\"", "\"secret\":\"", "\"password\":\"", "\"private_key\":\"",
    "\"client_secret\":\"", "\"database_url\":\"", "password=", "secret=", "DATABASE_URL=",
    "PRIVATE_KEY=", "SECRET_KEY="].map String.toList

def needsScrubbing (input : List Char) : Bool :=
  (prefixPatterns ++ markerPatterns).any fun pattern => decide (pattern <:+: input)

/-- The patterns `scrub_secrets` passes over the text with, in order. -/
def passes : List (List Char) :=
  (prefixPatterns.filter fun pattern => pattern ≠ pemBegin) ++ markerPatterns

/-- The loops over the two tables. -/
def scrubMarkers (markers : List (List Char)) (text : List Char) : List Char :=
  markers.foldl (fun scrubbed marker => scrubAfterMarker marker scrubbed) text

theorem scrubMarkers_cons (marker : List Char) (rest : List (List Char)) (text : List Char) :
    scrubMarkers (marker :: rest) text = scrubMarkers rest (scrubAfterMarker marker text) := rfl

theorem scrubMarkers_append (earlier later : List (List Char)) (text : List Char) :
    scrubMarkers (earlier ++ later) text = scrubMarkers later (scrubMarkers earlier text) :=
  foldl_append

def scrubSecrets (input : List Char) : List Char :=
  if needsScrubbing input then scrubPemBlocks (scrubMarkers passes input) else input

/-! ## The tables -/

/-- What the passes rely on: a marker touches neither of the texts put in, has no
two dashes in a row and shares no character with the delimiters of a PEM block but
a dash at its end, and where it overlaps itself a secret character follows. -/
structure Marker (text : List Char) : Prop where
  nonempty : text ≠ []
  noOpening : '[' ∉ text
  noClosing : ']' ∉ text
  outer : ¬ text <:+: "REDACTED-PEM".toList
  overlap : ∀ border ∈ text.tails, border ≠ [] → border ≠ text → border <+: text →
    (text.drop border.length).head?.all isSecretChar
  noDashes : ¬ ['-', '-'] <:+: text
  noDelimiter : ∀ delimiter ∈ [pemBegin, pemEndMarker, pemLineSuffix],
    ∀ tail ∈ delimiter.tails, tail ≠ [] → ¬ tail <+: text ∧ ¬ text <+: tail

theorem passes_marker : ∀ marker ∈ passes, Marker marker := by
  have checked : ∀ marker ∈ passes,
      (marker ≠ [] ∧ '[' ∉ marker ∧ ']' ∉ marker ∧ ¬ marker <:+: "REDACTED-PEM".toList) ∧
      (∀ border ∈ marker.tails, border ≠ [] → border ≠ marker → border <+: marker →
        (marker.drop border.length).head?.all isSecretChar) ∧
      ¬ ['-', '-'] <:+: marker ∧
      ∀ delimiter ∈ [pemBegin, pemEndMarker, pemLineSuffix],
        ∀ tail ∈ delimiter.tails, tail ≠ [] → ¬ tail <+: marker ∧ ¬ marker <+: tail := by
    decide +kernel
  intro marker member
  obtain ⟨⟨nonempty, noOpening, noClosing, outer⟩, overlap, noDashes, noDelimiter⟩ :=
    checked marker member
  exact ⟨nonempty, noOpening, noClosing, outer, overlap, noDashes, noDelimiter⟩

/-! ## One pass -/

theorem scrub_none (missing : find marker text = none) :
    scrubAfterMarker marker text = text := by
  rw [scrubAfterMarker]
  split
  · rfl
  · split
    · rfl
    · rename_i found
      cases missing.symm.trans found

theorem scrub_some (nonempty : marker ≠ []) (found : find marker text = some (before, content)) :
    scrubAfterMarker marker text = if content.takeWhile isSecretChar = [] then
        before ++ marker ++ scrubAfterMarker marker content
      else before ++ redacted ++ scrubAfterMarker marker (content.dropWhile isSecretChar) := by
  rw [scrubAfterMarker, dif_neg nonempty]
  split
  · rename_i missing
    cases missing.symm.trans found
  · rename_i before' content' found'
    cases found'.symm.trans found
    rfl

/-- What a pass replaces: the marker and a token behind it. -/
def MarkerChange (marker old new : List Char) : Prop :=
  new = redacted ∧ ∃ token, old = marker ++ token ∧ token.all isSecretChar = true

theorem scrub_rewrites (marker text : List Char) :
    Rewrites (MarkerChange marker) text (scrubAfterMarker marker text) := by
  fun_induction scrubAfterMarker marker text with
  | case1 => exact .same _
  | case2 => exact .same _
  | case3 text nonempty before content found bare ih =>
    have parts : text = before ++ marker ++ content := find_eq_some found
    have moved := ih.prepend (before ++ marker)
    exact parts ▸ moved
  | case4 text nonempty before content found token ih =>
    have allowed : MarkerChange marker (marker ++ content.takeWhile isSecretChar) redacted :=
      ⟨rfl, _, rfl, all_takeWhile⟩
    have joined := Rewrites.replace before allowed ih
    have parts : text = before ++ (marker ++ content.takeWhile isSecretChar) ++
        content.dropWhile isSecretChar := by
      rw [find_eq_some found]
      simp
    rw [parts]
    exact joined

/-- A pattern is exposed when a secret character follows it. -/
def Exposed (pattern text : List Char) : Prop :=
  ∃ char, isSecretChar char = true ∧ pattern ++ [char] <:+: text

theorem secret_ne (secret : isSecretChar char = true) : char ≠ '[' ∧ char ≠ ']' := by
  constructor
  · rintro rfl
    exact absurd secret (by decide)
  · rintro rfl
    exact absurd secret (by decide)

theorem Marker.noClosing_token {token : List Char} (shape : Marker marker)
    (all : token.all isSecretChar = true) : ']' ∉ marker ++ token := by
  intro inside
  rcases mem_append.mp inside with inMarker | inToken
  · exact shape.noClosing inMarker
  · exact (secret_ne (all_eq_true.mp all _ inToken)).2 rfl

/-- A marker with a secret character touches neither of the texts put in. -/
theorem exposed_apart (shape : Marker marker) (secret : isSecretChar char = true) :
    Rewrites.Apart (marker ++ [char]) redacted ∧ Rewrites.Apart (marker ++ [char]) redactedPem := by
  obtain ⟨notOpening, notClosing⟩ := secret_ne secret
  have noOpening : '[' ∉ marker ++ [char] := by
    simp [shape.noOpening, notOpening.symm]
  have noClosing : ']' ∉ marker ++ [char] := by
    simp [shape.noClosing, notClosing.symm]
  have outer : ¬ marker ++ [char] <:+: "REDACTED-PEM".toList := fun inner =>
    shape.outer ((prefix_append marker [char]).isInfix.trans inner)
  constructor
  · apply Rewrites.apart_delimited "REDACTED".toList noOpening noClosing
    exact fun inner => outer (inner.trans ⟨[], "-PEM".toList, rfl⟩)
  · exact Rewrites.apart_delimited "REDACTED-PEM".toList noOpening noClosing outer

theorem exposed_of_rewrites {change : List Char → List Char → Prop}
    (shape : Marker marker) (rewrites : Rewrites change text out)
    (news : ∀ old new, change old new → new = redacted ∨ new = redactedPem)
    (exposed : Exposed marker out) : Exposed marker text := by
  obtain ⟨char, secret, occurs⟩ := exposed
  refine ⟨char, secret, rewrites.occurs_of_rewritten ?_ occurs⟩
  intro old new allowed
  rcases news old new allowed with rfl | rfl
  · exact (exposed_apart shape secret).1
  · exact (exposed_apart shape secret).2

/-- Behind a marker without a token no secret character comes to stand. -/
theorem scrub_head (bare : content.takeWhile isSecretChar = [])
    (begins : scrubAfterMarker marker content = char :: rest) :
    isSecretChar char = false := by
  have head : ∀ first others, content = first :: others → isSecretChar first = false := by
    intro first others same
    rw [same, takeWhile_cons] at bare
    cases secret : isSecretChar first with
    | false => rfl
    | true => simp [secret] at bare
  have rewrites := scrub_rewrites marker content
  generalize scrubAfterMarker marker content = out at rewrites begins
  cases rewrites with
  | same => exact head char rest begins
  | @replace before old new tail out allowed later =>
    cases before with
    | nil =>
      rw [allowed.1] at begins
      have opening : '[' = char := (List.cons.inj begins).1
      rw [← opening]
      decide
    | cons first others =>
      have same : first = char := (List.cons.inj begins).1
      rw [← same]
      exact head first (others ++ old ++ tail) (by simp)

/-- The first occurrence of a marker has no exposed one before it. -/
theorem not_exposed_before (found : find marker text = some (before, content)) :
    ¬ marker ++ [char] <:+: before := by
  rintro ⟨lead, tail, parts⟩
  have occurs : text = lead ++ marker ++ ([char] ++ tail ++ marker ++ content) := by
    rw [find_eq_some found, ← parts]
    simp
  have first := find_first found occurs
  rw [← parts] at first
  simp only [length_append, length_singleton] at first
  omega

/-- No exposed marker begins in a bare one. -/
theorem none_begins_in_bare {tail : List Char} (shape : Marker marker)
    (secret : isSecretChar char = true)
    (head : ∀ first rest, out = first :: rest → isSecretChar first = false)
    (later : ¬ marker ++ [char] <:+: out) (lead : List Char) :
    marker ++ out ≠ lead ++ (marker ++ [char] ++ tail) := by
  intro whole
  rw [append_eq_append_iff] at whole
  rcases whole with ⟨gap, leadEq, outEq⟩ | ⟨border, markerEq, borderEq⟩
  · exact later ⟨gap, tail, by rw [outEq, append_assoc]⟩
  · -- the marker overlaps the bare one in the border
    have ends : border ∈ marker.tails := (mem_tails _ _).mpr ⟨lead, markerEq.symm⟩
    by_cases empty : border = []
    · apply later
      exact ⟨[], tail, by simpa [empty] using borderEq⟩
    · by_cases all : border = marker
      · rw [all, append_assoc] at borderEq
        have outEq := append_cancel_left borderEq
        have plain := head char tail outEq.symm
        rw [plain] at secret
        cases secret
      · have front : border <+: marker := by
          have short : border.length ≤ marker.length := ((mem_tails _ _).mp ends).length_le
          have prefixes : border <+: marker ++ ([char] ++ tail) :=
            ⟨out, by rw [← borderEq, append_assoc]⟩
          exact prefix_of_prefix_length_le prefixes (prefix_append _ _) short
        have follows := shape.overlap border ends empty all front
        obtain ⟨rest, markerSplit⟩ := front
        cases rest with
        | nil => exact all (by simpa using markerSplit)
        | cons first others =>
          have outEq : out = first :: (others ++ [char] ++ tail) := by
            have joined : border ++ (first :: (others ++ [char] ++ tail)) = border ++ out := by
              rw [← borderEq, ← markerSplit]
              simp
            exact (append_cancel_left joined).symm
          have plain := head first _ outEq
          rw [← markerSplit, drop_left] at follows
          simp [plain] at follows

/-- Passing over a bare marker exposes none that overlaps it. -/
theorem bare_not_exposed (shape : Marker marker) (found : find marker text = some (before, content))
    (secret : isSecretChar char = true)
    (head : ∀ first rest, out = first :: rest → isSecretChar first = false)
    (later : ¬ marker ++ [char] <:+: out) : ¬ marker ++ [char] <:+: before ++ marker ++ out := by
  rintro ⟨lead, tail, whole⟩
  rw [append_assoc before, append_assoc lead, append_eq_append_iff] at whole
  rcases whole with ⟨gap, beforeEq, gapEq⟩ | ⟨gap, leadEq, outEq⟩
  · cases gap with
    | nil => exact none_begins_in_bare shape secret head later [] (by simpa using gapEq.symm)
    | cons first others =>
      -- an earlier occurrence would have been found first
      have front : marker <+: first :: others ++ marker := by
        have prefixes : marker <+: (first :: others ++ marker) ++ out :=
          ⟨[char] ++ tail, by rw [append_assoc, ← gapEq, append_assoc]⟩
        apply prefix_of_prefix_length_le prefixes (prefix_append _ _)
        rw [length_append]
        exact Nat.le_add_left _ _
      obtain ⟨extra, joined⟩ := front
      have occurs : text = lead ++ marker ++ (extra ++ content) := by
        rw [find_eq_some found, beforeEq]
        calc lead ++ first :: others ++ marker ++ content
            = lead ++ (first :: others ++ marker) ++ content := by simp
          _ = lead ++ (marker ++ extra) ++ content := by rw [joined]
          _ = lead ++ marker ++ (extra ++ content) := by simp
      have early := find_first found occurs
      rw [beforeEq] at early
      simp only [length_append, length_cons] at early
      omega
  · exact none_begins_in_bare shape secret head later gap outEq

/-- A pass leaves no exposed occurrence of its marker. -/
theorem scrub_not_exposed (shape : Marker marker) (text : List Char) :
    ¬ Exposed marker (scrubAfterMarker marker text) := by
  rintro ⟨char, secret, occurs⟩
  revert occurs
  fun_induction scrubAfterMarker marker text with
  | case1 text empty => exact absurd empty shape.nonempty
  | case2 text nonempty missing =>
    intro occurs
    exact find_eq_none_iff.mp missing ((prefix_append marker [char]).isInfix.trans occurs)
  | case3 text nonempty before content found bare ih =>
    exact bare_not_exposed shape found secret (fun _ _ begins => scrub_head bare begins)
      ih
  | case4 text nonempty before content found token ih =>
    intro occurs
    rcases (exposed_apart shape secret).1 _ _ occurs with front | back
    · exact not_exposed_before found front
    · exact ih back

/-! ## All passes -/

/-- What all passes together replace. -/
def Change (_old new : List Char) : Prop := new = redacted ∨ new = redactedPem

/-- What the last pass replaces: a block from its BEGIN line to the end of its END
line. -/
def PemChange (old new : List Char) : Prop :=
  new = redactedPem ∧ pemBegin <+: old ∧ ∃ front last, old = front ++ [last] ∧
    (last = '-' ∨ last = '\n')

theorem redacted_split (joined : first ++ second = redacted)
    (leads : first ≠ []) (trails : second ≠ []) :
    '[' ∈ first ∧ ']' ∈ second ∧ second <:+: "REDACTED]".toList := by
  cases first with
  | nil => exact absurd rfl leads
  | cons opening others =>
    have opens : opening = '[' ∧ others ++ second = "REDACTED]".toList := List.cons.inj joined
    refine ⟨opens.1 ▸ mem_cons_self, ?_, ⟨others, [], by rw [← opens.2]; simp⟩⟩
    have last : second.getLast? = some ']' := by
      have whole := congrArg getLast? opens.2
      rw [getLast?_append_of_ne_nil _ trails] at whole
      exact whole
    exact mem_of_getLast? last

theorem markerChange_starts (shape : Marker marker)
    (allowed : MarkerChange marker old new) (before after : List Char) :
    Rewrites.Uncut (fun _ new => new = redacted) before (old ++ after) := by
  intro _ first second joined leads trails _ begins
  obtain ⟨_, token, oldEq, _⟩ := allowed
  obtain ⟨_, closing, inner⟩ := redacted_split joined leads trails
  have prefixes : marker <+: old ++ after := by
    rw [oldEq, append_assoc]
    exact prefix_append _ _
  rcases prefix_or_prefix_of_prefix begins prefixes with short | long
  · exact shape.noClosing (short.subset closing)
  · have infix' : marker <:+: "REDACTED".toList ++ ']' :: [] := long.isInfix.trans inner
    rcases Rewrites.infix_around shape.noClosing infix' with inside | outside
    · exact shape.outer (inside.trans ⟨[], "-PEM".toList, rfl⟩)
    · exact shape.nonempty (infix_nil.mp outside)

theorem markerChange_ends (shape : Marker marker)
    (allowed : MarkerChange marker old new) (after : List Char) :
    Rewrites.Uncut (fun _ new => new = redacted) old after := by
  intro _ first second joined leads trails ends _
  obtain ⟨_, token, oldEq, secret⟩ := allowed
  obtain ⟨opening, _⟩ := redacted_split joined leads trails
  have member : '[' ∈ marker ++ token := oldEq ▸ ends.subset opening
  rcases mem_append.mp member with inMarker | inToken
  · exact shape.noOpening inMarker
  · exact absurd (all_eq_true.mp secret _ inToken) (by decide)

/-- The passes of the tables replace disjoint parts of the text. -/
theorem scrubMarkers_rewrites (shapes : ∀ marker ∈ markers, Marker marker) (text : List Char) :
    Rewrites (fun _ new => new = redacted) text (scrubMarkers markers text) := by
  induction markers using reverseRecOn with
  | nil => exact .same _
  | append_singleton markers marker ih =>
    have shape : Marker marker := shapes marker (by simp)
    have earlier := ih fun other member =>
      shapes other (mem_append_left _ member)
    have last := scrub_rewrites marker (scrubMarkers markers text)
    have joined := earlier.trans last
      (fun _ _ before after allowed => markerChange_starts shape allowed before after)
      (fun _ _ after allowed => markerChange_ends shape allowed after)
    rw [scrubMarkers_append]
    apply joined.weaken
    rintro old new (same | ⟨_, same, _⟩)
    · exact same
    · exact same

/-- No later pass exposes a marker of an earlier one. -/
theorem scrubMarkers_not_exposed (shapes : ∀ marker ∈ markers, Marker marker) (text : List Char) :
    ∀ marker ∈ markers, ¬ Exposed marker (scrubMarkers markers text) := by
  induction markers using reverseRecOn with
  | nil => simp
  | append_singleton markers last ih =>
    have earlier := ih fun other member =>
      shapes other (mem_append_left _ member)
    intro marker member
    rw [scrubMarkers_append]
    rcases mem_append.mp member with before | same
    · intro exposed
      apply earlier marker before
      exact exposed_of_rewrites (shapes marker member) (scrub_rewrites last _)
        (fun _ _ allowed => Or.inl allowed.1) exposed
    · rw [mem_singleton.mp same]
      exact scrub_not_exposed (shapes last (by simp)) _

theorem endMarker_last (kind : List Char) :
    ∃ front, endMarker kind = front ++ ['-'] := by
  have dashes : pemLineSuffix = "----".toList ++ ['-'] := by decide
  refine ⟨pemEndMarker ++ kind ++ "----".toList, ?_⟩
  have cut := congrArg (fun suffix => pemEndMarker ++ kind ++ suffix) dashes
  exact cut.trans (append_assoc _ _ _).symm

/-- A block found by the last pass, with the line ending behind it. -/
theorem block_change (foundKind : find pemLineSuffix line = some (kind, content))
    (foundEnd : find (endMarker kind) content = some (body, rest)) :
    ∃ block, pemBegin ++ line = block ++ dropLineEnding rest ∧ PemChange block redactedPem := by
  obtain ⟨ending, restEq⟩ := dropLineEnding_isSuffix rest
  obtain ⟨front, endEq⟩ := endMarker_last kind
  have lineEq : line = kind ++ pemLineSuffix ++ (body ++ (front ++ ['-']) ++ rest) := by
    rw [find_eq_some foundKind, find_eq_some foundEnd, endEq]
  refine ⟨pemBegin ++ (kind ++ pemLineSuffix ++ (body ++ (front ++ ['-']) ++ ending)), ?_,
    rfl, prefix_append _ _, ?_⟩
  · calc pemBegin ++ line
        = pemBegin ++ (kind ++ pemLineSuffix ++ (body ++ (front ++ ['-']) ++
            (ending ++ dropLineEnding rest))) := by rw [restEq, lineEq]
      _ = _ := by simp
  · cases ending using reverseRecOn with
    | nil =>
      refine ⟨pemBegin ++ (kind ++ pemLineSuffix ++ (body ++ front)), '-', by simp, Or.inl rfl⟩
    | append_singleton others last =>
      refine ⟨pemBegin ++ (kind ++ pemLineSuffix ++ (body ++ (front ++ ['-']) ++ others)), last,
        by simp, Or.inr ?_⟩
      unfold dropLineEnding at restEq
      split at restEq
      · rename_i others'
        have whole : (others ++ [last]) ++ others' = (['\r'] ++ ['\n']) ++ others' := restEq
        have cut := append_cancel_right whole
        exact singleton_inj.mp (append_inj' cut rfl).2
      · rename_i others'
        have whole : (others ++ [last]) ++ others' = ([] ++ ['\n']) ++ others' := restEq
        have cut := append_cancel_right whole
        exact singleton_inj.mp (append_inj' cut rfl).2
      · have short := congrArg List.length restEq
        simp only [length_append, length_singleton] at short
        omega

theorem pem_rewrites (text : List Char) : Rewrites PemChange text (scrubPemBlocks text) := by
  fun_induction scrubPemBlocks text with
  | case1 => exact .same _
  | case2 text before line foundBegin noKind ih =>
    rw [find_eq_some foundBegin]
    exact ih.prepend (before ++ pemBegin)
  | case3 text before line foundBegin content foundKind ih =>
    rw [find_eq_some foundBegin]
    exact ih.prepend (before ++ pemBegin)
  | case4 text before line foundBegin kind content foundKind nonempty noEnd ih =>
    rw [find_eq_some foundBegin]
    exact ih.prepend (before ++ pemBegin)
  | case5 text before line foundBegin kind content foundKind nonempty body rest foundEnd
      ih =>
    obtain ⟨block, blockEq, change⟩ := block_change foundKind foundEnd
    have joined := Rewrites.replace before change ih
    rw [find_eq_some foundBegin, append_assoc, blockEq, ← append_assoc]
    exact joined

theorem redacted_tail (joined : first ++ second = redacted) :
    (∀ others, second ≠ '-' :: others) ∧
      ∀ front last, first = front ++ [last] → last ≠ '-' ∧ last ≠ '\n' := by
  have noDash : '-' ∉ redacted := by decide
  have noNewline : '\n' ∉ redacted := by decide
  constructor
  · rintro others rfl
    exact noDash (by simp [← joined])
  · rintro front last rfl
    constructor
    · rintro rfl
      exact noDash (by simp [← joined])
    · rintro rfl
      exact noNewline (by simp [← joined])

theorem scrubSecrets_rewrites (input : List Char) :
    Rewrites Change input (scrubSecrets input) := by
  unfold scrubSecrets
  split
  · have markers := scrubMarkers_rewrites passes_marker input
    have blocks := pem_rewrites (scrubMarkers passes input)
    have joined := markers.trans blocks
      (by
        rintro old new before after ⟨_, begins, _⟩ _ first second cut _ trails _ starts
        obtain ⟨others, second'⟩ : ∃ others, second = '-' :: others := by
          have front : ['-'] <+: old ++ after :=
            (show ['-'] <+: pemBegin by decide).trans (begins.trans (prefix_append _ _))
          cases second with
          | nil => exact absurd rfl trails
          | cons head others =>
            obtain ⟨tail, same⟩ := front
            obtain ⟨tail', same'⟩ := starts
            have heads : head = '-' := (List.cons.inj (same'.trans same.symm)).1
            exact ⟨others, by rw [heads]⟩
        exact (redacted_tail cut).1 others second')
      (by
        rintro old new after ⟨_, _, front, last, oldEq, lastEq⟩ _ first second cut leads _ ends _
        cases first using reverseRecOn with
        | nil => exact leads rfl
        | append_singleton firsts symbol =>
          obtain ⟨lead, same⟩ := ends
          rw [oldEq, ← append_assoc] at same
          have lasts : symbol = last := singleton_inj.mp (append_inj' same rfl).2
          have other := (redacted_tail cut).2 firsts symbol rfl
          rcases lastEq with dash | newline
          · exact other.1 (lasts.trans dash)
          · exact other.2 (lasts.trans newline))
    apply joined.weaken
    rintro old new (same | ⟨_, same, _⟩)
    · exact Or.inl same
    · exact Or.inr same
  · exact .same _

/-- Scrubbing is complete: no marker is left before a secret character, the output
is the input with disjoint parts replaced, and a text without a pattern stays as it
is. -/
theorem scrubSecrets_complete (input : List Char) :
    (∀ pattern ∈ passes, ¬ Exposed pattern (scrubSecrets input)) ∧
      (∃ parts : List (Fragment Char), parts.flatMap Fragment.old = input ∧
        parts.flatMap Fragment.new = scrubSecrets input ∧
        ∀ old new, Fragment.replaced old new ∈ parts → new = redacted ∨ new = redactedPem) ∧
      ((∀ pattern ∈ prefixPatterns ++ markerPatterns, ¬ pattern <:+: input) →
        scrubSecrets input = input) := by
  refine ⟨?_, (scrubSecrets_rewrites input).exists_parts, ?_⟩
  · intro pattern member exposed
    have shape := passes_marker pattern member
    unfold scrubSecrets at exposed
    split at exposed
    · have afterMarkers := exposed_of_rewrites shape (pem_rewrites _)
        (fun _ _ allowed => Or.inr allowed.1) exposed
      exact scrubMarkers_not_exposed passes_marker input pattern member afterMarkers
    · rename_i clean
      obtain ⟨char, _, occurs⟩ := exposed
      have inTable : pattern ∈ prefixPatterns ++ markerPatterns := by
        rcases mem_append.mp member with kept | marker
        · exact mem_append_left _ (mem_of_mem_filter kept)
        · exact mem_append_right _ marker
      have found : pattern <:+: input := (prefix_append pattern [char]).isInfix.trans occurs
      exact clean (any_eq_true.mpr ⟨pattern, inTable, decide_eq_true found⟩)
  · intro none
    have clean : needsScrubbing input = false := by
      refine any_eq_false.mpr fun pattern member => ?_
      simpa using none pattern member
    simp [scrubSecrets, clean]

end Asterel.Scrub
