import Asterel.Security.InjectionPadding

/-!
# Injections that padding hides

Between enough line feeds no window of a large text shows the line, and whatever it says
is allowed. A weak signal of an early pass keeps a later one from running.
-/

namespace Asterel.ExternalContent

open Library List CharBoundary
open scoped Library.Text
open Library.Text (isWhitespace occurs)
open Chunker (byteLength)
open CharBoundary (floorCharBoundary)

/-! ## Windows over line feeds -/

section Windows

variable {front rest line : List Char}
variable {back : List Char} {count index : Nat}

/-- Empty lines. -/
def blankLines (count : Nat) : List Char := replicate count '\n'

theorem blankLines_succ (count : Nat) : blankLines (count + 1) = '\n' :: blankLines count := rfl

theorem byteLength_blankLines (count : Nat) : byteLength (blankLines count) = count := by
  rw [byteLength_ascii, blankLines, length_replicate]
  intro ch member
  rw [eq_of_mem_replicate member]
  decide

theorem floorCharBoundary_blankLines (within : index ≤ count) :
    floorCharBoundary (blankLines count ++ rest) index = index := by
  induction count generalizing index with
  | zero =>
    obtain rfl : index = 0 := Nat.le_zero.mp within
    cases rest with
    | nil => rfl
    | cons ch rest =>
      have positive := ch.utf8Size_pos
      rw [blankLines, replicate_zero, nil_append, floorCharBoundary, if_neg (by omega)]
  | succ count ih =>
    have one : '\n'.utf8Size = 1 := rfl
    rw [blankLines_succ, cons_append, floorCharBoundary, one]
    split
    · rw [ih (by omega)]
      omega
    · omega

theorem ceilCharBoundary_blankLines (within : index ≤ count) :
    ceilCharBoundary (blankLines count) index = index := by
  induction count generalizing index with
  | zero =>
    obtain rfl : index = 0 := Nat.le_zero.mp within
    rfl
  | succ count ih =>
    have one : '\n'.utf8Size = 1 := rfl
    rw [blankLines_succ, ceilCharBoundary, one]
    split
    · exact ‹index = 0›.symm
    · rw [ih (by omega)]
      omega

theorem ceilCharBoundary_behind (behind : byteLength front ≤ index) :
    ceilCharBoundary (front ++ rest) index =
      front.length + ceilCharBoundary rest (index - byteLength front) := by
  induction front generalizing index with
  | nil => rw [nil_append, length_nil, Nat.zero_add]; rfl
  | cons ch front ih =>
    have positive := ch.utf8Size_pos
    rw [byteLength] at behind
    rw [cons_append, ceilCharBoundary, if_neg (by omega), ih (by omega),
      byteLength, length_cons, Nat.sub_sub]
    omega

/-- Behind the text only empty lines are seen. -/
theorem drop_ceilCharBoundary (behind : byteLength front ≤ index)
    (within : index ≤ byteLength front + count) :
    (front ++ blankLines count).drop (ceilCharBoundary (front ++ blankLines count) index) =
      blankLines (count - (index - byteLength front)) := by
  rw [ceilCharBoundary_behind behind, ceilCharBoundary_blankLines (by omega), drop_append,
    drop_eq_nil_of_le (Nat.le_add_right _ _), nil_append, Nat.add_sub_cancel_left,
    blankLines, drop_replicate]
  rfl

theorem take_blankLines {more : Nat} (enough : count ≤ more) :
    (blankLines more ++ rest).take count = blankLines count := by
  rw [blankLines, take_append_of_le_length (by rwa [length_replicate]),
    take_replicate, Nat.min_eq_left enough]
  rfl

def truncatedHead : List Char := "\n[[external-content-truncated-head]]\n".toList

def truncatedTail : List Char := "\n[[external-content-truncated-tail]]\n".toList

/-- The windows of a line between empty ones, with enough of them behind it. -/
theorem sampledText_blankLines {behind : Nat}
    (enough : 4 * detectionWindow + byteLength line + 100 ≤ behind) :
    sampledText (blankLines detectionWindow ++ '\n' :: (line ++ '\n' :: blankLines behind)) =
      blankLines detectionWindow ++ truncatedHead ++ blankLines detectionWindow ++ truncatedTail ++
        blankLines detectionWindow := by
  have window : detectionWindow = 87381 := by decide
  have limit : maxDetectionInputBytes = 262144 := by decide
  generalize whole : blankLines detectionWindow ++ '\n' :: (line ++ '\n' :: blankLines behind) = text
  have front : text = blankLines detectionWindow ++ '\n' :: line ++ blankLines (behind + 1) := by
    rw [← whole, blankLines_succ]
    simp
  have frontLength : byteLength (blankLines detectionWindow ++ '\n' :: line) =
      detectionWindow + 1 + byteLength line := by
    rw [byteLength_append, byteLength_blankLines, byteLength, Nat.add_assoc]
    rfl
  have length : byteLength text = detectionWindow + 1 + byteLength line + (behind + 1) := by
    rw [front, byteLength_append, frontLength, byteLength_blankLines]
  have head : text.take (floorCharBoundary text (min detectionWindow (byteLength text))) =
      blankLines detectionWindow := by
    rw [Nat.min_eq_left (by omega), ← whole, floorCharBoundary_blankLines (Nat.le_refl _),
      take_blankLines (Nat.le_refl _)]
  have behindLine : ∀ index, byteLength (blankLines detectionWindow ++ '\n' :: line) ≤ index →
      index ≤ byteLength (blankLines detectionWindow ++ '\n' :: line) + (behind + 1) →
        text.drop (ceilCharBoundary text index) = blankLines
          (behind + 1 - (index - byteLength (blankLines detectionWindow ++ '\n' :: line))) := by
    intro index least most
    rw [front]
    exact drop_ceilCharBoundary least most
  have mid : ∀ count, detectionWindow ≤ count →
      (blankLines count).take (floorCharBoundary (blankLines count) detectionWindow) =
        blankLines detectionWindow := by
    intro count many
    have seam := @floorCharBoundary_blankLines [] count detectionWindow many
    have cut := @take_blankLines [] detectionWindow count many
    rw [append_nil] at seam cut
    rw [seam, cut]
  have tail : behind + 1 - (byteLength text - detectionWindow -
      byteLength (blankLines detectionWindow ++ '\n' :: line)) = detectionWindow := by omega
  rw [sampledText, if_pos (by omega), boundedDetectionText, head, behindLine _ (by omega) (by omega), behindLine _ (by omega) (by omega), tail,
    mid _ (by omega)]
  rfl

/-! ## What is found in the windows -/

def headMark : List Char := "[[external-content-truncated-head]]".toList

def tailMark : List Char := "[[external-content-truncated-tail]]".toList

/-- The marks between empty lines. -/
def emptyWindows (first second third : Nat) : List Char :=
  blankLines (first + 1) ++ (headMark ++ (blankLines (second + 1) ++
    (tailMark ++ blankLines (third + 1))))

theorem emptyWindows_eq (count : Nat) :
    blankLines count ++ truncatedHead ++ blankLines count ++ truncatedTail ++ blankLines count =
      emptyWindows count (count + 1) count := by
  have shift : blankLines (count + 1) = blankLines count ++ ['\n'] := replicate_succ'
  have head : truncatedHead = '\n' :: (headMark ++ ['\n']) := by decide
  have tail : truncatedTail = '\n' :: (tailMark ++ ['\n']) := by decide
  have middle : blankLines (count + 1 + 1) = '\n' :: (blankLines count ++ ['\n']) :=
    congrArg ('\n' :: ·) shift
  rw [emptyWindows, head, tail, middle]
  nth_rewrite 1 [shift]
  rw [blankLines_succ]
  simp

/-- A second line feed changes nothing in a text without percent sign. -/
theorem normalizeDetection_newlines (before : '%' ∉ front) (behind : '%' ∉ back) :
    normalizeDetection (front ++ '\n' :: '\n' :: back) =
      normalizeDetection (front ++ '\n' :: back) := by
  have undecoded : ∀ middle : List Char, '%' ∉ middle →
      decodePercentEncoding (front ++ (middle ++ back)) = front ++ (middle ++ back) := by
    intro middle absent
    rw [decodePercentEncoding, if_pos]
    rw [mem_append, mem_append]
    rintro (inFront | inMiddle | inBack)
    · exact before inFront
    · exact absent inMiddle
    · exact behind inBack
  have newline : normalizeChar '\n' = some '\n' := by decide
  have two := undecoded ['\n', '\n'] (by decide)
  have one := undecoded ['\n'] (by decide)
  rw [cons_append, cons_append, nil_append] at two
  rw [cons_append, nil_append] at one
  have collapsed : ∀ front back : List Char, collapseWhitespace (front ++ '\n' :: '\n' :: back) =
      collapseWhitespace (front ++ '\n' :: back) := by
    intro front back
    rw [collapseWhitespace, collapseFrom_newline, collapseWhitespace, collapseFrom_newline]
    rfl
  rw [normalizeDetection, normalizeDetection, two, one]
  simp only [normalizeChars, filterMap_append, filterMap_cons_some newline,
    composeKatakanaVoicing_newline]
  have apart : composeKatakanaVoicing ('\n' :: List.filterMap normalizeChar back) =
      '\n' :: composeKatakanaVoicing (List.filterMap normalizeChar back) :=
    composeKatakanaVoicing_apart fun _ _ => composedPair_ascii (by decide)
  rw [apart, collapsed]

theorem normalizeDetection_blankLines (count : Nat) (before : '%' ∉ front)
    (behind : '%' ∉ back) : normalizeDetection (front ++ (blankLines (count + 1) ++ back)) =
      normalizeDetection (front ++ (blankLines (0 + 1) ++ back)) := by
  induction count with
  | zero => rfl
  | succ count ih =>
    have absent : '%' ∉ blankLines count ++ back := by
      rw [mem_append]
      rintro (inLines | inBack)
      · exact absurd (eq_of_mem_replicate inLines) (by decide)
      · exact behind inBack
    rw [← ih]
    exact normalizeDetection_newlines before absent

/-- The letters of the marks, and of two patterns. -/
def markLetters : List Char :=
  [' ', '[', ']', 'e', 'x', 't', 'r', 'n', 'a', 'l', 'c', 'o', 'u', 'd', 'h', 'i', 'f', 'g']

/-- Whether the pattern has another letter. -/
def outsider (pattern : List Char) : Bool :=
  pattern.any fun ch => !markLetters.contains ch && !isWhitespace ch

end Windows

section Patterns

variable {text pattern : List Char} {patterns : List (List Char)}

theorem outsider_ofList {chars : List Char} (outside : outsider chars = true) :
    outsider (String.ofList chars).toList = true := by
  rwa [String.toList_ofList]

/-- Which patterns have only letters of the marks. -/
def ofMarkLetters : List (List Char) :=
  ["exfiltrate", "hidden configuration", "hidden config"].map String.toList

theorem patterns_outsider : ∀ patterns ∈ [instructionOverride, privilegeEscalation, toolJailbreak],
    ∀ pattern ∈ patterns, outsider pattern = true := by
  rw [instructionOverride, privilegeEscalation, toolJailbreak]
  simp only [map_cons, map_nil]
  repeat' first
    | exact forall_mem_nil _
    | refine forall_mem_cons.mpr ⟨outsider_ofList rfl, ?_⟩
    | refine forall_mem_cons.mpr ⟨?_, ?_⟩

theorem secretExfiltration_outsider : ∀ pattern ∈ secretExfiltration,
    outsider pattern = true ∨ pattern ∈ ofMarkLetters := by
  rw [secretExfiltration, ofMarkLetters]
  simp only [map_cons, map_nil]
  repeat' first
    | exact forall_mem_nil _
    | refine forall_mem_cons.mpr ⟨.inl (outsider_ofList rfl), ?_⟩
    | refine forall_mem_cons.mpr ⟨.inr (by simp only [mem_cons, true_or, or_true]), ?_⟩

theorem highConfidence_outsider : ∀ pattern ∈ highConfidenceSecretExfiltration,
    outsider pattern = true ∨ pattern = "exfiltrate".toList := by
  rw [highConfidenceSecretExfiltration]
  simp only [map_cons, map_nil]
  repeat' first
    | exact forall_mem_nil _
    | refine forall_mem_cons.mpr ⟨.inl (outsider_ofList rfl), ?_⟩
    | refine forall_mem_cons.mpr ⟨.inr rfl, ?_⟩

/-- A letter of the pattern is missing in the text. -/
def Misses (text pattern : List Char) : Prop :=
  ∃ ch ∈ pattern, ch ∉ text ∧ isWhitespace ch = false

theorem Misses.of_outsider (inside : ∀ ch ∈ text, ch ∈ markLetters)
    (outside : outsider pattern = true) : Misses text pattern := by
  obtain ⟨ch, member, other⟩ := any_eq_true.mp outside
  rw [Bool.and_eq_true, Bool.not_eq_true', Bool.not_eq_true'] at other
  refine ⟨ch, member, fun here => ?_, other.2⟩
  rw [contains_iff_mem.mpr (inside ch here)] at other
  cases other.1

theorem Misses.absent (misses : Misses text pattern) : ¬ pattern <:+: text := by
  obtain ⟨ch, member, outside, _⟩ := misses
  exact fun within => outside (within.mem member)

theorem containsAny_misses (misses : ∀ pattern ∈ patterns, Misses text pattern) :
    containsAny text patterns = false := by
  refine any_eq_false.mpr ?_
  exact fun pattern member found => (misses pattern member).absent (of_decide_eq_true found)

/-- In a text of such letters only three patterns can be found. -/
theorem plain_signals (inside : ∀ ch ∈ text, ch ∈ markLetters) :
    ({} : InjectionSignals).add (containsAny text) =
      { hasSecretExfiltration := containsAny text secretExfiltration
        hasHighConfidenceSecretExfiltration := occurs "exfiltrate".toList text } := by
  have outside : ∀ patterns ∈ [instructionOverride, privilegeEscalation, toolJailbreak],
      containsAny text patterns = false := fun patterns known => containsAny_misses fun pattern member =>
    .of_outsider inside (patterns_outsider patterns known pattern member)
  have high : containsAny text highConfidenceSecretExfiltration =
      occurs "exfiltrate".toList text := by
    rw [Bool.eq_iff_iff]
    constructor
    · intro found
      obtain ⟨pattern, member, here⟩ := any_eq_true.mp found
      rcases highConfidence_outsider pattern member with other | rfl
      · exact absurd (of_decide_eq_true here) (Misses.of_outsider inside other).absent
      · exact here
    · intro here
      exact any_eq_true.mpr ⟨"exfiltrate".toList, exfiltrate_mem, here⟩
  rw [InjectionSignals.add, outside instructionOverride (by simp),
    outside privilegeEscalation (by simp), outside toolJailbreak (by simp), high]
  rfl

/-- Without the letter that these have no pattern is found by a search of any kind. -/
theorem quiet_signals (inside : ∀ ch ∈ text, ch ∈ markLetters) (absent : 'f' ∉ text)
    {found : List (List Char) → Bool}
    (search : ∀ patterns, (∀ pattern ∈ patterns, Misses text pattern) → found patterns = false) :
    (({} : InjectionSignals).add found).hasAnyInjection = false := by
  have other : ∀ patterns ∈ [instructionOverride, privilegeEscalation, toolJailbreak],
      found patterns = false := fun patterns known => search _ fun pattern member =>
    .of_outsider inside (patterns_outsider patterns known pattern member)
  have known : ∀ pattern ∈ ofMarkLetters, Misses text pattern := by
    have letter : ∀ pattern ∈ ofMarkLetters, 'f' ∈ pattern := by decide
    exact fun pattern member => ⟨'f', letter pattern member, absent, by decide⟩
  have secret : found secretExfiltration = false := by
    refine search _ fun pattern member => ?_
    exact (secretExfiltration_outsider pattern member).elim (.of_outsider inside) (known pattern)
  have high : found highConfidenceSecretExfiltration = false := by
    refine search _ fun pattern member => ?_
    rcases highConfidence_outsider pattern member with outside | rfl
    · exact .of_outsider inside outside
    · exact known _ (mem_map_of_mem mem_cons_self)
  rw [InjectionSignals.add, other instructionOverride (by simp),
    other privilegeEscalation (by simp), other toolJailbreak (by simp), secret, high]
  rfl

theorem Misses.reverse (misses : Misses text pattern) : Misses text.reverse pattern := by
  obtain ⟨ch, member, outside, solid⟩ := misses
  exact ⟨ch, member, fun here => outside (mem_reverse.mp here), solid⟩

theorem Misses.removeWhitespace (misses : Misses text pattern) :
    Misses (removeWhitespace text) (removeWhitespace pattern) := by
  obtain ⟨ch, member, outside, solid⟩ := misses
  refine ⟨ch, mem_filter.mpr ⟨member, ?_⟩, ?_, solid⟩
  · rw [solid]
    rfl
  · exact fun here => outside (mem_filter.mp here).1

end Patterns

/-! ## Lines that are not seen -/

section Hidden

variable (engine : Base64Engine → List Char → Option (List UInt8))
variable (count first : Nat)

def headSegment : List Char := "external-content-truncated-head".toList

def tailSegment : List Char := "external-content-truncated-tail".toList

theorem base64Runs_blankLines (rest : List Char) :
    base64Runs [] (blankLines count ++ rest) = base64Runs [] rest := by
  induction count with
  | zero => rfl
  | succ count ih => exact ih

theorem collapsedBase64Runs_blankLines (rest : List Char) :
    collapsedBase64Runs [] (blankLines count ++ rest) = collapsedBase64Runs [] rest := by
  induction count with
  | zero => rfl
  | succ count ih => exact ih

/-- Only the marks have base64 segments. -/
theorem extractB64Segments_emptyWindows (second third : Nat) :
    extractB64Segments (emptyWindows first second third) = [headSegment, tailSegment] := by
  have headRuns : ∀ rest, base64Runs [] (headMark ++ rest) = headSegment :: base64Runs [] rest :=
    fun _ => rfl
  have tailRuns : ∀ rest, base64Runs [] (tailMark ++ rest) = tailSegment :: base64Runs [] rest :=
    fun _ => rfl
  have headCollapsed : ∀ rest,
      collapsedBase64Runs [] (headMark ++ rest) = collapsedBase64Runs [] rest := fun _ => rfl
  have tailCollapsed : ∀ rest,
      collapsedBase64Runs [] (tailMark ++ rest) = collapsedBase64Runs [] rest := fun _ => rfl
  have runs := base64Runs_blankLines (third + 1) []
  have collapsed := collapsedBase64Runs_blankLines (third + 1) []
  rw [append_nil] at runs collapsed
  rw [extractB64Segments, emptyWindows, base64Runs_blankLines, headRuns, base64Runs_blankLines,
    tailRuns, runs, collapsedBase64Runs_blankLines, headCollapsed, collapsedBase64Runs_blankLines,
    tailCollapsed, collapsed]
  rfl

theorem normalizeDetection_emptyWindows (second third : Nat) :
    normalizeDetection (emptyWindows first second third) =
      normalizeDetection (emptyWindows 0 0 0) := by
  have absent : ∀ count, '%' ∉ blankLines count := by
    intro count member
    exact absurd (eq_of_mem_replicate member) (by decide)
  have both : ∀ {front back : List Char}, '%' ∉ front → '%' ∉ back → '%' ∉ front ++ back :=
    fun before behind member => (mem_append.mp member).elim before behind
  have headAbsent : '%' ∉ headMark := by decide
  have tailAbsent : '%' ∉ tailMark := by decide
  have outer := @normalizeDetection_blankLines []
    (headMark ++ (blankLines (second + 1) ++ (tailMark ++ blankLines (third + 1)))) first
    not_mem_nil (both headAbsent (both (absent _) (both tailAbsent (absent _))))
  have inner := @normalizeDetection_blankLines (blankLines (0 + 1) ++ headMark)
    (tailMark ++ blankLines (third + 1)) second (both (absent _) headAbsent)
    (both tailAbsent (absent _))
  have last := @normalizeDetection_blankLines
    (blankLines (0 + 1) ++ (headMark ++ (blankLines (0 + 1) ++ tailMark))) [] third
    (both (absent _) (both headAbsent (both (absent _) tailAbsent))) not_mem_nil
  rw [nil_append, nil_append] at outer
  rw [append_assoc, append_assoc] at inner
  simp only [append_assoc, append_nil] at last
  rw [emptyWindows, emptyWindows]
  exact outer.trans (inner.trans last)

theorem hasMarker_emptyWindows (second third : Nat) :
    hasMarker (emptyWindows first second third) = false := by
  have outside : ∀ ch, ch ≠ '\n' → ch ∉ headMark → ch ∉ tailMark →
      ch ∉ emptyWindows first second third := by
    intro ch other head tail
    have blank : ∀ count, ch ∉ blankLines count :=
      fun count member => other (eq_of_mem_replicate member)
    simp only [emptyWindows, mem_append, not_or]
    exact ⟨blank _, head, blank _, tail, blank _⟩
  have colon := outside ':' (by decide) (by decide) (by decide)
  have slash := outside '/' (by decide) (by decide) (by decide)
  rw [hasMarker, Bool.or_eq_false_iff]
  constructor
  · exact decide_eq_false fun within => colon (within.mem (by decide))
  · exact decide_eq_false fun within => slash (within.mem (by decide))

/-- Nothing is found in windows over empty lines, if the engines refuse the marks. -/
theorem decidingPass_emptyWindows (second third : Nat)
    (refuses : ∀ kind, engine kind headSegment = none ∧ engine kind tailSegment = none) :
    decidingPass engine (emptyWindows first second third) = none := by
  have text := normalizeDetection_emptyWindows first second third
  have inside : ∀ ch ∈ normalizeDetection (emptyWindows 0 0 0), ch ∈ markLetters ∧ ch ≠ 'f' := by
    decide +kernel
  have letters := fun ch member => (inside ch member).1
  have absent : 'f' ∉ normalizeDetection (emptyWindows 0 0 0) :=
    fun member => (inside 'f' member).2 rfl
  rw [decidingPass, find?_eq_none]
  intro pass _
  refine ne_true_of_eq_false ?_
  cases pass with
  | plain =>
    rw [DetectionPass.fires, DetectionPass.signals, text]
    exact quiet_signals letters absent fun _ => containsAny_misses
  | reversed =>
    rw [DetectionPass.fires, DetectionPass.signals, text]
    refine quiet_signals letters absent fun patterns misses => containsAny_misses ?_
    exact fun pattern member => (misses pattern member).reverse
  | spaceless =>
    rw [DetectionPass.fires, DetectionPass.signals, text]
    refine quiet_signals letters absent fun patterns misses => containsAny_misses ?_
    intro other member
    obtain ⟨pattern, inPatterns, rfl⟩ := mem_map.mp member
    exact (misses pattern inPatterns).removeWhitespace
  | base64 =>
    refine eq_false_of_ne_true fun fires => ?_
    obtain ⟨segment, member, hit⟩ := (fires_base64_iff engine).mp fires
    rw [extractB64Segments_emptyWindows] at member
    have same : removeWhitespace headSegment = headSegment ∧
        removeWhitespace tailSegment = tailSegment := by decide
    have undecoded : decodedSegment engine segment = none := by
      rw [mem_pair] at member
      rcases member with rfl | rfl
      · simp [decodedSegment, same.1, fun kind => (refuses kind).1]
      · simp [decodedSegment, same.2, fun kind => (refuses kind).2]
    rw [segmentHit, undecoded] at hit
    cases hit

/-- Every line is allowed between enough empty lines. -/
theorem allowed_between_blankLines {line : List Char} {behind : Nat}
    (refuses : ∀ kind, engine kind headSegment = none ∧ engine kind tailSegment = none)
    (enough : 4 * detectionWindow + byteLength line + 100 ≤ behind) :
    decideAction (detectInjection engine
      (blankLines detectionWindow ++ '\n' :: (line ++ '\n' :: blankLines behind))) = .allow := by
  rw [decideAction_detectInjection, sampledText_blankLines enough, emptyWindows_eq]
  exact ⟨decidingPass_emptyWindows engine _ _ _ refuses, hasMarker_emptyWindows _ _ _⟩

variable {text : List Char}

theorem decideAction_backwards (small : byteLength text ≤ maxDetectionInputBytes)
    (silent : DetectionPass.plain.fires engine text = false)
    (found : occurs "exfiltrate".toList (normalizeDetection text).reverse = true) :
    decideAction (detectInjection engine text) = .block := by
  have high : (DetectionPass.reversed.signals engine text).hasHighConfidenceSecretExfiltration =
      true := add_high exfiltrate_mem found
  exact decideAction_high engine small
    (decidingPass_reversed engine silent (InjectionSignals.hasAnyInjection_high high)) high

/-- A weak signal in a text of the letters of the marks is sanitized. -/
theorem decideAction_weak (small : byteLength text ≤ maxDetectionInputBytes)
    (inside : ∀ ch ∈ normalizeDetection text, ch ∈ markLetters)
    (weak : containsAny (normalizeDetection text) secretExfiltration = true)
    (notHigh : occurs "exfiltrate".toList (normalizeDetection text) = false) :
    decideAction (detectInjection engine text) = .sanitize := by
  have signals : DetectionPass.plain.signals engine text = { hasSecretExfiltration := true } := by
    rw [DetectionPass.signals, plain_signals inside, weak, notHigh]
  have fires : DetectionPass.plain.fires engine text = true := by
    rw [DetectionPass.fires, signals]
    rfl
  rw [detectInjection_eq, sampledText_small small, decidingPass_plain engine fires, Option.elim_some, signals]
  cases hasMarker text with
  | true => rfl
  | false => rfl

end Hidden

/-- A blocked line is allowed between enough empty lines, and one that is blocked when it is
read backwards is only sanitized behind a weak signal. The engines refuse all segments of
these texts. -/
theorem padding_hides :
    (decideAction (detectInjection (fun _ _ => none) "exfiltrate".toList) = .block ∧
        decideAction (detectInjection (fun _ _ => none) (blankLines detectionWindow ++
          '\n' :: ("exfiltrate".toList ++ '\n' :: blankLines 400000))) = .allow) ∧
      (decideAction (detectInjection (fun _ _ => none) "etartlifxe".toList) = .block ∧
        decideAction (detectInjection (fun _ _ => none) ("hidden config".toList ++
          '\n' :: ("etartlifxe".toList ++ '\n' :: "end".toList))) = .sanitize) := by
  have forwards : normalizeDetection "exfiltrate".toList = "exfiltrate".toList := by decide
  have backwards : normalizeDetection "etartlifxe".toList = "etartlifxe".toList := by decide
  have behindWeak : normalizeDetection ("hidden config".toList ++
      '\n' :: ("etartlifxe".toList ++ '\n' :: "end".toList)) =
        "hidden config etartlifxe end".toList := by decide
  have weak : containsAny "hidden config etartlifxe end".toList secretExfiltration = true :=
    any_eq_true.mpr ⟨"hidden config".toList, mem_map_of_mem (by simp), by decide⟩
  have quiet : containsAny "etartlifxe".toList secretExfiltration = false := by
    have known : ∀ pattern ∈ ofMarkLetters, ¬ pattern <:+: "etartlifxe".toList := by decide
    refine any_eq_false.mpr fun pattern member found => ?_
    rcases secretExfiltration_outsider pattern member with other | few
    · exact (Misses.of_outsider (by decide) other).absent (of_decide_eq_true found)
    · exact known pattern few (of_decide_eq_true found)
  refine ⟨⟨?_, ?_⟩, ?_, ?_⟩
  · exact decideAction_plain _ (by decide) exfiltrate_mem (by rw [forwards]; decide)
  · exact allowed_between_blankLines _ (fun _ => ⟨rfl, rfl⟩) (by decide)
  · refine decideAction_backwards _ (by decide) ?_ (by rw [backwards]; decide)
    have notHigh : occurs "exfiltrate".toList "etartlifxe".toList = false := by decide
    rw [DetectionPass.fires, DetectionPass.signals, backwards, plain_signals (by decide), quiet,
      notHigh]
    decide
  · refine decideAction_weak _ (by decide) ?_ ?_ ?_
    · rw [behindWeak]
      decide
    · rw [behindWeak, weak]
    · rw [behindWeak]
      decide

end Asterel.ExternalContent
