import Asterel.Security.InjectionPasses
import Asterel.Security.NormalizeLines

/-!
# Injections between padding

A line that is refused by itself is refused between other lines too, if the windows of
a large text show it. A pass that runs early may decide more mildly than the one that
decides the line, as no later pass runs then. Behind enough padding no window shows
the line, and the text is allowed.
-/

namespace Asterel.ExternalContent

open Library List
open Library.Text (isWhitespace occurs)
open Chunker (byteLength)
open CharBoundary (floorCharBoundary)

/-! ## Segments of lines -/

section Segments

variable {run front line back text : List Char}

theorem base64Runs_newline (run front back : List Char) :
    base64Runs run (front ++ '\n' :: back) = base64Runs run front ++ base64Runs [] back := by
  induction front generalizing run with
  | nil => rfl
  | cons ch front ih =>
    rw [cons_append, base64Runs, base64Runs]
    split
    · exact ih _
    · rw [ih, append_assoc]

/-- The run that is open behind a text. -/
def openRun (run : List Char) : List Char → List Char
  | [] => run
  | ch :: rest =>
    if isBase64Char ch then openRun (run ++ [ch]) rest
    else if isAsciiWhitespace ch ∧ run ≠ [] then openRun (run ++ [ch]) rest
    else openRun [] rest

theorem openRun_append (run front back : List Char) :
    openRun run (front ++ back) = openRun (openRun run front) back := by
  induction front generalizing run with
  | nil => rfl
  | cons ch front ih =>
    rw [cons_append, openRun, openRun]
    split_ifs <;> exact ih _

/-- The runs of a text and those behind it depend on each other by the open run only. -/
theorem collapsedBase64Runs_append (run front : List Char) : ∃ before, ∀ rest,
    collapsedBase64Runs run (front ++ rest) =
      before ++ collapsedBase64Runs (openRun run front) rest := by
  induction front generalizing run with
  | nil => exact ⟨[], fun _ => rfl⟩
  | cons ch front ih =>
    rw [openRun]
    split_ifs with inside gap
    · obtain ⟨before, same⟩ := ih (run ++ [ch])
      refine ⟨before, fun rest => ?_⟩
      rw [cons_append, collapsedBase64Runs, if_pos inside, same]
    · obtain ⟨before, same⟩ := ih (run ++ [ch])
      refine ⟨before, fun rest => ?_⟩
      rw [cons_append, collapsedBase64Runs, if_neg inside, if_pos gap, same]
    · obtain ⟨before, same⟩ := ih []
      refine ⟨finishedCollapsed run ++ before, fun rest => ?_⟩
      rw [cons_append, collapsedBase64Runs, if_neg inside, if_neg gap, same, append_assoc]

/-- Apart from white space the text does not begin with a base64 character. -/
def Edgeless (text : List Char) : Prop :=
  ∀ ch ∈ (text.dropWhile isAsciiWhitespace).head?, isBase64Char ch = false

theorem not_isBase64Char {ch : Char} (white : isAsciiWhitespace ch = true) :
    isBase64Char ch = false ∧ isWhitespace ch = true := by
  rw [isAsciiWhitespace] at white
  simp only [Bool.or_eq_true, beq_iff_eq] at white
  rcases white with (((rfl | rfl) | rfl) | rfl) | rfl
  all_goals decide

theorem Edgeless.openRun_eq (edgeless : Edgeless front.reverse) : openRun [] front = [] := by
  induction front using reverseRecOn with
  | nil => rfl
  | append_singleton front ch ih =>
    rw [reverse_append, reverse_singleton, singleton_append, Edgeless, dropWhile_cons] at edgeless
    rw [openRun_append, openRun, openRun]
    cases white : isAsciiWhitespace ch with
    | true =>
      rw [if_pos white] at edgeless
      rw [ih edgeless, (not_isBase64Char white).1]
      rfl
    | false =>
      rw [if_neg (by rw [white]; decide)] at edgeless
      rw [edgeless ch rfl]
      rfl

/-- A run ends in white space if no base64 character follows. -/
theorem Edgeless.collapsed (edgeless : Edgeless back) (some : run ≠ []) :
    ∃ gap rest, (∀ ch ∈ gap, isAsciiWhitespace ch = true) ∧
      collapsedBase64Runs run back = finishedCollapsed (run ++ gap) ++ rest := by
  induction back generalizing run with
  | nil => exact ⟨[], [], nofun, by rw [append_nil, append_nil]; rfl⟩
  | cons ch back ih =>
    rw [Edgeless, dropWhile_cons] at edgeless
    cases white : isAsciiWhitespace ch with
    | true =>
      rw [if_pos white] at edgeless
      obtain ⟨gap, rest, only, same⟩ := ih edgeless (concat_ne_nil ch run)
      refine ⟨ch :: gap, rest, forall_mem_cons.mpr ⟨white, only⟩, ?_⟩
      rw [collapsedBase64Runs, if_neg (by rw [(not_isBase64Char white).1]; decide),
        if_pos ⟨white, some⟩, same, append_assoc]
      rfl
    | false =>
      rw [if_neg (by rw [white]; decide)] at edgeless
      refine ⟨[], collapsedBase64Runs [] back, nofun, ?_⟩
      rw [collapsedBase64Runs, if_neg (by rw [edgeless ch rfl]; decide),
        if_neg fun both => by rw [white] at both; exact absurd both.1 (by decide), append_nil]

theorem removeWhitespace_gap {gap : List Char} (only : ∀ ch ∈ gap, isAsciiWhitespace ch = true) :
    removeWhitespace (run ++ gap) = removeWhitespace run := by
  have none : removeWhitespace gap = [] := by
    refine filter_eq_nil_iff.mpr ?_
    intro ch member
    rw [(not_isBase64Char (only ch member)).2]
    decide
  rw [removeWhitespace, filter_append]
  rw [removeWhitespace] at none
  rw [none, append_nil]
  rfl

theorem finishedCollapsed_append (gap : List Char) {segment : List Char}
    (member : segment ∈ finishedCollapsed run) : segment = run ∧ run ++ gap ∈ finishedCollapsed (run ++ gap) := by
  rw [finishedCollapsed] at member
  split at member
  · rename_i enough
    refine ⟨mem_singleton.mp member, ?_⟩
    rw [finishedCollapsed, if_pos]
    · exact mem_singleton_self _
    · rw [countP_append, countP_append]
      omega
  · cases member

/-- Apart from other base64 characters a line has its wrapped segments between others too. -/
theorem collapsedBase64Runs_between (before : Edgeless front.reverse) (behind : Edgeless back)
    {segment : List Char} (member : segment ∈ collapsedBase64Runs [] line) :
    ∃ other ∈ collapsedBase64Runs [] (front ++ '\n' :: (line ++ '\n' :: back)),
      removeWhitespace other = removeWhitespace segment := by
  obtain ⟨left, leftEq⟩ := collapsedBase64Runs_append [] front
  obtain ⟨mid, midEq⟩ := collapsedBase64Runs_append [] line
  have newline : collapsedBase64Runs [] ('\n' :: (line ++ '\n' :: back)) =
      collapsedBase64Runs [] (line ++ '\n' :: back) := rfl
  rw [leftEq, before.openRun_eq, newline, midEq]
  have alone := midEq []
  rw [append_nil, collapsedBase64Runs] at alone
  rw [alone] at member
  rcases mem_append.mp member with early | last
  · exact ⟨segment, mem_append_right _ (mem_append_left _ early), rfl⟩
  · have some : openRun [] line ≠ [] := by
      intro none
      rw [none] at last
      cases last
    have edgeless : Edgeless ('\n' :: back) := behind
    obtain ⟨gap, rest, only, same⟩ := edgeless.collapsed some
    obtain ⟨rfl, longer⟩ := finishedCollapsed_append gap last
    refine ⟨openRun [] line ++ gap, ?_, removeWhitespace_gap only⟩
    rw [same]
    exact mem_append_right _ (mem_append_right _ (mem_append_left _ longer))

end Segments

/-! ## Lines that are seen -/

section Seen

variable (engine : Base64Engine → List Char → Option (List UInt8))
variable {front line back : List Char}

/-- An unbroken run of base64 characters of the text has an injection. -/
def RunHits (text : List Char) : Prop :=
  ∃ run ∈ base64Runs [] text, (segmentHit engine run).isSome

theorem line_within (front line back : List Char) :
    line <:+: front ++ '\n' :: (line ++ '\n' :: back) :=
  ⟨front ++ ['\n'], '\n' :: back, by simp⟩

theorem base64Runs_between (front line back : List Char) :
    base64Runs [] (front ++ '\n' :: (line ++ '\n' :: back)) =
      base64Runs [] front ++ (base64Runs [] line ++ base64Runs [] back) := by
  rw [base64Runs_newline, base64Runs_newline]

/-- A pass over the normalized text that fires on a line fires on the lines. -/
theorem fires_between {pass : DetectionPass} (sheltered : Sheltered front line back)
    (normalized : pass ≠ .base64) (fires : pass.fires engine line = true) :
    pass.fires engine (front ++ '\n' :: (line ++ '\n' :: back)) = true :=
  (DetectionPass.signals_covered engine normalized
    (normalizeDetection_between sheltered)).hasAnyInjection fires

theorem fires_base64_between (shown : RunHits engine line ∨ Edgeless front.reverse ∧ Edgeless back)
    (fires : DetectionPass.base64.fires engine line = true) :
    DetectionPass.base64.fires engine (front ++ '\n' :: (line ++ '\n' :: back)) = true := by
  rw [fires_base64_iff] at fires ⊢
  have inRuns : ∀ run ∈ base64Runs [] line, run ∈
      extractB64Segments (front ++ '\n' :: (line ++ '\n' :: back)) := by
    intro run member
    rw [extractB64Segments, base64Runs_between]
    exact mem_append_left _ (mem_append_right _ (mem_append_left _ member))
  rcases shown with ⟨run, member, hit⟩ | ⟨before, behind⟩
  · exact ⟨run, inRuns run member, hit⟩
  · obtain ⟨segment, member, hit⟩ := fires
    rcases mem_append.mp member with run | collapsed
    · exact ⟨segment, inRuns segment run, hit⟩
    · obtain ⟨other, otherMember, same⟩ := collapsedBase64Runs_between before behind collapsed
      refine ⟨other, mem_append_right _ otherMember, ?_⟩
      rwa [segmentHit, decodedSegment, same]

/-- What some pass finds in a line some pass finds in the lines. -/
theorem decidingPass_between (sheltered : Sheltered front line back)
    (shown : decidingPass engine line = some .base64 →
      RunHits engine line ∨ Edgeless front.reverse ∧ Edgeless back)
    (refused : decidingPass engine line ≠ none) :
    decidingPass engine (front ++ '\n' :: (line ++ '\n' :: back)) ≠ none := by
  obtain ⟨pass, found⟩ := Option.ne_none_iff_exists'.mp refused
  have fires := decidingPass_fires engine found
  have later : pass.fires engine (front ++ '\n' :: (line ++ '\n' :: back)) = true := by
    by_cases normalized : pass = .base64
    · subst normalized
      exact fires_base64_between engine (shown found) fires
    · exact fires_between engine sheltered normalized fires
  intro none
  rw [decidingPass, find?_eq_none] at none
  refine none pass ?_ later
  cases pass <;> decide

/-- The first run with an injection is that of the line if none before it has one. -/
theorem base64_signals_between (quiet : ¬ RunHits engine front) (shown : RunHits engine line) :
    DetectionPass.base64.signals engine (front ++ '\n' :: (line ++ '\n' :: back)) =
      DetectionPass.base64.signals engine line := by
  have first : (base64Runs [] front).findSome? (segmentHit engine) = none := by
    refine findSome?_eq_none_iff.mpr ?_
    intro run member
    exact Option.not_isSome_iff_eq_none.mp fun hit => quiet ⟨run, member, hit⟩
  obtain ⟨signals, hit⟩ : ∃ signals, (base64Runs [] line).findSome? (segmentHit engine) =
      some signals := by
    obtain ⟨run, member, hit⟩ := shown
    rw [← Option.isSome_iff_exists, findSome?_isSome_iff]
    exact ⟨run, member, hit⟩
  have unfold : ∀ text, DetectionPass.base64.signals engine text =
      ((extractB64Segments text).findSome? (segmentHit engine)).getD {} :=
    fun text => checkSegments_eq engine _
  rw [unfold, unfold, extractB64Segments, extractB64Segments, base64Runs_between,
    findSome?_append, findSome?_append, findSome?_append, findSome?_append,
    first, hit]
  rfl

/-- Padding never hides an injection that a window shows: the text is not allowed, and it
is decided at least as severely by the pass that decides the line. -/
theorem padding_keeps_action {front' back' : List Char}
    (sha256 : List UInt8 → List UInt8) (source : List Char)
    (small : byteLength line ≤ maxDetectionInputBytes)
    (seen : sampledText (front ++ '\n' :: (line ++ '\n' :: back)) =
      front' ++ '\n' :: (line ++ '\n' :: back'))
    (sheltered : Sheltered front' line back') :
    ((prepareContent engine sha256 source line).action ≠ .allow →
        (decidingPass engine line = some .base64 →
          RunHits engine line ∨ Edgeless front'.reverse ∧ Edgeless back') →
        (prepareContent engine sha256 source
          (front ++ '\n' :: (line ++ '\n' :: back))).action ≠ .allow) ∧
      ((∀ pass, decidingPass engine line = some pass →
          decidingPass engine (front' ++ '\n' :: (line ++ '\n' :: back')) = some pass) →
        (decidingPass engine line = some .base64 → RunHits engine line ∧ ¬ RunHits engine front') →
        (decideAction (detectInjection engine line)).severity ≤
          (decideAction (detectInjection engine
            (front ++ '\n' :: (line ++ '\n' :: back)))).severity) := by
  have alone := sampledText_small small
  have markers := @hasMarker_mono _ _ (line_within front' line back')
  constructor
  · intro refused shown allowed
    rw [prepareContent_action] at refused allowed
    have whole := (decideAction_detectInjection engine _).mp allowed
    rw [seen] at whole
    refine refused ((decideAction_detectInjection engine _).mpr ?_)
    rw [alone]
    constructor
    · by_contra found
      exact decidingPass_between engine sheltered shown found whole.1
    · exact eq_false_of_ne_true fun marker => by cases (markers marker).symm.trans whole.2
  · intro same base64
    refine decideAction_covered ?_
    rw [detectInjection_eq, detectInjection_eq, seen, alone]
    refine InjectionSignals.Covered.mark ?_ markers
    cases found : decidingPass engine line with
    | none => exact ⟨nofun, nofun, nofun, nofun, nofun, nofun⟩
    | some pass =>
      rw [same pass found]
      by_cases normalized : pass = .base64
      · subst normalized
        obtain ⟨shown, quiet⟩ := base64 found
        simp only [Option.elim_some]
        rw [base64_signals_between engine quiet shown]
        exact .refl _
      · exact DetectionPass.signals_covered engine normalized (normalizeDetection_between sheltered)

theorem padding_keeps_action_exfiltrate :
    (prepareContent (fun _ _ => none) id "web".toList ("hello".toList ++
      '\n' :: ("exfiltrate".toList ++ '\n' :: "bye".toList))).action ≠ .allow := by
  have normalized : normalizeDetection "exfiltrate".toList = "exfiltrate".toList := by decide
  have found : occurs "exfiltrate".toList (normalizeDetection "exfiltrate".toList) = true := by
    rw [normalized]
    decide
  have refused : decideAction (detectInjection (fun _ _ => none) "exfiltrate".toList) = .block :=
    decideAction_plain _ (by decide) exfiltrate_mem found
  have seen := @sampledText_small ("hello".toList ++
    '\n' :: ("exfiltrate".toList ++ '\n' :: "bye".toList)) (by decide)
  have sheltered : Sheltered "hello".toList "exfiltrate".toList "bye".toList :=
    fun percent => absurd percent (by decide)
  refine (padding_keeps_action _ id "web".toList (by decide) seen sheltered).1 ?_ ?_
  · rw [prepareContent_action, refused]
    decide
  · rw [decidingPass_high _ exfiltrate_mem found]
    exact nofun

end Seen

/-! ## Lines that a window shows -/

section Windows

variable {front line back rest : List Char}

theorem floorCharBoundary_behind {index : Nat} (behind : byteLength front ≤ index) :
    front.length ≤ floorCharBoundary (front ++ rest) index := by
  induction front generalizing index with
  | nil => exact Nat.zero_le _
  | cons ch front ih =>
    rw [byteLength] at behind
    rw [cons_append, floorCharBoundary, if_pos (by omega)]
    exact Nat.succ_le_succ (ih (by omega))

theorem ceilCharBoundary_before {index : Nat} (before : index ≤ byteLength front) :
    ceilCharBoundary (front ++ rest) index ≤ front.length := by
  induction front generalizing index with
  | nil =>
    obtain rfl : index = 0 := Nat.le_zero.mp before
    cases rest with
    | nil => exact Nat.le_refl _
    | cons ch rest => exact Nat.zero_le _
  | cons ch front ih =>
    rw [byteLength] at before
    rw [cons_append, ceilCharBoundary]
    split
    · exact Nat.zero_le _
    · exact Nat.succ_le_succ (ih (by omega))

/-- The first window shows the line. -/
theorem sampledText_head
    (early : byteLength (front ++ '\n' :: (line ++ ['\n'])) ≤ detectionWindow) :
    ∃ back', sampledText (front ++ '\n' :: (line ++ '\n' :: back)) =
      front ++ '\n' :: (line ++ '\n' :: back') := by
  have split : front ++ '\n' :: (line ++ '\n' :: back) =
      front ++ '\n' :: (line ++ ['\n']) ++ back := by simp
  rw [sampledText]
  by_cases large : byteLength (front ++ '\n' :: (line ++ '\n' :: back)) > maxDetectionInputBytes
  · have window : detectionWindow ≤ maxDetectionInputBytes := by decide
    rw [if_pos large, boundedDetectionText, Nat.min_eq_left (by omega), split]
    have reaches := @floorCharBoundary_behind _ back _ early
    obtain ⟨more, same⟩ := Nat.exists_eq_add_of_le reaches
    rw [same, take_length_add_append]
    exact ⟨_, by simp only [append_assoc, cons_append, nil_append]; rfl⟩
  · rw [if_neg large]
    exact ⟨back, rfl⟩

/-- The last window shows the line. -/
theorem sampledText_tail (late : byteLength ('\n' :: (line ++ '\n' :: back)) ≤ detectionWindow) :
    ∃ front', sampledText (front ++ '\n' :: (line ++ '\n' :: back)) =
      front' ++ '\n' :: (line ++ '\n' :: back) := by
  rw [sampledText]
  split
  · have before : byteLength (front ++ '\n' :: (line ++ '\n' :: back)) - detectionWindow ≤
        byteLength front := by
      rw [CharBoundary.byteLength_append]
      omega
    have starts := @ceilCharBoundary_before _ ('\n' :: (line ++ '\n' :: back)) _ before
    rw [boundedDetectionText, drop_append_of_le_length starts]
    exact ⟨_, (append_assoc _ _ _).symm⟩
  · exact ⟨front, rfl⟩

end Windows

end Asterel.ExternalContent
