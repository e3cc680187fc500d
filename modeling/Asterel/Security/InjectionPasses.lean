import Asterel.Security.InjectionDetect

/-!
# The passes of the injection detection

The detection is the first of four passes that finds anything, apart from the markers,
which are always searched. What a pass finds in a text it finds in every text that
this one is part of.
-/

namespace Asterel.ExternalContent

open Library List
open Library.Text (occurs)
open Chunker (byteLength)

/-! ## Signals -/

namespace InjectionSignals

/-- Every flag of the first signals is set in the second ones. -/
structure Covered (signals others : InjectionSignals) : Prop where
  markerCollision : signals.hasMarkerCollision → others.hasMarkerCollision
  instructionOverride : signals.hasInstructionOverride → others.hasInstructionOverride
  privilegeEscalation : signals.hasPrivilegeEscalation → others.hasPrivilegeEscalation
  secretExfiltration : signals.hasSecretExfiltration → others.hasSecretExfiltration
  highConfidenceSecretExfiltration :
    signals.hasHighConfidenceSecretExfiltration → others.hasHighConfidenceSecretExfiltration
  toolJailbreak : signals.hasToolJailbreak → others.hasToolJailbreak

variable {signals others : InjectionSignals}

theorem hasAnyInjection_high (high : signals.hasHighConfidenceSecretExfiltration = true) :
    signals.hasAnyInjection = true := by
  rw [InjectionSignals.hasAnyInjection, high, Bool.or_true, Bool.true_or]

theorem Covered.refl (signals : InjectionSignals) : signals.Covered signals :=
  ⟨id, id, id, id, id, id⟩

/-- The same signals with another result of the marker search. -/
def mark (signals : InjectionSignals) (collision : Bool) : InjectionSignals :=
  { signals with hasMarkerCollision := collision }

theorem mark_hasAnyInjection (collision : Bool) :
    (signals.mark collision).hasAnyInjection = signals.hasAnyInjection := rfl

theorem Covered.mark (covered : signals.Covered others) {first second : Bool}
    (markers : first → second) : (signals.mark first).Covered (others.mark second) :=
  { covered with markerCollision := markers }

theorem Covered.hasAnyInjection (covered : signals.Covered others)
    (any : signals.hasAnyInjection = true) : others.hasAnyInjection = true := by
  rw [InjectionSignals.hasAnyInjection] at any ⊢
  simp only [Bool.or_eq_true] at any ⊢
  rcases any with (((override | privilege) | secret) | high) | tool
  · exact .inl (.inl (.inl (.inl (covered.instructionOverride override))))
  · exact .inl (.inl (.inl (.inr (covered.privilegeEscalation privilege))))
  · exact .inl (.inl (.inr (covered.secretExfiltration secret)))
  · exact .inl (.inr (covered.highConfidenceSecretExfiltration high))
  · exact .inr (covered.toolJailbreak tool)

theorem add_mark (collision : Bool) (found : List (List Char) → Bool) :
    (signals.mark collision).add found = (signals.add found).mark collision := rfl

theorem add_eq (found : List (List Char) → Bool) (collision : Bool) :
    (({} : InjectionSignals).add found).mark collision =
      { hasMarkerCollision := collision
        hasInstructionOverride := found instructionOverride
        hasPrivilegeEscalation := found privilegeEscalation
        hasSecretExfiltration := found secretExfiltration
        hasHighConfidenceSecretExfiltration := found highConfidenceSecretExfiltration
        hasToolJailbreak := found toolJailbreak } := rfl

/-- Signals without any injection are those of the markers. -/
theorem eq_mark (none : signals.hasAnyInjection = false) :
    signals = ({} : InjectionSignals).mark signals.hasMarkerCollision := by
  rw [InjectionSignals.hasAnyInjection] at none
  simp only [Bool.or_eq_false_iff] at none
  obtain ⟨⟨⟨⟨override, privilege⟩, secret⟩, high⟩, tool⟩ := none
  cases signals
  simp only at override privilege secret high tool
  rw [override, privilege, secret, high, tool]
  rfl

/-- More found patterns set more flags. -/
theorem add_covered {found more : List (List Char) → Bool}
    (implies : ∀ patterns, found patterns → more patterns) :
    (({} : InjectionSignals).add found).Covered (({} : InjectionSignals).add more) := by
  refine ⟨id, ?_, ?_, ?_, ?_, ?_⟩
  all_goals exact implies _

end InjectionSignals

section Actions

variable {signals others : InjectionSignals}

theorem decideAction_eq_allow_iff : decideAction signals = .allow ↔
    signals.hasAnyInjection = false ∧ signals.hasMarkerCollision = false := by
  rw [decideAction, InjectionSignals.hasAnyInjection]
  grind

/-- More signals are decided at least as severely. -/
theorem decideAction_covered (covered : signals.Covered others) :
    (decideAction signals).severity ≤ (decideAction others).severity := by
  obtain ⟨markers, override, privilege, secret, high, tool⟩ := covered
  rw [decideAction, decideAction]
  split
  · rename_i block
    rw [if_pos]
    grind
  · split
    · split
      · decide
      · rename_i sanitize _
        rw [if_pos]
        grind
    · exact Nat.zero_le _

end Actions

/-! ## Passes -/

inductive DetectionPass where
  | plain
  | reversed
  | spaceless
  | base64
deriving DecidableEq

section Passes

variable (engine : Base64Engine → List Char → Option (List UInt8))

/-- What a pass alone finds in a text. -/
def DetectionPass.signals (pass : DetectionPass) (text : List Char) : InjectionSignals :=
  match pass with
  | .plain => ({} : InjectionSignals).add (containsAny (normalizeDetection text))
  | .reversed => checkReversed (normalizeDetection text) {}
  | .spaceless => checkSpaceless (normalizeDetection text) {}
  | .base64 => checkBase64 engine text {}

/-- Whether a pass finds any injection. -/
def DetectionPass.fires (pass : DetectionPass) (text : List Char) : Bool :=
  (pass.signals engine text).hasAnyInjection

/-- The first pass that finds any injection. -/
def decidingPass (text : List Char) : Option DetectionPass :=
  [DetectionPass.plain, .reversed, .spaceless, .base64].find? fun pass => pass.fires engine text

theorem decidingPass_fires {pass : DetectionPass} {text : List Char}
    (found : decidingPass engine text = some pass) : pass.fires engine text = true := by
  rw [decidingPass] at found
  have holds := find?_some found
  exact holds

theorem decidingPass_plain {text : List Char}
    (fires : DetectionPass.plain.fires engine text = true) :
    decidingPass engine text = some .plain := by
  rw [decidingPass, find?_cons, fires]

theorem decidingPass_reversed {text : List Char}
    (silent : DetectionPass.plain.fires engine text = false)
    (fires : DetectionPass.reversed.fires engine text = true) :
    decidingPass engine text = some .reversed := by
  rw [decidingPass, find?_cons, silent, find?_cons, fires]

def hasMarker (text : List Char) : Bool := occurs openMarkerPrefix text || occurs closeMarker text

theorem checkSegments_mark (collision : Bool) (segments : List (List Char))
    (signals : InjectionSignals) :
    checkSegments engine segments (signals.mark collision) =
      (checkSegments engine segments signals).mark collision := by
  induction segments generalizing signals with
  | nil => rfl
  | cons segment segments ih =>
    rw [checkSegments, checkSegments]
    cases decodedSegment engine segment with
    | none => exact ih signals
    | some decoded =>
      simp only
      rw [InjectionSignals.add_mark, InjectionSignals.mark_hasAnyInjection]
      split
      · rfl
      · exact ih _

/-- A pass that does not fire leaves the signals as they are. -/
theorem DetectionPass.signals_quiet {pass : DetectionPass} {text : List Char}
    (quiet : pass.fires engine text = false) : pass.signals engine text = {} := by
  have same := InjectionSignals.eq_mark quiet
  have unmarked : (pass.signals engine text).hasMarkerCollision = false := by
    cases pass with
    | plain => rfl
    | reversed => rfl
    | spaceless => rfl
    | base64 =>
      exact congrArg InjectionSignals.hasMarkerCollision
        (checkSegments_mark engine false (extractB64Segments text) {})
  rw [unmarked] at same
  exact same

/-- The signals of a text are those of the first pass that fires, and the markers. -/
theorem detectInjection_eq (text : List Char) : detectInjection engine text =
    ((decidingPass engine (sampledText text)).elim {}
      (·.signals engine (sampledText text))).mark (hasMarker (sampledText text)) := by
  generalize sample : sampledText text = sampled
  generalize markers : hasMarker sampled = collision
  have unfold : detectInjection engine text =
      (let signals := (DetectionPass.plain.signals engine sampled).mark collision
       let signals := if !signals.hasAnyInjection then
         checkReversed (normalizeDetection sampled) signals else signals
       let signals := if !signals.hasAnyInjection then
         checkSpaceless (normalizeDetection sampled) signals else signals
       if !signals.hasAnyInjection then checkBase64 engine sampled signals else signals) := by
    rw [← markers, ← sample, detectInjection, DetectionPass.signals, InjectionSignals.add_eq]
    rfl
  have any : ∀ pass : DetectionPass,
      ((pass.signals engine sampled).mark collision).hasAnyInjection = pass.fires engine sampled :=
    fun _ => rfl
  have reversed : checkReversed (normalizeDetection sampled) (({} : InjectionSignals).mark collision)
      = (DetectionPass.reversed.signals engine sampled).mark collision :=
    InjectionSignals.add_mark collision _
  have spaceless : checkSpaceless (normalizeDetection sampled)
      (({} : InjectionSignals).mark collision) =
        (DetectionPass.spaceless.signals engine sampled).mark collision :=
    InjectionSignals.add_mark collision _
  have base64 : checkBase64 engine sampled (({} : InjectionSignals).mark collision) =
      (DetectionPass.base64.signals engine sampled).mark collision :=
    checkSegments_mark engine collision _ {}
  rw [unfold, decidingPass]
  simp only [find?, any]
  cases first : DetectionPass.plain.fires engine sampled with
  | true => simp [any, first]
  | false =>
    rw [DetectionPass.signals_quiet engine first]
    simp only [Bool.not_false, if_true, reversed, any]
    cases second : DetectionPass.reversed.fires engine sampled with
    | true => simp [any, second]
    | false =>
      rw [DetectionPass.signals_quiet engine second]
      simp only [Bool.not_false, if_true, spaceless, any]
      cases third : DetectionPass.spaceless.fires engine sampled with
      | true => rfl
      | false =>
        rw [DetectionPass.signals_quiet engine third]
        simp only [Bool.not_false, if_true, base64]
        cases fourth : DetectionPass.base64.fires engine sampled with
        | true => rfl
        | false =>
          rw [DetectionPass.signals_quiet engine fourth]
          rfl

/-- What is allowed has no injection in any pass, and no marker. -/
theorem decideAction_detectInjection (text : List Char) :
    decideAction (detectInjection engine text) = .allow ↔
      decidingPass engine (sampledText text) = none ∧ hasMarker (sampledText text) = false := by
  rw [decideAction_eq_allow_iff, detectInjection_eq, InjectionSignals.mark_hasAnyInjection]
  refine and_congr_left fun _ => ?_
  cases found : decidingPass engine (sampledText text) with
  | none => exact iff_of_true rfl rfl
  | some pass =>
    refine iff_of_false ?_ nofun
    intro quiet
    cases (decidingPass_fires engine found).symm.trans quiet

theorem prepareContent_action (sha256 : List UInt8 → List UInt8) (source text : List Char) :
    (prepareContent engine sha256 source text).action =
      decideAction (detectInjection engine text) := by
  rw [prepareContent]

theorem sampledText_small {text : List Char} (small : byteLength text ≤ maxDetectionInputBytes) :
    sampledText text = text := if_neg (Nat.not_lt.mpr small)

variable {text pattern : List Char}

theorem add_high (known : pattern ∈ highConfidenceSecretExfiltration)
    (found : occurs pattern text = true) :
    (({} : InjectionSignals).add (containsAny text)).hasHighConfidenceSecretExfiltration = true :=
  any_eq_true.mpr ⟨pattern, known, found⟩

/-- What the deciding pass finds to be a high-confidence exfiltration is blocked. -/
theorem decideAction_high (small : byteLength text ≤ maxDetectionInputBytes) {pass : DetectionPass}
    (deciding : decidingPass engine text = some pass)
    (high : (pass.signals engine text).hasHighConfidenceSecretExfiltration = true) :
    decideAction (detectInjection engine text) = .block := by
  rw [detectInjection_eq, sampledText_small small, deciding, decideAction, if_pos]
  rw [Option.elim_some, InjectionSignals.mark, high]
  rfl

theorem decidingPass_high (known : pattern ∈ highConfidenceSecretExfiltration)
    (found : occurs pattern (normalizeDetection text) = true) :
    decidingPass engine text = some .plain :=
  decidingPass_plain engine (InjectionSignals.hasAnyInjection_high (add_high known found))

theorem decideAction_plain (small : byteLength text ≤ maxDetectionInputBytes)
    (known : pattern ∈ highConfidenceSecretExfiltration)
    (found : occurs pattern (normalizeDetection text) = true) :
    decideAction (detectInjection engine text) = .block :=
  decideAction_high engine small (decidingPass_high engine known found) (add_high known found)

theorem exfiltrate_mem : "exfiltrate".toList ∈ highConfidenceSecretExfiltration :=
  mem_map_of_mem (by simp)

end Passes

section Parts

variable (engine : Base64Engine → List Char → Option (List UInt8))
variable {part whole text : List Char}

theorem containsAny_mono (within : part <:+: whole) (patterns : List (List Char))
    (found : containsAny part patterns = true) : containsAny whole patterns = true := by
  obtain ⟨pattern, member, here⟩ := any_eq_true.mp found
  refine any_eq_true.mpr ⟨pattern, member, decide_eq_true ?_⟩
  exact (of_decide_eq_true here).trans within

theorem hasMarker_mono (within : part <:+: whole) (found : hasMarker part = true) :
    hasMarker whole = true := by
  have longer : ∀ pattern, occurs pattern part = true → occurs pattern whole = true :=
    fun pattern here => decide_eq_true ((of_decide_eq_true here).trans within)
  rcases Bool.or_eq_true _ _ ▸ found with opened | closed
  · exact Bool.or_eq_true _ _ ▸ .inl (longer _ opened)
  · exact Bool.or_eq_true _ _ ▸ .inr (longer _ closed)

/-- The passes over the normalized text find more in a longer text. -/
theorem DetectionPass.signals_covered {pass : DetectionPass} (normalized : pass ≠ .base64)
    (within : normalizeDetection part <:+: normalizeDetection whole) :
    (pass.signals engine part).Covered (pass.signals engine whole) := by
  cases pass with
  | plain => exact InjectionSignals.add_covered (containsAny_mono within)
  | reversed => exact InjectionSignals.add_covered (containsAny_mono (List.reverse_infix.mpr within))
  | spaceless =>
    exact InjectionSignals.add_covered fun patterns =>
      containsAny_mono (within.filter _) (patterns.map removeWhitespace)
  | base64 => exact absurd rfl normalized

/-- What a segment decodes to, if that has any injection. -/
def segmentHit (segment : List Char) : Option InjectionSignals :=
  ((decodedSegment engine segment).map fun decoded =>
    ({} : InjectionSignals).add (containsAny decoded)).filter (·.hasAnyInjection)

/-- The base64 pass finds what the first segment with any injection has. -/
theorem checkSegments_eq (segments : List (List Char)) :
    checkSegments engine segments {} = (segments.findSome? (segmentHit engine)).getD {} := by
  induction segments with
  | nil => rfl
  | cons segment segments ih =>
    rw [checkSegments, findSome?_cons, segmentHit]
    cases decodedSegment engine segment with
    | none => exact ih
    | some decoded =>
      simp only [Option.map_some, Option.filter_some]
      cases any : (({} : InjectionSignals).add (containsAny decoded)).hasAnyInjection with
      | true => rfl
      | false =>
        have same : ({} : InjectionSignals).add (containsAny decoded) = {} :=
          InjectionSignals.eq_mark any
        rw [same]
        exact ih

theorem segmentHit_hasAnyInjection {segment : List Char} {signals : InjectionSignals}
    (hit : segmentHit engine segment = some signals) : signals.hasAnyInjection = true :=
  (Option.filter_eq_some_iff.mp hit).2

/-- The base64 pass fires if any segment has an injection. -/
theorem fires_base64_iff : DetectionPass.base64.fires engine text = true ↔
    ∃ segment ∈ extractB64Segments text, (segmentHit engine segment).isSome := by
  have signals : DetectionPass.base64.signals engine text =
      ((extractB64Segments text).findSome? (segmentHit engine)).getD {} := checkSegments_eq engine _
  rw [DetectionPass.fires, signals]
  cases found : (extractB64Segments text).findSome? (segmentHit engine) with
  | none =>
    refine iff_of_false nofun ?_
    rintro ⟨segment, member, hit⟩
    rw [findSome?_eq_none_iff.mp found segment member] at hit
    cases hit
  | some first =>
    obtain ⟨segment, member, hit⟩ := List.exists_of_findSome?_eq_some found
    exact iff_of_true (segmentHit_hasAnyInjection engine hit) ⟨segment, member, by rw [hit]; rfl⟩

end Parts

end Asterel.ExternalContent
