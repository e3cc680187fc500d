import Asterel.Core.ToolProtocol
import Asterel.Library.Streak
import Mathlib.Algebra.GroupWithZero.Nat
import Mathlib.Data.List.MinMax

/-!
# Detection of loops in the tool loop

Every response of the provider is reduced to a fingerprint. Three counters follow the
fingerprints: responses equal to the one before, alternations of two responses, and tool
calls repeated without a visible text. The detector looks back through a bounded history
whose size is configured. A history of three fingerprints is enough for all patterns. The
validation of the configuration accepts two, and then no alternation is ever counted.
-/

namespace Asterel.LoopDetection

open Library Library.Text Library.Streak List
open ToolProtocol (Serde ContentBlock)

variable {Number : Type}

inductive LoopDetectionKind where
  | repeats
  | pingPong
  | noProgress
deriving DecidableEq

inductive LoopDetectionSeverity where
  | warning
  | critical
deriving DecidableEq

/-- The outcome when a threshold is crossed. -/
inductive LoopDetectionOutcome where
  | warning (kind : LoopDetectionKind) (count : UInt32)
  | critical (kind : LoopDetectionKind) (count : UInt32)
deriving DecidableEq

def LoopDetectionOutcome.severity : LoopDetectionOutcome → LoopDetectionSeverity
  | .warning _ _ => .warning
  | .critical _ _ => .critical

structure LoopDetectionConfig where
  enabled : Bool
  historySize : Nat
  warningThreshold : UInt32
  criticalThreshold : UInt32
  repeats : Bool
  pingPong : Bool
  noProgress : Bool

def LoopDetectionConfig.detects (cfg : LoopDetectionConfig) : LoopDetectionKind → Bool
  | .repeats => cfg.repeats
  | .pingPong => cfg.pingPong
  | .noProgress => cfg.noProgress

/-- The error that the validation stops at, if any. -/
def validateLoopDetectionControls (cfg : LoopDetectionConfig) : Option String :=
  if !cfg.enabled then none
  else if cfg.historySize < 2 then
    some "tools.loop_detection.history_size must be >= 2 when enabled"
  else if cfg.warningThreshold = 0 then
    some "tools.loop_detection.warning_threshold must be >= 1 when enabled"
  else if cfg.criticalThreshold = 0 then
    some "tools.loop_detection.critical_threshold must be >= 1 when enabled"
  else if cfg.criticalThreshold < cfg.warningThreshold then
    some "tools.loop_detection.warning_threshold must be <= critical_threshold"
  else none

/-- What the detector reads of a response. -/
structure ProviderResponse (Number : Type) where
  text : List Char
  contentBlocks : List (ContentBlock Number)

/-- A compact fingerprint of one response. -/
structure LoopFingerprint where
  toolSignature : Option (List Char)
  textSignature : List Char
deriving DecidableEq

structure LoopDetectionState where
  history : List LoopFingerprint
  repeatHits : UInt32
  pingPongHits : UInt32
  noProgressHits : UInt32

/-- `LoopDetectionState::with_capacity`. -/
def LoopDetectionState.new : LoopDetectionState := ⟨[], 0, 0, 0⟩

def LoopDetectionState.hits (state : LoopDetectionState) : LoopDetectionKind → UInt32
  | .repeats => state.repeatHits
  | .pingPong => state.pingPongHits
  | .noProgress => state.noProgressHits

/-! ## The fingerprint -/

def normalizeTextSignature (text : List Char) : List Char :=
  (splitWhitespace text).foldl (fun normalized segment =>
    (if normalized = [] then [] else normalized ++ [' ']) ++ segment.map Char.toLower) []

/-- The signature with the tool call of a block. -/
def signBlock (serde : Serde Number) (signature : List Char) : ContentBlock Number → List Char
  | .toolUse _ name input =>
    (if signature = [] then [] else signature ++ ['|']) ++ name ++ ':' :: serde.toText input
  | _ => signature

def fingerprintFromResponse (serde : Serde Number) (response : ProviderResponse Number) :
    LoopFingerprint :=
  let toolSignature := response.contentBlocks.foldl (signBlock serde) []
  { toolSignature := if toolSignature = [] then none else some toolSignature
    textSignature := normalizeTextSignature response.text }

/-! ## The detector -/

/-- `u32::saturating_add` of one. -/
def saturatingSucc (hits : UInt32) : UInt32 := if hits = 4294967295 then hits else hits + 1

def repeatsLast (history : List LoopFingerprint) (current : LoopFingerprint) : Bool :=
  history.getLast?.any (· = current)

def progressesNot (history : List LoopFingerprint) (current : LoopFingerprint) : Bool :=
  current.toolSignature.isSome && current.textSignature.isEmpty &&
    history.getLast?.any fun previous =>
      previous.toolSignature = current.toolSignature && previous.textSignature.isEmpty

def alternates (history : List LoopFingerprint) (current : LoopFingerprint) : Bool :=
  if 3 ≤ history.length then
    let a := history[history.length - 3]?
    let b := history[history.length - 2]?
    let c := history[history.length - 1]?
    a = c && b = some current && a ≠ b
  else false

/-- A counter behind one response: a pattern that is switched off or not met resets it. -/
def nextHits (detects matched : Bool) (hits : UInt32) : UInt32 :=
  if detects then if matched then saturatingSucc hits else 0 else 0

/-- The loop that pops the front of the history. -/
def popFront (historySize : Nat) : List LoopFingerprint → List LoopFingerprint
  | [] => []
  | oldest :: rest =>
    if historySize < (oldest :: rest).length then popFront historySize rest else oldest :: rest

def patterns (cfg : LoopDetectionConfig) (state : LoopDetectionState) :
    List (LoopDetectionKind × UInt32 × Bool) :=
  [(.repeats, state.repeatHits, cfg.repeats), (.pingPong, state.pingPongHits, cfg.pingPong),
    (.noProgress, state.noProgressHits, cfg.noProgress)]

/-- The last of the patterns with the most hits, `max_by_key`, against the thresholds. -/
def thresholdOutcome (cfg : LoopDetectionConfig) (state : LoopDetectionState) :
    Option LoopDetectionOutcome :=
  let enabled := (patterns cfg state).filter (·.2.2)
  (enabled.reverse.argmax (·.2.1.toNat)).bind fun pattern =>
    if cfg.criticalThreshold ≤ pattern.2.1 then some (.critical pattern.1 pattern.2.1)
    else if cfg.warningThreshold ≤ pattern.2.1 then some (.warning pattern.1 pattern.2.1)
    else none

/-- The state behind the response. -/
def observe (cfg : LoopDetectionConfig) (state : LoopDetectionState) (current : LoopFingerprint) :
    LoopDetectionState :=
  { history := popFront cfg.historySize (state.history ++ [current])
    repeatHits := nextHits cfg.repeats (repeatsLast state.history current) state.repeatHits
    pingPongHits := nextHits cfg.pingPong (alternates state.history current) state.pingPongHits
    noProgressHits :=
      nextHits cfg.noProgress (progressesNot state.history current) state.noProgressHits }

def evaluateLoopDetection (serde : Serde Number) (cfg : LoopDetectionConfig)
    (state : LoopDetectionState) (response : ProviderResponse Number) :
    LoopDetectionState × Option LoopDetectionOutcome :=
  if !cfg.enabled then (state, none)
  else
    let next := observe cfg state (fingerprintFromResponse serde response)
    (next, thresholdOutcome cfg next)

/-- The state behind a sequence of responses. -/
def stateAfter (serde : Serde Number) (cfg : LoopDetectionConfig)
    (responses : List (ProviderResponse Number)) : LoopDetectionState :=
  responses.foldl (fun state response => (evaluateLoopDetection serde cfg state response).1) .new

/-! ## Streaks -/

/-- A position repeats its predecessor. -/
def RepeatsAt (sequence : List LoopFingerprint) (position : Nat) : Prop :=
  1 ≤ position ∧ sequence[position]? = sequence[position - 1]?

/-- A position repeats the tool calls of its predecessor and both come without a text. -/
def NoProgressAt (sequence : List LoopFingerprint) (position : Nat) : Prop :=
  1 ≤ position ∧ sequence[position]?.bind (·.toolSignature) ≠ none ∧
    sequence[position]?.bind (·.toolSignature) = sequence[position - 1]?.bind (·.toolSignature) ∧
    sequence[position]?.map (·.textSignature) = some [] ∧
    sequence[position - 1]?.map (·.textSignature) = some []

/-- A position continues an alternation of two responses. -/
def PingPongAt (sequence : List LoopFingerprint) (position : Nat) : Prop :=
  3 ≤ position ∧ sequence[position]? = sequence[position - 2]? ∧
    sequence[position - 1]? = sequence[position - 3]? ∧
    sequence[position - 1]? ≠ sequence[position]?

def OccursAt : LoopDetectionKind → List LoopFingerprint → Nat → Prop
  | .repeats => RepeatsAt
  | .pingPong => PingPongAt
  | .noProgress => NoProgressAt

instance decidableOccursAt : (kind : LoopDetectionKind) → (sequence : List LoopFingerprint) →
    DecidablePred (OccursAt kind sequence)
  | .repeats, _ => fun _ => inferInstanceAs (Decidable (_ ∧ _))
  | .pingPong, _ => fun _ => inferInstanceAs (Decidable (_ ∧ _))
  | .noProgress, _ => fun _ => inferInstanceAs (Decidable (_ ∧ _))

/-- How many of the last positions show the pattern, in the whole sequence. -/
def streak (kind : LoopDetectionKind) (sequence : List LoopFingerprint) : Nat :=
  trailing (OccursAt kind sequence) sequence.length

/-- A pattern that is switched on has a streak as long as the threshold. -/
def Reaches (cfg : LoopDetectionConfig) (sequence : List LoopFingerprint) (threshold : UInt32) :
    Prop :=
  ∃ kind, cfg.detects kind ∧ threshold.toNat ≤ streak kind sequence

/-- The outcome is the one that the streaks of the whole sequence ask for. -/
structure MeasuresStreaks (cfg : LoopDetectionConfig) (sequence : List LoopFingerprint)
    (outcome : Option LoopDetectionOutcome) : Prop where
  critical : outcome.map (·.severity) = some .critical ↔ Reaches cfg sequence cfg.criticalThreshold
  warning : outcome.map (·.severity) = some .warning ↔
    Reaches cfg sequence cfg.warningThreshold ∧ ¬ Reaches cfg sequence cfg.criticalThreshold

/-! ## Every counter against its streak -/

section Counting

variable {sequence : List LoopFingerprint} {cfg : LoopDetectionConfig} (kind : LoopDetectionKind)
  (serde : Serde Number)

/-- The pattern of a counter, as the detector reads it off the bounded history. -/
def matched : LoopDetectionKind → List LoopFingerprint → LoopFingerprint → Bool
  | .repeats => repeatsLast
  | .pingPong => alternates
  | .noProgress => progressesNot

/-- How far a pattern looks back. -/
def lookBack : LoopDetectionKind → Nat
  | .repeats => 1
  | .pingPong => 3
  | .noProgress => 1

theorem toNat_saturatingSucc (hits : UInt32) :
    (saturatingSucc hits).toNat = min (hits.toNat + 1) 4294967295 := by
  have bound : hits.toNat < 4294967296 := hits.toNat_lt
  rw [saturatingSucc]
  split
  · rename_i full
    rw [full]
    decide
  · rename_i room
    have below : hits.toNat ≠ 4294967295 := fun full => room (UInt32.toNat_inj.mp full)
    rw [UInt32.toNat_add, show (1 : UInt32).toNat = 1 from rfl]
    omega

theorem observe_hits (cfg : LoopDetectionConfig) (state : LoopDetectionState)
    (current : LoopFingerprint) (kind : LoopDetectionKind) :
    (observe cfg state current).hits kind =
      nextHits (cfg.detects kind) (matched kind state.history current) (state.hits kind) := by
  cases kind <;> rfl

theorem popFront_eq_rtake (historySize : Nat) (history : List LoopFingerprint) :
    popFront historySize history = history.rtake historySize := by
  induction history with
  | nil => rw [popFront, rtake_nil]
  | cons oldest rest ih =>
    rw [popFront, rtake, length_cons]
    split
    · rename_i longer
      rw [ih, rtake, show rest.length + 1 - historySize = rest.length - historySize + 1 by omega,
        drop_succ_cons]
    · rename_i fits
      rw [show rest.length + 1 - historySize = 0 by omega, drop_zero]

/-- A later response changes nothing at the earlier positions. -/
theorem occursAt_concat
    (current : LoopFingerprint) {position : Nat} (inside : position < sequence.length) :
    OccursAt kind (sequence ++ [current]) position ↔ OccursAt kind sequence position := by
  have kept (back : Nat) : (sequence ++ [current])[position - back]? = sequence[position - back]? :=
    List.getElem?_append_left (by omega)
  have here : (sequence ++ [current])[position]? = sequence[position]? := kept 0
  cases kind <;>
    simp only [OccursAt, RepeatsAt, PingPongAt, NoProgressAt, here, kept]

theorem streak_concat (sequence : List LoopFingerprint) (current : LoopFingerprint) :
    streak kind (sequence ++ [current]) =
      if OccursAt kind (sequence ++ [current]) sequence.length then streak kind sequence + 1
      else 0 := by
  have before : trailing (OccursAt kind (sequence ++ [current])) sequence.length =
      streak kind sequence := by
    apply trailing_congr
    intro position inside
    exact occursAt_concat kind current inside
  rw [streak, length_append, length_singleton, trailing, before]

/-- A history as long as the pattern looks back decides the pattern like the whole
sequence. -/
theorem matched_iff (sequence : List LoopFingerprint)
    (current : LoopFingerprint) {historySize : Nat} (enough : lookBack kind ≤ historySize) :
    matched kind (sequence.rtake historySize) current ↔
      OccursAt kind (sequence ++ [current]) sequence.length := by
  have newest : (sequence ++ [current])[sequence.length]? = some current := by simp
  have earlier (back : Nat) (some : 1 ≤ back) (inside : back ≤ sequence.length) :
      (sequence ++ [current])[sequence.length - back]? = sequence[sequence.length - back]? :=
    List.getElem?_append_left (by omega)
  have kept (back : Nat) (bound : back ≤ historySize) (inside : back ≤ sequence.length) :
      (sequence.rtake historySize)[(sequence.rtake historySize).length - back]? =
        sequence[sequence.length - back]? := rtake_getElem? bound inside
  cases kind with
  | repeats =>
    rw [matched, repeatsLast, getLast?_eq_getElem?]
    by_cases inside : 1 ≤ sequence.length
    · rw [kept 1 enough inside]
      simp only [OccursAt, RepeatsAt, newest, earlier 1 le_rfl inside, inside, true_and]
      rw [Option.any_eq_true, eq_comm]
      simp
    · have empty : sequence = [] := eq_nil_of_length_eq_zero (by omega)
      simp [empty, OccursAt, RepeatsAt]
  | pingPong =>
    rw [matched, alternates, length_rtake]
    by_cases inside : 3 ≤ sequence.length
    · have short : 3 ≤ min historySize sequence.length := le_min enough inside
      have three := kept 3 enough inside
      have two := kept 2 (by simp only [lookBack] at enough; omega) (by omega)
      have one := kept 1 (by simp only [lookBack] at enough; omega) (by omega)
      rw [length_rtake] at three two one
      simp only [if_pos short, three, two, one, OccursAt, PingPongAt, newest,
        earlier 1 le_rfl (by omega), earlier 2 (by omega) (by omega), earlier 3 (by omega) inside,
        inside, true_and, Bool.and_eq_true, decide_eq_true_eq]
      constructor
      · rintro ⟨⟨outer, inner⟩, differ⟩
        exact ⟨inner.symm, outer.symm, fun same => differ (outer.trans (same.trans inner.symm))⟩
      · rintro ⟨inner, outer, differ⟩
        exact ⟨⟨outer.symm, inner.symm⟩, fun same => differ (outer.trans (same.trans inner.symm))⟩
    · rw [if_neg (by omega)]
      simp [OccursAt, PingPongAt, inside]
  | noProgress =>
    rw [matched, progressesNot, getLast?_eq_getElem?]
    by_cases inside : 1 ≤ sequence.length
    · rw [kept 1 enough inside]
      simp only [OccursAt, NoProgressAt, newest, earlier 1 le_rfl inside, inside, true_and]
      cases sequence[sequence.length - 1]? with
      | none => simp
      | some previous =>
        simp only [Option.any_some, Option.bind_some, Option.map_some, Option.some.injEq,
          Bool.and_eq_true, decide_eq_true_eq, List.isEmpty_iff, Option.isSome_iff_ne_none]
        constructor
        · rintro ⟨⟨tools, text⟩, same, before⟩
          exact ⟨tools, same.symm, text, before⟩
        · rintro ⟨tools, same, text, before⟩
          exact ⟨⟨tools, text⟩, same.symm, before⟩
    · have empty : sequence = [] := eq_nil_of_length_eq_zero (by omega)
      simp [empty, OccursAt, NoProgressAt]

/-- The state knows the end of the sequence, and the counters of the patterns that the
history is long enough for are their streaks. -/
structure Tracks (cfg : LoopDetectionConfig) (state : LoopDetectionState)
    (sequence : List LoopFingerprint) : Prop where
  history : state.history = sequence.rtake cfg.historySize
  hits : ∀ kind, cfg.detects kind → lookBack kind ≤ cfg.historySize →
    (state.hits kind).toNat = min (streak kind sequence) 4294967295

theorem Tracks.new (cfg : LoopDetectionConfig) : Tracks cfg .new [] := by
  constructor
  · exact (rtake_nil cfg.historySize).symm
  · intro kind _ _
    cases kind <;> rfl

theorem Tracks.observe {state : LoopDetectionState} (tracks : Tracks cfg state sequence)
    (current : LoopFingerprint) :
    Tracks cfg (LoopDetection.observe cfg state current) (sequence ++ [current]) := by
  constructor
  · rw [LoopDetection.observe, popFront_eq_rtake, tracks.history, rtake_concat]
  · intro kind detected enough
    have meets := matched_iff kind sequence current enough
    rw [observe_hits, nextHits, if_pos detected, tracks.history, streak_concat]
    by_cases occurs : OccursAt kind (sequence ++ [current]) sequence.length
    · rw [if_pos (meets.mpr occurs), if_pos occurs, toNat_saturatingSucc,
        tracks.hits kind detected enough]
      omega
    · rw [if_neg (mt meets.mp occurs), if_neg occurs]
      rfl

/-- The fingerprints of the responses. -/
def fingerprints (serde : Serde Number) (responses : List (ProviderResponse Number)) :
    List LoopFingerprint :=
  responses.map (fingerprintFromResponse serde)

theorem fingerprints_concat (responses : List (ProviderResponse Number))
    (response : ProviderResponse Number) :
    fingerprints serde (responses ++ [response]) =
      fingerprints serde responses ++ [fingerprintFromResponse serde response] :=
  map_append

theorem evaluate_enabled (enabled : cfg.enabled = true) (state : LoopDetectionState)
    (response : ProviderResponse Number) :
    evaluateLoopDetection serde cfg state response =
      (observe cfg state (fingerprintFromResponse serde response),
        thresholdOutcome cfg (observe cfg state (fingerprintFromResponse serde response))) := by
  simp [evaluateLoopDetection, enabled]

theorem stateAfter_concat (cfg : LoopDetectionConfig)
    (responses : List (ProviderResponse Number)) (response : ProviderResponse Number) :
    stateAfter serde cfg (responses ++ [response]) =
      (evaluateLoopDetection serde cfg (stateAfter serde cfg responses) response).1 := by
  rw [stateAfter, foldl_append]
  rfl

/-- Whatever the responses were, the detector tracks their fingerprints. -/
theorem tracks_stateAfter
    (enabled : cfg.enabled = true) (responses : List (ProviderResponse Number)) :
    Tracks cfg (stateAfter serde cfg responses) (fingerprints serde responses) := by
  induction responses using reverseRecOn with
  | nil => exact Tracks.new cfg
  | append_singleton responses response ih =>
    rw [stateAfter_concat, evaluate_enabled serde enabled, fingerprints_concat]
    exact ih.observe (fingerprintFromResponse serde response)

end Counting

/-! ## The thresholds -/

section Thresholds

variable {cfg : LoopDetectionConfig} {state : LoopDetectionState}

theorem mem_enabled_patterns {pattern : LoopDetectionKind × UInt32 × Bool}
    (member : pattern ∈ (patterns cfg state).filter (·.2.2)) :
    cfg.detects pattern.1 = true ∧ pattern.2.1 = state.hits pattern.1 := by
  rw [mem_filter, patterns] at member
  obtain ⟨member, enabled⟩ := member
  simp only [mem_cons, not_mem_nil, or_false] at member
  obtain rfl | rfl | rfl := member
  all_goals exact ⟨enabled, rfl⟩

theorem enabled_pattern_mem (state : LoopDetectionState)
    {kind : LoopDetectionKind} (detected : cfg.detects kind = true) :
    (kind, state.hits kind, true) ∈ (patterns cfg state).filter (·.2.2) := by
  rw [mem_filter, patterns, ← detected]
  refine ⟨?_, rfl⟩
  cases kind <;> simp [LoopDetectionConfig.detects, LoopDetectionState.hits]

/-- The counter of an enabled pattern has reached the threshold. -/
def Counted (cfg : LoopDetectionConfig) (state : LoopDetectionState) (threshold : UInt32) : Prop :=
  ∃ kind, cfg.detects kind ∧ threshold ≤ state.hits kind

/-- The pattern that is chosen decides every threshold. -/
theorem counted_iff {chosen : LoopDetectionKind × UInt32 × Bool}
    (most : ((patterns cfg state).filter (·.2.2)).reverse.argmax (·.2.1.toNat) = some chosen)
    (threshold : UInt32) : Counted cfg state threshold ↔ threshold ≤ chosen.2.1 := by
  have member := mem_enabled_patterns (mem_reverse.mp (argmax_mem most))
  constructor
  · rintro ⟨kind, detected, reached⟩
    have listed := mem_reverse.mpr (enabled_pattern_mem state detected)
    have least := not_lt.mp (not_lt_of_mem_argmax listed most)
    exact UInt32.le_iff_toNat_le.mpr ((UInt32.le_iff_toNat_le.mp reached).trans least)
  · intro reached
    exact ⟨chosen.1, member.1, member.2 ▸ reached⟩

/-- The outcome compares the counters of the enabled patterns with the thresholds. -/
theorem thresholdOutcome_severity (cfg : LoopDetectionConfig) (state : LoopDetectionState) :
    ((thresholdOutcome cfg state).map (·.severity) = some .critical ↔
      Counted cfg state cfg.criticalThreshold) ∧
    ((thresholdOutcome cfg state).map (·.severity) = some .warning ↔
      Counted cfg state cfg.warningThreshold ∧ ¬ Counted cfg state cfg.criticalThreshold) := by
  cases most : ((patterns cfg state).filter (·.2.2)).reverse.argmax (·.2.1.toNat) with
  | none =>
    have empty := argmax_eq_none.mp most
    have never (threshold : UInt32) : ¬ Counted cfg state threshold := by
      rintro ⟨kind, detected, _⟩
      have listed := mem_reverse.mpr (enabled_pattern_mem state detected)
      rw [empty] at listed
      exact not_mem_nil listed
    simp [thresholdOutcome, most, never]
  | some chosen =>
    simp only [thresholdOutcome, most, Option.bind_some, counted_iff most]
    by_cases critical : cfg.criticalThreshold ≤ chosen.2.1
    · simp [critical, LoopDetectionOutcome.severity]
    · by_cases warning : cfg.warningThreshold ≤ chosen.2.1
      · simp [critical, warning, LoopDetectionOutcome.severity]
      · simp [critical, warning]

/-- The history holds what every pattern looks back at. -/
def KeepsEnough (cfg : LoopDetectionConfig) : Prop :=
  ∀ kind, cfg.detects kind → lookBack kind ≤ cfg.historySize

theorem keepsEnough_iff (cfg : LoopDetectionConfig) :
    KeepsEnough cfg ↔ (cfg.pingPong → 3 ≤ cfg.historySize) ∧
      (cfg.repeats ∨ cfg.noProgress → 1 ≤ cfg.historySize) := by
  constructor
  · intro enough
    refine ⟨enough .pingPong, ?_⟩
    rintro (detected | detected)
    · exact enough .repeats detected
    · exact enough .noProgress detected
  · rintro ⟨alternation, single⟩ kind detected
    cases kind with
    | repeats => exact single (.inl detected)
    | pingPong => exact alternation detected
    | noProgress => exact single (.inr detected)

/-- Counters that are the streaks reach the thresholds with them: a counter stops at the
largest number that a threshold can be. -/
theorem counted_iff_reaches {sequence : List LoopFingerprint} (tracks : Tracks cfg state sequence)
    (enough : KeepsEnough cfg) (threshold : UInt32) :
    Counted cfg state threshold ↔ Reaches cfg sequence threshold := by
  have bound : threshold.toNat < 4294967296 := threshold.toNat_lt
  refine exists_congr fun kind => and_congr_right fun detected => ?_
  rw [UInt32.le_iff_toNat_le, tracks.hits kind detected (enough kind detected)]
  omega

/-- A critical threshold of zero is reached as soon as a pattern is enabled, whatever was
counted, and leaves nothing for a warning. -/
theorem zero_threshold (zero : cfg.criticalThreshold = 0)
    (state : LoopDetectionState) (sequence : List LoopFingerprint) (threshold : UInt32) :
    (Counted cfg state cfg.criticalThreshold ↔ Reaches cfg sequence cfg.criticalThreshold) ∧
      (Counted cfg state threshold ∧ ¬ Counted cfg state cfg.criticalThreshold ↔
        Reaches cfg sequence threshold ∧ ¬ Reaches cfg sequence cfg.criticalThreshold) := by
  have counted : Counted cfg state cfg.criticalThreshold ↔ ∃ kind, cfg.detects kind = true := by
    simp [Counted, zero, UInt32.le_iff_toNat_le]
  have reached : Reaches cfg sequence cfg.criticalThreshold ↔
      ∃ kind, cfg.detects kind = true := by simp [Reaches, zero]
  have detected : Reaches cfg sequence threshold → ∃ kind, cfg.detects kind = true :=
    Exists.imp fun _ => And.left
  have observed : Counted cfg state threshold → ∃ kind, cfg.detects kind = true :=
    Exists.imp fun _ => And.left
  rw [counted, reached]
  refine ⟨Iff.rfl, iff_of_false ?_ ?_⟩
  · rintro ⟨some, none⟩
    exact none (observed some)
  · rintro ⟨some, none⟩
    exact none (detected some)

end Thresholds

/-! ## Streaks that a short history hides -/

section Hidden

variable {cfg : LoopDetectionConfig} {kind : LoopDetectionKind} (serde : Serde Number)

/-- The responses of a provider that follows a rule. -/
def turns (turn : Nat → ProviderResponse Number) (count : Nat) : List (ProviderResponse Number) :=
  (List.range count).map turn

theorem turns_succ (turn : Nat → ProviderResponse Number) (count : Nat) :
    turns turn (count + 1) = turns turn count ++ [turn count] := by
  rw [turns, range_succ, map_append]
  rfl

theorem fingerprints_turns_getElem? (turn : Nat → ProviderResponse Number)
    {count position : Nat} (inside : position < count) :
    (fingerprints serde (turns turn count))[position]? =
      some (fingerprintFromResponse serde (turn position)) := by
  simp [fingerprints, turns, inside]

theorem length_fingerprints_turns (turn : Nat → ProviderResponse Number)
    (count : Nat) : (fingerprints serde (turns turn count)).length = count := by
  simp [fingerprints, turns]

/-- Two texts in turn. -/
def alternation (position : Nat) : ProviderResponse Number :=
  if position % 2 = 0 then ⟨['a'], []⟩ else ⟨['b'], []⟩

/-- The same tool call without a text, again and again. -/
def stuck (_ : Nat) : ProviderResponse Number := ⟨[], [.toolUse [] [] .null]⟩

theorem fingerprint_alternation (position : Nat) :
    fingerprintFromResponse serde (alternation position) =
      if position % 2 = 0 then ⟨none, ['a']⟩ else ⟨none, ['b']⟩ := by
  have first : normalizeTextSignature ['a'] = ['a'] := by decide
  have second : normalizeTextSignature ['b'] = ['b'] := by decide
  rw [alternation]
  split
  · simp [fingerprintFromResponse, first]
  · simp [fingerprintFromResponse, second]

theorem fingerprint_stuck (position : Nat) :
    fingerprintFromResponse serde (stuck position) = ⟨some (':' :: serde.toText .null), []⟩ := by
  have blank : normalizeTextSignature [] = [] := by decide
  simp [fingerprintFromResponse, stuck, signBlock, blank]

theorem streak_alternation (count : Nat) :
    count ≤ streak .pingPong (fingerprints serde (turns alternation (count + 3))) := by
  have every : ∀ position < count + 3, 3 ≤ position →
      OccursAt .pingPong (fingerprints serde (turns alternation (count + 3))) position := by
    intro position inside reached
    have kept (back : Nat) := @fingerprints_turns_getElem? Number serde alternation (count + 3)
      (position - back) (by omega)
    refine ⟨reached, ?_, ?_, ?_⟩
    · rw [fingerprints_turns_getElem? serde alternation inside, kept 2]
      simp only [fingerprint_alternation, show (position - 2) % 2 = position % 2 by omega]
    · rw [kept 1, kept 3]
      simp only [fingerprint_alternation, show (position - 3) % 2 = (position - 1) % 2 by omega]
    · rw [kept 1, fingerprints_turns_getElem? serde alternation inside]
      simp only [fingerprint_alternation, ne_eq, Option.some.injEq]
      split <;> split <;> first | omega | simp
  have long := le_trailing every
  rw [streak, length_fingerprints_turns]
  omega

theorem streak_stuck (count : Nat) (single : kind ≠ .pingPong) :
    count ≤ streak kind (fingerprints serde (turns stuck (count + 1))) := by
  have every : ∀ position < count + 1, 1 ≤ position →
      OccursAt kind (fingerprints serde (turns stuck (count + 1))) position := by
    intro position inside reached
    have here := fingerprints_turns_getElem? serde stuck inside
    have before := @fingerprints_turns_getElem? Number serde stuck (count + 1) (position - 1)
      (by omega)
    cases kind with
    | repeats =>
      refine ⟨reached, ?_⟩
      rw [here, before, fingerprint_stuck, fingerprint_stuck]
    | pingPong => exact absurd rfl single
    | noProgress =>
      rw [fingerprint_stuck] at here before
      simp [OccursAt, NoProgressAt, here, before, reached]
  have long := le_trailing every
  rw [streak, length_fingerprints_turns]
  omega

/-- A response that meets no enabled pattern leaves no counter above zero. -/
theorem not_counted_of_unmatched {state : LoopDetectionState}
    {current : LoopFingerprint} {threshold : UInt32} (positive : threshold ≠ 0)
    (unmatched : ∀ kind, cfg.detects kind → matched kind state.history current = false) :
    ¬ Counted cfg (observe cfg state current) threshold := by
  rintro ⟨kind, detected, reached⟩
  rw [observe_hits, nextHits, if_pos detected, unmatched kind detected] at reached
  have zero : threshold.toNat = 0 := by
    have bound := UInt32.le_iff_toNat_le.mp reached
    simpa using bound
  exact positive (UInt32.toNat_inj.mp zero)

/-- A long streak behind a response that meets no pattern in the history is not measured. -/
theorem hidden (enabled : cfg.enabled = true) (positive : cfg.criticalThreshold ≠ 0)
    (detected : cfg.detects kind = true) {earlier : List (ProviderResponse Number)}
    {response : ProviderResponse Number}
    (long : cfg.criticalThreshold.toNat ≤ streak kind (fingerprints serde (earlier ++ [response])))
    (unmatched : ∀ kind, cfg.detects kind → matched kind (stateAfter serde cfg earlier).history
      (fingerprintFromResponse serde response) = false) :
    ¬ MeasuresStreaks cfg (fingerprints serde (earlier ++ [response]))
      (evaluateLoopDetection serde cfg (stateAfter serde cfg earlier) response).2 := by
  intro measures
  have critical := measures.critical.mpr ⟨kind, detected, long⟩
  rw [evaluate_enabled serde enabled] at critical
  exact not_counted_of_unmatched positive unmatched
    ((thresholdOutcome_severity cfg _).1.mp critical)

theorem matched_nil (kind : LoopDetectionKind) (current : LoopFingerprint) :
    matched kind [] current = false := by
  cases kind <;> simp [matched, repeatsLast, alternates, progressesNot]

/-- In an alternation no response repeats the one before. -/
theorem alternation_unrepeated {count position : Nat} (inside : position < count) :
    ¬ OccursAt .repeats (fingerprints serde (turns alternation count)) position := by
  rintro ⟨some, repeated⟩
  rw [fingerprints_turns_getElem? serde alternation inside,
    fingerprints_turns_getElem? serde alternation (by omega)] at repeated
  simp only [fingerprint_alternation, Option.some.injEq] at repeated
  split at repeated <;> split at repeated <;> first | omega | simp at repeated

/-- The responses of an alternation call no tools. -/
theorem alternation_progresses {count position : Nat} (inside : position < count) :
    ¬ OccursAt .noProgress (fingerprints serde (turns alternation count)) position := by
  rintro ⟨_, called, _⟩
  rw [fingerprints_turns_getElem? serde alternation inside, fingerprint_alternation] at called
  split at called <;> simp at called

/-- A history of two fingerprints shows no alternation. -/
theorem alternation_hidden (enabled : cfg.enabled = true) (positive : cfg.criticalThreshold ≠ 0)
    (detected : cfg.pingPong = true) (short : cfg.historySize < 3) :
    ¬ MeasuresStreaks cfg
      (fingerprints serde (turns alternation (cfg.criticalThreshold.toNat + 2) ++
        [alternation (cfg.criticalThreshold.toNat + 2)]))
      (evaluateLoopDetection serde cfg
        (stateAfter serde cfg (turns alternation (cfg.criticalThreshold.toNat + 2)))
        (alternation (cfg.criticalThreshold.toNat + 2))).2 := by
  have long := streak_alternation serde cfg.criticalThreshold.toNat
  rw [turns_succ] at long
  have alternating : cfg.detects .pingPong = true := detected
  apply hidden serde enabled positive alternating long
  intro kind _
  rw [(tracks_stateAfter serde enabled _).history]
  by_cases empty : cfg.historySize = 0
  · rw [empty, rtake_zero, matched_nil]
  · cases kind with
    | pingPong =>
      have shown := length_rtake
        (fingerprints serde (turns alternation (cfg.criticalThreshold.toNat + 2))) cfg.historySize
      rw [matched, alternates, if_neg (by omega)]
    | repeats =>
      rw [Bool.eq_false_iff, ne_eq, matched_iff .repeats _ _ (by simp only [lookBack]; omega),
        ← fingerprints_concat, ← turns_succ, length_fingerprints_turns]
      exact alternation_unrepeated serde (by omega)
    | noProgress =>
      rw [Bool.eq_false_iff, ne_eq, matched_iff .noProgress _ _ (by simp only [lookBack]; omega),
        ← fingerprints_concat, ← turns_succ, length_fingerprints_turns]
      exact alternation_progresses serde (by omega)

/-- No history shows nothing. -/
theorem stuck_hidden (enabled : cfg.enabled = true) (positive : cfg.criticalThreshold ≠ 0)
    (single : kind ≠ .pingPong) (detected : cfg.detects kind = true) (short : cfg.historySize = 0) :
    ¬ MeasuresStreaks cfg
      (fingerprints serde (turns stuck cfg.criticalThreshold.toNat ++
        [stuck cfg.criticalThreshold.toNat]))
      (evaluateLoopDetection serde cfg
        (stateAfter serde cfg (turns stuck cfg.criticalThreshold.toNat))
        (stuck cfg.criticalThreshold.toNat)).2 := by
  have long := streak_stuck serde cfg.criticalThreshold.toNat single
  rw [turns_succ] at long
  apply hidden serde enabled positive detected long
  intro kind _
  rw [(tracks_stateAfter serde enabled _).history, short, rtake_zero, matched_nil]

end Hidden

/-- The detector measures the streaks of every sequence of responses exactly if its history
holds three fingerprints for the alternations and one for the other patterns, or nothing
has to be counted for the critical threshold. -/
theorem outcome_measures_streaks_iff (serde : Serde Number) {cfg : LoopDetectionConfig}
    (enabled : cfg.enabled = true) :
    (∀ (earlier : List (ProviderResponse Number)) (response : ProviderResponse Number),
      MeasuresStreaks cfg (fingerprints serde (earlier ++ [response]))
        (evaluateLoopDetection serde cfg (stateAfter serde cfg earlier) response).2) ↔
      cfg.criticalThreshold = 0 ∨ ((cfg.pingPong → 3 ≤ cfg.historySize) ∧
        (cfg.repeats ∨ cfg.noProgress → 1 ≤ cfg.historySize)) := by
  constructor
  · intro measures
    by_contra missed
    obtain ⟨positive, missed⟩ := not_or.mp missed
    have alternating : cfg.pingPong = true → 3 ≤ cfg.historySize := by
      intro detected
      by_contra short
      exact alternation_hidden serde enabled positive detected (by omega) (measures _ _)
    apply missed
    refine ⟨alternating, ?_⟩
    intro detected
    by_contra short
    obtain detected | detected := detected
    · have repeating : cfg.detects .repeats = true := detected
      exact stuck_hidden serde enabled positive (by decide) repeating (by omega) (measures _ _)
    · have idle : cfg.detects .noProgress = true := detected
      exact stuck_hidden serde enabled positive (by decide) idle (by omega) (measures _ _)
  · intro adequate earlier response
    have tracks := (tracks_stateAfter serde enabled earlier).observe
      (fingerprintFromResponse serde response)
    rw [← fingerprints_concat] at tracks
    rw [evaluate_enabled serde enabled]
    obtain ⟨critical, warning⟩ := thresholdOutcome_severity cfg
      (observe cfg (stateAfter serde cfg earlier) (fingerprintFromResponse serde response))
    obtain zero | enough := adequate
    · have same := zero_threshold zero
        (observe cfg (stateAfter serde cfg earlier) (fingerprintFromResponse serde response))
        (fingerprints serde (earlier ++ [response])) cfg.warningThreshold
      exact ⟨critical.trans same.1, warning.trans same.2⟩
    · have counted := counted_iff_reaches tracks ((keepsEnough_iff cfg).mpr enough)
      rw [counted] at critical
      rw [counted, counted] at warning
      exact ⟨critical, warning⟩

/-- The detector with the default configuration, behind seven responses in turn. -/
theorem outcome_measures_streaks_default :
    MeasuresStreaks ⟨true, 8, 2, 4, true, true, true⟩
      (fingerprints ⟨fun _ => none, fun _ => []⟩ (turns (@alternation Nat) 6 ++ [alternation 6]))
      (evaluateLoopDetection ⟨fun _ => none, fun _ => []⟩ ⟨true, 8, 2, 4, true, true, true⟩
        (stateAfter ⟨fun _ => none, fun _ => []⟩ ⟨true, 8, 2, 4, true, true, true⟩
          (turns (@alternation Nat) 6)) (@alternation Nat 6)).2 :=
  (outcome_measures_streaks_iff _ rfl).mpr (by decide) _ _

/-- The validation accepts a history of two fingerprints, and behind seven responses in
turn the critical streak of four goes unnoticed. -/
theorem short_history_hides_alternation :
    validateLoopDetectionControls ⟨true, 2, 2, 4, true, true, true⟩ = none ∧
      ¬ ∀ (earlier : List (ProviderResponse Nat)) (response : ProviderResponse Nat),
        MeasuresStreaks ⟨true, 2, 2, 4, true, true, true⟩
          (fingerprints ⟨fun _ => none, fun _ => []⟩ (earlier ++ [response]))
          (evaluateLoopDetection ⟨fun _ => none, fun _ => []⟩ ⟨true, 2, 2, 4, true, true, true⟩
            (stateAfter ⟨fun _ => none, fun _ => []⟩ ⟨true, 2, 2, 4, true, true, true⟩ earlier)
            response).2 := by
  refine ⟨by decide, ?_⟩
  intro measures
  exact alternation_hidden _ rfl (by decide) rfl (by decide) (measures (turns alternation 6) _)

end Asterel.LoopDetection
