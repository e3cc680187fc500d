import Asterel.Contracts.Tenant
import Asterel.Security.InjectionPatterns
import Asterel.Security.Normalize
import Asterel.Utils.CharBoundary

/-!
# Injection detection for untrusted external content

Patterns are searched in the normalized text, then in the reversed text, in the text
without spaces, and in what base64 segments decode to. Each pass runs only if none
before it has found anything. Of a large text only three windows are searched.

The base64 engines are those of a library. They are a parameter here.
-/

namespace Asterel.ExternalContent

open Library
open Library.Text (isWhitespace occurs trim)
open Chunker (byteLength)
open CharBoundary (floorCharBoundary)

/-- Injection signal flags detected in untrusted content. -/
structure InjectionSignals where
  hasMarkerCollision : Bool := false
  hasInstructionOverride : Bool := false
  hasPrivilegeEscalation : Bool := false
  hasSecretExfiltration : Bool := false
  hasHighConfidenceSecretExfiltration : Bool := false
  hasToolJailbreak : Bool := false
deriving DecidableEq

/-- Whether any injection signal (excluding marker collision) fired. -/
def InjectionSignals.hasAnyInjection (signals : InjectionSignals) : Bool :=
  signals.hasInstructionOverride || signals.hasPrivilegeEscalation ||
    signals.hasSecretExfiltration || signals.hasHighConfidenceSecretExfiltration ||
    signals.hasToolJailbreak

/-- Policy action decided for external content. -/
inductive ExternalAction where
  | allow
  | sanitize
  | block
deriving DecidableEq

/-- The order of the actions. -/
def ExternalAction.severity : ExternalAction → Nat
  | .allow => 0
  | .sanitize => 1
  | .block => 2

def openMarkerPrefix : List Char := "[[external-content:".toList

def closeMarker : List Char := "[[/external-content]]".toList

def maxDetectionInputBytes : Nat := 256 * 1024

/-! ## Windows of a large text -/

/-- The number of characters before the first boundary at or behind a byte. -/
def ceilCharBoundary : List Char → Nat → Nat
  | [], _ => 0
  | char :: rest, index =>
    if index = 0 then 0 else ceilCharBoundary rest (index - char.utf8Size) + 1

def detectionWindow : Nat := maxDetectionInputBytes / 3

def boundedDetectionText (text : List Char) : List Char :=
  let window := detectionWindow
  let length := byteLength text
  let head := text.take (floorCharBoundary text (min window length))
  let fromMid := text.drop (ceilCharBoundary text (length / 2 - window / 2))
  let mid := fromMid.take (floorCharBoundary fromMid window)
  let tail := text.drop (ceilCharBoundary text (length - window))
  head ++ "\n[[external-content-truncated-head]]\n".toList ++ mid ++
    "\n[[external-content-truncated-tail]]\n".toList ++ tail

/-- The text that is searched. -/
def sampledText (text : List Char) : List Char :=
  if byteLength text > maxDetectionInputBytes then boundedDetectionText text else text

/-! ## Passes -/

def containsAny (text : List Char) (patterns : List (List Char)) : Bool :=
  patterns.any fun pattern => occurs pattern text

/-- Add what a search finds of each list of patterns. -/
def InjectionSignals.add (signals : InjectionSignals) (found : List (List Char) → Bool) :
    InjectionSignals :=
  { signals with
    hasInstructionOverride := signals.hasInstructionOverride || found instructionOverride
    hasPrivilegeEscalation := signals.hasPrivilegeEscalation || found privilegeEscalation
    hasSecretExfiltration := signals.hasSecretExfiltration || found secretExfiltration
    hasHighConfidenceSecretExfiltration :=
      signals.hasHighConfidenceSecretExfiltration || found highConfidenceSecretExfiltration
    hasToolJailbreak := signals.hasToolJailbreak || found toolJailbreak }

def checkReversed (normalized : List Char) (signals : InjectionSignals) : InjectionSignals :=
  signals.add (containsAny normalized.reverse)

def removeWhitespace (text : List Char) : List Char := text.filter fun ch => !isWhitespace ch

def checkSpaceless (normalized : List Char) (signals : InjectionSignals) : InjectionSignals :=
  signals.add fun patterns => containsAny (removeWhitespace normalized) (patterns.map removeWhitespace)

/-! ## Base64 segments -/

inductive Base64Engine where
  | standard
  | urlSafe
  | standardNoPad
  | urlSafeNoPad
deriving DecidableEq

def isBase64Char (ch : Char) : Bool :=
  ch.isAlphanum || ch == '+' || ch == '/' || ch == '=' || ch == '-' || ch == '_'

def isAsciiWhitespace (ch : Char) : Bool :=
  ch == ' ' || ch == '\t' || ch == '\n' || ch == '\x0C' || ch == '\r'

/-- A run that has ended, if it is long enough. -/
def finishedRun (run : List Char) : List (List Char) := if run.length ≥ 16 then [run] else []

/-- The runs of base64 characters of a text that `run` is open in front of. -/
def base64Runs (run : List Char) : List Char → List (List Char)
  | [] => finishedRun run
  | ch :: rest =>
    if isBase64Char ch then base64Runs (run ++ [ch]) rest
    else finishedRun run ++ base64Runs [] rest

/-- A run with white space inside that has ended, if it has enough base64 characters. -/
def finishedCollapsed (run : List Char) : List (List Char) :=
  let b64Chars := run.countP isBase64Char
  let separators := run.countP isAsciiWhitespace
  if b64Chars ≥ 16 ∧ separators > 0 then [run] else []

/-- The runs of base64 characters and ASCII white space that begin with the former. -/
def collapsedBase64Runs (run : List Char) : List Char → List (List Char)
  | [] => finishedCollapsed run
  | ch :: rest =>
    if isBase64Char ch then collapsedBase64Runs (run ++ [ch]) rest
    else if isAsciiWhitespace ch ∧ run ≠ [] then collapsedBase64Runs (run ++ [ch]) rest
    else finishedCollapsed run ++ collapsedBase64Runs [] rest

def extractB64Segments (text : List Char) : List (List Char) :=
  base64Runs [] text ++ collapsedBase64Runs [] text

/-- `str::from_utf8`. -/
def fromUtf8 (bytes : List UInt8) : Option (List Char) :=
  let text := Utf8.decodeLossy bytes
  if Utf8.encode text = bytes then some text else none

section Detection

variable (engine : Base64Engine → List Char → Option (List UInt8))

/-- The text in lower case that a segment decodes to. -/
def decodedSegment (segment : List Char) : Option (List Char) :=
  let segment := removeWhitespace segment
  let bytes := engine .standard segment <|> engine .urlSafe segment <|>
    engine .standardNoPad segment <|> engine .urlSafeNoPad segment
  (bytes.bind fromUtf8).map toAsciiLowercase

/-- Search the decoded segments until one of them has any injection signal. -/
def checkSegments : List (List Char) → InjectionSignals → InjectionSignals
  | [], signals => signals
  | segment :: rest, signals =>
    match decodedSegment engine segment with
    | none => checkSegments rest signals
    | some decoded =>
      let signals := signals.add (containsAny decoded)
      if signals.hasAnyInjection then signals else checkSegments rest signals

def checkBase64 (text : List Char) (signals : InjectionSignals) : InjectionSignals :=
  checkSegments engine (extractB64Segments text) signals

/-- Scan text for prompt-injection signals across multiple evasion vectors. -/
def detectInjection (text : List Char) : InjectionSignals :=
  let text := sampledText text
  let normalized := normalizeDetection text
  let signals : InjectionSignals :=
    { hasMarkerCollision := occurs openMarkerPrefix text || occurs closeMarker text
      hasInstructionOverride := containsAny normalized instructionOverride
      hasPrivilegeEscalation := containsAny normalized privilegeEscalation
      hasSecretExfiltration := containsAny normalized secretExfiltration
      hasHighConfidenceSecretExfiltration :=
        containsAny normalized highConfidenceSecretExfiltration
      hasToolJailbreak := containsAny normalized toolJailbreak }
  let signals :=
    if !signals.hasAnyInjection then checkReversed normalized signals else signals
  let signals :=
    if !signals.hasAnyInjection then checkSpaceless normalized signals else signals
  if !signals.hasAnyInjection then checkBase64 engine text signals else signals

/-- Map injection signals to a policy action. -/
def decideAction (signals : InjectionSignals) : ExternalAction :=
  if signals.hasHighConfidenceSecretExfiltration || signals.hasPrivilegeEscalation ||
      (signals.hasSecretExfiltration && signals.hasInstructionOverride) ||
      (signals.hasInstructionOverride && signals.hasToolJailbreak) then .block
  else if signals.hasMarkerCollision || signals.hasInstructionOverride ||
      signals.hasSecretExfiltration || signals.hasToolJailbreak then .sanitize
  else .allow

/-! ## Preparation -/

structure PersistedExternalSummary where
  source : List Char
  action : ExternalAction
  digestSha256 : String
  contentChars : Nat
  preview : String

structure PreparedExternalContent where
  action : ExternalAction
  modelInput : List Char
  persistedSummary : PersistedExternalSummary

def sanitizeSourceChar (ch : Char) : Char :=
  if ch.isAlphanum || ch == '-' || ch == '_' then ch.toLower else '_'

def sanitizeSource (source : List Char) : List Char :=
  let compact := Tenant.trimMatches '_' ((trim source).map sanitizeSourceChar)
  if compact.isEmpty then "external".toList else compact

/-- `str::replace` for the characters but the first `skip`, which are already replaced. -/
def replaceFrom (pattern replacement : List Char) : Nat → List Char → List Char
  | _, [] => []
  | skip + 1, _ :: rest => replaceFrom pattern replacement skip rest
  | 0, ch :: rest =>
    if pattern <+: ch :: rest then
      replacement ++ replaceFrom pattern replacement (pattern.length - 1) rest
    else ch :: replaceFrom pattern replacement 0 rest

def sanitizeMarkerCollision (text : List Char) : List Char :=
  let opened := replaceFrom openMarkerPrefix "[[external-content-collision:".toList 0 text
  replaceFrom closeMarker "[[/external-content-collision]]".toList 0 opened

/-- Wrap text in marker tags. -/
def wrapContent (source text : List Char) : List Char :=
  openMarkerPrefix ++ sanitizeSource source ++ "]]\n".toList ++ sanitizeMarkerCollision text ++
    '\n' :: closeMarker

variable (sha256 : List UInt8 → List UInt8)

/-- Build a persistence summary with the digest and the action. -/
def summarizeForPersistence (source wrapped : List Char) : PersistedExternalSummary where
  source := sanitizeSource source
  action := decideAction (detectInjection engine wrapped)
  digestSha256 := Hex.encode (sha256 (Utf8.encode wrapped))
  contentChars := wrapped.length
  preview := "content_omitted"

/-- Detect, wrap, and prepare external content for model input. -/
def prepareContent (source text : List Char) : PreparedExternalContent :=
  let action := decideAction (detectInjection engine text)
  let modelInput :=
    match action with
    | .allow => wrapContent source text
    | .sanitize => wrapContent source "[external content sanitized by policy]".toList
    | .block => wrapContent source "[external content blocked by policy]".toList
  { action
    modelInput
    persistedSummary := { summarizeForPersistence engine sha256 source modelInput with action } }

end Detection

end Asterel.ExternalContent
