import Asterel.Core.SessionCompaction
import Mathlib.Tactic.Ring

/-!
# What microcompaction does to the contents

A long reply of the assistant is cut to its first 200 characters and its hot tail, and a
marker says how many characters lay between. The marker has at least 24 characters: where
fewer are cut out the content grows. A content that is still above the threshold is cut
again by the next pass, which then cuts the marker of the first one.
-/

namespace Asterel.Sessions

open Library List

/-- What stands for the characters that are cut out. -/
def pruneMarker (pruned : Nat) : List Char :=
  "[... ".toList ++ Nat.toDigits 10 pruned ++ " chars pruned ...]".toList

/-- The head of a text, the marker and the tail of the text. -/
def prunedContent (text : List Char) (hotTailChars : Nat) : List Char :=
  text.take microcompactHeadChars ++
    pruneMarker (text.length - (microcompactHeadChars + hotTailChars)) ++
    tailChars text hotTailChars

/-- Characters between the head and the tail. -/
def prunedChars (config : CompactionConfig) (message : ChatMessage) : Nat :=
  message.content.toList.length - (microcompactHeadChars + config.hotTailChars)

/-- The reply is above the threshold and has more characters than are retained. -/
structure Oversized (config : CompactionConfig) (message : ChatMessage) : Prop where
  enabled : config.enableMicrocompaction = true
  assistant : message.role = .assistant
  long : config.toolOutputPruneThreshold < message.content.toList.length
  hidden : microcompactHeadChars + config.hotTailChars < message.content.toList.length

/-- The reply with the marker is not above the threshold, or as many characters are cut out
as the marker has. -/
def Settles (config : CompactionConfig) (message : ChatMessage) : Prop :=
  prunedChars config message = 25 ∨ microcompactHeadChars + config.hotTailChars + 23 +
      (Nat.toDigits 10 (prunedChars config message)).length ≤ config.toolOutputPruneThreshold

section Marker

theorem length_pruneMarker (pruned : Nat) :
    (pruneMarker pruned).length = 23 + (Nat.toDigits 10 pruned).length := by
  have opening : "[... ".toList.length = 5 := by decide
  have closing : " chars pruned ...]".toList.length = 18 := by decide
  rw [pruneMarker, length_append, length_append, opening, closing]
  omega

theorem pruneMarker_inj {pruned other : Nat} :
    pruneMarker pruned = pruneMarker other ↔ pruned = other := by
  constructor
  · intro same
    rw [pruneMarker, pruneMarker, append_assoc, append_assoc] at same
    have digits := append_cancel_right (append_cancel_left same)
    have numbers := congrArg (fun digits => Nat.ofDigitChars 10 digits 0) digits
    simpa only [Nat.ofDigitChars_ten_toDigits] using numbers
  · exact congrArg pruneMarker

theorem add_lt_pow {exponent : Nat} (two : 2 ≤ exponent) : exponent + 24 < 10 ^ exponent := by
  obtain ⟨rest, rfl⟩ := Nat.exists_eq_add_of_le two
  have small : rest < 10 ^ rest := Nat.lt_pow_self (by decide)
  rw [pow_add]
  omega

/-- A marker is as long as what it stands for at 25 characters, and shorter above. -/
theorem length_pruneMarker_cases (pruned : Nat) :
    pruned < 25 ∧ pruned < (pruneMarker pruned).length ∨
      pruned = 25 ∧ (pruneMarker pruned).length = 25 ∨
        25 < pruned ∧ (pruneMarker pruned).length < pruned := by
  rw [length_pruneMarker]
  obtain few | rfl | many := Nat.lt_trichotomy pruned 25
  · have some : 0 < (Nat.toDigits 10 pruned).length := Nat.length_toDigits_pos
    have digits : (Nat.toDigits 10 pruned).length ≤ 1 ↔ pruned < 10 ^ 1 :=
      Nat.length_toDigits_le_iff (by decide) (by decide)
    omega
  · exact .inr (.inl ⟨rfl, by decide⟩)
  · have small : pruned < 10 ^ (pruned - 24) := by
      have bound := add_lt_pow (show 2 ≤ pruned - 24 by omega)
      omega
    have digits := (Nat.length_toDigits_le_iff (by decide) (by omega)).mpr small
    omega

theorem length_pruneMarker_le_iff {pruned : Nat} :
    (pruneMarker pruned).length ≤ pruned ↔ 25 ≤ pruned := by
  have cases := length_pruneMarker_cases pruned
  omega

theorem length_pruneMarker_eq_iff {pruned : Nat} :
    (pruneMarker pruned).length = pruned ↔ pruned = 25 := by
  have cases := length_pruneMarker_cases pruned
  omega

end Marker

section Content

variable {text : List Char} {hotTailChars : Nat}

theorem length_prunedContent (long : microcompactHeadChars + hotTailChars < text.length) :
    (prunedContent text hotTailChars).length = microcompactHeadChars + hotTailChars +
      (pruneMarker (text.length - (microcompactHeadChars + hotTailChars))).length := by
  rw [prunedContent, length_append, length_append, length_take, tailChars, length_drop]
  omega

/-- A second pass keeps the head and the tail, and its marker counts the first one. -/
theorem prunedContent_prunedContent (long : microcompactHeadChars + hotTailChars < text.length) :
    prunedContent (prunedContent text hotTailChars) hotTailChars =
      text.take microcompactHeadChars ++ pruneMarker
          (pruneMarker (text.length - (microcompactHeadChars + hotTailChars))).length ++
        tailChars text hotTailChars := by
  have length := length_prunedContent long
  have head : (text.take microcompactHeadChars).length = microcompactHeadChars := by
    rw [length_take]
    omega
  have tail : (tailChars text hotTailChars).length = hotTailChars := by
    rw [tailChars, length_drop]
    omega
  have keptHead : (prunedContent text hotTailChars).take microcompactHeadChars =
      text.take microcompactHeadChars := by
    rw [prunedContent, append_assoc, take_append_of_le_length (by omega),
      take_of_length_le (by omega)]
  have keptTail : tailChars (prunedContent text hotTailChars) hotTailChars =
      tailChars text hotTailChars := by
    have front : (prunedContent text hotTailChars).length - hotTailChars =
        (text.take microcompactHeadChars ++ pruneMarker
          (text.length - (microcompactHeadChars + hotTailChars))).length := by
      rw [length_append, length, head]
      omega
    rw [show tailChars (prunedContent text hotTailChars) hotTailChars =
      (prunedContent text hotTailChars).drop
        ((prunedContent text hotTailChars).length - hotTailChars) from rfl, front, prunedContent,
      drop_left]
  rw [show prunedContent (prunedContent text hotTailChars) hotTailChars =
    (prunedContent text hotTailChars).take microcompactHeadChars ++
      pruneMarker ((prunedContent text hotTailChars).length -
        (microcompactHeadChars + hotTailChars)) ++
      tailChars (prunedContent text hotTailChars) hotTailChars from rfl, keptHead, keptTail, length,
    Nat.add_sub_cancel_left]

/-- Every character takes a byte at least. -/
theorem length_le_utf8ByteSize (text : List Char) :
    text.length ≤ (String.ofList text).utf8ByteSize := by
  induction text with
  | nil => simp
  | cons char rest ih =>
    have byte := char.utf8Size_pos
    rw [String.ofList_cons, String.utf8ByteSize_append, String.utf8ByteSize_singleton, length_cons]
    omega

theorem pruneToolOutput_short {content : String}
    (short : content.toList.length ≤ microcompactHeadChars + hotTailChars) :
    pruneToolOutput content hotTailChars = content := by
  rw [pruneToolOutput]
  split
  · rfl
  · exact if_pos (by omega)

theorem pruneToolOutput_long {content : String}
    (long : microcompactHeadChars + hotTailChars < content.toList.length) :
    pruneToolOutput content hotTailChars =
      String.ofList (prunedContent content.toList hotTailChars) := by
  have bytes := length_le_utf8ByteSize content.toList
  rw [String.ofList_toList] at bytes
  have head : min content.toList.length microcompactHeadChars = microcompactHeadChars := by omega
  have tail : min content.toList.length hotTailChars = hotTailChars := by omega
  rw [pruneToolOutput, if_neg (by omega)]
  dsimp only
  rw [head, tail, if_neg (by omega)]
  apply String.toList_inj.mp
  simp only [String.toList_append, String.toList_ofList, Nat.toString_eq_repr, Nat.toList_repr,
    prunedContent, pruneMarker, append_assoc]

end Content

section Message

variable {config : CompactionConfig} {message : ChatMessage}

theorem microcompactMessage_oversized (oversized : Oversized config message) :
    microcompactMessage config message = { message with
      content := String.ofList (prunedContent message.content.toList config.hotTailChars) } := by
  have bytes := length_le_utf8ByteSize message.content.toList
  rw [String.ofList_toList] at bytes
  have long := oversized.long
  rw [microcompactMessage, if_neg (by simp [oversized.assistant]), if_neg (by omega),
    if_neg (by simp [long]), pruneToolOutput_long oversized.hidden]

theorem microcompactMessage_kept (enabled : config.enableMicrocompaction = true)
    (kept : ¬ Oversized config message) : microcompactMessage config message = message := by
  rw [microcompactMessage]
  dsimp only
  split
  · rfl
  · rename_i assistant
    split
    · rfl
    · split
      · rfl
      · rename_i long
        have above : config.toolOutputPruneThreshold < message.content.toList.length := by
          by_contra below
          simp [Nat.le_of_not_lt below] at long
        have short : message.content.toList.length ≤
            microcompactHeadChars + config.hotTailChars := by
          by_contra hidden
          exact kept ⟨enabled, not_not.mp assistant, above, by omega⟩
        rw [pruneToolOutput_short short]

/-- The marker makes a content longer exactly if it stands for fewer than 25 characters. -/
theorem prunedContent_length_le_iff (oversized : Oversized config message) :
    (prunedContent message.content.toList config.hotTailChars).length ≤
      message.content.toList.length ↔ 25 ≤ prunedChars config message := by
  have hidden := oversized.hidden
  rw [length_prunedContent hidden, ← length_pruneMarker_le_iff, prunedChars]
  omega

/-- A pruned content survives the next pass if it is below the threshold, or if its marker
counts as many characters as it has. -/
theorem microcompactMessage_pruned_iff (oversized : Oversized config message) :
    microcompactMessage config (microcompactMessage config message) =
      microcompactMessage config message ↔ Settles config message := by
  have hidden := oversized.hidden
  have length := length_prunedContent hidden
  have marker := length_pruneMarker (prunedChars config message)
  rw [microcompactMessage_oversized oversized]
  by_cases below : (prunedContent message.content.toList config.hotTailChars).length ≤
      config.toolOutputPruneThreshold
  · have kept : ¬ Oversized config { message with
        content := String.ofList (prunedContent message.content.toList config.hotTailChars) } := by
      intro again
      have long := again.long
      rw [String.toList_ofList] at long
      omega
    rw [microcompactMessage_kept oversized.enabled kept]
    refine iff_of_true rfl (.inr ?_)
    rw [prunedChars] at marker ⊢
    omega
  · have again : Oversized config { message with
        content := String.ofList (prunedContent message.content.toList config.hotTailChars) } := by
      refine ⟨oversized.enabled, oversized.assistant, ?_, ?_⟩
      · rw [String.toList_ofList]
        omega
      · rw [String.toList_ofList, length]
        have marked := length_pruneMarker
          (message.content.toList.length - (microcompactHeadChars + config.hotTailChars))
        omega
    have exceeds : ¬ microcompactHeadChars + config.hotTailChars + 23 +
        (Nat.toDigits 10 (prunedChars config message)).length ≤
          config.toolOutputPruneThreshold := by
      rw [prunedChars] at marker ⊢
      omega
    have settles : Settles config message ↔ prunedChars config message = 25 :=
      or_iff_left exceeds
    rw [microcompactMessage_oversized again, settles, ← length_pruneMarker_eq_iff, prunedChars,
      ← pruneMarker_inj]
    simp only [String.toList_ofList, ChatMessage.mk.injEq, true_and, and_true, String.ofList_inj]
    rw [prunedContent_prunedContent hidden, prunedContent, append_left_inj, append_right_inj]

/-- A content that settles has not become longer. -/
theorem Settles.shrinks (settles : Settles config message) (oversized : Oversized config message) :
    (prunedContent message.content.toList config.hotTailChars).length ≤
      message.content.toList.length := by
  rw [prunedContent_length_le_iff oversized]
  obtain exact | below := settles
  · omega
  · have hidden := oversized.hidden
    have long := oversized.long
    rw [← length_pruneMarker_le_iff, length_pruneMarker]
    rw [prunedChars] at below ⊢
    omega

/-- Microcompaction changes nothing but the contents of the assistant. -/
theorem microcompactMessage_keeps (config : CompactionConfig) (message : ChatMessage) :
    microcompactMessage config message =
        { message with content := (microcompactMessage config message).content } ∧
      (message.role ≠ .assistant → microcompactMessage config message = message) := by
  refine ⟨?_, fun other => if_pos other⟩
  simp only [microcompactMessage]
  split
  · rfl
  · split
    · rfl
    · split <;> rfl

end Message

section Messages

variable {config : CompactionConfig} {messages : List ChatMessage}

/-- What microcompaction is for: the messages stay, no content gets longer, and a second
pass finds nothing more to do. -/
structure OnlyShrinks (config : CompactionConfig) (messages : List ChatMessage) : Prop where
  keeps : Forall₂ (fun before after => after = { before with content := after.content } ∧
    (before.role ≠ .assistant → after = before)) messages (microcompactMessages messages config)
  shrinks : Forall₂ (fun before after : ChatMessage =>
    after.content.toList.length ≤ before.content.toList.length)
    messages (microcompactMessages messages config)
  idempotent : microcompactMessages (microcompactMessages messages config) config =
    microcompactMessages messages config

/-- Nothing happens while microcompaction is switched off. -/
theorem onlyShrinks_of_disabled (disabled : config.enableMicrocompaction = false) :
    OnlyShrinks config messages := by
  have same (contents : List ChatMessage) : microcompactMessages contents config = contents := by
    simp [microcompactMessages, disabled]
  constructor
  · rw [same]
    exact forall₂_same.mpr fun _ _ => ⟨rfl, fun _ => rfl⟩
  · rw [same]
    exact forall₂_same.mpr fun _ _ => le_rfl
  · rw [same]

/-- The effect on a list is the effect on its messages. -/
theorem onlyShrinks_of_enabled (enabled : config.enableMicrocompaction = true) :
    OnlyShrinks config messages ↔ ∀ message ∈ messages,
      (microcompactMessage config message).content.toList.length ≤ message.content.toList.length ∧
        microcompactMessage config (microcompactMessage config message) =
          microcompactMessage config message := by
  have each (contents : List ChatMessage) : microcompactMessages contents config =
      contents.map (microcompactMessage config) := if_pos enabled
  constructor
  · rintro ⟨_, shrinks, idempotent⟩ message member
    rw [each, forall₂_map_right_iff, forall₂_same] at shrinks
    rw [each, each, map_map, map_inj_left] at idempotent
    exact ⟨shrinks message member, idempotent message member⟩
  · intro settled
    constructor
    · rw [each, forall₂_map_right_iff, forall₂_same]
      exact fun message _ => microcompactMessage_keeps config message
    · rw [each, forall₂_map_right_iff, forall₂_same]
      exact fun message member => (settled message member).1
    · rw [each, each, map_map, map_inj_left]
      exact fun message member => (settled message member).2

/-- Microcompaction only shrinks exactly if every reply that it prunes settles. -/
theorem onlyShrinks_iff (config : CompactionConfig) (messages : List ChatMessage) :
    OnlyShrinks config messages ↔
      ∀ message ∈ messages, Oversized config message → Settles config message := by
  cases enabled : config.enableMicrocompaction with
  | false =>
    refine iff_of_true (onlyShrinks_of_disabled enabled) ?_
    intro message _ oversized
    have on := oversized.enabled
    rw [enabled] at on
    exact absurd on (by decide)
  | true =>
    rw [onlyShrinks_of_enabled enabled]
    refine forall₂_congr fun message _ => ?_
    by_cases oversized : Oversized config message
    · rw [microcompactMessage_pruned_iff oversized]
      constructor
      · exact fun settled _ => settled.2
      · intro settles
        refine ⟨?_, settles oversized⟩
        rw [microcompactMessage_oversized oversized, String.toList_ofList]
        exact (settles oversized).shrinks oversized
    · rw [microcompactMessage_kept enabled oversized]
      simp [microcompactMessage_kept enabled oversized, oversized]

/-- A reply of 701 characters. -/
def longReply : ChatMessage :=
  ⟨"1", "session", .assistant, String.ofList (replicate 701 'x'), none, none,
    "2026-01-01T00:00:00Z"⟩

/-- If 700 characters of it are retained, it grows to 724 characters. -/
theorem marker_outgrows_pruned_character :
    ¬ OnlyShrinks ⟨100000, 0.4, 4000, true, 600, 500, true⟩ [longReply] := by
  have length : longReply.content.toList.length = 701 := by
    rw [longReply, String.toList_ofList, length_replicate]
  have long : 600 < longReply.content.toList.length := by omega
  have hidden : 200 + 500 < longReply.content.toList.length := by omega
  have oversized : Oversized ⟨100000, 0.4, 4000, true, 600, 500, true⟩ longReply :=
    ⟨rfl, rfl, long, hidden⟩
  intro shrinks
  have shorter := (onlyShrinks_of_enabled rfl).mp shrinks longReply (mem_singleton_self _)
  rw [microcompactMessage_oversized oversized, String.toList_ofList,
    prunedContent_length_le_iff oversized, prunedChars, length] at shorter
  exact absurd shorter.1 (by decide)

end Messages

end Asterel.Sessions
