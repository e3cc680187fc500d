import Asterel.Core.SessionCompaction

/-!
# Internal prompt blocks

A model may echo the blocks of its own prompt. A block begins with a header line and
runs to a blank line, and `strip_internal_prompt_blocks` removes the blocks of a text.
-/

namespace Asterel.InternalPrompt

open Library Library.Text Sessions

/-- `INTERNAL_PROMPT_BLOCK_PREFIXES`. -/
def blockPrefixes : List String :=
  ["[Integrated Model]", "[Cognitive Scaffolding]", "[Attention Focus]", "[User Model]",
    "[Relationship Context]", "[User Profile]", "[User Knowledge]", "[Response Baseline]",
    "[Response Mode]", "[Decision Core]", "[Session Control]", "[Affect Topology]",
    "[Desire Objective]", "[Taste Contract]", "[Taste contract]", "[Value Guidance]",
    "[Style profile guidance]", "[Personality Guidance]", "[Pending Follow-ups]",
    "[Curiosity Signal]", "[Counterfactual]", "[Self-Contract]", "[Self-Model Shadow]",
    "[World Model]", "[Narrative Deltas]", "[Self-Narrative]", "[Memory context]",
    "[Untrusted content]", "[Detected Links]", "[History]",
    "## Companion State (restored after compaction)", "[Conversation state]", "[Fact ledger]",
    "[Runtime metadata]", "[A2A Provenance]", "[A2A Context]", "[Channel Style]",
    "[Surface Realization]", "[Past Experiences]", "[Distilled Principles]",
    "[Companion Memory Graph]", "[Behavior Selection]", "[Delegation Handoff]",
    "[Extension Contract]", "## Available Skills", "### Working Memory Focus", "[GPE Strategy]",
    "[Current Mood]", "[Affect Cause]", "[Affect Guidance", "[Reasoning:"]

/-- `is_internal_prompt_block_header`. -/
def isInternalPromptBlockHeader (trimmedLine : List Char) : Bool :=
  blockPrefixes.any fun mark => mark.toList.isPrefixOf trimmedLine

/-- The local variables of the loop in `strip_internal_prompt_blocks`. -/
structure Skipping where
  skippingBlock : Bool
  skippedBlockContent : Bool
deriving DecidableEq

/-- What the loop does with a line: whether it is kept, and the variables behind it. -/
def skipLine (state : Skipping) (line : List Char) : Bool × Skipping :=
  let trimmed := trim line
  if isInternalPromptBlockHeader trimmed then (false, ⟨true, false⟩)
  else if state.skippingBlock then
    if trimmed = [] && state.skippedBlockContent then (false, ⟨false, false⟩)
    else if trimmed ≠ [] then (false, { state with skippedBlockContent := true })
    else (false, state)
  else (true, state)

/-- For each line, whether it is kept. -/
def keptFlags : Skipping → List (List Char) → List Bool
  | _, [] => []
  | state, line :: rest => (skipLine state line).1 :: keptFlags (skipLine state line).2 rest

/-- The lines that are kept, joined by line feeds; there is none in front of the first
line that is not empty. -/
def joinLines (output : List Char) : List (List Char) → List Char
  | [] => output
  | line :: rest => joinLines ((if output = [] then [] else output ++ ['\n']) ++ line) rest

def keptLines (text : List Char) : List (List Char) :=
  (((lines text).zip (keptFlags ⟨false, false⟩ (lines text))).filter fun entry => entry.2).map
    fun entry => entry.1

/-- `strip_internal_prompt_blocks`. -/
def stripInternalPromptBlocks (text : List Char) : List Char := joinLines [] (keptLines text)

end Asterel.InternalPrompt
