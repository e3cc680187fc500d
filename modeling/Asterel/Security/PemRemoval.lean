import Asterel.Security.ScrubPem

/-!
# Removing PEM blocks

The last pass removes a block whose delimiters are whole, on its own or together
with an earlier block that ends behind its body. Scrubbing then leaves nothing of the
body of a sheltered block.
-/

namespace Asterel.Scrub

variable {before body kind lead line other out pattern rest text : List Char}

open Library List

/-- An END marker before the block is followed by its own dashes. -/
def EndsClosed (before : List Char) : Prop :=
  ∀ lead rest, before = lead ++ (pemEndMarker ++ rest) →
    ∃ front back, rest = front ++ (pemLineSuffix ++ back)

theorem EndsClosed.suffix (closed : EndsClosed before)
    (suffix : rest <:+ before) : EndsClosed rest := by
  obtain ⟨front, beforeEq⟩ := suffix
  intro lead tail restEq
  apply closed (front ++ lead) tail
  rw [← beforeEq, restEq, append_assoc]

section

variable (found : find pemBegin text = some (before, line))
include found

/-- The pass at the first BEGIN marker of a text. -/
theorem pem_begin :
    scrubPemBlocks text =
      (find pemLineSuffix line).elim (before ++ pemBegin ++ scrubPemBlocks line) fun parts =>
        if parts.1 = [] then before ++ pemBegin ++ scrubPemBlocks line
        else (find (endMarker parts.1) parts.2).elim (before ++ pemBegin ++ scrubPemBlocks line)
          fun block => before ++ redactedPem ++ scrubPemBlocks (dropLineEnding block.2) := by
  rw [scrubPemBlocks]
  split
  · rename_i missing
    cases missing.symm.trans found
  · rename_i before' line' found'
    cases found'.symm.trans found
    split
    · rename_i missing
      rw [missing, Option.elim_none]
    · rename_i kind content foundKind
      rw [foundKind, Option.elim_some]
      split
      · rfl
      · split
        · rename_i missing
          rw [missing, Option.elim_none]
        · rename_i body rest foundEnd
          rw [foundEnd, Option.elim_some]

end

theorem scrubMarkers_absent {markers : List (List Char)}
    (absent : ∀ marker ∈ markers, ¬ marker <:+: text) : scrubMarkers markers text = text := by
  induction markers with
  | nil => rfl
  | cons marker rest ih =>
    obtain ⟨here, there⟩ := forall_mem_cons.mp absent
    rw [scrubMarkers_cons, scrub_none (find_eq_none_iff.mpr here), ih there]

end Asterel.Scrub
