import Asterel.Library.Search

/-!
# Replacing parts of a text

A text is rewritten by replacing disjoint parts of it. A pattern that cannot
touch the new parts occurs in the rewritten text only where it occurred before,
and a second rewriting which leaves the new parts whole is again a rewriting of
the first text.
-/

namespace Library

open List

universe u

variable {α : Type u}

/-- A part of a rewritten text: one left as it is, or one replaced. -/
inductive Fragment (α : Type u) where
  | kept (text : List α)
  | replaced (old new : List α)

def Fragment.old : Fragment α → List α
  | .kept text => text
  | .replaced old _ => old

def Fragment.new : Fragment α → List α
  | .kept text => text
  | .replaced _ new => new

/-- The second text is the first one with disjoint parts replaced from the left
to the right, each by one of its allowed replacements. -/
inductive Rewrites (change : List α → List α → Prop) : List α → List α → Prop where
  | same (text : List α) : Rewrites change text text
  | replace (before : List α) {old new rest out : List α} (allowed : change old new)
      (later : Rewrites change rest out) :
      Rewrites change (before ++ old ++ rest) (before ++ new ++ out)

namespace Rewrites

variable {change : List α → List α → Prop}
variable {back front out pattern text : List α} {change' : List α → List α → Prop}

theorem prepend (front : List α) (rewrites : Rewrites change text out) :
    Rewrites change (front ++ text) (front ++ out) := by
  cases rewrites with
  | same => exact .same _
  | replace before allowed later =>
    have joined := Rewrites.replace (front ++ before) allowed later
    simpa only [append_assoc] using joined

theorem append {text' out' : List α} (first : Rewrites change text out)
    (second : Rewrites change text' out') : Rewrites change (text ++ text') (out ++ out') := by
  induction first with
  | same text => exact second.prepend text
  | replace before allowed later ih =>
    have joined := Rewrites.replace before allowed ih
    simpa only [append_assoc] using joined

theorem weaken (implies : ∀ old new, change old new → change' old new)
    (rewrites : Rewrites change text out) : Rewrites change' text out := by
  induction rewrites with
  | same text => exact .same text
  | replace before allowed later ih =>
    exact .replace before (implies _ _ allowed) ih

/-- A rewritten text in parts. -/
theorem exists_parts (rewrites : Rewrites change text out) :
    ∃ parts : List (Fragment α), parts.flatMap Fragment.old = text ∧ parts.flatMap Fragment.new = out ∧
      ∀ old new, Fragment.replaced old new ∈ parts → change old new := by
  induction rewrites with
  | same text => exact ⟨[.kept text], by simp [Fragment.old], by simp [Fragment.new], by simp⟩
  | @replace before old new rest out allowed later ih =>
    obtain ⟨parts, olds, news, changes⟩ := ih
    refine ⟨.kept before :: .replaced old new :: parts, ?_, ?_, ?_⟩
    · simp [Fragment.old, olds]
    · simp [Fragment.new, news]
    · intro old' new' member
      rcases mem_cons.mp member with same | member
      · cases same
      · rcases mem_cons.mp member with same | member
        · cases same
          exact allowed
        · exact changes old' new' member

/-- The pattern touches no occurrence of the new part. -/
def Apart (pattern new : List α) : Prop :=
  ∀ before after, pattern <:+: before ++ new ++ after → pattern <:+: before ∨ pattern <:+: after

theorem infix_around {mark : α} (absent : mark ∉ pattern)
    (occurs : pattern <:+: front ++ mark :: back) : pattern <:+: front ∨ pattern <:+: back := by
  obtain ⟨lead, tail, whole⟩ := occurs
  rcases occurs_beside absent whole.symm with ⟨gap, frontEq, _⟩ | ⟨gap, backEq⟩
  · left
    exact ⟨lead, gap, frontEq.symm⟩
  · right
    exact ⟨gap, tail, backEq.symm⟩

/-- A pattern without the two delimiters of a new part touches it only inside. -/
theorem apart_delimited (inner : List α) {left right : α} (noLeft : left ∉ pattern)
    (noRight : right ∉ pattern) (outer : ¬ pattern <:+: inner) :
    Apart pattern (left :: (inner ++ [right])) := by
  intro before after occurs
  have layout : before ++ left :: (inner ++ [right]) ++ after =
      before ++ left :: (inner ++ right :: after) := by simp
  rw [layout] at occurs
  rcases infix_around noLeft occurs with front | back
  · exact Or.inl front
  · rcases infix_around noRight back with inside | behind
    · exact absurd inside outer
    · exact Or.inr behind

/-- A pattern is apart from a new part if neither lies in the other and no edge of the new
part is an edge of the pattern. -/
theorem apart_of_edges {new : List α} (outer : ¬ pattern <:+: new) (inner : ¬ new <:+: pattern)
    (fronts : ∀ part ∈ new.inits, part ≠ [] → ¬ part <:+ pattern)
    (backs : ∀ part ∈ new.tails, part ≠ [] → ¬ part <+: pattern) : Apart pattern new := by
  rintro before after ⟨lead, tail, whole⟩
  rw [append_assoc, append_assoc, append_eq_append_iff] at whole
  rcases whole with ⟨gap, beforeEq, restEq⟩ | ⟨gap, _, restEq⟩
  · rcases append_eq_append_iff.mp restEq with ⟨gap', gapEq, _⟩ | ⟨shared, patternEq, restEq⟩
    · left
      exact ⟨lead, gap', by simp [beforeEq, gapEq]⟩
    · rcases append_eq_append_iff.mp restEq with ⟨gap', sharedEq, _⟩ | ⟨gap', newEq, _⟩
      · exact absurd ⟨gap, gap', by simp [patternEq, sharedEq]⟩ inner
      · by_cases empty : shared = []
        · left
          exact ⟨lead, [], by simp [beforeEq, patternEq, empty]⟩
        · have front : shared ∈ new.inits := (mem_inits _ _).mpr ⟨gap', newEq.symm⟩
          exact absurd ⟨gap, patternEq.symm⟩ (fronts shared front empty)
  · rcases append_eq_append_iff.mp restEq with ⟨gap', _, afterEq⟩ | ⟨shared, newEq, restEq⟩
    · right
      exact ⟨gap', tail, by simp [afterEq]⟩
    · rcases append_eq_append_iff.mp restEq with ⟨gap', sharedEq, _⟩ | ⟨gap', patternEq, afterEq⟩
      · exact absurd ⟨gap, gap', by simp [newEq, sharedEq]⟩ outer
      · by_cases empty : shared = []
        · right
          exact ⟨[], tail, by simp [patternEq, afterEq, empty]⟩
        · have back : shared ∈ new.tails := (mem_tails _ _).mpr ⟨gap, newEq.symm⟩
          exact absurd ⟨gap', patternEq.symm⟩ (backs shared back empty)

/-- A pattern apart from the new parts occurs only where it occurred before. -/
theorem occurs_of_rewritten (rewrites : Rewrites change text out)
    (apart : ∀ old new, change old new → Apart pattern new) (occurs : pattern <:+: out) :
    pattern <:+: text := by
  induction rewrites with
  | same text => exact occurs
  | @replace before old new rest out allowed later ih =>
    rcases apart old new allowed before out occurs with front | back
    · exact front.trans ⟨[], old ++ rest, by simp⟩
    · exact (ih back).trans ⟨before ++ old, [], by simp⟩

/-- A rewritten text ends in a pattern without the last symbol of the new parts
only if the text did. -/
theorem suffix_of_suffix (rewrites : Rewrites change text out)
    (closed : ∀ old new, change old new → ∃ front last, new = front ++ [last] ∧ last ∉ pattern)
    (ends : pattern <:+ out) : pattern <:+ text := by
  induction rewrites with
  | same text => exact ends
  | @replace before old new rest out allowed later ih =>
    obtain ⟨front, last, same, absent⟩ := closed old new allowed
    have tail : out <:+ before ++ new ++ out := suffix_append _ _
    rcases suffix_or_suffix_of_suffix ends tail with short | long
    · exact (ih short).trans (suffix_append _ _)
    · obtain ⟨extra, joined⟩ := long
      cases extra using reverseRecOn with
      | nil =>
        have whole : pattern <:+ out := joined ▸ suffix_refl _
        exact (ih whole).trans (suffix_append _ _)
      | append_singleton others symbol =>
        obtain ⟨lead, whole⟩ := ends
        rw [← joined, same] at whole
        have equal : lead ++ others ++ [symbol] = before ++ front ++ [last] := by
          have cut : (lead ++ others ++ [symbol]) ++ out = (before ++ front ++ [last]) ++ out := by
            simpa only [append_assoc] using whole
          exact append_cancel_right cut
        have symbolLast : symbol = last := singleton_inj.mp (append_inj' equal rfl).2
        have member : symbol ∈ pattern := by
          rw [← joined]
          simp
        exact absurd (symbolLast ▸ member) absent

/-- A rewritten text begins with a pattern without the first symbol of the new parts
only if the text did. -/
theorem prefix_of_prefix (rewrites : Rewrites change text out)
    (opened : ∀ old new, change old new → ∃ first back, new = first :: back ∧ first ∉ pattern)
    (begins : pattern <+: out) : pattern <+: text := by
  cases rewrites with
  | same text => exact begins
  | @replace before old new rest out allowed later =>
    obtain ⟨first, back, same, absent⟩ := opened old new allowed
    have front : before <+: before ++ new ++ out :=
      (prefix_append _ _).trans (prefix_append _ _)
    rcases prefix_or_prefix_of_prefix begins front with short | long
    · rw [append_assoc]
      exact short.trans (prefix_append _ _)
    · obtain ⟨extra, joined⟩ := long
      cases extra with
      | nil =>
        rw [← joined, append_nil, append_assoc]
        exact prefix_append _ _
      | cons symbol others =>
        obtain ⟨tail, whole⟩ := begins
        rw [← joined, same, append_assoc, append_assoc] at whole
        have symbolFirst : symbol = first := (List.cons.inj (append_cancel_left whole)).1
        have member : symbol ∈ pattern := by
          rw [← joined]
          simp
        exact absurd (symbolFirst ▸ member) absent

/-- No new part lies across the boundary between two texts. -/
def Uncut (change : List α → List α → Prop) (front back : List α) : Prop :=
  ∀ old first second, change old (first ++ second) → first ≠ [] → second ≠ [] →
    first <:+ front → ¬ second <+: back

/-- A rewritten text cut at a boundary comes from a text cut into two. -/
theorem split (rewrites : Rewrites change text (front ++ back)) (uncut : Uncut change front back) :
    ∃ front' back', text = front' ++ back' ∧ Rewrites change front' front ∧
      Rewrites change back' back := by
  generalize whole : front ++ back = out at rewrites
  induction rewrites generalizing front with
  | same text => exact ⟨front, back, whole.symm, .same _, .same _⟩
  | @replace before old new rest out allowed later ih =>
    rw [append_assoc, append_eq_append_iff] at whole
    rcases whole with ⟨gap, beforeEq, backEq⟩ | ⟨gap, frontEq, newEq⟩
    · refine ⟨front, gap ++ old ++ rest, by simp [beforeEq], .same _, ?_⟩
      rw [backEq, ← append_assoc]
      exact .replace gap allowed later
    · rw [append_eq_append_iff] at newEq
      rcases newEq with ⟨gap', gapEq, outEq⟩ | ⟨gap', newSplit, backEq⟩
      · have uncut' : Uncut change gap' back := by
          intro old' first second change' some some' ends
          refine uncut old' first second change' some some' (ends.trans ?_)
          exact ⟨before ++ new, by simp [frontEq, gapEq]⟩
        obtain ⟨front', back', restEq, frontRewrites, backRewrites⟩ :=
          ih uncut' outEq.symm
        refine ⟨before ++ old ++ front', back', by simp [restEq], ?_, backRewrites⟩
        have joined := Rewrites.replace before allowed frontRewrites
        rw [frontEq, gapEq]
        simpa only [append_assoc] using joined
      · by_cases noFirst : gap = []
        · refine ⟨before, old ++ rest, by simp, ?_, ?_⟩
          · rw [frontEq, noFirst, append_nil]
            exact .same _
          · have joined := Rewrites.replace [] allowed later
            have backNew : back = [] ++ new ++ out := by simp [backEq, newSplit, noFirst]
            rw [backNew]
            exact joined
        · by_cases noSecond : gap' = []
          · refine ⟨before ++ old, rest, by simp, ?_, ?_⟩
            · have joined := Rewrites.replace before allowed (.same [])
              have frontNew : front = before ++ new ++ [] := by simp [frontEq, newSplit, noSecond]
              rw [frontNew]
              simpa only [append_nil] using joined
            · rw [backEq, noSecond]
              exact later
          · have cutting := uncut old gap gap' (newSplit ▸ allowed) noFirst noSecond
              (frontEq ▸ suffix_append _ _)
            exact absurd (backEq ▸ prefix_append _ _) cutting

/-- A second rewriting whose old parts have whole new parts at their ends rewrites
the first text. -/
theorem trans {middle : List α}
    (first : Rewrites change text middle) (second : Rewrites change' middle out)
    (starts : ∀ old new before after, change' old new → Uncut change before (old ++ after))
    (ends : ∀ old new after, change' old new → Uncut change old after) :
    Rewrites (fun old new => change old new ∨ ∃ inner, change' inner new) text out := by
  induction second generalizing text with
  | same middle => exact first.weaken fun old new allowed => Or.inl allowed
  | @replace before old new rest out allowed later ih =>
    rw [append_assoc] at first
    obtain ⟨front, back, textEq, frontRewrites, backRewrites⟩ :=
      first.split (starts old new before rest allowed)
    obtain ⟨inner, tail, backEq, innerRewrites, tailRewrites⟩ :=
      backRewrites.split (ends old new rest allowed)
    have frontOut : Rewrites (fun old new => change old new ∨ ∃ inner, change' inner new)
        front before := frontRewrites.weaken fun old new allowed => Or.inl allowed
    have innerChange : change inner new ∨ ∃ other, change' other new := Or.inr ⟨old, allowed⟩
    have joined := frontOut.append (.replace [] innerChange (ih tailRewrites))
    have textParts : text = front ++ ([] ++ inner ++ tail) := by simp [textEq, backEq]
    rw [textParts]
    simpa only [append_assoc, nil_append] using joined

end Rewrites

section Occurrences

variable [DecidableEq α] {pattern new text out : List α}

/-- The second text is the first one with every occurrence of a pattern replaced, from the
left and without overlap. -/
inductive ReplacedAll (pattern new : List α) : List α → List α → Prop where
  | absent {text : List α} (absent : ¬ pattern <:+: text) : ReplacedAll pattern new text text
  | first {text before rest out : List α} (found : find pattern text = some (before, rest))
      (later : ReplacedAll pattern new rest out) :
      ReplacedAll pattern new text (before ++ new ++ out)

namespace ReplacedAll

theorem rewrites (replaced : ReplacedAll pattern new text out) :
    Rewrites (fun old new' => old = pattern ∧ new' = new) text out := by
  induction replaced with
  | absent => exact .same _
  | first found later ih =>
    rw [find_eq_some found]
    exact .replace _ ⟨rfl, rfl⟩ ih

/-- No occurrence remains when the new part is apart from the pattern. -/
theorem not_occurs (some : pattern ≠ []) (apart : Rewrites.Apart pattern new)
    (replaced : ReplacedAll pattern new text out) : ¬ pattern <:+: out := by
  induction replaced with
  | absent absent => exact absent
  | @first text before rest out found later ih =>
    intro occurs
    rcases apart before out occurs with ⟨lead, gap, whole⟩ | behind
    · have early : text = lead ++ pattern ++ (gap ++ pattern ++ rest) := by
        rw [find_eq_some found, ← whole]
        simp only [append_assoc]
      have shorter := find_first found early
      have positive : 0 < pattern.length := length_pos_iff.mpr some
      have lengths := congrArg List.length whole
      simp only [length_append] at lengths
      omega
    · exact ih behind

end ReplacedAll

end Occurrences

section Places

/-- The pattern stands at the start of the text and nowhere else. -/
def OnlyAtStart (pattern text : List α) : Prop :=
  pattern <+: text ∧ ∀ before after, text = before ++ pattern ++ after → before = []

/-- The pattern stands at the end of the text and nowhere else. -/
def OnlyAtEnd (pattern text : List α) : Prop :=
  pattern <:+ text ∧ ∀ before after, text = before ++ pattern ++ after → after = []

theorem onlyAtStart_of {first : α} {others rest : List α}
    (later : ¬ first :: others <:+: others ++ rest) :
    OnlyAtStart (first :: others) (first :: others ++ rest) := by
  refine ⟨prefix_append _ _, fun before after whole => ?_⟩
  cases before with
  | nil => rfl
  | cons symbol before =>
    have behind : others ++ rest = before ++ (first :: others) ++ after := (List.cons.inj whole).2
    exact absurd ⟨before, after, behind.symm⟩ later

theorem onlyAtEnd_of {last : α} {front others : List α}
    (earlier : ¬ others ++ [last] <:+: front ++ others) :
    OnlyAtEnd (others ++ [last]) (front ++ (others ++ [last])) := by
  refine ⟨suffix_append _ _, fun before after whole => ?_⟩
  cases after using reverseRecOn with
  | nil => rfl
  | append_singleton after symbol =>
    rw [← append_assoc, ← append_assoc] at whole
    have ahead : front ++ others = before ++ (others ++ [last]) ++ after :=
      append_inj_left' whole rfl
    exact absurd ⟨before, after, ahead.symm⟩ earlier

end Places

end Library
