import Asterel.Utils.Reasoning

/-!
# Which texts keep their reasoning hidden

The scanner enters code at a backtick marker that is never closed, and from there
on it pushes tags and blocks as they stand. It counts the closing tags without
their names, and it does not look at the text it joins by removing a block. Apart
from these three it hides every block, and its output holds no tag.
-/

namespace Asterel.Reasoning

variable {char : Char} {after body text : List Char} {before rest segments : List Segment}
  {depth : Nat} {segment : Segment} {span : Span}

open Library List

/-- No text stands inside a block at a place where the tags, counted without
their names, leave no block open. -/
def NamesMatch (segments : List Segment) : Prop :=
  ∀ before segment after, segments = before ++ segment :: after →
    before.any Segment.isUnbalanced = false → segment.isTag = false →
      inside before segment after → 0 < depthBehind before

/-- No tag stands behind an unbalanced marker that is met outside the blocks. -/
def NoTagBehindUnbalanced (segments : List Segment) : Prop :=
  ∀ before span after, segments = before ++ .unbalanced span :: after →
    before.any Segment.isUnbalanced = false → depthBehind before = 0 →
      ∀ segment ∈ after, segment.isTag = false

/-- No characters spell a tag. -/
def NoTagSpelt (segments : List Segment) : Prop :=
  ∀ before char after, segments = before ++ .plain char :: after →
    tagAt (char :: textOf after) = none

/-- No empty span stands directly before a backtick. -/
def NoFenceJoined (segments : List Segment) : Prop :=
  ∀ before after, segments = before ++ .code .inline [] :: after →
    ¬ Span.inline.marker <+: textOf after

theorem depthBehind_concat (before : List Segment) (segment : Segment) :
    depthBehind (before ++ [segment]) = segment.depthAfter (depthBehind before) := by
  simp [depthBehind]

theorem shown_cons (balanced : segment.isUnbalanced = false) (rest : List Segment) :
    shown depth (segment :: rest) =
      (segment, !segment.isTag && depth == 0) :: shown (segment.depthAfter depth) rest := by
  cases segment with
  | unbalanced span => cases balanced
  | tag tag text => simp [shown, Segment.isTag, Segment.depthAfter]
  | code span body => simp [shown, Segment.isTag, Segment.depthAfter]
  | plain char => simp [shown, Segment.isTag, Segment.depthAfter]

theorem text_pos (noTag : segment.isTag = false) :
    0 < segment.text.length := by
  cases segment with
  | tag tag text => cases noTag
  | code span body =>
    have positive := marker_pos span
    simp only [Segment.text, length_append]
    omega
  | unbalanced span => exact marker_pos span
  | plain char => exact Nat.one_pos

theorem closes_tagFree {name : TagName} {nested : Nat}
    (free : ∀ segment ∈ segments, segment.isTag = false) : closes name nested segments = false := by
  induction segments with
  | nil => rfl
  | cons segment rest ih =>
    obtain ⟨here, there⟩ := forall_mem_cons.mp free
    cases segment with
    | tag tag text => cases here
    | code span body => exact ih there
    | unbalanced span => exact ih there
    | plain char => exact ih there

theorem inside_tagFree {after : List Segment}
    (free : ∀ part ∈ after, part.isTag = false) : inside before segment after = false := by
  simp [inside, inBlock, closes_tagFree free]

theorem insideFrom_tagFree
    (free : ∀ segment ∈ segments, segment.isTag = false) (before : List Segment) :
    ∀ within ∈ insideFrom before segments, within = false := by
  induction segments generalizing before with
  | nil => simp [insideFrom]
  | cons segment rest ih =>
    obtain ⟨_, there⟩ := forall_mem_cons.mp free
    intro within member
    rcases mem_append.mp member with here | later
    · have same := (mem_replicate.mp here).2
      rw [same, inside_tagFree there]
    · exact ih there _ within later

theorem length_insideFrom (before segments : List Segment) :
    (insideFrom before segments).length = (textOf segments).length := by
  induction segments generalizing before with
  | nil => rfl
  | cons segment rest ih =>
    simp [insideFrom, textOf, ih (before ++ [segment])]

theorem flagsOf_same (flag : Bool) (segments : List Segment) :
    flagsOf (segments.map fun segment => (segment, flag)) =
      replicate (textOf segments).length flag := by
  induction segments with
  | nil => rfl
  | cons segment rest ih =>
    have restSame : (rest.map fun segment => (segment, flag)).flatMap
        (fun part => replicate part.1.text.length part.2) =
          replicate (textOf rest).length flag := ih
    simp only [flagsOf, map_cons, flatMap_cons, restSame, textOf, length_append, replicate_add]

theorem exists_span (unbalanced : segment.isUnbalanced = true) :
    ∃ span, segment = .unbalanced span := by
  cases segment with
  | unbalanced span => exact ⟨span, rfl⟩
  | tag tag text => cases unbalanced
  | code span body => cases unbalanced
  | plain char => cases unbalanced

/-- The flags fit when nothing lies inside a block or nothing is pushed. -/
theorem forall₂_of_left {withins pushes : List Bool} (same : withins.length = pushes.length)
    (none : ∀ within ∈ withins, within = false) :
    Forall₂ (fun within pushed => within = true → pushed = false) withins pushes := by
  refine forall₂_iff_zip.mpr ⟨same, fun {within pushed} member isInside => ?_⟩
  have outside := none within (of_mem_zip member).1
  rw [outside] at isInside
  cases isInside

theorem forall₂_replicate {within pushed : Bool} (fits : within = true → pushed = false)
    (count : Nat) :
    Forall₂ (fun within pushed => within = true → pushed = false)
      (replicate count within) (replicate count pushed) := by
  induction count with
  | zero => exact .nil
  | succ count ih => exact .cons fits ih

/-- What the two conditions hide, from any place in front of the first
unbalanced marker. -/
theorem hidden_from (split : segments = before ++ rest)
    (balanced : before.any Segment.isUnbalanced = false) (names : NamesMatch segments)
    (behind : NoTagBehindUnbalanced segments) :
    Forall₂ (fun within pushed => within = true → pushed = false)
      (insideFrom before rest) (flagsOf (shown (depthBehind before) rest)) := by
  induction rest generalizing before with
  | nil => exact .nil
  | cons segment rest ih =>
    have split' : segments = (before ++ [segment]) ++ rest := by simp [split]
    cases kind : segment.isUnbalanced with
    | true =>
      obtain ⟨span, rfl⟩ := exists_span kind
      have flags : flagsOf (shown (depthBehind before) (.unbalanced span :: rest)) =
          replicate (textOf (.unbalanced span :: rest)).length
            (depthBehind before == 0) :=
        flagsOf_same _ (.unbalanced span :: rest)
      rw [flags]
      by_cases outside : depthBehind before = 0
      · -- no block is closed behind the marker
        have free : ∀ part ∈ Segment.unbalanced span :: rest, part.isTag = false :=
          forall_mem_cons.mpr ⟨rfl, behind before span rest split balanced outside⟩
        exact forall₂_of_left (by simp [length_insideFrom]) (insideFrom_tagFree free before)
      · refine forall₂_iff_zip.mpr ⟨by simp [length_insideFrom], ?_⟩
        intro within pushed member _
        rw [(mem_replicate.mp (of_mem_zip member).2).2]
        simpa using outside
    | false =>
      have flags : flagsOf (shown (depthBehind before) (segment :: rest)) =
          replicate segment.text.length (!segment.isTag && depthBehind before == 0) ++
            flagsOf (shown (depthBehind (before ++ [segment])) rest) := by
        rw [shown_cons kind, depthBehind_concat]
        rfl
      rw [flags]
      refine rel_append (forall₂_replicate ?_ _) (ih split' ?_)
      · intro within
        cases isTag : segment.isTag with
        | true => rfl
        | false =>
          have positive := names before segment rest split balanced isTag within
          simpa using Nat.ne_of_gt positive
      · simp [balanced, kind]

/-- Conversely, text inside a block stands at a positive depth if it is hidden. -/
theorem depth_of_hidden {middle after : List Segment}
    (hidden : Forall₂ (fun within pushed => within = true → pushed = false)
      (insideFrom before (middle ++ segment :: after))
      (flagsOf (shown (depthBehind before) (middle ++ segment :: after))))
    (balanced : middle.any Segment.isUnbalanced = false) (noTag : segment.isTag = false)
    (within : inside (before ++ middle) segment after) : 0 < depthBehind (before ++ middle) := by
  induction middle generalizing before with
  | nil =>
    rw [append_nil] at within ⊢
    obtain ⟨count, size⟩ := Nat.exists_eq_succ_of_ne_zero (Nat.ne_of_gt (text_pos noTag))
    have flags : ∃ others, flagsOf (shown (depthBehind before) (segment :: after)) =
        (depthBehind before == 0) :: others := by
      cases kind : segment.isUnbalanced with
      | false =>
        rw [shown_cons kind]
        simp [flagsOf, size, noTag, replicate_succ]
      | true =>
        cases segment with
        | tag tag text => cases kind
        | code span body => cases kind
        | plain char => cases kind
        | unbalanced span => simp [shown, flagsOf, size, replicate_succ]
    obtain ⟨others, flags⟩ := flags
    have inner : insideFrom before (segment :: after) =
        true :: (replicate count true ++ insideFrom (before ++ [segment]) after) := by
      rw [insideFrom, within, size, replicate_succ]
      rfl
    rw [nil_append, flags, inner] at hidden
    have notPushed := (forall₂_cons.mp hidden).1 rfl
    exact Nat.pos_of_ne_zero (by simpa using notPushed)
  | cons first rest ih =>
    have kind : first.isUnbalanced = false := by
      simp only [any_cons, Bool.or_eq_false_iff] at balanced
      exact balanced.1
    have restBalanced : rest.any Segment.isUnbalanced = false := by
      simp only [any_cons, Bool.or_eq_false_iff] at balanced
      exact balanced.2
    have moved : before ++ first :: rest = (before ++ [first]) ++ rest := by simp
    rw [moved] at within ⊢
    refine ih ?_ restBalanced within
    have flags : flagsOf (shown (depthBehind before) (first :: (rest ++ segment :: after))) =
        replicate first.text.length (!first.isTag && depthBehind before == 0) ++
          flagsOf (shown (depthBehind (before ++ [first])) (rest ++ segment :: after)) := by
      rw [shown_cons kind, depthBehind_concat]
      rfl
    rw [cons_append, flags] at hidden
    have later := forall₂_drop_append _ _ _ hidden
    rw [insideFrom, length_replicate] at later
    rwa [drop_left' (length_replicate)] at later

/-! ## What the output reads as -/

@[simp] theorem textOf_nil : textOf [] = [] := rfl

@[simp] theorem textOf_cons (segment : Segment) (rest : List Segment) :
    textOf (segment :: rest) = segment.text ++ textOf rest := rfl

theorem noTagSpelt_cons :
    NoTagSpelt (segment :: rest) ↔
      (∀ char, segment = .plain char → tagAt (char :: textOf rest) = none) ∧ NoTagSpelt rest := by
  constructor
  · intro spelt
    constructor
    · intro char same
      exact spelt [] char rest (congrArg (· :: rest) same)
    · intro before char after split
      exact spelt (segment :: before) char after (congrArg (segment :: ·) split)
  · rintro ⟨here, there⟩ before char after split
    cases before with
    | nil =>
      obtain ⟨same, others⟩ := List.cons.inj split
      exact others ▸ here char same
    | cons first before => exact there before char after (List.cons.inj split).2

theorem noFenceJoined_cons :
    NoFenceJoined (segment :: rest) ↔
      (segment = .code .inline [] → ¬ Span.inline.marker <+: textOf rest) ∧ NoFenceJoined rest := by
  constructor
  · intro joined
    constructor
    · intro same
      exact joined [] rest (congrArg (· :: rest) same)
    · intro before after split
      exact joined (segment :: before) after (congrArg (segment :: ·) split)
  · rintro ⟨here, there⟩ before after split
    cases before with
    | nil =>
      obtain ⟨same, others⟩ := List.cons.inj split
      exact others ▸ here same
    | cons first before => exact there before after (List.cons.inj split).2

theorem kept_cons (balanced : segment.isUnbalanced = false) (rest : List Segment) :
    kept depth (segment :: rest) =
      if !segment.isTag && depth == 0 then segment :: kept (segment.depthAfter depth) rest
      else kept (segment.depthAfter depth) rest := by
  rw [kept, shown_cons balanced]
  cases visible : !segment.isTag && depth == 0 with
  | true => simp [kept]
  | false => simp [kept]

theorem kept_unbalanced (depth : Nat) (span : Span) (rest : List Segment) :
    kept depth (.unbalanced span :: rest) = if depth = 0 then .unbalanced span :: rest else [] := by
  by_cases outside : depth = 0
  · simp [kept, shown, outside, filter_map, Function.comp_def]
  · simp [kept, shown, outside, filter_map, Function.comp_def]

/-- The reading of a text that begins with a marker. -/
theorem read_span (begins : spanAt text = some span) :
    read text = (find span.marker (text.drop span.marker.length)).elim
      (.unbalanced span :: read (text.drop span.marker.length))
      fun parts => .code span parts.1 :: read parts.2 := by
  cases text with
  | nil => cases begins
  | cons char rest =>
    rw [read]
    split
    · rename_i other otherBegins
      cases otherBegins.symm.trans begins
      split
      · rename_i found
        rw [found, Option.elim_some]
      · rename_i missing
        rw [missing, Option.elim_none]
    · rename_i missing
      cases missing.symm.trans begins

/-- The reading of a text that begins with no marker. -/
theorem read_noSpan {rest : List Char} (noSpan : spanAt (char :: rest) = none) :
    read (char :: rest) = (tagAt (char :: rest)).elim (.plain char :: read rest) fun tag =>
      .tag tag ((char :: rest).take tag.text.length) ::
        read ((char :: rest).drop tag.text.length) := by
  rw [read]
  split
  · rename_i other begins
    cases noSpan.symm.trans begins
  · split
    · rename_i begins
      rw [begins, Option.elim_some]
    · rename_i missing
      rw [missing, Option.elim_none]

theorem read_code (begins : spanAt text = some span)
    (found : find span.marker (text.drop span.marker.length) = some (body, after)) :
    read text = .code span body :: read after := by
  rw [read_span begins, found, Option.elim_some]

theorem read_unbalanced (begins : spanAt text = some span)
    (missing : find span.marker (text.drop span.marker.length) = none) :
    read text = .unbalanced span :: read (text.drop span.marker.length) := by
  rw [read_span begins, missing, Option.elim_none]

theorem read_tag {tag : Tag} (nonempty : text ≠ []) (noSpan : spanAt text = none)
    (begins : tagAt text = some tag) :
    read text = .tag tag (text.take tag.text.length) :: read (text.drop tag.text.length) := by
  cases text with
  | nil => exact absurd rfl nonempty
  | cons char rest => rw [read_noSpan noSpan, begins, Option.elim_some]

theorem read_plain {rest : List Char} (noSpan : spanAt (char :: rest) = none)
    (noTag : tagAt (char :: rest) = none) : read (char :: rest) = .plain char :: read rest := by
  rw [read_noSpan noSpan, noTag, Option.elim_none]

theorem not_mem_body (found : find Span.inline.marker text = some (body, after)) : '`' ∉ body := by
  intro member
  obtain ⟨earlier, later, same⟩ := append_of_mem member
  have occurs : text = earlier ++ Span.inline.marker ++ (later ++ Span.inline.marker ++ after) := by
    rw [find_eq_some found, same]
    simp [Span.marker]
  have first := find_first found occurs
  rw [same, length_append, length_cons] at first
  omega

/-- A closed code part is read as such whatever follows it, unless it is an empty
span before a backtick. -/
theorem read_code_append (found : find span.marker text = some (body, after)) {other : List Char}
    (apart : Segment.code span body = .code .inline [] → ¬ Span.inline.marker <+: other) :
    read ((Segment.code span body).text ++ other) = .code span body :: read other := by
  have layout : (Segment.code span body).text ++ other =
      span.marker ++ (body ++ span.marker ++ other) := by
    simp [Segment.text]
  have behind : find span.marker (((Segment.code span body).text ++ other).drop span.marker.length) =
      some (body, other) := by
    rw [layout, drop_left]
    exact find_replace_after other found
  refine read_code ?_ behind
  cases span with
  | fence => simp [spanAt, layout, Span.marker]
  | inline =>
    have noFence : ¬ Span.fence.marker <+: (Segment.code .inline body).text ++ other := by
      rw [layout]
      cases body with
      | nil =>
        have noTick := apart rfl
        intro front
        apply noTick
        obtain ⟨behindFence, same⟩ := front
        have otherText : other = '`' :: behindFence := by
          simpa [Span.marker] using same.symm
        exact ⟨behindFence, otherText.symm⟩
      | cons first rest =>
        intro front
        obtain ⟨behindFence, same⟩ := front
        have tick : first = '`' := by
          simp [Span.marker] at same
          exact same.1.symm
        exact not_mem_body found (tick ▸ mem_cons_self)
    have tick : Span.inline.marker <+: (Segment.code .inline body).text ++ other := by
      rw [layout]
      exact prefix_append _ _
    simp only [spanAt, isPrefixOf_iff_prefix]
    rw [if_neg noFence, if_pos tick]

theorem spanAt_plain {rest : List Char} (noSpan : spanAt (char :: rest) = none)
    (other : List Char) : spanAt (char :: other) = none := by
  have different : char ≠ '`' := by
    intro same
    subst same
    simp only [spanAt, Span.marker, isPrefixOf_iff_prefix, cons_prefix_cons, true_and,
      nil_prefix, if_true] at noSpan
    split at noSpan
    · cases noSpan
    · cases noSpan
  simp [spanAt, Span.marker, different.symm]

theorem noTagSpelt_read (text : List Char) : NoTagSpelt (read text) := by
  fun_induction read text with
  | case1 =>
    intro before char after split
    exact absurd split (by simp)
  | case2 char rest span begins body after found ih =>
    exact noTagSpelt_cons.mpr ⟨fun _ same => (by cases same), ih⟩
  | case3 char rest span begins missing ih =>
    exact noTagSpelt_cons.mpr ⟨fun _ same => (by cases same), ih⟩
  | case4 char rest noSpan tag begins ih =>
    exact noTagSpelt_cons.mpr ⟨fun _ same => (by cases same), ih⟩
  | case5 char rest noSpan noTag ih =>
    refine noTagSpelt_cons.mpr ⟨fun other same => ?_, ih⟩
    cases same
    rw [textOf_read]
    exact noTag

/-- The parts left are what their text reads as when no tag is spelt across a
removed block. -/
theorem read_kept
    (apart : NoFenceJoined (kept depth (read text))) (unspelt : NoTagSpelt (kept depth (read text))) :
    read (textOf (kept depth (read text))) = kept depth (read text) := by
  fun_induction read text generalizing depth with
  | case1 => simp [kept, shown, read]
  | case2 char rest span begins body after found ih =>
    rw [kept_cons rfl] at apart unspelt ⊢
    split at apart
    · rename_i visible
      rw [if_pos visible] at unspelt ⊢
      obtain ⟨here, apart⟩ := noFenceJoined_cons.mp apart
      obtain ⟨_, unspelt⟩ := noTagSpelt_cons.mp unspelt
      rw [textOf_cons, read_code_append found here, ih apart unspelt]
    · rename_i hidden
      rw [if_neg hidden] at unspelt ⊢
      exact ih apart unspelt
  | case3 char rest span begins missing ih =>
    rw [kept_unbalanced]
    split
    · have same := read_unbalanced begins missing
      rw [← same, textOf_read]
    · simp [read]
  | case4 char rest noSpan tag begins ih =>
    rw [kept_cons rfl] at apart unspelt ⊢
    exact ih apart unspelt
  | case5 char rest noSpan noTag ih =>
    rw [kept_cons rfl] at apart unspelt ⊢
    split at apart
    · rename_i visible
      rw [if_pos visible] at unspelt ⊢
      obtain ⟨_, apart⟩ := noFenceJoined_cons.mp apart
      obtain ⟨here, unspelt⟩ := noTagSpelt_cons.mp unspelt
      have plain := read_plain (spanAt_plain noSpan _) (here char rfl)
      exact plain.trans (congrArg (Segment.plain char :: ·) (ih apart unspelt))
    · rename_i hidden
      rw [if_neg hidden] at unspelt ⊢
      exact ih apart unspelt

/-- A text without tags outside code that begins with a plain character begins with no
tag, and neither has the text behind the character one. -/
theorem tagFree_plain (noTick : spanAt (char :: text) = none)
    (free : TagFree (char :: text)) : tagAt (char :: text) = none ∧ TagFree text := by
  have spells : tagAt (char :: text) = none := by
    cases spelt : tagAt (char :: text) with
    | none => rfl
    | some tag =>
      have reading := read_tag (cons_ne_nil _ _) noTick spelt
      have clean := free _ (reading ▸ mem_cons_self)
      cases clean
  refine ⟨spells, fun segment member => free segment ?_⟩
  rw [read_plain noTick spells]
  exact mem_cons_of_mem _ member

/-- Conversely, a text without tags outside code comes from parts which neither
hold nor spell one. -/
theorem tagFree_kept (apart : NoFenceJoined (kept depth (read text)))
    (free : TagFree (textOf (kept depth (read text)))) :
    NoTagSpelt (kept depth (read text)) ∧
      ∀ segment ∈ kept depth (read text), segment.isTag = false := by
  fun_induction read text generalizing depth with
  | case1 =>
    refine ⟨fun before char after split => ?_, by simp [kept, shown]⟩
    exact absurd split (by simp [kept, shown])
  | case2 char rest span begins body after found ih =>
    rw [kept_cons rfl] at apart free ⊢
    split at apart
    · rename_i visible
      rw [if_pos visible] at free ⊢
      obtain ⟨here, apart⟩ := noFenceJoined_cons.mp apart
      rw [textOf_cons, TagFree, read_code_append found here] at free
      obtain ⟨unspelt, others⟩ := ih apart (forall_mem_cons.mp free).2
      exact ⟨noTagSpelt_cons.mpr ⟨fun _ same => (by cases same), unspelt⟩,
        forall_mem_cons.mpr ⟨rfl, others⟩⟩
    · rename_i hidden
      rw [if_neg hidden] at free ⊢
      exact ih apart free
  | case3 char rest span begins missing ih =>
    rw [kept_unbalanced] at free ⊢
    have same := read_unbalanced begins missing
    split at free
    · rename_i outside
      rw [← same, textOf_read] at free
      rw [if_pos outside, ← same]
      exact ⟨noTagSpelt_read _, free⟩
    · rename_i within
      rw [if_neg within]
      exact ⟨fun before char after split => absurd split (by simp), by simp⟩
  | case4 char rest noSpan tag begins ih =>
    rw [kept_cons rfl] at apart free ⊢
    exact ih apart free
  | case5 char rest noSpan noTag ih =>
    rw [kept_cons rfl] at apart free ⊢
    split at apart
    · rename_i visible
      rw [if_pos visible] at free ⊢
      obtain ⟨_, apart⟩ := noFenceJoined_cons.mp apart
      have noTick := spanAt_plain noSpan (textOf (kept depth (read rest)))
      obtain ⟨spells, restFree⟩ := tagFree_plain noTick free
      obtain ⟨unspelt, others⟩ := ih apart restFree
      refine ⟨noTagSpelt_cons.mpr ⟨fun other same => ?_, unspelt⟩,
        forall_mem_cons.mpr ⟨rfl, others⟩⟩
      cases same
      exact spells
    · rename_i hidden
      rw [if_neg hidden] at free ⊢
      exact ih apart free

/-- A text without tags outside code is left as it is. -/
theorem stripReasoning_tagFree (free : TagFree text) :
    stripReasoning text = text := by
  have whole : ∀ segments : List Segment, (∀ segment ∈ segments, segment.isTag = false) →
      kept 0 segments = segments := by
    intro segments noTags
    induction segments with
    | nil => rfl
    | cons segment rest ih =>
      obtain ⟨noTag, others⟩ := forall_mem_cons.mp noTags
      cases segment with
      | tag tag text => cases noTag
      | unbalanced span => rw [kept_unbalanced, if_pos rfl]
      | code span body =>
        rw [kept_cons rfl]
        exact congrArg (Segment.code span body :: ·) (ih others)
      | plain char =>
        rw [kept_cons rfl]
        exact congrArg (Segment.plain char :: ·) (ih others)
  rw [stripReasoning_eq, whole _ free, textOf_read]

/-- The parts left hold no tag when none stands behind a marker met outside the
blocks, from any place in front of the first unbalanced marker. -/
theorem kept_noTag (split : segments = before ++ rest)
    (balanced : before.any Segment.isUnbalanced = false) (behind : NoTagBehindUnbalanced segments) :
    ∀ segment ∈ kept (depthBehind before) rest, segment.isTag = false := by
  induction rest generalizing before with
  | nil => simp [kept, shown]
  | cons segment rest ih =>
    have split' : segments = (before ++ [segment]) ++ rest := by simp [split]
    cases kind : segment.isUnbalanced with
    | true =>
      obtain ⟨span, rfl⟩ := exists_span kind
      rw [kept_unbalanced]
      by_cases outside : depthBehind before = 0
      · rw [if_pos outside]
        exact forall_mem_cons.mpr ⟨rfl, behind before span rest split balanced outside⟩
      · rw [if_neg outside]
        simp
    | false =>
      have others : ∀ part ∈ kept (segment.depthAfter (depthBehind before)) rest,
          part.isTag = false := by
        rw [← depthBehind_concat]
        exact ih split' (by simp [balanced, kind])
      rw [kept_cons kind]
      by_cases visible : (!segment.isTag && depthBehind before == 0) = true
      · rw [if_pos visible]
        refine forall_mem_cons.mpr ⟨?_, others⟩
        simp only [Bool.and_eq_true, Bool.not_eq_true'] at visible
        exact visible.1
      · rw [if_neg visible]
        exact others

theorem kept_append (balanced : before.any Segment.isUnbalanced = false) (rest : List Segment) :
    ∃ front, kept 0 (before ++ rest) = front ++ kept (depthBehind before) rest := by
  induction before using reverseRecOn generalizing rest with
  | nil => exact ⟨[], rfl⟩
  | append_singleton before segment ih =>
    simp only [any_append, any_cons, any_nil, Bool.or_false, Bool.or_eq_false_iff] at balanced
    obtain ⟨front, same⟩ := ih balanced.1 (segment :: rest)
    rw [append_assoc, singleton_append, same, kept_cons balanced.2, depthBehind_concat]
    split
    · exact ⟨front ++ [segment], by simp⟩
    · exact ⟨front, rfl⟩

/-- Reasoning never leaks from a text where no empty span joins a backtick across
a removed block, exactly when tags do not cross by name, no tag stands behind an
unbalanced marker outside the blocks, and none is spelt across a removed block. -/
theorem reasoning_hidden_iff {input : List Char} (apart : NoFenceJoined (kept 0 (read input))) :
    (HidesBlocks input ∧ TagFree (stripReasoning input) ∧
        stripReasoning (stripReasoning input) = stripReasoning input) ↔
      NamesMatch (read input) ∧ NoTagBehindUnbalanced (read input) ∧
        NoTagSpelt (kept 0 (read input)) := by
  constructor
  · rintro ⟨hides, free, _⟩
    rw [stripReasoning_eq] at free
    obtain ⟨unspelt, noTags⟩ := tagFree_kept apart free
    refine ⟨?_, ?_, unspelt⟩
    · intro before segment after split balanced noTag within
      unfold HidesBlocks insideFlags at hides
      rw [pushedFlags_eq, split] at hides
      exact depth_of_hidden hides balanced noTag within
    · intro before span after split balanced outside segment member
      obtain ⟨front, parts⟩ := kept_append balanced (.unbalanced span :: after)
      rw [← split, outside, kept_unbalanced, if_pos rfl] at parts
      apply noTags segment
      rw [parts]
      exact mem_append_right front (mem_cons_of_mem _ member)
  · rintro ⟨names, behind, unspelt⟩
    have hides : HidesBlocks input := by
      unfold HidesBlocks insideFlags
      rw [pushedFlags_eq]
      exact hidden_from (nil_append _).symm rfl names behind
    have free : TagFree (stripReasoning input) := by
      rw [stripReasoning_eq, TagFree, read_kept apart unspelt]
      exact kept_noTag (nil_append _).symm rfl behind
    exact ⟨hides, free, stripReasoning_tagFree free⟩

theorem read_block : read "<think>x</think>y".toList =
    [.tag ⟨.think, false⟩ "<think>".toList, .plain 'x', .tag ⟨.think, true⟩ "</think>".toList,
      .plain 'y'] := by
  have last : read ['y'] = [.plain 'y'] := (read_plain (by decide) (by decide)).trans (by simp [read])
  have closer : read "</think>y".toList = .tag ⟨.think, true⟩ "</think>".toList :: read ['y'] :=
    read_tag (by decide) (by decide) (by decide)
  have content : read "x</think>y".toList = .plain 'x' :: read "</think>y".toList :=
    read_plain (by decide) (by decide)
  have opener : read "<think>x</think>y".toList =
      .tag ⟨.think, false⟩ "<think>".toList :: read "x</think>y".toList :=
    read_tag (by decide) (by decide) (by decide)
  rw [opener, content, closer, last]

theorem reasoning_hidden_sample :
    NoFenceJoined (kept 0 (read "<think>x</think>y".toList)) ∧
      ((HidesBlocks "<think>x</think>y".toList ∧
          TagFree (stripReasoning "<think>x</think>y".toList) ∧
          stripReasoning (stripReasoning "<think>x</think>y".toList) =
            stripReasoning "<think>x</think>y".toList) ↔
        NamesMatch (read "<think>x</think>y".toList) ∧
          NoTagBehindUnbalanced (read "<think>x</think>y".toList) ∧
          NoTagSpelt (kept 0 (read "<think>x</think>y".toList))) := by
  have left : kept 0 (read "<think>x</think>y".toList) = [.plain 'y'] := by
    rw [read_block]
    rfl
  have apart : NoFenceJoined (kept 0 (read "<think>x</think>y".toList)) := by
    rw [left]
    refine noFenceJoined_cons.mpr ⟨fun same => (by cases same), ?_⟩
    intro before after split
    exact absurd split (by simp)
  exact ⟨apart, reasoning_hidden_iff apart⟩

/-- A single backtick before a block makes the block appear. -/
theorem unbalanced_backtick_leaks :
    ¬ ∀ input, HidesBlocks input ∧ TagFree (stripReasoning input) ∧
      stripReasoning (stripReasoning input) = stripReasoning input := by
  intro hidden
  have reading : read ("`".toList ++ "<think>x</think>y".toList) =
      .unbalanced .inline :: read "<think>x</think>y".toList :=
    read_unbalanced (by decide) (by decide)
  obtain ⟨hides, _⟩ := hidden ("`".toList ++ "<think>x</think>y".toList)
  rw [HidesBlocks, insideFlags, pushedFlags_eq, reading, read_block] at hides
  revert hides
  decide

end Asterel.Reasoning
