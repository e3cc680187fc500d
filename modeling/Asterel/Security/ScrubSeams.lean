import Asterel.Security.PemRemoval

/-!
# Scrubbing at a seam

Two texts are scrubbed each on its own when no pattern lies across their seam, no token
goes on behind it, and every PEM block that begins before it ends there too. A text in
which nothing is left to scrub stays as it is.
-/

namespace Asterel.Scrub

variable {markers : List (List Char)}
  {back front kept line marker out pattern rest text : List Char}

open Library List

/-- No pattern lies across the seam of two texts, and no token goes on behind it. -/
structure TokenSeam (front back : List Char) : Prop where
  parted : ∀ marker ∈ passes, Parted marker front back
  closed : back.head?.any isSecretChar = true → ∀ marker ∈ passes, ∀ token,
    token.all isSecretChar = true → ¬ marker ++ token <:+ front

theorem TokenSeam.suffix (seam : TokenSeam front back)
    (suffix : rest <:+ front) : TokenSeam rest back where
  parted marker member := (seam.parted marker member).suffix suffix
  closed secret marker member token all ends :=
    seam.closed secret marker member token all (ends.trans suffix)

/-- A seam stays one when less stands behind it. -/
theorem TokenSeam.of_begins (seam : TokenSeam front back)
    (begins : rest <+: back) : TokenSeam front rest where
  parted marker member := (seam.parted marker member).of_begins begins
  closed secret marker member token all := by
    refine seam.closed ?_ marker member token all
    cases rest with
    | nil => cases secret
    | cons char others =>
      obtain ⟨tail, rfl⟩ := begins
      exact secret

theorem TokenSeam.nil (back : List Char) : TokenSeam [] back where
  parted _ _ _ _ _ some _ ends _ := some (suffix_nil.mp ends)
  closed _ marker member _ _ ends :=
    (passes_marker marker member).nonempty (append_eq_nil_iff.mp (suffix_nil.mp ends)).1

theorem change_opened (noOpening : '[' ∉ pattern) (old new : List Char)
    (allowed : Change old new) : ∃ first back, new = first :: back ∧ first ∉ pattern := by
  rcases allowed with rfl | rfl
  · exact ⟨'[', "REDACTED]".toList, by decide, noOpening⟩
  · exact ⟨'[', "REDACTED-PEM]".toList, by decide, noOpening⟩

theorem change_closed (noClosing : ']' ∉ pattern) (old new : List Char)
    (allowed : Change old new) : ∃ front last, new = front ++ [last] ∧ last ∉ pattern := by
  rcases allowed with rfl | rfl
  · exact ⟨"[REDACTED".toList, ']', by decide, noClosing⟩
  · exact ⟨"[REDACTED-PEM".toList, ']', by decide, noClosing⟩

/-- A seam stays one when the text before it is rewritten. -/
theorem TokenSeam.front_rewritten (seam : TokenSeam front back)
    (rewrites : Rewrites Change front out) : TokenSeam out back where
  parted marker member first second cut some some' ends := by
    have noClosing : ']' ∉ first := fun inside =>
      (passes_marker marker member).noClosing (cut ▸ mem_append_left _ inside)
    exact seam.parted marker member first second cut some some'
      (rewrites.suffix_of_suffix (change_closed noClosing) ends)
  closed secret marker member token all ends := by
    have noClosing := (passes_marker marker member).noClosing_token all
    exact seam.closed secret marker member token all
      (rewrites.suffix_of_suffix (change_closed noClosing) ends)

/-- A seam stays one when the text behind it is rewritten. -/
theorem TokenSeam.back_rewritten (seam : TokenSeam front back)
    (rewrites : Rewrites Change back out) : TokenSeam front out where
  parted marker member first second cut some some' ends starts := by
    have noOpening : '[' ∉ second := fun inside =>
      (passes_marker marker member).noOpening (cut ▸ mem_append_right _ inside)
    exact seam.parted marker member first second cut some some' ends
      (rewrites.prefix_of_prefix (change_opened noOpening) starts)
  closed secret marker member token all := by
    refine seam.closed ?_ marker member token all
    cases out with
    | nil => cases secret
    | cons char rest =>
      have noOpening : '[' ∉ [char] := by simpa using (secret_ne secret).1.symm
      obtain ⟨tail, rfl⟩ :=
        rewrites.prefix_of_prefix (change_opened noOpening) (prefix_append [char] rest)
      exact secret

/-! ## One pass -/

theorem takeWhile_append_of_all {token : List Char} (all : token.all isSecretChar = true)
    (ends : back.head?.any isSecretChar = false) :
    (token ++ back).takeWhile isSecretChar = token ∧
      (token ++ back).dropWhile isSecretChar = back := by
  induction token with
  | nil =>
    cases back with
    | nil => exact ⟨rfl, rfl⟩
    | cons char rest =>
      have plain : isSecretChar char = false := ends
      simp [plain]
  | cons char rest ih =>
    rw [all_cons, Bool.and_eq_true] at all
    obtain ⟨taken, dropped⟩ := ih all.2
    simp [all.1, taken, dropped]

/-- A pass treats the texts at a seam each on its own. -/
theorem scrub_seam (member : marker ∈ passes) (front back : List Char)
    (seam : TokenSeam front back) :
    scrubAfterMarker marker (front ++ back) =
      scrubAfterMarker marker front ++ scrubAfterMarker marker back := by
  have nonempty := (passes_marker marker member).nonempty
  by_cases begins : marker <+: front
  · obtain ⟨content, rfl⟩ := begins
    have shorter : content.length < (marker ++ content).length := by
      have positive := length_pos_iff.mpr nonempty
      rw [length_append]
      omega
    have behind : content <:+ marker ++ content := suffix_append _ _
    rw [append_assoc, scrub_begins nonempty, scrub_begins nonempty]
    cases secret : content.all isSecretChar with
    | true =>
      -- the text ends with the token
      have plain : back.head?.any isSecretChar = false := by
        rw [← Bool.not_eq_true]
        exact fun goesOn => seam.closed goesOn marker member content secret (suffix_refl _)
      obtain ⟨taken, dropped⟩ := takeWhile_append_of_all secret plain
      have alone := takeWhile_append_of_all secret (show [].head?.any isSecretChar = false from rfl)
      rw [append_nil] at alone
      rw [taken, dropped, alone.1, alone.2, scrub_nil]
      split
      · rename_i empty
        rw [empty, nil_append, scrub_nil, append_nil]
      · rw [append_nil]
    | false =>
      obtain ⟨taken, dropped⟩ := takeWhile_append_of_not_all back secret
      have shorter' : (content.dropWhile isSecretChar).length < (marker ++ content).length :=
        Nat.lt_of_le_of_lt (dropWhile_suffix _).length_le shorter
      rw [taken, dropped]
      split
      · rw [scrub_seam member content back (seam.suffix behind), append_assoc]
      · rw [scrub_seam member _ back (seam.suffix ((dropWhile_suffix _).trans behind)),
          append_assoc]
  · cases front with
    | nil => rw [nil_append, scrub_nil, nil_append]
    | cons char rest =>
      have later : ¬ marker <+: char :: (rest ++ back) := fun starts =>
        begins ((seam.parted marker member).begins (cons_ne_nil _ _) starts)
      rw [cons_append, scrub_cons nonempty later, scrub_cons nonempty begins,
        scrub_seam member rest back (seam.suffix (suffix_cons _ _)), cons_append]
  termination_by front.length

theorem scrub_change (marker text : List Char) :
    Rewrites Change text (scrubAfterMarker marker text) :=
  (scrub_rewrites marker text).weaken fun _ _ allowed => Or.inl allowed.1

/-- The passes treat the texts at a seam each on its own. -/
theorem scrubMarkers_seam (known : ∀ marker ∈ markers, marker ∈ passes)
    (seam : TokenSeam front back) :
    scrubMarkers markers (front ++ back) = scrubMarkers markers front ++ scrubMarkers markers back := by
  induction markers generalizing front back with
  | nil => rfl
  | cons marker rest ih =>
    obtain ⟨member, others⟩ := forall_mem_cons.mp known
    simp only [scrubMarkers_cons]
    rw [scrub_seam member front back seam, ih others
        ((seam.front_rewritten (scrub_change _ _)).back_rewritten (scrub_change _ _))]

/-- Where no marker is exposed, a pass changes nothing. -/
theorem scrub_of_not_exposed (hidden : ¬ Exposed marker text) :
    scrubAfterMarker marker text = text := by
  fun_induction scrubAfterMarker marker text with
  | case1 => rfl
  | case2 => rfl
  | case3 text nonempty before content found bare ih =>
    have parts := find_eq_some found
    have contentHidden : ¬ Exposed marker content := by
      rintro ⟨char, secret, occurs⟩
      refine hidden ⟨char, secret, occurs.trans ?_⟩
      rw [parts]
      exact (suffix_append _ _).isInfix
    rw [ih contentHidden, ← parts]
  | case4 text nonempty before content found token ih =>
    refine absurd ?_ hidden
    cases content with
    | nil => exact absurd rfl token
    | cons char rest =>
      cases secret : isSecretChar char with
      | false => simp [secret] at token
      | true =>
        refine ⟨char, secret, before, rest, ?_⟩
        rw [find_eq_some found]
        simp

theorem scrubMarkers_of_not_exposed
    (hidden : ∀ marker ∈ markers, ¬ Exposed marker text) : scrubMarkers markers text = text := by
  induction markers with
  | nil => rfl
  | cons marker rest ih =>
    obtain ⟨here, there⟩ := forall_mem_cons.mp hidden
    rw [scrubMarkers_cons, scrub_of_not_exposed here, ih there]

theorem scrubMarkers_nil (markers : List (List Char)) : scrubMarkers markers [] = [] := by
  induction markers with
  | nil => rfl
  | cons marker rest ih =>
    rw [scrubMarkers_cons, scrub_nil, ih]

/-! ## The blocks -/

/-- What stands behind the block whose BEGIN marker the line follows. -/
def blockRest (line : List Char) : Option (List Char) :=
  match find pemLineSuffix line with
  | none => none
  | some (kind, content) =>
    if kind = [] then none
    else (find (endMarker kind) content).map fun parts => parts.2

theorem blockRest_eq_some (complete : blockRest line = some rest) :
    ∃ kind content body, find pemLineSuffix line = some (kind, content) ∧ kind ≠ [] ∧
      find (endMarker kind) content = some (body, rest) := by
  rw [blockRest] at complete
  split at complete
  · cases complete
  · rename_i kind content foundKind
    split at complete
    · cases complete
    · rename_i nonempty
      obtain ⟨⟨body, rest'⟩, foundEnd, rfl⟩ := Option.map_eq_some_iff.mp complete
      exact ⟨kind, content, body, foundKind, nonempty, foundEnd⟩

theorem blockRest_of_found {kind content body : List Char}
    (foundKind : find pemLineSuffix line = some (kind, content)) (nonempty : kind ≠ [])
    (foundEnd : find (endMarker kind) content = some (body, rest)) :
    blockRest line = some rest := by
  rw [blockRest, foundKind]
  show (if kind = [] then none else _) = _
  rw [if_neg nonempty, foundEnd]
  rfl

/-- The pass at the first BEGIN marker. -/
theorem pem_step {before : List Char} (found : find pemBegin text = some (before, line)) :
    scrubPemBlocks text =
      (blockRest line).elim (before ++ pemBegin ++ scrubPemBlocks line) fun rest =>
        before ++ redactedPem ++ scrubPemBlocks (dropLineEnding rest) := by
  rw [pem_begin found, blockRest]
  cases find pemLineSuffix line with
  | none => rfl
  | some parts =>
    obtain ⟨kind, content⟩ := parts
    by_cases empty : kind = []
    · simp [empty]
    · cases foundEnd : find (endMarker kind) content with
      | none => simp [empty, foundEnd]
      | some block => simp [empty, foundEnd]

theorem pem_none (missing : find pemBegin text = none) :
    scrubPemBlocks text = text := by
  rw [scrubPemBlocks]
  split
  · rfl
  · rename_i found
    cases missing.symm.trans found

theorem blockRest_append (other : List Char)
    (complete : blockRest line = some rest) : blockRest (line ++ other) = some (rest ++ other) := by
  obtain ⟨kind, content, body, foundKind, nonempty, foundEnd⟩ := blockRest_eq_some complete
  exact blockRest_of_found (find_append other foundKind) nonempty (find_append other foundEnd)

/-- A block of a longer text that ends in the shorter one is a block of it. -/
theorem blockRest_of_append {other : List Char}
    (complete : blockRest (line ++ other) = some (rest ++ other)) : blockRest line = some rest := by
  obtain ⟨kind, content, body, foundKind, nonempty, foundEnd⟩ := blockRest_eq_some complete
  have contentEq := find_eq_some foundEnd
  rw [← append_assoc] at contentEq
  rw [contentEq] at foundKind foundEnd
  exact blockRest_of_found (find_of_append foundKind) nonempty (find_of_append foundEnd)

/-- No block lies across the seam of two texts: what begins before it ends before it,
with the line ending. -/
structure BlockSeam (front back : List Char) : Prop where
  parted : Parted pemBegin front back
  ends : ∀ lead line rest, front = lead ++ (pemBegin ++ line) → blockRest (line ++ back) = some rest →
    ∃ between, rest = between ++ back ∧
      dropLineEnding (between ++ back) = dropLineEnding between ++ back

theorem BlockSeam.suffix (seam : BlockSeam front back)
    (suffix : rest <:+ front) : BlockSeam rest back where
  parted := seam.parted.suffix suffix
  ends lead line behind restEq complete := by
    obtain ⟨more, frontEq⟩ := suffix
    refine seam.ends (more ++ lead) line behind ?_ complete
    rw [← frontEq, restEq, append_assoc]

theorem BlockSeam.nil (back : List Char) : BlockSeam [] back where
  parted _ _ _ some _ ends _ := some (suffix_nil.mp ends)
  ends _ _ _ frontEq _ := by
    have empty := append_eq_nil_iff.mp (append_eq_nil_iff.mp frontEq.symm).2
    exact absurd empty.1 pemBegin_ne_nil

/-- The texts at a seam keep their blocks to themselves. -/
theorem pem_seam (front back : List Char) (seam : BlockSeam front back) :
    scrubPemBlocks (front ++ back) = scrubPemBlocks front ++ scrubPemBlocks back := by
  cases found : find pemBegin front with
  | none =>
    have behind := find_parted seam.parted found
    rw [pem_none found]
    cases later : find pemBegin back with
    | none =>
      rw [later] at behind
      rw [pem_none behind, pem_none later]
    | some parts =>
      obtain ⟨before, line⟩ := parts
      rw [later] at behind
      rw [pem_step behind, pem_step later]
      cases blockRest line with
      | none => simp
      | some rest => simp
  | some parts =>
    obtain ⟨before, line⟩ := parts
    have parts := find_eq_some found
    rw [append_assoc] at parts
    have shorter := length_find_lt pemBegin_ne_nil found
    have lineSuffix : line <:+ front := by
      rw [parts, ← append_assoc]
      exact suffix_append _ _
    rw [pem_step found, pem_step (find_append back found)]
    cases complete : blockRest (line ++ back) with
    | none =>
      have alone : blockRest line = none := by
        cases other : blockRest line with
        | none => rfl
        | some rest => cases complete.symm.trans (blockRest_append back other)
      rw [alone, Option.elim_none, Option.elim_none, pem_seam line back (seam.suffix lineSuffix)]
      simp only [append_assoc]
    | some rest =>
      obtain ⟨between, rfl, lineEnding⟩ := seam.ends before line rest parts complete
      have alone := blockRest_of_append complete
      obtain ⟨kind, content, body, foundKind, _, foundEnd⟩ := blockRest_eq_some alone
      have shorter' := length_pem_lt found foundKind foundEnd
      have restSuffix : dropLineEnding between <:+ front := by
        refine (dropLineEnding_isSuffix between).trans (IsSuffix.trans ?_ lineSuffix)
        rw [find_eq_some foundKind, find_eq_some foundEnd, ← append_assoc]
        exact suffix_append _ _
      rw [alone, Option.elim_some, Option.elim_some, lineEnding,
        pem_seam _ back (seam.suffix restSuffix)]
      simp only [append_assoc]
  termination_by front.length

/-- The text holds no PEM block. -/
def NoBlock (text : List Char) : Prop :=
  ∀ lead line, text = lead ++ (pemBegin ++ line) → blockRest line = none

theorem NoBlock.suffix (none : NoBlock text) (suffix : rest <:+ text) :
    NoBlock rest := by
  obtain ⟨more, textEq⟩ := suffix
  intro lead line restEq
  refine none (more ++ lead) line ?_
  rw [← textEq, restEq, append_assoc]

theorem NoBlock.of_begins (none : NoBlock text) (begins : rest <+: text) :
    NoBlock rest := by
  obtain ⟨more, textEq⟩ := begins
  intro lead line restEq
  cases complete : blockRest line with
  | none => rfl
  | some behind =>
    have whole : text = lead ++ (pemBegin ++ (line ++ more)) := by
      rw [← textEq, restEq, append_assoc, append_assoc]
    cases (none lead (line ++ more) whole).symm.trans (blockRest_append more complete)

theorem pem_of_noBlock (text : List Char) (none : NoBlock text) : scrubPemBlocks text = text := by
  cases found : find pemBegin text with
  | none => exact pem_none found
  | some parts =>
    obtain ⟨before, line⟩ := parts
    have parts := find_eq_some found
    have shorter := length_find_lt pemBegin_ne_nil found
    have lineSuffix : line <:+ text := by
      rw [parts]
      exact suffix_append _ _
    rw [append_assoc] at parts
    rw [pem_step found, none before line parts, Option.elim_none,
      pem_of_noBlock line (none.suffix lineSuffix), append_assoc, ← parts]
  termination_by text.length

theorem noBlock_of_absent (absent : ¬ pemBegin <:+: text) : NoBlock text := by
  intro lead line textEq
  refine absurd ⟨lead, line, ?_⟩ absent
  rw [textEq, append_assoc]

/-- Two texts without blocks hold none together if none lies across their seam. -/
theorem NoBlock.append (none : NoBlock front) (noneBehind : NoBlock back)
    (seam : BlockSeam front back) : NoBlock (front ++ back) := by
  intro lead line whole
  rw [append_eq_append_iff] at whole
  rcases whole with ⟨gap, _, backEq⟩ | ⟨gap, frontEq, behind⟩
  · exact noneBehind gap line backEq
  · by_cases empty : gap = []
    · rw [empty, nil_append] at behind
      exact noneBehind [] line behind.symm
    · have gapSuffix : gap <:+ front := frontEq ▸ suffix_append _ _
      obtain ⟨start, gapEq⟩ := (seam.parted.suffix gapSuffix).begins empty ⟨line, behind⟩
      have lineEq : line = start ++ back := by
        rw [← gapEq, append_assoc] at behind
        exact append_cancel_left behind
      rw [← gapEq] at frontEq
      cases complete : blockRest line with
      | none => rfl
      | some rest =>
        rw [lineEq] at complete
        obtain ⟨between, rfl, _⟩ := seam.ends lead start rest frontEq complete
        cases (none lead start frontEq).symm.trans (blockRest_of_append complete)

/-! ## All of it -/

/-- Scrubbing is the passes and the removal of the blocks, also where nothing is to scrub. -/
theorem scrubSecrets_eq (input : List Char) :
    scrubSecrets input = scrubPemBlocks (scrubMarkers passes input) := by
  rw [scrubSecrets]
  split
  · rfl
  · rename_i clean
    have absent : ∀ pattern ∈ prefixPatterns ++ markerPatterns, ¬ pattern <:+: input := by
      intro pattern member occurs
      exact clean (any_eq_true.mpr ⟨pattern, member, decide_eq_true occurs⟩)
    have passesAbsent : ∀ marker ∈ passes, ¬ marker <:+: input := by
      intro marker member
      rcases mem_append.mp member with kept | other
      · exact absent marker (mem_append_left _ (mem_of_mem_filter kept))
      · exact absent marker (mem_append_right _ other)
    have noBegin : ¬ pemBegin <:+: input := absent pemBegin (by decide)
    rw [scrubMarkers_absent passesAbsent, pem_none (find_eq_none_iff.mpr noBegin)]

/-- Two texts are scrubbed each on its own. -/
theorem scrubSecrets_seam (tokens : TokenSeam front back)
    (blocks : BlockSeam (scrubMarkers passes front) (scrubMarkers passes back)) :
    scrubSecrets (front ++ back) = scrubSecrets front ++ scrubSecrets back := by
  rw [scrubSecrets_eq, scrubSecrets_eq, scrubSecrets_eq,
    scrubMarkers_seam (fun _ member => member) tokens, pem_seam _ _ blocks]

/-- A scrubbed text has nothing left to scrub but blocks. -/
theorem scrubMarkers_scrubbed {input : List Char} (occurs : text <:+: scrubSecrets input) :
    scrubMarkers passes text = text := by
  apply scrubMarkers_of_not_exposed
  rintro marker member ⟨char, secret, exposed⟩
  exact (scrubSecrets_complete input).1 marker member ⟨char, secret, exposed.trans occurs⟩

/-! ## Behind a redaction -/

/-- The passes put in no dash. -/
theorem noDash_scrubMarkers (noDash : '-' ∉ text) :
    '-' ∉ scrubMarkers passes text := by
  rw [← singleton_infix_iff] at noDash ⊢
  intro dash
  refine noDash ((scrubMarkers_rewrites passes_marker text).occurs_of_rewritten ?_ dash)
  rintro old new rfl
  apply Rewrites.apart_delimited "REDACTED".toList
  · decide
  · decide
  · decide

theorem noBlock_of_noDash (noDash : '-' ∉ text) : NoBlock text :=
  noBlock_of_absent fun occurs => noDash (occurs.subset (by decide))

/-- No END line ends in a text without dashes. -/
theorem blockRest_before (noDash : '-' ∉ back)
    (complete : blockRest (line ++ back) = some rest) : ∃ between, rest = between ++ back := by
  obtain ⟨kind, content, body, foundKind, _, foundEnd⟩ := blockRest_eq_some complete
  obtain ⟨front, endEq⟩ := endMarker_last kind
  have whole : line ++ back = (kind ++ pemLineSuffix ++ (body ++ front)) ++ (['-'] ++ rest) := by
    rw [find_eq_some foundKind, find_eq_some foundEnd, endEq]
    simp only [append_assoc]
  rw [append_eq_append_iff] at whole
  rcases whole with ⟨gap, _, backEq⟩ | ⟨gap, _, restEq⟩
  · refine absurd ?_ noDash
    rw [backEq]
    simp
  · cases gap with
    | nil =>
      refine absurd ?_ noDash
      have backEq : back = ['-'] ++ rest := restEq.symm
      rw [backEq]
      exact mem_cons_self
    | cons char between =>
      exact ⟨between, (List.cons.inj restEq).2⟩

/-- What ends behind a redaction has its last bracket. -/
theorem closing_of_suffix (some : text ≠ []) (ends : text <:+ kept ++ redacted) :
    ']' ∈ text := by
  have last : redacted = "[REDACTED".toList ++ [']'] := by decide
  rw [last, ← append_assoc] at ends
  rcases suffix_concat_iff.mp ends with empty | ⟨front, textEq, _⟩
  · exact absurd empty some
  · rw [textEq]
    simp

/-- Behind a redaction no token goes on. -/
theorem tokenSeam_behind (kept back : List Char) : TokenSeam (kept ++ redacted) back where
  parted marker member first second cut some _ ends := by
    refine absurd ?_ (passes_marker marker member).noClosing
    rw [cut]
    exact mem_append_left _ (closing_of_suffix some ends)
  closed _ marker member token all ends := by
    have nonempty : marker ++ token ≠ [] := by simp [(passes_marker marker member).nonempty]
    exact (passes_marker marker member).noClosing_token all (closing_of_suffix nonempty ends)

theorem blockSeam_behind (noDash : '-' ∉ back)
    (none : NoBlock (kept ++ redacted)) : BlockSeam (kept ++ redacted) back where
  parted first second cut some _ ends := by
    have noClosing : ']' ∉ pemBegin := by decide
    refine absurd ?_ noClosing
    rw [cut]
    exact mem_append_left _ (closing_of_suffix some ends)
  ends lead line rest frontEq complete := by
    obtain ⟨between, rfl⟩ := blockRest_before noDash complete
    cases (none lead line frontEq).symm.trans (blockRest_of_append complete)

theorem scrubMarkers_ne_nil (some : text ≠ []) :
    scrubMarkers markers text ≠ [] := by
  induction markers generalizing text with
  | nil => exact some
  | cons marker rest ih => exact ih (scrub_ne_nil some)

end Asterel.Scrub
