import Asterel.Memory.ResolutionRuns
import Mathlib

/-!
# Matching entities

Without embeddings and with a judge that always answers different, an entity is merged when one
of its texts and one of the canonical entity's score high enough. The comparison sees nothing
but the forms that ASCII letters and digits make.
-/

namespace Asterel.EntityResolver

open Library Library.Lines List Outcomes

section Scores

theorem le_foldl_max (bound start : ℚ) (scores : List ℚ) :
    bound ≤ scores.foldl max start ↔ bound ≤ start ∨ ∃ score ∈ scores, bound ≤ score := by
  induction scores generalizing start with
  | nil => simp
  | cons score scores ih =>
    rw [foldl_cons, ih, le_max_iff, exists_mem_cons_iff, or_assoc]

theorem overlap_comm (lhs rhs : List Chars) : overlap lhs rhs = overlap rhs lhs := by
  have union : (lhs.dedup ∪ rhs.dedup).length = (rhs.dedup ∪ lhs.dedup).length :=
    Perm.length_eq ((perm_ext_iff_of_nodup ((nodup_dedup rhs).union _)
      ((nodup_dedup lhs).union _)).mpr fun word => by
        rw [mem_union_iff, mem_union_iff, or_comm])
  have inter : (lhs.dedup ∩ rhs.dedup).length = (rhs.dedup ∩ lhs.dedup).length :=
    Perm.length_eq ((perm_ext_iff_of_nodup ((nodup_dedup lhs).inter _)
      ((nodup_dedup rhs).inter _)).mpr fun word => by
        rw [mem_inter_iff, mem_inter_iff, and_comm])
  rw [overlap, overlap, union, inter]

theorem scoreOf_comm (lhs rhs : Chars) : scoreOf lhs rhs = scoreOf rhs lhs := by
  rw [scoreOf, scoreOf, Bool.or_comm, overlap_comm]
  by_cases same : lhs = rhs
  · rw [if_pos same, if_pos same.symm]
  · rw [if_neg same, if_neg (Ne.symm same)]

theorem scoreOf_self (form : Chars) : lexicalMergeThreshold ≤ scoreOf form form := by
  rw [scoreOf, if_pos rfl, lexicalMergeThreshold]
  norm_num

end Scores

/-- Entities of one type with two forms that score high enough. -/
def Matches (entity canonical : ExtractedEntity) : Prop :=
  entity.entityType = canonical.entityType ∧ ∃ lhs rhs, Spelled entity.values lhs ∧
    Spelled canonical.values rhs ∧ lexicalMergeThreshold ≤ scoreOf lhs rhs

variable {entity canonical : ExtractedEntity}

theorem Matches.symm (same : Matches entity canonical) : Matches canonical entity := by
  obtain ⟨types, lhs, rhs, left, right, score⟩ := same
  refine ⟨types.symm, rhs, lhs, right, left, ?_⟩
  rwa [scoreOf_comm]

section Comparison

theorem lexicalScore_le_iff : lexicalMergeThreshold ≤ lexicalScore entity canonical ↔
    Matches entity canonical := by
  have positive : ¬ lexicalMergeThreshold ≤ 0 := by
    rw [lexicalMergeThreshold]
    norm_num
  rw [lexicalScore, Matches]
  split_ifs with types
  · exact iff_of_false positive fun matched => types matched.1
  · rw [le_foldl_max, or_iff_right positive]
    refine Iff.trans ?_ (and_iff_right (not_not.mp types)).symm
    constructor
    · rintro ⟨score, listed, high⟩
      obtain ⟨lhs, left, listed⟩ := mem_flatMap.mp listed
      obtain ⟨rhs, right, rfl⟩ := mem_map.mp listed
      exact ⟨_, _, (spelled_dedupeStrings _ _).mp ⟨lhs, left, rfl⟩,
        (spelled_dedupeStrings _ _).mp ⟨rhs, right, rfl⟩, high⟩
    · rintro ⟨_, _, left, right, high⟩
      obtain ⟨lhs, among, rfl⟩ := (spelled_dedupeStrings _ _).mpr left
      obtain ⟨rhs, listed, rfl⟩ := (spelled_dedupeStrings _ _).mpr right
      exact ⟨_, mem_flatMap.mpr ⟨lhs, among, mem_map_of_mem listed⟩, high⟩

theorem exactAliasMatch_matches (exactly : exactAliasMatch entity canonical = true) :
    Matches entity canonical := by
  rw [exactAliasMatch, Bool.and_eq_true, decide_eq_true_eq, any_eq_true] at exactly
  obtain ⟨types, form, left, right⟩ := exactly
  obtain ⟨lhs, among, rfl⟩ := mem_map.mp left
  obtain ⟨rhs, listed, same⟩ := mem_map.mp (contains_iff_mem.mp right)
  exact ⟨types, normalize lhs, normalize lhs, (spelled_dedupeStrings _ _).mp ⟨lhs, among, rfl⟩,
    (spelled_dedupeStrings _ _).mp ⟨rhs, listed, same⟩, scoreOf_self _⟩

/-- The judge is asked for nothing that counts. -/
theorem shouldMerge_disabled (comparison : Nat) (entity canonical : ExtractedEntity) :
    ∃ merges, shouldMerge disabled comparison entity canonical = some merges ∧
      (merges = true ↔ Matches entity canonical) := by
  have unlike : ¬ embeddingMergeThreshold ≤ disabled.similarity comparison := by
    apply not_le_of_gt
    unfold embeddingMergeThreshold disabled
    norm_num
  rw [shouldMerge]
  by_cases matched : Matches entity canonical
  · refine ⟨true, ?_, iff_of_true rfl matched⟩
    rw [decide_eq_true (lexicalScore_le_iff.mpr matched), Bool.or_true, Bool.true_or]
    rfl
  · refine ⟨false, ?_, iff_of_false Bool.false_ne_true matched⟩
    have inexact : exactAliasMatch entity canonical = false :=
      Bool.eq_false_iff.mpr fun exactly => matched (exactAliasMatch_matches exactly)
    have low := decide_eq_false (mt lexicalScore_le_iff.mp matched)
    rw [inexact, low, decide_eq_false unlike]
    exact ite_self _

end Comparison

section Search

/-- The first canonical entity that matches, if there is one. -/
theorem findCanonical_disabled (entity : ExtractedEntity) (comparison : Nat)
    (canonicals : List ExtractedEntity) : ∃ found compared,
    findCanonical disabled entity comparison canonicals = some (found, compared) ∧
      found.elim (∀ canonical ∈ canonicals, ¬ Matches entity canonical) fun parts =>
        Matches entity parts.2.1 ∧ ∀ other ∈ parts.1, ¬ Matches entity other := by
  induction canonicals generalizing comparison with
  | nil => exact ⟨none, comparison, rfl, fun _ member => absurd member not_mem_nil⟩
  | cons first rest ih =>
    obtain ⟨merges, asked, iff⟩ := shouldMerge_disabled comparison entity first
    rw [findCanonical, asked]
    cases merges with
    | true =>
      exact ⟨some ([], first, rest), comparison + 1, rfl, iff.mp rfl,
        fun _ member => absurd member not_mem_nil⟩
    | false =>
      have differs : ¬ Matches entity first := fun matched => Bool.false_ne_true (iff.mpr matched)
      obtain ⟨found, compared, later, meaning⟩ := ih (comparison + 1)
      refine ⟨found.map fun parts => (first :: parts.1, parts.2), compared, ?_, ?_⟩
      · simp only [Option.bind_eq_bind, Option.bind_some, later, Bool.false_eq_true, if_false]
      · cases found with
        | none => exact forall_mem_cons.mpr ⟨differs, meaning⟩
        | some parts => exact ⟨meaning.1, forall_mem_cons.mpr ⟨differs, meaning.2⟩⟩

/-- What is put at a place for an entity that is compared by its texts alone. -/
theorem Origin.disabled {state : Resolving} {place : Nat} {new : ExtractedEntity}
    (origin : Origin disabled state entity place new) :
    (∃ canonical, state.canonicals[place]? = some canonical ∧ Matches entity canonical ∧
      (∀ (index : Nat) other, index < place → state.canonicals[index]? = some other →
        ¬ Matches entity other) ∧
      new = mergeEntities canonical entity) ∨
    place = state.canonicals.length ∧ new = entity ∧
      ∀ (index : Nat) other, state.canonicals[index]? = some other → ¬ Matches entity other := by
  obtain ⟨found, compared, searched, meaning⟩ :=
    findCanonical_disabled entity state.compared state.canonicals
  cases origin with
  | @merged before after canonical _ foundHere stood =>
    cases searched.symm.trans foundHere
    refine Or.inl ⟨canonical, stood, meaning.1, fun index other early found => ?_, rfl⟩
    rw [findCanonical_parts searched, List.getElem?_append_left early] at found
    exact meaning.2 other (mem_of_getElem? found)
  | begun foundHere =>
    cases searched.symm.trans foundHere
    exact Or.inr ⟨rfl, rfl, fun index other found => meaning other (mem_of_getElem? found)⟩

theorem settle_disabled (state : Resolving) (entity : ExtractedEntity) :
    ∃ next place, settle disabled state entity = some (next, place) := by
  obtain ⟨found, compared, searched, _⟩ :=
    findCanonical_disabled entity state.compared state.canonicals
  exact settle_eq_some searched

/-- Without a provider and a judge nothing fails. -/
theorem settleAll_disabled (entities : List ExtractedEntity) :
    ∃ state trace, settleAll disabled entities = some (state, trace) := by
  induction entities using reverseRecOn with
  | nil => exact ⟨_, _, rfl⟩
  | append_singleton entities entity ih =>
    obtain ⟨state, trace, before⟩ := ih
    obtain ⟨next, place, settled⟩ := settle_disabled state entity
    exact ⟨next, _, settleAll_concat before settled⟩

end Search

section Members

variable {entities : List ExtractedEntity} {state : Resolving} {trace : Trace}
variable {one two : ExtractedEntity} {place : Nat} {next : Resolving}

/-- Only entities of one type are merged. -/
theorem settleAll_types (ended : settleAll disabled entities = some (state, trace)) :
    ∀ entry ∈ trace, ∀ canonical, state.canonicals[entry.2]? = some canonical →
      entry.1.entityType = canonical.entityType := by
  induction entities using reverseRecOn generalizing state trace with
  | nil =>
    cases ended
    exact fun _ member => absurd member not_mem_nil
  | append_singleton entities entity ih =>
    obtain ⟨former, past, next, place, before, settled, same⟩ := settleAll_concat_eq_some.mp ended
    cases same
    obtain ⟨new, origin, stands, _⟩ := settle_place settled
    intro entry member canonical found
    rw [stands] at found
    rcases mem_append.mp member with old | last
    · split at found
      · rename_i here
        cases found
        obtain ⟨standing, stood⟩ := (settleAll_traced before).placed entry old
        have types := ih before entry old standing stood
        rw [here] at stood
        rcases origin.disabled with ⟨_, again, _, _, rfl⟩ | ⟨rfl, _, _⟩
        · cases stood.symm.trans again
          exact types
        · rw [List.getElem?_eq_none (Nat.le_refl _)] at stood
          cases stood
      · exact ih before entry old canonical found
    · cases mem_singleton.mp last
      rw [if_pos rfl] at found
      cases found
      rcases origin.disabled with ⟨_, _, matched, _, rfl⟩ | ⟨_, rfl, _⟩
      · exact matched.1
      · rfl

/-- What matches a canonical entity matches one of the entities that it is made of. -/
theorem exists_member_matches (ended : settleAll disabled entities = some (state, trace))
    (stood : state.canonicals[place]? = some canonical) (matched : Matches entity canonical) :
    ∃ entry ∈ trace, entry.2 = place ∧ Matches entity entry.1 := by
  obtain ⟨types, lhs, rhs, left, ⟨value, valued, shown, spelled⟩, high⟩ := matched
  obtain ⟨entry, member, rfl, source, listed, same⟩ :=
    (settleAll_traced ended).named _ _ stood value valued
  refine ⟨entry, member, rfl, ?_, lhs, rhs, left, ⟨source, listed, ?_, ?_⟩, high⟩
  · exact types.trans (settleAll_types ended entry member canonical stood).symm
  · rwa [← visible_trim, same, visible_trim]
  · rw [← normalize_trim, same, normalize_trim, spelled]

theorem spelled_mergeEntities {candidate : ExtractedEntity} {form : Chars}
    (spelled : Spelled candidate.values form) :
    Spelled (mergeEntities canonical candidate).values form := by
  obtain ⟨value, member, shown, same⟩ := spelled
  obtain ⟨kept, among, equal⟩ := (spelled_dedupeStrings
    (preferredName canonical.canonicalName candidate.canonicalName :: canonical.aliases ++
      candidate.values) form).mpr ⟨value, mem_append_right _ member, shown, same⟩
  refine ⟨kept, mem_cons_of_mem _ ?_, (mem_dedupeStrings among).1, equal⟩
  rw [mergeEntities_aliases]
  exact among

/-- All of an entity that a comparison sees is in the canonical entity. -/
structure Stays (entity canonical : ExtractedEntity) : Prop where
  types : entity.entityType = canonical.entityType
  forms : ∀ form, Spelled entity.values form → Spelled canonical.values form

theorem Matches.stays (matched : Matches entity one)
    (stays : Stays one two) : Matches entity two := by
  obtain ⟨same, lhs, rhs, left, right, high⟩ := matched
  exact ⟨same.trans stays.types, lhs, rhs, left, stays.forms rhs right, high⟩

theorem stays_of_settle (settled : settle disabled state entity = some (next, place)) :
    ∃ canonical, next.canonicals[place]? = some canonical ∧ Stays entity canonical := by
  obtain ⟨new, origin, stands, _⟩ := settle_place settled
  refine ⟨new, by rw [stands, if_pos rfl], ?_⟩
  rcases origin.disabled with ⟨_, _, matched, _, rfl⟩ | ⟨_, rfl, _⟩
  · exact ⟨matched.1, fun _ => spelled_mergeEntities⟩
  · exact ⟨rfl, fun _ => id⟩

/-- The entity that was merged last stays. -/
theorem exists_member_stays (ended : settleAll disabled entities = some (state, trace))
    (stood : state.canonicals[place]? = some canonical) :
    ∃ entry ∈ trace, entry.2 = place ∧ Stays entry.1 canonical := by
  induction entities using reverseRecOn generalizing state trace canonical with
  | nil =>
    cases ended
    cases stood
  | append_singleton entities entity ih =>
    obtain ⟨former, past, next, last, before, settled, same⟩ := settleAll_concat_eq_some.mp ended
    cases same
    obtain ⟨new, _, stands, _⟩ := settle_place settled
    by_cases here : place = last
    · obtain ⟨canonical, again, stays⟩ := stays_of_settle settled
      rw [← here] at again
      cases again.symm.trans stood
      exact ⟨_, mem_append_right _ (mem_singleton.mpr rfl), here.symm, stays⟩
    · rw [stands, if_neg here] at stood
      obtain ⟨entry, member, at_, stays⟩ := ih before stood
      exact ⟨entry, mem_append_left _ member, at_, stays⟩

/-- The place of an entity that matches, when no place before does. -/
theorem place_of_matches {index : Nat} (settled : settle disabled state entity = some (next, place))
    (stood : state.canonicals[index]? = some canonical) (matched : Matches entity canonical)
    (first : ∀ (earlier : Nat) other, earlier < index → state.canonicals[earlier]? = some other →
      ¬ Matches entity other) : place = index := by
  obtain ⟨_, origin, _⟩ := settle_place settled
  rcases origin.disabled with ⟨other, found, same, least, _⟩ | ⟨_, _, differs⟩
  · rcases Nat.lt_trichotomy place index with early | equal | late
    · exact absurd same (first place other early found)
    · exact equal
    · exact absurd matched (least index canonical late stood)
  · exact absurd matched (differs index canonical stood)

theorem place_of_differs (settled : settle disabled state entity = some (next, place))
    (differs : ∀ (index : Nat) other, state.canonicals[index]? = some other → ¬ Matches entity other) :
    place = state.canonicals.length := by
  obtain ⟨_, origin, _⟩ := settle_place settled
  rcases origin.disabled with ⟨other, found, same, _⟩ | ⟨rfl, _, _⟩
  · exact absurd same (differs _ other found)
  · rfl

/-- The first entity is the first canonical one. -/
theorem settleAll_singleton (entity : ExtractedEntity) : ∃ state,
    settleAll disabled [entity] = some (state, [(entity, 0)]) ∧ state.canonicals = [entity] :=
  ⟨_, rfl, rfl⟩

/-- The second entity joins the first one if they match. -/
theorem settleAll_pair (matched : Matches one two) : ∃ state,
    settleAll disabled [two, one] = some (state, [(two, 0), (one, 0)]) ∧
      ∃ canonical, state.canonicals[0]? = some canonical ∧ Stays one canonical := by
  obtain ⟨first, before, canonicals⟩ := settleAll_singleton two
  obtain ⟨state, place, settled⟩ := settle_disabled first one
  have stood : first.canonicals[0]? = some two := by rw [canonicals, List.getElem?_cons_zero]
  obtain rfl := place_of_matches settled stood matched fun earlier _ early =>
    absurd early (Nat.not_lt_zero earlier)
  exact ⟨state, settleAll_concat before settled, stays_of_settle settled⟩

end Members

end Asterel.EntityResolver
