import Asterel.Memory.EntityMatching
import Mathlib.Tactic.Linarith

/-!
# False merges

Entities that end at one place are linked by a chain if every entity that is merged is linked
to one that is there already. The comparison drops every letter that is not ASCII, and what is
left of a name can be anybody's.
-/

namespace Asterel.EntityResolver

open Library Library.Lines List

/-- The words of two forms, nine tenths of which are shared. -/
def Similar (lhs rhs : Chars) : Prop :=
  let lhsWords := (Text.splitWhitespace lhs).toFinset
  let rhsWords := (Text.splitWhitespace rhs).toFinset
  (lhsWords ∪ rhsWords).Nonempty ∧ 9 * (lhsWords ∪ rhsWords).card ≤ 10 * (lhsWords ∩ rhsWords).card

/-- Two forms of which one is the other, is a part of it that is not empty, or shares nearly all
words with it. -/
def Close (lhs rhs : Chars) : Prop :=
  lhs = rhs ∨ lhs ≠ [] ∧ lhs <:+: rhs ∨ rhs ≠ [] ∧ rhs <:+: lhs ∨ Similar lhs rhs

/-- Entities of one type with two names or aliases that are close in all their letters. -/
def Linked (letters : Letters) (one two : ExtractedEntity) : Prop :=
  one.entityType = two.entityType ∧ ∃ lhs ∈ one.values, ∃ rhs ∈ two.values,
    Close (letters.form lhs) (letters.form rhs)

/-- A chain of links between input entities. -/
def Chained (letters : Letters) (entities : List ExtractedEntity) : ExtractedEntity → ExtractedEntity → Prop :=
  Relation.ReflTransGen fun one two => one ∈ entities ∧ two ∈ entities ∧ Linked letters one two

/-- Input entities that end in one output entity are chained. -/
def NoFalseMerges (letters : Letters) (entities : List ExtractedEntity) : Prop :=
  ∀ state trace, settleAll Outcomes.disabled entities = some (state, trace) →
    ∀ one ∈ trace, ∀ two ∈ trace, one.2 = two.2 → Chained letters entities one.1 two.1

/-- Every entity that is merged is chained to one that was merged there before. -/
def ChainedMerges (letters : Letters) (entities : List ExtractedEntity) : Prop :=
  ∀ front entity, front ++ [entity] <+: entities → ∀ state trace,
    settleAll Outcomes.disabled front = some (state, trace) → ∀ before canonical after compared,
    findCanonical Outcomes.disabled entity state.compared state.canonicals =
      some (some (before, canonical, after), compared) →
    ∃ entry ∈ trace, entry.2 = before.length ∧ Chained letters entities entity entry.1

variable {letters : Letters} {entities : List ExtractedEntity} {state : Resolving} {trace : Trace}

section Chains

theorem Similar.symm {lhs rhs : Chars} (similar : Similar lhs rhs) : Similar rhs lhs := by
  obtain ⟨some, many⟩ := similar
  rw [Finset.union_comm] at some many
  rw [Finset.inter_comm] at many
  exact ⟨some, many⟩

theorem Close.symm {lhs rhs : Chars} (close : Close lhs rhs) : Close rhs lhs := by
  rcases close with same | inside | around | similar
  · exact Or.inl same.symm
  · exact Or.inr (Or.inr (Or.inl inside))
  · exact Or.inr (Or.inl around)
  · exact Or.inr (Or.inr (Or.inr similar.symm))

theorem Linked.symm {one two : ExtractedEntity} (linked : Linked letters one two) :
    Linked letters two one := by
  obtain ⟨types, lhs, left, rhs, right, close⟩ := linked
  exact ⟨types.symm, rhs, right, lhs, left, close.symm⟩

theorem linked_self (entity : ExtractedEntity) : Linked letters entity entity :=
  ⟨rfl, entity.canonicalName, mem_cons_self, entity.canonicalName, mem_cons_self, Or.inl rfl⟩

theorem Chained.symm {one two : ExtractedEntity} (chained : Chained letters entities one two) :
    Chained letters entities two one := by
  induction chained with
  | refl => exact Relation.ReflTransGen.refl
  | tail _ step ih =>
    exact ih.head ⟨step.2.1, step.1, step.2.2.symm⟩

/-- A chain among two entities is a link. -/
theorem linked_of_chained {one two last : ExtractedEntity}
    (chained : Chained letters [two, one] one last) : Linked letters one last := by
  induction chained with
  | refl => exact linked_self one
  | @tail middle last _ step ih =>
    obtain ⟨left, right, linked⟩ := step
    rcases mem_pair.mp right with rfl | rfl
    · rcases mem_pair.mp left with rfl | rfl
      · exact ih
      · exact linked
    · exact linked_self last

end Chains

section Merges

/-- Where an entity is merged, and what it matches there. -/
theorem merged_place {before after : List ExtractedEntity} {entity canonical : ExtractedEntity}
    {compared : Nat}
    (searched : findCanonical Outcomes.disabled entity state.compared state.canonicals =
      some (some (before, canonical, after), compared)) :
    (∃ next, settle Outcomes.disabled state entity = some (next, before.length)) ∧
      state.canonicals[before.length]? = some canonical ∧ Matches entity canonical := by
  obtain ⟨next, place, settled⟩ := settle_eq_some searched
  obtain ⟨new, origin, _⟩ := settle_place settled
  obtain ⟨found, _, again, meaning⟩ :=
    findCanonical_disabled entity state.compared state.canonicals
  cases again.symm.trans searched
  cases origin with
  | merged foundHere stood =>
    cases foundHere.symm.trans searched
    exact ⟨⟨next, settled⟩, stood, meaning.1⟩
  | begun foundHere => cases foundHere.symm.trans searched

theorem chained_of_chainedMerges (merges : ChainedMerges letters entities)
    {front : List ExtractedEntity} (start : front <+: entities)
    (ended : settleAll Outcomes.disabled front = some (state, trace)) :
    ∀ one ∈ trace, ∀ two ∈ trace, one.2 = two.2 → Chained letters entities one.1 two.1 := by
  induction front using reverseRecOn generalizing state trace with
  | nil =>
    cases ended
    exact fun _ member => absurd member not_mem_nil
  | append_singleton front entity ih =>
    obtain ⟨former, past, next, place, before, settled, same⟩ := settleAll_concat_eq_some.mp ended
    cases same
    have earlier := ih ((prefix_append ..).trans start) before
    -- The entity read last is chained to everything that was at its place.
    have last : ∀ one ∈ past, one.2 = place → Chained letters entities entity one.1 := by
      intro one member here
      obtain ⟨new, origin, _⟩ := settle_place settled
      cases origin with
      | merged searched _ =>
        obtain ⟨entry, among, at_, chained⟩ :=
          merges front entity start former past before _ _ _ _ searched
        exact chained.trans (earlier entry among one member (at_.trans here.symm))
      | begun _ =>
        obtain ⟨canonical, stood⟩ := (settleAll_traced before).placed one member
        rw [here, List.getElem?_eq_none (Nat.le_refl _)] at stood
        cases stood
    intro one memberOne two memberTwo together
    rcases mem_append.mp memberOne with oldOne | lastOne
    · rcases mem_append.mp memberTwo with oldTwo | lastTwo
      · exact earlier one oldOne two oldTwo together
      · cases mem_singleton.mp lastTwo
        exact (last one oldOne together).symm
    · cases mem_singleton.mp lastOne
      rcases mem_append.mp memberTwo with oldTwo | lastTwo
      · exact last two oldTwo together.symm
      · cases mem_singleton.mp lastTwo
        exact Relation.ReflTransGen.refl

theorem chainedMerges_of_noFalseMerges (none_ : NoFalseMerges letters entities) :
    ChainedMerges letters entities := by
  intro front entity start state trace before earlier canonical after compared searched
  obtain ⟨⟨next, settled⟩, stood, _⟩ := merged_place searched
  obtain ⟨entry, member, at_, _⟩ := (settleAll_traced before).begun _ _ stood
  obtain ⟨back, rfl⟩ := start
  obtain ⟨final, whole, ended⟩ := settleAll_disabled (front ++ [entity] ++ back)
  obtain ⟨_, past, here, inside⟩ := settleAll_append ended
  cases here.symm.trans (settleAll_concat before settled)
  refine ⟨entry, member, at_, none_ final whole ended (entity, earlier.length) ?_ entry ?_ at_.symm⟩
  · exact inside.subset (mem_append_right _ (mem_singleton.mpr rfl))
  · exact inside.subset (mem_append_left _ member)

/-- No links but chained ones come from a comparison that takes only linked entities for the
same. -/
theorem chainedMerges_of_links
    (links : ∀ one ∈ entities, ∀ two ∈ entities, Matches one two → Linked letters one two) :
    ChainedMerges letters entities := by
  intro front entity start state trace before earlier canonical after compared searched
  obtain ⟨_, stood, matched⟩ := merged_place searched
  obtain ⟨entry, member, at_, same⟩ := exists_member_matches before stood matched
  have read := settleAll_entities before
  have among : entry.1 ∈ front := read ▸ mem_map_of_mem member
  have inside : entity ∈ entities := start.subset (mem_append_right _ mem_cons_self)
  have old : entry.1 ∈ entities := start.subset (mem_append_left _ among)
  exact ⟨entry, member, at_, Relation.ReflTransGen.single ⟨inside, old, links _ inside _ old same⟩⟩

/-- No list has false merges exactly when every entity that is merged is chained to one that was
merged there before. Of some set of entities no list has any exactly when the comparison takes
only linked entities of the set for the same. -/
theorem noFalseMerges_iff (letters : Letters) :
    (∀ entities, NoFalseMerges letters entities ↔ ChainedMerges letters entities) ∧
    ∀ known : ExtractedEntity → Prop,
      (∀ entities, (∀ entity ∈ entities, known entity) → NoFalseMerges letters entities) ↔
        ∀ one two, known one → known two → Matches one two → Linked letters one two := by
  refine ⟨fun entities => ⟨chainedMerges_of_noFalseMerges, fun merges _ _ ended =>
    chained_of_chainedMerges merges (prefix_refl _) ended⟩,
    fun known => ⟨fun always one two knownOne knownTwo matched => ?_, ?_⟩⟩
  · obtain ⟨state, ended, _⟩ := settleAll_pair matched
    apply linked_of_chained
    refine always [two, one] ?_ state _ ended (one, 0) ?_ (two, 0) ?_ rfl
    · exact forall_mem_cons.mpr ⟨knownTwo, forall_mem_singleton.mpr knownOne⟩
    · exact mem_cons_of_mem _ mem_cons_self
    · exact mem_cons_self
  · intro links entities allKnown state trace ended
    apply chained_of_chainedMerges (chainedMerges_of_links ?_) (prefix_refl _) ended
    intro one memberOne two memberTwo matched
    exact links one two (allKnown one memberOne) (allKnown two memberTwo) matched

end Merges

section Scripts

instance (lhs rhs : Chars) : Decidable (Similar lhs rhs) :=
  inferInstanceAs (Decidable (_ ∧ _))

instance (lhs rhs : Chars) : Decidable (Close lhs rhs) :=
  inferInstanceAs (Decidable (_ ∨ _ ∧ _ ∨ _ ∧ _ ∨ _))

private def city (key name : String) : ExtractedEntity :=
  ⟨key.toList, name.toList, .topic, [], [], []⟩

/-- Nothing is left of a name that has no ASCII letters, and that is contained in every name. -/
theorem tokyo_merges_into_london : ¬ ∀ (letters : Letters) (entities : List ExtractedEntity),
    (∀ entity ∈ entities, visible entity.canonicalName = true) → NoFalseMerges letters entities := by
  intro always
  have merged : (settleAll Outcomes.disabled [city "city:london" "London", city "city:tokyo" "東京"]).map
      Prod.snd = some [(city "city:london" "London", 0), (city "city:tokyo" "東京", 0)] := by
    decide +kernel
  obtain ⟨⟨state, _⟩, ended, rfl⟩ := Option.map_eq_some_iff.mp merged
  have chained := always Letters.exact _ (by decide +kernel) state _ ended
    (city "city:tokyo" "東京", 0) (mem_cons_of_mem _ mem_cons_self)
    (city "city:london" "London", 0) mem_cons_self rfl
  obtain ⟨_, lhs, left, rhs, right, close⟩ := linked_of_chained chained
  obtain rfl := mem_singleton.mp left
  obtain rfl := mem_singleton.mp right
  revert close
  decide +kernel

end Scripts

end Asterel.EntityResolver
