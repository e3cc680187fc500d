import Asterel.Memory.ResolutionRuns
import Mathlib

/-!
# What entity resolution conserves

Evidence is never lost. A name is lost where a longer name takes its place and it is no alias,
or where a text before it has the same ASCII form without being the same; and a key that comes
twice can end in two entities.
-/

namespace Asterel.EntityResolver

open Library Library.Lines List

/-- The canonical entity has the name and the aliases of the entity, up to case and
punctuation, and its evidence. -/
structure Contains (letters : Letters) (canonical entity : ExtractedEntity) : Prop where
  names : ∀ value ∈ entity.values, ∃ kept ∈ canonical.values, letters.form kept = letters.form value
  evidence : ∀ evidence ∈ entity.evidenceIds, evidence ∈ canonical.evidenceIds

/-- Distinct keys, and every entity in the one canonical entity that its key is mapped to. -/
structure Conserves (letters : Letters) (state : Resolving) (trace : Trace) : Prop where
  distinct : (state.canonicals.map ExtractedEntity.entityKey).Nodup
  mapped : ∀ entry ∈ trace, ∃ canonical, state.canonicals[entry.2]? = some canonical ∧
    state.remap.lookup entry.1.entityKey = some canonical.entityKey ∧
    Contains letters canonical entry.1

/-- The key that stands for an endpoint: that of the output entity if it names an input entity. -/
def redirect (entities : List ExtractedEntity) (output : Chars → Chars) (key : Chars) : Chars :=
  if (entities.map ExtractedEntity.entityKey).contains key then output key else key

/-- What a resolution of entities and relations conserves. -/
structure Conserved {Content : Type} (letters : Letters) (entities : List ExtractedEntity)
    (relations : List (ExtractedRelation Content)) (resolution : EntityResolution Content) : Prop where
  distinct : (resolution.entities.map ExtractedEntity.entityKey).Nodup
  mapped : ∃ output : Chars → Chars, (∀ entity ∈ entities, ∃ canonical ∈ resolution.entities,
      canonical.entityKey = output entity.entityKey ∧ Contains letters canonical entity) ∧
    resolution.relations = relations.map fun relation =>
      { relation with
        sourceEntityKey := redirect entities output relation.sourceEntityKey
        targetEntityKey := redirect entities output relation.targetEntityKey }

/-- A text survives among others if it is the preferred name, up to case and punctuation, or a
text that is the first one of its ASCII form. -/
def Survives (letters : Letters) (name : Chars) (texts : List Chars) (value : Chars) : Prop :=
  letters.form name = letters.form value ∨
    ∃ front source back, texts = front ++ source :: back ∧ visible source = true ∧
      (∀ other ∈ front, visible other = true → normalize other ≠ normalize source) ∧
      letters.form source = letters.form value

/-- A new entity has a new key. A merged one has a new key or one that is mapped to the same
canonical entity already, and every name of both survives. -/
def KeepsAll (letters : Letters) (outcomes : Outcomes) (state : Resolving) (entity : ExtractedEntity) :
    Prop :=
  ∀ found compared, findCanonical outcomes entity state.compared state.canonicals = some (found, compared) →
    match found with
    | none => state.remap.lookup entity.entityKey = none
    | some (_, canonical, _) =>
      (∀ target, state.remap.lookup entity.entityKey = some target → target = canonical.entityKey) ∧
      ∀ value ∈ canonical.values ++ entity.values,
        let name := preferredName canonical.canonicalName entity.canonicalName
        Survives letters name (name :: canonical.aliases ++ entity.values) value

variable {letters : Letters} {outcomes : Outcomes} {state next : Resolving} {trace : Trace}
  {entity : ExtractedEntity} {place : Nat}

section Merging

theorem survives_iff {canonical : ExtractedEntity} {value : Chars} :
    (∃ kept ∈ (mergeEntities canonical entity).values, letters.form kept = letters.form value) ↔
      let name := preferredName canonical.canonicalName entity.canonicalName
      Survives letters name (name :: canonical.aliases ++ entity.values) value := by
  have values : (mergeEntities canonical entity).values =
      preferredName canonical.canonicalName entity.canonicalName :: dedupeStrings
        (preferredName canonical.canonicalName entity.canonicalName :: canonical.aliases ++
          entity.values) := congrArg (List.cons _) (mergeEntities_aliases canonical entity)
  rw [values, exists_mem_cons_iff]
  apply or_congr_right
  constructor
  · rintro ⟨kept, member, same⟩
    obtain ⟨front, source, back, split, rfl, shown, first⟩ := mem_dedupeStrings_iff.mp member
    rw [letters.form_trim] at same
    exact ⟨front, source, back, split, shown, first, same⟩
  · rintro ⟨front, source, back, split, shown, first, same⟩
    refine ⟨Text.trim source, ?_, (letters.form_trim source).trans same⟩
    exact mem_dedupeStrings_iff.mpr ⟨front, source, back, split, rfl, shown, first⟩

end Merging

section Step

/-- Keys are distinct when each stands at one place. -/
theorem distinct_iff {canonicals : List ExtractedEntity} :
    (canonicals.map ExtractedEntity.entityKey).Nodup ↔
      ∀ (first second : Nat) (one two : ExtractedEntity), canonicals[first]? = some one →
        canonicals[second]? = some two → one.entityKey = two.entityKey → first = second := by
  constructor
  · intro distinct first second one two foundOne foundTwo same
    apply (List.getElem?_inj _ distinct).mp
    · rw [List.getElem?_map, List.getElem?_map, foundOne, foundTwo, Option.map_some, Option.map_some,
        same]
    · rw [length_map]
      exact (List.getElem?_eq_some_iff.mp foundOne).1
  · intro places
    rw [nodup_iff_injective_get]
    intro first second same
    apply Fin.ext
    rw [get_eq_getElem, get_eq_getElem, getElem_map, getElem_map] at same
    exact places first second _ _ (List.getElem?_eq_getElem _) (List.getElem?_eq_getElem _) same

theorem conserves_start : Conserves letters Resolving.start [] :=
  ⟨nodup_nil, fun _ member => absurd member not_mem_nil⟩

/-- A step that conserves what came before does so because it keeps all. -/
theorem keepsAll_of_conserves (traced : Traced state trace)
    (settled : settle outcomes state entity = some (next, place))
    (conserves : Conserves letters next (trace ++ [(entity, place)])) :
    KeepsAll letters outcomes state entity := by
  obtain ⟨new, origin, stands, remap⟩ := settle_place settled
  have here : next.canonicals[place]? = some new := by rw [stands, if_pos rfl]
  have overwritten : next.remap.lookup entity.entityKey = some new.entityKey := by
    rw [remap, AList.lookup_insert]
  intro found compared searched
  cases origin with
  | @merged before after canonical _ foundHere stood =>
    cases foundHere.symm.trans searched
    refine ⟨fun target earlier => ?_, fun value valued => ?_⟩
    · obtain ⟨entry, member, keyed, former, placed, rfl⟩ := traced.remapped _ _ earlier
      obtain ⟨now, standing, mapped, _⟩ := conserves.mapped entry (mem_append_left _ member)
      rw [keyed, overwritten] at mapped
      rw [stands] at standing
      split at standing
      · rename_i same
        rw [same, stood] at placed
        cases placed
        rfl
      · cases placed.symm.trans standing
        exact (Option.some.inj mapped).symm
    · apply survives_iff.mp
      rcases mem_append.mp valued with old | own
      · obtain ⟨entry, member, at_, source, listed, same⟩ := traced.named _ _ stood value old
        obtain ⟨now, standing, _, contains⟩ := conserves.mapped entry (mem_append_left _ member)
        rw [at_, here] at standing
        cases standing
        obtain ⟨kept, among, equal⟩ := contains.names source listed
        refine ⟨kept, among, equal.trans ?_⟩
        rw [← letters.form_trim source, same, letters.form_trim]
      · obtain ⟨now, standing, _, contains⟩ := conserves.mapped (entity, before.length)
          (mem_append_right _ (mem_singleton.mpr rfl))
        rw [here] at standing
        cases standing
        exact contains.names value own
  | begun foundHere =>
    cases foundHere.symm.trans searched
    apply Option.eq_none_iff_forall_ne_some.mpr
    intro target earlier
    obtain ⟨entry, member, keyed, former, placed, _⟩ := traced.remapped _ _ earlier
    obtain ⟨now, standing, mapped, _⟩ := conserves.mapped entry (mem_append_left _ member)
    rw [keyed, overwritten] at mapped
    have last := distinct_iff.mp conserves.distinct _ _ _ _ standing here (Option.some.inj mapped).symm
    rw [last, List.getElem?_eq_none (Nat.le_refl _)] at placed
    cases placed

theorem conserves_of_keepsAll (traced : Traced state trace) (before : Conserves letters state trace)
    (settled : settle outcomes state entity = some (next, place))
    (keeps : KeepsAll letters outcomes state entity) :
    Conserves letters next (trace ++ [(entity, place)]) := by
  obtain ⟨new, origin, stands, remap⟩ := settle_place settled
  have here : next.canonicals[place]? = some new := by rw [stands, if_pos rfl]
  have overwritten : next.remap.lookup entity.entityKey = some new.entityKey := by
    rw [remap, AList.lookup_insert]
  have evidence := (traced.settle settled).evidence
  cases origin with
  | @merged before_ after canonical _ foundHere stood =>
    obtain ⟨sameTarget, survive⟩ := keeps _ _ foundHere
    have formerly : ∀ (index : Nat) (now : ExtractedEntity), next.canonicals[index]? = some now → ∃ former,
        state.canonicals[index]? = some former ∧ former.entityKey = now.entityKey := by
      intro index now standing
      rw [stands] at standing
      split at standing
      · rename_i same
        cases standing
        exact ⟨canonical, same ▸ stood, rfl⟩
      · exact ⟨now, standing, rfl⟩
    constructor
    · apply distinct_iff.mpr
      intro first second one two foundOne foundTwo same
      obtain ⟨formerOne, stoodOne, keyOne⟩ := formerly _ _ foundOne
      obtain ⟨formerTwo, stoodTwo, keyTwo⟩ := formerly _ _ foundTwo
      exact distinct_iff.mp before.distinct _ _ _ _ stoodOne stoodTwo
        (keyOne.trans (same.trans keyTwo.symm))
    · intro entry member
      rcases mem_append.mp member with old | last
      · obtain ⟨former, placed, mapped, contains⟩ := before.mapped entry old
        have mappedNow : next.remap.lookup entry.1.entityKey = some former.entityKey := by
          by_cases same : entry.1.entityKey = entity.entityKey
          · rw [same] at mapped
            rw [same, overwritten, sameTarget _ mapped]
            rfl
          · rw [remap, AList.lookup_insert_ne same, mapped]
        by_cases at_ : entry.2 = before_.length
        · rw [at_, stood] at placed
          cases placed
          refine ⟨mergeEntities canonical entity, at_ ▸ here, mappedNow, fun value valued => ?_,
            evidence entry member _ (at_ ▸ here)⟩
          obtain ⟨kept, among, same⟩ := contains.names value valued
          obtain ⟨still, listed, equal⟩ := survives_iff.mpr (survive kept (mem_append_left _ among))
          exact ⟨still, listed, equal.trans same⟩
        · refine ⟨former, ?_, mappedNow, contains⟩
          rw [stands, if_neg at_, placed]
      · cases mem_singleton.mp last
        exact ⟨_, here, overwritten,
          fun value valued => survives_iff.mpr (survive value (mem_append_right _ valued)),
          evidence _ member _ here⟩
  | begun foundHere =>
    have fresh : state.remap.lookup entity.entityKey = none := keeps _ _ foundHere
    have new_key : ∀ (index : Nat) (former : ExtractedEntity), state.canonicals[index]? = some former →
        former.entityKey ≠ entity.entityKey := by
      intro index former placed same
      obtain ⟨entry, member, _, keyed⟩ := traced.begun _ _ placed
      obtain ⟨target, known⟩ := traced.known entry member
      rw [keyed, same, fresh] at known
      cases known
    constructor
    · apply distinct_iff.mpr
      intro first second one two foundOne foundTwo same
      rw [stands] at foundOne foundTwo
      split at foundOne
      · cases foundOne
        split at foundTwo
        · rename_i atFirst atSecond
          exact atFirst.trans atSecond.symm
        · exact absurd same.symm (new_key _ _ foundTwo)
      · split at foundTwo
        · cases foundTwo
          exact absurd same (new_key _ _ foundOne)
        · exact distinct_iff.mp before.distinct _ _ _ _ foundOne foundTwo same
    · intro entry member
      rcases mem_append.mp member with old | last
      · obtain ⟨former, placed, mapped, contains⟩ := before.mapped entry old
        have elsewhere : entry.2 ≠ state.canonicals.length :=
          Nat.ne_of_lt (List.getElem?_eq_some_iff.mp placed).1
        have other : entry.1.entityKey ≠ entity.entityKey := by
          intro same
          rw [same, fresh] at mapped
          cases mapped
        refine ⟨former, ?_, ?_, contains⟩
        · rw [stands, if_neg elsewhere, placed]
        · rw [remap, AList.lookup_insert_ne other, mapped]
      · cases mem_singleton.mp last
        exact ⟨_, here, overwritten, fun value valued => ⟨value, valued, rfl⟩,
          fun _ listed => listed⟩

end Step

section Runs

variable {Content : Type} {entities : List ExtractedEntity}

/-- Everything is conserved as long as every step keeps all. -/
theorem settleAll_conserves (keeps : ∀ front entity, front ++ [entity] <+: entities → ∀ state trace,
      settleAll outcomes front = some (state, trace) → KeepsAll letters outcomes state entity)
    (ended : settleAll outcomes entities = some (state, trace)) : Conserves letters state trace := by
  induction entities using reverseRecOn generalizing state trace with
  | nil =>
    cases ended
    exact conserves_start
  | append_singleton entities entity ih =>
    obtain ⟨former, past, next, place, before, settled, same⟩ := settleAll_concat_eq_some.mp ended
    cases same
    have earlier := ih
      (fun front other prefix_ => keeps front other (prefix_.trans (prefix_append ..))) before
    exact conserves_of_keepsAll (settleAll_traced before) earlier settled
      (keeps entities entity (prefix_refl _) former past before)

/-- The output of a run that conserves. -/
theorem conserved_of_conserves {relations : List (ExtractedRelation Content)}
    {resolution : EntityResolution Content}
    (ended : settleAll outcomes entities = some (state, trace))
    (conserves : Conserves letters state trace)
    (sameEntities : resolution.entities = state.canonicals)
    (sameRelations : resolution.relations = relations.map (remapRelation state.remap)) :
    Conserved letters entities relations resolution := by
  have traced := settleAll_traced ended
  have read := settleAll_entities ended
  have output : ∀ key, (state.remap.lookup key).getD key =
      redirect entities (fun key => (state.remap.lookup key).getD key) key := by
    intro key
    rw [redirect]
    split
    · rfl
    · rename_i absent
      rw [Option.getD_eq_iff]
      refine Or.inr ⟨Option.eq_none_iff_forall_ne_some.mpr fun target found => ?_, rfl⟩
      obtain ⟨entry, member, keyed, _⟩ := traced.remapped key target found
      apply absent
      rw [contains_iff_mem, ← keyed, ← read]
      exact mem_map_of_mem (mem_map_of_mem member)
  constructor
  · rw [sameEntities]
    exact conserves.distinct
  · refine ⟨fun key => (state.remap.lookup key).getD key, fun entity member => ?_, ?_⟩
    · rw [← read] at member
      obtain ⟨entry, listed, rfl⟩ := mem_map.mp member
      obtain ⟨canonical, placed, mapped, contains⟩ := conserves.mapped entry listed
      refine ⟨canonical, ?_, ?_, contains⟩
      · rw [sameEntities]
        exact mem_of_getElem? placed
      · exact (Option.getD_eq_iff.mpr (Or.inl mapped)).symm
    · rw [sameRelations]
      apply map_congr_left
      intro relation _
      rw [← output, ← output]
      rfl

/-- The states of a resolution conserve exactly when every step keeps all, and then its output
conserves too. -/
theorem resolve_conserves_iff (letters : Letters) (outcomes : Outcomes) (entities : List ExtractedEntity) :
    ((∀ front, front <+: entities → ∀ state trace,
        settleAll outcomes front = some (state, trace) → Conserves letters state trace) ↔
      ∀ front entity, front ++ [entity] <+: entities → ∀ state trace,
        settleAll outcomes front = some (state, trace) → KeepsAll letters outcomes state entity) ∧
    ((∀ front entity, front ++ [entity] <+: entities → ∀ state trace,
        settleAll outcomes front = some (state, trace) → KeepsAll letters outcomes state entity) →
      ∀ (relations : List (ExtractedRelation Content)) (resolution : EntityResolution Content),
        resolve outcomes entities relations = some resolution →
        Conserved letters entities relations resolution) := by
  refine ⟨⟨fun conserves => ?_, fun keeps => ?_⟩, fun keeps relations resolution resolved => ?_⟩
  · intro front entity whole state trace before found compared searched
    obtain ⟨next, place, settled⟩ := settle_eq_some searched
    have after := conserves (front ++ [entity]) whole next (trace ++ [(entity, place)])
      (settleAll_concat before settled)
    exact keepsAll_of_conserves (settleAll_traced before) settled after found compared searched
  · intro front whole state trace ended
    exact settleAll_conserves (fun early entity inside => keeps early entity (inside.trans whole)) ended
  · obtain ⟨state, trace, ended, sameEntities, sameRelations⟩ := resolve_eq_some resolved
    exact conserved_of_conserves ended (settleAll_conserves keeps ended) sameEntities sameRelations

end Runs

section Losses

private def person (key name : String) : ExtractedEntity :=
  ⟨key.toList, name.toList, .identity, [], [], []⟩

/-- Two people, the name of the first being the start of the name of the second. -/
def shortAndLong : List ExtractedEntity := [person "person:bob" "Bob", person "person:bobby" "Bobby"]

/-- The shorter name is lost. -/
theorem shorter_name_lost : ¬ ∀ (letters : Letters) (outcomes : Outcomes)
    (entities : List ExtractedEntity) (relations : List (ExtractedRelation Unit))
    (resolution : EntityResolution Unit), resolve outcomes entities relations = some resolution →
    Conserved letters entities relations resolution := by
  intro conserves
  have output : (resolve Outcomes.disabled shortAndLong ([] : List (ExtractedRelation Unit))).map
      EntityResolution.entities =
        some [{ person "person:bob" "Bobby" with aliases := ["Bobby".toList] }] := by decide +kernel
  obtain ⟨resolution, resolved, same⟩ := Option.map_eq_some_iff.mp output
  obtain ⟨mapping, mapped, _⟩ :=
    (conserves Letters.exact Outcomes.disabled shortAndLong [] resolution resolved).mapped
  obtain ⟨canonical, among, _, contains⟩ := mapped _ mem_cons_self
  rw [same] at among
  obtain rfl := mem_singleton.mp among
  have lost : ¬ ∃ kept ∈ (⟨"person:bob".toList, "Bobby".toList, .identity, ["Bobby".toList], [], []⟩ :
      ExtractedEntity).values, Letters.exact.form kept = Letters.exact.form "Bob".toList := by
    decide +kernel
  exact lost (contains.names _ mem_cons_self)

end Losses

end Asterel.EntityResolver
