import Asterel.Memory.ResolvedNames

/-!
# Runs of entity resolution

A run is followed with a trace: every entity that was read, with the place of the canonical
entity it ended in. Places do not change later, and what stands at a place is made of the
entities that ended there.
-/

namespace Asterel.EntityResolver

variable {candidate canonical : ExtractedEntity} {run : Resolving × Trace}

open Library Library.Lines List Option

abbrev Trace := List (ExtractedEntity × Nat)

variable (outcomes : Outcomes)

def settleTraced (run : Resolving × Trace) (entity : ExtractedEntity) : Option (Resolving × Trace) :=
  (settle outcomes run.1 entity).map fun settled => (settled.1, run.2 ++ [(entity, settled.2)])

/-- The state and the trace after the entities. -/
def settleAll (entities : List ExtractedEntity) : Option (Resolving × Trace) :=
  entities.foldlM (settleTraced outcomes) (Resolving.start, [])

variable {outcomes} {entities : List ExtractedEntity} {entity : ExtractedEntity}
  {state next : Resolving} {trace : Trace} {place : Nat}

theorem settleAll_concat_eq_some :
    settleAll outcomes (entities ++ [entity]) = some run ↔
      ∃ state trace next place, settleAll outcomes entities = some (state, trace) ∧
        settle outcomes state entity = some (next, place) ∧ run = (next, trace ++ [(entity, place)]) := by
  unfold settleAll
  rw [foldlM_append]
  simp only [bind_eq_bind, bind_eq_some_iff, foldlM_cons, foldlM_nil,
    settleTraced, map_eq_some_iff, Prod.exists, Option.pure_def, Option.some.injEq]
  constructor
  · rintro ⟨state, trace, before, _, _, ⟨next, place, settled, same⟩, rfl⟩
    cases same
    exact ⟨state, trace, _, _, before, settled, rfl⟩
  · rintro ⟨state, trace, next, place, before, settled, rfl⟩
    exact ⟨state, trace, before, _, _, ⟨next, place, settled, rfl⟩, rfl⟩

/-- A run with one more round. -/
theorem settleAll_concat (before : settleAll outcomes entities = some (state, trace))
    (settled : settle outcomes state entity = some (next, place)) :
    settleAll outcomes (entities ++ [entity]) = some (next, trace ++ [(entity, place)]) :=
  settleAll_concat_eq_some.mpr ⟨state, trace, next, place, before, settled, rfl⟩

/-- A state does not know of the trace. -/
theorem foldlM_settle (entities : List ExtractedEntity) (run : Resolving × Trace) :
    entities.foldlM (fun state entity => (settle outcomes state entity).map Prod.fst) run.1 =
      (entities.foldlM (settleTraced outcomes) run).map Prod.fst := by
  induction entities generalizing run with
  | nil => rfl
  | cons entity entities ih =>
    rw [foldlM_cons, foldlM_cons, settleTraced]
    cases settled : settle outcomes run.1 entity with
    | none => rfl
    | some result => exact ih (result.1, run.2 ++ [(entity, result.2)])

/-- A resolution that succeeds is the end of a run. -/
theorem resolve_eq_some {Content : Type} {relations : List (ExtractedRelation Content)}
    {resolution : EntityResolution Content}
    (resolved : resolve outcomes entities relations = some resolution) :
    ∃ state trace, settleAll outcomes entities = some (state, trace) ∧
      resolution.entities = state.canonicals ∧
      resolution.relations = relations.map (remapRelation state.remap) := by
  rw [resolve, foldlM_settle entities (Resolving.start, []), bind_eq_bind, bind_eq_some_iff] at resolved
  obtain ⟨state, ended, same⟩ := resolved
  obtain ⟨run, whole, rfl⟩ := map_eq_some_iff.mp ended
  cases same
  exact ⟨run.1, run.2, whole, rfl, rfl⟩

theorem settleAll_entities (ended : settleAll outcomes entities = some run) :
    run.2.map Prod.fst = entities := by
  induction entities using reverseRecOn generalizing run with
  | nil =>
    cases ended
    rfl
  | append_singleton entities entity ih =>
    obtain ⟨state, trace, next, place, before, _, rfl⟩ := settleAll_concat_eq_some.mp ended
    rw [map_append, ih before]
    rfl

/-- Entities that come later do not change the trace. -/
theorem settleAll_append {front back : List ExtractedEntity}
    (ended : settleAll outcomes (front ++ back) = some run) :
    ∃ state trace, settleAll outcomes front = some (state, trace) ∧ trace <+: run.2 := by
  induction back using reverseRecOn generalizing run with
  | nil =>
    rw [append_nil] at ended
    exact ⟨run.1, run.2, ended, prefix_refl _⟩
  | append_singleton back entity ih =>
    rw [← append_assoc] at ended
    obtain ⟨former, past, next, place, before, _, rfl⟩ := settleAll_concat_eq_some.mp ended
    obtain ⟨state, trace, early, start⟩ := ih before
    exact ⟨state, trace, early, start.trans (prefix_append ..)⟩

/-- What an entity was merged into stands between the others. -/
theorem findCanonical_parts {comparison compared : Nat} {canonicals before after : List ExtractedEntity}
    (found : findCanonical outcomes entity comparison canonicals =
      some (some (before, canonical, after), compared)) : canonicals = before ++ canonical :: after := by
  induction canonicals generalizing comparison before with
  | nil => cases found
  | cons first rest ih =>
    simp only [findCanonical, bind_eq_bind, bind_eq_some_iff] at found
    obtain ⟨merges, _, found⟩ := found
    split at found
    · cases found
      rfl
    · obtain ⟨⟨result, after_⟩, later, found⟩ := bind_eq_some_iff.mp found
      cases result with
      | none => cases found
      | some parts =>
        cases found
        rw [ih later]
        rfl

theorem getElem?_middle {α : Type} (before after : List α) (old new : α) (index : Nat) :
    (before ++ new :: after)[index]? =
      if index = before.length then some new else (before ++ old :: after)[index]? := by
  rcases Nat.lt_trichotomy index before.length with early | same | late
  · rw [if_neg (Nat.ne_of_lt early), List.getElem?_append_left early, List.getElem?_append_left early]
  · subst same
    rw [if_pos rfl, List.getElem?_append_right (Nat.le_refl _), Nat.sub_self, List.getElem?_cons_zero]
  · rw [if_neg (Nat.ne_of_gt late), List.getElem?_append_right (Nat.le_of_lt late),
      List.getElem?_append_right (Nat.le_of_lt late)]
    obtain ⟨gap, positive⟩ := Nat.exists_eq_succ_of_ne_zero (Nat.sub_ne_zero_of_lt late)
    rw [positive, List.getElem?_cons_succ, List.getElem?_cons_succ]

/-- What is put at a place for an entity: a canonical entity it is merged into, or itself. -/
inductive Origin (outcomes : Outcomes) (state : Resolving) (entity : ExtractedEntity) :
    Nat → ExtractedEntity → Prop
  | merged {before after : List ExtractedEntity} {canonical : ExtractedEntity} {compared : Nat}
      (found : findCanonical outcomes entity state.compared state.canonicals =
        some (some (before, canonical, after), compared))
      (stood : state.canonicals[before.length]? = some canonical) :
      Origin outcomes state entity before.length (mergeEntities canonical entity)
  | begun {compared : Nat}
      (found : findCanonical outcomes entity state.compared state.canonicals = some (none, compared)) :
      Origin outcomes state entity state.canonicals.length entity

/-- One round changes what stands at one place. -/
theorem settle_place (settled : settle outcomes state entity = some (next, place)) :
    ∃ new, Origin outcomes state entity place new ∧ (∀ index, next.canonicals[index]? =
        if index = place then some new else state.canonicals[index]?) ∧
      next.remap = state.remap.insert entity.entityKey new.entityKey := by
  rw [settle, bind_eq_bind, bind_eq_some_iff] at settled
  obtain ⟨⟨found, compared⟩, searched, settled⟩ := settled
  cases found with
  | none =>
    cases settled
    refine ⟨entity, Origin.begun searched, fun index => ?_, rfl⟩
    rw [List.getElem?_append]
    split
    · rename_i early
      rw [if_neg (Nat.ne_of_lt early)]
    · rename_i late
      by_cases same : index = state.canonicals.length
      · subst same
        rw [if_pos rfl, Nat.sub_self, List.getElem?_cons_zero]
      · rw [if_neg same, List.getElem?_eq_none (by rw [length_singleton]; omega),
          List.getElem?_eq_none (by omega)]
  | some parts =>
    obtain ⟨before, canonical, after⟩ := parts
    cases settled
    have split := findCanonical_parts searched
    refine ⟨_, Origin.merged searched ?_, fun index => ?_, rfl⟩
    · rw [split, List.getElem?_append_right (Nat.le_refl _), Nat.sub_self, List.getElem?_cons_zero]
    · rw [split]
      exact getElem?_middle before after canonical _ index

/-- A round fails only where a comparison does. -/
theorem settle_eq_some {found : Option (List ExtractedEntity × ExtractedEntity × List ExtractedEntity)}
    {compared : Nat}
    (searched : findCanonical outcomes entity state.compared state.canonicals = some (found, compared)) :
    ∃ next place, settle outcomes state entity = some (next, place) := by
  rw [settle, searched, bind_eq_bind, bind_some]
  cases found with
  | none => exact ⟨_, _, rfl⟩
  | some parts => exact ⟨_, _, rfl⟩

theorem mem_mergeEntities_evidence {evidence : Chars} :
    evidence ∈ (mergeEntities canonical candidate).evidenceIds ↔
      evidence ∈ canonical.evidenceIds ∨ evidence ∈ candidate.evidenceIds := by
  rw [← mem_append]
  constructor
  · exact mem_of_mem_dedupeBy
  · intro member
    have fresh : id evidence ∉ ([] : List Chars) := not_mem_nil
    obtain ⟨kept, among, same⟩ := exists_mem_dedupeBy member fresh
    rw [id, id] at same
    exact same ▸ among

/-- Merging makes no new names. -/
theorem mem_mergeEntities_values {value : Chars}
    (member : value ∈ (mergeEntities canonical candidate).values) :
    ∃ source ∈ canonical.values ++ candidate.values, Text.trim source = Text.trim value := by
  have preferredIn : preferredName canonical.canonicalName candidate.canonicalName ∈
      canonical.values ++ candidate.values := by
    rcases preferredName_cases canonical.canonicalName candidate.canonicalName with same | same
    · rw [same]
      exact mem_append_left _ mem_cons_self
    · rw [same]
      exact mem_append_right _ mem_cons_self
  rcases mem_cons.mp member with rfl | member
  · exact ⟨_, preferredIn, rfl⟩
  · rw [mergeEntities_aliases] at member
    obtain ⟨_, source, among, rfl⟩ := mem_dedupeStrings member
    refine ⟨source, ?_, (Text.trim_trim source).symm⟩
    rcases mem_append.mp among with early | late
    · rcases mem_cons.mp early with rfl | early
      · exact preferredIn
      · exact mem_append_left _ (mem_cons_of_mem _ early)
    · exact mem_append_right _ late

/-- What stands at a place is made of the entities that ended there. -/
structure Traced (state : Resolving) (trace : Trace) : Prop where
  placed : ∀ entry ∈ trace, ∃ canonical, state.canonicals[entry.2]? = some canonical
  begun : ∀ place canonical, state.canonicals[place]? = some canonical →
    ∃ entry ∈ trace, entry.2 = place ∧ entry.1.entityKey = canonical.entityKey
  named : ∀ place canonical, state.canonicals[place]? = some canonical →
    ∀ value ∈ canonical.values, ∃ entry ∈ trace, entry.2 = place ∧
      ∃ source ∈ entry.1.values, Text.trim source = Text.trim value
  evidence : ∀ entry ∈ trace, ∀ canonical, state.canonicals[entry.2]? = some canonical →
    ∀ evidence ∈ entry.1.evidenceIds, evidence ∈ canonical.evidenceIds
  remapped : ∀ key target, state.remap.lookup key = some target →
    ∃ entry ∈ trace, entry.1.entityKey = key ∧
      ∃ canonical, state.canonicals[entry.2]? = some canonical ∧ canonical.entityKey = target
  known : ∀ entry ∈ trace, ∃ target, state.remap.lookup entry.1.entityKey = some target

theorem traced_start : Traced Resolving.start [] where
  placed := fun _ member => absurd member not_mem_nil
  begun := fun _ _ found => nomatch found
  named := fun _ _ found => nomatch found
  evidence := fun _ member => absurd member not_mem_nil
  remapped := fun _ _ found => nomatch found
  known := fun _ member => absurd member not_mem_nil

theorem Traced.settle (traced : Traced state trace)
    (settled : settle outcomes state entity = some (next, place)) :
    Traced next (trace ++ [(entity, place)]) := by
  obtain ⟨new, origin, stands, remap⟩ := settle_place settled
  have here : next.canonicals[place]? = some new := by rw [stands, if_pos rfl]
  have newest : (entity, place) ∈ trace ++ [(entity, place)] :=
    mem_append_right _ (mem_singleton.mpr rfl)
  have sameKey : ∀ canonical, state.canonicals[place]? = some canonical →
      new.entityKey = canonical.entityKey ∧ new = mergeEntities canonical entity := by
    intro canonical stood
    cases origin with
    | merged _ standing =>
      cases standing.symm.trans stood
      exact ⟨rfl, rfl⟩
    | begun _ =>
      rw [List.getElem?_eq_none (Nat.le_refl _)] at stood
      cases stood
  refine ⟨?_, ?_, ?_, ?_, ?_, ?_⟩
  · intro entry member
    rcases mem_append.mp member with old | last
    · obtain ⟨canonical, stood⟩ := traced.placed entry old
      rw [stands]
      split
      · exact ⟨new, rfl⟩
      · exact ⟨canonical, stood⟩
    · cases mem_singleton.mp last
      exact ⟨new, here⟩
  · intro index canonical found
    rw [stands] at found
    split at found
    · rename_i same
      cases found
      cases origin with
      | merged _ stood =>
        obtain ⟨entry, member, at_, key⟩ := traced.begun _ _ stood
        exact ⟨entry, mem_append_left _ member, at_.trans same.symm, key⟩
      | begun _ => exact ⟨_, newest, same.symm, rfl⟩
    · obtain ⟨entry, member, at_, key⟩ := traced.begun index canonical found
      exact ⟨entry, mem_append_left _ member, at_, key⟩
  · intro index canonical found value valued
    rw [stands] at found
    split at found
    · rename_i same
      cases found
      cases origin with
      | merged _ stood =>
        obtain ⟨source, among, trimmed⟩ := mem_mergeEntities_values valued
        rcases mem_append.mp among with old | own
        · obtain ⟨entry, member, at_, origin, listed, equal⟩ := traced.named _ _ stood source old
          exact ⟨entry, mem_append_left _ member, at_.trans same.symm, origin, listed,
            equal.trans trimmed⟩
        · exact ⟨_, newest, same.symm, source, own, trimmed⟩
      | begun _ => exact ⟨_, newest, same.symm, value, valued, rfl⟩
    · obtain ⟨entry, member, at_, origin⟩ := traced.named index canonical found value valued
      exact ⟨entry, mem_append_left _ member, at_, origin⟩
  · intro entry member canonical found evidence listed
    rw [stands] at found
    rcases mem_append.mp member with old | last
    · obtain ⟨former, stood⟩ := traced.placed entry old
      have kept := traced.evidence entry old former stood evidence listed
      split at found
      · rename_i same
        cases found
        rw [same] at stood
        rw [(sameKey former stood).2]
        exact mem_mergeEntities_evidence.mpr (Or.inl kept)
      · cases stood.symm.trans found
        exact kept
    · cases mem_singleton.mp last
      rw [if_pos rfl] at found
      cases found
      cases origin with
      | merged _ _ => exact mem_mergeEntities_evidence.mpr (Or.inr listed)
      | begun _ => exact listed
  · intro key target found
    rw [remap] at found
    by_cases same : key = entity.entityKey
    · subst same
      rw [AList.lookup_insert] at found
      cases found
      exact ⟨_, newest, rfl, new, here, rfl⟩
    · rw [AList.lookup_insert_ne same] at found
      obtain ⟨entry, member, keyed, canonical, stood, targeted⟩ := traced.remapped key target found
      refine ⟨entry, mem_append_left _ member, keyed, ?_⟩
      rw [stands]
      split
      · rename_i at_
        rw [at_] at stood
        exact ⟨new, rfl, (sameKey canonical stood).1.trans targeted⟩
      · exact ⟨canonical, stood, targeted⟩
  · intro entry member
    rw [remap]
    by_cases same : entry.1.entityKey = entity.entityKey
    · rw [same, AList.lookup_insert]
      exact ⟨_, rfl⟩
    · rw [AList.lookup_insert_ne same]
      rcases mem_append.mp member with old | last
      · exact traced.known entry old
      · cases mem_singleton.mp last
        exact absurd rfl same

theorem settleAll_traced (ended : settleAll outcomes entities = some (state, trace)) :
    Traced state trace := by
  induction entities using reverseRecOn generalizing state trace with
  | nil =>
    cases ended
    exact traced_start
  | append_singleton entities entity ih =>
    obtain ⟨former, past, next, place, before, settled, same⟩ := settleAll_concat_eq_some.mp ended
    cases same
    exact (ih before).settle settled

end Asterel.EntityResolver
