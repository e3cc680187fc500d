import Asterel.Memory.EntityMatching

/-!
# The order of extraction

Canonical entities are not compared with each other, so an entity that matches two of them is
merged into the first. The classes do not depend on the order exactly when matching is
transitive among the entities, and then no two classes match.
-/

namespace Asterel.EntityResolver

open Library Library.Lines List Outcomes

/-- Two entities that end in the same output entity. -/
def Together (trace : Trace) (one two : ExtractedEntity) : Prop :=
  ∃ place, (one, place) ∈ trace ∧ (two, place) ∈ trace

/-- Entities of one type with a common name or alias, up to case and punctuation. A blank text
is no name. -/
def SharesName (letters : Letters) (one two : ExtractedEntity) : Prop :=
  one.entityType = two.entityType ∧ ∃ lhs ∈ one.values, ∃ rhs ∈ two.values,
    visible lhs = true ∧ visible rhs = true ∧ letters.form lhs = letters.form rhs

/-- Every order of the entities gives the same classes, and no two output entities share a name. -/
def OrderIndependent (letters : Letters) (entities : List ExtractedEntity) : Prop :=
  ∀ state trace, settleAll disabled entities = some (state, trace) →
    ∀ reordered, reordered.Perm entities → ∀ other past,
      settleAll disabled reordered = some (other, past) →
      (∀ one ∈ entities, ∀ two ∈ entities, Together past one two ↔ Together trace one two) ∧
      other.canonicals.Pairwise fun one two => ¬ SharesName letters one two

/-- What matches the same entity matches. -/
def TransitiveOn (entities : List ExtractedEntity) : Prop :=
  ∀ one ∈ entities, ∀ two ∈ entities, ∀ three ∈ entities,
    Matches one two → Matches two three → Matches one three

variable {letters : Letters} {entities reordered : List ExtractedEntity} {state : Resolving}
  {trace : Trace} {one two three : ExtractedEntity}

section Classes

/-- An entity has one place. -/
theorem place_unique (distinct : entities.Nodup)
    (ended : settleAll disabled entities = some (state, trace)) {first second : Nat}
    (memberOne : (one, first) ∈ trace) (memberTwo : (one, second) ∈ trace) : first = second := by
  rw [← settleAll_entities ended] at distinct
  have same := inj_on_of_nodup_map distinct memberOne memberTwo rfl
  exact congrArg Prod.snd same

theorem exists_place (ended : settleAll disabled entities = some (state, trace))
    (member : one ∈ entities) : ∃ place, (one, place) ∈ trace := by
  rw [← settleAll_entities ended] at member
  obtain ⟨entry, among, rfl⟩ := mem_map.mp member
  exact ⟨entry.2, among⟩

/-- Entities are together when they are the same or match. -/
def Grouped (trace : Trace) : Prop :=
  ∀ one ∈ trace, ∀ two ∈ trace, one.2 = two.2 ↔ one.1 = two.1 ∨ Matches one.1 two.1

theorem TransitiveOn.alike (transitive : TransitiveOn entities) (memberOne : one ∈ entities)
    (memberTwo : two ∈ entities) (memberThree : three ∈ entities) (matched : Matches one two)
    (alike : two = three ∨ Matches two three) : Matches one three := by
  rcases alike with rfl | further
  · exact matched
  · exact transitive one memberOne two memberTwo three memberThree matched further

/-- One round keeps the classes of a transitive comparison. -/
theorem Grouped.concat {front : List ExtractedEntity} {entity : ExtractedEntity} {next : Resolving}
    {place : Nat} (grouped : Grouped trace) (ended : settleAll disabled front = some (state, trace))
    (settled : settle disabled state entity = some (next, place))
    (fresh : entity ∉ front) (transitive : TransitiveOn entities)
    (inside : ∀ other ∈ front ++ [entity], other ∈ entities) :
    Grouped (trace ++ [(entity, place)]) := by
  have known : ∀ entry ∈ trace, entry.1 ∈ front := fun entry member =>
    settleAll_entities ended ▸ mem_map_of_mem member
  have read : ∀ entry ∈ trace, entry.1 ∈ entities := fun entry member =>
    inside _ (mem_append_left _ (known entry member))
  have reads : entity ∈ entities := inside _ (mem_append_right _ mem_cons_self)
  obtain ⟨new, origin, _⟩ := settle_place settled
  -- The place of a canonical entity that matches has an entity that matches, and conversely.
  have joins : ∀ entry ∈ trace, place = entry.2 ↔ Matches entity entry.1 := by
    intro entry member
    obtain ⟨canonical, stood⟩ := (settleAll_traced ended).placed entry member
    constructor
    · rintro rfl
      rcases origin.disabled with ⟨_, again, matched, _⟩ | ⟨beyond, _⟩
      · obtain ⟨other, among, at_, same⟩ := exists_member_matches ended again matched
        exact transitive.alike reads (read other among) (read entry member) same
          ((grouped other among entry member).mp at_)
      · rw [beyond, List.getElem?_eq_none (Nat.le_refl _)] at stood
        cases stood
    · intro matched
      obtain ⟨last, among, at_, stays⟩ := exists_member_stays ended stood
      have whole : Matches entity canonical := (transitive.alike reads (read entry member)
        (read last among) matched ((grouped entry member last among).mp at_.symm)).stays stays
      apply place_of_matches settled stood whole
      intro earlier other early standing again
      obtain ⟨member_, amongst, there, same⟩ := exists_member_matches ended standing again
      have close := transitive _ (read member_ amongst) _ reads _ (read entry member) same.symm matched
      have equal := (grouped member_ amongst entry member).mpr (Or.inr close)
      exact absurd (there.symm.trans equal) (Nat.ne_of_lt early)
  have apart : ∀ entry ∈ trace, entity ≠ entry.1 := fun entry member same =>
    fresh (same ▸ known entry member)
  intro left memberLeft right memberRight
  rcases mem_append.mp memberLeft with oldLeft | lastLeft
  · rcases mem_append.mp memberRight with oldRight | lastRight
    · exact grouped left oldLeft right oldRight
    · cases mem_singleton.mp lastRight
      rw [eq_comm, joins left oldLeft, or_iff_right (apart left oldLeft).symm]
      exact ⟨Matches.symm, Matches.symm⟩
  · cases mem_singleton.mp lastLeft
    rcases mem_append.mp memberRight with oldRight | lastRight
    · rw [joins right oldRight, or_iff_right (apart right oldRight)]
    · cases mem_singleton.mp lastRight
      exact iff_of_true rfl (Or.inl rfl)

theorem settleAll_grouped (distinct : entities.Nodup) (transitive : TransitiveOn reordered)
    (inside : ∀ entity ∈ entities, entity ∈ reordered)
    (ended : settleAll disabled entities = some (state, trace)) : Grouped trace := by
  induction entities using reverseRecOn generalizing state trace with
  | nil =>
    cases ended
    exact fun _ member => absurd member not_mem_nil
  | append_singleton front entity ih =>
    obtain ⟨former, past, next, place, before, settled, same⟩ := settleAll_concat_eq_some.mp ended
    cases same
    have earlier := ih (distinct.sublist (sublist_append_left ..))
      (fun other member => inside other (mem_append_left _ member)) before
    apply earlier.concat before settled ?_ transitive inside
    exact fun member => disjoint_of_nodup_append distinct member mem_cons_self

variable (grouped : Grouped trace)
  (ended : settleAll disabled entities = some (state, trace))
include grouped ended

theorem together_iff (memberOne : one ∈ entities)
    (memberTwo : two ∈ entities) : Together trace one two ↔ one = two ∨ Matches one two := by
  obtain ⟨first, placedOne⟩ := exists_place ended memberOne
  obtain ⟨second, placedTwo⟩ := exists_place ended memberTwo
  have together := grouped _ placedOne _ placedTwo
  constructor
  · rintro ⟨place, left, right⟩
    exact (grouped _ left _ right).mp rfl
  · intro alike
    obtain rfl : first = second := together.mpr alike
    exact ⟨first, placedOne, placedTwo⟩

/-- Output entities that share a name come from entities that match. -/
theorem canonicals_apart :
    state.canonicals.Pairwise fun one two => ¬ SharesName letters one two := by
  apply pairwise_iff_getElem.mpr
  rintro first second insideFirst insideSecond early ⟨types, lhs, left, rhs, right, shown, seen, same⟩
  have matched : Matches state.canonicals[first] state.canonicals[second] := by
    refine ⟨types, normalize lhs, normalize lhs, ⟨lhs, left, shown, rfl⟩, ⟨rhs, right, seen, ?_⟩,
      scoreOf_self _⟩
    rw [← letters.normalize_form, ← letters.normalize_form lhs, same]
  obtain ⟨later, memberLater, atSecond, close⟩ :=
    exists_member_matches ended (List.getElem?_eq_getElem insideSecond) matched
  obtain ⟨former, memberFormer, atFirst, closer⟩ :=
    exists_member_matches ended (List.getElem?_eq_getElem insideFirst) close.symm
  have equal := (grouped later memberLater former memberFormer).mpr (Or.inr closer)
  exact absurd (atFirst.symm.trans (equal.symm.trans atSecond)) (Nat.ne_of_lt early)

end Classes

section Orders

/-- An entity between two that matches both brings them together. -/
theorem settleAll_between (left : Matches two one) (right : Matches three two) : ∃ state,
    settleAll disabled [one, two, three] = some (state, [(one, 0), (two, 0), (three, 0)]) := by
  obtain ⟨first, before, canonical, stood, stays⟩ := settleAll_pair left
  obtain ⟨state, place, settled⟩ := settle_disabled first three
  obtain rfl := place_of_matches settled stood (right.stays stays) fun earlier _ early =>
    absurd early (Nat.not_lt_zero earlier)
  exact ⟨state, settleAll_concat before settled⟩

theorem settleAll_apart (differ : ¬ Matches two one) : ∃ state,
    settleAll disabled [one, two] = some (state, [(one, 0), (two, 1)]) := by
  obtain ⟨first, before, canonicals⟩ := settleAll_singleton one
  obtain ⟨state, place, settled⟩ := settle_disabled first two
  have last := place_of_differs settled fun index other stood => by
    obtain rfl := mem_singleton.mp (canonicals ▸ mem_of_getElem? stood)
    exact differ
  rw [canonicals, length_singleton] at last
  subst last
  exact ⟨state, settleAll_concat before settled⟩

theorem transitiveOn_of_orderIndependent (distinct : entities.Nodup)
    (independent : OrderIndependent letters entities) : TransitiveOn entities := by
  intro one memberOne two memberTwo three memberThree left right
  by_contra differ
  have unequalLeft : one ≠ two := fun same => differ (same ▸ right)
  have unequalRight : two ≠ three := fun same => differ (same ▸ left)
  have unequal : one ≠ three := by
    rintro rfl
    obtain ⟨_, form, _, spelled, _⟩ := left
    exact differ ⟨rfl, form, form, spelled, spelled, scoreOf_self form⟩
  obtain ⟨rest, order⟩ : ∃ rest, entities.Perm ([one, two, three] ++ rest) := by
    have differently : [one, two, three].Nodup := by
      simp [unequalLeft, unequalRight, unequal]
    have inside : [one, two, three] ⊆ entities := by
      simp [memberOne, memberTwo, memberThree]
    obtain ⟨part, same, sublist⟩ := subperm_of_subset differently inside
    obtain ⟨rest, whole⟩ := sublist.exists_perm_append
    exact ⟨rest, whole.trans (same.append_right rest)⟩
  obtain ⟨state, trace, ended⟩ := settleAll_disabled entities
  -- Read in this order, the first three are together.
  obtain ⟨final, whole, run⟩ := settleAll_disabled ([one, two, three] ++ rest)
  obtain ⟨_, _, start, early⟩ := settleAll_append run
  obtain ⟨_, three_⟩ := settleAll_between left.symm right.symm
  cases start.symm.trans three_
  have together : Together whole one three :=
    ⟨0, early.subset (by simp), early.subset (by simp)⟩
  -- With the third one before the second, the first and the third are apart.
  obtain ⟨last, other, rerun⟩ := settleAll_disabled ([one, three] ++ two :: rest)
  obtain ⟨_, _, begin_, soon⟩ := settleAll_append rerun
  obtain ⟨_, pair⟩ := settleAll_apart fun matched => differ matched.symm
  cases begin_.symm.trans pair
  have reorder : ([one, three] ++ two :: rest).Perm entities :=
    ((Perm.swap two three rest).cons one).trans order.symm
  have same := ((independent state trace ended _ order.symm final whole run).1 one memberOne three
    memberThree).trans ((independent state trace ended _ reorder last other rerun).1 one memberOne
      three memberThree).symm
  obtain ⟨place, at_, there⟩ := same.mp together
  have nodup := reorder.nodup_iff.mpr distinct
  have zero := place_unique nodup rerun at_ (soon.subset mem_cons_self)
  have next := place_unique nodup rerun there (soon.subset (mem_cons_of_mem _ mem_cons_self))
  exact Nat.zero_ne_one (zero.symm.trans next)

/-- The classes do not depend on the order, and no two output entities share a name, exactly when
matching is transitive among the entities. -/
theorem orderIndependent_iff (letters : Letters) (entities : List ExtractedEntity)
    (distinct : (entities.map ExtractedEntity.entityKey).Nodup) :
    OrderIndependent letters entities ↔ TransitiveOn entities := by
  have nodup : entities.Nodup := Nodup.of_map _ distinct
  constructor
  · exact transitiveOn_of_orderIndependent nodup
  · intro transitive state trace ended reordered order other past again
    have grouped := settleAll_grouped nodup transitive (fun _ => id) ended
    have regrouped := settleAll_grouped (order.nodup_iff.mpr nodup) transitive
      (fun _ => order.mem_iff.mp) again
    refine ⟨fun one memberOne two memberTwo => ?_, canonicals_apart regrouped again⟩
    rw [together_iff grouped ended memberOne memberTwo,
      together_iff regrouped again (order.mem_iff.mpr memberOne) (order.mem_iff.mpr memberTwo)]

private def friend (key name : String) (aliases : List String) : ExtractedEntity :=
  ⟨key.toList, name.toList, .identity, aliases.map String.toList, [], []⟩

theorem orderIndependent_of_two : OrderIndependent Letters.exact
    [friend "person:ann" "Ann" [], friend "person:bea" "Bea" []] ↔
      TransitiveOn [friend "person:ann" "Ann" [], friend "person:bea" "Bea" []] :=
  orderIndependent_iff Letters.exact _ (by decide +kernel)

/-- A third entity with both names is merged into the first of the two. -/
theorem bridge_depends_on_order : ¬ ∀ (letters : Letters) (entities : List ExtractedEntity),
    (entities.map ExtractedEntity.entityKey).Nodup → OrderIndependent letters entities := by
  intro always
  have last : (settleAll disabled [friend "person:ann" "Ann" [], friend "person:bea" "Bea" [],
      friend "person:ann-bea" "Ann" ["Bea"]]).map Prod.snd =
        some [(friend "person:ann" "Ann" [], 0), (friend "person:bea" "Bea" [], 1),
          (friend "person:ann-bea" "Ann" ["Bea"], 0)] := by decide +kernel
  have between : (settleAll disabled [friend "person:ann" "Ann" [],
      friend "person:ann-bea" "Ann" ["Bea"], friend "person:bea" "Bea" []]).map Prod.snd =
        some [(friend "person:ann" "Ann" [], 0), (friend "person:ann-bea" "Ann" ["Bea"], 0),
          (friend "person:bea" "Bea" [], 0)] := by decide +kernel
  obtain ⟨⟨state, trace⟩, ended, rfl⟩ := Option.map_eq_some_iff.mp last
  obtain ⟨⟨other, past⟩, again, rfl⟩ := Option.map_eq_some_iff.mp between
  have distinct : ([friend "person:ann" "Ann" [], friend "person:bea" "Bea" [],
      friend "person:ann-bea" "Ann" ["Bea"]].map ExtractedEntity.entityKey).Nodup := by decide +kernel
  have independent := always Letters.exact _ distinct state _ ended
    [friend "person:ann" "Ann" [], friend "person:ann-bea" "Ann" ["Bea"], friend "person:bea" "Bea" []]
    ((Perm.swap _ _ []).cons _) other _ again
  obtain ⟨place, ann, bea⟩ := (independent.1 (friend "person:ann" "Ann" []) mem_cons_self
    (friend "person:bea" "Bea" []) (mem_cons_of_mem _ mem_cons_self)).mp
      ⟨0, mem_cons_self, mem_cons_of_mem _ (mem_cons_of_mem _ mem_cons_self)⟩
  have nodup := Nodup.of_map _ distinct
  have zero := place_unique nodup ended ann mem_cons_self
  have one := place_unique nodup ended bea (mem_cons_of_mem _ mem_cons_self)
  exact Nat.zero_ne_one (zero.symm.trans one)

end Orders

end Asterel.EntityResolver
