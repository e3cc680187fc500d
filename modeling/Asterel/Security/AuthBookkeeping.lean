import Asterel.Library.Transitions
import Asterel.Security.AuthStore

/-!
# The bookkeeping of credential profiles

After every change the maps of the store are rebuilt from the profiles and the ids that the maps
list, in the iteration order of the hash maps. The rebuilt maps fit the profiles in any order.
The default of a target key stays what it was unless another default is moved onto that key:
then the two claim it, and the one iterated last has it.
-/

namespace Asterel.Auth

open Library Library.Text Library.Transitions List AList HashMap

section Normalization

variable {provider : Chars} {authRoute authScheme oauthSource : Option Chars} {route : Chars}

/-- A canonical route is normalized. -/
theorem normalizedText_canonicalAuthRoute
    (canonical : canonicalAuthRoute provider authRoute authScheme oauthSource = some route) :
    normalizedText route = some route := by
  have ofBind : ∀ {text : Option Chars} {name : Chars}, text.bind normalizedText = some name →
      normalizedText name = some name := by
    intro text name normalized
    obtain ⟨raw, _, normalized⟩ := Option.bind_eq_some_iff.mp normalized
    obtain ⟨plain, some⟩ := normalizedText_eq_some normalized
    exact normalizedText_of_plain plain some
  unfold canonicalAuthRoute at canonical
  split at canonical
  · rename_i given
    cases canonical
    exact ofBind given
  · dsimp only at canonical
    split at canonical
    · rcases Option.or_eq_some_iff.mp canonical with source | ⟨_, oauth⟩
      · exact ofBind source
      · cases oauth
        decide
    · split at canonical
      · cases canonical
        decide
      · rcases Option.or_eq_some_iff.mp canonical with requested | ⟨_, source⟩
        · obtain ⟨_, codex⟩ := Option.ite_none_right_eq_some.mp requested
          cases codex
          decide
        · exact ofBind source

/-- A canonical route is kept with the canonical provider. -/
theorem canonicalAuthRoute_canonical (provider : Chars)
    (authRoute authScheme oauthSource : Option Chars) :
    canonicalAuthRoute (canonicalProviderName provider)
      (canonicalAuthRoute provider authRoute authScheme oauthSource) authScheme oauthSource =
      canonicalAuthRoute provider authRoute authScheme oauthSource := by
  cases canonical : canonicalAuthRoute provider authRoute authScheme oauthSource with
  | some route =>
    have normalized := normalizedText_canonicalAuthRoute canonical
    unfold canonicalAuthRoute
    rw [Option.bind_some, normalized]
  | none =>
    unfold canonicalAuthRoute at canonical ⊢
    rw [Option.bind_none]
    split at canonical
    · cases canonical
    · dsimp only at canonical ⊢
      split at canonical
      · exact absurd (Option.or_eq_none_iff.mp canonical).2 (Option.some_ne_none _)
      · rename_i notOauth
        split at canonical
        · cases canonical
        · rename_i notApi
          rw [if_neg notOauth, if_neg notApi, requestedAuthRoute_canonical, Option.none_or]
          exact (Option.or_eq_none_iff.mp canonical).2

namespace AuthProfileStore

/-- A profile that is stored is normalized. -/
theorem normalizeProfile_storedProfile (profile : AuthProfile) :
    normalizeProfile (storedProfile profile) = storedProfile profile := by
  unfold normalizeProfile storedProfile
  dsimp only
  rw [bind_normalizedText, bind_normalizedText, canonicalProviderName_canonical,
    canonicalAuthRoute_canonical]

theorem profileTargetKey_storedProfile (profile : AuthProfile) :
    profileTargetKey (storedProfile profile) =
      authTargetKey (storedProfile profile).provider (storedProfile profile).authRoute := by
  unfold profileTargetKey storedProfile
  dsimp only
  rw [canonicalAuthRoute_canonical]

end AuthProfileStore

end Normalization

namespace AuthProfileStore

section Lists

/-- The ids that the lists of a map have under its keys. -/
def Lists (map : HashMap Chars (List Chars)) (related : Chars → Chars → Prop) : Prop :=
  ∀ key profileId, (∃ ids, map.lookup key = some ids ∧ profileId ∈ ids) ↔ related key profileId

def Distinct (map : HashMap Chars (List Chars)) : Prop :=
  ∀ key ids, map.lookup key = some ids → ids.Nodup

variable {map : HashMap Chars (List Chars)} {related : Chars → Chars → Prop}
  {ids more : List Chars} {targetKey profileId : Chars}

theorem mem_pushNew {pushed : Chars} :
    profileId ∈ pushNew ids pushed ↔ profileId ∈ ids ∨ profileId = pushed := by
  rw [pushNew]
  split
  · rename_i present
    constructor
    · exact Or.inl
    · rintro (member | rfl)
      · exact member
      · exact present
  · rw [mem_append, mem_singleton]

theorem nodup_pushNew (distinct : ids.Nodup) (pushed : Chars) : (pushNew ids pushed).Nodup := by
  rw [pushNew]
  split
  · exact distinct
  · rename_i absent
    rw [nodup_append]
    refine ⟨distinct, nodup_singleton pushed, ?_⟩
    rintro id member other single rfl
    rw [mem_singleton.mp single] at member
    exact absent member

theorem mem_pushAll : profileId ∈ more.foldl pushNew ids ↔ profileId ∈ ids ∨ profileId ∈ more := by
  induction more generalizing ids with
  | nil => simp
  | cons pushed more ih =>
    rw [foldl_cons, ih, mem_pushNew, mem_cons, or_assoc]

theorem nodup_pushAll (distinct : ids.Nodup) : (more.foldl pushNew ids).Nodup := by
  induction more generalizing ids with
  | nil => exact distinct
  | cons pushed more ih => exact ih (nodup_pushNew distinct pushed)

theorem Lists.empty : Lists ∅ fun _ _ => False := by
  intro key profileId
  simp

theorem Distinct.empty : Distinct ∅ := by
  intro key ids found
  simp at found

theorem Lists.congr {other : Chars → Chars → Prop} (lists : Lists map related)
    (same : ∀ key profileId, related key profileId ↔ other key profileId) : Lists map other :=
  fun key profileId => (lists key profileId).trans (same key profileId)

/-- To put a list in the place of that of one key changes the ids of this key. -/
theorem Lists.insert (lists : Lists map related)
    (members : ∀ profileId, profileId ∈ more ↔ related targetKey profileId ∨ profileId ∈ ids) :
    Lists (map.insert targetKey more) fun key profileId =>
      related key profileId ∨ key = targetKey ∧ profileId ∈ ids := by
  intro key profileId
  by_cases same : key = targetKey
  · subst same
    rw [lookup_insert]
    simp [members]
  · rw [lookup_insert_ne same, lists key profileId]
    simp [same]

theorem Distinct.insert (distinct : Distinct map) (nodup : ids.Nodup) :
    Distinct (map.insert targetKey ids) := by
  intro key found lookup
  by_cases same : key = targetKey
  · subst same
    rw [lookup_insert] at lookup
    cases lookup
    exact nodup
  · rw [lookup_insert_ne same] at lookup
    exact distinct key found lookup

theorem Lists.getD (lists : Lists map related) :
    profileId ∈ (map.lookup targetKey).getD [] ↔ related targetKey profileId := by
  rw [← lists targetKey profileId]
  cases map.lookup targetKey with
  | none => simp
  | some ids => simp

theorem Distinct.getD (distinct : Distinct map) : ((map.lookup targetKey).getD []).Nodup := by
  cases found : map.lookup targetKey with
  | none => exact nodup_nil
  | some ids => exact distinct targetKey ids found

theorem Lists.extend (lists : Lists map related) :
    Lists (extend map targetKey ids) fun key profileId =>
      related key profileId ∨ key = targetKey ∧ profileId ∈ ids := by
  apply lists.insert
  intro profileId
  rw [mem_pushAll, lists.getD]

theorem Distinct.extend (distinct : Distinct map) : Distinct (extend map targetKey ids) :=
  distinct.insert (nodup_pushAll distinct.getD)

theorem Lists.pushId (lists : Lists map related) :
    Lists (pushId map targetKey profileId) fun key id =>
      related key id ∨ key = targetKey ∧ id ∈ [profileId] := by
  apply lists.insert
  intro id
  rw [mem_append, lists.getD]

/-- The lists of several entries are added to those of a map. -/
theorem Lists.extendAll (lists : Lists map related) (entries : List (Σ _ : Chars, List Chars)) :
    Lists (entries.foldl (fun map entry => AuthProfileStore.extend map entry.1 entry.2) map)
      fun key profileId => related key profileId ∨ ∃ ids, ⟨key, ids⟩ ∈ entries ∧ profileId ∈ ids := by
  induction entries generalizing map related with
  | nil => exact lists.congr (by simp)
  | cons entry entries ih =>
    obtain ⟨first, firstIds⟩ := entry
    refine (ih lists.extend).congr fun key profileId => ?_
    rw [or_assoc]
    refine or_congr_right ?_
    constructor
    · rintro (⟨rfl, member⟩ | ⟨ids, among, member⟩)
      · exact ⟨_, mem_cons_self, member⟩
      · exact ⟨ids, mem_cons_of_mem _ among, member⟩
    · rintro ⟨ids, among, member⟩
      rcases mem_cons.mp among with same | among
      · cases same
        exact Or.inl ⟨rfl, member⟩
      · exact Or.inr ⟨ids, among, member⟩

theorem Distinct.extendAll (distinct : Distinct map) (entries : List (Σ _ : Chars, List Chars)) :
    Distinct (entries.foldl (fun map entry => AuthProfileStore.extend map entry.1 entry.2) map) := by
  induction entries generalizing map with
  | nil => exact distinct
  | cons entry entries ih => exact ih distinct.extend

end Lists

section Rebuilding

variable {target : HashMap Chars Chars} {ids : List Chars} {targetKey profileId : Chars}

/-- Under a target key stands the last of the ids that have it. -/
theorem lookup_rekey (target : HashMap Chars Chars) (ids : List Chars) (targetKey : Chars) :
    (rekey target ids).lookup targetKey =
      (ids.filter fun profileId => target.lookup profileId = some targetKey).getLast? := by
  induction ids using reverseRecOn with
  | nil => simp [rekey]
  | append_singleton ids profileId ih =>
    rw [filter_append]
    unfold rekey at ih ⊢
    rw [foldl_append, foldl_cons, foldl_nil]
    cases own : target.lookup profileId with
    | none =>
      rw [ih, filter_cons_of_neg (by simp [own]), filter_nil, append_nil]
    | some key =>
      by_cases same : key = targetKey
      · subst same
        rw [filter_cons_of_pos (by simp [own]), filter_nil, getLast?_concat]
        exact lookup_insert _
      · rw [filter_cons_of_neg (by simp [own, same]), filter_nil, append_nil, ← ih]
        exact lookup_insert_ne (Ne.symm same)

theorem rekey_sound (found : (rekey target ids).lookup targetKey = some profileId) :
    profileId ∈ ids ∧ target.lookup profileId = some targetKey := by
  rw [lookup_rekey] at found
  simpa using mem_filter.mp (mem_of_getLast? found)

/-- An id that claims its target key alone has it. -/
theorem rekey_of_only (member : profileId ∈ ids) (own : target.lookup profileId = some targetKey)
    (only : ∀ other ∈ ids, target.lookup other = some targetKey → other = profileId) :
    (rekey target ids).lookup targetKey = some profileId := by
  cases found : (rekey target ids).lookup targetKey with
  | some other =>
    obtain ⟨among, claims⟩ := rekey_sound found
    rw [only other among claims]
  | none =>
    rw [lookup_rekey, getLast?_eq_none_iff, filter_eq_nil_iff] at found
    exact absurd own (by simpa using found profileId member)

/-- The id that is iterated last has its target key. -/
theorem rekey_concat (own : target.lookup profileId = some targetKey) :
    (rekey target (ids ++ [profileId])).lookup targetKey = some profileId := by
  rw [lookup_rekey, filter_append, filter_cons_of_pos (by simp [own]), filter_nil, getLast?_concat]

theorem lists_reorder (target : HashMap Chars Chars) (ids : List Chars) :
    Lists (reorder target ids) fun key profileId =>
      profileId ∈ ids ∧ target.lookup profileId = some key := by
  induction ids using reverseRecOn with
  | nil => exact Lists.empty.congr (by simp)
  | append_singleton ids pushed ih =>
    unfold reorder at ih ⊢
    rw [foldl_append, foldl_cons, foldl_nil]
    cases own : target.lookup pushed with
    | none =>
      refine ih.congr fun key profileId => ?_
      rw [mem_append, mem_singleton]
      constructor
      · rintro ⟨member, claims⟩
        exact ⟨Or.inl member, claims⟩
      · rintro ⟨member | rfl, claims⟩
        · exact ⟨member, claims⟩
        · rw [own] at claims
          cases claims
    | some ownKey =>
      refine ih.extend.congr fun key profileId => ?_
      rw [mem_append, mem_singleton]
      constructor
      · rintro (⟨member, claims⟩ | ⟨rfl, rfl⟩)
        · exact ⟨Or.inl member, claims⟩
        · exact ⟨Or.inr rfl, own⟩
      · rintro ⟨member | rfl, claims⟩
        · exact Or.inl ⟨member, claims⟩
        · rw [own] at claims
          cases claims
          exact Or.inr ⟨rfl, rfl⟩

theorem distinct_reorder (target : HashMap Chars Chars) (ids : List Chars) :
    Distinct (reorder target ids) := by
  unfold reorder
  induction ids using reverseRecOn with
  | nil => exact Distinct.empty
  | append_singleton ids pushed ih =>
    rw [foldl_append, foldl_cons, foldl_nil]
    cases target.lookup pushed with
    | none => exact ih
    | some ownKey => exact ih.extend

end Rebuilding

section Property

/-- A profile with this id stands under this target key. -/
def Names (profiles : List AuthProfile) (targetKey profileId : Chars) : Prop :=
  ∃ profile ∈ profiles, profileTargetKey profile = targetKey ∧ profile.id = profileId

/-- The maps of a store fit its profiles. -/
structure Consistent (store : AuthProfileStore) : Prop where
  ids : (store.profiles.map AuthProfile.id).Nodup
  defaults : ∀ targetKey profileId, store.defaults.lookup targetKey = some profileId →
    Names store.profiles targetKey profileId
  lastGood : ∀ targetKey profileId, store.lastGood.lookup targetKey = some profileId →
    Names store.profiles targetKey profileId
  order : ∀ profile ∈ store.profiles, ∃ ids,
    store.order.lookup (profileTargetKey profile) = some ids ∧ ids.Nodup ∧
      ∀ profileId, profileId ∈ ids ↔ Names store.profiles (profileTargetKey profile) profileId

/-- A call that changes the store. -/
inductive Call where
  | upsertProfile (profile : AuthProfile) (setDefault : Bool)
  | setProfileOrder (provider : Chars) (orderedProfileIds : List Chars)
  | markProfileUsed (profileId : Chars) (now : Int)

/-- A call, with the orders in which it iterates the hash maps. An upsert that is refused
leaves the store as it is. -/
def step (store : AuthProfileStore) (action : Call × Orders) : Option AuthProfileStore :=
  match action.1 with
  | .upsertProfile profile setDefault =>
    match store.upsertProfile action.2 profile setDefault with
    | .ok accepted => some accepted.2
    | .error _ => some store
  | .setProfileOrder provider orderedProfileIds =>
    some (store.setProfileOrder provider orderedProfileIds)
  | .markProfileUsed profileId now => some (store.markProfileUsed profileId now)

/-- In every iteration order, an upsert makes its profile the default where it is asked to, and
otherwise keeps the defaults that did not change their target. -/
def KeepsDefaults (store : AuthProfileStore) : Call → Prop
  | .upsertProfile profile setDefault =>
    ∀ orders created next, store.upsertProfile orders profile setDefault = .ok (created, next) →
      (setDefault = true → ∀ stored ∈ next.profiles, stored.id = trim profile.id →
        next.defaults.lookup (profileTargetKey stored) = some stored.id) ∧
      (setDefault = false → ∀ targetKey profileId,
        store.defaults.lookup targetKey = some profileId →
        Names next.profiles targetKey profileId →
        next.defaults.lookup targetKey = some profileId)
  | _ => True

/-- An upsert moves a default onto a target key that has another default. -/
def TakesOver (store : AuthProfileStore) (profile : AuthProfile) : Prop :=
  ∃ old ∈ store.profiles, old.id = trim profile.id ∧
    store.defaults.lookup (profileTargetKey old) = some old.id ∧
    ∃ other, store.defaults.lookup (profileTargetKey (storedProfile profile)) = some other ∧
      other ≠ old.id

/-- No upsert that is accepted takes over a default without being asked to. -/
def LeavesDefaults (store : AuthProfileStore) : Call → Prop
  | .upsertProfile profile false => store.checkUpsert profile = .ok () → ¬ store.TakesOver profile
  | _ => True

end Property

section Profiles

variable {profiles : List AuthProfile} {targetKey profileId : Chars} {profile : AuthProfile}

section

variable (distinct : (profiles.map AuthProfile.id).Nodup)
include distinct

theorem eq_of_id {first second : AuthProfile}
    (member : first ∈ profiles) (among : second ∈ profiles) (same : first.id = second.id) :
    first = second :=
  inj_on_of_nodup_map distinct member among same

/-- A profile id has one target key. -/
theorem Names.unique {other : Chars}
    (names : Names profiles targetKey profileId) (others : Names profiles other profileId) :
    targetKey = other := by
  obtain ⟨first, member, rfl, rfl⟩ := names
  obtain ⟨second, among, rfl, same⟩ := others
  rw [eq_of_id distinct member among same.symm]

theorem lookup_targetByProfileId :
    (targetByProfileId profiles).lookup profileId = some targetKey ↔
      Names profiles targetKey profileId := by
  have keys : (profiles.map fun profile =>
      (⟨profile.id, profileTargetKey profile⟩ : Σ _ : Chars, Chars)).NodupKeys := by
    rw [NodupKeys, List.keys, map_map]
    exact distinct
  rw [targetByProfileId, lookup_collect keys, ← Option.mem_def, mem_dlookup_iff keys, mem_map]
  constructor
  · rintro ⟨profile, member, same⟩
    cases same
    exact ⟨profile, member, rfl, rfl⟩
  · rintro ⟨profile, member, rfl, rfl⟩
    exact ⟨profile, member, rfl⟩

end

theorem lists_targetIds (profiles : List AuthProfile) :
    Lists (targetIds profiles) (Names profiles) := by
  induction profiles using reverseRecOn with
  | nil => exact Lists.empty.congr (by simp [Names])
  | append_singleton profiles profile ih =>
    unfold targetIds at ih ⊢
    rw [foldl_append, foldl_cons, foldl_nil]
    refine ih.pushId.congr fun targetKey profileId => ?_
    constructor
    · rintro (⟨named, member, target, id⟩ | ⟨rfl, same⟩)
      · exact ⟨named, mem_append_left _ member, target, id⟩
      · exact ⟨profile, mem_append_right _ mem_cons_self, rfl, (mem_singleton.mp same).symm⟩
    · rintro ⟨named, member, rfl, rfl⟩
      rcases mem_append.mp member with earlier | last
      · exact Or.inl ⟨named, earlier, rfl, rfl⟩
      · rw [mem_singleton.mp last]
        exact Or.inr ⟨rfl, mem_cons_self⟩

end Profiles

section Normalizing

variable {store : AuthProfileStore} {orders : Orders} {targetKey profileId : Chars}

/-- What a store needs for its metadata to be rebuilt. -/
structure Ready (store : AuthProfileStore) : Prop where
  ids : (store.profiles.map AuthProfile.id).Nodup
  normal : ∀ profile ∈ store.profiles, normalizeProfile profile = profile

theorem Ready.profiles (ready : Ready store) (orders : Orders) :
    (normalizeMetadata orders store).profiles = store.profiles := by
  have same : store.profiles.map normalizeProfile = store.profiles.map id :=
    map_congr_left ready.normal
  rw [map_id] at same
  exact same

theorem Ready.defaults_eq (ready : Ready store) (orders : Orders) :
    (normalizeMetadata orders store).defaults =
      rekey (targetByProfileId store.profiles) (store.defaults.arranged orders.defaults).values := by
  rw [← ready.profiles orders]
  rfl

theorem Ready.lastGood_eq (ready : Ready store) (orders : Orders) :
    (normalizeMetadata orders store).lastGood =
      rekey (targetByProfileId store.profiles) (store.lastGood.arranged orders.lastGood).values := by
  rw [← ready.profiles orders]
  rfl

theorem mem_arranged_values {order : HashMap.IterationOrder Chars Chars} {map : HashMap Chars Chars} :
    profileId ∈ (map.arranged order).values ↔ ∃ key, map.lookup key = some profileId := by
  rw [mem_values]
  simp

theorem Ready.order_lookup (ready : Ready store) (orders : Orders) {profile : AuthProfile}
    (member : profile ∈ store.profiles) : ∃ ids,
      (normalizeMetadata orders store).order.lookup (profileTargetKey profile) = some ids ∧ ids.Nodup ∧
        ∀ profileId, profileId ∈ ids ↔ Names store.profiles (profileTargetKey profile) profileId := by
  have same := ready.profiles orders
  have profiles : store.profiles.map normalizeProfile = store.profiles := same
  have listed := lists_reorder (targetByProfileId store.profiles)
    (store.order.arranged orders.order).values.flatten
  have lists : Lists
      (((targetIds store.profiles).arranged orders.targetIds).entries.foldl
        (fun map entry => AuthProfileStore.extend map entry.1 entry.2)
        (reorder (targetByProfileId store.profiles)
          (store.order.arranged orders.order).values.flatten))
      (Names store.profiles) := by
    refine (listed.extendAll _).congr fun key profileId => ?_
    have entries : (∃ ids, (⟨key, ids⟩ : Σ _ : Chars, List Chars) ∈
        ((targetIds store.profiles).arranged orders.targetIds).entries ∧ profileId ∈ ids) ↔
        Names store.profiles key profileId := by
      refine Iff.trans ?_ (lists_targetIds store.profiles key profileId)
      refine exists_congr fun ids => and_congr_left fun _ => ?_
      rw [← mem_lookup_iff, Option.mem_def, lookup_arranged]
    rw [entries, lookup_targetByProfileId ready.ids]
    exact ⟨fun either => either.elim And.right fun names => names, Or.inr⟩
  have distinct := (distinct_reorder (targetByProfileId store.profiles)
    (store.order.arranged orders.order).values.flatten).extendAll
      ((targetIds store.profiles).arranged orders.targetIds).entries
  obtain ⟨ids, found, _⟩ := (lists (profileTargetKey profile) profile.id).mpr ⟨profile, member, rfl, rfl⟩
  refine ⟨ids, ?_, distinct _ _ found, fun profileId => ?_⟩
  · unfold normalizeMetadata
    dsimp only
    rw [profiles, lookup_insertMissing, found, Option.some_or]
    exact ((targetIds store.profiles).arranged orders.missing).nodupKeys
  · have listed := lists (profileTargetKey profile) profileId
    rw [found] at listed
    simpa using listed

/-- The rebuilt maps fit the profiles, whatever the maps were before. -/
theorem Ready.consistent (ready : Ready store) (orders : Orders) :
    Consistent (normalizeMetadata orders store) where
  ids := by
    rw [ready.profiles orders]
    exact ready.ids
  defaults := fun targetKey profileId found => by
    rw [ready.defaults_eq orders] at found
    rw [ready.profiles orders]
    exact (lookup_targetByProfileId ready.ids).mp (rekey_sound found).2
  lastGood := fun targetKey profileId found => by
    rw [ready.lastGood_eq orders] at found
    rw [ready.profiles orders]
    exact (lookup_targetByProfileId ready.ids).mp (rekey_sound found).2
  order := by
    rw [ready.profiles orders]
    exact fun profile member => ready.order_lookup orders member

end Normalizing

section Inserting

variable {store next : AuthProfileStore} {profile : AuthProfile} {setDefault created : Bool}
  {orders : Orders} {profiles : List AuthProfile} {stored : AuthProfile}
  {targetKey profileId : Chars}

theorem map_id_updateFirst (same : stored.id = profileId) :
    (updateFirst (fun existing => existing.id = profileId) (fun _ => stored) profiles).map
      AuthProfile.id = profiles.map AuthProfile.id := by
  induction profiles with
  | nil => rfl
  | cons first rest ih =>
    rw [updateFirst]
    split
    · rename_i found
      rw [map_cons, map_cons, same, ← of_decide_eq_true found]
    · rw [map_cons, map_cons, ih]

/-- The profile with the id is replaced, and the others are kept. -/
theorem mem_updateFirst (distinct : (profiles.map AuthProfile.id).Nodup)
    (present : ∃ existing ∈ profiles, existing.id = profileId) :
    profile ∈ updateFirst (fun existing => existing.id = profileId) (fun _ => stored) profiles ↔
      profile = stored ∨ profile ∈ profiles ∧ profile.id ≠ profileId := by
  induction profiles with
  | nil =>
    obtain ⟨existing, member, _⟩ := present
    cases member
  | cons first rest ih =>
    rw [map_cons, nodup_cons] at distinct
    rw [updateFirst]
    split
    · rename_i found
      have found : first.id = profileId := of_decide_eq_true found
      have others : ∀ other ∈ rest, other.id ≠ profileId := by
        rintro other member same
        exact distinct.1 (mem_map.mpr ⟨other, member, same.trans found.symm⟩)
      rw [mem_cons, mem_cons]
      constructor
      · rintro (rfl | member)
        · exact Or.inl rfl
        · exact Or.inr ⟨Or.inr member, others profile member⟩
      · rintro (rfl | ⟨rfl | member, other⟩)
        · exact Or.inl rfl
        · exact absurd found other
        · exact Or.inr member
    · rename_i different
      have different : first.id ≠ profileId := by simpa using different
      have later : ∃ existing ∈ rest, existing.id = profileId := by
        obtain ⟨existing, member, same⟩ := present
        rcases mem_cons.mp member with rfl | member
        · exact absurd same different
        · exact ⟨existing, member, same⟩
      rw [mem_cons, mem_cons, ih distinct.2 later]
      constructor
      · rintro (rfl | same | ⟨member, other⟩)
        · exact Or.inr ⟨Or.inl rfl, different⟩
        · exact Or.inl same
        · exact Or.inr ⟨Or.inr member, other⟩
      · rintro (same | ⟨rfl | member, other⟩)
        · exact Or.inr (Or.inl same)
        · exact Or.inl rfl
        · exact Or.inr (Or.inr ⟨member, other⟩)

theorem mem_insertProfile (distinct : (store.profiles.map AuthProfile.id).Nodup) {other : AuthProfile} :
    other ∈ (store.insertProfile profile setDefault).2.profiles ↔
      other = storedProfile profile ∨ other ∈ store.profiles ∧ other.id ≠ trim profile.id := by
  unfold insertProfile
  dsimp only
  split
  · rename_i existing found
    have same : existing.id = (storedProfile profile).id := by simpa using find?_some found
    exact mem_updateFirst distinct ⟨existing, List.mem_of_find?_eq_some found, same⟩
  · rename_i absent
    have absent : ∀ existing ∈ store.profiles, existing.id ≠ (storedProfile profile).id := by
      intro existing member
      simpa using find?_eq_none.mp absent existing member
    rw [mem_append, mem_singleton, or_comm]
    refine or_congr_right ⟨fun member => ⟨member, absent other member⟩, And.left⟩

theorem ids_insertProfile (distinct : (store.profiles.map AuthProfile.id).Nodup) :
    ((store.insertProfile profile setDefault).2.profiles.map AuthProfile.id).Nodup := by
  unfold insertProfile
  dsimp only
  split
  · rw [map_id_updateFirst rfl]
    exact distinct
  · rename_i absent
    rw [map_append, nodup_append]
    refine ⟨distinct, nodup_singleton _, ?_⟩
    rintro id member other single rfl
    obtain ⟨existing, among, rfl⟩ := mem_map.mp member
    have different : existing.id ≠ (storedProfile profile).id := by
      simpa using find?_eq_none.mp absent existing among
    exact different (mem_singleton.mp single)

theorem defaults_insertProfile :
    (store.insertProfile profile setDefault).2.defaults = if setDefault then
        store.defaults.insert (profileTargetKey (storedProfile profile)) (trim profile.id)
      else store.defaults := by
  rw [profileTargetKey_storedProfile]
  unfold insertProfile
  dsimp only
  split <;> rfl

theorem Ready.insertProfile (ready : Ready store) :
    Ready (store.insertProfile profile setDefault).2 where
  ids := ids_insertProfile ready.ids
  normal := fun other member => by
    rcases (mem_insertProfile ready.ids).mp member with rfl | ⟨member, _⟩
    · exact normalizeProfile_storedProfile profile
    · exact ready.normal other member

/-- The profile that is inserted stands under its own target key only. -/
theorem names_inserted_self (ready : Ready store) :
    Names (store.insertProfile profile setDefault).2.profiles targetKey (trim profile.id) ↔
      targetKey = profileTargetKey (storedProfile profile) := by
  constructor
  · rintro ⟨other, member, rfl, same⟩
    rcases (mem_insertProfile ready.ids).mp member with rfl | ⟨_, different⟩
    · rfl
    · exact absurd same different
  · rintro rfl
    exact ⟨storedProfile profile, (mem_insertProfile ready.ids).mpr (Or.inl rfl), rfl, rfl⟩

/-- The others stay where they are. -/
theorem names_inserted_other (ready : Ready store) (other : profileId ≠ trim profile.id) :
    Names (store.insertProfile profile setDefault).2.profiles targetKey profileId ↔
      Names store.profiles targetKey profileId := by
  constructor
  · rintro ⟨named, member, target, rfl⟩
    rcases (mem_insertProfile ready.ids).mp member with rfl | ⟨member, _⟩
    · exact absurd rfl other
    · exact ⟨named, member, target, rfl⟩
  · rintro ⟨named, member, target, rfl⟩
    exact ⟨named, (mem_insertProfile ready.ids).mpr (Or.inr ⟨member, other⟩), target, rfl⟩

theorem upsertProfile_eq_ok :
    store.upsertProfile orders profile setDefault = .ok (created, next) ↔
      store.checkUpsert profile = .ok () ∧ created = (store.insertProfile profile setDefault).1 ∧
        next = normalizeMetadata orders (store.insertProfile profile setDefault).2 := by
  rw [upsertProfile]
  cases store.checkUpsert profile with
  | error message => simp
  | ok done =>
    constructor
    · rintro ⟨⟩
      exact ⟨rfl, rfl, rfl⟩
    · rintro ⟨_, rfl, rfl⟩
      rfl

end Inserting

section Defaults

variable {store : AuthProfileStore} {profile : AuthProfile} {orders : Orders}
  {targetKey profileId : Chars}

/-- What holds between two calls. -/
structure Sound (store : AuthProfileStore) : Prop where
  consistent : Consistent store
  ready : Ready store

/-- An upsert that is asked to makes its profile the default. -/
theorem default_of_setDefault (sound : Sound store) (orders : Orders) (profile : AuthProfile) :
    (normalizeMetadata orders (store.insertProfile profile true).2).defaults.lookup
      (profileTargetKey (storedProfile profile)) = some (trim profile.id) := by
  have ready : Ready (store.insertProfile profile true).2 := sound.ready.insertProfile
  rw [ready.defaults_eq, defaults_insertProfile, if_pos rfl]
  apply rekey_of_only
  · exact mem_arranged_values.mpr ⟨_, lookup_insert _⟩
  · rw [lookup_targetByProfileId ready.ids, names_inserted_self sound.ready]
  · intro other member claims
    obtain ⟨key, found⟩ := mem_arranged_values.mp member
    rw [lookup_targetByProfileId ready.ids] at claims
    by_contra different
    rw [names_inserted_other sound.ready different] at claims
    by_cases same : key = profileTargetKey (storedProfile profile)
    · subst same
      rw [lookup_insert] at found
      exact different (Option.some_inj.mp found).symm
    · rw [lookup_insert_ne same] at found
      exact same (Names.unique sound.ready.ids (sound.consistent.defaults key other found) claims)

/-- A default that keeps its target is kept, unless another one is moved onto it. -/
theorem default_kept (sound : Sound store) (leaves : ¬ store.TakesOver profile)
    (found : store.defaults.lookup targetKey = some profileId)
    (names : Names (store.insertProfile profile false).2.profiles targetKey profileId) :
    (normalizeMetadata orders (store.insertProfile profile false).2).defaults.lookup targetKey =
      some profileId := by
  have ready : Ready (store.insertProfile profile false).2 := sound.ready.insertProfile
  rw [ready.defaults_eq, defaults_insertProfile, if_neg Bool.false_ne_true]
  apply rekey_of_only
  · exact mem_arranged_values.mpr ⟨targetKey, found⟩
  · exact (lookup_targetByProfileId ready.ids).mpr names
  · intro other member claims
    obtain ⟨key, foundOther⟩ := mem_arranged_values.mp member
    rw [lookup_targetByProfileId ready.ids] at claims
    have own := sound.consistent.defaults key other foundOther
    by_contra different
    by_cases moved : other = trim profile.id
    · subst moved
      have target := (names_inserted_self sound.ready).mp claims
      obtain ⟨old, member, rfl, same⟩ := own
      refine leaves ⟨old, member, same, ?_, profileId, ?_, ?_⟩
      · rw [foundOther, same]
      · rw [← target, found]
      · rw [same]
        exact Ne.symm different
    · rw [names_inserted_other sound.ready moved] at claims
      have same := Names.unique sound.ready.ids own claims
      rw [same, found] at foundOther
      exact different (Option.some_inj.mp foundOther).symm

/-- The order that lists the entries with an id last. -/
def lastOrder (profileId : Chars) : HashMap.IterationOrder Chars Chars where
  arrange entries := entries.filter (fun entry => entry.2 ≠ profileId) ++
    entries.filter fun entry => !decide (entry.2 ≠ profileId)
  perm entries := filter_append_perm _ entries

def takingOrders (profileId : Chars) : Orders :=
  { defaults := lastOrder profileId, lastGood := .held, order := .held, targetIds := .held,
    missing := .held }

theorem values_lastOrder {map : HashMap Chars Chars} (found : map.lookup targetKey = some profileId) :
    ∃ front, (map.arranged (lastOrder profileId)).values = front ++ [profileId] := by
  have member : (⟨targetKey, profileId⟩ : Σ _ : Chars, Chars) ∈ map.entries :=
    mem_lookup_iff.mp found
  have chosen : (⟨targetKey, profileId⟩ : Σ _ : Chars, Chars) ∈
      map.entries.filter fun entry => !decide (entry.2 ≠ profileId) :=
    mem_filter.mpr ⟨member, by simp⟩
  have parts := dropLast_concat_getLast (ne_nil_of_mem chosen)
  have last := getLast_mem (ne_nil_of_mem chosen)
  have same : ((map.entries.filter fun entry => !decide (entry.2 ≠ profileId)).getLast
      (ne_nil_of_mem chosen)).2 = profileId := by
    simpa using (mem_filter.mp last).2
  refine ⟨((map.entries.filter fun entry => entry.2 ≠ profileId) ++
    (map.entries.filter fun entry => !decide (entry.2 ≠ profileId)).dropLast).map Sigma.snd, ?_⟩
  have values : (map.arranged (lastOrder profileId)).values =
      ((map.entries.filter fun entry => entry.2 ≠ profileId) ++
        map.entries.filter fun entry => !decide (entry.2 ≠ profileId)).map Sigma.snd := rfl
  rw [values]
  nth_rewrite 1 [← parts]
  rw [← append_assoc, map_append, map_singleton, same]

/-- A default that is moved onto another one takes it over in some iteration order. -/
theorem default_lost (sound : Sound store) (takes : store.TakesOver profile) :
    ∃ orders targetKey profileId, store.defaults.lookup targetKey = some profileId ∧
      Names (store.insertProfile profile false).2.profiles targetKey profileId ∧
      (normalizeMetadata orders (store.insertProfile profile false).2).defaults.lookup targetKey ≠
        some profileId := by
  obtain ⟨old, member, same, isDefault, other, found, different⟩ := takes
  have ready : Ready (store.insertProfile profile false).2 := sound.ready.insertProfile
  have elsewhere : other ≠ trim profile.id := same ▸ different
  refine ⟨takingOrders old.id, profileTargetKey (storedProfile profile), other, found, ?_, ?_⟩
  · rw [names_inserted_other sound.ready elsewhere]
    exact sound.consistent.defaults _ _ found
  · rw [ready.defaults_eq, defaults_insertProfile, if_neg Bool.false_ne_true]
    obtain ⟨front, values⟩ := values_lastOrder isDefault
    have last : (store.defaults.arranged (takingOrders old.id).defaults).values = front ++ [old.id] :=
      values
    rw [last, rekey_concat]
    · exact fun taken => different (Option.some_inj.mp taken).symm
    · rw [lookup_targetByProfileId ready.ids, same, names_inserted_self sound.ready]

/-- An upsert keeps the defaults exactly if it takes over none unasked. -/
theorem keepsDefaults_iff (sound : Sound store) (call : Call) :
    store.KeepsDefaults call ↔ store.LeavesDefaults call := by
  cases call with
  | setProfileOrder provider orderedProfileIds => exact Iff.rfl
  | markProfileUsed profileId now => exact Iff.rfl
  | upsertProfile profile setDefault =>
    cases setDefault with
    | true =>
      refine iff_of_true ?_ trivial
      intro orders created next upserted
      obtain ⟨_, _, rfl⟩ := upsertProfile_eq_ok.mp upserted
      refine ⟨fun _ stored member same => ?_, fun asked => absurd asked Bool.true_eq_false.mp⟩
      rw [sound.ready.insertProfile.profiles orders] at member
      rcases (mem_insertProfile sound.ready.ids).mp member with rfl | ⟨_, different⟩
      · exact default_of_setDefault sound orders profile
      · exact absurd same different
    | false =>
      constructor
      · intro keeps accepted takes
        obtain ⟨orders, targetKey, profileId, found, names, lost⟩ := default_lost sound takes
        have upserted : store.upsertProfile orders profile false =
            .ok ((store.insertProfile profile false).1,
              normalizeMetadata orders (store.insertProfile profile false).2) :=
          upsertProfile_eq_ok.mpr ⟨accepted, rfl, rfl⟩
        obtain ⟨_, kept⟩ := keeps orders _ _ upserted
        rw [sound.ready.insertProfile.profiles orders] at kept
        exact lost (kept rfl targetKey profileId found names)
      · intro leaves orders created next upserted
        obtain ⟨accepted, _, rfl⟩ := upsertProfile_eq_ok.mp upserted
        refine ⟨fun asked => absurd asked Bool.false_ne_true, fun _ targetKey profileId found names => ?_⟩
        rw [sound.ready.insertProfile.profiles orders] at names
        exact default_kept sound (leaves accepted) found names

end Defaults

section Runs

variable {store next : AuthProfileStore} {action : Call × Orders}

theorem sound_empty : Sound empty where
  consistent :=
    { ids := nodup_nil
      defaults := fun _ _ found => absurd found (by simp [empty])
      lastGood := fun _ _ found => absurd found (by simp [empty])
      order := fun _ member => absurd member not_mem_nil }
  ready := ⟨nodup_nil, fun _ member => absurd member not_mem_nil⟩

theorem Sound.normalizeMetadata (ready : Ready store) (orders : Orders) :
    Sound (normalizeMetadata orders store) := by
  refine ⟨ready.consistent orders, ?_, ?_⟩
  · rw [ready.profiles orders]
    exact ready.ids
  · rw [ready.profiles orders]
    exact ready.normal

/-- The order that is set lists the profiles of its target key, each once. -/
theorem Sound.setProfileOrder (sound : Sound store) (provider : Chars) (ids : List Chars) :
    Sound (store.setProfileOrder provider ids) := by
  refine ⟨⟨sound.ready.ids, sound.consistent.defaults, sound.consistent.lastGood, ?_⟩,
    ⟨sound.ready.ids, sound.ready.normal⟩⟩
  intro profile member
  have member : profile ∈ store.profiles := member
  by_cases same : profileTargetKey profile = store.targetKeyForProfileOrder provider
  · rw [same]
    refine ⟨_, lookup_insert _, nodup_pushAll (nodup_pushAll nodup_nil), ?_⟩
    intro profileId
    rw [mem_pushAll, mem_pushAll, mem_filter, mem_map]
    constructor
    · rintro ((none | ⟨_, given⟩) | ⟨other, among, rfl⟩)
      · cases none
      · obtain ⟨other, among, target, id⟩ : ∃ other ∈ store.profiles,
            profileTargetKey other = store.targetKeyForProfileOrder provider ∧ other.id = profileId := by
          simpa using given
        exact ⟨other, among, target, id⟩
      · obtain ⟨among, target⟩ := mem_filter.mp among
        exact ⟨other, among, of_decide_eq_true target, rfl⟩
    · rintro ⟨other, among, target, rfl⟩
      exact Or.inr ⟨other, mem_filter.mpr ⟨among, decide_eq_true target⟩, rfl⟩
  · obtain ⟨listed, found, distinct, members⟩ := sound.consistent.order profile member
    refine ⟨listed, ?_, distinct, members⟩
    exact (lookup_insert_ne same).trans found

theorem Sound.markProfileUsed (sound : Sound store) (profileId : Chars) (now : Int) :
    Sound (store.markProfileUsed profileId now) := by
  refine ⟨⟨sound.ready.ids, sound.consistent.defaults, ?_, sound.consistent.order⟩,
    ⟨sound.ready.ids, sound.ready.normal⟩⟩
  intro targetKey id found
  unfold AuthProfileStore.markProfileUsed at found
  dsimp only at found
  split at found
  · rename_i profile known
    by_cases same : targetKey = profileTargetKey profile
    · subst same
      rw [lookup_insert] at found
      cases found
      exact ⟨profile, List.mem_of_find?_eq_some known, rfl, by simpa using find?_some known⟩
    · rw [lookup_insert_ne same] at found
      exact sound.consistent.lastGood targetKey id found
  · exact sound.consistent.lastGood targetKey id found

theorem Sound.step (sound : Sound store) (stepped : step store action = some next) : Sound next := by
  obtain ⟨call, orders⟩ := action
  cases call with
  | upsertProfile profile setDefault =>
    unfold AuthProfileStore.step at stepped
    dsimp only at stepped
    split at stepped
    · rename_i accepted upserted
      cases stepped
      obtain ⟨created, after⟩ := accepted
      obtain ⟨_, _, rfl⟩ := upsertProfile_eq_ok.mp upserted
      exact Sound.normalizeMetadata sound.ready.insertProfile orders
    · cases stepped
      exact sound
  | setProfileOrder provider ids =>
    cases stepped
    exact sound.setProfileOrder provider ids
  | markProfileUsed profileId now =>
    cases stepped
    exact sound.markProfileUsed profileId now

/-- Along every run from the empty store the maps fit the profiles, and the upserts keep the
defaults exactly if none takes over a default unasked. -/
theorem bookkeeping_iff (actions : List (Call × Orders)) :
    (Always step Consistent empty actions ∧
      Guarded step (fun store action => store.KeepsDefaults action.1) empty actions) ↔
      Guarded step (fun store action => store.LeavesDefaults action.1) empty actions := by
  have kept : ∀ {store next : AuthProfileStore} {action : Call × Orders}, Sound store →
      True → AuthProfileStore.step store action = some next → Sound next := by
    intro store next action sound _ stepped
    exact sound.step stepped
  have consistent : Always step Consistent empty actions :=
    always_of_guarded Sound.consistent kept sound_empty (Transitions.guarded_true _ actions)
  constructor
  · rintro ⟨_, keeps⟩
    apply guarded_of_guarded _ (fun sound _ stepped => sound.step stepped) sound_empty keeps
    intro store action sound keeps
    exact (keepsDefaults_iff sound action.1).mp keeps
  · intro leaves
    refine ⟨consistent, ?_⟩
    apply guarded_of_guarded _ (fun sound _ stepped => sound.step stepped) sound_empty leaves
    intro store action sound leaves
    exact (keepsDefaults_iff sound action.1).mpr leaves

end Runs

section Sample

def heldOrders : Orders := ⟨.held, .held, .held, .held, .held⟩

def sampleProfile (id route : String) : AuthProfile :=
  { id := id.toList, provider := "openai".toList, authRoute := some route.toList, label := none,
    apiKey := some "sk".toList, refreshToken := none, authScheme := none, oauthSource := none,
    isDisabled := false }

/-- The defaults of two routes are set. -/
def twoDefaults : List (Call × Orders) :=
  [(.upsertProfile (sampleProfile "work" "codex") true, heldOrders),
    (.upsertProfile (sampleProfile "main" "api") true, heldOrders)]

/-- The default of the first route is moved to the second one. -/
def moveDefault : Call × Orders := (.upsertProfile (sampleProfile "work" "api") false, heldOrders)

def movesDefault (store : AuthProfileStore) : Bool :=
  decide (store.checkUpsert (sampleProfile "work" "api") = .ok ()) &&
    store.profiles.any (fun old => old.id = trim "work".toList &&
      store.defaults.lookup (profileTargetKey old) = some old.id) &&
    store.defaults.lookup (profileTargetKey (storedProfile (sampleProfile "work" "api"))) =
      some "main".toList

theorem moved_default_lost :
    ¬ (Always step Consistent empty (twoDefaults ++ [moveDefault]) ∧
      Guarded step (fun store action => store.KeepsDefaults action.1) empty
        (twoDefaults ++ [moveDefault])) := by
  rintro ⟨_, keeps⟩
  have moves : (run step empty twoDefaults).any movesDefault = true := by decide +kernel
  obtain ⟨store, ran, moves⟩ := (Option.any_eq_true _ _).mp moves
  have sound : Sound store :=
    run_invariant (fun sound _ stepped => Sound.step sound stepped) sound_empty
      (Transitions.guarded_true _ twoDefaults) ran
  have last := (guarded_append keeps ran).2.1
  rw [movesDefault, Bool.and_eq_true, Bool.and_eq_true, any_eq_true] at moves
  obtain ⟨⟨accepted, old, member, isDefault⟩, found⟩ := moves
  rw [Bool.and_eq_true] at isDefault
  apply (keepsDefaults_iff sound _).mp last (of_decide_eq_true accepted)
  have same : old.id = trim "work".toList := of_decide_eq_true isDefault.1
  refine ⟨old, member, same, of_decide_eq_true isDefault.2, "main".toList, of_decide_eq_true found, ?_⟩
  rw [same]
  decide +kernel

end Sample

end AuthProfileStore

end Asterel.Auth
