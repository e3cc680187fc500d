import Asterel.Security.AuthStore

/-!
# Which profile is active for a provider

The preferred target keys of a provider are searched first, each for its default, then through
its order, then for the profile that was last good, then for the one used least recently. What
is in cooldown is picked only when nothing else is left.

A provider and a route are joined by an `@` that either may contain, so a target key of the
provider can be that of another one.
-/

namespace Asterel.Auth

open Library List Option

namespace AuthProfileStore

section Selection

variable (store : AuthProfileStore) (provider : Chars) (now : Int)

def Cooling (profile : AuthProfile) : Prop :=
  cooldownActive (store.usageStats.lookup profile.id) now = true

/-- An enabled profile of the canonical backend of the provider. -/
structure OfBackend (profile : AuthProfile) : Prop where
  member : profile ∈ store.profiles
  enabled : profile.isDisabled = false
  backend : canonicalProviderName profile.provider = canonicalProviderName provider

/-- An enabled profile under a target key that is out of cooldown. -/
structure Qualifies (targetKey : Chars) (profile : AuthProfile) : Prop where
  member : profile ∈ store.profiles
  enabled : profile.isDisabled = false
  target : profileTargetKey profile = targetKey
  ready : ¬ store.Cooling now profile

/-- The ids that come first under a target key: the default, the order, the last good one. -/
def priorityIds (targetKey : Chars) : List Chars :=
  (store.defaults.lookup targetKey).toList ++ (store.order.lookup targetKey).getD [] ++
    (store.lastGood.lookup targetKey).toList

/-- The profile has the first of these ids that a qualifying profile has. Where there is none,
no qualifying profile was used less recently. -/
def Best (targetKey : Chars) (profile : AuthProfile) : Prop :=
  store.Qualifies now targetKey profile ∧
    ((∃ before after, store.priorityIds targetKey = before ++ profile.id :: after ∧
        ∀ earlier ∈ before, ∀ other, store.Qualifies now targetKey other → other.id ≠ earlier) ∨
      (∀ profileId ∈ store.priorityIds targetKey, ∀ other,
          store.Qualifies now targetKey other → other.id ≠ profileId) ∧
        ∀ other, store.Qualifies now targetKey other → store.lastUsedAt profile ≤ store.lastUsedAt other)

/-- The selection for a provider fails over as it should. -/
structure FailsOver : Prop where
  found : (store.activeProfileForProvider provider now).isSome ↔
    ∃ profile, store.OfBackend provider profile
  enabled : ∀ profile, store.activeProfileForProvider provider now = some profile →
    profile.isDisabled = false
  cooling : ∀ profile, store.activeProfileForProvider provider now = some profile →
    store.Cooling now profile → ∀ other, store.OfBackend provider other → store.Cooling now other
  preferred : ∀ before targetKey after,
    preferredLookupTargetKeys provider = before ++ targetKey :: after →
    (∀ earlier ∈ before, ¬ ∃ profile, store.Qualifies now earlier profile) →
    (∃ profile, store.Qualifies now targetKey profile) →
    ∃ profile, store.activeProfileForProvider provider now = some profile ∧
      store.Best now targetKey profile

/-- An enabled profile that a preferred target key of the provider finds. -/
def Reachable (profile : AuthProfile) : Prop :=
  profile ∈ store.profiles ∧ profile.isDisabled = false ∧
    profileTargetKey profile ∈ preferredLookupTargetKeys provider

end Selection

section Candidates

variable {store : AuthProfileStore} {provider targetKey profileId : Chars} {now : Int}
  {profile : AuthProfile} {candidates : List AuthProfile} {ignoreCooldown : Bool}

theorem mem_profilesForTargetKey : profile ∈ store.profilesForTargetKey targetKey ↔
    profile ∈ store.profiles ∧ profile.isDisabled = false ∧ profileTargetKey profile = targetKey := by
  rw [profilesForTargetKey, mem_filter]
  simp

theorem mem_profilesForBackend :
    profile ∈ store.profilesForBackend (canonicalProviderName provider) ↔
      store.OfBackend provider profile := by
  rw [profilesForBackend, canonicalProviderName_canonical, mem_filter]
  constructor
  · rintro ⟨member, picked⟩
    obtain ⟨enabled, backend⟩ : profile.isDisabled = false ∧
        canonicalProviderName profile.provider = canonicalProviderName provider := by
      simpa using picked
    exact ⟨member, enabled, backend⟩
  · rintro ⟨member, enabled, backend⟩
    exact ⟨member, by simp [enabled, backend]⟩

theorem available_iff : store.available false now profile.id = true ↔ ¬ store.Cooling now profile := by
  simp [available, Cooling]

theorem available_ignore : store.available true now profileId = true := rfl

theorem qualifies_iff : store.Qualifies now targetKey profile ↔
    profile ∈ store.profilesForTargetKey targetKey ∧ store.available false now profile.id = true := by
  rw [mem_profilesForTargetKey, available_iff]
  constructor
  · rintro ⟨member, enabled, target, ready⟩
    exact ⟨⟨member, enabled, target⟩, ready⟩
  · rintro ⟨⟨member, enabled, target⟩, ready⟩
    exact ⟨member, enabled, target, ready⟩

theorem isCandidate_eq_some
    (found : store.isCandidate candidates ignoreCooldown now profileId = some profile) :
    profile ∈ candidates ∧ profile.id = profileId ∧
      store.available ignoreCooldown now profile.id = true := by
  have picked := find?_some found
  obtain ⟨same, available⟩ : profile.id = profileId ∧
      store.available ignoreCooldown now profileId = true := by
    simpa using picked
  exact ⟨List.mem_of_find?_eq_some found, same, same ▸ available⟩

theorem isCandidate_eq_none
    (none : store.isCandidate candidates ignoreCooldown now profileId = none)
    (member : profile ∈ candidates) (available : store.available ignoreCooldown now profile.id = true) :
    profile.id ≠ profileId := by
  rintro rfl
  have rejected := find?_eq_none.mp none profile member
  simp [available] at rejected

theorem leastRecentlyUsed_eq_some
    (found : store.leastRecentlyUsed candidates ignoreCooldown now = some profile) :
    profile ∈ candidates ∧ store.available ignoreCooldown now profile.id = true ∧
      ∀ other ∈ candidates, store.available ignoreCooldown now other.id = true →
        store.lastUsedAt profile ≤ store.lastUsedAt other := by
  obtain ⟨member, least⟩ := firstMin_eq_some found
  obtain ⟨member, available⟩ := mem_filter.mp member
  exact ⟨member, available, fun other among ready => least other (mem_filter.mpr ⟨among, ready⟩)⟩

theorem leastRecentlyUsed_eq_none_iff :
    store.leastRecentlyUsed candidates ignoreCooldown now = none ↔
      ∀ other ∈ candidates, store.available ignoreCooldown now other.id = false := by
  rw [leastRecentlyUsed, firstMin_eq_none_iff, filter_eq_nil_iff]
  simp only [Bool.not_eq_true]

/-- The first of the ids that a candidate has, or the candidate used least recently. -/
theorem pickProfileFromCandidates_eq :
    store.pickProfileFromCandidates targetKey candidates ignoreCooldown now =
      ((store.priorityIds targetKey).findSome? (store.isCandidate candidates ignoreCooldown now)).or
        (store.leastRecentlyUsed candidates ignoreCooldown now) := by
  have ofOption : ∀ (id : Option Chars) (pick : Chars → Option AuthProfile),
      id.bind pick = id.toList.findSome? pick := by
    intro id pick
    cases id with
    | none => rfl
    | some id => simp
  have ofList : ∀ (ids : Option (List Chars)) (pick : Chars → Option AuthProfile),
      (ids.bind fun ids => ids.findSome? pick) = (ids.getD []).findSome? pick := by
    intro ids pick
    cases ids with
    | none => rfl
    | some ids => rfl
  rw [pickProfileFromCandidates]
  split
  · rename_i empty
    have empty : candidates = [] := List.isEmpty_iff.mp empty
    subst empty
    have noCandidate : store.isCandidate [] ignoreCooldown now = fun _ => none := rfl
    rw [noCandidate, findSome?_eq_none_iff.mpr fun _ _ => rfl]
    rfl
  · dsimp only
    rw [ofOption, ofList, ofOption, priorityIds, findSome?_append, findSome?_append]
    simp only [Option.or_assoc]

theorem pick_eq_none_iff :
    store.pickProfileFromCandidates targetKey candidates ignoreCooldown now = none ↔
      ∀ other ∈ candidates, store.available ignoreCooldown now other.id = false := by
  rw [pickProfileFromCandidates_eq, or_eq_none_iff, leastRecentlyUsed_eq_none_iff]
  refine ⟨fun none => none.2, fun none => ⟨?_, none⟩⟩
  refine findSome?_eq_none_iff.mpr fun id _ => ?_
  cases found : store.isCandidate candidates ignoreCooldown now id with
  | none => rfl
  | some profile =>
    obtain ⟨member, _, available⟩ := isCandidate_eq_some found
    exact absurd available (by rw [none profile member]; exact Bool.false_ne_true)

theorem pick_mem
    (found : store.pickProfileFromCandidates targetKey candidates ignoreCooldown now = some profile) :
    profile ∈ candidates ∧ store.available ignoreCooldown now profile.id = true := by
  rw [pickProfileFromCandidates_eq, or_eq_some_iff] at found
  rcases found with early | ⟨_, late⟩
  · obtain ⟨_, _, _, _, found, _⟩ := findSome?_eq_some_iff.mp early
    obtain ⟨member, _, available⟩ := isCandidate_eq_some found
    exact ⟨member, available⟩
  · obtain ⟨member, available, _⟩ := leastRecentlyUsed_eq_some late
    exact ⟨member, available⟩

/-- What is picked under a target key is the best of the qualifying profiles. -/
theorem best_of_pick
    (found : store.pickProfileFromCandidates targetKey (store.profilesForTargetKey targetKey) false now =
      some profile) : store.Best now targetKey profile := by
  refine ⟨qualifies_iff.mpr (pick_mem found), ?_⟩
  rw [pickProfileFromCandidates_eq, or_eq_some_iff] at found
  rcases found with early | ⟨none, late⟩
  · left
    obtain ⟨before, profileId, after, ids, found, earlier⟩ := findSome?_eq_some_iff.mp early
    obtain ⟨_, rfl, _⟩ := isCandidate_eq_some found
    refine ⟨before, after, ids, fun other among rival qualifies => ?_⟩
    obtain ⟨member, available⟩ := qualifies_iff.mp qualifies
    exact isCandidate_eq_none (earlier other among) member available
  · right
    obtain ⟨_, _, least⟩ := leastRecentlyUsed_eq_some late
    refine ⟨fun profileId among rival qualifies => ?_, fun rival qualifies => ?_⟩
    · obtain ⟨member, available⟩ := qualifies_iff.mp qualifies
      exact isCandidate_eq_none (findSome?_eq_none_iff.mp none profileId among) member available
    · obtain ⟨member, available⟩ := qualifies_iff.mp qualifies
      exact least rival member available

end Candidates

section Provider

variable {store : AuthProfileStore} {provider targetKey : Chars} {now : Int}
  {profile : AuthProfile} {ignoreCooldown : Bool}

/-- What may be picked is under a preferred target key or of the backend. -/
theorem pickProfileForProvider_mem
    (found : store.pickProfileForProvider provider ignoreCooldown now = some profile) :
    (store.Reachable provider profile ∨ store.OfBackend provider profile) ∧
      store.available ignoreCooldown now profile.id = true := by
  rw [pickProfileForProvider, or_eq_some_iff] at found
  rcases found with preferred | ⟨_, backend⟩
  · obtain ⟨before, targetKey, after, keys, picked, _⟩ := findSome?_eq_some_iff.mp preferred
    obtain ⟨member, available⟩ := pick_mem picked
    obtain ⟨member, enabled, target⟩ := mem_profilesForTargetKey.mp member
    refine ⟨Or.inl ⟨member, enabled, ?_⟩, available⟩
    rw [target, keys]
    exact mem_append_right _ mem_cons_self
  · obtain ⟨member, available, _⟩ := leastRecentlyUsed_eq_some backend
    exact ⟨Or.inr (mem_profilesForBackend.mp member), available⟩

/-- Nothing is picked when nothing is available. -/
theorem pickProfileForProvider_eq_none_iff :
    store.pickProfileForProvider provider ignoreCooldown now = none ↔
      ∀ profile, store.Reachable provider profile ∨ store.OfBackend provider profile →
        store.available ignoreCooldown now profile.id = false := by
  rw [pickProfileForProvider, or_eq_none_iff, findSome?_eq_none_iff, leastRecentlyUsed_eq_none_iff]
  constructor
  · rintro ⟨noPreferred, noBackend⟩ profile (⟨member, enabled, target⟩ | backend)
    · exact pick_eq_none_iff.mp (noPreferred _ target) profile
        (mem_profilesForTargetKey.mpr ⟨member, enabled, rfl⟩)
    · exact noBackend profile (mem_profilesForBackend.mpr backend)
  · intro unavailable
    refine ⟨fun targetKey among => pick_eq_none_iff.mpr fun profile candidate => ?_,
      fun profile candidate => unavailable profile (Or.inr (mem_profilesForBackend.mp candidate))⟩
    obtain ⟨member, enabled, target⟩ := mem_profilesForTargetKey.mp candidate
    exact unavailable profile (Or.inl ⟨member, enabled, target ▸ among⟩)

/-- A profile is active exactly when one can be reached or is of the backend. -/
theorem active_isSome_iff : (store.activeProfileForProvider provider now).isSome ↔
    ∃ profile, store.Reachable provider profile ∨ store.OfBackend provider profile := by
  constructor
  · intro some
    obtain ⟨profile, found⟩ := isSome_iff_exists.mp some
    rw [activeProfileForProvider, or_eq_some_iff] at found
    rcases found with ready | ⟨_, any⟩
    · exact ⟨profile, (pickProfileForProvider_mem ready).1⟩
    · exact ⟨profile, (pickProfileForProvider_mem any).1⟩
  · rintro ⟨profile, picked⟩
    rw [isSome_iff_ne_none]
    intro none
    rw [activeProfileForProvider, or_eq_none_iff] at none
    have unavailable := pickProfileForProvider_eq_none_iff.mp none.2 profile picked
    exact Bool.false_ne_true (unavailable.symm.trans available_ignore)

theorem active_enabled (found : store.activeProfileForProvider provider now = some profile) :
    profile.isDisabled = false := by
  have enabled : store.Reachable provider profile ∨ store.OfBackend provider profile →
      profile.isDisabled = false := by
    rintro (reachable | backend)
    · exact reachable.2.1
    · exact backend.enabled
  rw [activeProfileForProvider, or_eq_some_iff] at found
  rcases found with ready | ⟨_, any⟩
  · exact enabled (pickProfileForProvider_mem ready).1
  · exact enabled (pickProfileForProvider_mem any).1

/-- A profile in cooldown is active only if none of the backend is out of it. -/
theorem active_cooling (found : store.activeProfileForProvider provider now = some profile)
    (cooling : store.Cooling now profile) {other : AuthProfile}
    (backend : store.OfBackend provider other) : store.Cooling now other := by
  rw [activeProfileForProvider, or_eq_some_iff] at found
  rcases found with ready | ⟨none, _⟩
  · exact absurd cooling (available_iff.mp (pickProfileForProvider_mem ready).2)
  · have unavailable := pickProfileForProvider_eq_none_iff.mp none other (Or.inr backend)
    rw [← Bool.not_eq_true, available_iff, not_not] at unavailable
    exact unavailable

/-- The first preferred target key with a qualifying profile decides. -/
theorem active_best {before after : List Chars}
    (keys : preferredLookupTargetKeys provider = before ++ targetKey :: after)
    (earlier : ∀ earlier ∈ before, ¬ ∃ profile, store.Qualifies now earlier profile)
    (qualifies : ∃ profile, store.Qualifies now targetKey profile) :
    ∃ profile, store.activeProfileForProvider provider now = some profile ∧
      store.Best now targetKey profile := by
  have picked : ∃ profile, store.pickProfileFromCandidates targetKey
      (store.profilesForTargetKey targetKey) false now = some profile := by
    rw [← ne_none_iff_exists', ne_eq, pick_eq_none_iff]
    intro unavailable
    obtain ⟨profile, qualifies⟩ := qualifies
    obtain ⟨member, available⟩ := qualifies_iff.mp qualifies
    exact Bool.false_ne_true ((unavailable profile member).symm.trans available)
  obtain ⟨profile, picked⟩ := picked
  refine ⟨profile, ?_, best_of_pick picked⟩
  have first : ((preferredLookupTargetKeys provider).findSome? fun targetKey =>
      store.pickProfileFromCandidates targetKey (store.profilesForTargetKey targetKey) false now) =
      some profile := by
    refine findSome?_eq_some_iff.mpr ⟨before, targetKey, after, keys, picked, ?_⟩
    intro key among
    refine pick_eq_none_iff.mpr fun other candidate => ?_
    rw [← Bool.not_eq_true]
    intro available
    exact earlier key among ⟨other, qualifies_iff.mpr ⟨candidate, available⟩⟩
  rw [activeProfileForProvider, pickProfileForProvider, first]
  rfl

/-- The selection fails over as it should exactly if the target keys of the provider reach no
profile while its backend has none. -/
theorem failsOver_iff (store : AuthProfileStore) (provider : Chars) (now : Int) :
    store.FailsOver provider now ↔
      ((∃ profile, store.Reachable provider profile) → ∃ profile, store.OfBackend provider profile) := by
  constructor
  · rintro failsOver ⟨profile, reachable⟩
    exact failsOver.found.mp (active_isSome_iff.mpr ⟨profile, Or.inl reachable⟩)
  · intro own
    refine ⟨?_, fun profile found => active_enabled found,
      fun profile found cooling other backend => active_cooling found cooling backend,
      fun before targetKey after keys earlier qualifies => active_best keys earlier qualifies⟩
    rw [active_isSome_iff]
    constructor
    · rintro ⟨profile, reachable | backend⟩
      · exact own ⟨profile, reachable⟩
      · exact ⟨profile, backend⟩
    · rintro ⟨profile, backend⟩
      exact ⟨profile, Or.inr backend⟩

/-- A profile of a provider whose name ends like the target key of another one. -/
def lookalikeProfile : AuthProfile :=
  { id := "other".toList, provider := "openai@api".toList, authRoute := none, label := none,
    apiKey := some "sk".toList, refreshToken := none, authScheme := none, oauthSource := none,
    isDisabled := false }

def lookalikeStore : AuthProfileStore := { empty with profiles := [lookalikeProfile] }

/-- A provider without a profile gets that of another backend. -/
theorem lookalike_not_failsOver : ¬ lookalikeStore.FailsOver "openai".toList 0 := by
  intro failsOver
  have target : profileTargetKey lookalikeProfile = apiTargetKey "openai".toList := by
    decide +kernel
  have preferred : apiTargetKey "openai".toList ∈ preferredLookupTargetKeys "openai".toList := by
    decide +kernel
  have reachable : lookalikeStore.Reachable "openai".toList lookalikeProfile :=
    ⟨mem_cons_self, rfl, target ▸ preferred⟩
  obtain ⟨profile, backend⟩ := failsOver.found.mp (active_isSome_iff.mpr ⟨_, Or.inl reachable⟩)
  have same : profile = lookalikeProfile := mem_singleton.mp backend.member
  have other := backend.backend
  rw [same] at other
  exact absurd other (by decide +kernel)

end Provider

end AuthProfileStore

end Asterel.Auth
