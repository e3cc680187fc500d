import Asterel.Library.HashMap
import Asterel.Library.Selection
import Asterel.Security.AuthRoutes

/-!
# The store of auth profiles

A profile is looked up under its target key. The store keeps for each target key a default,
an order and the profile that was last good, in hash maps that are rebuilt in their iteration
order after every change.
-/

namespace Asterel.Auth

open Library Library.Text

structure AuthProfile where
  id : Chars
  provider : Chars
  authRoute : Option Chars
  label : Option Chars
  apiKey : Option Chars
  refreshToken : Option Chars
  authScheme : Option Chars
  oauthSource : Option Chars
  isDisabled : Bool
  deriving DecidableEq

/-- Usage statistics and cooldown state for a single profile. -/
structure ProfileUsageStats where
  lastUsedAt : Option Int
  cooldownUntil : Option Int
  errorCount : Nat
  disabledReason : Option String
  deriving DecidableEq

def ProfileUsageStats.default : ProfileUsageStats := ⟨none, none, 0, none⟩

structure AuthProfileStore where
  version : Nat
  defaults : HashMap Chars Chars
  order : HashMap Chars (List Chars)
  lastGood : HashMap Chars Chars
  usageStats : HashMap Chars ProfileUsageStats
  profiles : List AuthProfile

def authProfilesVersion : Nat := 1

def AuthProfileStore.empty : AuthProfileStore :=
  { version := authProfilesVersion, defaults := ∅, order := ∅, lastGood := ∅, usageStats := ∅,
    profiles := [] }

/-! ## Profiles -/

def profileTargetKey (profile : AuthProfile) : Chars :=
  authTargetKey profile.provider
    (canonicalAuthRoute profile.provider profile.authRoute profile.authScheme profile.oauthSource)

def normalizeProfile (profile : AuthProfile) : AuthProfile :=
  let authScheme := profile.authScheme.bind normalizedText
  let oauthSource := profile.oauthSource.bind normalizedText
  { profile with
    provider := canonicalProviderName profile.provider
    authRoute := canonicalAuthRoute profile.provider profile.authRoute authScheme oauthSource
    authScheme
    oauthSource }

namespace AuthProfileStore

/-! ## Selection

The indexes of profiles are replaced by the profiles that they point to. -/

def profilesForTargetKey (store : AuthProfileStore) (targetKey : Chars) : List AuthProfile :=
  store.profiles.filter fun profile => !profile.isDisabled && profileTargetKey profile = targetKey

def profilesForBackend (store : AuthProfileStore) (provider : Chars) : List AuthProfile :=
  let canonical := canonicalProviderName provider
  store.profiles.filter fun profile =>
    !profile.isDisabled && canonicalProviderName profile.provider = canonical

def cooldownActive (stats : Option ProfileUsageStats) (now : Int) : Bool :=
  (stats.bind ProfileUsageStats.cooldownUntil).any fun cooldownUntil => now < cooldownUntil

/-- Whether a profile may be picked, as far as its cooldown is concerned. -/
def available (store : AuthProfileStore) (ignoreCooldown : Bool) (now : Int) (profileId : Chars) : Bool :=
  ignoreCooldown || !cooldownActive (store.usageStats.lookup profileId) now

def lastUsedAt (store : AuthProfileStore) (profile : AuthProfile) : Int :=
  ((store.usageStats.lookup profile.id).bind ProfileUsageStats.lastUsedAt).getD 0

def leastRecentlyUsed (store : AuthProfileStore) (candidates : List AuthProfile)
    (ignoreCooldown : Bool) (now : Int) : Option AuthProfile :=
  firstMin store.lastUsedAt
    (candidates.filter fun profile => store.available ignoreCooldown now profile.id)

def isCandidate (store : AuthProfileStore) (candidates : List AuthProfile) (ignoreCooldown : Bool)
    (now : Int) (profileId : Chars) : Option AuthProfile :=
  candidates.find? fun profile =>
    profile.id = profileId && store.available ignoreCooldown now profileId

def pickProfileFromCandidates (store : AuthProfileStore) (targetKey : Chars)
    (candidates : List AuthProfile) (ignoreCooldown : Bool) (now : Int) : Option AuthProfile :=
  if candidates.isEmpty then none
  else
    let isCandidate := store.isCandidate candidates ignoreCooldown now
    ((store.defaults.lookup targetKey).bind isCandidate).or <|
      ((store.order.lookup targetKey).bind fun orderList => orderList.findSome? isCandidate).or <|
      ((store.lastGood.lookup targetKey).bind isCandidate).or <|
      store.leastRecentlyUsed candidates ignoreCooldown now

end AuthProfileStore

/-- The target key of the route that a provider name asks for. -/
def requestedTargetKey (provider : Chars) : Option Chars :=
  (requestedAuthRoute provider).map fun route =>
    authTargetKey (canonicalProviderName provider) (some route)

def apiTargetKey (provider : Chars) : Chars :=
  authTargetKey (canonicalProviderName provider) (some "api".toList)

def preferredLookupTargetKeys (provider : Chars) : List Chars :=
  let targetKeys := (requestedTargetKey provider).toList
  if apiTargetKey provider ∈ targetKeys then targetKeys else targetKeys ++ [apiTargetKey provider]

namespace AuthProfileStore

/-- The clock is read once. -/
def pickProfileForProvider (store : AuthProfileStore) (provider : Chars) (ignoreCooldown : Bool)
    (now : Int) : Option AuthProfile :=
  ((preferredLookupTargetKeys provider).findSome? fun targetKey =>
    store.pickProfileFromCandidates targetKey (store.profilesForTargetKey targetKey)
      ignoreCooldown now).or <|
  store.leastRecentlyUsed (store.profilesForBackend (canonicalProviderName provider))
    ignoreCooldown now

/-- Return the active profile for a provider. -/
def activeProfileForProvider (store : AuthProfileStore) (provider : Chars) (now : Int) :
    Option AuthProfile :=
  (store.pickProfileForProvider provider false now).or
    (store.pickProfileForProvider provider true now)

def targetKeyForProfileOrder (store : AuthProfileStore) (provider : Chars) : Chars :=
  let preferred := (preferredLookupTargetKeys provider).find? fun targetKey =>
    !(store.profilesForTargetKey targetKey).isEmpty
  let existing := (store.profilesForBackend (canonicalProviderName provider)).head?.map profileTargetKey
  let defaultKey := (requestedTargetKey provider).getD (apiTargetKey provider)
  (preferred.or existing).getD defaultKey

/-! ## Bookkeeping -/

/-- The orders in which the hash maps are iterated while the metadata is normalized. -/
structure Orders where
  defaults : HashMap.IterationOrder Chars Chars
  lastGood : HashMap.IterationOrder Chars Chars
  order : HashMap.IterationOrder Chars (List Chars)
  targetIds : HashMap.IterationOrder Chars (List Chars)
  missing : HashMap.IterationOrder Chars (List Chars)

/-- Append an id to a list that does not have it. -/
def pushNew (ids : List Chars) (profileId : Chars) : List Chars :=
  if profileId ∈ ids then ids else ids ++ [profileId]

def targetByProfileId (profiles : List AuthProfile) : HashMap Chars Chars :=
  HashMap.collect (profiles.map fun profile => ⟨profile.id, profileTargetKey profile⟩)

def pushId (map : HashMap Chars (List Chars)) (targetKey profileId : Chars) :
    HashMap Chars (List Chars) :=
  map.insert targetKey ((map.lookup targetKey).getD [] ++ [profileId])

def targetIds (profiles : List AuthProfile) : HashMap Chars (List Chars) :=
  profiles.foldl (fun map profile => pushId map (profileTargetKey profile) profile.id) ∅

/-- The ids under their own target keys; a later id takes the place of an earlier one. -/
def rekey (target : HashMap Chars Chars) (ids : List Chars) : HashMap Chars Chars :=
  ids.foldl (fun map profileId =>
    match target.lookup profileId with
    | some targetKey => map.insert targetKey profileId
    | none => map) ∅

/-- Append new ids to the entry of a target key. -/
def extend (map : HashMap Chars (List Chars)) (targetKey : Chars) (ids : List Chars) :
    HashMap Chars (List Chars) :=
  map.insert targetKey (ids.foldl pushNew ((map.lookup targetKey).getD []))

/-- The ids of an order under their own target keys. -/
def reorder (target : HashMap Chars Chars) (ids : List Chars) : HashMap Chars (List Chars) :=
  ids.foldl (fun map profileId =>
    match target.lookup profileId with
    | some targetKey => extend map targetKey [profileId]
    | none => map) ∅

/-- The source also returns whether anything changed. -/
def normalizeMetadata (orders : Orders) (store : AuthProfileStore) : AuthProfileStore :=
  let profiles := store.profiles.map normalizeProfile
  let target := targetByProfileId profiles
  let ids := targetIds profiles
  let listed := reorder target (store.order.arranged orders.order).values.flatten
  let order := (ids.arranged orders.targetIds).entries.foldl
    (fun map entry => extend map entry.1 entry.2) listed
  { version := store.version
    defaults := rekey target (store.defaults.arranged orders.defaults).values
    order := order.insertMissing (ids.arranged orders.missing).entries
    lastGood := rekey target (store.lastGood.arranged orders.lastGood).values
    usageStats := store.usageStats.retain fun profileId _ =>
      profiles.any fun profile => profile.id = profileId
    profiles }

/-- Set the priority order of profiles for a provider. -/
def setProfileOrder (store : AuthProfileStore) (provider : Chars) (orderedProfileIds : List Chars) :
    AuthProfileStore :=
  let targetKey := store.targetKeyForProfileOrder provider
  let filtered := (orderedProfileIds.filter fun profileId =>
    store.profiles.any fun profile =>
      profileTargetKey profile = targetKey && profile.id = profileId).foldl pushNew []
  let rest := (store.profiles.filter fun profile => profileTargetKey profile = targetKey).map
    AuthProfile.id
  { store with order := store.order.insert targetKey (rest.foldl pushNew filtered) }

/-- Record a successful use and clear cooldown for a profile. -/
def markProfileUsed (store : AuthProfileStore) (profileId : Chars) (now : Int) : AuthProfileStore :=
  let lastGood :=
    match store.profiles.find? fun profile => profile.id = profileId with
    | some profile => store.lastGood.insert (profileTargetKey profile) profileId
    | none => store.lastGood
  let stats := (store.usageStats.lookup profileId).getD .default
  { store with
    lastGood
    usageStats := store.usageStats.insert profileId
      { stats with lastUsedAt := some now, cooldownUntil := none, errorCount := 0, disabledReason := none } }

def trimmedText (text : Chars) : Option Chars :=
  let trimmed := trim text
  if trimmed = [] then none else some trimmed

/-- The profile that an upsert stores. -/
def storedProfile (profile : AuthProfile) : AuthProfile :=
  let authScheme := profile.authScheme.bind normalizedText
  let oauthSource := profile.oauthSource.bind normalizedText
  { id := trim profile.id
    provider := canonicalProviderName profile.provider
    authRoute := canonicalAuthRoute profile.provider profile.authRoute authScheme oauthSource
    label := profile.label.bind trimmedText
    apiKey := profile.apiKey.bind trimmedText
    refreshToken := profile.refreshToken.bind trimmedText
    authScheme
    oauthSource
    isDisabled := false }

/-- Rewrite the first member that meets a test. -/
def updateFirst (test : AuthProfile → Bool) (rewrite : AuthProfile → AuthProfile) :
    List AuthProfile → List AuthProfile
  | [] => []
  | profile :: rest =>
    if test profile then rewrite profile :: rest else profile :: updateFirst test rewrite rest

/-- The errors of `upsert_profile`. -/
def checkUpsert (store : AuthProfileStore) (profile : AuthProfile) : Except String Unit :=
  let profileId := trim profile.id
  let shown := String.ofList profileId
  if profileId = [] then .error "Profile id cannot be empty"
  else if !isValidProfileId profileId then
    .error s!"Invalid profile id '{shown}'. Use letters, numbers, '-', '_', or '.'"
  else if canonicalProviderName profile.provider = [] then .error "Provider cannot be empty"
  else
    match store.profiles.find? fun existing => existing.id = profileId with
    | some existing =>
      let belongs := String.ofList existing.provider
      if canonicalProviderName existing.provider ≠ canonicalProviderName profile.provider then
        .error s!"Profile id '{shown}' already belongs to provider '{belongs}'"
      else .ok ()
    | none => .ok ()

/-- The store with an accepted profile, before its metadata is normalized, and whether the
profile is new. -/
def insertProfile (store : AuthProfileStore) (profile : AuthProfile) (setDefault : Bool) :
    Bool × AuthProfileStore :=
  let stored := storedProfile profile
  let profileId := stored.id
  let targetKey := authTargetKey stored.provider stored.authRoute
  let defaults :=
    if setDefault then store.defaults.insert targetKey profileId else store.defaults
  match store.profiles.find? fun existing => existing.id = profileId with
  | some _ =>
    (false, { store with
        profiles := updateFirst (fun existing => existing.id = profileId) (fun _ => stored) store.profiles
        usageStats := store.usageStats.modify profileId fun stats =>
          { stats with cooldownUntil := none, errorCount := 0 }
        defaults })
  | none =>
    (true, { store with
        profiles := store.profiles ++ [stored]
        order := pushId store.order targetKey profileId
        usageStats :=
          store.usageStats.insert profileId ((store.usageStats.lookup profileId).getD .default)
        defaults
        lastGood :=
          if setDefault then store.lastGood.insert targetKey profileId else store.lastGood })

/-- Insert or update a profile, returning `true` if a new profile was created. -/
def upsertProfile (orders : Orders) (store : AuthProfileStore) (profile : AuthProfile)
    (setDefault : Bool) : Except String (Bool × AuthProfileStore) :=
  match store.checkUpsert profile with
  | .error message => .error message
  | .ok () =>
    let inserted := store.insertProfile profile setDefault
    .ok (inserted.1, normalizeMetadata orders inserted.2)

end AuthProfileStore

end Asterel.Auth
