import Mathlib
import Asterel.Library.HashMap
import Asterel.Library.Readings
import Asterel.Security.PolicyPath

/-!
# Trust scores per domain

Each domain has a score that starts at one half and moves back towards one half
with time. A recorded success raises it, a recorded violation lowers it, and
either may move the autonomy level of the domain by one step.

Scores are numbers of an ordered field. The power of one half that an entry's gap
to neutral shrinks by is a function of the number of half-lives, `halving`; the
statements that need it say which laws they use. An instant is a number of
nanoseconds, and each call reads the clock once.
-/

namespace Asterel.DomainTrustTracker

open Library
open Asterel.Policy (AutonomyLevel)

universe u

variable {R : Type u}

/-- The trust state of one domain. -/
@[ext] structure DomainTrust (R : Type u) where
  domain : String
  score : R
  autonomy : AutonomyLevel
  lastUpdated : Nat
  successCount : UInt32
  violationCount : UInt32

/-- The dynamics of trust. -/
structure TrustConfig (R : Type u) where
  decayHalfLifeHours : R
  successBoost : R
  violationPenalty : R
  demotionThreshold : R
  promotionThreshold : R
  minInteractionsForPromotion : UInt32

def nanosPerSec : Nat := 1000000000

/-- `(now - last).num_seconds()`, where a negative duration counts as none. -/
def elapsedSeconds (last now : Nat) : Nat := (now - last) / nanosPerSec

/-- The table behind the mutex. -/
abbrev Domains (R : Type u) := HashMap String (DomainTrust R)

/-- The public calls of the tracker. -/
inductive Request where
  | getTrust (domain : String)
  | recordSuccess (domain : String)
  | recordViolation (domain : String)
  | allDomains
deriving DecidableEq

/-- A call and the instant it reads from the clock. -/
structure Call where
  now : Nat
  request : Request
deriving DecidableEq

/-- What a call returns. -/
inductive Answer (R : Type u) where
  | recorded
  | trust (trust : DomainTrust R)
  | all (trusts : List (DomainTrust R))

/-- `get_trust` and `all_domains`. -/
def reads (call : Call) : Bool :=
  match call.request with
  | .getTrust _ | .allDomains => true
  | .recordSuccess _ | .recordViolation _ => false

section Tracker

variable [Field R] [LinearOrder R]

/-- `TrustConfig::default`. -/
def TrustConfig.default : TrustConfig R where
  decayHalfLifeHours := 168
  successBoost := 2 / 100
  violationPenalty := 15 / 100
  demotionThreshold := 3 / 10
  promotionThreshold := 8 / 10
  minInteractionsForPromotion := 10

/-- `0.5.powf`. -/
noncomputable def powerOfHalf (count : ℝ) : ℝ := (1 / 2) ^ count

def neutral : R := 1 / 2

/-- `DomainTrust::new`. -/
def DomainTrust.new (now : Nat) (domain : String) : DomainTrust R where
  domain := domain
  score := neutral
  autonomy := .supervised
  lastUpdated := now
  successCount := 0
  violationCount := 0

variable (halving : R → R) (config : TrustConfig R)

/-- `0.5.powf(elapsed_hours / half_life)` for a number of seconds. -/
def decayFactor (seconds : Nat) : R :=
  halving ((seconds : R) / 3600 / config.decayHalfLifeHours)

def applyDecay (now : Nat) (trust : DomainTrust R) : DomainTrust R :=
  let seconds := elapsedSeconds trust.lastUpdated now
  if seconds = 0 then trust
  else
    { trust with
      score := neutral + (trust.score - neutral) * decayFactor halving config seconds
      lastUpdated := now }

def maybePromote (trust : DomainTrust R) : DomainTrust R :=
  if config.promotionThreshold ≤ trust.score ∧
      config.minInteractionsForPromotion ≤ trust.successCount then
    { trust with
      autonomy := match trust.autonomy with
        | .readOnly => .supervised
        | .supervised | .full => .full }
  else trust

def maybeDemote (trust : DomainTrust R) : DomainTrust R :=
  if trust.score < config.demotionThreshold then
    { trust with
      autonomy := match trust.autonomy with
        | .full => .supervised
        | .supervised | .readOnly => .readOnly }
  else trust

/-- `entry(domain).or_insert_with_key(DomainTrust::new)`. -/
def entry (now : Nat) (domain : String) (domains : Domains R) : DomainTrust R :=
  (domains.lookup domain).getD (.new now domain)

/-- What `record_success` leaves of an entry after its decay. -/
def succeed (now : Nat) (trust : DomainTrust R) : DomainTrust R :=
  maybePromote config
    { trust with
      score := min (trust.score + config.successBoost) 1
      successCount := trust.successCount + 1
      lastUpdated := now }

/-- What `record_violation` leaves of an entry after its decay. -/
def violate (now : Nat) (trust : DomainTrust R) : DomainTrust R :=
  maybeDemote config
    { trust with
      score := max (trust.score - config.violationPenalty) 0
      violationCount := trust.violationCount + 1
      lastUpdated := now }

def getTrust (now : Nat) (domain : String) (domains : Domains R) : DomainTrust R × Domains R :=
  let trust := applyDecay halving config now (entry now domain domains)
  (trust, domains.insert domain trust)

def recordSuccess (now : Nat) (domain : String) (domains : Domains R) : Domains R :=
  let trust := applyDecay halving config now (entry now domain domains)
  domains.insert domain (succeed config now trust)

def recordViolation (now : Nat) (domain : String) (domains : Domains R) : Domains R :=
  let trust := applyDecay halving config now (entry now domain domains)
  domains.insert domain (violate config now trust)

/-- The values of the table, in its iteration order, are the answer. -/
def allDomains (now : Nat) (domains : Domains R) : List (DomainTrust R) × Domains R :=
  let decayed := domains.filterMap fun _ trust => some (applyDecay halving config now trust)
  (decayed.values, decayed)

/-- One call. -/
def call (domains : Domains R) (made : Call) : Answer R × Domains R :=
  match made.request with
  | .getTrust domain =>
    let (trust, next) := getTrust halving config made.now domain domains
    (.trust trust, next)
  | .recordSuccess domain => (.recorded, recordSuccess halving config made.now domain domains)
  | .recordViolation domain => (.recorded, recordViolation halving config made.now domain domains)
  | .allDomains =>
    let (trusts, next) := allDomains halving config made.now domains
    (.all trusts, next)

/-- The table after a call. -/
def step (domains : Domains R) (made : Call) : Domains R := (call halving config domains made).2

/-- The table of a new tracker after the calls. -/
def run (calls : List Call) : Domains R := Readings.run (step halving config) ∅ calls

/-- What a call reports about each domain. -/
def Answer.reported : Answer R → String → Option (R × AutonomyLevel)
  | .recorded, _ => none
  | .trust found, domain =>
    if found.domain = domain then some (found.score, found.autonomy) else none
  | .all found, domain =>
    (found.find? fun other => other.domain = domain).map fun other =>
      (other.score, other.autonomy)

/-- What a call reports after the given calls. -/
def report (before : List Call) (made : Call) : String → Option (R × AutonomyLevel) :=
  (call halving config (run halving config before) made).1.reported

end Tracker

/-! ## Entries -/

section Entries

variable [Field R] {halving : R → R} {config : TrustConfig R}
variable {trust : DomainTrust R} (now : Nat)

/-- Within the first second an entry does not change. -/
theorem applyDecay_of_elapsed_zero {now : Nat}
    (early : elapsedSeconds trust.lastUpdated now = 0) : applyDecay halving config now trust = trust :=
  if_pos early

/-- Decay changes the score and the time of the last update only. -/
theorem applyDecay_fields (trust : DomainTrust R) :
    (applyDecay halving config now trust).domain = trust.domain ∧
      (applyDecay halving config now trust).autonomy = trust.autonomy ∧
      (applyDecay halving config now trust).successCount = trust.successCount ∧
      (applyDecay halving config now trust).violationCount = trust.violationCount := by
  simp only [applyDecay]
  split <;> exact ⟨rfl, rfl, rfl, rfl⟩

theorem applyDecay_lastUpdated (trust : DomainTrust R) :
    (applyDecay halving config now trust).lastUpdated =
      if elapsedSeconds trust.lastUpdated now = 0 then trust.lastUpdated else now := by
  simp only [applyDecay]
  split <;> rfl

variable (halving config) in
/-- The share of its gap to neutral that a score keeps over a number of seconds. -/
def share (seconds : Nat) : R := if seconds = 0 then 1 else decayFactor halving config seconds

theorem share_zero : share halving config 0 = 1 := if_pos rfl

/-- The score after a decay, whether or not a second has passed. -/
theorem applyDecay_score (trust : DomainTrust R) :
    (applyDecay halving config now trust).score = neutral + (trust.score - neutral) *
        share halving config (elapsedSeconds trust.lastUpdated now) := by
  simp only [applyDecay, share]
  split
  · ring
  · rfl

/-- A neutral score stays neutral. -/
theorem applyDecay_neutral {now : Nat} (even : trust.score = neutral) :
    (applyDecay halving config now trust).score = neutral := by
  rw [applyDecay_score, even, sub_self, zero_mul, add_zero]

variable [LinearOrder R]

omit [Field R] in
theorem maybePromote_fields (trust : DomainTrust R) :
    (maybePromote config trust).score = trust.score ∧
      (maybePromote config trust).domain = trust.domain ∧
      (maybePromote config trust).lastUpdated = trust.lastUpdated := by
  rw [maybePromote]
  split <;> exact ⟨rfl, rfl, rfl⟩

omit [Field R] in
theorem maybeDemote_fields (trust : DomainTrust R) :
    (maybeDemote config trust).score = trust.score ∧
      (maybeDemote config trust).domain = trust.domain ∧
      (maybeDemote config trust).lastUpdated = trust.lastUpdated := by
  rw [maybeDemote]
  split <;> exact ⟨rfl, rfl, rfl⟩

end Entries

section Law

variable [Field R] [LinearOrder R]
variable {trust : DomainTrust R} {later now : Nat} {domain : String}

/-- What a power of one half does: it turns sums into products, it is positive, and over
a positive time it is less than one. -/
structure Halving (halving : R → R) : Prop where
  add : ∀ first second, halving (first + second) = halving first * halving second
  pos : ∀ count, 0 < halving count
  lt_one : ∀ count, 0 < count → halving count < 1

variable [IsStrictOrderedRing R] {halving : R → R} {config : TrustConfig R}

theorem share_pos (law : Halving halving) (seconds : Nat) : 0 < share halving config seconds := by
  rw [share]
  split
  · exact one_pos
  · exact law.pos _

theorem share_lt_one (law : Halving halving) (ages : 0 < config.decayHalfLifeHours) {seconds : Nat}
    (passed : seconds ≠ 0) : share halving config seconds < 1 := by
  rw [share, if_neg passed, decayFactor]
  apply law.lt_one
  have some : (0 : R) < seconds := Nat.cast_pos.mpr (Nat.pos_of_ne_zero passed)
  exact div_pos (div_pos some (by norm_num)) ages

theorem share_le_one (law : Halving halving) (ages : 0 < config.decayHalfLifeHours) (seconds : Nat) :
    share halving config seconds ≤ 1 := by
  by_cases none : seconds = 0
  · rw [share, if_pos none]
  · exact (share_lt_one law ages none).le

omit [IsStrictOrderedRing R] in
/-- What is left after two times is what the second leaves of what the first leaves. -/
theorem share_add (law : Halving halving) (first second : Nat) :
    share halving config (first + second) =
      share halving config first * share halving config second := by
  by_cases none : first = 0
  · rw [none, Nat.zero_add, share_zero, one_mul]
  by_cases nothing : second = 0
  · rw [nothing, Nat.add_zero, share_zero, mul_one]
  · rw [share, share, share, if_neg none, if_neg nothing, if_neg (by omega), decayFactor,
      Nat.cast_add, add_div, add_div, law.add, decayFactor, decayFactor]

/-! ## One reading of one entry -/

/-- A reading that finds a neutral score, or finds the entry within a second of its
last update or a whole number of seconds after it. -/
def ReadQuietly (now : Nat) (trust : DomainTrust R) : Prop :=
  trust.score = neutral ∨ elapsedSeconds trust.lastUpdated now = 0 ∨
    nanosPerSec ∣ now - trust.lastUpdated

/-- At whole seconds no part of the elapsed time is lost. -/
theorem elapsedSeconds_add {last : Nat} (ordered : last ≤ now) (next : now ≤ later)
    (whole : nanosPerSec ∣ now - last) :
    elapsedSeconds last later = elapsedSeconds last now + elapsedSeconds now later := by
  obtain ⟨seconds, apart⟩ := whole
  have total : later - last = (later - now) + nanosPerSec * seconds := by omega
  rw [elapsedSeconds, total, Nat.add_mul_div_left _ _ (by decide), elapsedSeconds, apart,
    Nat.mul_div_cancel_left _ (by decide), elapsedSeconds, Nat.add_comm]

omit [IsStrictOrderedRing R] in
/-- A quiet reading changes no later reading. -/
theorem score_of_readQuietly (law : Halving halving)
    (quiet : ReadQuietly now trust) (next : now ≤ later) :
    (applyDecay halving config later (applyDecay halving config now trust)).score =
      (applyDecay halving config later trust).score := by
  by_cases early : elapsedSeconds trust.lastUpdated now = 0
  · rw [applyDecay_of_elapsed_zero early]
  · rcases quiet with even | early' | whole
    · rw [applyDecay_neutral (applyDecay_neutral even), applyDecay_neutral even]
    · exact absurd early' early
    · have ordered : trust.lastUpdated ≤ now := by
        apply Nat.le_of_not_lt
        intro future
        apply early
        rw [elapsedSeconds, Nat.sub_eq_zero_of_le future.le, Nat.zero_div]
      rw [applyDecay_score, applyDecay_score, applyDecay_lastUpdated, if_neg early,
        applyDecay_score, elapsedSeconds_add ordered next whole, share_add law]
      ring

/-- A reading that is not quiet changes the reading at the next whole second after the
last update. -/
theorem score_ne_of_not_readQuietly (law : Halving halving) (ages : 0 < config.decayHalfLifeHours)
    (loud : ¬ ReadQuietly now trust)
    (next : later = now + (nanosPerSec - (now - trust.lastUpdated) % nanosPerSec)) :
    (applyDecay halving config later (applyDecay halving config now trust)).score ≠
      (applyDecay halving config later trust).score := by
  simp only [ReadQuietly, not_or] at loud
  obtain ⟨uneven, passed, broken⟩ := loud
  have past : (now - trust.lastUpdated) % nanosPerSec ≠ 0 :=
    fun none => broken (Nat.dvd_of_mod_eq_zero none)
  have below := Nat.mod_lt (now - trust.lastUpdated) (show 0 < nanosPerSec by decide)
  have parts := Nat.div_add_mod (now - trust.lastUpdated) nanosPerSec
  have after : trust.lastUpdated ≤ now := by
    apply Nat.le_of_not_lt
    intro future
    apply passed
    rw [elapsedSeconds, Nat.sub_eq_zero_of_le future.le, Nat.zero_div]
  have short : elapsedSeconds now later = 0 := by
    rw [elapsedSeconds, next, Nat.add_sub_cancel_left]
    apply Nat.div_eq_of_lt
    omega
  have unread : elapsedSeconds trust.lastUpdated later =
      elapsedSeconds trust.lastUpdated now + 1 := by
    have total : later - trust.lastUpdated =
        nanosPerSec * ((now - trust.lastUpdated) / nanosPerSec + 1) := by
      rw [Nat.mul_add]
      omega
    rw [elapsedSeconds, total, Nat.mul_div_cancel_left _ (by decide), elapsedSeconds]
  rw [applyDecay_score, applyDecay_score, applyDecay_lastUpdated, if_neg passed, applyDecay_score,
    short, unread, share_add law]
  intro same
  have kept : 0 < share halving config (elapsedSeconds trust.lastUpdated now) := share_pos law _
  have less : share halving config 1 < 1 := share_lt_one law ages one_ne_zero
  rw [share_zero] at same
  have product : (trust.score - neutral) *
      (share halving config (elapsedSeconds trust.lastUpdated now) *
        (1 - share halving config 1)) = 0 := by
    linear_combination same
  rcases mul_eq_zero.mp product with even | lost
  · exact uneven (sub_eq_zero.mp even)
  · rcases mul_eq_zero.mp lost with gone | still
    · exact kept.ne' gone
    · exact less.ne (sub_eq_zero.mp still).symm

/-- A reading of an entry changes no later reading of it exactly when it is quiet. -/
theorem score_after_read_iff (law : Halving halving) (ages : 0 < config.decayHalfLifeHours)
    (now : Nat) (trust : DomainTrust R) :
    (∀ later, now ≤ later →
        (applyDecay halving config later (applyDecay halving config now trust)).score =
          (applyDecay halving config later trust).score) ↔ ReadQuietly now trust := by
  constructor
  · intro unchanged
    by_contra loud
    exact score_ne_of_not_readQuietly law ages loud rfl (unchanged _ (Nat.le_add_right now _))
  · intro quiet later next
    exact score_of_readQuietly law quiet next

/-! ## The table after a call -/

omit [IsStrictOrderedRing R] in
/-- What a call leaves of each domain. -/
theorem lookup_step (domains : Domains R) (made : Call) (domain : String) :
    (step halving config domains made).lookup domain = match made.request with
      | .getTrust named =>
        if domain = named then
          some (applyDecay halving config made.now (entry made.now named domains))
        else domains.lookup domain
      | .recordSuccess named =>
        if domain = named then
          some (succeed config made.now
            (applyDecay halving config made.now (entry made.now named domains)))
        else domains.lookup domain
      | .recordViolation named =>
        if domain = named then
          some (violate config made.now
            (applyDecay halving config made.now (entry made.now named domains)))
        else domains.lookup domain
      | .allDomains => (domains.lookup domain).map (applyDecay halving config made.now) := by
  obtain ⟨now, request⟩ := made
  cases request with
  | allDomains =>
    simp only [step, call, allDomains, HashMap.lookup_filterMap]
    cases domains.lookup domain <;> rfl
  | _ named =>
    simp only [step, call, getTrust, recordSuccess, recordViolation]
    split
    · subst domain
      exact AList.lookup_insert _
    · next other => exact AList.lookup_insert_ne other

omit [IsStrictOrderedRing R] in
/-- A property of new entries that decay, success and violation keep holds of every entry
of every table that is reached. -/
theorem lookup_run (property : String → DomainTrust R → Prop)
    (fresh : ∀ now domain, property domain (.new now domain))
    (decays : ∀ now domain trust, property domain trust →
      property domain (applyDecay halving config now trust))
    (succeeds : ∀ now domain trust, property domain trust →
      property domain (succeed config now trust))
    (violates : ∀ now domain trust, property domain trust →
      property domain (violate config now trust))
    (calls : List Call)
    (held : (run halving config calls).lookup domain = some trust) : property domain trust := by
  induction calls using List.reverseRecOn generalizing domain trust with
  | nil => exact absurd held (by simp [run])
  | append_singleton before made ih =>
    have entered : ∀ now named, property named (entry now named (run halving config before)) := by
      intro now named
      rw [entry]
      cases found : (run halving config before).lookup named with
      | none => exact fresh now named
      | some earlier => exact ih found
    rw [run, Readings.run_concat, lookup_step] at held
    cases asked : made.request with
    | allDomains =>
      simp only [asked, Option.map_eq_some_iff] at held
      obtain ⟨earlier, found, rfl⟩ := held
      exact decays made.now domain earlier (ih found)
    | getTrust named =>
      simp only [asked] at held
      split at held
      · cases held
        subst domain
        exact decays made.now named _ (entered made.now named)
      · exact ih held
    | recordSuccess named =>
      simp only [asked] at held
      split at held
      · cases held
        subst domain
        exact succeeds made.now named _ (decays made.now named _ (entered made.now named))
      · exact ih held
    | recordViolation named =>
      simp only [asked] at held
      split at held
      · cases held
        subst domain
        exact violates made.now named _ (decays made.now named _ (entered made.now named))
      · exact ih held

omit [IsStrictOrderedRing R] in
/-- Every entry is stored under its own name. -/
theorem domain_of_lookup_run (calls : List Call)
    (held : (run halving config calls).lookup domain = some trust) : trust.domain = domain := by
  apply lookup_run (fun name trust => trust.domain = name) _ _ _ _ calls held
  · intro now domain
    rfl
  · intro now domain trust same
    rw [(applyDecay_fields now trust).1, same]
  · intro now domain trust same
    rw [succeed, (maybePromote_fields _).2.1, same]
  · intro now domain trust same
    rw [violate, (maybeDemote_fields _).2.1, same]

/-! ## Bounds of the score -/

/-- Scores lie between zero and one. -/
def Bounded (trust : DomainTrust R) : Prop := 0 ≤ trust.score ∧ trust.score ≤ 1

variable (halving config) in
/-- Every score in every table that calls lead to lies between zero and one. -/
def ScoresBounded : Prop :=
  ∀ (calls : List Call) (domain : String) (trust : DomainTrust R),
    (run halving config calls).lookup domain = some trust → Bounded trust

/-- Decay moves the score towards one half. -/
theorem applyDecay_bounded (law : Halving halving) (ages : 0 < config.decayHalfLifeHours) (now : Nat)
    (bounded : Bounded trust) :
    Bounded (applyDecay halving config now trust) := by
  have positive : 0 < share halving config (elapsedSeconds trust.lastUpdated now) :=
    share_pos law _
  have atMost : share halving config (elapsedSeconds trust.lastUpdated now) ≤ 1 :=
    share_le_one law ages _
  obtain ⟨low, high⟩ := bounded
  rw [Bounded, applyDecay_score, neutral]
  constructor <;> nlinarith

theorem succeed_bounded (raises : 0 ≤ config.successBoost) (now : Nat)
    (bounded : Bounded trust) : Bounded (succeed config now trust) := by
  rw [Bounded, succeed, (maybePromote_fields _).1]
  exact ⟨le_min (add_nonneg bounded.1 raises) zero_le_one, min_le_right _ _⟩

theorem violate_bounded (lowers : 0 ≤ config.violationPenalty) (now : Nat)
    (bounded : Bounded trust) : Bounded (violate config now trust) := by
  rw [Bounded, violate, (maybeDemote_fields _).1]
  exact ⟨le_max_right _ _, max_le ((sub_le_self _ lowers).trans bounded.2) zero_le_one⟩

/-- The score of one domain after the same call at the first instant, over and over. -/
def repeated (request : Request) (count : Nat) : List Call := List.replicate count ⟨0, request⟩

omit [IsStrictOrderedRing R] in
theorem run_repeated_succ (request : Request) (count : Nat) :
    run halving config (repeated request (count + 1)) =
      step halving config (run halving config (repeated request count)) ⟨0, request⟩ := by
  rw [repeated, List.replicate_succ', run, Readings.run_concat]
  rfl

omit [IsStrictOrderedRing R] [LinearOrder R] in
/-- At the first instant nothing decays. -/
theorem applyDecay_zero (trust : DomainTrust R) : applyDecay halving config 0 trust = trust := by
  apply applyDecay_of_elapsed_zero
  rw [elapsedSeconds, Nat.zero_sub, Nat.zero_div]

variable (halving config) in
/-- Successes with a negative boost lower the score without end. -/
theorem score_repeated_success (domain : String) (count : Nat) :
    (entry 0 domain (run halving config (repeated (.recordSuccess domain) count))).score ≤
      neutral + count * config.successBoost := by
  induction count with
  | zero => simp [repeated, run, entry, DomainTrust.new]
  | succ count ih =>
    rw [run_repeated_succ, entry, lookup_step]
    simp only [if_true, Option.getD_some, applyDecay_zero]
    rw [succeed, (maybePromote_fields _).1, Nat.cast_succ]
    have least := min_le_left ((entry 0 domain (run halving config
      (repeated (.recordSuccess domain) count))).score + config.successBoost) 1
    linarith

variable (halving config) in
/-- Violations with a negative penalty raise the score without end. -/
theorem score_repeated_violation (domain : String) (count : Nat) :
    neutral - count * config.violationPenalty ≤
      (entry 0 domain (run halving config (repeated (.recordViolation domain) count))).score := by
  induction count with
  | zero => simp [repeated, run, entry, DomainTrust.new]
  | succ count ih =>
    rw [run_repeated_succ, entry, lookup_step]
    simp only [if_true, Option.getD_some, applyDecay_zero]
    rw [violate, (maybeDemote_fields _).1, Nat.cast_succ]
    have greatest := le_max_left ((entry 0 domain (run halving config
      (repeated (.recordViolation domain) count))).score - config.violationPenalty) 0
    linarith

/-- Where every score is bounded, so is the score a new entry would have. -/
theorem entry_bounded (bounded : ScoresBounded halving config) (now : Nat) (domain : String)
    (calls : List Call) : Bounded (entry now domain (run halving config calls)) := by
  rw [entry]
  cases held : (run halving config calls).lookup domain with
  | none =>
    rw [Option.getD_none, Bounded, DomainTrust.new, neutral]
    constructor <;> norm_num
  | some trust => exact bounded calls domain trust held

/-- Scores stay between zero and one exactly when neither the boost nor the penalty is
negative. -/
theorem scoresBounded_iff [Archimedean R] (law : Halving halving)
    (ages : 0 < config.decayHalfLifeHours) :
    ScoresBounded halving config ↔ 0 ≤ config.successBoost ∧ 0 ≤ config.violationPenalty := by
  constructor
  · intro bounded
    constructor
    · by_contra lowers
      obtain ⟨count, many⟩ := exists_nat_gt (neutral / -config.successBoost)
      rw [div_lt_iff₀ (by linarith)] at many
      have fallen := score_repeated_success halving config "" count
      have low := (entry_bounded bounded 0 "" (repeated (.recordSuccess "") count)).1
      linarith
    · by_contra raises
      obtain ⟨count, many⟩ := exists_nat_gt (neutral / -config.violationPenalty)
      rw [div_lt_iff₀ (by linarith)] at many
      have risen := score_repeated_violation halving config "" count
      have high := (entry_bounded bounded 0 "" (repeated (.recordViolation "") count)).2
      have half : (neutral : R) + neutral = 1 := add_halves 1
      linarith
  · rintro ⟨raises, lowers⟩ calls domain trust held
    apply lookup_run (fun _ trust => Bounded trust) _ _ _ _ calls held
    · intro now domain
      rw [Bounded, DomainTrust.new, neutral]
      constructor <;> norm_num
    · intro now domain trust bounded
      exact applyDecay_bounded law ages now bounded
    · intro now domain trust bounded
      exact succeed_bounded raises now bounded
    · intro now domain trust bounded
      exact violate_bounded lowers now bounded

end Law

end Asterel.DomainTrustTracker
