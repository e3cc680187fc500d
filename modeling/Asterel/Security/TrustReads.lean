import Asterel.Security.DomainTrust
import Mathlib

/-!
# Reading trust

A reading writes the decayed score back and makes the instant of the reading the time
of the last update, while the decay it applied covers whole seconds only. What is
left of the last second is lost. So a reading is without effect when no part of a
second is left, or when the score is neutral and nothing decays.

A reading of an unknown domain also enters the domain into the table, where
`all_domains` finds it.
-/

namespace Asterel.DomainTrustTracker

open Library List Option Readings
open Asterel.Policy (AutonomyLevel)

universe u

variable {R : Type u} [Field R] {halving : R → R} {config : TrustConfig R}
variable {made : Call} {trust : DomainTrust R} {before calls : List Call} {now : Nat}
  {domain : String}

/-! ## Calls in the order of their instants -/

/-- The clock does not go back. -/
def Chronological (calls : List Call) : Prop :=
  calls.Pairwise fun earlier later => earlier.now ≤ later.now

/-- A success or a violation of the domain is among the calls. -/
def Recorded (domain : String) (calls : List Call) : Prop :=
  ∃ made ∈ calls, made.request = .recordSuccess domain ∨ made.request = .recordViolation domain

/-- Every domain that was asked about has been recorded. -/
def AllRecorded (calls : List Call) : Prop :=
  ∀ domain, ∀ made ∈ calls, made.request = .getTrust domain → Recorded domain calls

section Calls

variable [LinearOrder R]

variable (halving config) in
/-- A reading finds every entry it touches at rest: neutral, or no part of a second after
its last update. -/
def QuietCall (before : List Call) (made : Call) : Prop :=
  match made.request with
  | .getTrust domain =>
    ∀ trust, (run halving config before).lookup domain = some trust → ReadQuietly made.now trust
  | .allDomains =>
    ∀ domain trust, (run halving config before).lookup domain = some trust →
      ReadQuietly made.now trust
  | .recordSuccess _ | .recordViolation _ => True

variable (halving config) in
/-- Every reading among the calls is quiet. -/
def QuietReads (calls : List Call) : Prop := Readings.EachStep (QuietCall halving config) calls

variable (halving config) in
/-- A call reports the same as it does after all other readings have been removed. -/
def ReportsUnread (before : List Call) (made : Call) : Prop :=
  report halving config before made = report halving config (Readings.unread reads before) made

end Calls

/-! ## What a later call sees -/

variable (halving config) in
/-- An entry as a record at that instant finds it. -/
def stamped (now : Nat) (trust : DomainTrust R) : DomainTrust R :=
  { applyDecay halving config now trust with lastUpdated := now }

theorem stamped_congr {first second : DomainTrust R}
    (score : (applyDecay halving config now first).score =
      (applyDecay halving config now second).score)
    (domain : first.domain = second.domain) (autonomy : first.autonomy = second.autonomy)
    (successes : first.successCount = second.successCount)
    (violations : first.violationCount = second.violationCount) :
    stamped halving config now first = stamped halving config now second := by
  obtain ⟨domain₁, autonomy₁, successes₁, violations₁⟩ :=
    @applyDecay_fields R _ halving config now first
  obtain ⟨domain₂, autonomy₂, successes₂, violations₂⟩ :=
    @applyDecay_fields R _ halving config now second
  apply DomainTrust.ext
  · simp only [stamped, domain₁, domain₂, domain]
  · exact score
  · simp only [stamped, autonomy₁, autonomy₂, autonomy]
  · rfl
  · simp only [stamped, successes₁, successes₂, successes]
  · simp only [stamped, violations₁, violations₂, violations]

/-- A new entry looks the same whenever it was made. -/
theorem stamped_new (now first second : Nat) (domain : String) :
    stamped halving config now (.new first domain) =
      stamped halving config now (.new second domain) := by
  refine stamped_congr ?_ rfl rfl rfl rfl
  rw [applyDecay_neutral rfl, applyDecay_neutral rfl]

variable [LinearOrder R]

/-- A quiet reading of an entry is not seen later. -/
theorem stamped_applyDecay (law : Halving halving) {later : Nat}
    (quiet : ReadQuietly now trust) (next : now ≤ later) :
    stamped halving config later (applyDecay halving config now trust) =
      stamped halving config later trust := by
  obtain ⟨domain, autonomy, successes, violations⟩ :=
    @applyDecay_fields R _ halving config now trust
  exact stamped_congr (score_of_readQuietly law quiet next) domain autonomy successes violations

variable (halving config) in
/-- From an instant on, the two tables look alike to every record. -/
def AlikeFrom (since : Nat) (first second : Domains R) : Prop :=
  ∀ now, since ≤ now → ∀ domain, stamped halving config now (entry now domain first) =
      stamped halving config now (entry now domain second)

/-- A quiet reading leaves a table that looks as before. -/
theorem alikeFrom_reading (law : Halving halving)
    (quiet : QuietCall halving config before made) (reading : reads made = true) :
    AlikeFrom halving config made.now (step halving config (run halving config before) made)
      (run halving config before) := by
  intro later next domain
  rw [entry, lookup_step]
  cases asked : made.request with
  | recordSuccess _ => simp [reads, asked] at reading
  | recordViolation _ => simp [reads, asked] at reading
  | getTrust named =>
    simp only [QuietCall, asked] at quiet
    simp only
    split
    · subst domain
      rw [getD_some, entry, entry]
      cases held : (run halving config before).lookup named with
      | none =>
        rw [getD_none, getD_none, applyDecay_of_elapsed_zero (by simp [
          DomainTrust.new, elapsedSeconds])]
        exact stamped_new later made.now later named
      | some trust => exact stamped_applyDecay law (quiet trust held) next
    · rfl
  | allDomains =>
    simp only [QuietCall, asked] at quiet
    rw [entry]
    cases held : (run halving config before).lookup domain with
    | none => rfl
    | some trust => exact stamped_applyDecay law (quiet domain trust held) next

/-- Records of the same instant keep two tables alike. -/
theorem alikeFrom_writing {first second : Domains R}
    (alike : AlikeFrom halving config made.now first second) (writing : reads made = false) :
    AlikeFrom halving config made.now (step halving config first made)
      (step halving config second made) := by
  intro later next domain
  rw [entry, entry, lookup_step, lookup_step]
  cases asked : made.request with
  | getTrust _ => simp [reads, asked] at writing
  | allDomains => simp [reads, asked] at writing
  | recordSuccess named =>
    simp only
    split
    · have seen := congrArg (succeed config made.now) (alike made.now le_rfl named)
      exact congrArg (stamped halving config later) seen
    · exact alike later next domain
  | recordViolation named =>
    simp only
    split
    · have seen := congrArg (violate config made.now) (alike made.now le_rfl named)
      exact congrArg (stamped halving config later) seen
    · exact alike later next domain

/-- The instants of a chronological run never lie after that of a later call. -/
theorem now_le_of_chronological {after : List Call}
    (ordered : Chronological (before ++ made :: after)) {earlier : Call} (prior : earlier ∈ before) :
    earlier.now ≤ made.now := by
  obtain ⟨_, _, across⟩ := pairwise_append.mp ordered
  exact across earlier prior made mem_cons_self

/-- After quiet readings the table looks to every later call as if there had been none. -/
theorem alikeFrom_unread (law : Halving halving) (ordered : Chronological calls)
    (quiet : QuietReads halving config calls) {since : Nat}
    (earlier : ∀ made ∈ calls, made.now ≤ since) :
    AlikeFrom halving config since (run halving config calls)
      (run halving config (Readings.unread reads calls)) := by
  have met : Readings.EachStep (fun before made => (∀ earlier ∈ before, earlier.now ≤ made.now) ∧
      QuietCall halving config before made) calls := by
    intro before made after split
    refine ⟨?_, quiet before made after split⟩
    intro earlier prior
    rw [split] at ordered
    exact now_le_of_chronological ordered prior
  let related : List Call → Domains R → Domains R → Prop := fun before all rest =>
    ∀ now, (∀ made ∈ before, made.now ≤ now) → AlikeFrom halving config now all rest
  have initial : related [] ∅ ∅ := fun now _ later _ domain => rfl
  apply related_of_eachStep initial _ _ met since earlier
  · rintro before made all rest ⟨prior, still⟩ reading rfl alike now latest later next domain
    have passed : made.now ≤ later := (latest made (by simp)).trans next
    exact (alikeFrom_reading law still reading later passed domain).trans
      (alike made.now prior later passed domain)
  · rintro before made all rest ⟨prior, _⟩ writing alike now latest later next domain
    have passed : made.now ≤ later := (latest made (by simp)).trans next
    exact alikeFrom_writing (alike made.now prior) writing later passed domain

/-! ## Which domains the table holds -/

/-- The table holds what has been recorded or asked about. -/
theorem lookup_run_ne_none_iff (calls : List Call) (domain : String) :
    (run halving config calls).lookup domain ≠ none ↔
      Recorded domain calls ∨ ∃ made ∈ calls, made.request = .getTrust domain := by
  induction calls using reverseRecOn with
  | nil => simp [run, Recorded]
  | append_singleton before made ih =>
    rw [run, run_concat, lookup_step]
    simp only [Recorded, mem_append, mem_singleton, or_and_right, exists_or, exists_eq_left] at ih ⊢
    cases asked : made.request with
    | allDomains =>
      simp only [ne_eq, map_eq_none_iff, reduceCtorEq, or_false]
      exact ih
    | getTrust named =>
      simp only [reduceCtorEq, or_false, Request.getTrust.injEq]
      split
      · simp_all
      · next other =>
        rw [← run, ih, eq_comm (a := named)]
        simp [other]
    | recordSuccess named =>
      simp only [reduceCtorEq, or_false, Request.recordSuccess.injEq]
      split
      · simp_all
      · next other =>
        rw [← run, ih, eq_comm (a := named)]
        simp [other]
    | recordViolation named =>
      simp only [reduceCtorEq, or_false, false_or, Request.recordViolation.injEq]
      split
      · simp_all
      · next other =>
        rw [← run, ih, eq_comm (a := named)]
        simp [other]

theorem recorded_unread :
    Recorded domain (Readings.unread reads calls) ↔ Recorded domain calls := by
  simp only [Recorded, mem_unread]
  constructor
  · rintro ⟨made, ⟨member, _⟩, records⟩
    exact ⟨made, member, records⟩
  · rintro ⟨made, member, records⟩
    refine ⟨made, ⟨member, ?_⟩, records⟩
    rcases records with success | violation
    · simp [reads, success]
    · simp [reads, violation]

/-- Without readings the table holds exactly what has been recorded. -/
theorem lookup_run_unread_ne_none_iff (calls : List Call) (domain : String) :
    (run halving config (Readings.unread reads calls)).lookup domain ≠ none ↔
      Recorded domain calls := by
  rw [lookup_run_ne_none_iff, recorded_unread]
  apply or_iff_left
  rintro ⟨made, member, asked⟩
  obtain ⟨_, writing⟩ := mem_unread.mp member
  simp [reads, asked] at writing

/-! ## Reports -/

omit [Field R] [LinearOrder R] in
/-- Among entries stored under their own names, a search by name is a lookup. -/
theorem find?_domain {entries : List (Σ _ : String, DomainTrust R)}
    (named : ∀ entry ∈ entries, entry.2.domain = entry.1) (domain : String) :
    (entries.map Sigma.snd).find? (fun trust => trust.domain = domain) = entries.dlookup domain := by
  induction entries with
  | nil => rfl
  | cons first rest ih =>
    obtain ⟨key, trust⟩ := first
    have same : trust.domain = key := named ⟨key, trust⟩ mem_cons_self
    rw [map_cons, List.find?_cons]
    by_cases chosen : key = domain
    · subst chosen
      simp [same, dlookup_cons_eq]
    · rw [dlookup_cons_ne _ _ (Ne.symm chosen)]
      simp only [same, chosen, decide_false]
      exact ih fun entry member => named entry (mem_cons_of_mem _ member)

/-- `all_domains` reports every entry of the table as it is after its decay. -/
theorem report_allDomains (before : List Call) (asked : made.request = .allDomains)
    (domain : String) :
    report halving config before made domain =
      ((run halving config before).lookup domain).map fun trust =>
        ((applyDecay halving config made.now trust).score, trust.autonomy) := by
  let next := run halving config (before ++ [made])
  have stepped : next = step halving config (run halving config before) made :=
    run_concat _ _ before made
  have answered : (call halving config (run halving config before) made).1 = .all next.values := by
    rw [stepped]
    simp only [call, asked, step, allDomains]
  have named : ∀ entry ∈ next.entries, entry.2.domain = entry.1 := by
    rintro ⟨key, trust⟩ member
    exact domain_of_lookup_run (before ++ [made]) (AList.mem_lookup_iff.mpr member)
  have found : (next.values.find? fun trust => trust.domain = domain) = next.lookup domain :=
    find?_domain named domain
  rw [report, answered, Answer.reported, found, stepped, lookup_step]
  simp only [asked, Option.map_map]
  cases (run halving config before).lookup domain with
  | none => rfl
  | some trust => simp [(@applyDecay_fields R _ halving config made.now trust).2.1]

/-- `get_trust` reports the entry of the domain it names. -/
theorem report_getTrust (before : List Call) {named : String}
    (asked : made.request = .getTrust named) :
    report halving config before made = (Answer.trust (stamped halving config made.now
        (entry made.now named (run halving config before)))).reported := by
  simp only [report, call, asked, getTrust]
  rfl

omit [LinearOrder R] in
theorem reported_stamped (named : trust.domain = domain) :
    (Answer.trust (stamped halving config now trust)).reported domain =
      some ((applyDecay halving config now trust).score, trust.autonomy) := by
  obtain ⟨same, autonomy, _⟩ := @applyDecay_fields R _ halving config now trust
  simp only [Answer.reported, stamped, same, named, if_true, autonomy]

/-- Tables that look alike give the same report of a domain that both or neither hold. -/
theorem report_eq_of_alike {first second : List Call}
    (alike : AlikeFrom halving config made.now (run halving config first) (run halving config second))
    (held : made.request = .allDomains → ∀ domain, (run halving config first).lookup domain ≠ none ↔
        (run halving config second).lookup domain ≠ none) :
    report halving config first made = report halving config second made := by
  cases asked : made.request with
  | recordSuccess _ => simp only [report, call, asked]
  | recordViolation _ => simp only [report, call, asked]
  | getTrust named =>
    rw [report_getTrust first asked, report_getTrust second asked, alike made.now le_rfl named]
  | allDomains =>
    funext domain
    rw [report_allDomains first asked, report_allDomains second asked]
    have both := held asked domain
    have seen := alike made.now le_rfl domain
    simp only [entry] at seen
    cases left : (run halving config first).lookup domain with
    | none =>
      have right : (run halving config second).lookup domain = none := by
        by_contra present
        exact both.mpr present left
      rw [right]
    | some trust =>
      cases right : (run halving config second).lookup domain with
      | none => simp [left, right] at both
      | some other =>
        rw [left, right, getD_some, getD_some] at seen
        have score := congrArg DomainTrust.score seen
        have autonomy := congrArg DomainTrust.autonomy seen
        simp only [stamped, (@applyDecay_fields R _ halving config made.now _).2.1] at score autonomy
        simp only [map_some, score, autonomy]

/-- After quiet readings a call reports what it would report without them, unless it lists
a domain that has only been asked about. -/
theorem reportsUnread_iff (law : Halving halving)
    (ordered : Chronological before) (latest : ∀ earlier ∈ before, earlier.now ≤ made.now)
    (quiet : QuietReads halving config before) :
    ReportsUnread halving config before made ↔
      (made.request = .allDomains → AllRecorded before) := by
  have held : AllRecorded before ↔ ∀ domain, (run halving config before).lookup domain ≠ none ↔
      (run halving config (Readings.unread reads before)).lookup domain ≠ none := by
    constructor
    · intro all domain
      rw [lookup_run_unread_ne_none_iff, lookup_run_ne_none_iff]
      apply or_iff_left_of_imp
      rintro ⟨made, member, asked⟩
      exact all domain made member asked
    · intro same domain made member asked
      have tracked : (run halving config before).lookup domain ≠ none :=
        (lookup_run_ne_none_iff before domain).mpr (.inr ⟨made, member, asked⟩)
      exact (lookup_run_unread_ne_none_iff before domain).mp ((same domain).mp tracked)
  constructor
  · intro same asked
    rw [held]
    intro domain
    have reported := congrFun same domain
    rw [report_allDomains before asked, report_allDomains _ asked] at reported
    have present := congrArg isSome reported
    rw [isSome_map, isSome_map] at present
    rw [ne_none_iff_isSome, ne_none_iff_isSome, present]
  · intro all
    apply report_eq_of_alike (alikeFrom_unread law ordered quiet latest)
    intro asked
    exact held.mp (all asked)

/-- In a chronological run whose readings are all quiet, every call reports what it
reports with all other readings removed, `all_domains` exactly where every domain that
was asked about had been recorded. A reading changes no later reading of an entry exactly
when it is quiet, and scores stay between zero and one exactly when neither the boost nor
the penalty is negative. -/
theorem reads_leave_no_trace_iff [IsStrictOrderedRing R] [Archimedean R] (law : Halving halving)
    (ages : 0 < config.decayHalfLifeHours) :
    (∀ calls, Chronological calls → QuietReads halving config calls →
      Readings.EachStep (fun before made => ReportsUnread halving config before made ↔
        (made.request = .allDomains → AllRecorded before)) calls) ∧
    (∀ now trust, (∀ later, now ≤ later →
        (applyDecay halving config later (applyDecay halving config now trust)).score =
          (applyDecay halving config later trust).score) ↔ ReadQuietly now trust) ∧
    (ScoresBounded halving config ↔ 0 ≤ config.successBoost ∧ 0 ≤ config.violationPenalty) := by
  refine ⟨?_, score_after_read_iff law ages, scoresBounded_iff law ages⟩
  intro calls ordered quiet before made after split
  rw [split] at ordered quiet
  apply reportsUnread_iff law _ _ quiet.append_left
  · exact (pairwise_append.mp ordered).1
  · intro earlier prior
    exact now_le_of_chronological ordered prior

/-! ## Powers of one half -/

theorem halving_powerOfHalf : Halving powerOfHalf where
  add := Real.rpow_add (by norm_num)
  pos := Real.rpow_pos_of_pos (by norm_num)
  lt_one := by
    intro count positive
    exact Real.rpow_lt_one (by norm_num) (by norm_num) positive

/-- A success, a look half a second later and a look at all domains. -/
def earlyReads : List Call :=
  [⟨0, .recordSuccess "shell"⟩, ⟨500000000, .getTrust "shell"⟩, ⟨700000000, .allDomains⟩]

/-- A success, a look a second and a half later and another one after two seconds. -/
def fractionReads : List Call :=
  [⟨0, .recordSuccess "shell"⟩, ⟨1500000000, .getTrust "shell"⟩, ⟨2000000000, .getTrust "shell"⟩]

/-- A success leaves one entry in a new table. -/
theorem lookup_run_success (now : Nat) (named domain : String) :
    (run halving config [⟨now, .recordSuccess named⟩]).lookup domain =
      if domain = named then some (succeed config now (.new now named)) else none := by
  have still : applyDecay halving config now (.new now named) = .new now named := by
    apply applyDecay_of_elapsed_zero
    simp [DomainTrust.new, elapsedSeconds]
  have table : run halving config [⟨now, .recordSuccess named⟩] =
      step halving config ∅ ⟨now, .recordSuccess named⟩ := rfl
  rw [table, lookup_step]
  simp only [entry, AList.lookup_empty, getD_none, still]

theorem quietReads_earlyReads : QuietReads halving config earlyReads := by
  have atOnce : ∀ {domain : String} {trust : DomainTrust R},
      (run halving config [⟨0, .recordSuccess "shell"⟩]).lookup domain = some trust →
        trust.lastUpdated = 0 := by
    intro domain trust held
    rw [lookup_run_success] at held
    split at held
    · cases held
      exact (maybePromote_fields _).2.2
    · cases held
  have unmoved : ∀ {domain : String} {trust : DomainTrust R},
      (run halving config [⟨0, .recordSuccess "shell"⟩, ⟨500000000, .getTrust "shell"⟩]).lookup
        domain = some trust → trust.lastUpdated = 0 := by
    intro domain trust held
    have last : run halving config
        [⟨0, .recordSuccess "shell"⟩, ⟨500000000, .getTrust "shell"⟩] =
          step halving config (run halving config [⟨0, .recordSuccess "shell"⟩])
            ⟨500000000, .getTrust "shell"⟩ := rfl
    rw [last, lookup_step] at held
    simp only at held
    split at held
    · cases held
      have first : (entry 500000000 "shell"
          (run halving config [⟨0, .recordSuccess "shell"⟩])).lastUpdated = 0 := by
        rw [entry, lookup_run_success, if_pos rfl, getD_some]
        exact (maybePromote_fields _).2.2
      rw [applyDecay_lastUpdated, first, if_pos (by decide)]
    · exact atOnce held
  have one : QuietReads halving config ([] ++ [⟨0, .recordSuccess "shell"⟩]) :=
    eachStep_concat.mpr ⟨eachStep_nil _, trivial⟩
  have two : QuietReads halving config
      ([⟨0, .recordSuccess "shell"⟩] ++ [⟨500000000, .getTrust "shell"⟩]) := by
    refine eachStep_concat.mpr ⟨one, ?_⟩
    intro trust held
    exact .inr (.inl (by rw [atOnce held]; decide))
  refine eachStep_concat.mpr ⟨two, ?_⟩
  intro domain trust held
  exact .inr (.inl (by rw [unmoved held]; decide))

theorem early_reads_leave_no_trace :
    Readings.EachStep (fun before made =>
      ReportsUnread powerOfHalf TrustConfig.default before made ↔
        (made.request = .allDomains → AllRecorded before)) earlyReads ∧
    ScoresBounded powerOfHalf TrustConfig.default := by
  have ages : 0 < (TrustConfig.default : TrustConfig ℝ).decayHalfLifeHours := by
    norm_num [TrustConfig.default]
  obtain ⟨unseen, _, bounded⟩ := reads_leave_no_trace_iff halving_powerOfHalf ages
  refine ⟨unseen earlyReads ?_ quietReads_earlyReads, bounded.mpr ?_⟩
  · norm_num [Chronological, earlyReads]
  · norm_num [TrustConfig.default]

/-- The half second before a reading is lost. -/
theorem half_second_lost :
    Chronological fractionReads ∧
      ¬ Readings.EachStep (ReportsUnread powerOfHalf TrustConfig.default) fractionReads := by
  constructor
  · norm_num [Chronological, fractionReads]
  · intro unseen
    let success : Call := ⟨0, .recordSuccess "shell"⟩
    let look : Call := ⟨1500000000, .getTrust "shell"⟩
    have same := unseen [success, look] ⟨2000000000, .getTrust "shell"⟩ [] rfl
    let trust : DomainTrust ℝ := succeed TrustConfig.default 0 (.new 0 "shell")
    have first : ∀ now, entry now "shell" (run powerOfHalf TrustConfig.default [success]) = trust := by
      intro now
      rw [entry, lookup_run_success, if_pos rfl, getD_some]
    have second : ∀ now, entry now "shell" (run powerOfHalf TrustConfig.default [success, look]) =
        applyDecay powerOfHalf TrustConfig.default 1500000000 trust := by
      intro now
      have last : run powerOfHalf TrustConfig.default [success, look] =
        step powerOfHalf TrustConfig.default (run powerOfHalf TrustConfig.default [success]) look := rfl
      rw [entry, last, lookup_step]
      simp only [look, if_true, getD_some, first]
    have reported := congrFun same "shell"
    have unread : Readings.unread reads [success, look] = [success] := rfl
    rw [unread, report_getTrust _ rfl, report_getTrust _ rfl, first, second] at reported
    have named : trust.domain = "shell" := (maybePromote_fields _).2.1
    rw [reported_stamped named, reported_stamped ((applyDecay_fields _ _).1.trans named)] at reported
    have score := congrArg Prod.fst (Option.some.inj reported)
    have raised : trust.score = 52 / 100 := by
      refine (maybePromote_fields _).1.trans ?_
      norm_num [DomainTrust.new, TrustConfig.default, neutral]
    have recent : trust.lastUpdated = 0 := (maybePromote_fields _).2.2
    have loud : ¬ ReadQuietly 1500000000 trust := by
      norm_num [ReadQuietly, raised, recent, neutral, elapsedSeconds, nanosPerSec]
    refine score_ne_of_not_readQuietly halving_powerOfHalf ?_ loud ?_ score
    · norm_num [TrustConfig.default]
    · rw [recent]
      decide

end Asterel.DomainTrustTracker
