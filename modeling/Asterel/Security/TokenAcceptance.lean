import Asterel.Security.Pairing

/-!
# Which tokens the guard accepts

The slow path accepts exactly the stored tokens younger than the lifetime. The
fast path answers alone while no stored token is older than the lifetime, and
then accepts every stored token. The two disagree on one age only: a token
exactly as old as the lifetime is accepted by the fast path and refused by the
slow path, so its answer depends on whether an unrelated token is older still.
-/

namespace Asterel.Pairing

open Library AList

variable (sha256 : List UInt8 → List UInt8)

/-- The token is stored and younger than the lifetime. -/
def Unexpired (guard : PairingGuard) (token : String) (now : Nat) : Prop :=
  token ≠ "" ∧ ∃ issuedAt, guard.pairedTokens.lookup (hashToken sha256 token) = some issuedAt ∧
    now - issuedAt < guard.tokenTtlSecs

/-- The answer for this token is the specified one. -/
def AcceptanceExact (guard : PairingGuard) (token : String) (now : Nat) : Prop :=
  (isAcceptedToken sha256 guard token now).1 = true ↔ Unexpired sha256 guard token now

/-- Whenever the fast path answers, the slow path would answer the same. -/
def PathsAgree (guard : PairingGuard) (token : String) (now : Nat) : Prop :=
  token ≠ "" → hasExpired guard.pairedTokens now guard.tokenTtlSecs = false →
    (guard.pairedTokens.lookup (hashToken sha256 token)).isSome =
      ((retainNonExpiredTokens guard.pairedTokens now guard.tokenTtlSecs).lookup
        (hashToken sha256 token)).isSome

/-- The answer is the same whatever other tokens are stored. -/
def Independent (guard : PairingGuard) (token : String) (now : Nat) : Prop :=
  ∀ others : Tokens, others.lookup (hashToken sha256 token) =
        guard.pairedTokens.lookup (hashToken sha256 token) →
      (isAcceptedToken sha256 { guard with pairedTokens := others } token now).1 =
        (isAcceptedToken sha256 guard token now).1

/-- The token is stored and exactly as old as the lifetime. -/
def AtLifetime (guard : PairingGuard) (token : String) (now : Nat) : Prop :=
  token ≠ "" ∧ ∃ issuedAt, guard.pairedTokens.lookup (hashToken sha256 token) = some issuedAt ∧
    now - issuedAt = guard.tokenTtlSecs

/-- Some stored token is older than the lifetime. -/
def SomeOlder (guard : PairingGuard) (now : Nat) : Prop :=
  ∃ hash issuedAt, guard.pairedTokens.lookup hash = some issuedAt ∧
    guard.tokenTtlSecs < now - issuedAt

section Paths

variable {sha256} {guard : PairingGuard} {token : String} {now : Nat}

theorem ttl_pos (guard : PairingGuard) : 0 < guard.tokenTtlSecs :=
  Nat.lt_of_lt_of_le (by decide) guard.ttlFloor

/-- The fast path defers exactly when some stored token is older. -/
theorem hasExpired_iff (guard : PairingGuard) (now : Nat) :
    hasExpired guard.pairedTokens now guard.tokenTtlSecs = true ↔ SomeOlder guard now := by
  simp only [hasExpired, HashMap.values, List.any_eq_true, List.mem_map, Bool.and_eq_true,
    decide_eq_true_eq]
  constructor
  · rintro ⟨_, ⟨⟨hash, issuedAt⟩, member, rfl⟩, _, older⟩
    exact ⟨hash, issuedAt, mem_lookup_iff.mpr member, older⟩
  · rintro ⟨hash, issuedAt, found, older⟩
    exact ⟨issuedAt, ⟨⟨hash, issuedAt⟩, mem_lookup_iff.mp found, rfl⟩, ttl_pos guard, older⟩

/-- The slow path keeps exactly the unexpired tokens. -/
theorem retained_iff (guard : PairingGuard) (hash : String) (now : Nat) :
    ((retainNonExpiredTokens guard.pairedTokens now guard.tokenTtlSecs).lookup hash).isSome = true ↔
      ∃ issuedAt, guard.pairedTokens.lookup hash = some issuedAt ∧
        now - issuedAt < guard.tokenTtlSecs := by
  rw [retainNonExpiredTokens, HashMap.lookup_retain, Option.isSome_filter, Option.any_eq_true]
  simp only [decide_eq_true_eq]

/-- With an older token stored, the answer comes from the slow path. -/
theorem accepted_of_older (older : SomeOlder guard now) :
    AcceptanceExact sha256 guard token now := by
  have expired := (hasExpired_iff guard now).mpr older
  rw [AcceptanceExact, Unexpired, isAcceptedToken]
  by_cases empty : token = ""
  · simp [empty]
  · simp only [empty, expired, ↓reduceIte, ne_eq, not_false_eq_true, true_and]
    exact retained_iff guard (hashToken sha256 token) now

/-- Without one, every stored token is accepted. -/
theorem accepted_of_no_older (none : ¬ SomeOlder guard now) :
    (isAcceptedToken sha256 guard token now).1 = true ↔ token ≠ "" ∧ ∃ issuedAt,
        guard.pairedTokens.lookup (hashToken sha256 token) = some issuedAt := by
  have fresh : ¬ hasExpired guard.pairedTokens now guard.tokenTtlSecs = true := fun expired =>
    none ((hasExpired_iff guard now).mp expired)
  rw [isAcceptedToken]
  by_cases empty : token = ""
  · simp [empty]
  · simp only [empty, fresh, Bool.false_eq_true, ↓reduceIte, ne_eq, not_false_eq_true, true_and,
      Option.isSome_iff_exists]

/-- Without an older token, a stored one that is not exactly at the lifetime is
unexpired. -/
theorem unexpired_of_no_older (none : ¬ SomeOlder guard now)
    (inside : ¬ AtLifetime sha256 guard token now) {issuedAt : Nat} (nonempty : token ≠ "")
    (found : guard.pairedTokens.lookup (hashToken sha256 token) = some issuedAt) :
    now - issuedAt < guard.tokenTtlSecs := by
  have young : ¬ guard.tokenTtlSecs < now - issuedAt := fun older =>
    none ⟨_, issuedAt, found, older⟩
  have different : now - issuedAt ≠ guard.tokenTtlSecs := fun same =>
    inside ⟨nonempty, issuedAt, found, same⟩
  omega

/-- Away from the lifetime the answer is the specified one on either path. -/
theorem exact_of_not_atLifetime (inside : ¬ AtLifetime sha256 guard token now) :
    AcceptanceExact sha256 guard token now := by
  by_cases older : SomeOlder guard now
  · exact accepted_of_older older
  · rw [AcceptanceExact, accepted_of_no_older older, Unexpired]
    constructor
    · rintro ⟨nonempty, issuedAt, found⟩
      exact ⟨nonempty, issuedAt, found, unexpired_of_no_older older inside nonempty found⟩
    · rintro ⟨nonempty, issuedAt, found, _⟩
      exact ⟨nonempty, issuedAt, found⟩

/-- At the lifetime the specified answer is refusal. -/
theorem not_unexpired_atLifetime (atLifetime : AtLifetime sha256 guard token now) :
    ¬ Unexpired sha256 guard token now := by
  rintro ⟨_, issuedAt, found, young⟩
  obtain ⟨_, stored, same, age⟩ := atLifetime
  rw [found] at same
  cases same
  omega

/-- Storing only the token itself leaves the fast path to answer at the lifetime. -/
theorem accepted_alone (atLifetime : AtLifetime sha256 guard token now) :
    ∃ others : Tokens, others.lookup (hashToken sha256 token) =
          guard.pairedTokens.lookup (hashToken sha256 token) ∧
        (isAcceptedToken sha256 { guard with pairedTokens := others } token now).1 = true := by
  obtain ⟨nonempty, issuedAt, found, age⟩ := atLifetime
  refine ⟨singleton (hashToken sha256 token) issuedAt, ?_, ?_⟩
  · rw [found, ← insert_empty, lookup_insert]
  · rw [accepted_of_no_older]
    · refine ⟨nonempty, issuedAt, ?_⟩
      rw [← insert_empty, lookup_insert]
    · rintro ⟨hash, other, stored, older⟩
      rw [← insert_empty] at stored
      by_cases same : hash = hashToken sha256 token
      · rw [same, lookup_insert] at stored
        cases stored
        simp only at older
        omega
      · rw [lookup_insert_ne same, lookup_empty] at stored
        cases stored

end Paths

/-- The answer is the specified one unless the token is exactly as old as the
lifetime and no stored token is older. It is moreover the same on both paths and
for all other tokens exactly when the token is not exactly that old. -/
theorem acceptance_exact_iff (guard : PairingGuard) (token : String) (now : Nat) :
    (AcceptanceExact sha256 guard token now ↔
        ¬ (AtLifetime sha256 guard token now ∧ ¬ SomeOlder guard now)) ∧
      ((AcceptanceExact sha256 guard token now ∧ PathsAgree sha256 guard token now ∧
          Independent sha256 guard token now) ↔
        ¬ AtLifetime sha256 guard token now) := by
  refine ⟨⟨?_, ?_⟩, ⟨?_, ?_⟩⟩
  · rintro answered ⟨atLifetime, none⟩
    obtain ⟨nonempty, issuedAt, found, _⟩ := atLifetime
    have accepted := accepted_of_no_older none |>.mpr ⟨nonempty, issuedAt, found⟩
    exact not_unexpired_atLifetime ⟨nonempty, issuedAt, found, ‹_›⟩ (answered.mp accepted)
  · intro covered
    by_cases older : SomeOlder guard now
    · exact accepted_of_older older
    · exact exact_of_not_atLifetime fun atLifetime => covered ⟨atLifetime, older⟩
  · rintro ⟨answered, _, independent⟩ atLifetime
    obtain ⟨others, same, accepted⟩ := accepted_alone atLifetime
    rw [independent others same] at accepted
    exact not_unexpired_atLifetime atLifetime (answered.mp accepted)
  · intro inside
    have answered := exact_of_not_atLifetime inside
    refine ⟨answered, ?_, ?_⟩
    · intro nonempty fresh
      have none : ¬ SomeOlder guard now := fun older => by
        rw [(hasExpired_iff guard now).mpr older] at fresh
        cases fresh
      rw [Bool.eq_iff_iff, retained_iff, Option.isSome_iff_exists]
      constructor
      · rintro ⟨issuedAt, found⟩
        exact ⟨issuedAt, found, unexpired_of_no_older none inside nonempty found⟩
      · rintro ⟨issuedAt, found, _⟩
        exact ⟨issuedAt, found⟩
    · intro others same
      have otherInside : ¬ AtLifetime sha256 { guard with pairedTokens := others } token now := by
        rintro ⟨nonempty, issuedAt, found, age⟩
        exact inside ⟨nonempty, issuedAt, same ▸ found, age⟩
      have otherAnswered := exact_of_not_atLifetime otherInside
      rw [AcceptanceExact, Unexpired] at answered otherAnswered
      rw [Bool.eq_iff_iff, otherAnswered, answered, same]

/-- The SHA-256 digest of `zc_valid`. -/
def validDigest : List UInt8 :=
  [220, 118, 67, 195, 42, 145, 8, 117, 28, 48, 232, 213, 111, 207, 153, 217,
    170, 53, 240, 127, 244, 178, 17, 52, 168, 213, 68, 52, 140, 126, 52, 247]

/-- A guard configured with the hash of `zc_valid` at second 1000. -/
def validGuard : PairingGuard :=
  newWithStorage true [Hex.encode validDigest] (some 60) none 1000 "000000"

/-- A token exactly as old as the lifetime is accepted. -/
theorem accepted_at_lifetime :
    ¬ AcceptanceExact (fun _ => validDigest) validGuard "zc_valid" 1060 := by
  intro answered
  have accepted : (isAcceptedToken (fun _ => validDigest) validGuard "zc_valid" 1060).1 = true := by
    decide
  obtain ⟨_, issuedAt, found, young⟩ := answered.mp accepted
  have stored : validGuard.pairedTokens.lookup (hashToken (fun _ => validDigest) "zc_valid") =
      some 1000 := by decide
  rw [stored] at found
  cases found
  revert young
  decide

end Asterel.Pairing
