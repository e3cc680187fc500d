import Mathlib.Algebra.Order.Ring.Nat
import Asterel.Library.HashMap
import Asterel.Library.Hex
import Asterel.Library.Text

/-!
# Gateway pairing

A guard hands out bearer tokens for a one-time pairing code and remembers the
hash of each token with the Unix second of its issue. Failed attempts are counted
and lock pairing out for a while. Every function here is what one critical
section of the source does to the data its lock protects; the SHA-256 function,
the random pairing code and the clock readings are arguments.

Instants are nanoseconds, like the source's monotonic clock; issue times are
whole Unix seconds.
-/

namespace Asterel.Pairing

open Library

def maxPairAttempts : Nat := 5
def pairLockoutSecs : Nat := 300
def defaultTokenTtlSecs : Nat := 2592000
def minTokenTtlSecs : Nat := 60
def nanosPerSec : Nat := 1000000000

/-- Issue times by token hash. -/
abbrev Tokens := HashMap String Nat

/-- The failed attempts and when the latest one at or above the limit was
counted. -/
abbrev Attempts := Nat × Option Nat

/-- The state behind the guard's locks. The lifetime never falls below the floor
the constructor applies. -/
structure PairingGuard where
  requirePairing : Bool
  pairingCode : Option String
  pairedTokens : Tokens
  tokenTtlSecs : Nat
  failedAttempts : Attempts
  ttlFloor : minTokenTtlSecs ≤ tokenTtlSecs

/-- One persisted token. -/
structure PersistedPairingToken where
  hash : String
  issuedAt : Nat
deriving DecidableEq

/-- Keep the tokens issued less than the lifetime ago. -/
def retainNonExpiredTokens (tokens : Tokens) (nowUnixSeconds tokenTtlSecs : Nat) : Tokens :=
  tokens.retain fun _ issuedAt => nowUnixSeconds - issuedAt < tokenTtlSecs

/-- A persisted hash that loading accepts: 64 bytes, all hexadecimal digits. -/
def isTokenHash (hash : String) : Bool :=
  hash.utf8ByteSize == 64 && hash.toList.all fun char =>
      ('0' ≤ char && char ≤ '9') || ('a' ≤ char && char ≤ 'f') || ('A' ≤ char && char ≤ 'F')

/-- The tokens of a file, which is absent before the first write. -/
def loadPairingTokens (file : Option (List PersistedPairingToken)) : Tokens :=
  HashMap.collect (((file.getD []).filter fun record => isTokenHash record.hash).map
    fun record => ⟨record.hash, record.issuedAt⟩)

/-- The records written for a token map, in the order of their hashes. -/
def storePairingTokens (tokens : Tokens) : List PersistedPairingToken :=
  (tokens.entries.map fun entry => ⟨entry.1, entry.2⟩).mergeSort fun a b => a.hash ≤ b.hash

/-- A guard over the file's tokens and the configured hashes. -/
def newWithStorage (requirePairing : Bool) (existingTokens : List String)
    (tokenTtlSecs : Option Nat) (file : Option (List PersistedPairingToken)) (now : Nat)
    (generatedCode : String) : PairingGuard :=
  let ttlSecs := max (tokenTtlSecs.getD defaultTokenTtlSecs) minTokenTtlSecs
  let merged := existingTokens.foldl
    (fun tokens hash => if (tokens.lookup hash).isSome then tokens else tokens.insert hash now)
    (loadPairingTokens file)
  let tokens := retainNonExpiredTokens merged now ttlSecs
  { requirePairing := requirePairing
    pairingCode := if requirePairing && tokens.entries.isEmpty then some generatedCode else none
    pairedTokens := tokens
    tokenTtlSecs := ttlSecs
    failedAttempts := (0, none)
    ttlFloor := Nat.le_max_right _ _ }

section Hashing

variable (sha256 : List UInt8 → List UInt8)

def hashToken (token : String) : String := Hex.encode (sha256 token.toUTF8.data.toList)

/-- Whether the fast path leaves the answer to the slow path. -/
def hasExpired (tokens : Tokens) (now tokenTtlSecs : Nat) : Bool :=
  tokens.values.any fun ts => 0 < tokenTtlSecs && tokenTtlSecs < now - ts

/-- Check a bearer token, cleaning up expired tokens when the fast path sees one.
The second component is the token map afterwards. -/
def isAcceptedToken (guard : PairingGuard) (token : String) (now : Nat) : Bool × Tokens :=
  if token = "" then (false, guard.pairedTokens)
  else
    let hashed := hashToken sha256 token
    if hasExpired guard.pairedTokens now guard.tokenTtlSecs then
      let tokens := retainNonExpiredTokens guard.pairedTokens now guard.tokenTtlSecs
      ((tokens.lookup hashed).isSome, tokens)
    else ((guard.pairedTokens.lookup hashed).isSome, guard.pairedTokens)

end Hashing

/-- Byte-wise comparison over the longer input. -/
def constantTimeEq (a b : List UInt8) : Bool :=
  let maxLen := max a.length b.length
  let acc := (List.range maxLen).foldl
    (fun acc i => acc ||| (a.getD i 0 ^^^ b.getD i 0)) (0 : UInt8)
  a.length == b.length && acc == 0

/-- Whether a submitted code matches the expected one. -/
def codeMatches (submitted expected : String) : Bool :=
  let bytes := fun text : String => (String.ofList (Text.trim text.toList)).toUTF8.data.toList
  constantTimeEq (bytes submitted) (bytes expected)

/-- The lockout check: the seconds left, or the attempts to go on with. -/
def checkLockout (attempts : Attempts) (now : Nat) : Except Nat Attempts :=
  match attempts with
  | (count, some lockedAt) =>
    if maxPairAttempts ≤ count then
      let elapsed := (now - lockedAt) / nanosPerSec
      if elapsed < pairLockoutSecs then .error (pairLockoutSecs - elapsed) else .ok (0, none)
    else .ok (count, some lockedAt)
  | (count, none) => .ok (count, none)

/-- Count a failed attempt of a 32-bit counter. -/
def countFailure (attempts : Attempts) (now : Nat) : Attempts :=
  let count := (attempts.1 + 1) % 2 ^ 32
  (count, if maxPairAttempts ≤ count then some now else attempts.2)

/-- A call passes the lockout check with the counted failures, or with none once
the lockout is over. -/
theorem checkLockout_ok {attempts next : Attempts} {now : Nat}
    (passed : checkLockout attempts now = .ok next) :
    next = attempts ∨ (next = (0, none) ∧ maxPairAttempts ≤ attempts.1 ∧
        ∀ lockedAt, attempts.2 = some lockedAt →
          lockedAt + pairLockoutSecs * nanosPerSec ≤ now) := by
  obtain ⟨count, lockedAt | lockedAt⟩ := attempts
  · left
    simpa [checkLockout] using passed.symm
  · simp only [checkLockout] at passed
    split_ifs at passed with limit early
    · right
      refine ⟨by simpa using passed.symm, limit, ?_⟩
      rintro other same
      cases same
      have positive : 0 < nanosPerSec := by decide
      rw [Nat.div_lt_iff_lt_mul positive] at early
      have secure : 0 < pairLockoutSecs * nanosPerSec := by decide
      omega
    · left
      simpa using passed.symm

end Asterel.Pairing
