import Asterel.Library.Hex
import Asterel.Library.Text
import Asterel.Library.Utf8

/-!
# The secret store

A secret is stored as `enc2:` with the hexadecimal digits of a nonce and the
ciphertext behind it, or as it is when encryption is disabled. What is stored is read
by its first characters, whatever the setting: a text that begins with `enc2:` is
decrypted, one with `enc3:` refused, any other taken as it is. The profile layer
leaves a text with either beginning alone, so a secret that looks stored already is
not encrypted.

The cipher is a parameter. The key file is the state that the calls hand on; fresh
keys and nonces are drawn outside.
-/

namespace Asterel.Secrets

open Library Library.Text List Hex

abbrev Bytes := List UInt8

/-- The text of the key file, if it exists. -/
abbrev KeyFile := Option (List Char)

inductive SecretError where
  | corruptKeyFile
  | createFailed
  | keyLength
  | encryptionFailed
  | corruptHex
  | tooShort
  | decryptionFailed
  | notUtf8
  | passwordRequired
deriving DecidableEq

/-- An authenticated cipher over keys and nonces. -/
structure Cipher where
  encrypt : Bytes → Bytes → Bytes → Option Bytes
  decrypt : Bytes → Bytes → Bytes → Option Bytes

/-- The cipher encrypts, decrypts what it encrypted, and its ciphertexts are no
shorter than what they decrypt to. -/
structure Cipher.Sound (cipher : Cipher) : Prop where
  decrypts : ∀ key nonce plaintext, ∃ ciphertext,
    cipher.encrypt key nonce plaintext = some ciphertext ∧
      cipher.decrypt key nonce ciphertext = some plaintext
  shortens : ∀ key nonce ciphertext plaintext,
    cipher.decrypt key nonce ciphertext = some plaintext → plaintext.length ≤ ciphertext.length

def keyLen : Nat := 32

def nonceLen : Nat := 12

structure SecretStore where
  enabled : Bool
deriving DecidableEq

def enc2Prefix : List Char := "enc2:".toList

def enc3Prefix : List Char := "enc3:".toList

def isEncrypted (value : List Char) : Bool :=
  enc2Prefix.isPrefixOf value || enc3Prefix.isPrefixOf value

/-- The key that the text of a key file writes. -/
def readKey (hexKey : List Char) : Except SecretError Bytes :=
  match decodeChars (trim hexKey) with
  | none => .error .corruptKeyFile
  | some key => .ok key

/-- `load_or_create_key` of a call that nothing comes between. -/
def loadOrCreateKey (fresh : Bytes) (keyFile : KeyFile) : Except SecretError Bytes × KeyFile :=
  match keyFile with
  | some hexKey => (readKey hexKey, some hexKey)
  | none => (.ok fresh, some (encodeChars fresh))

/-- The stored form under a key. -/
def sealWith (cipher : Cipher) (key nonce plaintext : Bytes) : Except SecretError (List Char) :=
  if key.length ≠ keyLen then .error .keyLength
  else
    match cipher.encrypt key nonce plaintext with
    | none => .error .encryptionFailed
    | some ciphertext => .ok (enc2Prefix ++ encodeChars (nonce ++ ciphertext))

def openWith (cipher : Cipher) (key nonce ciphertext : Bytes) : Except SecretError (List Char) :=
  if key.length ≠ keyLen then .error .keyLength
  else
    match cipher.decrypt key nonce ciphertext with
    | none => .error .decryptionFailed
    | some plaintext =>
      match Utf8.decode plaintext with
      | none => .error .notUtf8
      | some text => .ok text

section Store

variable (store : SecretStore) (cipher : Cipher)

/-- `encrypt`, with a fresh key for a missing key file and a fresh nonce. -/
def encrypt (fresh nonce : Bytes) (keyFile : KeyFile) (plaintext : Bytes) :
    Except SecretError (List Char) × KeyFile :=
  if plaintext = [] then (.ok [], keyFile)
  else if !store.enabled then (.ok (Utf8.decodeLossy plaintext), keyFile)
  else
    let (loaded, keyFile) := loadOrCreateKey fresh keyFile
    (loaded.bind fun key => sealWith cipher key nonce plaintext, keyFile)

def decryptChacha20 (fresh : Bytes) (keyFile : KeyFile) (hexStr : List Char) :
    Except SecretError (List Char) × KeyFile :=
  match decodeChars hexStr with
  | none => (.error .corruptHex, keyFile)
  | some blob =>
    if blob.length ≤ nonceLen then (.error .tooShort, keyFile)
    else
      let (loaded, keyFile) := loadOrCreateKey fresh keyFile
      (loaded.bind fun key => openWith cipher key (blob.take nonceLen) (blob.drop nonceLen), keyFile)

def decrypt (fresh : Bytes) (keyFile : KeyFile) (value : List Char) :
    Except SecretError (List Char) × KeyFile :=
  match enc2Prefix.isPrefixOf? value with
  | some hexStr => decryptChacha20 cipher fresh keyFile hexStr
  | none =>
    if enc3Prefix.isPrefixOf value then (.error .passwordRequired, keyFile)
    else (.ok value, keyFile)

/-- The new value of an optional secret, or an error that leaves it. -/
def encryptOptSecret (fresh nonce : Bytes) (keyFile : KeyFile) :
    Option (List Char) → Except SecretError (Option (List Char)) × KeyFile
  | none => (.ok none, keyFile)
  | some current =>
    let trimmed := trim current
    if trimmed = [] ∨ isEncrypted trimmed then (.ok (some trimmed), keyFile)
    else
      let (result, keyFile) := encrypt store cipher fresh nonce keyFile (Utf8.encode trimmed)
      (result.map some, keyFile)

/-- The new value of an optional secret with whether it must be stored again. -/
def decryptOptSecret (fresh : Bytes) (keyFile : KeyFile) (encryptEnabled : Bool) :
    Option (List Char) → Except SecretError (Option (List Char) × Bool) × KeyFile
  | none => (.ok (none, false), keyFile)
  | some current =>
    let trimmed := trim current
    if trimmed = [] then (.ok (some current, false), keyFile)
    else
      let needsEncryptPersist := encryptEnabled && !isEncrypted trimmed
      let (result, keyFile) := decrypt cipher fresh keyFile trimmed
      (result.map fun decrypted => (some decrypted, needsEncryptPersist), keyFile)

/-- What a profile store writes for a secret: encrypted when encryption is enabled,
as it is otherwise. -/
def writeSecret (fresh nonce : Bytes) (keyFile : KeyFile) (value : Option (List Char)) :
    Except SecretError (Option (List Char)) × KeyFile :=
  if store.enabled then encryptOptSecret store cipher fresh nonce keyFile value
  else (.ok value, keyFile)

end Store

/-- The key file is missing, or it holds a key that every call reads. -/
def Stable (keyFile : KeyFile) : Prop :=
  ∀ hexKey, keyFile = some hexKey → ∃ key, readKey hexKey = .ok key ∧ key.length = keyLen

/-- A stored secret is read back by the store. -/
def StoreReturns (store : SecretStore) (cipher : Cipher) (fresh nonce laterFresh : Bytes)
    (keyFile : KeyFile) (secret : List Char) : Prop :=
  ∃ stored later, encrypt store cipher fresh nonce keyFile (Utf8.encode secret) =
      (.ok stored, later) ∧
    (decrypt cipher laterFresh later stored).1 = .ok secret

/-- A secret of a profile is read back, and with encryption it is stored in another
form that is marked. -/
def ProfileReturns (store : SecretStore) (cipher : Cipher) (fresh nonce laterFresh : Bytes)
    (keyFile : KeyFile) (secret : List Char) : Prop :=
  ∃ stored later, writeSecret store cipher fresh nonce keyFile (some secret) =
      (.ok (some stored), later) ∧
    ((decryptOptSecret cipher laterFresh later store.enabled (some stored)).1.map Prod.fst) =
      .ok (some secret) ∧
    (store.enabled = true → stored ≠ secret ∧ isEncrypted stored = true)

section Forms

theorem white_of_hex {char : Char} (low : 48 ≤ char.toNat) (high : char.toNat ≤ 102) :
    isWhitespace char = false := by
  simp only [isWhitespace, Bool.or_eq_false_iff, Bool.and_eq_false_iff, beq_eq_false_iff_ne,
    decide_eq_false_iff_not]
  omega

/-- A stored form is trimmed. -/
theorem trim_stored (blob : Bytes) :
    trim (enc2Prefix ++ encodeChars blob) = enc2Prefix ++ encodeChars blob := by
  apply trim_eq_self
  intro char member
  cases mem_append.mp member with
  | inl front =>
    have marks : ∀ char ∈ enc2Prefix, isWhitespace char = false := by decide
    exact marks char front
  | inr digit => exact white_of_hex (le_of_mem_encodeChars digit).1 (le_of_mem_encodeChars digit).2

theorem readKey_encodeChars (key : Bytes) : readKey (encodeChars key) = .ok key := by
  have trimmed : trim (encodeChars key) = encodeChars key := trim_eq_self fun char digit =>
    white_of_hex (le_of_mem_encodeChars digit).1 (le_of_mem_encodeChars digit).2
  rw [readKey, trimmed, decodeChars_encodeChars]

theorem stripped_stored (digits : List Char) :
    enc2Prefix.isPrefixOf? (enc2Prefix ++ digits) = some digits := by simp

theorem isEncrypted_stored (digits : List Char) : isEncrypted (enc2Prefix ++ digits) = true := by
  rw [isEncrypted, isPrefixOf_iff_prefix.mpr (prefix_append _ _), Bool.true_or]

/-- A text without a mark is read as it is. -/
theorem decrypt_unmarked {cipher : Cipher} {value : List Char} (unmarked : isEncrypted value = false)
    (fresh : Bytes) (keyFile : KeyFile) :
    decrypt cipher fresh keyFile value = (.ok value, keyFile) := by
  obtain ⟨noEnc2, noEnc3⟩ := Bool.or_eq_false_iff.mp unmarked
  have stripped : enc2Prefix.isPrefixOf? value = none := by
    cases found : enc2Prefix.isPrefixOf? value with
    | none => rfl
    | some rest =>
      have whole := List.append_eq_of_isPrefixOf?_eq_some found
      rw [← whole, isPrefixOf_iff_prefix.mpr (prefix_append _ _)] at noEnc2
      cases noEnc2
  rw [decrypt, stripped]
  dsimp only
  rw [noEnc3, if_neg Bool.false_ne_true]

end Forms

section Keys

theorem encode_ne_nil {secret : List Char} (nonempty : secret ≠ []) : Utf8.encode secret ≠ [] := by
  cases secret with
  | nil => exact absurd rfl nonempty
  | cons char rest =>
    rw [Utf8.encode_cons]
    exact append_ne_nil_of_left_ne_nil String.utf8EncodeChar_ne_nil _

/-- The first call finds or makes a key, which every later call finds. -/
theorem loadOrCreateKey_stable {fresh : Bytes} {keyFile : KeyFile} (stable : Stable keyFile)
    (freshKey : fresh.length = keyLen) :
    ∃ key later, loadOrCreateKey fresh keyFile = (.ok key, later) ∧ key.length = keyLen ∧
      ∀ laterFresh, loadOrCreateKey laterFresh later = (.ok key, later) := by
  cases keyFile with
  | none =>
    refine ⟨fresh, _, rfl, freshKey, fun laterFresh => ?_⟩
    rw [loadOrCreateKey, readKey_encodeChars]
  | some hexKey =>
    obtain ⟨key, read, length⟩ := stable hexKey rfl
    have loaded (fresh : Bytes) : loadOrCreateKey fresh (some hexKey) = (.ok key, some hexKey) := by
      rw [loadOrCreateKey, read]
    exact ⟨key, some hexKey, loaded fresh, length, loaded⟩

/-- What is sealed under a key is opened under it. -/
theorem sealWith_opens {cipher : Cipher} (sound : cipher.Sound) {key nonce : Bytes}
    (length : key.length = keyLen) (fits : nonce.length = nonceLen) {secret : List Char}
    (nonempty : secret ≠ []) :
    ∃ blob, sealWith cipher key nonce (Utf8.encode secret) =
        .ok (enc2Prefix ++ encodeChars blob) ∧ nonceLen < blob.length ∧
      openWith cipher key (blob.take nonceLen) (blob.drop nonceLen) = .ok secret := by
  obtain ⟨ciphertext, encrypted, decrypted⟩ := sound.decrypts key nonce (Utf8.encode secret)
  have something := length_pos_iff.mpr (encode_ne_nil nonempty)
  have longer := sound.shortens key nonce ciphertext _ decrypted
  refine ⟨nonce ++ ciphertext, ?_, ?_, ?_⟩
  · rw [sealWith, if_neg (not_not_intro length), encrypted]
  · rw [length_append]
    omega
  · rw [← fits, take_left, drop_left, openWith, if_neg (not_not_intro length), decrypted]
    dsimp only
    rw [Utf8.decode_encode]

end Keys

section RoundTrips

variable {store : SecretStore} {cipher : Cipher} {fresh nonce : Bytes} {keyFile : KeyFile}
  {secret : List Char}

/-- With encryption every secret is stored in the marked form and read back. -/
theorem encrypt_enabled_returns (sound : cipher.Sound) (stable : Stable keyFile)
    (freshKey : fresh.length = keyLen) (fits : nonce.length = nonceLen)
    (enabled : store.enabled = true) (nonempty : secret ≠ []) (laterFresh : Bytes) :
    ∃ blob later, encrypt store cipher fresh nonce keyFile (Utf8.encode secret) =
        (.ok (enc2Prefix ++ encodeChars blob), later) ∧
      decrypt cipher laterFresh later (enc2Prefix ++ encodeChars blob) = (.ok secret, later) := by
  obtain ⟨key, later, loaded, length, again⟩ := loadOrCreateKey_stable stable freshKey
  obtain ⟨blob, sealed, long, opened⟩ := sealWith_opens sound length fits nonempty
  refine ⟨blob, later, ?_, ?_⟩
  · rw [encrypt, if_neg (encode_ne_nil nonempty), enabled]
    simp only [Bool.not_true, Bool.false_eq_true, if_false, loaded]
    exact Prod.ext sealed rfl
  · rw [decrypt, stripped_stored]
    dsimp only
    rw [decryptChacha20, decodeChars_encodeChars]
    dsimp only
    rw [if_neg (by omega), again]
    exact Prod.ext opened rfl

/-- Without encryption a secret is stored as it is. -/
theorem encrypt_disabled (disabled : store.enabled = false) (nonempty : secret ≠ []) :
    encrypt store cipher fresh nonce keyFile (Utf8.encode secret) = (.ok secret, keyFile) := by
  rw [encrypt, if_neg (encode_ne_nil nonempty), disabled, Utf8.decodeLossy_encode]
  rfl

theorem decryptOptSecret_of_decrypt {stored : List Char} {later : KeyFile} {laterFresh : Bytes}
    {encryptEnabled : Bool} (something : stored ≠ []) (trimmed : trim stored = stored)
    (read : decrypt cipher laterFresh later stored = (.ok secret, later)) :
    (decryptOptSecret cipher laterFresh later encryptEnabled (some stored)).1.map Prod.fst =
      .ok (some secret) := by
  rw [decryptOptSecret, trimmed, if_neg something, read]
  rfl

/-- With encryption the store returns every secret. Without, and in a profile, a
secret is returned unless it looks stored. -/
theorem stored_secrets_return (sound : cipher.Sound) (stable : Stable keyFile)
    (freshKey : fresh.length = keyLen) (fits : nonce.length = nonceLen) (nonempty : secret ≠ [])
    (trimmed : trim secret = secret) (laterFresh : Bytes) :
    (store.enabled = true ∨ isEncrypted secret = false →
      StoreReturns store cipher fresh nonce laterFresh keyFile secret) ∧
    (isEncrypted secret = false →
      ProfileReturns store cipher fresh nonce laterFresh keyFile secret) := by
  cases enabled : store.enabled with
  | true =>
    obtain ⟨blob, later, encrypted, decrypted⟩ :=
      encrypt_enabled_returns sound stable freshKey fits enabled nonempty laterFresh
    refine ⟨fun _ => ⟨_, later, encrypted, congrArg Prod.fst decrypted⟩, fun unmarked => ?_⟩
    have written : writeSecret store cipher fresh nonce keyFile (some secret) =
        (.ok (some (enc2Prefix ++ encodeChars blob)), later) := by
      rw [writeSecret, if_pos enabled, encryptOptSecret, trimmed, if_neg, encrypted]
      · rfl
      · rintro (empty | marked)
        · exact nonempty empty
        · exact absurd (unmarked.symm.trans marked) Bool.noConfusion
    refine ⟨_, later, written, decryptOptSecret_of_decrypt (cons_ne_nil _ _) (trim_stored blob)
      decrypted, fun _ => ⟨?_, isEncrypted_stored _⟩⟩
    intro same
    rw [← same, isEncrypted_stored] at unmarked
    cases unmarked
  | false =>
    have stored := @encrypt_disabled store cipher fresh nonce keyFile secret enabled nonempty
    constructor
    · intro unmarked
      have unmarked := unmarked.resolve_left Bool.false_ne_true
      exact ⟨secret, keyFile, stored, congrArg Prod.fst (decrypt_unmarked unmarked _ _)⟩
    · intro unmarked
      have written : writeSecret store cipher fresh nonce keyFile (some secret) =
          (.ok (some secret), keyFile) := by
        rw [writeSecret, enabled, if_neg Bool.false_ne_true]
      exact ⟨secret, keyFile, written, decryptOptSecret_of_decrypt nonempty trimmed
        (decrypt_unmarked unmarked _ _), fun on => absurd (enabled.symm.trans on) Bool.noConfusion⟩

end RoundTrips

/-- A cipher that puts a tag of sixteen bytes behind the plaintext and asks for it. -/
def tagCipher : Cipher where
  encrypt _ _ plaintext := some (plaintext ++ replicate 16 0)
  decrypt _ _ ciphertext :=
    if replicate 16 0 <:+ ciphertext then some (ciphertext.take (ciphertext.length - 16)) else none

theorem tagCipher_sound : tagCipher.Sound where
  decrypts _ _ plaintext := by
    refine ⟨_, rfl, ?_⟩
    simp [tagCipher]
  shortens _ _ ciphertext plaintext decrypted := by
    simp only [tagCipher] at decrypted
    split_ifs at decrypted
    cases decrypted
    exact length_take_le' _ _

theorem stable_missing : Stable none := by
  intro hexKey found
  cases found

theorem stored_secrets_return_key :
    (true = true ∨ isEncrypted "sk-key".toList = false →
      StoreReturns ⟨true⟩ tagCipher (replicate 32 7) (replicate 12 1) [] none
        "sk-key".toList) ∧
    (isEncrypted "sk-key".toList = false →
      ProfileReturns ⟨true⟩ tagCipher (replicate 32 7) (replicate 12 1) [] none
        "sk-key".toList) :=
  stored_secrets_return tagCipher_sound stable_missing rfl rfl
    (by decide) (by decide) []

/-- Without encryption a secret that looks stored is written as it is and read as a
stored form. -/
theorem stored_lookalike_lost :
    trim "enc2:key".toList = "enc2:key".toList ∧
      ¬StoreReturns ⟨false⟩ tagCipher (replicate 32 7) (replicate 12 1) [] none
        "enc2:key".toList ∧
      ¬ProfileReturns ⟨true⟩ tagCipher (replicate 32 7) (replicate 12 1) [] none
        "enc2:key".toList := by
  refine ⟨by decide, ?_, ?_⟩
  · rintro ⟨stored, later, encrypted, decrypted⟩
    have asIs : (Except.ok "enc2:key".toList, none) = ((.ok stored, later) :
        Except SecretError (List Char) × KeyFile) := by
      rw [← encrypted]
      decide
    cases asIs
    exact absurd decrypted (by decide)
  · rintro ⟨stored, later, written, -, differs⟩
    have asIs : (Except.ok (some "enc2:key".toList), none) = ((.ok (some stored), later) :
        Except SecretError (Option (List Char)) × KeyFile) := by
      rw [← written]
      decide
    cases asIs
    exact (differs rfl).1 rfl

end Asterel.Secrets
