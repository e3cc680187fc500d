import Mathlib.Data.List.Basic

/-!
# Lower-case hexadecimal text of a byte string

Every byte becomes two digits, high nibble first. The encoding is injective, so
distinct digests stay distinct as text. Decoding takes digits of either case.
-/

namespace Library.Hex

/-- The two digits of one byte. -/
def byteDigits (byte : UInt8) : List Char :=
  [Nat.digitChar (byte.toNat / 16), Nat.digitChar (byte.toNat % 16)]

def encodeChars (bytes : List UInt8) : List Char := bytes.flatMap byteDigits

def encode (bytes : List UInt8) : String := String.ofList (encodeChars bytes)

theorem digitChar_injective {first second : Nat} (firstSmall : first < 16)
    (secondSmall : second < 16) (same : Nat.digitChar first = Nat.digitChar second) :
    first = second := by
  have distinct : ∀ left right : Fin 16,
      Nat.digitChar left.val = Nat.digitChar right.val → left = right := by decide
  exact congrArg Fin.val (distinct ⟨first, firstSmall⟩ ⟨second, secondSmall⟩ same)

theorem byteDigits_injective {first second : UInt8}
    (same : byteDigits first = byteDigits second) : first = second := by
  simp only [byteDigits, List.cons.injEq, and_true] at same
  have firstBound : first.toNat < 256 := first.toNat_lt
  have secondBound : second.toNat < 256 := second.toNat_lt
  have high := digitChar_injective (by omega) (by omega) same.1
  have low := digitChar_injective (by omega) (by omega) same.2
  exact UInt8.toNat_inj.mp (by omega)

theorem encodeChars_injective : Function.Injective encodeChars := by
  intro first
  induction first with
  | nil =>
    rintro (_ | ⟨byte, rest⟩) same
    · rfl
    · simp [encodeChars, byteDigits] at same
  | cons byte rest ih =>
    rintro (_ | ⟨other, others⟩) same
    · simp [encodeChars, byteDigits] at same
    · simp only [encodeChars, List.flatMap_cons] at same
      obtain ⟨heads, tails⟩ := List.append_inj same rfl
      rw [byteDigits_injective heads, ih tails]

theorem encode_injective : Function.Injective encode := fun _ _ same =>
  encodeChars_injective (String.ofList_injective same)

/-- The value of a digit of either case. -/
def digitValue (char : Char) : Option Nat :=
  let code := char.toNat
  if 48 ≤ code ∧ code ≤ 57 then some (code - 48)
  else if 65 ≤ code ∧ code ≤ 70 then some (code - 55)
  else if 97 ≤ code ∧ code ≤ 102 then some (code - 87)
  else none

/-- The bytes that pairs of digits write. -/
def decodeChars : List Char → Option (List UInt8)
  | [] => some []
  | [_] => none
  | high :: low :: rest => do
    let upper ← digitValue high
    let lower ← digitValue low
    let bytes ← decodeChars rest
    return UInt8.ofNat (upper * 16 + lower) :: bytes

theorem digitValue_digitChar {nibble : Nat} (small : nibble < 16) :
    digitValue (Nat.digitChar nibble) = some nibble := by
  have all : ∀ nibble : Fin 16, digitValue (Nat.digitChar nibble.val) = some nibble.val := by decide
  exact all ⟨nibble, small⟩

theorem decodeChars_encodeChars (bytes : List UInt8) :
    decodeChars (encodeChars bytes) = some bytes := by
  induction bytes with
  | nil => rfl
  | cons byte rest ih =>
    have bound : byte.toNat < 256 := byte.toNat_lt
    have whole : UInt8.ofNat (byte.toNat / 16 * 16 + byte.toNat % 16) = byte := by
      rw [Nat.div_add_mod']
      exact UInt8.ofNat_toNat
    have step : decodeChars (encodeChars (byte :: rest)) = (do
          let upper ← digitValue (Nat.digitChar (byte.toNat / 16))
          let lower ← digitValue (Nat.digitChar (byte.toNat % 16))
          let bytes ← decodeChars (encodeChars rest)
          return UInt8.ofNat (upper * 16 + lower) :: bytes) := rfl
    rw [step, digitValue_digitChar (by omega), digitValue_digitChar (by omega), ih]
    exact congrArg (fun head => some (head :: rest)) whole

/-- The digits are neither white space nor anything else below the digit zero. -/
theorem le_of_mem_encodeChars {bytes : List UInt8} {char : Char}
    (member : char ∈ encodeChars bytes) : 48 ≤ char.toNat ∧ char.toNat ≤ 102 := by
  have all : ∀ nibble : Fin 16, 48 ≤ (Nat.digitChar nibble.val).toNat ∧
      (Nat.digitChar nibble.val).toNat ≤ 102 := by decide
  obtain ⟨byte, -, digit⟩ := List.mem_flatMap.mp member
  have bound : byte.toNat < 256 := byte.toNat_lt
  simp only [byteDigits, List.mem_cons, List.not_mem_nil, or_false] at digit
  cases digit with
  | inl high => exact high ▸ all ⟨byte.toNat / 16, by omega⟩
  | inr low => exact low ▸ all ⟨byte.toNat % 16, by omega⟩

end Library.Hex
