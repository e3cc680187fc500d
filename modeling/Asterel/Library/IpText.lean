import Asterel.Library.Ip
import Mathlib.Data.List.TakeWhile

/-!
# Internet addresses as text

The readers of the standard library. A reader takes a front of the text and leaves
the rest; one that fails takes nothing. None of the readers of an address takes a
closing bracket, so an address reads the same in brackets.
-/

namespace Library.Ip

open List Option

/-- A reader of a front of a text. -/
abbrev Reader (α : Type) := List Char → Option (α × List Char)

section Readers

/-- The value of a digit, `char::to_digit`. -/
def digitOf (radix : Nat) (char : Char) : Option Nat :=
  let code := char.toNat
  let digit :=
    if 48 ≤ code ∧ code ≤ 57 then code - 48
    else if 65 ≤ code ∧ code ≤ 90 then code - 55
    else if 97 ≤ code ∧ code ≤ 122 then code - 87
    else radix
  if digit < radix then some digit else none

def isDigitOf (radix : Nat) (char : Char) : Bool := (digitOf radix char).isSome

def digitsValue (radix : Nat) (digits : List Char) : Nat :=
  digits.foldl (fun value digit => radix * value + (digitOf radix digit).getD 0) 0

/-- `read_number`: all digits there are, unless they are too many, begin with a zero
that is not allowed, or exceed the bound. -/
def readNumber (radix : Nat) (maxDigits : Option Nat) (allowZeroPrefix : Bool) (bound : Nat) :
    Reader Nat := fun text =>
  let digits := text.takeWhile (isDigitOf radix)
  if digits = [] ∨ maxDigits.any (fun limit => limit < digits.length) ∨
      (!allowZeroPrefix && digits.head? = some '0' && 1 < digits.length) = true ∨
      bound ≤ digitsValue radix digits then none
  else some (digitsValue radix digits, text.dropWhile (isDigitOf radix))

def readGivenChar (expected : Char) : Reader Unit
  | [] => none
  | char :: rest => if char = expected then some ((), rest) else none

/-- `read_separator`: a separator in front of every part but the first. -/
def readSeparator {α : Type} (separator : Char) (index : Nat) (inner : Reader α) : Reader α :=
  fun text =>
    if 0 < index then (readGivenChar separator text).bind fun taken => inner taken.2
    else inner text

def readOctet (index : Nat) : Reader UInt8 := fun text =>
  (readSeparator '.' index (readNumber 10 (some 3) false 256) text).map fun taken =>
    (UInt8.ofNat taken.1, taken.2)

def readIpv4Addr : Reader Ipv4Addr := fun text => do
  let (octet0, text) ← readOctet 0 text
  let (octet1, text) ← readOctet 1 text
  let (octet2, text) ← readOctet 2 text
  let (octet3, text) ← readOctet 3 text
  return (⟨octet0, octet1, octet2, octet3⟩, text)

/-- The groups read, whether the last two are an IPv4 address, and the rest. -/
structure Groups where
  groups : List UInt16
  endsInIpv4 : Bool
  rest : List Char
deriving DecidableEq

/-- `read_groups`, with the number of groups still to be read. An IPv4 address takes
the place of two groups. -/
def readGroups : Nat → Nat → List Char → Groups
  | 0, _, text => ⟨[], false, text⟩
  | left + 1, index, text =>
    let ipv4 := if 0 < left then readSeparator ':' index readIpv4Addr text else none
    match ipv4 with
    | some (address, rest) =>
      ⟨[UInt16.ofNat (address.octet0.toNat * 256 + address.octet1.toNat),
        UInt16.ofNat (address.octet2.toNat * 256 + address.octet3.toNat)], true, rest⟩
    | none =>
      match readSeparator ':' index (readNumber 16 (some 4) true 65536) text with
      | none => ⟨[], false, text⟩
      | some (group, rest) =>
        let later := readGroups left (index + 1) rest
        { later with groups := UInt16.ofNat group :: later.groups }

/-- The address of eight groups. -/
def ofGroups : List UInt16 → Option Ipv6Addr
  | [segment0, segment1, segment2, segment3, segment4, segment5, segment6, segment7] =>
    some ⟨segment0, segment1, segment2, segment3, segment4, segment5, segment6, segment7⟩
  | _ => none

/-- `read_ipv6_addr`: eight groups, or two runs of groups around a double colon. -/
def readIpv6Addr : Reader Ipv6Addr := fun text =>
  let head := readGroups 8 0 text
  if head.groups.length = 8 then (ofGroups head.groups).map fun address => (address, head.rest)
  else if head.endsInIpv4 then none
  else do
    let ((), rest) ← readGivenChar ':' head.rest
    let ((), rest) ← readGivenChar ':' rest
    let tail := readGroups (8 - (head.groups.length + 1)) 0 rest
    let zeros := replicate (8 - head.groups.length - tail.groups.length) 0
    (ofGroups (head.groups ++ zeros ++ tail.groups)).map fun address => (address, tail.rest)

def readIpAddr : Reader IpAddr := fun text =>
  match readIpv4Addr text with
  | some (address, rest) => some (.v4 address, rest)
  | none => (readIpv6Addr text).map fun taken => (.v6 taken.1, taken.2)

/-- What a reader makes of a whole text. -/
def parseWith {α : Type} (reader : Reader α) (text : List Char) : Option α :=
  ((reader text).filter fun taken => taken.2.isEmpty).map Prod.fst

/-- `IpAddr::from_str`. -/
def IpAddr.parse (text : List Char) : Option IpAddr := parseWith readIpAddr text

def readPort : Reader UInt16 := fun text => do
  let ((), text) ← readGivenChar ':' text
  let (port, text) ← readNumber 10 none true 65536 text
  return (UInt16.ofNat port, text)

/-- `read_scope_id`, which an address may leave out. -/
def readScopeId (text : List Char) : List Char :=
  let scopeId := (readGivenChar '%' text).bind fun taken =>
    readNumber 10 none true (2 ^ 32) taken.2
  (scopeId.map Prod.snd).getD text

def readSocketAddrV4 : Reader SocketAddr := fun text => do
  let (address, text) ← readIpv4Addr text
  let (port, text) ← readPort text
  return (⟨.v4 address, port⟩, text)

def readSocketAddrV6 : Reader SocketAddr := fun text => do
  let ((), text) ← readGivenChar '[' text
  let (address, text) ← readIpv6Addr text
  let ((), text) ← readGivenChar ']' (readScopeId text)
  let (port, text) ← readPort text
  return (⟨.v6 address, port⟩, text)

/-- `SocketAddr::from_str`. -/
def SocketAddr.parse (text : List Char) : Option SocketAddr :=
  parseWith (fun text => (readSocketAddrV4 text).orElse fun _ => readSocketAddrV6 text) text

end Readers

section Brackets

variable {char : Char} {address : Ipv6Addr} {text : List Char} {α β : Type}

/-- A reader takes as much in front of a stop as it takes at the end of a text. -/
def StopsAt {α : Type} (stop : Char) (reader : Reader α) : Prop :=
  ∀ text behind, reader (text ++ stop :: behind) =
    (reader text).map fun taken => (taken.1, taken.2 ++ stop :: behind)

variable {stop : Char}

theorem takeWhile_stop {keep : Char → Bool} (stops : keep stop = false) (text behind : List Char) :
    (text ++ stop :: behind).takeWhile keep = text.takeWhile keep ∧
      (text ++ stop :: behind).dropWhile keep = text.dropWhile keep ++ stop :: behind := by
  induction text with
  | nil => simp [stops]
  | cons char text ih =>
    cases kept : keep char with
    | true => simpa [kept] using ih
    | false => simp [kept]

theorem readNumber_stops {radix : Nat} (maxDigits : Option Nat) (allowZeroPrefix : Bool)
    (bound : Nat) (stops : isDigitOf radix stop = false) :
    StopsAt stop (readNumber radix maxDigits allowZeroPrefix bound) := by
  intro text behind
  obtain ⟨taken, dropped⟩ := takeWhile_stop stops text behind
  simp only [readNumber, taken, dropped]
  split_ifs <;> rfl

theorem readGivenChar_stops {expected : Char} (different : stop ≠ expected) :
    StopsAt stop (readGivenChar expected) := by
  intro text behind
  cases text with
  | nil => simp [readGivenChar, different]
  | cons char text =>
    simp only [cons_append, readGivenChar]
    split_ifs <;> rfl

/-- One reader behind another. -/
theorem StopsAt.bind {reader : Reader α} {next : α → Reader β}
    (first : StopsAt stop reader) (later : ∀ value, StopsAt stop (next value)) :
    StopsAt stop fun text => (reader text).bind fun taken => next taken.1 taken.2 := by
  intro text behind
  dsimp only
  rw [first text behind]
  cases reader text with
  | none => rfl
  | some taken => exact later taken.1 taken.2 behind

theorem StopsAt.map {reader : Reader α} (first : StopsAt stop reader) (change : α → β) :
    StopsAt stop fun text => (reader text).map fun taken => (change taken.1, taken.2) := by
  intro text behind
  dsimp only
  rw [first text behind]
  cases reader text <;> rfl

theorem StopsAt.pure (value : α) : StopsAt stop fun text => some (value, text) :=
  fun _ _ => rfl

theorem readSeparator_stops {separator : Char} (different : stop ≠ separator)
    (index : Nat) {inner : Reader α} (stops : StopsAt stop inner) :
    StopsAt stop (readSeparator separator index inner) := by
  intro text behind
  rw [readSeparator, readSeparator]
  split_ifs
  · exact (readGivenChar_stops different).bind (fun _ => stops) text behind
  · exact stops text behind

theorem readIpv4Addr_stops (notDot : stop ≠ '.') (noDigit : isDigitOf 10 stop = false) :
    StopsAt stop readIpv4Addr := by
  have octet (index : Nat) : StopsAt stop (readOctet index) :=
    (readSeparator_stops notDot index (readNumber_stops _ _ _ noDigit)).map UInt8.ofNat
  exact (octet 0).bind fun octet0 => (octet 1).bind fun octet1 => (octet 2).bind fun octet2 =>
    (octet 3).bind fun octet3 => StopsAt.pure (Ipv4Addr.mk octet0 octet1 octet2 octet3)

/-- A stop that no address has in it. -/
structure Outside (stop : Char) : Prop where
  notDot : stop ≠ '.'
  notColon : stop ≠ ':'
  notDigit : isDigitOf 10 stop = false
  notHexDigit : isDigitOf 16 stop = false

theorem readGroups_stops (outside : Outside stop) (left index : Nat) (text behind : List Char) :
    readGroups left index (text ++ stop :: behind) = { readGroups left index text with
        rest := (readGroups left index text).rest ++ stop :: behind } := by
  induction left generalizing index text with
  | zero => rfl
  | succ left ih =>
    have address : StopsAt stop (readSeparator ':' index readIpv4Addr) :=
      readSeparator_stops outside.notColon index
        (readIpv4Addr_stops outside.notDot outside.notDigit)
    have group : StopsAt stop (readSeparator ':' index (readNumber 16 (some 4) true 65536)) :=
      readSeparator_stops outside.notColon index (readNumber_stops _ _ _ outside.notHexDigit)
    have ipv4 : (if 0 < left then readSeparator ':' index readIpv4Addr (text ++ stop :: behind)
        else none) = (if 0 < left then readSeparator ':' index readIpv4Addr text else none).map
          fun taken => (taken.1, taken.2 ++ stop :: behind) := by
      split_ifs
      · exact address text behind
      · rfl
    rw [readGroups, readGroups]
    dsimp only
    rw [ipv4, group text behind]
    cases (if 0 < left then readSeparator ':' index readIpv4Addr text else none) with
    | some taken => rfl
    | none =>
      cases readSeparator ':' index (readNumber 16 (some 4) true 65536) text with
      | none => rfl
      | some taken =>
        simp only [map_none, map_some]
        rw [ih]

theorem readIpv6Addr_stops (outside : Outside stop) : StopsAt stop readIpv6Addr := by
  intro text behind
  have colon := readGivenChar_stops outside.notColon
  rw [readIpv6Addr, readIpv6Addr, readGroups_stops outside]
  dsimp only
  split_ifs with whole ipv4
  · cases ofGroups (readGroups 8 0 text).groups <;> rfl
  · rfl
  · have second : StopsAt stop fun rest =>
        let tail := readGroups (8 - ((readGroups 8 0 text).groups.length + 1)) 0 rest
        let zeros := replicate (8 - (readGroups 8 0 text).groups.length - tail.groups.length) 0
        (ofGroups ((readGroups 8 0 text).groups ++ zeros ++ tail.groups)).map
          fun address => (address, tail.rest) := by
      intro rest behind
      dsimp only
      rw [readGroups_stops outside]
      dsimp only
      cases ofGroups _ <;> rfl
    exact (colon.bind fun _ => colon.bind fun _ => second) _ behind

theorem outside_bracket : Outside ']' := ⟨by decide, by decide, by decide, by decide⟩

/-- An address of the second family is read by its own reader to its end. -/
theorem readIpv6Addr_of_parse
    (parsed : IpAddr.parse text = some (.v6 address)) : readIpv6Addr text = some (address, []) := by
  rw [IpAddr.parse, parseWith, readIpAddr] at parsed
  cases first : readIpv4Addr text with
  | some taken =>
    rw [first] at parsed
    obtain ⟨answer, kept, same⟩ := map_eq_some_iff.mp parsed
    cases (filter_eq_some_iff.mp kept).1
    cases same
  | none =>
    rw [first] at parsed
    obtain ⟨answer, kept, same⟩ := map_eq_some_iff.mp parsed
    obtain ⟨found, ended⟩ := filter_eq_some_iff.mp kept
    obtain ⟨taken, read, rfl⟩ := map_eq_some_iff.mp found
    cases same
    have nothing : taken.2 = [] := List.isEmpty_iff.mp ended
    rw [read, ← nothing]

theorem digitOf_of_isDigit (digit : char.isDigit = true) :
    digitOf 10 char = some (char.toNat - 48) := by
  rw [Char.isDigit, Bool.and_eq_true, decide_eq_true_eq, decide_eq_true_eq] at digit
  have low : 48 ≤ char.toNat := digit.1
  have high : char.toNat ≤ 57 := digit.2
  have decimal : 48 ≤ char.toNat ∧ char.toNat ≤ 57 := ⟨low, high⟩
  simp only [digitOf, decimal, and_self, if_true]
  rw [if_pos (by omega)]

theorem isDigitOf_toDigits {number : Nat}
    (member : char ∈ Nat.toDigits 10 number) : isDigitOf 10 char = true := by
  rw [isDigitOf, digitOf_of_isDigit (Nat.isDigit_of_mem_toDigits (by decide) (by decide) member)]
  rfl

theorem digitsValue_toDigits (number : Nat) :
    digitsValue 10 (Nat.toDigits 10 number) = number := by
  have agree : ∀ (digits : List Char) (value : Nat), (∀ char ∈ digits, char.isDigit = true) →
      digits.foldl (fun value digit => 10 * value + (digitOf 10 digit).getD 0) value =
        Nat.ofDigitChars 10 digits value := by
    intro digits
    induction digits with
    | nil => exact fun _ _ => Nat.ofDigitChars_nil.symm
    | cons digit rest ih =>
      intro value all
      rw [foldl_cons, Nat.ofDigitChars_cons, digitOf_of_isDigit (all digit mem_cons_self),
        getD_some]
      exact ih _ fun char member => all char (mem_cons_of_mem _ member)
  rw [digitsValue, agree _ _ fun char member =>
    Nat.isDigit_of_mem_toDigits (by decide) (by decide) member, Nat.ofDigitChars_ten_toDigits]

theorem readPort_toDigits (port : UInt16) :
    readPort (':' :: Nat.toDigits 10 port.toNat) = some (port, []) := by
  have all : ∀ char ∈ Nat.toDigits 10 port.toNat, isDigitOf 10 char = true :=
    fun _ member => isDigitOf_toDigits member
  have number : readNumber 10 none true 65536 (Nat.toDigits 10 port.toNat) =
      some (port.toNat, []) := by
    have bound : port.toNat < 65536 := port.toNat_lt
    simp only [readNumber, takeWhile_eq_self_iff.mpr all, dropWhile_eq_nil_iff.mpr all,
      digitsValue_toDigits]
    rw [if_neg]
    simp [Nat.toDigits_ne_nil, bound]
  rw [readPort]
  simp [readGivenChar, number]

/-- A bracketed address with a port is read as the address and the port. -/
theorem parse_bracketed (parsed : IpAddr.parse text = some (.v6 address)) (port : UInt16) :
    SocketAddr.parse ('[' :: text ++ ']' :: ':' :: Nat.toDigits 10 port.toNat) =
      some ⟨.v6 address, port⟩ := by
  have inner := readIpv6Addr_stops outside_bracket text (':' :: Nat.toDigits 10 port.toNat)
  rw [readIpv6Addr_of_parse parsed, map_some, nil_append] at inner
  have noAddress : readSocketAddrV4
      ('[' :: text ++ ']' :: ':' :: Nat.toDigits 10 port.toNat) = none := by
    rfl
  have bracketed : readSocketAddrV6 ('[' :: text ++ ']' :: ':' :: Nat.toDigits 10 port.toNat) =
      some (⟨.v6 address, port⟩, []) := by
    rw [readSocketAddrV6]
    simp [readGivenChar, inner, readScopeId, readPort_toDigits]
  rw [SocketAddr.parse, parseWith, noAddress, orElse_none, bracketed]
  rfl

end Brackets

end Library.Ip
