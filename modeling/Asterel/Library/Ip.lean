import Mathlib.Algebra.GroupWithZero.Nat
import Mathlib.Data.List.Basic

/-!
# Internet addresses

Addresses of both families, the blocks of addresses that are set aside, and the
ways to carry an IPv4 address in an IPv6 address. The second half reads addresses
from text as the standard library does: every reader takes a front of the text and
leaves the rest, and a reader that fails takes nothing.
-/

namespace Library.Ip

structure Ipv4Addr where
  octet0 : UInt8
  octet1 : UInt8
  octet2 : UInt8
  octet3 : UInt8
deriving DecidableEq

structure Ipv6Addr where
  segment0 : UInt16
  segment1 : UInt16
  segment2 : UInt16
  segment3 : UInt16
  segment4 : UInt16
  segment5 : UInt16
  segment6 : UInt16
  segment7 : UInt16
deriving DecidableEq

inductive IpAddr where
  | v4 (address : Ipv4Addr)
  | v6 (address : Ipv6Addr)
deriving DecidableEq

structure SocketAddr where
  ip : IpAddr
  port : UInt16
deriving DecidableEq

section Values

/-- The number that the octets write. -/
def Ipv4Addr.value (address : Ipv4Addr) : Nat :=
  address.octet0.toNat * 2 ^ 24 + address.octet1.toNat * 2 ^ 16 +
    address.octet2.toNat * 2 ^ 8 + address.octet3.toNat

/-- The number that the segments write. -/
def Ipv6Addr.value (address : Ipv6Addr) : Nat :=
  address.segment0.toNat * 2 ^ 112 + address.segment1.toNat * 2 ^ 96 +
    address.segment2.toNat * 2 ^ 80 + address.segment3.toNat * 2 ^ 64 +
    address.segment4.toNat * 2 ^ 48 + address.segment5.toNat * 2 ^ 32 +
    address.segment6.toNat * 2 ^ 16 + address.segment7.toNat

/-- The addresses that agree with a first one above the host bits. -/
structure Block where
  first : Nat
  hostBits : Nat

def Block.Contains (block : Block) (value : Nat) : Prop :=
  value / 2 ^ block.hostBits = block.first / 2 ^ block.hostBits

/-- An IPv6 address that carries an IPv4 address behind `::ffff`. -/
def IsMapped (address : Ipv6Addr) (inner : Ipv4Addr) : Prop :=
  address.value = 0xffff * 2 ^ 32 + inner.value

/-- Behind zeros only. -/
def IsCompatible (address : Ipv6Addr) (inner : Ipv4Addr) : Prop := address.value = inner.value

/-- In the prefix `2002:aabb:ccdd::/48`. -/
def IsSixToFour (address : Ipv6Addr) (inner : Ipv4Addr) : Prop :=
  address.value / 2 ^ 80 = 0x2002 * 2 ^ 32 + inner.value

/-- Behind the prefix `64:ff9b::/96`. -/
def IsTranslated (address : Ipv6Addr) (inner : Ipv4Addr) : Prop :=
  address.value = 0x64ff9b * 2 ^ 96 + inner.value

end Values

section Classes

namespace Ipv4Addr

variable (address : Ipv4Addr)

def isLoopback : Bool := address.octet0 = 127

def isPrivate : Bool :=
  address.octet0 = 10 || (address.octet0 = 172 && 16 ≤ address.octet1 && address.octet1 ≤ 31) ||
    (address.octet0 = 192 && address.octet1 = 168)

def isLinkLocal : Bool := address.octet0 = 169 && address.octet1 = 254

def isUnspecified : Bool := address = ⟨0, 0, 0, 0⟩

def isBroadcast : Bool := address = ⟨255, 255, 255, 255⟩

/-- `Ipv4Addr::from`. -/
def ofUInt32 (bits : UInt32) : Ipv4Addr where
  octet0 := (bits >>> 24).toUInt8
  octet1 := (bits >>> 16).toUInt8
  octet2 := (bits >>> 8).toUInt8
  octet3 := bits.toUInt8

end Ipv4Addr

namespace Ipv6Addr

variable (address : Ipv6Addr)

def isLoopback : Bool := address = ⟨0, 0, 0, 0, 0, 0, 0, 1⟩

def isUnspecified : Bool := address = ⟨0, 0, 0, 0, 0, 0, 0, 0⟩

/-- The address behind `::ffff`. -/
def toIpv4Mapped : Option Ipv4Addr :=
  if address.segment0 = 0 ∧ address.segment1 = 0 ∧ address.segment2 = 0 ∧
      address.segment3 = 0 ∧ address.segment4 = 0 ∧ address.segment5 = 0xffff then
    some ⟨(address.segment6 >>> 8).toUInt8, address.segment6.toUInt8,
      (address.segment7 >>> 8).toUInt8, address.segment7.toUInt8⟩
  else none

end Ipv6Addr

end Classes

section Blocks

/-- A mask of the high bits drops the low ones. -/
theorem and_mask_eq {value low : Nat} (bound : value < 2 ^ 16) (small : low ≤ 16) :
    value &&& (2 ^ 16 - 2 ^ low) = value / 2 ^ low * 2 ^ low := by
  have mask : 2 ^ 16 - 2 ^ low = (2 ^ (16 - low) - 1) * 2 ^ low := by
    rw [Nat.sub_mul, ← Nat.pow_add]
    simp [small]
  apply Nat.eq_of_testBit_eq
  intro bit
  rw [Nat.testBit_and, mask, Nat.testBit_mul_two_pow, Nat.testBit_mul_two_pow,
    Nat.testBit_two_pow_sub_one, Nat.testBit_div_two_pow]
  by_cases high : low ≤ bit
  · simp only [high, decide_true, Bool.true_and, Nat.sub_add_cancel]
    by_cases inside : bit - low < 16 - low
    · simp [inside]
    · have beyond : value < 2 ^ bit :=
        Nat.lt_of_lt_of_le bound (Nat.pow_le_pow_right (by decide) (by omega))
      simp [Nat.testBit_lt_two_pow beyond]
  · simp [high]

/-- A masked segment has a value exactly when the segment's high bits do. -/
theorem and_mask_eq_iff (segment : UInt16) {low high : Nat} (small : low ≤ 16)
    (fits : high * 2 ^ low < 2 ^ 16) :
    segment &&& UInt16.ofNat (2 ^ 16 - 2 ^ low) = UInt16.ofNat (high * 2 ^ low) ↔
      segment.toNat / 2 ^ low = high := by
  have bound : segment.toNat < 2 ^ 16 := segment.toNat_lt
  have positive : 0 < 2 ^ low := Nat.two_pow_pos low
  have mask : (UInt16.ofNat (2 ^ 16 - 2 ^ low)).toNat = 2 ^ 16 - 2 ^ low := by
    rw [UInt16.toNat_ofNat_of_lt']
    exact Nat.sub_lt (by decide) positive
  have right : (UInt16.ofNat (high * 2 ^ low)).toNat = high * 2 ^ low :=
    UInt16.toNat_ofNat_of_lt' fits
  rw [← UInt16.toNat_inj, UInt16.toNat_and, mask, right, and_mask_eq bound small]
  exact Nat.mul_left_inj (Nat.ne_of_gt positive)

theorem octet_eq_iff (octet : UInt8) {number : Nat} (small : number < 256) :
    octet = UInt8.ofNat number ↔ octet.toNat = number := by
  rw [← UInt8.toNat_inj, UInt8.toNat_ofNat_of_lt' small]

theorem segment_eq_iff (segment : UInt16) {number : Nat} (small : number < 65536) :
    segment = UInt16.ofNat number ↔ segment.toNat = number := by
  rw [← UInt16.toNat_inj, UInt16.toNat_ofNat_of_lt' small]

theorem Block.contains_single {first value : Nat} :
    (Block.mk first 0).Contains value ↔ value = first := by
  simp [Block.Contains]

section Families

namespace Ipv4Addr

variable (address : Ipv4Addr)

theorem value_lt : address.value < 2 ^ 32 := by
  have bound0 := address.octet0.toNat_lt
  have bound1 := address.octet1.toNat_lt
  have bound2 := address.octet2.toNat_lt
  have bound3 := address.octet3.toNat_lt
  rw [value]
  omega

theorem value_injective {address other : Ipv4Addr} (same : address.value = other.value) :
    address = other := by
  cases address with
  | mk octet0 octet1 octet2 octet3 =>
    cases other with
    | mk other0 other1 other2 other3 =>
      have bound1 := octet1.toNat_lt
      have bound2 := octet2.toNat_lt
      have bound3 := octet3.toNat_lt
      have otherBound1 := other1.toNat_lt
      have otherBound2 := other2.toNat_lt
      have otherBound3 := other3.toNat_lt
      simp only [value] at same
      rw [mk.injEq, ← UInt8.toNat_inj, ← UInt8.toNat_inj, ← UInt8.toNat_inj, ← UInt8.toNat_inj]
      omega

theorem isLoopback_iff :
    address.isLoopback = true ↔ (Block.mk (127 * 2 ^ 24) 24).Contains address.value := by
  have bound1 := address.octet1.toNat_lt
  have bound2 := address.octet2.toNat_lt
  have bound3 := address.octet3.toNat_lt
  have same : address.octet0 = 127 ↔ address.octet0.toNat = 127 := octet_eq_iff _ (by decide)
  rw [isLoopback, decide_eq_true_eq, same, Block.Contains, value]
  dsimp only
  omega

theorem isPrivate_iff :
    address.isPrivate = true ↔ (Block.mk (10 * 2 ^ 24) 24).Contains address.value ∨
      (Block.mk (172 * 2 ^ 24 + 16 * 2 ^ 16) 20).Contains address.value ∨
      (Block.mk (192 * 2 ^ 24 + 168 * 2 ^ 16) 16).Contains address.value := by
  have bound1 := address.octet1.toNat_lt
  have bound2 := address.octet2.toNat_lt
  have bound3 := address.octet3.toNat_lt
  have ten : address.octet0 = 10 ↔ address.octet0.toNat = 10 := octet_eq_iff _ (by decide)
  have first172 : address.octet0 = 172 ↔ address.octet0.toNat = 172 := octet_eq_iff _ (by decide)
  have first192 : address.octet0 = 192 ↔ address.octet0.toNat = 192 := octet_eq_iff _ (by decide)
  have second168 : address.octet1 = 168 ↔ address.octet1.toNat = 168 := octet_eq_iff _ (by decide)
  have above : 16 ≤ address.octet1 ↔ 16 ≤ address.octet1.toNat := UInt8.le_iff_toNat_le
  have below : address.octet1 ≤ 31 ↔ address.octet1.toNat ≤ 31 := UInt8.le_iff_toNat_le
  simp only [isPrivate, Bool.or_eq_true, Bool.and_eq_true, decide_eq_true_eq, ten, first172,
    first192, second168, above, below, Block.Contains, value]
  omega

theorem isLinkLocal_iff :
    address.isLinkLocal = true ↔
      (Block.mk (169 * 2 ^ 24 + 254 * 2 ^ 16) 16).Contains address.value := by
  have bound1 := address.octet1.toNat_lt
  have bound2 := address.octet2.toNat_lt
  have bound3 := address.octet3.toNat_lt
  have first : address.octet0 = 169 ↔ address.octet0.toNat = 169 := octet_eq_iff _ (by decide)
  have second : address.octet1 = 254 ↔ address.octet1.toNat = 254 := octet_eq_iff _ (by decide)
  simp only [isLinkLocal, Bool.and_eq_true, decide_eq_true_eq, first, second, Block.Contains, value]
  omega

theorem isUnspecified_iff :
    address.isUnspecified = true ↔ (Block.mk 0 0).Contains address.value := by
  rw [isUnspecified, decide_eq_true_eq, Block.contains_single]
  exact ⟨fun same => same ▸ rfl, fun same => value_injective same⟩

theorem isBroadcast_iff :
    address.isBroadcast = true ↔ (Block.mk (2 ^ 32 - 1) 0).Contains address.value := by
  rw [isBroadcast, decide_eq_true_eq, Block.contains_single]
  exact ⟨fun same => same ▸ rfl, fun same => value_injective same⟩

end Ipv4Addr

namespace Ipv6Addr

variable (address : Ipv6Addr)

theorem value_injective {address other : Ipv6Addr} (same : address.value = other.value) :
    address = other := by
  cases address with
  | mk segment0 segment1 segment2 segment3 segment4 segment5 segment6 segment7 =>
    cases other with
    | mk other0 other1 other2 other3 other4 other5 other6 other7 =>
      have bound1 := segment1.toNat_lt
      have bound2 := segment2.toNat_lt
      have bound3 := segment3.toNat_lt
      have bound4 := segment4.toNat_lt
      have bound5 := segment5.toNat_lt
      have bound6 := segment6.toNat_lt
      have bound7 := segment7.toNat_lt
      have otherBound1 := other1.toNat_lt
      have otherBound2 := other2.toNat_lt
      have otherBound3 := other3.toNat_lt
      have otherBound4 := other4.toNat_lt
      have otherBound5 := other5.toNat_lt
      have otherBound6 := other6.toNat_lt
      have otherBound7 := other7.toNat_lt
      simp only [value] at same
      simp only [mk.injEq, ← UInt16.toNat_inj]
      omega

theorem isLoopback_iff :
    address.isLoopback = true ↔ (Block.mk 1 0).Contains address.value := by
  rw [isLoopback, decide_eq_true_eq, Block.contains_single]
  exact ⟨fun same => same ▸ rfl, fun same => value_injective same⟩

theorem isUnspecified_iff :
    address.isUnspecified = true ↔ (Block.mk 0 0).Contains address.value := by
  rw [isUnspecified, decide_eq_true_eq, Block.contains_single]
  exact ⟨fun same => same ▸ rfl, fun same => value_injective same⟩

/-- What is behind the first segment. -/
theorem value_eq : ∃ rest < 2 ^ 112, address.value = address.segment0.toNat * 2 ^ 112 + rest := by
  have bound1 := address.segment1.toNat_lt
  have bound2 := address.segment2.toNat_lt
  have bound3 := address.segment3.toNat_lt
  have bound4 := address.segment4.toNat_lt
  have bound5 := address.segment5.toNat_lt
  have bound6 := address.segment6.toNat_lt
  have bound7 := address.segment7.toNat_lt
  exact ⟨address.segment1.toNat * 2 ^ 96 + address.segment2.toNat * 2 ^ 80 +
    address.segment3.toNat * 2 ^ 64 + address.segment4.toNat * 2 ^ 48 +
    address.segment5.toNat * 2 ^ 32 + address.segment6.toNat * 2 ^ 16 +
    address.segment7.toNat, by omega, by rw [value]; omega⟩

/-- A mask of the first segment tests a block. -/
theorem masked_iff {low high : Nat} (small : low ≤ 16) (fits : high * 2 ^ low < 2 ^ 16) :
    address.segment0 &&& UInt16.ofNat (2 ^ 16 - 2 ^ low) = UInt16.ofNat (high * 2 ^ low) ↔
      (Block.mk (high * 2 ^ low * 2 ^ 112) (low + 112)).Contains address.value := by
  obtain ⟨rest, small_, same⟩ := address.value_eq
  have quotient : address.value / 2 ^ (low + 112) = address.segment0.toNat / 2 ^ low := by
    have drop : address.value / 2 ^ 112 = address.segment0.toNat := by
      rw [same, Nat.mul_comm, Nat.mul_add_div (by decide), Nat.div_eq_of_lt small_, Nat.add_zero]
    rw [Nat.add_comm, Nat.pow_add, ← Nat.div_div_eq_div_mul, drop]
  have first : high * 2 ^ low * 2 ^ 112 / 2 ^ (low + 112) = high := by
    rw [Nat.mul_assoc, ← Nat.pow_add, Nat.mul_div_cancel _ (Nat.two_pow_pos _)]
  rw [and_mask_eq_iff _ small fits, Block.Contains, quotient, first]

/-- The segments in front of a mapped address. -/
theorem mapped_value_iff (number : Nat) (small : number < 2 ^ 32) :
    address.value = 0xffff * 2 ^ 32 + number ↔
      (address.segment0.toNat = 0 ∧ address.segment1.toNat = 0 ∧ address.segment2.toNat = 0 ∧
        address.segment3.toNat = 0 ∧ address.segment4.toNat = 0 ∧
        address.segment5.toNat = 65535) ∧
      address.segment6.toNat * 2 ^ 16 + address.segment7.toNat = number := by
  have bound1 := address.segment1.toNat_lt
  have bound2 := address.segment2.toNat_lt
  have bound3 := address.segment3.toNat_lt
  have bound4 := address.segment4.toNat_lt
  have bound5 := address.segment5.toNat_lt
  have bound6 := address.segment6.toNat_lt
  have bound7 := address.segment7.toNat_lt
  rw [value]
  omega

/-- The octets of the last two segments. -/
theorem value_lastOctets (segment6 segment7 : UInt16) :
    (Ipv4Addr.mk (segment6 >>> 8).toUInt8 segment6.toUInt8 (segment7 >>> 8).toUInt8
      segment7.toUInt8).value = segment6.toNat * 2 ^ 16 + segment7.toNat := by
  have high (segment : UInt16) : (segment >>> 8).toUInt8.toNat = segment.toNat / 256 := by
    have bound := segment.toNat_lt
    have shifted : (segment >>> 8).toNat = segment.toNat / 256 := by
      rw [UInt16.toNat_shiftRight]
      exact Nat.shiftRight_eq_div_pow _ 8
    rw [UInt16.toNat_toUInt8, shifted]
    omega
  have low (segment : UInt16) : segment.toUInt8.toNat = segment.toNat % 256 :=
    UInt16.toNat_toUInt8 segment
  simp only [Ipv4Addr.value, high, low]
  omega

theorem toIpv4Mapped_eq_some_iff (inner : Ipv4Addr) :
    address.toIpv4Mapped = some inner ↔ IsMapped address inner := by
  have zero (segment : UInt16) : segment = 0 ↔ segment.toNat = 0 := segment_eq_iff _ (by decide)
  have ones : address.segment5 = 0xffff ↔ address.segment5.toNat = 65535 :=
    segment_eq_iff _ (by decide)
  have tail := value_lastOctets address.segment6 address.segment7
  rw [IsMapped, mapped_value_iff address inner.value inner.value_lt, toIpv4Mapped]
  simp only [zero, ones]
  constructor
  · intro found
    split_ifs at found with front
    exact ⟨front, tail.symm.trans (congrArg Ipv4Addr.value (Option.some.inj found))⟩
  · rintro ⟨front, total⟩
    rw [if_pos front]
    exact congrArg some (Ipv4Addr.value_injective (tail.trans total))

end Ipv6Addr

end Families

end Blocks

end Library.Ip
