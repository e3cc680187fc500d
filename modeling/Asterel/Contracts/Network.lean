import Asterel.Library.IpText

/-!
# Private addresses

An address is private when it lies in one of a few blocks of its family, or when it
is an IPv6 address that maps such an IPv4 address. Other ways to carry an IPv4
address in an IPv6 address are not looked at.
-/

namespace Asterel.Network

open Library.Ip

/-- The rules for IPv4 addresses. The metadata endpoint is link-local already. -/
def isPrivateIpv4 (v4 : Ipv4Addr) : Bool :=
  v4.isLoopback || v4.isPrivate || v4.isLinkLocal || v4.isUnspecified || v4.isBroadcast ||
    v4 = ⟨169, 254, 169, 254⟩

def isPrivateIp : IpAddr → Bool
  | .v4 v4 => isPrivateIpv4 v4
  | .v6 v6 =>
    v6.isLoopback || v6.isUnspecified || v6.segment0 &&& 0xfe00 = 0xfc00 ||
      v6.segment0 &&& 0xffc0 = 0xfe80 || v6.toIpv4Mapped.any isPrivateIpv4

/-- A host without the brackets around it. -/
def bareHost : List Char → List Char
  | [] => []
  | char :: rest =>
    if char = '[' ∧ rest.getLast? = some ']' then rest.dropLast else char :: rest

def isPrivateHost (host : List Char) : Bool :=
  let bare := bareHost host
  if bare = "localhost".toList then true else (IpAddr.parse bare).any isPrivateIp

/-- Loopback, the private blocks, link-local, unspecified and broadcast. -/
def internalBlocks4 : List Block :=
  [⟨127 * 2 ^ 24, 24⟩, ⟨10 * 2 ^ 24, 24⟩, ⟨172 * 2 ^ 24 + 16 * 2 ^ 16, 20⟩,
    ⟨192 * 2 ^ 24 + 168 * 2 ^ 16, 16⟩, ⟨169 * 2 ^ 24 + 254 * 2 ^ 16, 16⟩, ⟨0, 0⟩, ⟨2 ^ 32 - 1, 0⟩]

/-- Loopback, unspecified, unique-local and link-local. -/
def internalBlocks6 : List Block :=
  [⟨1, 0⟩, ⟨0, 0⟩, ⟨126 * 2 ^ 9 * 2 ^ 112, 121⟩, ⟨1018 * 2 ^ 6 * 2 ^ 112, 118⟩]

def InternalV4 (address : Ipv4Addr) : Prop := ∃ block ∈ internalBlocks4, block.Contains address.value

def InternalV6 (address : Ipv6Addr) : Prop := ∃ block ∈ internalBlocks6, block.Contains address.value

/-- Neither internal nor carrying an internal IPv4 address in any of the four ways. -/
def GloballyRouted : IpAddr → Prop
  | .v4 address => ¬InternalV4 address
  | .v6 address => ¬InternalV6 address ∧ ∀ inner, IsMapped address inner ∨
      IsCompatible address inner ∨ IsSixToFour address inner ∨ IsTranslated address inner →
      ¬InternalV4 inner

/-- Neither internal nor mapping an internal IPv4 address. -/
def RoutedUnmapped : IpAddr → Prop
  | .v4 address => ¬InternalV4 address
  | .v6 address => ¬InternalV6 address ∧ ∀ inner, IsMapped address inner → ¬InternalV4 inner

theorem isPrivateIpv4_iff (address : Ipv4Addr) :
    isPrivateIpv4 address = true ↔ InternalV4 address := by
  have metadata : address = ⟨169, 254, 169, 254⟩ → address.isLinkLocal = true := by
    rintro rfl
    rfl
  have blocks : InternalV4 address ↔ address.isLoopback = true ∨ address.isPrivate = true ∨
      address.isLinkLocal = true ∨ address.isUnspecified = true ∨ address.isBroadcast = true := by
    rw [address.isLoopback_iff, address.isPrivate_iff, address.isLinkLocal_iff,
      address.isUnspecified_iff, address.isBroadcast_iff]
    simp only [InternalV4, internalBlocks4, List.mem_cons, List.not_mem_nil, or_false,
      exists_eq_or_imp, exists_eq_left, or_assoc]
  rw [blocks]
  simp only [isPrivateIpv4, Bool.or_eq_true, decide_eq_true_eq]
  tauto

theorem internalV6_iff (address : Ipv6Addr) :
    InternalV6 address ↔ address.isLoopback = true ∨ address.isUnspecified = true ∨
      address.segment0 &&& 0xfe00 = 0xfc00 ∨ address.segment0 &&& 0xffc0 = 0xfe80 := by
  have local_ : address.segment0 &&& 0xfe00 = 0xfc00 ↔
      (Block.mk (126 * 2 ^ 9 * 2 ^ 112) (9 + 112)).Contains address.value :=
    @Ipv6Addr.masked_iff address 9 126 (by decide) (by decide)
  have link : address.segment0 &&& 0xffc0 = 0xfe80 ↔
      (Block.mk (1018 * 2 ^ 6 * 2 ^ 112) (6 + 112)).Contains address.value :=
    @Ipv6Addr.masked_iff address 6 1018 (by decide) (by decide)
  rw [address.isLoopback_iff, address.isUnspecified_iff, local_, link]
  simp only [InternalV6, internalBlocks6, List.mem_cons, List.not_mem_nil, or_false,
    exists_eq_or_imp, exists_eq_left]

/-- What an address that is not private is. -/
theorem isPrivateIp_eq_false_iff (ip : IpAddr) : isPrivateIp ip = false ↔ RoutedUnmapped ip := by
  cases ip with
  | v4 address =>
    rw [isPrivateIp, RoutedUnmapped, ← isPrivateIpv4_iff, Bool.not_eq_true]
  | v6 address =>
    have mapped : address.toIpv4Mapped.any isPrivateIpv4 = true ↔
        ∃ inner, IsMapped address inner ∧ InternalV4 inner := by
      rw [Option.any_eq_true]
      constructor
      · rintro ⟨inner, found, internal⟩
        exact ⟨inner, (address.toIpv4Mapped_eq_some_iff inner).mp found,
          (isPrivateIpv4_iff inner).mp internal⟩
      · rintro ⟨inner, found, internal⟩
        exact ⟨inner, (address.toIpv4Mapped_eq_some_iff inner).mpr found,
          (isPrivateIpv4_iff inner).mpr internal⟩
    rw [RoutedUnmapped, internalV6_iff, ← Bool.not_eq_true]
    simp only [isPrivateIp, Bool.or_eq_true, decide_eq_true_eq, mapped]
    constructor
    · intro plain
      exact ⟨fun internal => plain (by tauto), fun inner isMapped internal =>
        plain (Or.inr ⟨inner, isMapped, internal⟩)⟩
    · rintro ⟨notInternal, notMapped⟩ (front | ⟨inner, isMapped, internal⟩)
      · exact notInternal (by tauto)
      · exact notMapped inner isMapped internal

end Asterel.Network
