import Asterel.Contracts.Network
import Asterel.Library.Outcome
import Asterel.Security.Normalize

/-!
# Fetch URLs

A URL is accepted when its scheme, its user part and its host pass, and when every
address its host resolves to is public. The addresses are resolved again for the
fetch, with the same check, and the fetch is pinned to them.

The parser of URLs and the resolver are parameters. A parsed URL is what the code
reads of it: an IPv6 host stands in brackets. The resolver takes the text of a host
and a port, and takes a text that writes a socket address for this address.
-/

namespace Asterel.UrlValidation

open Library.Ip Asterel.Network List
open Asterel.ExternalContent (u32FromStrRadix stripPrefix)

/-- What is read of a parsed URL. -/
structure Url where
  scheme : List Char
  username : List Char
  password : Option (List Char)
  hostStr : Option (List Char)
  portOrKnownDefault : Option UInt16
deriving DecidableEq

inductive FetchError where
  | invalidUrl
  | requiresHttps
  | requiresHttpOrHttps
  | userinfoNotAllowed
  | hasNoHost
  | privateHost (host : List Char)
  | numericHost (host : List Char) (ip : IpAddr)
  | hexHost (host : List Char) (ip : IpAddr)
  | lookupFailed (host : List Char)
  | noAddresses (host : List Char)
  | privateAddress (host : List Char) (ip : IpAddr)
deriving DecidableEq

/-- A parser of URLs; `none` is an error. -/
abbrev UrlParser := List Char → Option Url

/-- A resolver of hosts with ports; `none` is an error. -/
abbrev Resolver := List Char → Option (List SocketAddr)

def hostAndPort (host : List Char) (port : UInt16) : List Char :=
  host ++ ':' :: Nat.toDigits 10 port.toNat

/-- The port of a fetch. -/
def Url.port (url : Url) : UInt16 := url.portOrKnownDefault.getD 443

/-- The addresses of a host before they are checked. -/
def hostAddrs (lookupHost : Resolver) (host : List Char) (port : UInt16) :
    Except FetchError (List SocketAddr) :=
  match IpAddr.parse host with
  | some ip => .ok [⟨ip, port⟩]
  | none =>
    match lookupHost (hostAndPort host port) with
    | none => .error (.lookupFailed host)
    | some addrs => .ok addrs

def resolvePublicFetchAddrs (lookupHost : Resolver) (parsed : Url) :
    Except FetchError (List SocketAddr) :=
  match parsed.hostStr with
  | none => .error .hasNoHost
  | some host => do
    let addrs ← hostAddrs lookupHost host parsed.port
    if addrs.isEmpty then .error (.noAddresses host)
    else
      match addrs.find? fun addr => isPrivateIp addr.ip with
      | some addr => .error (.privateAddress host addr.ip)
      | none => .ok addrs

/-- A host of the characters that numbers are written with. -/
def looksNumeric (host : List Char) : Bool :=
  host.all fun char => char.isDigit || char = '.' || char = 'x' || char = 'X'

/-- The private address a number writes. -/
def privateNumber (numeric : Option Nat) : Option IpAddr :=
  (numeric.map fun number => IpAddr.v4 (.ofUInt32 (UInt32.ofNat number))).filter isPrivateIp

def hexDigits (host : List Char) : Option (List Char) :=
  (stripPrefix "0x".toList host).orElse fun _ => stripPrefix "0X".toList host

/-- The check of hosts that write a private address as one number. -/
def checkNumericHost (host : List Char) : Except FetchError Unit :=
  if looksNumeric host then
    match privateNumber (u32FromStrRadix 10 host) with
    | some ip => .error (.numericHost host ip)
    | none =>
      match privateNumber ((hexDigits host).bind (u32FromStrRadix 16)) with
      | some ip => .error (.hexHost host ip)
      | none => .ok ()
  else .ok ()

def validateNoSsrf (parseUrl : UrlParser) (lookupHost : Resolver) (urlStr : List Char) :
    Except FetchError Unit :=
  match parseUrl urlStr with
  | none => .error .invalidUrl
  | some parsed =>
    match parsed.hostStr with
    | none => .error .hasNoHost
    | some host =>
      if isPrivateHost host then .error (.privateHost host)
      else do
        checkNumericHost host
        let _ ← resolvePublicFetchAddrs lookupHost parsed
        return ()

def checkScheme (scheme : List Char) (requireHttps : Bool) : Except FetchError Unit :=
  if scheme = "https".toList then .ok ()
  else if scheme = "http".toList ∧ !requireHttps then .ok ()
  else if requireHttps then .error .requiresHttps
  else .error .requiresHttpOrHttps

def validateFetchUrl (parseUrl : UrlParser) (lookupHost : Resolver) (urlStr : List Char)
    (requireHttps : Bool) : Except FetchError Url :=
  match parseUrl urlStr with
  | none => .error .invalidUrl
  | some parsed => do
    checkScheme parsed.scheme requireHttps
    if parsed.username ≠ [] ∨ parsed.password.isSome then .error .userinfoNotAllowed
    else if parsed.hostStr.isNone then .error .hasNoHost
    else
      validateNoSsrf parseUrl lookupHost urlStr
      return parsed

/-- A host that writes an address: by itself, or an IPv6 address in brackets. -/
inductive WritesAddress (host : List Char) (ip : IpAddr) : Prop where
  | plain (parsed : IpAddr.parse host = some ip)
  | bracketed {text address} (same : host = '[' :: text ++ [']'])
      (parsed : IpAddr.parse text = some (.v6 address)) (isIp : ip = .v6 address)

/-- The resolver takes the text of a socket address for this address. -/
def TakesLiterals (lookupHost : Resolver) : Prop :=
  ∀ text address, SocketAddr.parse text = some address → lookupHost text = some [address]

section Resolving

variable {parseUrl : UrlParser} {lookupHost : Resolver} {url : Url}

/-- What the resolution of a host gives. -/
theorem resolvePublicFetchAddrs_eq_ok_iff {addrs : List SocketAddr} :
    resolvePublicFetchAddrs lookupHost url = .ok addrs ↔
      ∃ host, url.hostStr = some host ∧ hostAddrs lookupHost host url.port = .ok addrs ∧
        addrs ≠ [] ∧ ∀ addr ∈ addrs, isPrivateIp addr.ip = false := by
  rw [resolvePublicFetchAddrs]
  cases hostIs : url.hostStr with
  | none => simp
  | some host =>
    simp only [Library.bind_eq_ok, Option.some.injEq, exists_eq_left']
    constructor
    · rintro ⟨answers, found, checked⟩
      split_ifs at checked with nothing
      cases first : answers.find? fun addr => isPrivateIp addr.ip with
      | some addr =>
        rw [first] at checked
        cases checked
      | none =>
        rw [first] at checked
        cases checked
        refine ⟨found, by simpa using nothing, fun addr member => ?_⟩
        simpa using find?_eq_none.mp first addr member
    · rintro ⟨found, something, notPrivate⟩
      have none_ : (addrs.find? fun addr => isPrivateIp addr.ip) = none :=
        find?_eq_none.mpr fun addr member => by simp [notPrivate addr member]
      exact ⟨addrs, found, by rw [if_neg (by simpa using something), none_]⟩

/-- An accepted URL has a host that is not private by itself. -/
theorem accepted_host {urlStr : List Char} {requireHttps : Bool}
    (accepted : validateFetchUrl parseUrl lookupHost urlStr requireHttps = .ok url) :
    ∃ host, url.hostStr = some host ∧ isPrivateHost host = false := by
  rw [validateFetchUrl] at accepted
  cases parsed : parseUrl urlStr with
  | none =>
    rw [parsed] at accepted
    cases accepted
  | some answer =>
    rw [parsed] at accepted
    obtain ⟨-, -, rest⟩ := Library.bind_eq_ok.mp accepted
    split_ifs at rest with user noHost
    obtain ⟨_, valid, same⟩ := Library.bind_eq_ok.mp rest
    cases same
    simp only [validateNoSsrf, parsed] at valid
    cases hostIs : url.hostStr with
    | none =>
      rw [hostIs] at valid
      cases valid
    | some host =>
      rw [hostIs] at valid
      dsimp only at valid
      split_ifs at valid with isPrivate
      exact ⟨host, rfl, Bool.eq_false_iff.mpr isPrivate⟩

theorem parse_open_bracket (rest : List Char) : IpAddr.parse ('[' :: rest) = none := rfl

theorem bareHost_of_parse {host : List Char} {ip : IpAddr} (parsed : IpAddr.parse host = some ip) :
    bareHost host = host := by
  cases host with
  | nil => rfl
  | cons char rest =>
    rw [bareHost, if_neg]
    rintro ⟨rfl, -⟩
    rw [parse_open_bracket] at parsed
    cases parsed

theorem bareHost_bracketed (text : List Char) : bareHost ('[' :: text ++ [']']) = text := by
  rw [cons_append, bareHost, if_pos ⟨rfl, by simp⟩, dropLast_concat]

/-- A host that writes an address is private when the address is. -/
theorem not_private_of_writes {host : List Char} {ip : IpAddr} (writes : WritesAddress host ip)
    (notPrivate : isPrivateHost host = false) : isPrivateIp ip = false := by
  have parsed : IpAddr.parse (bareHost host) = some ip := by
    cases writes with
    | plain parsed => rw [bareHost_of_parse parsed, parsed]
    | bracketed same parsed isIp => rw [same, bareHost_bracketed, parsed, isIp]
  rw [isPrivateHost, parsed] at notPrivate
  split_ifs at notPrivate
  exact notPrivate

theorem hostAddrs_of_writes {host : List Char} {ip : IpAddr} (writes : WritesAddress host ip)
    (literals : TakesLiterals lookupHost) (port : UInt16) :
    hostAddrs lookupHost host port = .ok [⟨ip, port⟩] := by
  cases writes with
  | plain parsed => rw [hostAddrs, parsed]
  | @bracketed text address same parsed isIp =>
    have noAddress : IpAddr.parse host = none := by
      rw [same, cons_append, parse_open_bracket]
    have written := parse_bracketed parsed port
    have looked : lookupHost (hostAndPort host port) = some [⟨ip, port⟩] := by
      rw [hostAndPort, same, isIp]
      apply literals
      rw [← written]
      simp
    rw [hostAddrs, noAddress, looked]

/-- The addresses of an accepted URL are routed, and a host that writes an address
is taken for it. -/
theorem accepted_addresses_routed {urlStr : List Char} {requireHttps : Bool}
    (accepted : validateFetchUrl parseUrl lookupHost urlStr requireHttps = .ok url) :
    (∀ (laterLookup : Resolver) (addrs : List SocketAddr),
      resolvePublicFetchAddrs laterLookup url = .ok addrs →
        ∀ addr ∈ addrs, RoutedUnmapped addr.ip) ∧
    ∀ laterLookup : Resolver, TakesLiterals laterLookup → ∀ host ip, url.hostStr = some host →
      WritesAddress host ip → resolvePublicFetchAddrs laterLookup url = .ok [⟨ip, url.port⟩] := by
  constructor
  · intro laterLookup addrs resolved addr member
    obtain ⟨-, -, -, -, notPrivate⟩ := resolvePublicFetchAddrs_eq_ok_iff.mp resolved
    exact (isPrivateIp_eq_false_iff addr.ip).mp (notPrivate addr member)
  · intro laterLookup literals host ip hostIs writes
    obtain ⟨accepted_, same, notPrivate⟩ := accepted_host accepted
    rw [hostIs] at same
    cases same
    refine resolvePublicFetchAddrs_eq_ok_iff.mpr ⟨host, hostIs,
      hostAddrs_of_writes writes literals url.port, cons_ne_nil _ _, ?_⟩
    intro addr member
    rw [mem_singleton.mp member]
    exact not_private_of_writes writes notPrivate

/-- A parser that knows one URL with its host. -/
def parseOne (urlStr host : String) : UrlParser := fun text =>
  if text = urlStr.toList then some ⟨"https".toList, [], none, some host.toList, some 443⟩ else none

theorem accepted_addresses_routed_literal :
    (∀ (laterLookup : Resolver) (addrs : List SocketAddr), resolvePublicFetchAddrs laterLookup
          ⟨"https".toList, [], none, some "8.8.8.8".toList, some 443⟩ = .ok addrs →
        ∀ addr ∈ addrs, RoutedUnmapped addr.ip) ∧
    ∀ laterLookup : Resolver, TakesLiterals laterLookup → ∀ host ip,
      some "8.8.8.8".toList = some host → WritesAddress host ip →
        resolvePublicFetchAddrs laterLookup
          ⟨"https".toList, [], none, some "8.8.8.8".toList, some 443⟩ = .ok [⟨ip, 443⟩] :=
  @accepted_addresses_routed (parseOne "https://8.8.8.8/path" "8.8.8.8") (fun _ => none)
    ⟨"https".toList, [], none, some "8.8.8.8".toList, some 443⟩ "https://8.8.8.8/path".toList true
    (by decide)

/-- A translated loopback address is accepted and resolved to. -/
theorem translated_loopback_accepted :
    validateFetchUrl (parseOne "https://h/" "h")
        (fun _ => some [⟨.v6 ⟨0x64, 0xff9b, 0, 0, 0, 0, 0x7f00, 1⟩, 443⟩]) "https://h/".toList true =
      .ok ⟨"https".toList, [], none, some "h".toList, some 443⟩ ∧
    resolvePublicFetchAddrs (fun _ => some [⟨.v6 ⟨0x64, 0xff9b, 0, 0, 0, 0, 0x7f00, 1⟩, 443⟩])
        ⟨"https".toList, [], none, some "h".toList, some 443⟩ =
      .ok [⟨.v6 ⟨0x64, 0xff9b, 0, 0, 0, 0, 0x7f00, 1⟩, 443⟩] ∧
    ¬GloballyRouted (.v6 ⟨0x64, 0xff9b, 0, 0, 0, 0, 0x7f00, 1⟩) := by
  refine ⟨by decide, by decide, fun routed => ?_⟩
  have loopback := (isPrivateIpv4_iff ⟨127, 0, 0, 1⟩).mp (by decide)
  have translated : IsTranslated ⟨0x64, 0xff9b, 0, 0, 0, 0, 0x7f00, 1⟩ ⟨127, 0, 0, 1⟩ := by
    rw [IsTranslated]
    decide
  exact routed.2 ⟨127, 0, 0, 1⟩ (Or.inr (Or.inr (Or.inr translated))) loopback

end Resolving

end Asterel.UrlValidation
