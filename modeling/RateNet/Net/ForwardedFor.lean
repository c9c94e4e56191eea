/-
Module: RateNet.Net.ForwardedFor
Layer: Net
Purpose: The extractor that keys a request by `X-Forwarded-For`. It trusts a fixed number of proxies, optionally
  only those in given networks; takes the entry that many places from the right across every header line; and
  falls back to the peer address. A request is what the extractor reads of it: the two extensions a peer
  address can stand in, and the header's lines.
Imports: RateNet.Net.Key, Mathlib.Data.List.DropRight
Trusted boundary: std's decoding, whitespace and address parsing are arbitrary functions of the text
Main exports: StdText, parseAddr, inNetwork, network, Prefixes, RequestInfo, ForwardedFor, ForwardedFor.extract
-/
import RateNet.Net.Key
import Mathlib.Data.List.DropRight

namespace RateNet

open AddressBits

/-- What the extractor takes from std. -/
structure StdText where
  fromUtf8 : List Byte → Option (List Char)
  isWhitespace : Char → Bool
  /-- Parsing an address. -/
  parseIp : List Char → Option IpAddr
  /-- Parsing an address with a port: its address. -/
  parseSocket : List Char → Option IpAddr

def StdText.trim (std : StdText) (text : List Char) : List Char :=
  (text.dropWhile std.isWhitespace).rdropWhile std.isWhitespace

/-- The text between a leading and a trailing bracket. -/
def unbracketed (text : List Char) : Option (List Char) :=
  match text with
  | [] => none
  | c :: rest => if c = '[' ∧ rest.getLast? = some ']' then some rest.dropLast else none

/-- An address from an entry: bare, with a port, bracketed, or with a zone. -/
def parseAddr (std : StdText) (text : List Char) : Option IpAddr :=
  match std.parseIp text with
  | some addr => some addr
  | none =>
      match std.parseSocket text with
      | some addr => some addr
      | none =>
          let withoutZone := ((unbracketed text).getD text).takeWhile (· ≠ '%')
          std.parseIp withoutZone

/-- Whether an address is in the network `net / len`. -/
def inNetwork (addr net : IpAddr) (len : ℕ) : Bool :=
  if len = 0 then
    true
  else
    match canonicalIp addr, net with
    | .v4 a, .v4 n => a &&& netmask 32 (min len 32) = n &&& netmask 32 (min len 32)
    | .v6 a, .v6 n => a &&& netmask 128 (min len 128) = n &&& netmask 128 (min len 128)
    | _, _ => false

/-- The network `addr / prefixLen` in canonical form. -/
def network (addr : IpAddr) (prefixLen : ℕ) : IpAddr × ℕ :=
  match addr, canonicalIp addr with
  | .v6 v6, .v4 v4 => if prefixLen ≥ 96 then (.v4 v4, min (prefixLen - 96) 32) else (.v6 v6, min prefixLen 128)
  | .v4 v4, _ => (.v4 v4, min prefixLen 32)
  | .v6 v6, _ => (.v6 v6, min prefixLen 128)

/-- The prefixes a client address is keyed by. -/
structure Prefixes where
  v4 : ℕ
  v6 : ℕ

def Prefixes.default : Prefixes := { v4 := 32, v6 := 64 }

def Prefixes.key (prefixes : Prefixes) (addr : IpAddr) : Key := Key.ipPrefix addr prefixes.v4 prefixes.v6

/-- What an extractor reads of a request. -/
structure RequestInfo where
  /-- The address extension. -/
  ipExtension : Option IpAddr
  /-- The address of the socket address extension. -/
  socketExtension : Option IpAddr
  /-- The `X-Forwarded-For` lines, in order. -/
  forwardedFor : List (List Byte)

namespace RequestInfo

def peerAddr (request : RequestInfo) : Option IpAddr := request.ipExtension.or request.socketExtension

def comma : Byte := 44

/-- Every entry across every line, in order. -/
def hops (request : RequestInfo) : List (List Byte) := request.forwardedFor.flatMap (List.splitOn comma)

end RequestInfo

structure ForwardedFor where
  trustedProxies : ℕ
  prefixes : Prefixes
  /-- The networks the peer must belong to for the header to be believed; none for every peer. -/
  proxies : List (IpAddr × ℕ)

namespace ForwardedFor

/-- The key of one entry of the header. -/
def entryKey (extractor : ForwardedFor) (std : StdText) (entry : List Byte) : Option Key :=
  match std.fromUtf8 entry with
  | none => none
  | some text => (parseAddr std (std.trim text)).map extractor.prefixes.key

/-- The key of the entry as many places from the right as there are trusted proxies. -/
def headerKey (extractor : ForwardedFor) (std : StdText) (request : RequestInfo) : Option Key :=
  match request.hops.reverse[extractor.trustedProxies - 1]? with
  | none => none
  | some entry => extractor.entryKey std entry

/-- Whether a peer is one of the proxies named. -/
def fromProxy (extractor : ForwardedFor) (peer : IpAddr) : Bool :=
  extractor.proxies.any fun (net, len) => inNetwork peer net len

def extract (extractor : ForwardedFor) (std : StdText) (request : RequestInfo) : Option Key :=
  if extractor.trustedProxies = 0 then
    request.peerAddr.map extractor.prefixes.key
  else if extractor.proxies.isEmpty then
    extractor.headerKey std request
  else
    match request.peerAddr with
    | none => none
    | some peer =>
        if extractor.fromProxy peer then
          extractor.headerKey std request
        else
          some (extractor.prefixes.key peer)

end ForwardedFor

end RateNet
