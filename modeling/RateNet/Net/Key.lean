/-
Module: RateNet.Net.Key
Layer: Net
Purpose: The identity a limit is tracked against: bytes with a kind, stored inline up to a fixed length and on
  the heap beyond it, compared by kind and bytes. The tagged constructors for ids, addresses and address
  prefixes, and the unwrapping of IPv4 addresses embedded in IPv6 ones.
Imports: RateNet.Lib.AddressBits
Trusted boundary: the two hashers of a digest are arbitrary functions
Main exports: Kind, KeyRef, Key, Key.withKind, Key.fromVec, Key.asKeyRef, IpAddr, embeddedIpv4, canonicalIp,
  Key.id, Key.ip, Key.ipv4Prefix, Key.ipv6Prefix, Key.ipPrefix, Digester, Key.withKind_beq_iff
-/
import RateNet.Lib.AddressBits

namespace RateNet

open AddressBits

/-- Keys up to this many bytes are stored inline. -/
def inlineCap : ℕ := 22

/-- What a key's bytes mean. -/
inductive Kind where
  | raw
  | id
  | ip
  | ipPrefix
  | digest
deriving DecidableEq

/-- How a key is stored. -/
inductive KeyRepr where
  /-- The first `len` bytes of `buf`. -/
  | inline (kind : Kind) (len : ℕ) (buf : List Byte)
  | heap (kind : Kind) (bytes : List Byte)

structure Key where
  repr : KeyRepr

/-- A borrowed key: its kind and its bytes. -/
structure KeyRef where
  kind : Kind
  bytes : List Byte
deriving DecidableEq

/-- An address of either family, as its bits. -/
inductive IpAddr where
  | v4 (bits : BitVec 32)
  | v6 (bits : BitVec 128)
deriving DecidableEq

/-- The IPv4 address in an IPv4-mapped or IPv4-compatible address; the unspecified address and the loopback are
    neither. -/
def embeddedIpv4 (addr : BitVec 128) : Option (BitVec 32) :=
  if addr >>> 32 = 0xffff then
    some (addr.truncate 32)
  else if addr >>> 32 = 0 ∧ addr > 1 then
    some (addr.truncate 32)
  else
    none

/-- The address with any embedded IPv4 address unwrapped. -/
def canonicalIp : IpAddr → IpAddr
  | .v4 addr => .v4 addr
  | .v6 addr =>
      match embeddedIpv4 addr with
      | some v4 => .v4 v4
      | none => .v6 addr

namespace Key

/-- A key of `kind` from its bytes, inline when they fit. -/
def withKind (kind : Kind) (bytes : List Byte) : Key :=
  if bytes.length ≤ inlineCap then
    ⟨.inline kind (min bytes.length 255) (bytes ++ List.replicate (inlineCap - bytes.length) 0)⟩
  else
    ⟨.heap kind bytes⟩

/-- The key of requests with no identity. -/
def anonymous : Key := withKind .digest []

/-- A raw key from owned bytes. -/
def fromVec (bytes : List Byte) : Key :=
  if bytes.length ≤ inlineCap then withKind .raw bytes else ⟨.heap .raw bytes⟩

def asBytes (key : Key) : List Byte :=
  match key.repr with
  | .inline _ len buf => buf.take len
  | .heap _ bytes => bytes

def kind (key : Key) : Kind :=
  match key.repr with
  | .inline kind _ _ => kind
  | .heap kind _ => kind

def asKeyRef (key : Key) : KeyRef := { kind := key.kind, bytes := key.asBytes }

/-- Keys are compared by the view they are looked up by. -/
instance : BEq Key := ⟨fun a b => a.asKeyRef = b.asKeyRef⟩

/-- A tagged key for a numeric id. -/
def id (n : BitVec 64) : Key := withKind .id (beBytes n)

/-- A tagged key for one address. -/
def ip (addr : IpAddr) : Key :=
  match canonicalIp addr with
  | .v4 v4 => withKind .ip (beBytes v4)
  | .v6 v6 => withKind .ip (beBytes v6)

/-- A tagged key for the first `prefixLen` bits of a word, followed by the length itself. -/
def prefixKey {w : ℕ} (addr : BitVec w) (prefixLen : ℕ) : Key :=
  let len := min prefixLen w
  withKind .ipPrefix (beBytes (addr &&& netmask w len) ++ [BitVec.ofNat 8 len])

/-- A tagged key for an IPv4 network. -/
def ipv4Prefix (addr : BitVec 32) (prefixLen : ℕ) : Key := prefixKey addr prefixLen

/-- A tagged key for an IPv6 network, or for the one IPv4 address embedded in the address. -/
def ipv6Prefix (addr : BitVec 128) (prefixLen : ℕ) : Key :=
  match embeddedIpv4 addr with
  | some v4 => ipv4Prefix v4 32
  | none => prefixKey addr prefixLen

/-- A tagged network key for any address. -/
def ipPrefix (addr : IpAddr) (v4PrefixLen v6PrefixLen : ℕ) : Key :=
  match canonicalIp addr with
  | .v4 v4 => ipv4Prefix v4 v4PrefixLen
  | .v6 v6 => ipv6Prefix v6 v6PrefixLen

end Key

/-- The owned key a view stands for. -/
def KeyRef.toKey (key : KeyRef) : Key := .withKind key.kind key.bytes

/-- Two hashers whose outputs together are a key's digest. -/
structure Digester where
  high : KeyRef → BitVec 64
  low : KeyRef → BitVec 64

namespace Digester

def digest (digester : Digester) (key : KeyRef) : List Byte :=
  beBytes (digester.high key) ++ beBytes (digester.low key)

def digestKey (digester : Digester) (key : KeyRef) : Key :=
  KeyRef.toKey { kind := .digest, bytes := digester.digest key }

end Digester

/-!
### Equality
-/

namespace Key

theorem beq_iff {a b : Key} : (a == b) = true ↔ a.kind = b.kind ∧ a.asBytes = b.asBytes := by
  show decide (a.asKeyRef = b.asKeyRef) = true ↔ _
  rw [decide_eq_true_iff, asKeyRef, asKeyRef, KeyRef.mk.injEq]

@[simp] theorem kind_withKind (kind : Kind) (bytes : List Byte) : (withKind kind bytes).kind = kind := by
  unfold withKind
  split <;> rfl

/-- The bytes come back whole, stored inline or not. -/
@[simp] theorem asBytes_withKind (kind : Kind) (bytes : List Byte) : (withKind kind bytes).asBytes = bytes := by
  unfold withKind
  split
  · rename_i short
    have small : min bytes.length 255 = bytes.length := by
      have cap : inlineCap ≤ 255 := by decide
      omega
    show (bytes ++ _).take (min bytes.length 255) = bytes
    rw [small, List.take_left]
  · rfl

theorem withKind_beq_iff {kind kind' : Kind} {bytes bytes' : List Byte} :
    (withKind kind bytes == withKind kind' bytes') = true ↔ kind = kind' ∧ bytes = bytes' := by
  rw [beq_iff, kind_withKind, kind_withKind, asBytes_withKind, asBytes_withKind]

/-- Owned bytes make the same key as borrowed ones. -/
theorem fromVec_eq (bytes : List Byte) : fromVec bytes = withKind .raw bytes := by
  unfold fromVec
  split
  · rfl
  · rename_i long
    rw [withKind, if_neg long]

end Key

end RateNet
