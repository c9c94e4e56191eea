/-
Module: RateNet.Proofs.PrefixKeys
Purpose: Prefix keys partition the addresses into networks: two addresses have one key exactly when they are of
  one family once embedded IPv4 addresses are unwrapped and agree on the prefix. Keys of other families,
  lengths or kinds never meet.
Trusted boundary: that of RateNet.Net.Key
Main exports: SameNetwork, Key.Made, Key.prefixKey_beq_iff, canonical_is_not_embedded,
  prefix_keys_partition_addresses
-/
import RateNet.Net.Key

namespace RateNet

open AddressBits

/-- One family, and one prefix of that family's length. -/
def SameNetwork (v4PrefixLen v6PrefixLen : ℕ) : IpAddr → IpAddr → Prop
  | .v4 a, .v4 b => AgreeOn (min v4PrefixLen 32) a b
  | .v6 a, .v6 b => AgreeOn (min v6PrefixLen 128) a b
  | _, _ => False

/-- The clamped prefix length an address is masked to. -/
def clampedLen (v4PrefixLen v6PrefixLen : ℕ) : IpAddr → ℕ
  | .v4 _ => min v4PrefixLen 32
  | .v6 _ => min v6PrefixLen 128

/-- The family of an address, as the width of its words. -/
def IpAddr.width : IpAddr → ℕ
  | .v4 _ => 32
  | .v6 _ => 128

/-- The keys a caller or the limiter can make, by the kind they are made for. -/
inductive Key.Made : Kind → Key → Prop where
  | raw (bytes : List Byte) : Made .raw (.withKind .raw bytes)
  | rawVec (bytes : List Byte) : Made .raw (.fromVec bytes)
  | id (n : BitVec 64) : Made .id (.id n)
  | ip (addr : IpAddr) : Made .ip (.ip addr)
  | ipv4Prefix (addr : BitVec 32) (prefixLen : ℕ) : Made .ipPrefix (.ipv4Prefix addr prefixLen)
  | ipv6Prefix (addr : BitVec 128) (prefixLen : ℕ) : Made .ipPrefix (.ipv6Prefix addr prefixLen)
  | ipPrefix (addr : IpAddr) (v4PrefixLen v6PrefixLen : ℕ) :
      Made .ipPrefix (.ipPrefix addr v4PrefixLen v6PrefixLen)
  | digest (digester : Digester) (key : KeyRef) : Made .digest (digester.digestKey key)
  | anonymous : Made .digest .anonymous

/-- What a canonical IPv6 address holds is no IPv4 address. -/
theorem canonical_is_not_embedded {addr : IpAddr} {v6 : BitVec 128} (canonical : canonicalIp addr = .v6 v6) :
    embeddedIpv4 v6 = none := by
  cases addr with
  | v4 bits => cases canonical
  | v6 bits =>
      simp only [canonicalIp] at canonical
      split at canonical
      · cases canonical
      · rename_i genuine
        injection canonical with same
        subst same
        exact genuine

namespace Key

theorem prefixKey_kind {w : ℕ} (addr : BitVec w) (len : ℕ) : (prefixKey addr len).kind = .ipPrefix :=
  kind_withKind _ _

/-- Words of different numbers of bytes have different prefix keys. -/
theorem width_of_prefixKey_beq {w w' : ℕ} {a : BitVec w} {b : BitVec w'} {len len' : ℕ}
    (same : (prefixKey a len == prefixKey b len') = true) : w / 8 = w' / 8 := by
  have bytes := congrArg List.length (withKind_beq_iff.1 same).2
  simp only [List.length_append, length_beBytes, List.length_singleton] at bytes
  omega

/-- Prefix keys of words of one width, of whole bytes, are equal exactly when the clamped lengths are and the words
    agree on that many bits. -/
theorem prefixKey_beq_iff {w : ℕ} (whole : 8 ∣ w) (small : w < 256) {a b : BitVec w} {len len' : ℕ} :
    (prefixKey a len == prefixKey b len') = true ↔ min len w = min len' w ∧ AgreeOn (min len w) a b := by
  have fits : min len w ≤ w := min_le_right _ _
  have length_eq : BitVec.ofNat 8 (min len w) = BitVec.ofNat 8 (min len' w) ↔ min len w = min len' w := by
    constructor
    · intro same
      have numbers := congrArg BitVec.toNat same
      rw [BitVec.toNat_ofNat, BitVec.toNat_ofNat] at numbers
      omega
    · exact fun same => congrArg _ same
  rw [prefixKey, prefixKey, withKind_beq_iff, ← and_netmask_eq_iff fits]
  constructor
  · rintro ⟨-, bytes⟩
    obtain ⟨masked, last⟩ := List.append_inj' bytes rfl
    have lens := length_eq.1 (List.singleton_inj.1 last)
    refine ⟨lens, ?_⟩
    have words := beBytes_injective whole masked
    rwa [← lens] at words
  · rintro ⟨lens, masked⟩
    simp only [← lens, masked, and_self]

theorem ipPrefix_v4 {addr : IpAddr} {v4 : BitVec 32} (canonical : canonicalIp addr = .v4 v4)
    (v4PrefixLen v6PrefixLen : ℕ) : ipPrefix addr v4PrefixLen v6PrefixLen = prefixKey v4 v4PrefixLen := by
  rw [ipPrefix, canonical]
  rfl

theorem ipPrefix_v6 {addr : IpAddr} {v6 : BitVec 128} (canonical : canonicalIp addr = .v6 v6)
    (v4PrefixLen v6PrefixLen : ℕ) : ipPrefix addr v4PrefixLen v6PrefixLen = prefixKey v6 v6PrefixLen := by
  rw [ipPrefix, canonical]
  simp only [ipv6Prefix, canonical_is_not_embedded canonical]

/-- Every constructor makes keys of its own kind. -/
theorem Made.kind_eq {kind : Kind} {key : Key} (made : Made kind key) : key.kind = kind := by
  cases made with
  | raw bytes => exact kind_withKind _ _
  | rawVec bytes =>
      rw [fromVec_eq]
      exact kind_withKind _ _
  | id n => exact kind_withKind _ _
  | ip addr =>
      unfold Key.ip
      split <;> exact kind_withKind _ _
  | ipv4Prefix addr prefixLen => exact prefixKey_kind _ _
  | ipv6Prefix addr prefixLen =>
      unfold Key.ipv6Prefix
      split <;> exact prefixKey_kind _ _
  | ipPrefix addr v4PrefixLen v6PrefixLen =>
      cases canonical : canonicalIp addr with
      | v4 v4 =>
          rw [ipPrefix_v4 canonical]
          exact prefixKey_kind _ _
      | v6 v6 =>
          rw [ipPrefix_v6 canonical]
          exact prefixKey_kind _ _
  | digest digester key =>
      rw [Digester.digestKey, KeyRef.toKey]
      exact kind_withKind _ _
  | anonymous => exact kind_withKind _ _

/-- Two prefix keys of any lengths are equal exactly for one family, one clamped length and one prefix. -/
theorem ipPrefix_beq_iff (a b : IpAddr) (v4Len v6Len v4Len' v6Len' : ℕ) :
    (ipPrefix a v4Len v6Len == ipPrefix b v4Len' v6Len') = true ↔
      (canonicalIp a).width = (canonicalIp b).width ∧
        clampedLen v4Len v6Len (canonicalIp a) = clampedLen v4Len' v6Len' (canonicalIp b) ∧
        SameNetwork v4Len v6Len (canonicalIp a) (canonicalIp b) := by
  cases left : canonicalIp a with
  | v4 x =>
      cases right : canonicalIp b with
      | v4 y =>
          rw [ipPrefix_v4 left, ipPrefix_v4 right, prefixKey_beq_iff (by decide) (by decide)]
          simp only [IpAddr.width, clampedLen, SameNetwork, true_and]
      | v6 y =>
          rw [ipPrefix_v4 left, ipPrefix_v6 right]
          refine iff_of_false (fun same => ?_) fun same => absurd same.1 (by simp [IpAddr.width])
          exact absurd (width_of_prefixKey_beq same) (by decide)
  | v6 x =>
      cases right : canonicalIp b with
      | v4 y =>
          rw [ipPrefix_v6 left, ipPrefix_v4 right]
          refine iff_of_false (fun same => ?_) fun same => absurd same.1 (by simp [IpAddr.width])
          exact absurd (width_of_prefixKey_beq same) (by decide)
      | v6 y =>
          rw [ipPrefix_v6 left, ipPrefix_v6 right, prefixKey_beq_iff (by decide) (by decide)]
          simp only [IpAddr.width, clampedLen, SameNetwork, true_and]

end Key

/-- Prefix keys partition the addresses into the networks meant: at given lengths two addresses share a key
    exactly when they are in one network; keys of different families or clamped lengths differ, and so does
    every prefix key from every key of another kind; and keys are equal exactly when their kinds and bytes
    are, for bytes of every length. -/
theorem prefix_keys_partition_addresses :
    (∀ (a b : IpAddr) (v4Len v6Len : ℕ),
      (Key.ipPrefix a v4Len v6Len == Key.ipPrefix b v4Len v6Len) = true ↔
        SameNetwork v4Len v6Len (canonicalIp a) (canonicalIp b)) ∧
    (∀ (a b : IpAddr) (v4Len v6Len v4Len' v6Len' : ℕ),
      (canonicalIp a).width ≠ (canonicalIp b).width ∨
          clampedLen v4Len v6Len (canonicalIp a) ≠ clampedLen v4Len' v6Len' (canonicalIp b) →
        (Key.ipPrefix a v4Len v6Len == Key.ipPrefix b v4Len' v6Len') = false) ∧
    (∀ (kind : Kind) (key other : Key), Key.Made .ipPrefix key → Key.Made kind other → kind ≠ .ipPrefix →
      (key == other) = false) ∧
    (∀ (kind kind' : Kind) (bytes bytes' : List Byte),
      (Key.withKind kind bytes == Key.withKind kind' bytes') = true ↔ kind = kind' ∧ bytes = bytes') := by
  refine ⟨?_, ?_, ?_, fun _ _ _ _ => Key.withKind_beq_iff⟩
  · intro a b v4Len v6Len
    rw [Key.ipPrefix_beq_iff]
    refine ⟨fun same => same.2.2, fun same => ⟨?_, ?_, same⟩⟩
    all_goals
      generalize canonicalIp a = x at same ⊢
      generalize canonicalIp b = y at same ⊢
      cases x <;> cases y <;> first | rfl | exact same.elim
  · intro a b v4Len v6Len v4Len' v6Len' differ
    rw [Bool.eq_false_iff]
    intro same
    obtain ⟨family, lens, -⟩ := (Key.ipPrefix_beq_iff _ _ _ _ _ _).1 same
    exact differ.elim (fun other => other family) fun other => other lens
  · intro kind key other made madeOther differ
    rw [Bool.eq_false_iff]
    intro same
    have kinds := (Key.beq_iff.1 same).1
    rw [made.kind_eq, madeOther.kind_eq] at kinds
    exact differ kinds.symm

/-- The networks `10.1.2.0/24` and `10.1.3.0/24`: two addresses of the first share a key, and it is not the id key
    of the same number, nor the key of the `/25`. -/
theorem prefix_keys_partition_two_networks :
    (Key.ipPrefix (.v4 0x0a010203) 24 64 == Key.ipPrefix (.v6 0xffff0a0102fa) 24 64) = true ∧
      (Key.ipPrefix (.v4 0x0a010203) 24 64 == Key.ipPrefix (.v4 0x0a010303) 24 64) = false ∧
      (Key.ipPrefix (.v4 0x0a010203) 24 64 == Key.ipPrefix (.v4 0x0a010203) 25 64) = false ∧
      (Key.ipPrefix (.v4 0x0a010203) 24 64 == Key.id 0x0a01020018) = false :=
  ⟨by decide +kernel, by decide +kernel,
    prefix_keys_partition_addresses.2.1 (.v4 0x0a010203) (.v4 0x0a010203) 24 64 25 64 (Or.inr (by decide)),
    prefix_keys_partition_addresses.2.2.1 .id _ _ (.ipPrefix _ _ _) (.id _) (by decide)⟩

end RateNet
