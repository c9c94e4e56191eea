/-
Module: RateNet.Lib.AddressBits
Layer: Lib
Purpose: Words read from the most significant bit down, as network addresses are: the mask of a prefix length,
  agreement of two words on a prefix, and the big-endian bytes of a word.
Imports: Mathlib.Tactic
Trusted boundary: none
Main exports: Byte, netmask, AgreeOn, and_netmask_eq_iff, beBytes, length_beBytes, beBytes_injective
-/
import Mathlib.Tactic

namespace AddressBits

abbrev Byte := BitVec 8

variable {w : ℕ}

/-- The mask of the first `len` bits: all ones shifted left by the rest, and nothing where the shift would be by
    the whole width. -/
def netmask (w len : ℕ) : BitVec w := if w - len < w then BitVec.allOnes w <<< (w - len) else 0

/-- Two words with the same first `len` bits. -/
def AgreeOn (len : ℕ) (a b : BitVec w) : Prop := ∀ i < len, a.getMsbD i = b.getMsbD i

theorem getLsbD_netmask {len : ℕ} (i : ℕ) :
    (netmask w len).getLsbD i = (decide (i < w) && decide (w - len ≤ i)) := by
  unfold netmask
  split
  · rw [BitVec.getLsbD_shiftLeft, BitVec.getLsbD_allOnes]
    by_cases within : i < w
    · by_cases kept : w - len ≤ i
      · have : i - (w - len) < w := by omega
        simp [within, kept, this, Nat.not_lt.2 kept]
      · simp [within, kept, Nat.lt_of_not_le kept]
    · simp [within]
  · rename_i wide
    have beyond : ¬ (i < w ∧ w - len ≤ i) := by omega
    rw [← Bool.decide_and, decide_eq_false beyond]
    exact BitVec.getLsbD_zero

/-- Masked words are equal exactly when the words agree on the prefix. -/
theorem and_netmask_eq_iff {len : ℕ} (fits : len ≤ w) {a b : BitVec w} :
    a &&& netmask w len = b &&& netmask w len ↔ AgreeOn len a b := by
  constructor
  · intro same i before
    have bit := congrArg (fun x : BitVec w => x.getLsbD (w - 1 - i)) same
    simp only [BitVec.getLsbD_and, getLsbD_netmask] at bit
    have within : w - 1 - i < w := by omega
    have kept : w - len ≤ w - 1 - i := by omega
    simp only [within, kept, decide_true, Bool.and_true] at bit
    rw [BitVec.getMsbD, BitVec.getMsbD, bit]
  · intro agree
    apply BitVec.eq_of_getLsbD_eq
    intro i within
    rw [BitVec.getLsbD_and, BitVec.getLsbD_and, getLsbD_netmask]
    by_cases kept : w - len ≤ i
    · have bit := agree (w - 1 - i) (by omega)
      have same : w - 1 - (w - 1 - i) = i := by omega
      simp only [BitVec.getMsbD, same, (by omega : w - 1 - i < w), decide_true, Bool.true_and] at bit
      rw [bit]
    · simp [kept]

/-- The bytes of a word, the most significant first. -/
def beBytes (x : BitVec w) : List Byte :=
  (List.range (w / 8)).map fun i => x.extractLsb' (w - 8 * (i + 1)) 8

@[simp] theorem length_beBytes (x : BitVec w) : (beBytes x).length = w / 8 := by
  rw [beBytes, List.length_map, List.length_range]

/-- A word of whole bytes is determined by them. -/
theorem beBytes_injective (whole : 8 ∣ w) {x y : BitVec w} (same : beBytes x = beBytes y) : x = y := by
  have bytes := List.map_inj_left.1 same
  apply BitVec.eq_of_getLsbD_eq
  intro i within
  -- bit `i` stands in byte `(w - 1 - i) / 8` from the top
  have byte := bytes ((w - 1 - i) / 8) (List.mem_range.2 (by omega))
  have bit := congrArg (fun b : Byte => b.getLsbD (i - (w - 8 * ((w - 1 - i) / 8 + 1)))) byte
  have position : w - 8 * ((w - 1 - i) / 8 + 1) + (i - (w - 8 * ((w - 1 - i) / 8 + 1))) = i := by omega
  have inByte : i - (w - 8 * ((w - 1 - i) / 8 + 1)) < 8 := by omega
  simp only [BitVec.getLsbD_extractLsb', position, inByte, decide_true, Bool.true_and] at bit
  exact bit

end AddressBits
