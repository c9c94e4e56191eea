/-
Module: RateNet.Proofs.ConcurrentTicks
Purpose: The coarse clock under any interleaving of its ticks. The offset and the spans claimed but not applied
  always make up what the counter says, so no span is applied twice; the counter stays at or below the largest
  target read, so the clock never runs ahead of real time; and neither the counter nor the readings go back.
Trusted boundary: that of RateNet.Clock.CoarseClock
Main exports: CoarseInvariant, coarse_invariant, coarse_mono, concurrent_ticks_apply_each_span_once
-/
import RateNet.Clock.CoarseClock

namespace RateNet

open Interleaving

/-- What a thread knows: its target has been read, and a swap it is about to try moves the counter forward. -/
def TickPc.Known (mem : CoarseMemory) : TickPc → Prop
  | .staleness target => target ≤ mem.largest
  | .entry target => target ≤ mem.largest
  | .swap target applied => target ≤ mem.largest ∧ applied < target
  | _ => True

namespace TickPc

theorem known_atLoop {mem : CoarseMemory} {target applied : ℕ} (read : target ≤ mem.largest) :
    (atLoop target applied).Known mem := by
  unfold atLoop
  split
  · rename_i behind
    exact ⟨read, behind⟩
  · trivial

theorem claim_atLoop (target applied : ℕ) : (atLoop target applied).claim = 0 := by
  unfold atLoop
  split <;> rfl

theorem claim_afterStaleness (refreshAfterNs target applied : ℕ) :
    (afterStaleness refreshAfterNs target applied).claim = 0 := by
  unfold afterStaleness
  split <;> rfl

theorem Known.mono {mem mem' : CoarseMemory} {pc : TickPc} (known : pc.Known mem)
    (later : mem.largest ≤ mem'.largest) : pc.Known mem' := by
  cases pc with
  | idle => trivial
  | staleness target => exact Nat.le_trans known later
  | entry target => exact Nat.le_trans known later
  | swap target applied => exact ⟨Nat.le_trans known.1 later, known.2⟩
  | claimed span => trivial

/-- Everything one step does: it keeps what the thread knows and the counter below the largest target, moves no
    word back, and books the change of the counter to the offset or to its own claim. -/
theorem Advance.effect {refreshAfterNs : ℕ} {mem mem' : CoarseMemory} {pc pc' : TickPc}
    (step : Advance refreshAfterNs mem pc mem' pc') (known : pc.Known mem)
    (behind : mem.appliedNs ≤ mem.largest) :
    pc'.Known mem' ∧ mem'.appliedNs ≤ mem'.largest ∧ mem.largest ≤ mem'.largest ∧
      mem.appliedNs ≤ mem'.appliedNs ∧ mem.offset ≤ mem'.offset ∧
      mem'.offset + pc'.claim + mem.appliedNs = mem.offset + pc.claim + mem'.appliedNs ∧
      (mem'.readings = mem.readings ∨ mem'.readings = mem.offset :: mem.readings) := by
  cases step with
  | tick elapsed =>
      have grown : mem.largest ≤ max mem.largest (nanos elapsed) := le_max_left _ _
      exact ⟨le_max_right _ _, behind.trans grown, grown, le_rfl, le_rfl, rfl, Or.inl rfl⟩
  | tickIfStale elapsed =>
      have grown : mem.largest ≤ max mem.largest (nanos elapsed) := le_max_left _ _
      exact ⟨le_max_right _ _, behind.trans grown, grown, le_rfl, le_rfl, rfl, Or.inl rfl⟩
  | staleness target =>
      refine ⟨?_, behind, le_rfl, le_rfl, le_rfl, ?_, Or.inl rfl⟩
      · unfold afterStaleness
        split
        · exact known
        · trivial
      · rw [claim_afterStaleness]
        rfl
  | load target =>
      refine ⟨known_atLoop known, behind, le_rfl, le_rfl, le_rfl, ?_, Or.inl rfl⟩
      rw [claim_atLoop]
      rfl
  | swapped target =>
      obtain ⟨read, forward⟩ := known
      refine ⟨trivial, read, le_rfl, forward.le, le_rfl, ?_, Or.inl rfl⟩
      simp only [claim]
      omega
  | failed target applied =>
      refine ⟨known_atLoop known.1, behind, le_rfl, le_rfl, le_rfl, ?_, Or.inl rfl⟩
      rw [claim_atLoop]
      rfl
  | apply span =>
      exact ⟨trivial, behind, le_rfl, le_rfl, Nat.le_add_right _ _, rfl, Or.inl rfl⟩
  | now => exact ⟨trivial, behind, le_rfl, le_rfl, le_rfl, rfl, Or.inr rfl⟩

end TickPc

section Interleavings

variable {ι : Type*} [DecidableEq ι] {refreshAfterNs : ℕ}

/-- What holds of every configuration a new clock reaches. -/
structure CoarseInvariant [Fintype ι] (c : Config ι CoarseMemory TickPc) : Prop where
  known : ∀ i, (c.loc i).Known c.mem
  behind : c.mem.appliedNs ≤ c.mem.largest
  balance : c.mem.offset + ∑ i, (c.loc i).claim = c.mem.appliedNs
  readings_le : ∀ reading ∈ c.mem.readings, reading ≤ c.mem.offset
  sorted : c.mem.readings.Pairwise (fun later earlier => earlier ≤ later)

/-- One step of one thread keeps the invariant. -/
theorem CoarseInvariant.step [Fintype ι] {c : Config ι CoarseMemory TickPc} (inv : CoarseInvariant c) {i : ι}
    {mem' : CoarseMemory} {loc' : TickPc} (step : TickPc.Advance refreshAfterNs c.mem (c.loc i) mem' loc') :
    CoarseInvariant { mem := mem', loc := Function.update c.loc i loc' } := by
  obtain ⟨known, behind, largest, -, offset, booked, read⟩ := step.effect (inv.known i) inv.behind
  have older : ∀ reading ∈ c.mem.readings, reading ≤ mem'.offset := fun reading member =>
    (inv.readings_le reading member).trans offset
  refine ⟨?_, behind, ?_, ?_, ?_⟩
  · refine (Function.forall_update_iff c.loc fun _ loc => loc.Known mem').2 ⟨known, ?_⟩
    intro j _
    exact (inv.known j).mono largest
  · -- the thread's own claim is all that changes in the sum
    have total := sum_update_add (fun _ => TickPc.claim) c.loc i loc'
    have balance := inv.balance
    show mem'.offset + ∑ j, (Function.update c.loc i loc' j).claim = mem'.appliedNs
    omega
  · show ∀ reading ∈ mem'.readings, reading ≤ mem'.offset
    rcases read with same | one
    · rw [same]
      exact older
    · rw [one]
      exact List.forall_mem_cons.2 ⟨offset, older⟩
  · show mem'.readings.Pairwise (fun later earlier => earlier ≤ later)
    rcases read with same | one
    · rw [same]
      exact inv.sorted
    · rw [one]
      exact List.pairwise_cons.2 ⟨inv.readings_le, inv.sorted⟩

/-- Every configuration of every interleaving satisfies the invariant. -/
theorem coarse_invariant [Fintype ι] {c : Config ι CoarseMemory TickPc}
    (reach : Reachable (coarseProgram refreshAfterNs) coarseStart c) : CoarseInvariant c := by
  refine reach.invariant CoarseInvariant ?_ fun c i mem' loc' inv step => inv.step step
  refine ⟨fun _ => trivial, le_rfl, by simp [coarseStart, TickPc.claim], ?_, List.Pairwise.nil⟩
  intro reading member
  cases member

/-- Along every further run neither the counter nor the offset goes back. -/
theorem coarse_mono [Fintype ι] {c c' : Config ι CoarseMemory TickPc} (inv : CoarseInvariant c)
    (reach : Reachable (coarseProgram refreshAfterNs) c c') :
    c.mem.appliedNs ≤ c'.mem.appliedNs ∧ c.mem.offset ≤ c'.mem.offset := by
  refine (reach.invariant (fun d => CoarseInvariant d ∧ c.mem.appliedNs ≤ d.mem.appliedNs ∧
    c.mem.offset ≤ d.mem.offset) ⟨inv, le_rfl, le_rfl⟩ ?_).2
  rintro d i mem' loc' ⟨inv, counter, offset⟩ step
  obtain ⟨-, -, -, counter', offset', -, -⟩ := step.effect (inv.known i) inv.behind
  exact ⟨inv.step step, counter.trans counter', offset.trans offset'⟩

/-- In every state of every interleaving of ticks the offset and the spans claimed but not applied make up the
    counter, the counter is at most the largest target read, the readings taken so far are in order, and from
    there on neither the counter nor the offset goes back. -/
theorem concurrent_ticks_apply_each_span_once [Fintype ι] {c : Config ι CoarseMemory TickPc}
    (reach : Reachable (coarseProgram refreshAfterNs) coarseStart c) :
    c.mem.offset + ∑ i, (c.loc i).claim = c.mem.appliedNs ∧ c.mem.appliedNs ≤ c.mem.largest ∧
      c.mem.readings.Pairwise (fun later earlier => earlier ≤ later) ∧
      ∀ c' : Config ι CoarseMemory TickPc, Reachable (coarseProgram refreshAfterNs) c c' →
        c.mem.appliedNs ≤ c'.mem.appliedNs ∧ c.mem.offset ≤ c'.mem.offset := by
  have inv := coarse_invariant reach
  exact ⟨inv.balance, inv.behind, inv.sorted, fun c' further => coarse_mono inv further⟩

end Interleavings

/-- One thread ticking again and again at `elapsed`, with no spurious failure. -/
def TickPc.next (elapsed : ℕ) (mem : CoarseMemory) : TickPc → CoarseMemory × TickPc
  | .idle => (reading mem (nanos elapsed), .entry (nanos elapsed))
  | .staleness target => (mem, .staleness target)
  | .entry target => (mem, atLoop target mem.appliedNs)
  | .swap target applied =>
      if mem.appliedNs = applied then
        ({ mem with appliedNs := target }, .claimed (target - mem.appliedNs))
      else
        (mem, atLoop target mem.appliedNs)
  | .claimed span => ({ mem with offset := mem.offset + span }, .idle)

theorem TickPc.next_sound (refreshAfterNs elapsed : ℕ) (mem : CoarseMemory) (pc : TickPc) :
    pc.next elapsed mem = (mem, pc) ∨
      Advance refreshAfterNs mem pc (pc.next elapsed mem).1 (pc.next elapsed mem).2 := by
  cases pc with
  | idle => exact Or.inr (.tick mem elapsed)
  | staleness target => exact Or.inl rfl
  | entry target => exact Or.inr (.load mem target)
  | swap target applied =>
      right
      simp only [next]
      split
      · rename_i unchanged
        subst unchanged
        exact .swapped mem target
      · exact .failed mem target applied
  | claimed span => exact Or.inr (.apply mem span)

/-- Two ticks, of targets three and five, that both load the counter before either swaps: the later target
    wins, its span is owned and not applied, and the earlier one gives up. -/
def twoTicks : Config (Fin 2) CoarseMemory TickPc :=
  runSchedule (fun i mem (pc : TickPc) => pc.next (if i = 0 then 3 else 5) mem) [0, 1, 0, 1, 1, 0] coarseStart

theorem concurrent_ticks_apply_each_span_once_of_two :
    (twoTicks.mem.offset, (twoTicks.loc 0).claim, (twoTicks.loc 1).claim, twoTicks.mem.appliedNs,
        twoTicks.mem.largest) = (0, 0, 5, 5, 5) ∧
      twoTicks.mem.offset + ∑ i, (twoTicks.loc i).claim = twoTicks.mem.appliedNs := by
  have reach : Reachable (coarseProgram 0) coarseStart twoTicks :=
    Reachable.schedule (fun i mem pc => TickPc.next_sound 0 _ mem pc) [0, 1, 0, 1, 1, 0] coarseStart
  exact ⟨by decide +kernel, (concurrent_ticks_apply_each_span_once reach).1⟩

end RateNet
