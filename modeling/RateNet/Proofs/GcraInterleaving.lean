/-
Module: RateNet.Proofs.GcraInterleaving
Purpose: The leaky bucket under any interleaving. A call of `check_n_in` is cut at its atomic operations:
  the guard, the load of the word, and the weak compare-and-swap, which may fail spuriously. Readings are
  arbitrary, so admissions happen in an order unrelated to their timestamps; the bound is the potential
  argument of `VirtualScheduling` with the word as its counter.
Trusted boundary: none
Main exports: GcraCall, GcraPc, gcraProgram, gcra_never_over_admitted
-/
import RateNet.Algo.Gcra
import RateNet.Lib.Interleaving
import RateNet.Lib.VirtualScheduling

namespace RateNet

open Interleaving VirtualScheduling

/-- The arguments of one call: the units and the clock reading the caller took. -/
structure GcraCall where
  n : ℕ
  now : ℕ

/-- Where a call is. -/
inductive GcraPc where
  /-- Before the guards. -/
  | entry
  /-- At the top of the loop, about to load the word. -/
  | load
  /-- About to swap `newTat` in for the loaded `current`. -/
  | swap (current newTat : ℕ)
  | returned (decision : Decision)
deriving DecidableEq

namespace GcraCall

variable (p : GcraParams) (call : GcraCall)

/-- The guards in front of the loop touch no shared word. -/
def afterGuards : GcraPc :=
  if call.n = 0 then .returned .allow
  else if p.closed ∨ call.n - 1 > p.tolerance then .returned (.deny durationMax)
  else .load

/-- What the call does with the word it has just loaded. -/
def afterLoad (current : ℕ) : GcraPc :=
  match p.attempt call.n (nanos call.now) (p.intervalsAt (nanos call.now)) current with
  | .swap newTat => .swap current newTat
  | .refuse retryAfter => .returned (.deny retryAfter)

/-- One atomic step of a call on the shared word. -/
inductive Advance : ℕ → GcraPc → ℕ → GcraPc → Prop where
  | guards (tat : ℕ) : Advance tat .entry tat (call.afterGuards p)
  | load (tat : ℕ) : Advance tat .load tat (call.afterLoad p tat)
  | swapped (current newTat : ℕ) :
      Advance current (.swap current newTat) newTat (.returned .allow)
  /-- The word changed since the load, or the weak compare-and-swap failed spuriously. -/
  | failed (tat current newTat : ℕ) : Advance tat (.swap current newTat) tat .load

end GcraCall

/-- Every call runs `check_n_in` on the one shared word. -/
def gcraProgram {ι : Type*} (p : GcraParams) (calls : ι → GcraCall) : Program ι ℕ GcraPc :=
  fun i => (calls i).Advance p

/-- A full bucket, and no call started. -/
def gcraStart {ι : Type*} : Config ι ℕ GcraPc := { mem := 0, loc := fun _ => .entry }

/-- Units a call at location `pc` has been granted, if its reading lies in `[a, b]`. -/
def GcraCall.grantedIn (call : GcraCall) (a b : ℕ) (pc : GcraPc) : ℕ :=
  if pc = .returned .allow ∧ a ≤ call.now ∧ call.now ≤ b then call.n else 0

/-- The units of the calls that returned `Allow` with a reading in `[a, b]`. -/
def gcraGranted {ι : Type*} [Fintype ι] (calls : ι → GcraCall) (c : Config ι ℕ GcraPc) (a b : ℕ) : ℕ :=
  ∑ i, (calls i).grantedIn a b (c.loc i)

/-- A pending swap was computed by `attempt` for a request that passed the guards. -/
def GcraCall.Pending (p : GcraParams) (call : GcraCall) : GcraPc → Prop
  | .load => 0 < call.n
  | .swap current newTat => 0 < call.n ∧
      p.attempt call.n (nanos call.now) (p.intervalsAt (nanos call.now)) current = .swap newTat
  | _ => True

section Interleavings

variable {ι : Type*} [DecidableEq ι] {p : GcraParams} {calls : ι → GcraCall}

theorem GcraCall.pending_afterGuards (call : GcraCall) : call.Pending p (call.afterGuards p) := by
  unfold GcraCall.afterGuards
  split
  · trivial
  · split
    · trivial
    · simp only [GcraCall.Pending]
      omega

theorem GcraCall.pending_afterLoad (call : GcraCall) (tat : ℕ) (hn : 0 < call.n) :
    call.Pending p (call.afterLoad p tat) := by
  unfold GcraCall.afterLoad
  split
  · rename_i newTat hattempt
    exact ⟨hn, hattempt⟩
  · trivial

/-- One step keeps the location's own invariant. -/
theorem GcraCall.Advance.pending {call : GcraCall} {tat tat' : ℕ} {pc pc' : GcraPc}
    (step : call.Advance p tat pc tat' pc') (pending : call.Pending p pc) : call.Pending p pc' := by
  cases step with
  | guards => exact call.pending_afterGuards
  | load => exact call.pending_afterLoad tat pending
  | swapped => trivial
  | failed current newTat => exact pending.1

theorem GcraCall.grantedIn_afterGuards (call : GcraCall) (a b : ℕ) :
    call.grantedIn a b (call.afterGuards p) = 0 := by
  unfold GcraCall.afterGuards GcraCall.grantedIn
  split
  · rename_i hzero
    simp [hzero]
  · split <;> simp

theorem GcraCall.grantedIn_afterLoad (call : GcraCall) (a b tat : ℕ) :
    call.grantedIn a b (call.afterLoad p tat) = 0 := by
  unfold GcraCall.afterLoad GcraCall.grantedIn
  split
  · simp
  · simp

/-- What one step does to the word and to the account: nothing, or one admission of the meter. -/
theorem GcraCall.Advance.effect {call : GcraCall} {tat tat' : ℕ} {pc pc' : GcraPc}
    (step : call.Advance p tat pc tat' pc') (pending : call.Pending p pc)
    (hsat : p.Unsaturated call.now) :
    (∀ a b, call.grantedIn a b pc = 0) ∧
    ((tat' = tat ∧ ∀ a b, call.grantedIn a b pc' = 0) ∨
      (tat' = max tat (p.intervalsAt (nanos call.now)) + call.n ∧
        tat' ≤ p.intervalsAt (nanos call.now) + (p.tolerance + 1) ∧ pc' = .returned .allow)) := by
  cases step with
  | guards =>
      refine ⟨fun a b => by simp [GcraCall.grantedIn], Or.inl ⟨rfl, fun a b => ?_⟩⟩
      exact call.grantedIn_afterGuards a b
  | load =>
      refine ⟨fun a b => by simp [GcraCall.grantedIn], Or.inl ⟨rfl, fun a b => ?_⟩⟩
      exact call.grantedIn_afterLoad a b tat
  | swapped =>
      obtain ⟨heq, hle⟩ := GcraParams.attempt_swap pending.1 hsat pending.2
      exact ⟨fun a b => by simp [GcraCall.grantedIn], Or.inr ⟨heq, hle, rfl⟩⟩
  | failed =>
      exact ⟨fun a b => by simp [GcraCall.grantedIn],
        Or.inl ⟨rfl, fun a b => by simp [GcraCall.grantedIn]⟩⟩

theorem pending_of_reachable {c : Config ι ℕ GcraPc}
    (reach : Reachable (gcraProgram p calls) gcraStart c) (i : ι) : (calls i).Pending p (c.loc i) := by
  refine reach.locally (fun i => (calls i).Pending p) (fun _ => trivial) ?_ i
  intro i _ _ _ _ pending step
  exact step.pending pending

/-- The shared word meters the granted units in every reachable configuration. -/
theorem gcra_metered [Fintype ι] (hp : p.IsOpen) (hsat : ∀ i, p.Unsaturated (calls i).now)
    {c : Config ι ℕ GcraPc} (reach : Reachable (gcraProgram p calls) gcraStart c) :
    Metered (fun t => p.intervalsAt (nanos t)) (p.tolerance + 1) c.mem (gcraGranted calls c) := by
  have mono : Monotone fun t => p.intervalsAt (nanos t) :=
    fun _ _ h => GcraParams.intervalsAt_nanos_mono hp h
  induction reach with
  | refl =>
      have none_yet : gcraGranted calls gcraStart = fun _ _ => 0 := by
        funext a b
        simp [gcraGranted, gcraStart, GcraCall.grantedIn]
      rw [none_yet]
      exact Metered.empty _ _ _
  | @tail c₁ _ reach₁ step inductionHypothesis =>
      cases step with
      | @thread i tat' pc' step =>
          obtain ⟨before, quiet | ⟨lift, cap, admitted⟩⟩ :=
            step.effect (pending_of_reachable reach₁ i) (hsat i)
          · -- no admission: the word and the account both stay
            obtain ⟨same, after⟩ := quiet
            subst same
            have kept : gcraGranted calls { mem := c₁.mem, loc := Function.update c₁.loc i pc' } =
                gcraGranted calls c₁ := by
              funext a b
              rw [gcraGranted, sum_update (fun j => (calls j).grantedIn a b) c₁.loc i pc' (before a b),
                after a b]
              rfl
            rw [kept]
            exact inductionHypothesis
          · subst lift admitted
            have added : ∀ a b, gcraGranted calls
                { mem := max c₁.mem (p.intervalsAt (nanos (calls i).now)) + (calls i).n,
                  loc := Function.update c₁.loc i (.returned .allow) } a b =
                gcraGranted calls c₁ a b +
                  (calls i).grantedIn a b (.returned .allow) := by
              intro a b
              exact sum_update (fun j => (calls j).grantedIn a b) c₁.loc i _ (before a b)
            refine inductionHypothesis.grant mono le_rfl cap ?_ ?_
            · intro a b ha hb
              rw [added, GcraCall.grantedIn, if_pos ⟨rfl, ha, hb⟩]
            · intro a b window
              rw [added, GcraCall.grantedIn, if_neg (fun h => window h.2), Nat.add_zero]

end Interleavings

/-- Under any interleaving of any calls, with readings in any order, the units granted at readings in
    `[a, b]` are at most the burst plus the intervals between the two ends, and the word never
    decreases. -/
theorem gcra_never_over_admitted {ι : Type*} [Fintype ι] [DecidableEq ι] {quota : Quota}
    (hopen : (GcraParams.new quota).closed = false) (calls : ι → GcraCall)
    (hsat : ∀ i, (GcraParams.new quota).intervalsAt (nanos (calls i).now) + quota.burst < 2 ^ 64)
    {c : Config ι ℕ GcraPc}
    (reach : Reachable (gcraProgram (GcraParams.new quota) calls) gcraStart c) :
    (∀ a b, a ≤ b →
      gcraGranted calls c a b ≤ quota.burst + (GcraParams.new quota).intervalsAt (nanos b)
        - (GcraParams.new quota).intervalsAt (nanos a)) ∧
    ∀ c', Step (gcraProgram (GcraParams.new quota) calls) c c' → c.mem ≤ c'.mem := by
  have hp := GcraParams.new_isOpen hopen
  have hburst := GcraParams.tolerance_add_one hopen
  have unsaturated : ∀ i, (GcraParams.new quota).Unsaturated (calls i).now := by
    intro i
    have := hsat i
    simp only [GcraParams.Unsaturated, u64Max]
    omega
  constructor
  · intro a b hab
    have bound := (gcra_metered hp unsaturated reach).bound hab
    rw [hburst] at bound
    exact bound
  · intro c' step
    cases step with
    | thread i step =>
        obtain ⟨-, ⟨same, -⟩ | ⟨lift, -, -⟩⟩ :=
          step.effect (pending_of_reachable reach i) (unsaturated i)
        · exact same.ge
        · rw [lift]
          exact (le_max_left _ _).trans (Nat.le_add_right _ _)

/-- The step of a call whose compare-and-swap does not fail spuriously. -/
def GcraCall.next (p : GcraParams) (call : GcraCall) (tat : ℕ) : GcraPc → ℕ × GcraPc
  | .entry => (tat, call.afterGuards p)
  | .load => (tat, call.afterLoad p tat)
  | .swap current newTat => if tat = current then (newTat, .returned .allow) else (tat, .load)
  | .returned decision => (tat, .returned decision)

theorem GcraCall.next_sound (p : GcraParams) (call : GcraCall) (tat : ℕ) (pc : GcraPc) :
    call.next p tat pc = (tat, pc) ∨ call.Advance p tat pc (call.next p tat pc).1 (call.next p tat pc).2 := by
  cases pc with
  | entry => exact .inr (.guards tat)
  | load => exact .inr (.load tat)
  | swap current newTat =>
      right
      by_cases unchanged : tat = current
      · subst unchanged
        simp only [GcraCall.next, if_true]
        exact .swapped tat newTat
      · simp only [GcraCall.next, if_neg unchanged]
        exact .failed tat current newTat
  | returned decision => exact .inl rfl

/-- Two calls of one unit at the origin on a burst of one load the same word. The first swaps and is granted; the
    second fails to swap, loads again and is refused. -/
theorem gcra_never_over_admitted_two_calls :
    let p := GcraParams.new (.perSecond 1 (by decide))
    let calls : Fin 2 → GcraCall := fun _ => { n := 1, now := 0 }
    let c := runSchedule (fun i => (calls i).next p) [0, 1, 0, 1, 0, 1, 1] gcraStart
    c.loc 0 = .returned .allow ∧ c.loc 1 = .returned (.deny nanosPerSec) ∧ gcraGranted calls c 0 0 = 1 ∧
      gcraGranted calls c 0 0 ≤ 1 + p.intervalsAt (nanos 0) - p.intervalsAt (nanos 0) := by
  intro p calls c
  have reach : Reachable (gcraProgram p calls) gcraStart c :=
    Reachable.schedule (fun i => (calls i).next_sound p) _ _
  refine ⟨by decide, by decide, by decide, ?_⟩
  have hopen : (GcraParams.new (.perSecond 1 (by decide))).closed = false := by decide
  exact (gcra_never_over_admitted hopen calls (fun _ => by decide) reach).1 0 0 le_rfl

end RateNet
