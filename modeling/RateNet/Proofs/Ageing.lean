/-
Module: RateNet.Proofs.Ageing
Purpose: Reading a state may age it: records that have left the window are dropped, windows that are over are
  rolled. Ageing is quiet. A state and the same state aged decide alike from then on and stay alike under every
  operation, so a refused check or a snapshot leaves nothing a later call could see. Shown for the sliding log and
  the sliding counter; the other states are left alone by both.
Trusted boundary: none
Main exports: QuietAgeing, AlikeAt, slidingLog_ages_quietly, slidingCounter_ages_quietly
-/
import RateNet.Algo.Lawful

namespace RateNet

/-- Ageing is quiet for the states made for `quota`, which are `Kept` up to the last reading. -/
structure QuietAgeing (S : Type) [KeyState S] (quota : Quota) (Kept : ℕ → S → Prop) : Prop where
  create : ∀ {s now}, KeyState.create quota now = some s → Kept now s
  later : ∀ {s t now}, Kept t s → t ≤ now → Kept now s
  acquire : ∀ {s t now} n, Kept t s → t ≤ now → Kept now (KeyState.acquire s n now).2
  peek : ∀ {s t now}, Kept t s → t ≤ now → Kept now (KeyState.peek s now).2
  reset : ∀ {s t now}, Kept t s → t ≤ now → Kept now (KeyState.reset s now)
  denied : ∀ {s t n now}, Kept t s → t ≤ now → (KeyState.acquire s n now).1.isDeny = true →
    (KeyState.acquire s n now).2 = s ∨ (KeyState.acquire s n now).2 = (KeyState.peek s now).2
  peek_aged : ∀ {s t now}, Kept t s → t ≤ now → KeyState.peek (KeyState.peek s t).2 now = KeyState.peek s now
  acquire_aged : ∀ {s t now} n, Kept t s → t ≤ now →
    (KeyState.acquire (KeyState.peek s t).2 n now).1 = (KeyState.acquire s n now).1 ∧
      (KeyState.peek (KeyState.acquire (KeyState.peek s t).2 n now).2 now).2 =
        (KeyState.peek (KeyState.acquire s n now).2 now).2
  reset_aged : ∀ {s t now}, Kept t s → t ≤ now →
    (KeyState.peek (KeyState.reset (KeyState.peek s t).2 now) now).2 =
      (KeyState.peek (KeyState.reset s now) now).2

/-!
### States that are alike
-/

section Alike

variable {S : Type} [KeyState S] {quota : Quota} {Kept : ℕ → S → Prop} {s s' : S} {t now n : ℕ}

/-- Two states that are one when aged to `now`. -/
structure AlikeAt (Kept : ℕ → S → Prop) (now : ℕ) (s s' : S) : Prop where
  left : Kept now s
  right : Kept now s'
  aged : (KeyState.peek s now).2 = (KeyState.peek s' now).2

namespace QuietAgeing

variable (quiet : QuietAgeing S quota Kept)
include quiet

theorem alike_refl (kept : Kept t s) (order : t ≤ now) : AlikeAt Kept now s s :=
  ⟨quiet.later kept order, quiet.later kept order, rfl⟩

/-- Alike states show the same from then on. -/
theorem peek_alike (alike : AlikeAt Kept t s s') (order : t ≤ now) : KeyState.peek s now = KeyState.peek s' now := by
  rw [← quiet.peek_aged alike.left order, alike.aged, quiet.peek_aged alike.right order]

theorem alike_later (alike : AlikeAt Kept t s s') (order : t ≤ now) : AlikeAt Kept now s s' :=
  ⟨quiet.later alike.left order, quiet.later alike.right order, congrArg Prod.snd (quiet.peek_alike alike order)⟩

/-- Alike states decide the same, and stay alike. -/
theorem acquire_alike (alike : AlikeAt Kept t s s') (order : t ≤ now) (n : ℕ) :
    (KeyState.acquire s n now).1 = (KeyState.acquire s' n now).1 ∧
      AlikeAt Kept now (KeyState.acquire s n now).2 (KeyState.acquire s' n now).2 := by
  obtain ⟨decided, state⟩ := quiet.acquire_aged n alike.left order
  obtain ⟨decided', state'⟩ := quiet.acquire_aged n alike.right order
  rw [alike.aged] at decided state
  exact ⟨decided.symm.trans decided', quiet.acquire n alike.left order, quiet.acquire n alike.right order,
    state.symm.trans state'⟩

theorem reset_alike (alike : AlikeAt Kept t s s') (order : t ≤ now) :
    AlikeAt Kept now (KeyState.reset s now) (KeyState.reset s' now) := by
  have state := quiet.reset_aged alike.left order
  rw [alike.aged] at state
  exact ⟨quiet.reset alike.left order, quiet.reset alike.right order,
    state.symm.trans (quiet.reset_aged alike.right order)⟩

/-- A state that was only read is still alike. -/
theorem peeked_alike (alike : AlikeAt Kept t s s') (order : t ≤ now) :
    AlikeAt Kept now (KeyState.peek s now).2 s' := by
  refine ⟨quiet.peek alike.left order, quiet.later alike.right order, ?_⟩
  rw [quiet.peek_aged (quiet.later alike.left order) le_rfl, quiet.peek_alike alike order]

/-- So is one that refused a check. -/
theorem denied_alike (alike : AlikeAt Kept t s s') (order : t ≤ now)
    (denied : (KeyState.acquire s n now).1.isDeny = true) :
    AlikeAt Kept now (KeyState.acquire s n now).2 s' := by
  rcases quiet.denied alike.left order denied with same | aged
  · rw [same]
    exact quiet.alike_later alike order
  · rw [aged]
    exact quiet.peeked_alike alike order

end QuietAgeing

end Alike

/-!
### The algorithms
-/

namespace SlidingLog

variable {quota : Quota} {sl : SlidingLog} {t now n : ℕ}

/-- No record is later than the reading. -/
structure UpTo (quota : Quota) (t : ℕ) (sl : SlidingLog) : Prop where
  under : sl.Under quota
  records : ∀ run ∈ sl.log.runs, run.atNs ≤ nanos t

theorem UpTo.instant (kept : sl.UpTo quota t) (order : t ≤ now) : sl.log.instant (nanos now) = nanos now :=
  le_antisymm (Log.instant_le (fun run member => (kept.records run member).trans (nanos_mono order)) le_rfl)
    (Log.le_instant _ _)

theorem UpTo.aged (kept : sl.UpTo quota t) (order : t ≤ now) (read : ℕ) : (sl.aged read).UpTo quota now := by
  refine ⟨kept.under.aged read, fun run member => ?_⟩
  have older : (sl.aged read).log.runs <:+ sl.log.runs := Log.runs_expire_suffix _ _
  exact (kept.records run (older.subset member)).trans (nanos_mono order)

/-- A check of an aged log is that of the log, which is aged further first. -/
theorem UpTo.acquire_aged (kept : sl.UpTo quota t) (order : t ≤ now) (asked : n ≠ 0)
    (possible : n ≤ quota.limit) : (sl.aged t).acquire n now = sl.acquire n now := by
  have period : (sl.aged t).periodNs = sl.periodNs := rfl
  have expired : (sl.aged t).log.expireAt (nanos now) sl.periodNs = sl.log.expireAt (nanos now) sl.periodNs := by
    have again := congrArg SlidingLog.log (aged_aged sl t now)
    rw [max_eq_right order] at again
    exact again
  rw [acquire, acquire, if_neg asked, if_neg asked, if_neg ((kept.under.aged t).guard possible),
    if_neg (kept.under.guard possible)]
  dsimp only
  rw [(kept.aged le_rfl t).instant order, kept.instant order, period, expired]
  rfl

theorem UpTo.acquire (kept : sl.UpTo quota t) (order : t ≤ now) (n : ℕ) :
    (sl.acquire n now).2.UpTo quota now := by
  have aged := kept.aged order now
  rcases Nat.eq_zero_or_pos n with rfl | asked
  · rw [acquire_zero]
    exact ⟨kept.under, fun run member => (kept.records run member).trans (nanos_mono order)⟩
  refine ⟨kept.under.acquire n now, ?_⟩
  rcases Nat.lt_or_ge quota.limit n with impossible | possible
  · rw [acquire_impossible kept.under impossible]
    exact fun run member => (kept.records run member).trans (nanos_mono order)
  rcases Nat.lt_or_ge quota.limit (sl.usedAt now + n) with full | fits
  · obtain ⟨wait, denied⟩ := acquire_full kept.under possible full
    rw [denied]
    exact aged.records
  · rw [acquire_fits kept.under asked fits]
    intro run member
    change run ∈ ((sl.aged now).log.record n (sl.log.instant (nanos now))).runs at member
    rw [kept.instant order] at member
    obtain ⟨older, among, -, -, runs⟩ := aged.under.sorted.runs_record n aged.records
    rw [runs] at member
    rcases List.mem_append.1 member with earlier | last
    · exact aged.records run (among.subset earlier)
    · rw [List.mem_singleton.1 last]

theorem UpTo.peek_aged (kept : sl.UpTo quota t) (order : t ≤ now) : (sl.aged t).peek now = sl.peek now := by
  have again : (sl.aged t).aged now = sl.aged now := by rw [aged_aged, max_eq_right order]
  rw [peek_eq (kept.under.aged t), peek_eq kept.under, usedAt, again]
  rfl

end SlidingLog

theorem slidingLog_ages_quietly (quota : Quota) : QuietAgeing SlidingLog quota (SlidingLog.UpTo quota) where
  create {sl now} made := by
    refine ⟨LawfulKeyState.create_under made, fun run member => ?_⟩
    change (if _ then some (SlidingLog.new quota) else none) = some sl at made
    split at made
    · obtain rfl := Option.some.inj made
      cases member
    · cases made
  later kept order := ⟨kept.under, fun run member => (kept.records run member).trans (nanos_mono order)⟩
  acquire n kept order := kept.acquire order n
  peek {sl _ now} kept order := by
    show (sl.peek now).2.UpTo quota now
    rw [SlidingLog.peek_eq kept.under]
    exact kept.aged order now
  reset kept _ := ⟨kept.under.reset, fun _ member => by cases member⟩
  denied kept _ denied := LawfulKeyState.acquire_denied kept.under denied
  peek_aged {sl t now} kept order := by
    show (sl.peek t).2.peek now = sl.peek now
    rw [SlidingLog.peek_eq kept.under]
    exact kept.peek_aged order
  acquire_aged {sl t now} n kept order := by
    show ((sl.peek t).2.acquire n now).1 = (sl.acquire n now).1 ∧
      (((sl.peek t).2.acquire n now).2.peek now).2 = ((sl.acquire n now).2.peek now).2
    rw [SlidingLog.peek_eq kept.under]
    -- a check that is not judged leaves what is read, aged or not
    rcases Nat.eq_zero_or_pos n with rfl | asked
    · rw [SlidingLog.acquire_zero, SlidingLog.acquire_zero]
      exact ⟨rfl, congrArg Prod.snd (kept.peek_aged order)⟩
    rcases Nat.lt_or_ge quota.limit n with impossible | possible
    · rw [SlidingLog.acquire_impossible (kept.under.aged t) impossible,
        SlidingLog.acquire_impossible kept.under impossible]
      exact ⟨rfl, congrArg Prod.snd (kept.peek_aged order)⟩
    · rw [kept.acquire_aged order asked.ne' possible]
      exact ⟨rfl, rfl⟩
  reset_aged {sl t now} kept order := by
    have same : (sl.peek t).2.reset = sl.reset := by
      rw [SlidingLog.peek_eq kept.under, SlidingLog.reset, SlidingLog.reset]
      show ({ sl.aged t with log := ⟨[], (sl.aged t).log.total⟩ } : SlidingLog) = _
      rw [SlidingLog.aged, Log.total_expireAt]
    show ((sl.peek t).2.reset.peek now).2 = (sl.reset.peek now).2
    rw [same]

namespace SlidingCounter

variable {quota : Quota} {sc : SlidingCounter} {t now n : ℕ}

/-- Rolling twice is rolling to the later reading. -/
theorem Under.roll_aged (under : sc.Under quota) (order : t ≤ now) :
    (sc.aged t).roll (nanos now) = sc.roll (nanos now) := by
  have period : (sc.aged t).periodNs = sc.periodNs := (under.aged t).period.trans under.period.symm
  rw [roll_eq, roll_eq, under.instant_aged (windowAt_mono sc order), period, under.aged_aged, max_eq_right order]

theorem Under.acquire_aged (under : sc.Under quota) (order : t ≤ now) (asked : n ≠ 0)
    (possible : n ≤ quota.limit) : (sc.aged t).acquire n now = sc.acquire n now := by
  rw [SlidingCounter.acquire, SlidingCounter.acquire, if_neg asked, if_neg asked, if_neg ((under.aged t).guard possible),
    if_neg (under.guard possible)]
  dsimp only
  rw [under.roll_aged order]

theorem Under.peek_aged_eq (under : sc.Under quota) (order : t ≤ now) : (sc.aged t).peek now = sc.peek now := by
  rw [SlidingCounter.peek, SlidingCounter.peek, if_neg (under.aged t).not_closed, if_neg under.not_closed]
  dsimp only
  rw [under.roll_aged order]

/-- A counter that counts nothing only moves its window. -/
theorem Under.aged_reset (under : sc.Under quota) (now : ℕ) :
    sc.reset.aged now = { sc with window := sc.windowAt now, prev := 0, curr := 0 } := by
  have same : sc.reset.windowAt now = sc.windowAt now := rfl
  have window : sc.reset.window = sc.window := rfl
  rw [under.reset.aged_eq, same, window]
  split
  · rename_i unmoved
    rw [unmoved, SlidingCounter.reset]
  · simp only [SlidingCounter.reset, ite_self]

end SlidingCounter

theorem slidingCounter_ages_quietly (quota : Quota) : QuietAgeing SlidingCounter quota fun _ sc => sc.Under quota where
  create made := LawfulKeyState.create_under made
  later under _ := under
  acquire n under _ := LawfulKeyState.acquire_under (S := SlidingCounter) n _ under
  peek under _ := LawfulKeyState.peek_under (S := SlidingCounter) _ under
  reset under _ := LawfulKeyState.reset_under (S := SlidingCounter) _ under
  denied under _ denied := LawfulKeyState.acquire_denied under denied
  peek_aged {sc t now} under order := by
    show (sc.peek t).2.peek now = sc.peek now
    rw [SlidingCounter.peek_eq under]
    exact under.peek_aged_eq order
  acquire_aged {sc t now} n under order := by
    show ((sc.peek t).2.acquire n now).1 = (sc.acquire n now).1 ∧
      (((sc.peek t).2.acquire n now).2.peek now).2 = ((sc.acquire n now).2.peek now).2
    rw [SlidingCounter.peek_eq under]
    rcases Nat.eq_zero_or_pos n with rfl | asked
    · rw [SlidingCounter.acquire_zero, SlidingCounter.acquire_zero]
      exact ⟨rfl, congrArg Prod.snd (under.peek_aged_eq order)⟩
    rcases Nat.lt_or_ge quota.limit n with impossible | possible
    · rw [SlidingCounter.acquire_impossible (under.aged t) impossible,
        SlidingCounter.acquire_impossible under impossible]
      exact ⟨rfl, congrArg Prod.snd (under.peek_aged_eq order)⟩
    · rw [under.acquire_aged order asked.ne' possible]
      exact ⟨rfl, rfl⟩
  reset_aged {sc t now} under order := by
    show ((sc.peek t).2.reset.peek now).2 = (sc.reset.peek now).2
    rw [SlidingCounter.peek_eq under, SlidingCounter.peek_eq (under.aged t).reset, SlidingCounter.peek_eq under.reset,
      (under.aged t).aged_reset, under.aged_reset]
    have window : (sc.aged t).windowAt now = sc.windowAt now := by
      rw [← (under.aged t).aged_window, under.aged_aged, max_eq_right order, under.aged_window]
    rw [window, under.aged_eq]
    split <;> rfl

end RateNet
