/-
Module: RateNet.Proofs.FixedWindowReference
Purpose: The packed fixed window is a plain counter on full window numbers. The plain counter keeps the
  newest window and its count and knows nothing of packing, compare-and-swap or saturation; the packed
  one, called one call at a time, answers as it does whatever spurious failures its compare-and-swap
  meets, apart from waits that run past the end of the clock.
Trusted boundary: none
Main exports: FixedWindow.acquireLoop, FixedWindow.acquireWeak, PlainWindow, WindowCall,
  packed_window_is_plain_counter
-/
import RateNet.Proofs.FixedWindowInterleaving

namespace RateNet

namespace FixedWindow

/-!
### Spurious failures
-/

/-- The acquire loop with no other thread in between, its weak compare-and-swap failing spuriously
    `failures` times before it succeeds. -/
def acquireLoop (n nowNs : ℕ) : ℕ → Option (ℕ × ℕ) → FixedWindow → Decision × FixedWindow
  | failures, openedOver, fw =>
    match fw.attempt n nowNs fw.state fw.latest openedOver with
    | .refuse retryAfter => (.deny retryAfter, fw)
    | .charge window total =>
      -- opening a new window publishes it before the state is switched
      let opens := window > fw.latest
      let openedOver := if opens then some (fw.state, window) else openedOver
      let fw := if opens then { fw with latest := max fw.latest window } else fw
      match failures with
      | 0 => (.allow, { fw with state := packed window total })
      | failures + 1 => acquireLoop n nowNs failures openedOver fw

/-- Checks `n` units as of `now`, with `failures` spurious failures. -/
def acquireWeak (fw : FixedWindow) (n now failures : ℕ) : Decision × FixedWindow :=
  if n = 0 then
    (.allow, fw)
  else if fw.denyAll ∨ n > fw.limit then
    (.deny durationMax, fw)
  else
    acquireLoop n (nanos now) failures none fw

variable {fw : FixedWindow} {n nowNs window total : ℕ} {openedOver : Option (ℕ × ℕ)}

/-- An iteration that opens no window is repeated as it was until the swap succeeds. -/
theorem acquireLoop_settled
    (attempt : fw.attempt n nowNs fw.state fw.latest openedOver = .charge window total)
    (opened : ¬ window > fw.latest) (failures : ℕ) :
    acquireLoop n nowNs failures openedOver fw = (.allow, { fw with state := packed window total }) := by
  induction failures with
  | zero =>
      rw [acquireLoop, attempt]
      simp only [if_neg opened]
  | succ failures inductionHypothesis =>
      rw [acquireLoop, attempt]
      simp only [if_neg opened]
      exact inductionHypothesis

/-- Spurious failures change nothing. -/
theorem acquireWeak_eq (fw : FixedWindow) (n now failures : ℕ) :
    fw.acquireWeak n now failures = fw.acquire n now := by
  unfold acquireWeak acquire
  split
  · rfl
  · split
    · rfl
    · cases attempt : fw.attempt n (nanos now) fw.state fw.latest none with
      | refuse retryAfter =>
          unfold acquireLoop
          simp only [attempt]
      | charge window total =>
          dsimp only
          by_cases opens : window > fw.latest
          · -- after the first failure the word is the one the window was opened over
            have raised : max fw.latest window = window := max_eq_right opens.le
            unfold acquireLoop
            simp only [attempt, if_pos opens]
            cases failures with
            | zero => rfl
            | succ failures =>
                have publishing : FixedCall.Publishing fw ⟨n, now⟩ window total := ⟨attempt, opens⟩
                have retry : ({ fw with latest := max fw.latest window } : FixedWindow).attempt n (nanos now)
                    fw.state (max fw.latest window) (some (fw.state, window)) = .charge window total := by
                  rw [raised]
                  exact publishing.retry
                exact acquireLoop_settled retry (by rw [raised]; exact lt_irrefl window) failures
          · have kept : max fw.latest window = fw.latest := max_eq_left (Nat.le_of_not_lt opens)
            rw [acquireLoop_settled attempt opens, kept]

end FixedWindow

/-!
### The plain counter
-/

/-- The newest window any call has opened, and its count. -/
structure PlainWindow where
  newest : ℕ
  count : ℕ
  periodNs : ℕ
  limit : ℕ
deriving DecidableEq

/-- A call on a fixed window; an acquire meets `failures` spurious failures. -/
inductive WindowCall where
  | acquire (n now failures : ℕ)
  | peek (now : ℕ)
  | reset
deriving DecidableEq

/-- What a call answers. -/
inductive WindowAnswer where
  | decided (decision : Decision)
  | shown (snapshot : Snapshot)
  | done
deriving DecidableEq

/-- The answer without the wait it reports. -/
def WindowAnswer.forgetWait : WindowAnswer → WindowAnswer
  | .decided .allow => .decided .allow
  | .decided (.deny _) => .decided (.deny 0)
  | .shown snapshot => .shown (.new snapshot.limit snapshot.remaining 0)
  | .done => .done

namespace PlainWindow

def new (quota : Quota) (made : ℕ) : PlainWindow :=
  { newest := nanos made / nanos quota.period, count := 0, periodNs := nanos quota.period
    limit := quota.limit }

/-- The window a call is judged in: a late one in the newest. -/
def windowAt (plain : PlainWindow) (now : ℕ) : ℕ := max (nanos now / plain.periodNs) plain.newest

/-- What that window counts. -/
def usedAt (plain : PlainWindow) (now : ℕ) : ℕ :=
  if plain.windowAt now = plain.newest then plain.count else 0

/-- The wait from `now` to the end of the window it is judged in. -/
def untilEnd (plain : PlainWindow) (now : ℕ) : ℕ := (plain.windowAt now + 1) * plain.periodNs - now

def acquire (plain : PlainWindow) (n now : ℕ) : Decision × PlainWindow :=
  if n = 0 then
    (.allow, plain)
  else if n > plain.limit then
    (.deny durationMax, plain)
  else if plain.usedAt now + n ≤ plain.limit then
    (.allow, { plain with newest := plain.windowAt now, count := plain.usedAt now + n })
  else
    (.deny (plain.untilEnd now), plain)

def peek (plain : PlainWindow) (now : ℕ) : Snapshot :=
  .new plain.limit (plain.limit - plain.usedAt now)
    (if plain.usedAt now = 0 then 0 else plain.untilEnd now)

def answer (plain : PlainWindow) : WindowCall → WindowAnswer × PlainWindow
  | .acquire n now _ =>
    let (decision, plain) := plain.acquire n now
    (.decided decision, plain)
  | .peek now => (.shown (plain.peek now), plain)
  | .reset => (.done, { plain with count := 0 })

def after (quota : Quota) (made : ℕ) (calls : List WindowCall) : PlainWindow :=
  calls.foldl (fun plain call => (plain.answer call).2) (new quota made)

/-- The clock reaches the end of the window the call is judged in. -/
def Unsaturated (plain : PlainWindow) : WindowCall → Prop
  | .acquire _ now _ | .peek now => now ≤ u64Max ∧ (plain.windowAt now + 1) * plain.periodNs ≤ u64Max
  | .reset => True

end PlainWindow

namespace FixedWindow

def answer (fw : FixedWindow) : WindowCall → WindowAnswer × FixedWindow
  | .acquire n now failures =>
    let (decision, fw) := fw.acquireWeak n now failures
    (.decided decision, fw)
  | .peek now => (.shown (fw.peek now), fw)
  | .reset => (.done, fw.reset)

def after (quota : Quota) (made : ℕ) (calls : List WindowCall) : FixedWindow :=
  calls.foldl (fun fw call => (fw.answer call).2) (new quota made)

end FixedWindow

/-!
### The packed word holds the plain counter
-/

/-- The packed state stands for the plain one. -/
structure PlainWindow.Packs (quota : Quota) (plain : PlainWindow) (fw : FixedWindow) : Prop where
  under : fw.Under quota
  newest : fw.latest = plain.newest
  word : fw.state = FixedWindow.packed plain.newest plain.count
  count_le : plain.count ≤ quota.limit
  periodNs : plain.periodNs = nanos quota.period
  limit : plain.limit = quota.limit

namespace PlainWindow.Packs

variable {quota : Quota} {plain : PlainWindow} {fw : FixedWindow}

theorem windowAt (packs : plain.Packs quota fw) (now : ℕ) : fw.windowAt now = plain.windowAt now := by
  rw [FixedWindow.windowAt, FixedWindow.windowOf, packs.under.period, packs.newest, PlainWindow.windowAt,
    packs.periodNs]

theorem usedAt (packs : plain.Packs quota fw) (now : ℕ) : fw.usedAt now = plain.usedAt now := by
  have word : fw.state = FixedWindow.packed fw.latest plain.count := by rw [packs.newest, packs.word]
  rw [FixedWindow.usedAt_of_word word (packs.count_le.trans quota.limit_le), packs.windowAt, packs.newest,
    PlainWindow.usedAt]

/-- Where the clock reaches the end of the window the two waits are one. -/
theorem untilEnd (packs : plain.Packs quota fw) {now : ℕ} (reading : now ≤ u64Max)
    (reached : (plain.windowAt now + 1) * plain.periodNs ≤ u64Max) :
    fw.untilEndOf (fw.windowAt now) (nanos now) = plain.untilEnd now := by
  have positive := packs.under.period_pos
  have number : plain.windowAt now + 1 ≤ u64Max := by
    rw [packs.periodNs] at reached
    exact (Nat.le_mul_of_pos_right _ positive).trans reached
  rw [packs.periodNs] at reached
  rw [FixedWindow.untilEndOf, packs.windowAt, packs.under.period, satAdd_eq number, satMul_eq reached,
    nanos_eq reading, PlainWindow.untilEnd, packs.periodNs]

/-- One acquire: the same decision up to its wait, the same wait where the clock does not saturate, and
    states that stand for one another. -/
theorem acquire (packs : plain.Packs quota fw) (n now : ℕ) :
    (WindowAnswer.decided (fw.acquire n now).1).forgetWait =
        (WindowAnswer.decided (plain.acquire n now).1).forgetWait ∧
      (now ≤ u64Max ∧ (plain.windowAt now + 1) * plain.periodNs ≤ u64Max →
        (fw.acquire n now).1 = (plain.acquire n now).1) ∧
      (plain.acquire n now).2.Packs quota (fw.acquire n now).2 := by
  rw [PlainWindow.acquire, packs.limit]
  rcases Nat.eq_zero_or_pos n with rfl | asked
  · rw [fw.acquire_zero, if_pos rfl]
    exact ⟨rfl, fun _ => rfl, packs⟩
  rw [if_neg (by omega)]
  rcases Nat.lt_or_ge quota.limit n with impossible | possible
  · rw [FixedWindow.acquire_impossible packs.under impossible, if_pos impossible]
    exact ⟨rfl, fun _ => rfl, packs⟩
  rw [if_neg (by omega)]
  rcases Nat.lt_or_ge quota.limit (fw.usedAt now + n) with full | fits
  · rw [FixedWindow.acquire_full packs.under possible full]
    rw [packs.usedAt] at full
    rw [if_neg (by omega)]
    refine ⟨rfl, ?_, packs⟩
    rintro ⟨reading, reached⟩
    rw [packs.untilEnd reading reached]
  · have under := packs.under.acquire n now
    rw [FixedWindow.acquire_fits packs.under asked fits] at under ⊢
    rw [packs.usedAt] at fits
    rw [if_pos fits]
    refine ⟨rfl, fun _ => rfl, under, packs.windowAt now, ?_, fits, packs.periodNs, rfl⟩
    show FixedWindow.packed (fw.windowAt now) (fw.usedAt now + n) = _
    rw [packs.windowAt, packs.usedAt]

theorem peek (packs : plain.Packs quota fw) (now : ℕ) :
    (WindowAnswer.shown (fw.peek now)).forgetWait = (WindowAnswer.shown (plain.peek now)).forgetWait ∧
      (now ≤ u64Max ∧ (plain.windowAt now + 1) * plain.periodNs ≤ u64Max →
        fw.peek now = plain.peek now) := by
  rw [FixedWindow.peek_eq packs.under, PlainWindow.peek, packs.limit, packs.usedAt]
  refine ⟨rfl, ?_⟩
  rintro ⟨reading, reached⟩
  rw [packs.untilEnd reading reached]

/-- One call. -/
theorem answer (packs : plain.Packs quota fw) (call : WindowCall) :
    (fw.answer call).1.forgetWait = (plain.answer call).1.forgetWait ∧
      (plain.Unsaturated call → (fw.answer call).1 = (plain.answer call).1) ∧
      (plain.answer call).2.Packs quota (fw.answer call).2 := by
  cases call with
  | acquire n now failures =>
      obtain ⟨decided, waits, packs'⟩ := packs.acquire n now
      rw [FixedWindow.answer, FixedWindow.acquireWeak_eq]
      exact ⟨decided, fun unsaturated => congrArg WindowAnswer.decided (waits unsaturated), packs'⟩
  | peek now =>
      obtain ⟨shown, waits⟩ := packs.peek now
      exact ⟨shown, fun unsaturated => congrArg WindowAnswer.shown (waits unsaturated), packs⟩
  | reset =>
      refine ⟨rfl, fun _ => rfl, packs.under.reset, packs.newest, ?_, Nat.zero_le _, packs.periodNs,
        packs.limit⟩
      show FixedWindow.packed fw.latest 0 = FixedWindow.packed plain.newest 0
      rw [packs.newest]

end PlainWindow.Packs

theorem PlainWindow.packs_after {quota : Quota} (admits : admitsAnything .fixedWindow quota = true)
    (made : ℕ) (calls : List WindowCall) :
    (PlainWindow.after quota made calls).Packs quota (FixedWindow.after quota made calls) := by
  induction calls using List.reverseRecOn with
  | nil => exact ⟨FixedWindow.new_under admits made, rfl, rfl, Nat.zero_le _, rfl, rfl⟩
  | append_singleton calls call inductionHypothesis =>
      rw [PlainWindow.after, FixedWindow.after, List.foldl_append, List.foldl_append]
      exact (inductionHypothesis.answer call).2.2

/-- The packed fixed window equals a plain counter on full window numbers: after any calls at any readings,
    with any spurious failures, every next call is answered alike, up to a wait that runs past the end of
    the clock. -/
theorem packed_window_is_plain_counter (quota : Quota) (made : ℕ) (calls : List WindowCall)
    (call : WindowCall) (admits : admitsAnything .fixedWindow quota = true) :
    ((FixedWindow.after quota made calls).answer call).1.forgetWait =
        ((PlainWindow.after quota made calls).answer call).1.forgetWait ∧
      ((PlainWindow.after quota made calls).Unsaturated call →
        ((FixedWindow.after quota made calls).answer call).1 =
          ((PlainWindow.after quota made calls).answer call).1) := by
  obtain ⟨decided, waits, -⟩ := (PlainWindow.packs_after admits made calls).answer call
  exact ⟨decided, waits⟩

/-- One per nanosecond: a unit in window 5, then one a whole turn of the index later, with two spurious
    failures; the old count is not the new window's. -/
theorem packed_window_is_plain_counter_across_a_turn :
    ((FixedWindow.after unitPerNano 0 [.acquire 1 5 0]).answer (.acquire 1 (5 + 2 ^ 32) 2)).1 =
        .decided .allow ∧
      ((PlainWindow.after unitPerNano 0 [.acquire 1 5 0]).answer (.acquire 1 (5 + 2 ^ 32) 2)).1 =
        .decided .allow := by
  have plain : ((PlainWindow.after unitPerNano 0 [.acquire 1 5 0]).answer (.acquire 1 (5 + 2 ^ 32) 2)).1 =
      .decided .allow := by
    decide +kernel
  have same := (packed_window_is_plain_counter unitPerNano 0 [.acquire 1 5 0]
    (.acquire 1 (5 + 2 ^ 32) 2) (by decide +kernel)).2 ⟨by decide +kernel, by decide +kernel⟩
  exact ⟨same.trans plain, plain⟩

end RateNet
