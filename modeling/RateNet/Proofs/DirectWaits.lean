/-
Module: RateNet.Proofs.DirectWaits
Purpose: Waits on a direct limiter. Whatever tasks wait at the same time and whatever waits are dropped, the
  requests charged are the admissions that callers were told of. A refused or dropped wait leaves a bucket and
  a fixed window as they were, also where readings come to the limiter late; a sliding log or counter decides
  as if it had not been asked, as long as readings come in order. Where the timer and the limiter's clock run
  on one time line, a wait is refused at most once more than requests are granted while it lasts, and one that
  nobody has overtaken since its last refusal is admitted.
Trusted boundary: none
Main exports: AlgoState.replay, WaitMem.NoTrace, WaitMem.NoTraceInOrder, waits_leave_no_trace, FairWaits,
  refusals_bounded_by_grants
-/
import RateNet.Proofs.Waiting
import RateNet.Proofs.HonestRetries
import RateNet.Proofs.Ageing
import RateNet.Proofs.Snapshots

namespace RateNet

open Interleaving

variable {S ι : Type} [KeyState S] [DecidableEq ι] {jitter lastInstant horizon : ℕ} {Reads : ℕ → ℕ → Prop}

/-!
### States kept under their quota
-/

namespace AlgoState

variable [LawfulKeyState S] {quota : Quota} {state : AlgoState S}

/-- The state is kept under `quota`, if there is one. -/
def Under (quota : Quota) : AlgoState S → Prop
  | .closed => True
  | .running s => LawfulKeyState.Under quota s

theorem new_under (quota : Quota) (made : ℕ) : (AlgoState.new quota made : AlgoState S).Under quota := by
  rw [AlgoState.new]
  cases created : (KeyState.create quota made : Option S) with
  | none => trivial
  | some s => exact LawfulKeyState.create_under created

theorem Under.acquire (under : state.Under quota) (n now : ℕ) : (state.acquire n now).2.Under quota := by
  cases state with
  | closed => trivial
  | running s => exact LawfulKeyState.acquire_under n now under

theorem Under.other (under : state.Under quota) (use : DirectUse) (now : ℕ) :
    ((directLimiter S).other use now state).Under quota := by
  cases state with
  | closed => cases use <;> trivial
  | running s =>
      cases use with
      | peek => exact LawfulKeyState.peek_under now under
      | reset => exact LawfulKeyState.reset_under now under

end AlgoState

theorem WaitStep.under [LawfulKeyState S] {quota : Quota} {mem mem' : WaitMem ℕ DirectUse (AlgoState S)}
    {pc pc' : WaitPc ℕ DirectUse} (step : WaitStep (directLimiter S) jitter lastInstant Reads mem pc mem' pc')
    (under : mem.limiter.Under quota) : mem'.limiter.Under quota := by
  cases step with
  | use t later => exact under.other _ _
  | admitted t later allowed => exact under.acquire _ _
  | impossible t later denied => exact under.acquire _ _
  | denied t later denied possible => exact under.acquire _ _
  | look | begin | read | giveUp | rest | sleep | wake | drop => exact under

/-!
### What a limiter has seen
-/

namespace AlgoState

/-- Does once more what was done to the limiter; none if a request that was granted is refused this time. -/
def redo (state : AlgoState S) : Op ℕ DirectUse → Option (AlgoState S)
  | .granted n now =>
    let (decision, state) := state.acquire n now
    if decision = .allow then some state else none
  | .other .reset now => some (state.reset now)
  | .other .peek _ => some state

/-- The limiter that has seen only the grants and the resets. -/
def replay (state : AlgoState S) (ops : List (Op ℕ DirectUse)) : Option (AlgoState S) := ops.foldlM redo state

theorem replay_snoc {state state' : AlgoState S} {ops : List (Op ℕ DirectUse)}
    (replayed : state.replay ops = some state') (op : Op ℕ DirectUse) : state.replay (ops ++ [op]) = state'.redo op := by
  simp only [replay] at replayed ⊢
  rw [List.foldlM_append, replayed]
  simp

/-- Closed states are alike, and states that are alike. -/
def Alike (Kept : ℕ → S → Prop) (now : ℕ) : AlgoState S → AlgoState S → Prop
  | .closed, .closed => True
  | .running s, .running s' => AlikeAt Kept now s s'
  | _, _ => False

variable {Kept : ℕ → S → Prop} {state state' : AlgoState S} {t now : ℕ}

section Quiet

variable {quota : Quota} (quiet : QuietAgeing S quota Kept)
include quiet

theorem Alike.peek (alike : Alike Kept t state state') (order : t ≤ now) :
    (state.peek now).1 = (state'.peek now).1 := by
  cases state <;> cases state' <;> try trivial
  show (KeyState.peek _ now).1 = (KeyState.peek _ now).1
  rw [quiet.peek_alike alike order]

theorem Alike.acquire (alike : Alike Kept t state state') (order : t ≤ now) (n : ℕ) :
    (state.acquire n now).1 = (state'.acquire n now).1 ∧
      Alike Kept now (state.acquire n now).2 (state'.acquire n now).2 := by
  cases state <;> cases state' <;> try trivial
  exact quiet.acquire_alike alike order n

theorem Alike.denied (alike : Alike Kept t state state') (order : t ≤ now) {n retryAfter : ℕ}
    (denied : (state.acquire n now).1 = .deny retryAfter) : Alike Kept now (state.acquire n now).2 state' := by
  cases state <;> cases state' <;> try trivial
  exact quiet.denied_alike alike order (by rw [show (KeyState.acquire _ n now).1 = _ from denied]; rfl)

theorem Alike.peeked (alike : Alike Kept t state state') (order : t ≤ now) :
    Alike Kept now (state.peek now).2 state' := by
  cases state <;> cases state' <;> try trivial
  exact quiet.peeked_alike alike order

theorem Alike.reset (alike : Alike Kept t state state') (order : t ≤ now) :
    Alike Kept now (state.reset now) (state'.reset now) := by
  cases state <;> cases state' <;> try trivial
  exact quiet.reset_alike alike order

end Quiet

end AlgoState

theorem QuietAgeing.new_alike {quota : Quota} {Kept : ℕ → S → Prop} (quiet : QuietAgeing S quota Kept) :
    AlgoState.Alike Kept 0 (.new quota 0) (.new quota 0) := by
  rw [AlgoState.new]
  cases made : (KeyState.create quota 0 : Option S) with
  | none => trivial
  | some s => exact quiet.alike_refl (quiet.create made) le_rfl

/-- The units and the reading of a grant. -/
def Op.grant? : Op ℕ DirectUse → Option (ℕ × ℕ)
  | .granted n reading => some (n, reading)
  | .other _ _ => none

/-- The units and the reading of an admission that a caller was told of. -/
def Returned.admission? (returned : Returned ℕ) : Option (ℕ × ℕ) :=
  if returned.decision = .allow then some (returned.waiter.request, returned.reading) else none

namespace WaitMem

/-- The requests granted are the admissions that callers were told of, in order. -/
def Told (mem : WaitMem ℕ DirectUse (AlgoState S)) : Prop :=
  mem.ops.filterMap Op.grant? = mem.returned.filterMap Returned.admission?

/-- The limiter is the one that has seen only the grants and the resets, all of them granted again. -/
def NoTrace (quota : Quota) (mem : WaitMem ℕ DirectUse (AlgoState S)) : Prop :=
  mem.Told ∧ (AlgoState.new quota 0).replay mem.ops = some mem.limiter

/-- If the readings came to the limiter in order, it decides every later check and shows every later snapshot as
    one that has seen only the grants and the resets, all of them granted again. -/
def NoTraceInOrder (quota : Quota) (mem : WaitMem ℕ DirectUse (AlgoState S)) : Prop :=
  mem.Told ∧ (mem.readings.Pairwise (· ≤ ·) → ∃ fresh : AlgoState S,
    (AlgoState.new quota 0).replay mem.ops = some fresh ∧ ∀ now, (∀ reading ∈ mem.readings, reading ≤ now) →
      (∀ n, (mem.limiter.acquire n now).1 = (fresh.acquire n now).1) ∧
      (mem.limiter.peek now).1 = (fresh.peek now).1)

end WaitMem

section Steps

variable {mem mem' : WaitMem ℕ DirectUse (AlgoState S)} {pc pc' : WaitPc ℕ DirectUse}

/-- Every grant is told, and nothing else is. -/
theorem WaitStep.told (step : WaitStep (directLimiter S) jitter lastInstant Reads mem pc mem' pc')
    (told : mem.Told) : mem'.Told := by
  rw [WaitMem.Told] at told ⊢
  cases step with
  | use t later =>
      rw [List.filterMap_append, told]
      exact List.append_nil _
  | admitted t later allowed =>
      rw [List.filterMap_append, List.filterMap_append, told]
      rfl
  | impossible | giveUp =>
      rw [List.filterMap_append, told]
      exact (List.append_nil _).symm
  | look | begin | read | denied | rest | sleep | wake | drop => exact told

/-!
### States that reading does not change
-/

/-- Reading a state leaves it as it is. -/
def Steady (S : Type) [KeyState S] : Prop := ∀ (s : S) (now : ℕ), (KeyState.peek s now).2 = s

theorem AlgoState.peek_steady (steady : Steady S) (state : AlgoState S) (now : ℕ) : (state.peek now).2 = state := by
  cases state with
  | closed => rfl
  | running s => exact congrArg AlgoState.running (steady s now)

/-- A refusal leaves it as it is, too. -/
theorem AlgoState.Under.denied_steady [LawfulKeyState S] (steady : Steady S) {quota : Quota} {state : AlgoState S}
    (under : state.Under quota) {n now retryAfter : ℕ} (denied : (state.acquire n now).1 = .deny retryAfter) :
    (state.acquire n now).2 = state := by
  cases state with
  | closed => rfl
  | running s =>
      have refused : (KeyState.acquire s n now).1.isDeny = true := by
        rw [show (KeyState.acquire s n now).1 = _ from denied]
        rfl
      refine congrArg AlgoState.running ?_
      rcases LawfulKeyState.acquire_denied under refused with same | read
      · exact same
      · exact read.trans (steady s now)

/-- Whatever readings come to it, such a limiter is left as the grants and the resets leave it. -/
theorem WaitStep.replayed [LawfulKeyState S] (steady : Steady S) {quota : Quota} {start : AlgoState S}
    (step : WaitStep (directLimiter S) jitter lastInstant Reads mem pc mem' pc')
    (under : mem.limiter.Under quota) (before : start.replay mem.ops = some mem.limiter) :
    start.replay mem'.ops = some mem'.limiter := by
  have refused {n reading wait : ℕ} (denied : (mem.limiter.acquire n reading).1 = .deny wait) :
      start.replay mem.ops = some (mem.limiter.acquire n reading).2 := by
    rw [under.denied_steady steady denied]
    exact before
  cases step with
  | @use use reading t later =>
      cases use with
      | peek =>
          have same : (mem.limiter.peek reading).2 = mem.limiter := AlgoState.peek_steady steady _ _
          show start.replay (mem.ops ++ [.other .peek reading]) = some (mem.limiter.peek reading).2
          rw [same]
          exact AlgoState.replay_snoc before _
      | reset => exact AlgoState.replay_snoc before _
  | @admitted waiter reading t later allowed =>
      rw [AlgoState.replay_snoc before]
      exact if_pos allowed
  | impossible t later denied => exact refused denied
  | denied t later denied possible => exact refused denied
  | look | begin | read | giveUp | rest | sleep | wake | drop => exact before

/-!
### States that age quietly
-/

/-- The last reading that came to the limiter. -/
def WaitMem.lastReading (mem : WaitMem ℕ DirectUse (AlgoState S)) : ℕ := mem.readings.getLastD 0

/-- If the readings came in order, the limiter is like one that has seen only the grants and the resets. -/
def LikeReplayed (Kept : ℕ → S → Prop) (start : AlgoState S) (mem : WaitMem ℕ DirectUse (AlgoState S)) : Prop :=
  mem.readings.Pairwise (· ≤ ·) → ∃ fresh, start.replay mem.ops = some fresh ∧
    AlgoState.Alike Kept mem.lastReading mem.limiter fresh

omit [KeyState S] in
/-- A reading that keeps the order is not before the last one. -/
theorem WaitMem.in_order {reading : ℕ} (order : (mem.readings ++ [reading]).Pairwise (· ≤ ·)) :
    mem.readings.Pairwise (· ≤ ·) ∧ mem.lastReading ≤ reading := by
  obtain ⟨sorted, -, last⟩ := List.pairwise_append.1 order
  refine ⟨sorted, ?_⟩
  rw [WaitMem.lastReading]
  cases readings : mem.readings using List.reverseRecOn with
  | nil => exact Nat.zero_le _
  | append_singleton earlier latest =>
      rw [List.getLastD_concat]
      refine last latest ?_ reading (List.mem_singleton.2 rfl)
      rw [readings]
      exact List.mem_append_right _ (List.mem_singleton.2 rfl)

theorem WaitStep.likeReplayed {quota : Quota} {Kept : ℕ → S → Prop} (quiet : QuietAgeing S quota Kept)
    {start : AlgoState S} (step : WaitStep (directLimiter S) jitter lastInstant Reads mem pc mem' pc')
    (before : LikeReplayed Kept start mem) : LikeReplayed Kept start mem' := by
  -- a call that comes to the limiter in order finds it like the one that is replayed
  have found {reading : ℕ} (order : (mem.readings ++ [reading]).Pairwise (· ≤ ·)) :
      ∃ fresh, start.replay mem.ops = some fresh ∧ mem.lastReading ≤ reading ∧
        AlgoState.Alike Kept mem.lastReading mem.limiter fresh := by
    obtain ⟨sorted, late⟩ := WaitMem.in_order order
    obtain ⟨fresh, replayed, alike⟩ := before sorted
    exact ⟨fresh, replayed, late, alike⟩
  have last (reading : ℕ) : (mem.readings ++ [reading]).getLastD 0 = reading := List.getLastD_concat
  have refused {n reading wait : ℕ} (denied : (mem.limiter.acquire n reading).1 = .deny wait)
      (order : (mem.readings ++ [reading]).Pairwise (· ≤ ·)) : ∃ fresh, start.replay mem.ops = some fresh ∧
        AlgoState.Alike Kept ((mem.readings ++ [reading]).getLastD 0) (mem.limiter.acquire n reading).2 fresh := by
    obtain ⟨fresh, replayed, late, alike⟩ := found order
    rw [last]
    exact ⟨fresh, replayed, alike.denied quiet late denied⟩
  cases step with
  | @use use reading t later =>
      intro order
      obtain ⟨fresh, replayed, late, alike⟩ := found order
      rw [WaitMem.lastReading, last]
      cases use with
      | peek => exact ⟨fresh, AlgoState.replay_snoc replayed _, alike.peeked quiet late⟩
      | reset => exact ⟨fresh.reset reading, AlgoState.replay_snoc replayed _, alike.reset quiet late⟩
  | @admitted waiter reading t later allowed =>
      intro order
      obtain ⟨fresh, replayed, late, alike⟩ := found order
      obtain ⟨decided, state⟩ := alike.acquire quiet late waiter.request
      rw [WaitMem.lastReading, last]
      refine ⟨(fresh.acquire waiter.request reading).2, ?_, state⟩
      rw [AlgoState.replay_snoc replayed]
      exact if_pos (decided.symm.trans allowed)
  | impossible t later denied => exact refused denied
  | denied t later denied possible => exact refused denied
  | look | begin | read | giveUp | rest | sleep | wake | drop => exact before

end Steps

/-- A limiter that reading does not change. -/
theorem noTrace_of_steady [LawfulKeyState S] (steady : Steady S) (quota : Quota)
    {c : (directLimiter S).Waits ι} (reach : (directLimiter S).ComesTo jitter lastInstant Reads (.new quota 0) c) :
    c.mem.NoTrace quota := by
  obtain ⟨told, -, replayed⟩ := reach.invariant
    (fun c => c.mem.Told ∧ c.mem.limiter.Under quota ∧ (AlgoState.new quota 0).replay c.mem.ops = some c.mem.limiter)
    ⟨rfl, AlgoState.new_under quota 0, rfl⟩
    (fun _ _ _ _ before step => ⟨WaitStep.told step before.1, WaitStep.under step before.2.1,
      WaitStep.replayed steady step before.2.1 before.2.2⟩)
  exact ⟨told, replayed⟩

/-- A limiter that ages quietly. -/
theorem noTraceInOrder_of_quiet (quota : Quota) {Kept : ℕ → S → Prop} (quiet : QuietAgeing S quota Kept)
    {c : (directLimiter S).Waits ι} (reach : (directLimiter S).ComesTo jitter lastInstant Reads (.new quota 0) c) :
    c.mem.NoTraceInOrder quota := by
  obtain ⟨told, like⟩ := reach.invariant (fun c => c.mem.Told ∧ LikeReplayed Kept (.new quota 0) c.mem)
    ⟨rfl, fun _ => ⟨_, rfl, quiet.new_alike⟩⟩
    (fun _ _ _ _ before step => ⟨WaitStep.told step before.1, WaitStep.likeReplayed quiet step before.2⟩)
  refine ⟨told, fun order => ?_⟩
  obtain ⟨fresh, replayed, alike⟩ := like order
  refine ⟨fresh, replayed, fun now later => ?_⟩
  have late : c.mem.lastReading ≤ now :=
    (WaitMem.in_order (List.pairwise_append.2 ⟨order, List.pairwise_singleton _ _, fun reading member _ last => by
      rw [List.mem_singleton.1 last]
      exact later reading member⟩)).2
  exact ⟨fun n => (alike.acquire quiet late n).1, alike.peek quiet late⟩

/-- Whatever tasks wait on a direct limiter, whatever they are refused and whatever is dropped: the requests
    granted are the admissions that callers were told of. A bucket or a fixed window is exactly as they and the
    resets leave it, in whatever order readings come to it. A sliding log or counter whose readings came in
    order decides and shows as if it had seen nothing else. -/
theorem waits_leave_no_trace (quota : Quota) (jitter lastInstant : ℕ) (Reads : ℕ → ℕ → Prop) :
    (∀ c : (directLimiter Gcra).Waits ι,
      (directLimiter Gcra).ComesTo jitter lastInstant Reads (.new quota 0) c → c.mem.NoTrace quota) ∧
    (∀ c : (directLimiter FixedWindow).Waits ι,
      (directLimiter FixedWindow).ComesTo jitter lastInstant Reads (.new quota 0) c → c.mem.NoTrace quota) ∧
    (∀ c : (directLimiter SlidingLog).Waits ι,
      (directLimiter SlidingLog).ComesTo jitter lastInstant Reads (.new quota 0) c → c.mem.NoTraceInOrder quota) ∧
    ∀ c : (directLimiter SlidingCounter).Waits ι,
      (directLimiter SlidingCounter).ComesTo jitter lastInstant Reads (.new quota 0) c → c.mem.NoTraceInOrder quota :=
  ⟨fun _ => noTrace_of_steady (fun _ _ => rfl) quota, fun _ => noTrace_of_steady (fun _ _ => rfl) quota,
    fun _ => noTraceInOrder_of_quiet quota (slidingLog_ages_quietly quota),
    fun _ => noTraceInOrder_of_quiet quota (slidingCounter_ages_quietly quota)⟩

/-- A task takes the only unit, is refused the next one, sleeps, and takes it. -/
theorem waits_leave_no_trace_of_two_units :
    let next (_ : Unit) (mem : WaitMem ℕ DirectUse (AlgoState FixedWindow)) (pc : WaitPc ℕ DirectUse) :=
      pc.turn (directLimiter FixedWindow) u64Max 10 1 none mem
    let c := runSchedule next (List.replicate 11 ()) (WaitConfig.new (.new unitPerNano 0))
    c.mem.returned.filterMap Returned.admission? = [(1, 0), (1, 1)] ∧ c.mem.NoTrace unitPerNano := by
  intro next c
  have reach : (directLimiter FixedWindow).ComesTo 0 u64Max (TellsTime 10) (.new unitPerNano 0) c :=
    Reachable.schedule (fun _ => WaitPc.turn_step _ _ _ _ _) _ _
  exact ⟨by decide +kernel, (waits_leave_no_trace unitPerNano 0 u64Max (TellsTime 10)).2.1 c reach⟩

-- A refusal at 15 ns drops the unit of 0 ns from the log, so that a call which read the clock at 9 ns and comes
-- after it finds a place. Without the refusal it finds none: only readings in order leave no trace of it.
example :
    let quota : Quota := { limit := 2, period := 10, burst := 2, limit_le := by decide, burst_le := by decide
                           period_le := by decide }
    let start : AlgoState SlidingLog := .new quota 0
    let refused := ((start.acquire 1 0).2.acquire 1 8).2.acquire 2 15
    refused.1.isDeny = true ∧ (refused.2.acquire 1 9).1 = .allow ∧
      (start.replay [.granted 1 0, .granted 1 8, .granted 1 9]).isNone = true := by decide +kernel

/-!
### Overtaking
-/

namespace AlgoState

/-- The units left as of `now`. -/
def remaining (state : AlgoState S) (now : ℕ) : ℕ := (state.peek now).1.remaining

variable [LawfulKeyState S]

/-- No reading up to `horizon` finds less in `after`. -/
def NoTighter (horizon : ℕ) (before after : AlgoState S) : Prop :=
  ∀ t ≤ horizon, before.remaining t ≤ after.remaining t

variable {quota : Quota} {state : AlgoState S} {n now t retryAfter : ℕ}

omit [LawfulKeyState S] in
theorem closed_denied (denied : ((AlgoState.closed : AlgoState S).acquire n now).1 = .deny retryAfter) :
    retryAfter = durationMax := by
  change RateNet.closed n = _ at denied
  rw [RateNet.closed] at denied
  split at denied
  · cases denied
  · exact (Decision.deny.inj denied).symm

/-- A refusal takes nothing away. -/
theorem Under.denied_noTighter (under : state.Under quota) (denied : (state.acquire n now).1 = .deny retryAfter) :
    NoTighter horizon state (state.acquire n now).2 := by
  intro t _
  cases state with
  | closed => exact le_rfl
  | running s =>
      have refused : (KeyState.acquire s n now).1.isDeny = true := by
        rw [show (KeyState.acquire s n now).1 = _ from denied]
        rfl
      show (KeyState.peek s t).1.remaining ≤ (KeyState.peek (KeyState.acquire s n now).2 t).1.remaining
      rcases LawfulKeyState.acquire_denied under refused with same | aged
      · rw [same]
      · rw [aged]
        exact LawfulKeyState.remaining_aged now t under

variable (fits : ∀ t ≤ horizon, LawfulKeyState.Fits S quota t)
include fits

/-- Neither does another use. -/
theorem Under.use_noTighter (under : state.Under quota) (use : DirectUse) (now : ℕ) :
    NoTighter horizon state ((directLimiter S).other use now state) := by
  cases state with
  | closed => cases use <;> exact fun _ _ => le_rfl
  | running s =>
      cases use with
      | peek => exact fun t _ => LawfulKeyState.remaining_aged now t under
      | reset =>
          intro t before
          show (KeyState.peek s t).1.remaining ≤ (KeyState.peek (KeyState.reset s now) t).1.remaining
          rw [LawfulKeyState.whole_of_reset now under (fits t before), ← LawfulKeyState.peek_limit t under]
          exact Snapshot.remaining_le _

/-- Units that are left are admitted then and later. -/
theorem Under.allow_of_remaining (under : state.Under quota) {due : ℕ} (ready : n ≤ state.remaining due)
    (order : due ≤ t) (before : t ≤ horizon) : (state.acquire n t).1 = .allow := by
  cases state with
  | closed =>
      obtain rfl := Nat.le_zero.1 ready
      rfl
  | running s =>
      have mono := LawfulKeyState.remaining_mono under order (fits t before)
      exact (LawfulKeyState.allow_iff under (fits t before)).2 (.inr (ready.trans mono))

/-- Once the time a refusal told is over, what it refused is left. -/
theorem Under.ready_of_denied (under : state.Under quota) (honest : HonestDenials S quota horizon)
    (denied : (state.acquire n now).1 = .deny retryAfter) (possible : retryAfter ≠ durationMax)
    (order : now + retryAfter ≤ t) (before : t ≤ horizon) : n ≤ (state.acquire n now).2.remaining t := by
  cases state with
  | closed =>
      exact absurd (closed_denied denied) possible
  | running s =>
      change (KeyState.acquire s n now).1 = .deny retryAfter at denied
      have fit : n ≤ capacity (LawfulKeyState.algorithm S) quota := by
        by_contra more
        rw [LawfulKeyState.acquire_impossible now under (Nat.lt_of_not_le more)] at denied
        exact possible (Decision.deny.inj denied).symm
      have allowed := honest.honest under fit denied (order.trans before)
      have kept := LawfulKeyState.acquire_under n now under
      rcases (LawfulKeyState.allow_iff kept (fits _ (order.trans before))).1 allowed with zero | left
      · rw [zero]
        exact Nat.zero_le _
      · exact left.trans (LawfulKeyState.remaining_mono kept order (fits t before))

end AlgoState

section Overtaking

variable [LawfulKeyState S] {quota : Quota} {mem mem' : WaitMem ℕ DirectUse (AlgoState S)}
  {pc pc' : WaitPc ℕ DirectUse}

/-- Every step keeps what was granted, and takes something away only with a grant. -/
structure Onward (horizon : ℕ) (mem mem' : WaitMem ℕ DirectUse (AlgoState S)) : Prop where
  now : mem.now ≤ mem'.now
  grants : mem.grants ≤ mem'.grants
  noTighter : mem'.grants = mem.grants → AlgoState.NoTighter horizon mem.limiter mem'.limiter

theorem WaitStep.onward (fits : ∀ t ≤ horizon, LawfulKeyState.Fits S quota t)
    (step : WaitStep (directLimiter S) jitter lastInstant Reads mem pc mem' pc')
    (under : mem.limiter.Under quota) : Onward horizon mem mem' := by
  have still {t : ℕ} {returned} (later : mem.now ≤ t) : Onward horizon mem { mem with now := t, returned } :=
    ⟨later, le_rfl, fun _ _ _ => le_rfl⟩
  cases step with
  | @use use reading t later =>
      have same : (mem.ops ++ [Op.other use reading]).countP Op.isGrant = mem.grants := List.countP_append ..
      exact ⟨later, same.ge, fun _ => under.use_noTighter fits use reading⟩
  | @admitted waiter reading t later allowed =>
      have more : (mem.ops ++ [Op.granted waiter.request reading]).countP Op.isGrant = mem.grants + 1 :=
        List.countP_append ..
      exact ⟨later, (Nat.le_succ _).trans more.ge, fun same => absurd (more.symm.trans same) (Nat.succ_ne_self _)⟩
  | impossible t later denied => exact ⟨later, le_rfl, fun _ => under.denied_noTighter denied⟩
  | denied t later denied possible => exact ⟨later, le_rfl, fun _ => under.denied_noTighter denied⟩
  | look | begin | read | giveUp | rest | sleep | wake | drop => exact still (by assumption)

def WaitPc.waiter? {R O : Type} : WaitPc R O → Option (Waiter R)
  | .idle | .applying _ _ => none
  | .checking waiter | .judging waiter _ | .refused waiter _ _ | .resting waiter _ _ | .asleep waiter _ _ => some waiter

/-- A wait has been refused at most once more than requests were granted when it was last refused, and what it
    waits for is left when its promise falls due, unless something was granted since. -/
structure Waiter.Fair (horizon : ℕ) (mem : WaitMem ℕ DirectUse (AlgoState S)) (waiter : Waiter ℕ) : Prop where
  since : waiter.since ≤ mem.grants
  fresh : waiter.promise = none → waiter.refusals = 0
  counted : ∀ promise ∈ waiter.promise, waiter.since ≤ promise.grants ∧ promise.grants ≤ mem.grants ∧
    waiter.refusals ≤ promise.grants - waiter.since + 1
  ready : ∀ promise ∈ waiter.promise, mem.grants = promise.grants → promise.due ≤ horizon →
    waiter.request ≤ mem.limiter.remaining promise.due

omit [LawfulKeyState S] in
theorem Waiter.Fair.refusals_le {waiter : Waiter ℕ} (fair : waiter.Fair horizon mem) :
    waiter.refusals ≤ mem.grants - waiter.since + 1 := by
  cases told : waiter.promise with
  | none =>
      rw [fair.fresh told]
      exact Nat.zero_le _
  | some promise =>
      have counted := fair.counted promise told
      omega

omit [LawfulKeyState S] in
theorem Waiter.Fair.onward {waiter : Waiter ℕ} (fair : waiter.Fair horizon mem) (onward : Onward horizon mem mem') :
    waiter.Fair horizon mem' where
  since := fair.since.trans onward.grants
  fresh := fair.fresh
  counted promise told :=
    have counted := fair.counted promise told
    ⟨counted.1, counted.2.1.trans onward.grants, counted.2.2⟩
  ready promise told same due := by
    have counted := fair.counted promise told
    have grants := onward.grants
    exact (fair.ready promise told (by omega) due).trans (onward.noTighter (by omega) _ due)

/-- A wait that the clock is read for goes by a reading up to the horizon, after its promise fell due. -/
def AtDue (horizon now : ℕ) : WaitPc ℕ DirectUse → Prop
  | .judging waiter reading =>
    (reading ≤ now ∧ reading ≤ horizon) ∧ ∀ promise ∈ waiter.promise, promise.due ≤ reading
  | _ => True

theorem AtDue.later {now later : ℕ} {pc : WaitPc ℕ DirectUse} (atDue : AtDue horizon now pc)
    (order : now ≤ later) : AtDue horizon later pc := by
  cases pc with
  | judging waiter reading => exact ⟨⟨atDue.1.1.trans order, atDue.1.2⟩, atDue.2⟩
  | idle | applying | checking | refused | resting | asleep => trivial

omit [LawfulKeyState S] in
theorem WaitStep.atDue (step : WaitStep (directLimiter S) jitter lastInstant (TellsTime horizon) mem pc mem' pc')
    (keeps : KeepsWord horizon mem.now pc) : AtDue horizon mem'.now pc' := by
  cases step with
  | read t later reads =>
      obtain ⟨rfl, before⟩ := reads
      refine ⟨⟨le_rfl, before⟩, fun promise told => ?_⟩
      rcases keeps with first | ⟨last, promised, -, due⟩
      · rw [first] at told
        cases told
      · rw [Option.mem_unique told promised]
        exact due.trans later
  | look | use | begin | admitted | impossible | denied | giveUp | rest | sleep | wake | drop => trivial

/-- A check whose promise fell due is admitted, unless something was granted since. -/
theorem Waiter.Fair.admitted (fits : ∀ t ≤ horizon, LawfulKeyState.Fits S quota t)
    (under : mem.limiter.Under quota) {waiter : Waiter ℕ} {reading : ℕ} (fair : waiter.Fair horizon mem)
    (atDue : AtDue horizon mem.now (.judging waiter reading)) {promise : Promise}
    (told : promise ∈ waiter.promise) (same : mem.grants = promise.grants) :
    (mem.limiter.acquire waiter.request reading).1 = .allow := by
  have due := atDue.2 promise told
  have ready := fair.ready promise told same (due.trans atDue.1.2)
  exact under.allow_of_remaining fits ready due atDue.1.2

/-- A check that is refused although its promise fell due was overtaken: something was granted since. -/
theorem WaitStep.fair (honest : HonestDenials S quota horizon)
    (fits : ∀ t ≤ horizon, LawfulKeyState.Fits S quota t)
    (step : WaitStep (directLimiter S) jitter lastInstant Reads mem pc mem' pc')
    (under : mem.limiter.Under quota) (atDue : AtDue horizon mem.now pc)
    (fair : ∀ waiter ∈ pc.waiter?, waiter.Fair horizon mem) : ∀ waiter ∈ pc'.waiter?, waiter.Fair horizon mem' := by
  have onward := WaitStep.onward fits step under
  cases step with
  | look | use | admitted | impossible | giveUp | drop => exact fun _ none_ => by cases none_
  | begin request maxWait t later =>
      rintro _ ⟨⟩
      exact ⟨le_rfl, fun _ => rfl, fun _ none_ => (by cases none_), fun _ none_ => (by cases none_)⟩
  | read | rest | sleep | wake => exact fun waiter here => (fair waiter here).onward onward
  | @denied waiter reading retryAfter t later denied possible =>
      have old := fair waiter rfl
      have since := old.since
      change (mem.limiter.acquire waiter.request reading).1 = _ at denied
      rintro _ ⟨⟩
      have counted : waiter.refusals + 1 ≤ mem.grants - waiter.since + 1 := by
        cases told : waiter.promise with
        | none =>
            have none_ := old.fresh told
            omega
        | some promise =>
            have counted := old.counted promise told
            have overtaken : mem.grants ≠ promise.grants := by
              intro same
              rw [old.admitted fits under atDue told same] at denied
              cases denied
            omega
      refine ⟨since, fun none_ => (by cases none_), ?_, ?_⟩
      · rintro promise ⟨⟩
        exact ⟨since, le_rfl, counted⟩
      · rintro promise ⟨⟩ - due
        have order := atDue.1.1.trans later
        exact under.ready_of_denied fits honest denied possible (Nat.add_le_add_right order _) due

/-- What a returned wait was refused is bounded by what was granted while it lasted. -/
def Returned.Fair (returned : Returned ℕ) : Prop :=
  returned.waiter.since ≤ returned.grants ∧
    returned.waiter.refusals ≤ returned.grants - returned.waiter.since + 1

omit [LawfulKeyState S] in
theorem WaitStep.returned_fair (step : WaitStep (directLimiter S) jitter lastInstant Reads mem pc mem' pc')
    (fair : ∀ waiter ∈ pc.waiter?, waiter.Fair horizon mem)
    (before : ∀ returned ∈ mem.returned, returned.Fair) : ∀ returned ∈ mem'.returned, returned.Fair := by
  have snoc {waiter : Waiter ℕ} {decision : Decision} {reading now : ℕ} (here : waiter ∈ pc.waiter?) :
      ∀ returned ∈ mem.returned ++ [⟨waiter, decision, reading, now, mem.grants⟩], returned.Fair := by
    refine List.forall_mem_append.2 ⟨before, List.forall_mem_singleton.2 ?_⟩
    exact ⟨(fair waiter here).since, (fair waiter here).refusals_le⟩
  cases step with
  | look | use | begin | read | denied | rest | sleep | wake | drop => exact before
  | admitted | impossible | giveUp => exact snoc rfl

/-- A wait has been refused at most once more than requests were granted since it began, and so has every wait
    that returned; and a check that nothing was granted before since the last refusal of its wait is admitted. -/
structure FairWaits (c : (directLimiter S).Waits ι) : Prop where
  refused : ∀ i, ∀ waiter ∈ (c.loc i).waiter?, waiter.since ≤ c.mem.grants ∧
    waiter.refusals ≤ c.mem.grants - waiter.since + 1
  returned : ∀ returned ∈ c.mem.returned, returned.Fair
  admitted : ∀ i waiter reading, c.loc i = .judging waiter reading → ∀ promise ∈ waiter.promise,
    c.mem.grants = promise.grants → (c.mem.limiter.acquire waiter.request reading).1 = .allow

theorem directLimiter_sound (honest : HonestDenials S quota horizon) :
    (directLimiter S).Sound (AlgoState.Under quota) (fun _ => True) horizon where
  check under := under.acquire _ _
  other under := under.other _ _
  timely {n now state retryAfter} under before denied := by
    change (state.acquire n now).1 = _ at denied
    cases state with
    | closed =>
        obtain rfl := AlgoState.closed_denied denied
        exact ⟨by decide, le_rfl, fun _ => trivial⟩
    | running s =>
        obtain ⟨positive, duration, -⟩ := honest.timely under before denied
        exact ⟨positive, duration, fun _ => trivial⟩

/-- Whatever tasks wait on a direct limiter at the same time. -/
theorem fairWaits (honest : HonestDenials S quota horizon) (fits : ∀ t ≤ horizon, LawfulKeyState.Fits S quota t)
    {c : (directLimiter S).Waits ι}
    (reach : (directLimiter S).ComesTo jitter lastInstant (TellsTime horizon) (.new quota 0) c) : FairWaits c := by
  have sound := directLimiter_sound honest
  have bounded : ∀ t reading, TellsTime horizon t reading → reading ≤ horizon :=
    fun t reading tells => tells.1.le.trans tells.2
  obtain ⟨⟨under, returned⟩, own⟩ := reach.stably
    (fun mem => mem.limiter.Under quota ∧ ∀ returned ∈ mem.returned, returned.Fair) (Onward horizon)
    (fun _ mem pc => KeepsWord horizon mem.now pc ∧ AtDue horizon mem.now pc ∧
      ∀ waiter ∈ pc.waiter?, waiter.Fair horizon mem)
    ⟨AlgoState.new_under quota 0, fun _ member => by cases member⟩
    (fun _ => ⟨trivial, trivial, fun _ none_ => by cases none_⟩)
    (fun _ _ _ _ _ good own step =>
      ⟨⟨WaitStep.under step good.1, WaitStep.returned_fair step own.2.2 good.2⟩, WaitStep.onward fits step good.1,
        WaitStep.keepsWord sound bounded step good.1 own.1, WaitStep.atDue step own.1,
        WaitStep.fair honest fits step good.1 own.2.1 own.2.2⟩)
    (fun _ _ _ _ own onward => ⟨own.1.later onward.now, own.2.1.later onward.now,
      fun waiter here => (own.2.2 waiter here).onward onward⟩)
  refine ⟨fun i waiter here => ?_, returned, fun i waiter reading here promise told same => ?_⟩
  · have fair := (own i).2.2 waiter here
    exact ⟨fair.since, fair.refusals_le⟩
  · obtain ⟨-, atDue, fair⟩ := own i
    rw [here] at atDue fair
    exact (fair waiter rfl).admitted fits under atDue told same

end Overtaking

/-- Where the runtime's timer and the limiter's clock run on one time line, waits on a direct limiter are fair,
    whatever tasks wait at the same time: only being overtaken keeps a wait from being admitted on its first
    retry. -/
theorem refusals_bounded_by_grants (quota : Quota) (jitter lastInstant horizon : ℕ) :
    (horizon < u64Max → (∀ t ≤ horizon, IntervalFits quota t) → ∀ c : (directLimiter Gcra).Waits ι,
      (directLimiter Gcra).ComesTo jitter lastInstant (TellsTime horizon) (.new quota 0) c → FairWaits c) ∧
    (horizon < u64Max → ∀ c : (directLimiter FixedWindow).Waits ι,
      (directLimiter FixedWindow).ComesTo jitter lastInstant (TellsTime horizon) (.new quota 0) c → FairWaits c) ∧
    (∀ c : (directLimiter SlidingLog).Waits ι,
      (directLimiter SlidingLog).ComesTo jitter lastInstant (TellsTime horizon) (.new quota 0) c → FairWaits c) ∧
    (horizon < u64Max → ∀ c : (directLimiter SlidingCounter).Waits ι,
      (directLimiter SlidingCounter).ComesTo jitter lastInstant (TellsTime horizon) (.new quota 0) c → FairWaits c) :=
  ⟨fun clock fits _ => fairWaits (gcra_honest quota clock) fits,
    fun clock _ => fairWaits (fixedWindow_honest quota clock) (fun _ _ => trivial),
    fun _ => fairWaits (slidingLog_honest quota horizon) (fun _ _ => trivial),
    fun clock _ => fairWaits (slidingCounter_honest quota clock) (fun _ _ => trivial)⟩

/-- Two tasks want the unit that comes back each nanosecond, and one of them takes it first. -/
theorem refusals_bounded_by_grants_when_overtaken :
    let next (_ : Bool) (mem : WaitMem ℕ DirectUse (AlgoState FixedWindow)) (pc : WaitPc ℕ DirectUse) :=
      pc.turn (directLimiter FixedWindow) u64Max 10 1 none mem
    let both := [false, true]
    let c := runSchedule next ([true, true, true] ++ (List.replicate 8 both).flatten)
      (WaitConfig.new (.new unitPerNano 0))
    (c.loc true).waiter?.map Waiter.refusals = some 2 ∧ c.mem.grants = 2 ∧ FairWaits c := by
  intro next both c
  have reach : (directLimiter FixedWindow).ComesTo 0 u64Max (TellsTime 10) (.new unitPerNano 0) c :=
    Reachable.schedule (fun _ => WaitPc.turn_step _ _ _ _ _) _ _
  exact ⟨by decide +kernel, by decide +kernel,
    (refusals_bounded_by_grants unitPerNano 0 u64Max 10).2.1 (by decide) c reach⟩

end RateNet
