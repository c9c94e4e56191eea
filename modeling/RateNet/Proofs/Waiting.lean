/-
Module: RateNet.Proofs.Waiting
Purpose: What awaiting an admission does on any limiter whose denials tell a positive time, whatever tasks wait
  at the same time and whatever is dropped. A wait never asks to be woken before the retry time it was given,
  nor past its deadline, and returns a denial only when the retry time does not fit or is unending. A
  schedule that runs tasks one step at a time gives reachable configurations.
Trusted boundary: none
Main exports: Awaitable.Sound, Returned.Justified, Waiter.Awaits, KeepsWord, Awaitable.Sound.always,
  WaitPc.turn, WaitPc.turn_step
-/
import RateNet.Async.Wait
import RateNet.Proofs.RetryAfter

namespace RateNet

open Interleaving

variable {R O M ι : Type} [DecidableEq ι]

/-!
### Deadlines
-/

/-- A limiter that stays `Good`, and whose denials at readings up to `horizon` tell a positive time to wait,
    unending only for a `Hopeless` request. -/
structure Awaitable.Sound (limiter : Awaitable R O M) (Good : M → Prop) (Hopeless : R → Prop) (horizon : ℕ) :
    Prop where
  check : ∀ {request now m}, Good m → Good (limiter.check request now m).2
  other : ∀ {use now m}, Good m → Good (limiter.other use now m)
  timely : ∀ {request now m retryAfter}, Good m → now ≤ horizon →
    (limiter.check request now m).1 = .deny retryAfter →
      0 < retryAfter ∧ retryAfter ≤ durationMax ∧ (retryAfter = durationMax → Hopeless request)

/-- Why a wait returned: admitted, hopeless, or out of budget. -/
def Returned.Justified (Hopeless : R → Prop) (returned : Returned R) : Prop :=
  returned.decision = .allow ∨
    (returned.decision = .deny durationMax ∧ Hopeless returned.waiter.request) ∨
    ∃ retryAfter, returned.decision = .deny retryAfter ∧ returned.waiter.maxWait.isSome = true ∧
      returned.waiter.left returned.now < retryAfter

/-- The next check is at `wake`: after the last refusal, not before the retry time it told. -/
def Waiter.Awaits (waiter : Waiter R) (wake : ℕ) : Prop :=
  ∃ promise ∈ waiter.promise, promise.refusedAt < promise.due ∧ promise.due ≤ wake

theorem Waiter.Awaits.later {waiter : Waiter R} {wake later : ℕ} (awaits : waiter.Awaits wake)
    (order : wake ≤ later) : waiter.Awaits later := by
  obtain ⟨promise, promised, ahead, due⟩ := awaits
  exact ⟨promise, promised, ahead, due.trans order⟩

/-- A task keeps to the promise it was given and to its deadline, and checks at a reading before `horizon`. -/
def KeepsWord (horizon now : ℕ) : WaitPc R O → Prop
  | .idle | .applying _ _ => True
  | .checking waiter => waiter.promise = none ∨ waiter.Awaits now
  | .judging waiter reading => reading ≤ horizon ∧ (waiter.promise = none ∨ waiter.Awaits now)
  | .refused waiter _ retryAfter =>
    (0 < retryAfter ∧ retryAfter ≤ durationMax) ∧ waiter.Awaits (now + retryAfter)
  | .resting waiter sleepFor asOf => asOf ≤ now ∧ waiter.Awaits (asOf + sleepFor) ∧
      ∀ deadline ∈ waiter.deadline, asOf + sleepFor ≤ deadline
  | .asleep waiter wake late => waiter.Awaits wake ∧ ∀ deadline ∈ waiter.deadline, wake ≤ deadline + late

theorem KeepsWord.later {horizon now later : ℕ} {pc : WaitPc R O} (keeps : KeepsWord horizon now pc)
    (order : now ≤ later) : KeepsWord horizon later pc := by
  cases pc with
  | idle | applying => trivial
  | checking waiter => exact keeps.imp_right fun awaits => awaits.later order
  | judging waiter reading => exact ⟨keeps.1, keeps.2.imp_right fun awaits => awaits.later order⟩
  | refused waiter reading retryAfter => exact ⟨keeps.1, keeps.2.later (Nat.add_le_add_right order _)⟩
  | resting waiter sleepFor asOf => exact ⟨keeps.1.trans order, keeps.2⟩
  | asleep waiter wake late => exact keeps

/-- A refused wait that sleeps sleeps at least the retry time, and not past its deadline. -/
theorem Waiter.sleepFor_bounds {waiter : Waiter R} {retryAfter jitter now sleepFor : ℕ}
    (told : 0 < retryAfter ∧ retryAfter ≤ durationMax)
    (sleeps : waiter.sleepFor retryAfter jitter now = some sleepFor) :
    retryAfter ≤ sleepFor ∧ ∀ deadline ∈ waiter.deadline, now + sleepFor ≤ deadline := by
  have longer : retryAfter ≤ durationAdd retryAfter jitter := by
    simp only [durationAdd]
    omega
  have positive := told.1
  simp only [Waiter.sleepFor] at sleeps
  split_ifs at sleeps with limited short
  · obtain rfl := Option.some.inj sleeps
    refine ⟨le_min longer (Nat.le_of_not_lt short), ?_⟩
    intro deadline given
    have left : waiter.left now = deadline - now := by rw [Waiter.left, Option.mem_def.1 given, Option.elim_some]
    have fits := min_le_right (durationAdd retryAfter jitter) (waiter.left now)
    omega
  · obtain rfl := Option.some.inj sleeps
    refine ⟨longer, fun deadline given => ?_⟩
    exact absurd (waiter.bounded (by rw [Option.mem_def.1 given]; rfl)) limited

theorem Waiter.sleepFor_eq_none {waiter : Waiter R} {retryAfter jitter now : ℕ}
    (returns : waiter.sleepFor retryAfter jitter now = none) :
    waiter.maxWait.isSome = true ∧ waiter.left now < retryAfter := by
  simp only [Waiter.sleepFor] at returns
  split_ifs at returns with limited short
  exact ⟨limited, short⟩

variable {limiter : Awaitable R O M} {jitter lastInstant horizon : ℕ} {Reads : ℕ → ℕ → Prop}
  {mem mem' : WaitMem R O M} {pc pc' : WaitPc R O}

/-- Every step happens now or later. -/
theorem WaitStep.instant (step : WaitStep limiter jitter lastInstant Reads mem pc mem' pc') :
    mem.now ≤ mem'.now := by
  cases step <;> assumption

variable {Good : M → Prop} {Hopeless : R → Prop}

theorem WaitStep.good (sound : limiter.Sound Good Hopeless horizon)
    (step : WaitStep limiter jitter lastInstant Reads mem pc mem' pc') (good : Good mem.limiter) :
    Good mem'.limiter := by
  cases step with
  | use t later => exact sound.other good
  | admitted t later allowed => exact sound.check good
  | impossible t later denied => exact sound.check good
  | denied t later denied possible => exact sound.check good
  | look | begin | read | giveUp | rest | sleep | wake | drop => exact good

theorem WaitStep.keepsWord (sound : limiter.Sound Good Hopeless horizon)
    (bounded : ∀ t reading, Reads t reading → reading ≤ horizon)
    (step : WaitStep limiter jitter lastInstant Reads mem pc mem' pc') (good : Good mem.limiter)
    (keeps : KeepsWord horizon mem.now pc) : KeepsWord horizon mem'.now pc' := by
  cases step with
  | look | use | admitted | impossible | giveUp | drop => trivial
  | begin => exact .inl rfl
  | read t later reads => exact ⟨bounded _ _ reads, keeps.imp_right fun awaits => awaits.later later⟩
  | denied t later denied possible =>
      have told := sound.timely good keeps.1 denied
      exact ⟨⟨told.1, told.2.1⟩, _, rfl, Nat.lt_add_of_pos_right told.1, le_rfl⟩
  | rest t draw later long =>
      obtain ⟨told, awaits⟩ := keeps.later later
      obtain ⟨longer, within⟩ := Waiter.sleepFor_bounds told long
      exact ⟨le_rfl, awaits.later (Nat.add_le_add_left longer t), within⟩
  | @sleep waiter sleepFor asOf t later =>
      obtain ⟨before, awaits, within⟩ := keeps
      refine ⟨awaits.later (by omega), fun deadline given => ?_⟩
      have := within deadline given
      omega
  | wake t later due => exact .inr (keeps.1.later due)

theorem WaitStep.justified (sound : limiter.Sound Good Hopeless horizon)
    (step : WaitStep limiter jitter lastInstant Reads mem pc mem' pc') (good : Good mem.limiter)
    (keeps : KeepsWord horizon mem.now pc) (before : ∀ returned ∈ mem.returned, returned.Justified Hopeless) :
    ∀ returned ∈ mem'.returned, returned.Justified Hopeless := by
  have snoc {last : Returned R} (justified : last.Justified Hopeless) :
      ∀ returned ∈ mem.returned ++ [last], returned.Justified Hopeless :=
    List.forall_mem_append.2 ⟨before, List.forall_mem_singleton.2 justified⟩
  cases step with
  | look | use | begin | read | denied | rest | sleep | wake | drop => exact before
  | admitted t later allowed => exact snoc (.inl rfl)
  | impossible t later denied => exact snoc (.inr (.inl ⟨rfl, (sound.timely good keeps.1 denied).2.2 rfl⟩))
  | giveUp t draw later short =>
      obtain ⟨limited, late⟩ := Waiter.sleepFor_eq_none short
      exact snoc (.inr (.inr ⟨_, rfl, limited, late⟩))

/-- What holds throughout every run of tasks that wait on a sound limiter. -/
theorem Awaitable.Sound.always (sound : limiter.Sound Good Hopeless horizon)
    (bounded : ∀ t reading, Reads t reading → reading ≤ horizon) {start : M} (good : Good start)
    {c : limiter.Waits ι} (reach : limiter.ComesTo jitter lastInstant Reads start c) :
    (Good c.mem.limiter ∧ ∀ returned ∈ c.mem.returned, returned.Justified Hopeless) ∧
      ∀ i, KeepsWord horizon c.mem.now (c.loc i) :=
  reach.stably (fun mem => Good mem.limiter ∧ ∀ returned ∈ mem.returned, returned.Justified Hopeless)
    (fun mem mem' => mem.now ≤ mem'.now) (fun _ mem pc => KeepsWord horizon mem.now pc)
    ⟨good, fun _ member => by cases member⟩ (fun _ => trivial)
    (fun _ _ _ _ _ good keeps step =>
      ⟨⟨WaitStep.good sound step good.1, WaitStep.justified sound step good.1 keeps good.2⟩,
        WaitStep.instant step, WaitStep.keepsWord sound bounded step good.1 keeps⟩)
    (fun _ _ _ _ keeps order => keeps.later order)

/-!
### Schedules
-/

/-- The step of a task that waits for `request` again and again and is woken on time, with no other time passing
    and a clock that shows the time. A task that would read the clock after `horizon` stays where it is. -/
def WaitPc.turn (limiter : Awaitable R O M) (lastInstant horizon : ℕ) (request : R) (maxWait : Option ℕ)
    (mem : WaitMem R O M) (pc : WaitPc R O) : WaitMem R O M × WaitPc R O :=
  match pc with
  | .idle => (mem, .checking (.start lastInstant request maxWait mem.now mem.grants))
  | .applying use reading =>
    ({ mem with
        limiter := limiter.other use reading mem.limiter, ops := mem.ops ++ [.other use reading]
        readings := mem.readings ++ [reading] }, .idle)
  | .checking waiter => if mem.now ≤ horizon then (mem, .judging waiter mem.now) else (mem, pc)
  | .judging waiter reading =>
    let (decision, after) := limiter.check waiter.request reading mem.limiter
    match decision with
    | .allow =>
      ({ mem with
          limiter := after, ops := mem.ops ++ [.granted waiter.request reading]
          readings := mem.readings ++ [reading]
          returned := mem.returned ++ [{ waiter, decision, reading, now := mem.now, grants := mem.grants }] }, .idle)
    | .deny retryAfter =>
      if retryAfter = durationMax then
        ({ mem with
            limiter := after, readings := mem.readings ++ [reading]
            returned := mem.returned ++ [{ waiter, decision, reading, now := mem.now, grants := mem.grants }] }, .idle)
      else
        ({ mem with limiter := after, readings := mem.readings ++ [reading] },
          .refused (waiter.refuse retryAfter mem.now mem.grants) reading retryAfter)
  | .refused waiter reading retryAfter =>
    match waiter.sleepFor retryAfter 0 mem.now with
    | none =>
      ({ mem with
          returned := mem.returned ++
            [{ waiter, decision := .deny retryAfter, reading, now := mem.now, grants := mem.grants }] }, .idle)
    | some sleepFor => (mem, .resting waiter sleepFor mem.now)
  | .resting waiter sleepFor asOf => (mem, .asleep waiter (mem.now + sleepFor) (mem.now - asOf))
  | .asleep waiter wake _ => ({ mem with now := max mem.now wake }, .checking waiter)

/-- The clock shows the time, until `horizon`. -/
def TellsTime (horizon t reading : ℕ) : Prop := reading = t ∧ t ≤ horizon

theorem WaitPc.turn_step (limiter : Awaitable R O M) (lastInstant horizon : ℕ) (request : R) (maxWait : Option ℕ)
    (mem : WaitMem R O M) (pc : WaitPc R O) :
    pc.turn limiter lastInstant horizon request maxWait mem = (mem, pc) ∨
      WaitStep limiter 0 lastInstant (TellsTime horizon) mem pc
        (pc.turn limiter lastInstant horizon request maxWait mem).1
        (pc.turn limiter lastInstant horizon request maxWait mem).2 := by
  have now : mem.now ≤ mem.now := le_rfl
  unfold WaitPc.turn
  cases pc with
  | idle => exact .inr (.begin request maxWait mem.now now)
  | applying use reading => exact .inr (.use mem.now now)
  | checking waiter =>
      dsimp only
      split
      · rename_i before
        exact .inr (.read mem.now now ⟨rfl, before⟩)
      · exact .inl rfl
  | judging waiter reading =>
      right
      dsimp only
      cases decided : (limiter.check waiter.request reading mem.limiter).1 with
      | allow => exact .admitted mem.now now decided
      | deny retryAfter =>
          by_cases unending : retryAfter = durationMax
          · subst unending
            simp only [if_true]
            exact .impossible mem.now now decided
          · simp only [if_neg unending]
            exact .denied mem.now now decided unending
  | refused waiter reading retryAfter =>
      right
      dsimp only
      cases sleeps : waiter.sleepFor retryAfter 0 mem.now with
      | none => exact .giveUp mem.now 0 now sleeps
      | some sleepFor => exact .rest mem.now 0 now sleeps
  | resting waiter sleepFor asOf => exact .inr (.sleep mem.now now)
  | asleep waiter wake late => exact .inr (.wake _ (le_max_left _ _) (le_max_right _ _))

end RateNet
