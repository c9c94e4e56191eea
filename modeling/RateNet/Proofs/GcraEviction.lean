/-
Module: RateNet.Proofs.GcraEviction
Purpose: Eviction never resets a leaky-bucket limit. The meter of the leaky bucket values a key's history
  by an arrival time that virtual scheduling accounts for: a state is tight when its own arrival time,
  or the current interval, is not earlier; the value is void once its interval has begun; and while the
  key is away the deadline of its interval, in whole milliseconds, carries it. Rounding the deadline up
  and restoring to the interval at or after it never comes out earlier.
Trusted boundary: none
Main exports: gcraMeter, admittedIn, leaky_bucket_survives_eviction
-/
import RateNet.Lib.VirtualScheduling
import RateNet.Algo.Lawful
import RateNet.Proofs.EvictionMeter

namespace RateNet

open RateConversion VirtualScheduling

/-!
### What a bucket owes
-/

namespace GcraParams

variable {p : GcraParams} {tat now : ℕ}

/-- A bucket that owes nothing has reached its arrival time. -/
theorem le_of_debt_none (hp : p.IsOpen) (whole : (p.peekIn tat now).debt now = none) :
    tat ≤ p.intervalsAt (nanos now) := by
  rw [Snapshot.debt_eq_none, peekIn_open hp] at whole
  have bound := satAdd_le (p.intervalsAt (nanos now)) (p.tolerance + 1)
  simp only [Snapshot.new] at whole
  omega

/-- A bucket that owes is due when its arrival interval begins, as far as the words go. -/
theorem until_eq (hp : p.IsOpen) {debt : Debt} (ahead : p.intervalsAt (nanos now) < tat)
    (owed : (p.peekIn tat now).debt now = some debt) :
    debt.until = durationAdd now (p.nanosAt tat - nanos now) := by
  obtain ⟨-, -, deadline⟩ := Snapshot.debt_eq_some.1 owed
  have later : max tat (p.intervalsAt (nanos now)) = tat := max_eq_left ahead.le
  rw [peekIn_open hp, later] at deadline
  simp only [Snapshot.new, if_neg ahead.ne'] at deadline
  exact deadline

/-- The deadline of a bucket that owes is the start of its arrival interval. -/
theorem until_of_debt_some (hp : p.IsOpen) {debt : Debt} (ahead : p.intervalsAt (nanos now) < tat)
    (owed : (p.peekIn tat now).debt now = some debt) (fits : ceilMillis debt.until < untilMax) :
    debt.until = tickStart p.limit p.periodNs tat := by
  have deadline := until_eq hp ahead owed
  rw [deadline] at fits ⊢
  -- a deadline this early is no saturated sum, so neither the clock nor the start of the interval is
  have small : durationAdd now (p.nanosAt tat - nanos now) ≤ fromMillis untilMax :=
    (le_fromMillis_ceilMillis (lt_trans fits (by decide))).trans (fromMillis_mono fits.le)
  have sum : durationAdd now (p.nanosAt tat - nanos now) = now + (p.nanosAt tat - nanos now) := by
    apply durationAdd_eq
    by_contra past
    rw [durationAdd, min_eq_right (Nat.le_of_not_le past)] at small
    exact absurd small (by decide)
  have limit : fromMillis untilMax < u64Max := by decide
  rw [sum] at small ⊢
  have clock : nanos now = now := nanos_eq (by omega)
  rw [clock] at ahead small ⊢
  have start := lt_nanosAt_of_intervalsAt_lt hp (by omega : now < u64Max) ahead
  rw [nanosAt_eq] at start small ⊢
  omega

/-- The same, from the interval's side: a start this early does not saturate. -/
theorem until_of_start (hp : p.IsOpen) {debt : Debt} (ahead : p.intervalsAt (nanos now) < tat)
    (owed : (p.peekIn tat now).debt now = some debt)
    (fits : ceilMillis (tickStart p.limit p.periodNs tat) < untilMax) :
    debt.until = tickStart p.limit p.periodNs tat := by
  have deadline := until_eq hp ahead owed
  have small : tickStart p.limit p.periodNs tat ≤ fromMillis untilMax :=
    (le_fromMillis_ceilMillis (lt_trans fits (by decide))).trans (fromMillis_mono fits.le)
  have limit : fromMillis untilMax < u64Max := by decide
  have clock : nanos now < tickStart p.limit p.periodNs tat := by
    rw [intervalsAt_eq hp (nanos_le now)] at ahead
    by_contra begun
    have := (tickStart_le_iff hp.limit_pos hp.period_pos).1 (Nat.le_of_not_lt begun)
    omega
  have read : nanos now = now := by
    simp only [nanos] at clock ⊢
    omega
  have most : u64Max ≤ durationMax := by decide
  rw [deadline, nanosAt_eq, read, durationAdd]
  rw [read] at clock
  omega

/-- An interval whose deadline has passed on the millisecond clock has begun. -/
theorem le_intervalsAt_of_due (hp : p.IsOpen) {interval : ℕ}
    (fits : ceilMillis (tickStart p.limit p.periodNs interval) ≤ untilMax)
    (passed : ceilMillis (tickStart p.limit p.periodNs interval) ≤ millis now) :
    interval ≤ p.intervalsAt (nanos now) := by
  have small : ceilMillis (tickStart p.limit p.periodNs interval) < u64Max :=
    lt_of_le_of_lt fits (by decide)
  have begun := le_of_ceilMillis_le_millis small passed
  have word : tickStart p.limit p.periodNs interval ≤ u64Max :=
    ((le_fromMillis_ceilMillis small).trans (fromMillis_mono fits)).trans (by decide)
  rw [intervalsAt_eq hp (nanos_le now)]
  exact (tickStart_le_iff hp.limit_pos hp.period_pos).1 (le_min begun word)

/-- Restoring to a rounded deadline reaches the interval it was rounded from. -/
theorem le_restore_of_due (hp : p.IsOpen) {interval deadline : ℕ}
    (fits : ceilMillis (tickStart p.limit p.periodNs interval) ≤ untilMax)
    (late : fromMillis (ceilMillis (tickStart p.limit p.periodNs interval)) ≤ deadline) :
    interval ≤ p.restoreUntilIn tat deadline := by
  have small : ceilMillis (tickStart p.limit p.periodNs interval) < u64Max :=
    lt_of_le_of_lt fits (by decide)
  have rounded := le_fromMillis_ceilMillis small
  exact le_restoreUntilIn hp (rounded.trans late) ((rounded.trans (fromMillis_mono fits)).trans (by decide))

end GcraParams

/-!
### The meter
-/

/-- The units admitted at readings in `[a, b]`. -/
def unitsIn (history : List Event) (a b : ℕ) : ℕ :=
  (history.map fun event =>
    if event.decision = .allow ∧ a ≤ event.now ∧ event.now ≤ b then event.n else 0).sum

theorem unitsIn_snoc (history : List Event) (event : Event) (a b : ℕ) :
    unitsIn (history ++ [event]) a b = unitsIn history a b +
      if event.decision = .allow ∧ a ≤ event.now ∧ event.now ≤ b then event.n else 0 := by
  simp [unitsIn]

section Meter

variable {p : GcraParams}

/-- A check of a bucket that is tight for an accounted arrival time leaves it tight for one that also
    accounts for the check; a check that spends nothing leaves the arrival time alone. -/
theorem gcra_acquire (hp : p.IsOpen) {history : List Event} {v tat n now : ℕ}
    (sat : p.Unsaturated now)
    (metered : Metered (fun t => p.intervalsAt (nanos t)) (p.tolerance + 1) v (unitsIn history))
    (tight : v ≤ max tat (p.intervalsAt (nanos now))) :
    ∃ v', Metered (fun t => p.intervalsAt (nanos t)) (p.tolerance + 1) v'
        (unitsIn (history ++ [⟨n, now, (p.checkNIn tat n now).1⟩])) ∧
      v' ≤ max (p.checkNIn tat n now).2 (p.intervalsAt (nanos now)) ∧
      (n = 0 ∨ (p.checkNIn tat n now).1.isDeny = true → v' = v) := by
  have mono : Monotone fun t => p.intervalsAt (nanos t) :=
    fun _ _ h => GcraParams.intervalsAt_nanos_mono hp h
  rcases GcraParams.checkNIn_cases tat n sat with ⟨rfl, answer⟩ | ⟨-, wait, answer⟩ |
    ⟨positive, answer, capped⟩
  · rw [answer]
    have same : unitsIn (history ++ [⟨0, now, .allow⟩]) = unitsIn history := by
      funext a b
      rw [unitsIn_snoc]
      simp
    rw [same]
    exact ⟨v, metered, tight, fun _ => rfl⟩
  · rw [answer]
    have same : unitsIn (history ++ [⟨n, now, .deny wait⟩]) = unitsIn history := by
      funext a b
      rw [unitsIn_snoc]
      simp
    rw [same]
    exact ⟨v, metered, tight, fun _ => rfl⟩
  · rw [answer]
    refine ⟨max tat (p.intervalsAt (nanos now)) + n, ?_, le_max_left _ _, ?_⟩
    · have start : max v (p.intervalsAt (nanos now)) ≤ max tat (p.intervalsAt (nanos now)) :=
        max_le tight (le_max_right _ _)
      apply metered.grant mono (Nat.add_le_add_right start n)
        ((Nat.add_le_add_right start n).trans capped)
      · intro a b after before
        rw [unitsIn_snoc, if_pos ⟨rfl, after, before⟩]
      · intro a b outside
        rw [unitsIn_snoc, if_neg (fun inside => outside inside.2), Nat.add_zero]
    · rintro (rfl | denied)
      · exact absurd positive (Nat.lt_irrefl 0)
      · cases denied

/-- A fresh bucket charged with a deadline, if there is one, is tight for a value that is void or was
    rounded up to a deadline no later. -/
theorem gcra_restored {quota : Quota} (hp : (GcraParams.new quota).IsOpen) {v t : ℕ} (charge : Option Debt)
    (nothing : charge = none → v ≤ (GcraParams.new quota).intervalsAt (nanos t))
    (charged : ∀ d, charge = some d → v ≤ (GcraParams.new quota).intervalsAt (nanos t) ∨
      ceilMillis (tickStart (GcraParams.new quota).limit (GcraParams.new quota).periodNs v) ≤ untilMax ∧
        millis t <
          ceilMillis (tickStart (GcraParams.new quota).limit (GcraParams.new quota).periodNs v) ∧
        fromMillis (ceilMillis (tickStart (GcraParams.new quota).limit
          (GcraParams.new quota).periodNs v)) ≤ d.until) :
    ∃ tat, charge.elim (Gcra.new quota) (KeyState.restore (Gcra.new quota) · t) =
        { tat, params := GcraParams.new quota } ∧
      v ≤ max tat ((GcraParams.new quota).intervalsAt (nanos t)) := by
  cases charge with
  | none => exact ⟨0, rfl, (nothing rfl).trans (le_max_right _ _)⟩
  | some d =>
      have restore : KeyState.restore (Gcra.new quota) d t =
          if d.until > t then (Gcra.new quota).restoreUntil d.until else Gcra.new quota := rfl
      rw [Option.elim_some, restore]
      rcases charged d rfl with gone | ⟨fits, due, late⟩
      · have enough : ∀ tat, v ≤ max tat ((GcraParams.new quota).intervalsAt (nanos t)) :=
          fun tat => gone.trans (le_max_right _ _)
        split
        · exact ⟨_, rfl, enough _⟩
        · exact ⟨_, rfl, enough _⟩
      · have ahead : t < d.until := by
          apply lt_of_lt_of_le _ late
          exact lt_fromMillis_of_millis_lt (fits.trans (by decide)) due
        rw [if_pos ahead]
        exact ⟨_, rfl, le_max_of_le_left (GcraParams.le_restore_of_due hp fits late)⟩

end Meter

theorem Gcra.isFull_snd (g : Gcra) (t : ℕ) : (KeyState.isFull g t).2 = g := rfl

theorem Gcra.recoversAt_eq (g : Gcra) (t : ℕ) :
    KeyState.recoversAt g t = ((KeyState.debt g t).1.map Debt.until, g) := rfl

/-- The meter of the leaky bucket. -/
def gcraMeter (quota : Quota) (admits : admitsAnything .leakyBucket quota = true) : Meter Gcra quota where
  Value := ℕ
  Backs history v := Metered (fun t => (GcraParams.new quota).intervalsAt (nanos t))
    ((GcraParams.new quota).tolerance + 1) v (unitsIn history)
  Tight t v g := g.params = GcraParams.new quota ∧
    v ≤ max g.tat ((GcraParams.new quota).intervalsAt (nanos t))
  Void v t := v ≤ (GcraParams.new quota).intervalsAt (nanos t)
  spent _ := 0
  dueMs v := ceilMillis (tickStart (GcraParams.new quota).limit (GcraParams.new quota).periodNs v)
  Sound t g := g.params = GcraParams.new quota →
    (GcraParams.new quota).intervalsAt (nanos t) < g.tat →
    ceilMillis (tickStart (GcraParams.new quota).limit (GcraParams.new quota).periodNs g.tat) < untilMax
  Ok t _ now := now = t ∧ (GcraParams.new quota).Unsaturated now
  OkNew _ t _ := (GcraParams.new quota).Unsaturated t
  start := ⟨0, Metered.empty _ _ _, fun _ => Nat.zero_le _⟩
  void_later h gone :=
    gone.trans (GcraParams.intervalsAt_nanos_mono (GcraParams.new_isOpen_of_admits admits) h)
  tight_later h tight := ⟨tight.1, tight.2.trans (max_le_max_left _
    (GcraParams.intervalsAt_nanos_mono (GcraParams.new_isOpen_of_admits admits) h))⟩
  sound_later h sound params ahead := sound params (lt_of_le_of_lt
    (GcraParams.intervalsAt_nanos_mono (GcraParams.new_isOpen_of_admits admits) h) ahead)
  void_of_due := GcraParams.le_intervalsAt_of_due (GcraParams.new_isOpen_of_admits admits)
  isFull_snd := Gcra.isFull_snd
  recoversAt_eq := Gcra.recoversAt_eq
  whole := by
    rintro v g t ⟨params, tight⟩ whole
    have reached : g.tat ≤ (GcraParams.new quota).intervalsAt (nanos t) := by
      apply GcraParams.le_of_debt_none (GcraParams.new_isOpen_of_admits admits)
      rw [← params]
      exact whole
    exact tight.trans (max_le reached le_rfl)
  owes := by
    rintro v g t d ⟨params, tight⟩ sound owed
    have hp := GcraParams.new_isOpen_of_admits admits
    rcases Nat.lt_or_ge ((GcraParams.new quota).intervalsAt (nanos t)) v with ahead | reached
    · right
      have arrival : v ≤ g.tat := (le_max_iff.1 tight).resolve_right (Nat.not_le_of_lt ahead)
      have fits := sound params (lt_of_lt_of_le ahead arrival)
      have peeked : ((GcraParams.new quota).peekIn g.tat t).debt t = some d := by
        rw [← params]
        exact owed
      have deadline := GcraParams.until_of_start hp (lt_of_lt_of_le ahead arrival) peeked fits
      have sooner := ceilMillis_mono (tickStart_mono hp.limit_pos hp.period_pos arrival)
      rw [deadline]
      exact ⟨Nat.zero_le _, sooner.trans fits.le, Nat.zero_le _, sooner⟩
    · exact Or.inl reached
  full := by
    rintro v g t t' ⟨params, tight⟩ h full
    have hp := GcraParams.new_isOpen_of_admits admits
    have reached : g.params.isFullIn g.tat t' = true := full
    rw [params, GcraParams.isFullIn, hp.not_closed, Bool.false_or, decide_eq_true_eq] at reached
    exact tight.trans (max_le reached (GcraParams.intervalsAt_nanos_mono hp h))
  acquire := by
    rintro history v ⟨tat, params⟩ t n now backs ⟨rfl, tight⟩ ⟨rfl, sat⟩
    obtain ⟨v', backs', tight', -⟩ :=
      gcra_acquire (GcraParams.new_isOpen_of_admits admits) sat backs tight
    exact ⟨v', backs', rfl, tight'⟩
  stored := by
    rintro history v g t n charge made sat backs nothing charged
    have hp := GcraParams.new_isOpen_of_admits admits
    obtain rfl : Gcra.new quota = g := by
      have created : (if admitsAnything .leakyBucket quota then some (Gcra.new quota) else none) =
          some g := made
      rw [if_pos admits] at created
      exact Option.some.inj created
    obtain ⟨tat, state, tight⟩ := gcra_restored hp charge nothing fun d owed =>
      (charged d owed).imp_right fun carried => ⟨carried.1, carried.2.1, carried.2.2.2⟩
    rw [state]
    obtain ⟨v', backs', tight', quiet⟩ := gcra_acquire hp sat backs tight
    refine ⟨v', backs', ⟨rfl, tight'⟩, ?_⟩
    intro fresh spentNothing
    have same : v' = v := quiet spentNothing
    rw [same]
    exact nothing fresh
  refused := by
    rintro history v t n wait - backs
    have same : unitsIn (history ++ [⟨n, t, .deny wait⟩]) = unitsIn history := by
      funext a b
      rw [unitsIn_snoc]
      simp
    refine ⟨v, ?_, Or.inl rfl⟩
    rw [same]
    exact backs

/-- A bucket whose debt has an early deadline is sound. -/
theorem gcra_sound {quota : Quota} (admits : admitsAnything .leakyBucket quota = true) {g : Gcra} {t : ℕ}
    (early : ∀ debt ∈ (KeyState.debt g t).1, ceilMillis debt.until < untilMax) :
    (gcraMeter quota admits).Sound t g := by
  intro params ahead
  have hp := GcraParams.new_isOpen_of_admits admits
  have debt_eq : (KeyState.debt g t).1 = ((GcraParams.new quota).peekIn g.tat t).debt t := by
    rw [← params]
    rfl
  rw [debt_eq] at early
  cases owed : ((GcraParams.new quota).peekIn g.tat t).debt t with
  | none => exact absurd (GcraParams.le_of_debt_none hp owed) (Nat.not_le_of_lt ahead)
  | some debt =>
      have fits := early debt owed
      rw [GcraParams.until_of_debt_some hp ahead owed fits] at fits
      exact fits

/-!
### Runs
-/

/-- The units admitted for `key` by checks at times in `[a, b]`. -/
def admittedIn {K : Type} [DecidableEq K] (trace : List (Check K × Decision)) (key : K) (a b : ℕ) : ℕ :=
  (trace.map fun entry =>
    if entry.1.key = key ∧ entry.2 = .allow ∧ a ≤ entry.1.now ∧ entry.1.now ≤ b then entry.1.n else 0).sum

theorem unitsIn_historyOf {K : Type} [DecidableEq K] (trace : List (Check K × Decision)) (key : K)
    (a b : ℕ) : unitsIn (historyOf trace key) a b = admittedIn trace key a b := by
  induction trace with
  | nil => rfl
  | cons entry rest inductionHypothesis =>
      by_cases same : entry.1.key = key
      · simp only [unitsIn, historyOf, admittedIn, List.filter_cons, same, decide_true, if_true,
          List.map_cons, List.sum_cons, true_and] at inductionHypothesis ⊢
        rw [inductionHypothesis]
      · simp only [unitsIn, historyOf, admittedIn, List.filter_cons, same, decide_false,
          Bool.false_eq_true, if_false, List.map_cons, List.sum_cons, false_and, Nat.zero_add]
          at inductionHypothesis ⊢
        exact inductionHypothesis

section Runs

variable {K : Type} [DecidableEq K] {config : StoreConfig K}

/-- After any run of checks at non-decreasing times every shard is metered, at a time no later than the
    last check. -/
theorem gcra_run_metered {quota : Quota} (admits : admitsAnything .leakyBucket quota = true)
    (keep : config.table.forget = false) {keys : K → Prop} (separate : Separate config keys)
    (checks : List (Check K)) (tracked : ∀ check ∈ checks, keys check.key)
    (ordered : (checks.map Check.now).Pairwise (· ≤ ·))
    (unsaturated : ∀ check ∈ checks, (GcraParams.new quota).Unsaturated check.now)
    (deadlines : ∀ before check rest, checks = before ++ check :: rest →
      ∀ i, ∀ slot ∈ (Store.after quota (Store.new : Store config Gcra) (before ++ [check]) i).slots,
        ∀ debt ∈ (KeyState.debt slot.state check.now).1, ceilMillis debt.until < untilMax) :
    ∃ t, (∀ bound, (∀ check ∈ checks, check.now ≤ bound) → t ≤ bound) ∧
      ∀ i, ShardMetered (gcraMeter quota admits) keys i t
        (historyOf (Store.decisions quota (Store.new : Store config Gcra) checks))
        (Store.after quota (Store.new : Store config Gcra) checks i) := by
  induction checks using List.reverseRecOn with
  | nil => exact ⟨0, fun _ _ => Nat.zero_le _, fun i => .new _ keys i 0⟩
  | append_singleton checks check inductionHypothesis =>
      rw [List.map_append, List.pairwise_append] at ordered
      obtain ⟨t, earliest, metered⟩ := inductionHypothesis
        (fun check member => tracked check (List.mem_append_left _ member)) ordered.1
        (fun check member => unsaturated check (List.mem_append_left _ member))
        (by
          intro before check' rest split
          apply deadlines before check' (rest ++ [check])
          rw [split, List.append_assoc, List.cons_append])
      have last : check ∈ checks ++ [check] := List.mem_append_right _ (List.mem_singleton.2 rfl)
      have later : t ≤ check.now := earliest check.now fun check' member =>
        ordered.2.2 _ (List.mem_map_of_mem member) _ (List.mem_singleton.2 rfl)
      have made : KeyState.create quota check.now = some (Gcra.new quota) := if_pos admits
      have sat := unsaturated check last
      have sound : ∀ slot ∈ ((Store.answer quota (Store.after quota Store.new checks) check).2
          (config.shardFor check.key)).slots, (gcraMeter quota admits).Sound check.now slot.state := by
        intro slot member
        rw [← Store.after_snoc] at member
        exact gcra_sound admits (deadlines checks check [] rfl _ slot member)
      have after := check_metered keep separate metered check (tracked check last) later made
        (fun _ => ⟨rfl, sat⟩) (fun _ => ⟨rfl, sat⟩) sound
      refine ⟨check.now, fun bound below => below check last, ?_⟩
      intro i
      rw [Store.decisions_snoc, historyOf_snoc, Store.after_snoc]
      apply (after i).later
      by_cases same : i = config.shardFor check.key
      · rw [same, Function.update_self]
      · rw [Function.update_of_ne same]
        exact later

end Runs

/-- A quota that admits nothing admits only checks of no units. -/
theorem admittedIn_closed {K : Type} [DecidableEq K] {config : StoreConfig K} {quota : Quota}
    (closed : admitsAnything .leakyBucket quota = false) (checks : List (Check K)) (key : K) (a b : ℕ) :
    admittedIn (Store.decisions quota (Store.new : Store config Gcra) checks) key a b = 0 := by
  rw [Store.decisions_unmade (create_of_shut (S := Gcra) closed)]
  induction checks with
  | nil => rfl
  | cons check rest inductionHypothesis =>
      simp only [admittedIn, List.map_cons, List.sum_cons] at inductionHypothesis ⊢
      rw [inductionHypothesis, RateNet.closed]
      by_cases none_asked : check.n = 0
      · simp [none_asked]
      · simp [none_asked]

/-- The intervals between two readings are at most the intervals between the two instants. -/
theorem intervals_between_le {p : GcraParams} (hp : p.IsOpen) {a b : ℕ} (hab : a ≤ b) (burst : ℕ) :
    burst + p.intervalsAt (nanos b) - p.intervalsAt (nanos a) ≤
      burst + b * p.limit / p.periodNs - a * p.limit / p.periodNs := by
  rw [GcraParams.intervalsAt_eq hp (nanos_le b), GcraParams.intervalsAt_eq hp (nanos_le a)]
  have ends : ticksAt p.limit p.periodNs (nanos b) ≤ b * p.limit / p.periodNs :=
    ticksAt_mono (nanos_le_self b)
  have order : a * p.limit / p.periodNs ≤ b * p.limit / p.periodNs :=
    Nat.div_le_div_right (Nat.mul_le_mul_right _ hab)
  rcases Nat.le_total a u64Max with within | beyond
  · rw [nanos_eq within]
    show burst + _ - a * p.limit / p.periodNs ≤ _
    omega
  · -- past the last representable reading the counted intervals stand still
    have still : nanos b = nanos a := by
      simp only [nanos]
      omega
    rw [still]
    omega

/-- Eviction never resets a leaky-bucket limit: whatever the capacity and the idle TTL of a store that
    forgets no debt, the units admitted for a key at times in `[a, b]` are at most the burst plus the
    intervals between `a` and `b`. -/
theorem leaky_bucket_survives_eviction {K : Type} [DecidableEq K] (hasher : K → ℕ) (shards : ℕ)
    {eviction : Eviction} (failClosed : eviction.overflow = .failClosed) (minIdle : ℕ) (quota : Quota)
    (checks : List (Check K)) (ordered : (checks.map Check.now).Pairwise (· ≤ ·))
    (unsaturated : ∀ check ∈ checks,
      (GcraParams.new quota).intervalsAt (nanos check.now) + quota.burst < 2 ^ 64)
    (deadlines : ∀ before check rest, checks = before ++ check :: rest → ∀ i,
      ∀ slot ∈ (Store.after quota
        (Store.new : Store (StoreConfig.new hasher shards eviction minIdle) Gcra)
        (before ++ [check]) i).slots,
      ∀ debt ∈ (KeyState.debt slot.state check.now).1, ceilMillis debt.until < untilMax)
    (separate : ∀ check ∈ checks, ∀ other ∈ checks, check.key ≠ other.key →
      (StoreConfig.new hasher shards eviction minIdle).shardFor check.key =
        (StoreConfig.new hasher shards eviction minIdle).shardFor other.key →
      ¬ SameDebtor (StoreConfig.new hasher shards eviction minIdle).table (hasher check.key)
        (hasher other.key))
    (key : K) {a b : ℕ} (hab : a ≤ b) :
    admittedIn (Store.decisions quota
        (Store.new : Store (StoreConfig.new hasher shards eviction minIdle) Gcra) checks) key a b ≤
      quota.burst + b * (GcraParams.new quota).limit / (GcraParams.new quota).periodNs -
        a * (GcraParams.new quota).limit / (GcraParams.new quota).periodNs := by
  cases admits : admitsAnything .leakyBucket quota with
  | false =>
      rw [admittedIn_closed admits]
      exact Nat.zero_le _
  | true =>
      have hp := GcraParams.new_isOpen_of_admits admits
      have burst := GcraParams.tolerance_add_one hp.not_closed
      have keep := StoreConfig.new_forget failClosed hasher shards minIdle
      let keys : K → Prop := fun key => ∃ check ∈ checks, check.key = key
      have apart : Separate (StoreConfig.new hasher shards eviction minIdle) keys := .of_checks separate
      obtain ⟨t, -, metered⟩ := gcra_run_metered admits keep apart checks
        (fun check member => ⟨check, member, rfl⟩) ordered
        (fun check member => by
          have room := unsaturated check member
          rw [GcraParams.Unsaturated, burst]
          simp only [u64Max]
          omega) deadlines
      rw [← unitsIn_historyOf]
      by_cases asked : keys key
      · obtain ⟨v, account⟩ := (metered _).backs asked
        have bound := Metered.bound account hab
        rw [burst] at bound
        exact bound.trans (intervals_between_le hp hab quota.burst)
      · rw [historyOf_eq_nil fun check member same => asked ⟨check, member, same⟩]
        exact Nat.zero_le _

/-- One unit per second in a store of one key.  The first key spends its unit, the second evicts it, and
    when the first returns within the second it is denied. -/
theorem leaky_bucket_survives_eviction_of_two_keys :
    let quota := Quota.perSecond 1 (by decide)
    let eviction : Eviction := { maxKeys := some 1, idleTtl := none, overflow := .failClosed }
    let store : Store (StoreConfig.new (id : ℕ → ℕ) 1 eviction 0) Gcra := Store.new
    let checks : List (Check ℕ) := [⟨1, 1, 0⟩, ⟨2, 1, 1000000⟩, ⟨1, 1, 2000000⟩]
    (Store.decisions quota store checks).map (fun entry => entry.2.isAllow) = [true, true, false] ∧
      admittedIn (Store.decisions quota store checks) 1 0 2000000 ≤ 1 := by
  intro quota eviction store checks
  refine ⟨by decide +kernel, ?_⟩
  have early : ∀ k < 3, ∀ i, ∀ slot ∈ (Store.after quota store (checks.take (k + 1)) i).slots,
      ∀ check ∈ checks[k]?, ∀ debt ∈ (KeyState.debt slot.state check.now).1,
        ceilMillis debt.until < untilMax := by decide +kernel
  have bound := leaky_bucket_survives_eviction id 1 (rfl : eviction.overflow = .failClosed) 0 quota checks
    (by decide) (by decide +kernel)
    (by
      intro before check rest split i slot member
      obtain ⟨inside, taken, found⟩ := take_of_split split
      rw [← taken] at member
      exact early before.length inside i slot member check found)
    (by decide +kernel) 1 (by decide : 0 ≤ 2000000)
  exact bound.trans (by decide +kernel)

end RateNet
