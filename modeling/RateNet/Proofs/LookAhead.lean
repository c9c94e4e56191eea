/-
Module: RateNet.Proofs.LookAhead
Purpose: The sliding windows in an unbounded store. The recovery hint of a new key is read from its state at
  the next millisecond boundary, and reading a sliding state ages it, so a key can be stored with a state
  aged past the check that made it: its only record gone, or its count moved into the next window. Where
  the boundary leaves the state of each first check as it is, the store answers every check as a
  standalone state does.
Trusted boundary: none
Main exports: Reference.decisions, StoresUndisturbed, AgesAlike, SlidingLog.Undisturbed,
  SlidingCounter.Undisturbed, sliding_windows_run_alone, look_ahead_changes_decisions
-/
import RateNet.Proofs.UnboundedStore
import RateNet.Proofs.RecoveredKeys

namespace RateNet

/-!
### Runs of checks
-/

section Decisions

variable {K S : Type} [DecidableEq K] [KeyState S] {config : StoreConfig K}

/-- The decisions of a sequence of checks, each made by its key's standalone state. -/
def Reference.decisions (quota : Quota) : Reference K S → List (Check K) → List (Check K × Decision)
  | _, [] => []
  | ref, check :: rest =>
    (check, (ref.check (fun _ => quota) check.key check.n check.now).1) ::
      decisions quota (ref.check (fun _ => quota) check.key check.n check.now).2 rest

/-- A check that stores its key finds its shard with room, and meets `Good`. -/
def StoresUndisturbed (Good : Quota → ℕ → ℕ → Prop) (quota : Quota) (store : Store config S) (check : Check K) :
    Prop :=
  store.tracks check.key = false → Good quota check.n check.now ∧
    (store (config.shardFor check.key)).slots.length < config.perShardCap

instance (Good : Quota → ℕ → ℕ → Prop) [∀ quota n now, Decidable (Good quota n now)] (quota : Quota)
    (store : Store config S) (check : Check K) : Decidable (StoresUndisturbed Good quota store check) :=
  inferInstanceAs (Decidable (_ → _))

variable {quota : Quota} {Good : Quota → ℕ → ℕ → Prop} {Rel : Quota → ℕ → Option S → Option S → Prop}

/-- A store that mirrors the standalone states decides as they do. -/
theorem Mirrors.decisions_eq (mirroring : Mirroring Good Rel) (unlimited : config.idleTtlMs = none) {now : ℕ}
    {store : Store config S} {ref : Reference K S} {checks : List (Check K)}
    (mirrors : Mirrors Rel (fun _ => quota) now store ref) (onward : ∀ check ∈ checks, now ≤ check.now)
    (ordered : checks.Pairwise fun earlier later => earlier.now ≤ later.now)
    (undisturbed : Runs.Along (fun before check =>
      StoresUndisturbed Good quota (store.after quota before) check) checks) :
    store.decisions quota checks = ref.decisions quota checks := by
  induction checks generalizing now store ref with
  | nil => rfl
  | cons check rest inductionHypothesis =>
      obtain ⟨here, -⟩ := List.forall_mem_cons.1 onward
      obtain ⟨first, ordered⟩ := List.pairwise_cons.1 ordered
      obtain ⟨meets, undisturbed⟩ := Runs.along_cons.1 undisturbed
      obtain ⟨decision, next⟩ := mirrors.check mirroring unlimited here meets
      have rest_eq := inductionHypothesis next first ordered undisturbed
      exact congrArg₂ List.cons (congrArg (Prod.mk check) decision) rest_eq

end Decisions

/-!
### States that age as they are read
-/

section Ageing

variable {S : Type} [KeyState S] [LawfulKeyState S] {quota : Quota}

/-- Both absent, or both reached by `now` and the same once they are read there. -/
def AgesAlike (quota : Quota) (now : ℕ) : Option S → Option S → Prop
  | none, none => True
  | some s, some s' => KeyState.ReadBy quota now s ∧ KeyState.ReadBy quota now s' ∧
      (KeyState.peek s now).2 = (KeyState.peek s' now).2
  | _, _ => False

/-- States that read alike mirror each other, where a read only ages a state and a check judges the aged state. -/
theorem AgesAlike.mirroring {Good : Quota → ℕ → ℕ → Prop}
    (peek_peek : ∀ {quota now later} {s : S}, LawfulKeyState.Under quota s → now ≤ later →
      (KeyState.peek (KeyState.peek s now).2 later).2 = (KeyState.peek s later).2)
    (acquire_congr : ∀ {quota now} {s s' : S} (n), KeyState.ReadBy quota now s → KeyState.ReadBy quota now s' →
      (KeyState.peek s now).2 = (KeyState.peek s' now).2 →
      (KeyState.acquire s n now).1 = (KeyState.acquire s' n now).1 ∧
        ((KeyState.acquire s n now).2 = (KeyState.acquire s' n now).2 ∨
          (KeyState.acquire s n now).2 = s ∧ (KeyState.acquire s' n now).2 = s'))
    (still : ∀ {quota n now} {s : S}, KeyState.create quota now = some s → Good quota n now → 1 ≤ n →
      n ≤ capacity (LawfulKeyState.algorithm S) quota →
      (KeyState.peek (KeyState.acquire s n now).2 (fromMillis (satAdd (millis now) 1))).2 =
        (KeyState.acquire s n now).2) :
    Mirroring Good (AgesAlike : Quota → ℕ → Option S → Option S → Prop) where
  unseen _ _ := trivial
  later := by
    intro quota now later held own order alike
    match held, own, alike with
    | none, none, _ => trivial
    | some s, some s', ⟨read, read', same⟩ =>
        refine ⟨read.of_le order, read'.of_le order, ?_⟩
        rw [← peek_peek read.under order, ← peek_peek read'.under order, same]
  refused := by
    intro quota now own alike _
    match own, alike with
    | none, _ => rfl
  stored := by
    intro quota now own s n alike
    match own, alike with
    | some s', ⟨read, read', same⟩ =>
        obtain ⟨decision, states⟩ := acquire_congr n read read' same
        refine ⟨s', rfl, decision, read.acquire n, read'.acquire n, ?_⟩
        rcases states with equal | ⟨kept, kept'⟩
        · rw [equal]
        · rw [kept, kept']
          exact same
  admitted := by
    intro quota now n own s alike made good
    match own, alike with
    | none, _ =>
        have read : KeyState.ReadBy quota now (KeyState.acquire s n now).2 :=
          KeyState.ReadBy.acquire ⟨now, le_rfl, .create made⟩ n
        refine ⟨rfl, ?_⟩
        have quiet : n = 0 ∨ (KeyState.acquire s n now).1.isDeny = true ∨
            (KeyState.peek (KeyState.acquire s n now).2 (fromMillis (satAdd (millis now) 1))).2 =
              (KeyState.acquire s n now).2 := by
          rcases Nat.eq_zero_or_pos n with nothing | asked
          · exact Or.inl nothing
          rcases Nat.lt_or_ge (capacity (LawfulKeyState.algorithm S) quota) n with impossible | possible
          · right
            left
            rw [LawfulKeyState.acquire_impossible now (LawfulKeyState.create_under made) impossible]
            rfl
          · exact Or.inr (Or.inr (still made good asked possible))
        rcases firstState_eq quiet with kept | reread
        · rw [kept]
          exact ⟨read, read, rfl⟩
        · rw [reread]
          exact ⟨read.peek, read, peek_peek read.under le_rfl⟩

end Ageing

theorem nanos_le_boundary (now : ℕ) : nanos now ≤ nanos (fromMillis (satAdd (millis now) 1)) := by
  simp only [nanos, fromMillis, satAdd, millis, nanosPerMilli, u64Max]
  omega

/-!
### The sliding log
-/

namespace SlidingLog

variable {quota : Quota} {sl sl' : SlidingLog} {n now : ℕ}

/-- A first check of `n` units that admits nothing, or whose record is still in the window at the next
    millisecond boundary. -/
def Undisturbed (quota : Quota) (n now : ℕ) : Prop :=
  n = 0 ∨ quota.limit < n ∨
    nanos (fromMillis (satAdd (millis now) 1)) < satAdd (nanos now) (nanos quota.period)

instance (quota : Quota) (n now : ℕ) : Decidable (Undisturbed quota n now) :=
  inferInstanceAs (Decidable (_ ∨ _))

/-- Logs that are the same once aged, and judge a check at the same instant, make one decision. -/
theorem acquire_congr (aged : sl.aged now = sl'.aged now)
    (instants : sl.log.instant (nanos now) = sl'.log.instant (nanos now)) :
    (sl.acquire n now).1 = (sl'.acquire n now).1 ∧
      ((sl.acquire n now).2 = (sl'.acquire n now).2 ∨
        (sl.acquire n now).2 = sl ∧ (sl'.acquire n now).2 = sl') := by
  obtain ⟨log, periodNs, limit⟩ := sl
  obtain ⟨log', periodNs', limit'⟩ := sl'
  obtain ⟨logs, rfl, rfl⟩ := SlidingLog.mk.injEq _ _ _ _ _ _ ▸ aged
  simp only at logs instants
  simp only [acquire, logs, instants]
  split
  · exact ⟨rfl, Or.inr ⟨rfl, rfl⟩⟩
  · split
    · exact ⟨rfl, Or.inr ⟨rfl, rfl⟩⟩
    · exact ⟨rfl, Or.inl rfl⟩

theorem ReadBy.instant_eq (read : KeyState.ReadBy quota now sl) : sl.log.instant (nanos now) = nanos now := by
  obtain ⟨last, before, reached⟩ := read
  refine le_antisymm (Log.instant_le (fun run member => ?_) le_rfl) (sl.log.le_instant _)
  exact (runs_le_of_reached reached run member).trans (nanos_mono before)

/-- A lone record still in the window at a later reading is left there. -/
theorem aged_of_live {record later : ℕ} (empty : sl.log.runs = []) (order : nanos record ≤ nanos later)
    (live : nanos later < satAdd (nanos record) sl.periodNs) :
    ({ sl with log := sl.log.record n (nanos record) } : SlidingLog).aged later =
      { sl with log := sl.log.record n (nanos record) } := by
  have recorded : sl.log.record n (nanos record) =
      ⟨[⟨nanos record, satAdd sl.log.total n⟩], sl.log.expiredTotal⟩ := by
    rw [Log.record, empty]
    rfl
  rw [recorded]
  have instant : (Log.mk [⟨nanos record, satAdd sl.log.total n⟩] sl.log.expiredTotal).instant (nanos later) =
      nanos later := max_eq_right order
  simp only [aged, Log.expireAt, instant, Log.expire, if_pos live]

theorem undisturbed (made : KeyState.create quota now = some sl) (good : Undisturbed quota n now) (asked : 1 ≤ n)
    (possible : n ≤ quota.limit) :
    (KeyState.peek (KeyState.acquire sl n now).2 (fromMillis (satAdd (millis now) 1))).2 =
      (KeyState.acquire sl n now).2 := by
  have under : sl.Under quota := LawfulKeyState.create_under made
  obtain ⟨admits, rfl⟩ := Option.ite_some_none_eq_some.1 made
  have live : nanos (fromMillis (satAdd (millis now) 1)) < satAdd (nanos now) (nanos quota.period) :=
    (good.resolve_left (by omega)).resolve_left (by omega)
  have unused : (SlidingLog.new quota).usedAt now = 0 := rfl
  have kept := under.acquire n now
  show (((SlidingLog.new quota).acquire n now).2.peek _).2 = ((SlidingLog.new quota).acquire n now).2
  rw [peek_eq kept, acquire_fits under asked (by omega)]
  exact aged_of_live rfl (nanos_le_boundary now) live

theorem mirroring : Mirroring Undisturbed (AgesAlike : Quota → ℕ → Option SlidingLog → Option SlidingLog → Prop) := by
  refine AgesAlike.mirroring ?_ ?_ undisturbed
  · intro quota now later sl under order
    have under : sl.Under quota := under
    show ((sl.peek now).2.peek later).2 = (sl.peek later).2
    rw [peek_eq under, peek_eq under, peek_eq (under.aged now), aged_aged, max_eq_right order]
  · intro quota now sl sl' n read read' same
    have under : sl.Under quota := read.under
    have under' : sl'.Under quota := read'.under
    have same : (sl.peek now).2 = (sl'.peek now).2 := same
    rw [peek_eq under, peek_eq under'] at same
    exact acquire_congr same ((ReadBy.instant_eq read).trans (ReadBy.instant_eq read').symm)

end SlidingLog

/-!
### The sliding counter
-/

namespace SlidingCounter

variable {quota : Quota} {sc sc' : SlidingCounter} {n now : ℕ}

/-- A first check of `n` units that admits nothing, or after which the next millisecond boundary is in the same
    window. -/
def Undisturbed (quota : Quota) (n now : ℕ) : Prop :=
  n = 0 ∨ quota.limit < n ∨
    nanos (fromMillis (satAdd (millis now) 1)) / nanos quota.period = nanos now / nanos quota.period

instance (quota : Quota) (n now : ℕ) : Decidable (Undisturbed quota n now) :=
  inferInstanceAs (Decidable (_ ∨ _))

theorem ReadBy.instant_eq (read : KeyState.ReadBy quota now sc) : sc.instant (nanos now) = nanos now := by
  obtain ⟨last, before, reached⟩ := read
  have under : sc.Under quota := reached.under
  have rolled := (window_le_of_reached reached).trans (Nat.div_le_div_right (nanos_mono before))
  exact (under.windowAt_eq rolled).2

theorem undisturbed (made : KeyState.create quota now = some sc) (good : Undisturbed quota n now) (asked : 1 ≤ n)
    (possible : n ≤ quota.limit) :
    (KeyState.peek (KeyState.acquire sc n now).2 (fromMillis (satAdd (millis now) 1))).2 =
      (KeyState.acquire sc n now).2 := by
  have under : sc.Under quota := LawfulKeyState.create_under made
  obtain ⟨admits, rfl⟩ := Option.ite_some_none_eq_some.1 made
  have window : nanos (fromMillis (satAdd (millis now) 1)) / nanos quota.period = nanos now / nanos quota.period :=
    (good.resolve_left (by omega)).resolve_left (by omega)
  have empty : (SlidingCounter.new quota now).load now = 0 := under.load_of_empty rfl rfl now
  have fits : n ≤ (SlidingCounter.new quota now).remainingAt now := by
    rw [(remainingAt_eq_limit under now).2 empty]
    exact possible
  have kept := under.acquire n now
  have counted : ((SlidingCounter.new quota now).acquire n now).2.window = nanos now / nanos quota.period := by
    rw [(acquire_fits under asked fits).1]
    show ((SlidingCounter.new quota now).aged now).window = _
    rw [under.aged_window]
    exact max_self _
  show (((SlidingCounter.new quota now).acquire n now).2.peek _).2 = ((SlidingCounter.new quota now).acquire n now).2
  rw [peek_eq kept, kept.aged_eq, if_pos]
  rw [windowAt, kept.period, counted, window, max_self]

theorem mirroring :
    Mirroring Undisturbed (AgesAlike : Quota → ℕ → Option SlidingCounter → Option SlidingCounter → Prop) := by
  refine AgesAlike.mirroring ?_ ?_ undisturbed
  · intro quota now later sc under order
    have under : sc.Under quota := under
    show ((sc.peek now).2.peek later).2 = (sc.peek later).2
    rw [peek_eq under, peek_eq under, peek_eq (under.aged now), under.aged_aged, max_eq_right order]
  · intro quota now sc sc' n read read' same
    have under : sc.Under quota := read.under
    have under' : sc'.Under quota := read'.under
    have same : (sc.peek now).2 = (sc'.peek now).2 := same
    rw [peek_eq under, peek_eq under'] at same
    refine acquire_congr (under.limit.trans under'.limit.symm) (under.period.trans under'.period.symm) ?_
    rw [roll_eq, roll_eq, ReadBy.instant_eq read, ReadBy.instant_eq read', under.period, under'.period]
    exact congrArg _ same

end SlidingCounter

/-!
### The unbounded store
-/

/-- Every first check leaves its key a state the next millisecond boundary does not change, and room for the key:
    then an unbounded store of sliding windows makes the decisions of standalone states, each made at its key's
    first check and driven by its key's checks alone. -/
theorem sliding_windows_run_alone {K : Type} [DecidableEq K] (hasher : K → ℕ) (shards minIdle : ℕ) (quota : Quota)
    (checks : List (Check K)) (ordered : checks.Pairwise fun earlier later => earlier.now ≤ later.now) :
    (Runs.Along (fun before check => StoresUndisturbed SlidingLog.Undisturbed quota
        (Store.after quota
          (Store.new : Store (StoreConfig.new hasher shards .unbounded minIdle) SlidingLog) before) check) checks →
      Store.decisions quota
          (Store.new : Store (StoreConfig.new hasher shards .unbounded minIdle) SlidingLog) checks =
        Reference.decisions quota (Reference.new : Reference K SlidingLog) checks) ∧
    (Runs.Along (fun before check => StoresUndisturbed SlidingCounter.Undisturbed quota
        (Store.after quota
          (Store.new : Store (StoreConfig.new hasher shards .unbounded minIdle) SlidingCounter) before) check)
        checks →
      Store.decisions quota
          (Store.new : Store (StoreConfig.new hasher shards .unbounded minIdle) SlidingCounter) checks =
        Reference.decisions quota (Reference.new : Reference K SlidingCounter) checks) := by
  constructor
  · intro undisturbed
    exact (Mirrors.new SlidingLog.mirroring _).decisions_eq SlidingLog.mirroring rfl
      (fun _ _ => Nat.zero_le _) ordered undisturbed
  · intro undisturbed
    exact (Mirrors.new SlidingCounter.mirroring _).decisions_eq SlidingCounter.mirroring rfl
      (fun _ _ => Nat.zero_le _) ordered undisturbed

theorem sliding_windows_run_alone_at_two_per_second :
    Store.decisions (.perSecond 2 (by decide))
        (Store.new : Store (StoreConfig.new (fun _ : Bool => 0) 1 .unbounded 0) SlidingLog)
        [⟨true, 1, 0⟩, ⟨false, 2, 100000⟩, ⟨true, 1, 200000⟩, ⟨true, 1, 300000⟩] =
      Reference.decisions (.perSecond 2 (by decide)) (Reference.new : Reference Bool SlidingLog)
        [⟨true, 1, 0⟩, ⟨false, 2, 100000⟩, ⟨true, 1, 200000⟩, ⟨true, 1, 300000⟩] ∧
    Store.decisions (.perSecond 2 (by decide))
        (Store.new : Store (StoreConfig.new (fun _ : Bool => 0) 1 .unbounded 0) SlidingCounter)
        [⟨true, 1, 0⟩, ⟨false, 2, 100000⟩, ⟨true, 1, 200000⟩, ⟨true, 1, 300000⟩] =
      Reference.decisions (.perSecond 2 (by decide)) (Reference.new : Reference Bool SlidingCounter)
        [⟨true, 1, 0⟩, ⟨false, 2, 100000⟩, ⟨true, 1, 200000⟩, ⟨true, 1, 300000⟩] :=
  ⟨(sliding_windows_run_alone (fun _ : Bool => 0) 1 0 (.perSecond 2 (by decide))
      [⟨true, 1, 0⟩, ⟨false, 2, 100000⟩, ⟨true, 1, 200000⟩, ⟨true, 1, 300000⟩] (by decide)).1
      (by decide +kernel),
    (sliding_windows_run_alone (fun _ : Bool => 0) 1 0 (.perSecond 2 (by decide))
      [⟨true, 1, 0⟩, ⟨false, 2, 100000⟩, ⟨true, 1, 200000⟩, ⟨true, 1, 300000⟩] (by decide)).2
      (by decide +kernel)⟩

/-- One unit per tenth of a millisecond. -/
def unitPerTenthMilli : Quota := { unitPerNano with period := 100000, period_le := by decide }

/-- The boundary changes decisions.  A log of a tenth of a millisecond loses its first record at once, so the store
    admits a second unit within the window.  A counter first checked in the last millisecond of its window is
    stored in the next one, which then counts the unit admitted after it: the store denies, at 1.6 seconds, what
    the standalone counter admits. -/
theorem look_ahead_changes_decisions :
    ((Store.decisions unitPerTenthMilli
        (Store.new : Store (StoreConfig.new (fun _ : Unit => 0) 1 .unbounded 0) SlidingLog)
        [⟨(), 1, 0⟩, ⟨(), 1, 50000⟩]).map Prod.snd = [.allow, .allow] ∧
      (Reference.decisions unitPerTenthMilli (Reference.new : Reference Unit SlidingLog)
        [⟨(), 1, 0⟩, ⟨(), 1, 50000⟩]).map Prod.snd = [.allow, .deny 50000]) ∧
    (Store.decisions (.perSecond 2 (by decide))
        (Store.new : Store (StoreConfig.new (fun _ : Unit => 0) 1 .unbounded 0) SlidingCounter)
        [⟨(), 1, 999500000⟩, ⟨(), 1, 999700000⟩, ⟨(), 1, 1600000000⟩]).map Prod.snd =
      [.allow, .allow, .deny 400000000] ∧
    (Reference.decisions (.perSecond 2 (by decide)) (Reference.new : Reference Unit SlidingCounter)
        [⟨(), 1, 999500000⟩, ⟨(), 1, 999700000⟩, ⟨(), 1, 1600000000⟩]).map Prod.snd =
      [.allow, .allow, .allow] := by
  decide +kernel

end RateNet
