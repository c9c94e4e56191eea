/-
Module: RateNet.Proofs.FixedWindowInterleaving
Purpose: The fixed window under any interleaving. A call of `acquire` is cut at its atomic operations: the
  load of the state word, the load of `latest`, the `fetch_max` that opens a window and the weak
  compare-and-swap, which may fail spuriously. While all windows of a run lie within one turn of the
  32-bit index, the packed index names a full window, and the invariant relating the two words is that
  the state's window never passes `latest`; what a call knows about the word it loaded is stable while
  `latest` only rises.
Trusted boundary: none
Main exports: FixedCall, FixedPc, fixedProgram, heldWindow, fixed_window_never_over_admitted
-/
import RateNet.Algo.FixedWindow
import RateNet.Lib.Interleaving

namespace RateNet

open Interleaving

/-- The two atomic words. -/
structure FixedWords where
  state : ℕ
  latest : ℕ
deriving DecidableEq

/-- The arguments of one call: the units and the clock reading the caller took. -/
structure FixedCall where
  n : ℕ
  now : ℕ

/-- Where a call is.  `openedOver` is the word the call opened a window over. -/
inductive FixedPc where
  | entry
  | loadState (openedOver : Option (ℕ × ℕ))
  | loadLatest (openedOver : Option (ℕ × ℕ)) (current : ℕ)
  /-- About to publish `window` in `latest`. -/
  | publish (current window total : ℕ)
  /-- About to swap `total` in as the count of `window`. -/
  | swap (openedOver : Option (ℕ × ℕ)) (current window total : ℕ)
  /-- Done; `charged` is the window a successful swap wrote. -/
  | returned (decision : Decision) (charged : Option ℕ)
deriving DecidableEq

namespace FixedCall

variable (fw : FixedWindow) (call : FixedCall)

/-- The window of the call's own reading. -/
def ownWindow : ℕ := fw.windowOf (nanos call.now)

/-- The guards in front of the loop touch no shared word. -/
def afterGuards : FixedPc :=
  if call.n = 0 then .returned .allow none
  else if fw.denyAll ∨ call.n > fw.limit then .returned (.deny durationMax) none
  else .loadState none

/-- What the call does once it has loaded both words. -/
def afterLoads (openedOver : Option (ℕ × ℕ)) (current latest : ℕ) : FixedPc :=
  match fw.attempt call.n (nanos call.now) current latest openedOver with
  | .refuse retryAfter => .returned (.deny retryAfter) none
  | .charge window total =>
    if window > latest then .publish current window total else .swap openedOver current window total

/-- One atomic step of a call on the two words. -/
inductive Advance : FixedWords → FixedPc → FixedWords → FixedPc → Prop where
  | guards (words : FixedWords) : Advance words .entry words (call.afterGuards fw)
  | loadState (words : FixedWords) (openedOver : Option (ℕ × ℕ)) :
      Advance words (.loadState openedOver) words (.loadLatest openedOver words.state)
  | loadLatest (words : FixedWords) (openedOver : Option (ℕ × ℕ)) (current : ℕ) :
      Advance words (.loadLatest openedOver current) words
        (call.afterLoads fw openedOver current words.latest)
  | publish (words : FixedWords) (current window total : ℕ) :
      Advance words (.publish current window total)
        { words with latest := max words.latest window }
        (.swap (some (current, window)) current window total)
  | swapped (latest current window total : ℕ) (openedOver : Option (ℕ × ℕ)) :
      Advance { state := current, latest } (.swap openedOver current window total)
        { state := FixedWindow.packed window total, latest } (.returned .allow (some window))
  /-- The word changed since the load, or the weak compare-and-swap failed spuriously. -/
  | failed (words : FixedWords) (openedOver : Option (ℕ × ℕ)) (current window total : ℕ) :
      Advance words (.swap openedOver current window total) words (.loadState openedOver)

end FixedCall

/-- Every call runs `acquire` on the two shared words. -/
def fixedProgram {ι : Type*} (fw : FixedWindow) (calls : ι → FixedCall) :
    Program ι FixedWords FixedPc :=
  fun i => (calls i).Advance fw

/-- The state as created, and no call started. -/
def fixedStart {ι : Type*} (fw : FixedWindow) : Config ι FixedWords FixedPc :=
  { mem := { state := fw.state, latest := fw.latest }, loc := fun _ => .entry }

/-- Units a call at location `pc` has written into `window` by a successful swap. -/
def FixedCall.chargedTo (call : FixedCall) (window : ℕ) (pc : FixedPc) : ℕ :=
  if pc = .returned .allow (some window) then call.n else 0

/-- The units of the successful swaps that wrote `window`. -/
def fixedCharged {ι : Type*} [Fintype ι] (calls : ι → FixedCall) (c : Config ι FixedWords FixedPc)
    (window : ℕ) : ℕ :=
  ∑ i, (calls i).chargedTo window (c.loc i)

/-!
### The window a packed word names

Within one turn of the index, counted from window `base`, a packed word names exactly one full window.
-/

/-- The full window the packed index of `word` names, in the turn that starts at `base`. -/
def heldWindow (base word : ℕ) : ℕ :=
  base + ((FixedWindow.unpack word).1 + 2 ^ 32 - base % 2 ^ 32) % 2 ^ 32

def heldCount (word : ℕ) : ℕ := (FixedWindow.unpack word).2

/-- The pair held in the state word. -/
def held (base word : ℕ) : ℕ × ℕ := (heldWindow base word, heldCount word)

/-- A window of the turn that starts at `base`. -/
def InTurn (base window : ℕ) : Prop := base ≤ window ∧ window < base + 2 ^ 32

/-- Two windows of one turn with the same index are the same window. -/
theorem heldWindow_eq_iff {base word window : ℕ} (turn : InTurn base window) :
    heldWindow base word = window ↔ (FixedWindow.unpack word).1 = FixedWindow.lowBits window := by
  have index : (FixedWindow.unpack word).1 < 2 ^ 32 := Nat.mod_lt _ (Nat.two_pow_pos 32)
  obtain ⟨low, high⟩ := turn
  simp only [heldWindow, FixedWindow.lowBits]
  generalize (FixedWindow.unpack word).1 = i at index
  omega

theorem held_packed {base window total : ℕ} (turn : InTurn base window) (fits : total ≤ u32Max) :
    held base (FixedWindow.packed window total) = (window, total) := by
  have window_eq : heldWindow base (FixedWindow.packed window total) = window := by
    rw [heldWindow_eq_iff turn, FixedWindow.unpack_packed]
  have count_eq : heldCount (FixedWindow.packed window total) = total := by
    rw [heldCount, FixedWindow.unpack_packed]
    exact min_eq_left fits
  rw [held, window_eq, count_eq]

/-- The count a call reads is the word's count if the word holds the call's window, and nothing if the
    word still holds an older one. -/
theorem countIn_cases {base window current latest : ℕ} (turn : InTurn base window)
    (behind : heldWindow base current ≤ latest) (newest : latest ≤ window) :
    (heldWindow base current = window ∧
      FixedWindow.countIn window current latest = heldCount current) ∨
    (heldWindow base current < window ∧ FixedWindow.countIn window current latest = 0) := by
  unfold FixedWindow.countIn
  split
  · rename_i mine
    exact Or.inl ⟨(heldWindow_eq_iff turn).2 mine.2, rfl⟩
  · rename_i other
    refine Or.inr ⟨lt_of_le_of_ne (behind.trans newest) ?_, rfl⟩
    intro same
    apply other
    refine ⟨le_antisymm newest ?_, (heldWindow_eq_iff turn).1 same⟩
    rw [← same]
    exact behind

/-!
### What the words and the calls keep
-/

/-- The state's window never passes `latest`, and `latest` stays in the turn. -/
structure WordsGood (base : ℕ) (words : FixedWords) : Prop where
  behind : heldWindow base words.state ≤ words.latest
  inside : words.latest < base + 2 ^ 32

/-- `latest` only rises. -/
def LatestRises (words words' : FixedWords) : Prop := words.latest ≤ words'.latest

/-- The word a window was opened over held an older window. -/
def Opened (base : ℕ) (openedOver : Option (ℕ × ℕ)) : Prop :=
  ∀ current window, openedOver = some (current, window) → heldWindow base current < window

/-- A swap a call may offer against `current`: it adds to the count of the window the word holds, or opens
    a newer one with the call's own units. -/
structure Offer (base limit ownWindow n current window total : ℕ) : Prop where
  own : ownWindow ≤ window
  turn : InTurn base window
  within : total ≤ limit
  effect : (heldWindow base current = window ∧ total = heldCount current + n) ∨
    (heldWindow base current < window ∧ total = n)

/-- What a call knows at each location. -/
def FixedCall.Knows (base : ℕ) (fw : FixedWindow) (call : FixedCall) (words : FixedWords) :
    FixedPc → Prop
  | .entry => True
  | .loadState openedOver => 0 < call.n ∧ Opened base openedOver
  | .loadLatest openedOver current =>
      0 < call.n ∧ Opened base openedOver ∧ heldWindow base current ≤ words.latest
  | .publish current window total =>
      0 < call.n ∧ heldWindow base current < window ∧
        Offer base fw.limit (call.ownWindow fw) call.n current window total
  | .swap openedOver current window total =>
      0 < call.n ∧ Opened base openedOver ∧ window ≤ words.latest ∧
        Offer base fw.limit (call.ownWindow fw) call.n current window total
  | .returned decision charged => decision = .allow →
      (charged = none ∧ call.n = 0) ∨ ∃ window, charged = some window ∧ call.ownWindow fw ≤ window

section Steps

variable {base : ℕ} {fw : FixedWindow} {call : FixedCall} {words words' : FixedWords}
  {pc pc' : FixedPc}

theorem FixedCall.Knows.stable (knows : call.Knows base fw words pc)
    (rises : LatestRises words words') : call.Knows base fw words' pc := by
  cases pc with
  | loadLatest openedOver current => exact ⟨knows.1, knows.2.1, knows.2.2.trans rises⟩
  | swap openedOver current window total =>
      exact ⟨knows.1, knows.2.1, knows.2.2.1.trans rises, knows.2.2.2⟩
  | entry => exact knows
  | loadState openedOver => exact knows
  | publish current window total => exact knows
  | returned decision charged => exact knows

/-- What an iteration offers, from a state word that was not ahead of the `latest` it loaded. -/
theorem attempt_offers {current latest window total : ℕ} {openedOver : Option (ℕ × ℕ)}
    (opened : Opened base openedOver) (turn : InTurn base (call.ownWindow fw))
    (behind : heldWindow base current ≤ latest) (inside : latest < base + 2 ^ 32)
    (h : fw.attempt call.n (nanos call.now) current latest openedOver = .charge window total) :
    window = max (call.ownWindow fw) latest ∧
      Offer base fw.limit (call.ownWindow fw) call.n current window total := by
  have newest : InTurn base (max (call.ownWindow fw) latest) :=
    ⟨le_max_of_le_left turn.1, max_lt turn.2 inside⟩
  rw [FixedWindow.attempt] at h
  rw [← FixedCall.ownWindow] at h
  generalize hcount : (if openedOver = some (current, max (call.ownWindow fw) latest) then 0
    else FixedWindow.countIn (max (call.ownWindow fw) latest) current latest) = count at h
  split at h
  · cases h
  · rename_i within
    injection h with window_eq total_eq
    subst window_eq total_eq hcount
    refine ⟨rfl, le_max_left _ _, newest, Nat.le_of_not_lt within, ?_⟩
    split
    · -- the word was judged older when the window was opened over it
      rename_i remembered
      exact Or.inr ⟨opened _ _ remembered, Nat.zero_add _⟩
    · rcases countIn_cases newest behind (le_max_right _ _) with ⟨same, count⟩ | ⟨older, count⟩
      · exact Or.inl ⟨same, by rw [count]⟩
      · exact Or.inr ⟨older, by rw [count, Nat.zero_add]⟩

theorem FixedCall.knows_afterGuards (words : FixedWords) :
    call.Knows base fw words (call.afterGuards fw) := by
  unfold FixedCall.afterGuards
  split
  · rename_i zero
    exact fun _ => Or.inl ⟨rfl, zero⟩
  · rename_i nonzero
    split
    · exact fun impossible => nomatch impossible
    · exact ⟨Nat.pos_of_ne_zero nonzero, fun _ _ impossible => nomatch impossible⟩

theorem FixedCall.knows_afterLoads {openedOver : Option (ℕ × ℕ)} {current : ℕ} (positive : 0 < call.n)
    (opened : Opened base openedOver) (turn : InTurn base (call.ownWindow fw))
    (good : WordsGood base words) (behind : heldWindow base current ≤ words.latest) :
    call.Knows base fw words (call.afterLoads fw openedOver current words.latest) := by
  unfold FixedCall.afterLoads
  split
  · exact fun impossible => nomatch impossible
  · rename_i window total charge
    obtain ⟨window_eq, offer⟩ := attempt_offers opened turn behind good.inside charge
    split
    · rename_i opens
      exact ⟨positive, lt_of_le_of_lt behind opens, offer⟩
    · rename_i current_window
      exact ⟨positive, opened, Nat.le_of_not_lt current_window, offer⟩

/-- Everything one step can do: the words stay good, `latest` never falls, and the state word is either
    left alone or moved on by exactly the units of the call it admits. -/
theorem FixedCall.Advance.effect (step : call.Advance fw words pc words' pc')
    (limit_le : fw.limit ≤ u32Max) (turn : InTurn base (call.ownWindow fw))
    (good : WordsGood base words) (knows : call.Knows base fw words pc) :
    WordsGood base words' ∧ LatestRises words words' ∧ call.Knows base fw words' pc' ∧
      ((words'.state = words.state ∧ ∀ w, call.chargedTo w pc' = call.chargedTo w pc) ∨
        ∃ openedOver window total, pc = .swap openedOver words.state window total ∧
          pc' = .returned .allow (some window) ∧ held base words'.state = (window, total) ∧
          0 < call.n ∧
          Offer base fw.limit (call.ownWindow fw) call.n words.state window total) := by
  cases step with
  | guards =>
      refine ⟨good, le_rfl, call.knows_afterGuards words, Or.inl ⟨rfl, fun w => ?_⟩⟩
      unfold FixedCall.chargedTo FixedCall.afterGuards
      split
      · simp
      · split <;> simp
  | loadState openedOver =>
      exact ⟨good, le_rfl, ⟨knows.1, knows.2, good.behind⟩, Or.inl ⟨rfl, fun w => rfl⟩⟩
  | loadLatest openedOver current =>
      refine ⟨good, le_rfl, call.knows_afterLoads knows.1 knows.2.1 turn good knows.2.2,
        Or.inl ⟨rfl, fun w => ?_⟩⟩
      unfold FixedCall.chargedTo FixedCall.afterLoads
      split
      · simp
      · split <;> simp
  | publish _ current window total =>
      obtain ⟨positive, older, offer⟩ := knows
      have rises : words.latest ≤ max words.latest window := le_max_left _ _
      refine ⟨⟨good.behind.trans rises, max_lt good.inside offer.turn.2⟩, rises,
        ⟨positive, ?_, le_max_right _ _, offer⟩, Or.inl ⟨rfl, fun w => rfl⟩⟩
      intro opened window' remembered
      injection remembered with pair
      injection pair with current_eq window_eq
      rw [← current_eq, ← window_eq]
      exact older
  | swapped latest current window total openedOver =>
      obtain ⟨positive, opened, published, offer⟩ := knows
      have written := held_packed offer.turn (offer.within.trans limit_le)
      refine ⟨⟨?_, good.inside⟩, le_rfl, fun _ => Or.inr ⟨window, rfl, offer.own⟩,
        Or.inr ⟨openedOver, window, total, rfl, rfl, written, positive, offer⟩⟩
      have window_eq : heldWindow base (FixedWindow.packed window total) = window :=
        congrArg Prod.fst written
      show heldWindow base (FixedWindow.packed window total) ≤ latest
      rw [window_eq]
      exact published
  | failed openedOver current window total =>
      exact ⟨good, le_rfl, ⟨knows.1, knows.2.1⟩, Or.inl ⟨rfl, fun w => rfl⟩⟩

end Steps

/-!
### The account of every window
-/

/-- The swaps of the held window sum to the held count, no newer window has any, and none has more than
    the limit. -/
structure Accounted (base limit : ℕ) (charged : ℕ → ℕ) (word : ℕ) : Prop where
  current : charged (heldWindow base word) = heldCount word
  future : ∀ w, heldWindow base word < w → charged w = 0
  within : ∀ w, charged w ≤ limit

/-- A swap adds its units to the account of the window it writes. -/
theorem Accounted.swap {base limit ownWindow n word word' window total : ℕ} {charged charged' : ℕ → ℕ}
    (accounted : Accounted base limit charged word) (written : held base word' = (window, total))
    (offer : Offer base limit ownWindow n word window total)
    (added : ∀ w, charged' w = charged w + if w = window then n else 0) :
    Accounted base limit charged' word' := by
  have window_eq : heldWindow base word' = window := congrArg Prod.fst written
  have total_eq : heldCount word' = total := congrArg Prod.snd written
  have filled : charged' window = total := by
    rw [added, if_pos rfl]
    rcases offer.effect with ⟨same, total_eq⟩ | ⟨older, total_eq⟩
    · rw [← same, accounted.current, total_eq]
    · rw [accounted.future window older, total_eq, Nat.zero_add]
  have advanced : heldWindow base word ≤ window := by
    rcases offer.effect with ⟨same, -⟩ | ⟨older, -⟩
    · exact same.le
    · exact older.le
  refine ⟨by rw [window_eq, total_eq, filled], ?_, ?_⟩
  · intro w newer
    rw [window_eq] at newer
    rw [added, if_neg newer.ne', Nat.add_zero]
    exact accounted.future w (lt_of_le_of_lt advanced newer)
  · intro w
    by_cases mine : w = window
    · rw [mine, filled]
      exact offer.within
    · rw [added, if_neg mine, Nat.add_zero]
      exact accounted.within w

section Runs

variable {ι : Type*} [DecidableEq ι] {base : ℕ} {fw : FixedWindow} {calls : ι → FixedCall}
  (limit_le : fw.limit ≤ u32Max) (creation : held base fw.state = (fw.latest, 0))
  (inside : fw.latest < base + 2 ^ 32) (readings : ∀ i, InTurn base ((calls i).ownWindow fw))
include limit_le creation inside readings

theorem fixed_knows {c : Config ι FixedWords FixedPc}
    (reach : Reachable (fixedProgram fw calls) (fixedStart fw) c) :
    WordsGood base c.mem ∧ ∀ i, (calls i).Knows base fw c.mem (c.loc i) := by
  have start_eq : heldWindow base fw.state = fw.latest := congrArg Prod.fst creation
  apply reach.stably (WordsGood base) LatestRises (fun i => (calls i).Knows base fw)
  · exact ⟨start_eq.le, inside⟩
  · exact fun i => trivial
  · intro i words words' pc pc' good knows step
    obtain ⟨good', rises, knows', -⟩ := step.effect limit_le (readings i) good knows
    exact ⟨good', rises, knows'⟩
  · exact fun i words words' pc knows rises => knows.stable rises

/-- Every step of a run: the state word and every account stay, or one call's units go into the window
    the word then holds. -/
theorem fixed_step [Fintype ι] {c c' : Config ι FixedWords FixedPc}
    (reach : Reachable (fixedProgram fw calls) (fixedStart fw) c)
    (step : Step (fixedProgram fw calls) c c') :
    (c'.mem.state = c.mem.state ∧ ∀ w, fixedCharged calls c' w = fixedCharged calls c w) ∨
      ∃ i window total, held base c'.mem.state = (window, total) ∧ 0 < (calls i).n ∧
        Offer base fw.limit ((calls i).ownWindow fw) (calls i).n c.mem.state window total ∧
        ∀ w, fixedCharged calls c' w =
          fixedCharged calls c w + if w = window then (calls i).n else 0 := by
  obtain ⟨good, knows⟩ := fixed_knows limit_le creation inside readings reach
  cases step with
  | @thread i words' pc' step =>
      obtain ⟨-, -, -, ⟨state, quiet⟩ | ⟨openedOver, window, total, from_, to_, written, positive,
        offer⟩⟩ := step.effect limit_le (readings i) good (knows i)
      · left
        refine ⟨state, fun w => ?_⟩
        apply Finset.sum_congr rfl
        intro j _
        show (calls j).chargedTo w (Function.update c.loc i pc' j) = (calls j).chargedTo w (c.loc j)
        by_cases hji : j = i
        · subst hji
          rw [Function.update_self]
          exact quiet w
        · rw [Function.update_of_ne hji]
      · right
        refine ⟨i, window, total, written, positive, offer, fun w => ?_⟩
        have none_yet : (calls i).chargedTo w (c.loc i) = 0 := by
          rw [from_, FixedCall.chargedTo, if_neg (fun h => nomatch h)]
        have added := sum_update (fun j => (calls j).chargedTo w) c.loc i pc' none_yet
        rw [fixedCharged, fixedCharged, added, to_, FixedCall.chargedTo]
        congr 1
        by_cases mine : w = window
        · rw [if_pos mine, if_pos (by rw [mine])]
        · rw [if_neg mine, if_neg]
          intro same
          injection same with _ same
          injection same with same
          exact mine same.symm

theorem fixed_accounted [Fintype ι] {c : Config ι FixedWords FixedPc}
    (reach : Reachable (fixedProgram fw calls) (fixedStart fw) c) :
    Accounted base fw.limit (fixedCharged calls c) c.mem.state := by
  induction reach with
  | refl =>
      have none_yet : ∀ w, fixedCharged calls (fixedStart fw) w = 0 := by
        intro w
        apply Finset.sum_eq_zero
        intro i _
        exact if_neg (fun h => nomatch h)
      have count_eq : heldCount fw.state = 0 := congrArg Prod.snd creation
      refine ⟨?_, fun w _ => none_yet w, fun w => ?_⟩
      · rw [none_yet]
        exact count_eq.symm
      · rw [none_yet]
        exact Nat.zero_le _
  | tail reach₁ step inductionHypothesis =>
      rcases fixed_step limit_le creation inside readings reach₁ step with
        ⟨state, same⟩ | ⟨i, window, total, written, positive, offer, added⟩
      · rw [state, funext same]
        exact inductionHypothesis
      · exact inductionHypothesis.swap written offer added

end Runs

theorem FixedWindow.held_new {base : ℕ} (quota : Quota) {created : ℕ}
    (creation : InTurn base ((FixedWindow.new quota created).windowOf (nanos created))) :
    held base (FixedWindow.new quota created).state = ((FixedWindow.new quota created).latest, 0) := by
  have fresh := held_packed creation (Nat.zero_le u32Max)
  exact fresh

/-- Under any interleaving of any calls, late readings included, the units swapped into any one window sum
    to at most the limit, an admitted call is charged to a window not older than its own reading's, and
    the pair in the state word strictly increases with every swap. -/
theorem fixed_window_never_over_admitted {ι : Type*} [Fintype ι] [DecidableEq ι] (quota : Quota)
    (created base : ℕ) (calls : ι → FixedCall)
    (creation : InTurn base ((FixedWindow.new quota created).windowOf (nanos created)))
    (readings : ∀ i, InTurn base ((calls i).ownWindow (.new quota created)))
    {c : Config ι FixedWords FixedPc}
    (reach : Reachable (fixedProgram (.new quota created) calls) (fixedStart (.new quota created)) c) :
    (∀ w, fixedCharged calls c w ≤ quota.limit) ∧
    (∀ i charged, c.loc i = .returned .allow charged → (charged = none ∧ (calls i).n = 0) ∨
      ∃ w, charged = some w ∧ (calls i).ownWindow (.new quota created) ≤ w) ∧
    ∀ c', Step (fixedProgram (.new quota created) calls) c c' →
      (c'.mem.state = c.mem.state ∧ ∀ w, fixedCharged calls c' w = fixedCharged calls c w) ∨
      Prod.Lex (· < ·) (· < ·) (held base c.mem.state) (held base c'.mem.state) := by
  have fresh := FixedWindow.held_new quota creation
  have limit_le : (FixedWindow.new quota created).limit ≤ u32Max := quota.limit_le
  refine ⟨?_, ?_, ?_⟩
  · exact (fixed_accounted limit_le fresh creation.2 readings reach).within
  · intro i charged returned
    have knows := (fixed_knows limit_le fresh creation.2 readings reach).2 i
    rw [returned] at knows
    exact knows rfl
  · intro c' step
    rcases fixed_step limit_le fresh creation.2 readings reach step with
      quiet | ⟨i, window, total, written, positive, offer, -⟩
    · exact Or.inl quiet
    · right
      rw [written, held]
      rcases offer.effect with ⟨same, total_eq⟩ | ⟨older, -⟩
      · rw [same, total_eq]
        exact Prod.Lex.right _ (Nat.lt_add_of_pos_right positive)
      · exact Prod.Lex.left _ _ older

/-- The step a call takes when its swap succeeds whenever it can; a call that has returned waits. -/
def FixedCall.next (fw : FixedWindow) (call : FixedCall) (words : FixedWords) : FixedPc → FixedWords × FixedPc
  | .entry => (words, call.afterGuards fw)
  | .loadState openedOver => (words, .loadLatest openedOver words.state)
  | .loadLatest openedOver current => (words, call.afterLoads fw openedOver current words.latest)
  | .publish current window total =>
      ({ words with latest := max words.latest window }, .swap (some (current, window)) current window total)
  | .swap openedOver current window total =>
      if words.state = current then
        ({ words with state := FixedWindow.packed window total }, .returned .allow (some window))
      else (words, .loadState openedOver)
  | .returned decision charged => (words, .returned decision charged)

theorem FixedCall.next_sound (fw : FixedWindow) (call : FixedCall) (words : FixedWords) (pc : FixedPc) :
    (∃ decision charged, pc = .returned decision charged) ∨
      call.Advance fw words pc (call.next fw words pc).1 (call.next fw words pc).2 := by
  cases pc with
  | entry => exact Or.inr (.guards words)
  | loadState openedOver => exact Or.inr (.loadState words openedOver)
  | loadLatest openedOver current => exact Or.inr (.loadLatest words openedOver current)
  | publish current window total => exact Or.inr (.publish words current window total)
  | swap openedOver current window total =>
      right
      rw [FixedCall.next]
      split
      · rename_i unchanged
        obtain ⟨state, latest⟩ := words
        obtain rfl : state = current := unchanged
        exact .swapped latest state window total openedOver
      · exact .failed words openedOver current window total
  | returned decision charged => exact Or.inl ⟨decision, charged, rfl⟩

/-- Two calls of one unit on a limit of one load the state created in window 0. The first opens window 1 over it
    and is granted; the second, late, fails to swap, loads again, finds window 1 open and full, and is refused. -/
theorem fixed_window_never_over_admitted_two_calls :
    let quota := Quota.perSecond 1 (by decide)
    let fw := FixedWindow.new quota 0
    let calls : Fin 2 → FixedCall := fun i => { n := 1, now := if i = 0 then 1500000000 else 0 }
    let c := runSchedule (fun i => (calls i).next fw) [0, 1, 0, 1, 0, 1, 0, 0, 1, 1, 1] (fixedStart fw)
    c.loc 0 = .returned .allow (some 1) ∧ c.loc 1 = .returned (.deny 2000000000) none ∧
      fixedCharged calls c 1 = 1 ∧ fixedCharged calls c 1 ≤ 1 := by
  intro quota fw calls c
  have reach : Reachable (fixedProgram fw calls) (fixedStart fw) c :=
    Reachable.schedule (fun i words pc => ((calls i).next_sound fw words pc).imp_left
      fun ⟨_, _, returned⟩ => by rw [returned]; rfl) _ _
  refine ⟨by decide, by decide, by decide, ?_⟩
  have readings : ∀ i, InTurn 0 ((calls i).ownWindow fw) := by
    unfold InTurn
    decide
  exact (fixed_window_never_over_admitted quota 0 0 calls ⟨by decide, by decide⟩ readings reach).1 1

/-!
### A call alone

With no other thread on the words, a call that returns has computed `acquire`, whatever spurious failures
it met.  A failure after the window was published is the one place where `openedOver` is needed: the
words then differ from the ones the call started from.
-/

section Alone

variable {fw : FixedWindow} {call : FixedCall}

/-- The call has published `window`, having judged the state word older. -/
def FixedCall.Publishing (fw : FixedWindow) (call : FixedCall) (window total : ℕ) : Prop :=
  fw.attempt call.n (nanos call.now) fw.state fw.latest none = .charge window total ∧
    fw.latest < window

/-- The words as the call found them, or with its window published. -/
def FixedCall.Midway (fw : FixedWindow) (call : FixedCall) (words : FixedWords)
    (openedOver : Option (ℕ × ℕ)) : Prop :=
  words.state = fw.state ∧ call.afterGuards fw = .loadState none ∧
    ((words.latest = fw.latest ∧ openedOver = none) ∨
      ∃ window total, call.Publishing fw window total ∧ words.latest = window ∧
        openedOver = some (fw.state, window))

/-- Where a call alone on the words can be. -/
def FixedCall.AloneAt (fw : FixedWindow) (call : FixedCall) : FixedWords × FixedPc → Prop
  | (words, .entry) => words = { state := fw.state, latest := fw.latest }
  | (words, .loadState openedOver) => call.Midway fw words openedOver
  | (words, .loadLatest openedOver current) => call.Midway fw words openedOver ∧ current = fw.state
  | (words, .publish current window total) => call.Midway fw words none ∧ current = fw.state ∧
      words.latest = fw.latest ∧ call.Publishing fw window total
  | (words, .swap openedOver current window total) => call.Midway fw words openedOver ∧
      current = fw.state ∧
      fw.attempt call.n (nanos call.now) fw.state fw.latest none = .charge window total ∧
      words.latest = max fw.latest window
  | (words, .returned decision _) => fw.acquire call.n call.now =
      (decision, { fw with state := words.state, latest := words.latest })

theorem FixedCall.acquire_of_afterGuards (h : call.afterGuards fw = .loadState none) :
    fw.acquire call.n call.now =
      match fw.attempt call.n (nanos call.now) fw.state fw.latest none with
      | .charge window total =>
        (.allow, { fw with state := FixedWindow.packed window total, latest := max fw.latest window })
      | .refuse retryAfter => (.deny retryAfter, fw) := by
  unfold FixedCall.afterGuards at h
  split at h
  · cases h
  · split at h
    · cases h
    · rename_i nonzero guard
      exact (if_neg nonzero).trans (if_neg guard)

/-- Retrying over the word the window was opened over offers the same swap. -/
theorem FixedCall.Publishing.retry {window total : ℕ} (publishing : call.Publishing fw window total) :
    fw.attempt call.n (nanos call.now) fw.state window (some (fw.state, window)) =
      .charge window total := by
  obtain ⟨attempt, newer⟩ := publishing
  simp only [FixedWindow.attempt, reduceCtorEq, if_false] at attempt
  split at attempt
  · cases attempt
  · rename_i within
    injection attempt with window_eq total_eq
    have stays : max (fw.windowOf (nanos call.now)) window = window := by
      rw [← window_eq]
      exact max_eq_right (le_max_left _ _)
    have nothing : FixedWindow.countIn window fw.state fw.latest = 0 :=
      if_neg fun held => newer.ne held.1
    rw [total_eq] at within
    rw [window_eq, nothing] at total_eq
    simp only [FixedWindow.attempt, stays, if_true, total_eq, if_neg within]

theorem FixedCall.aloneAt_afterLoads {words : FixedWords} {openedOver : Option (ℕ × ℕ)}
    (midway : call.Midway fw words openedOver) :
    call.AloneAt fw (words, call.afterLoads fw openedOver fw.state words.latest) := by
  obtain ⟨state_eq, guards, ⟨latest_eq, rfl⟩ | ⟨window, total, publishing, latest_eq, rfl⟩⟩ := midway
  · have value := FixedCall.acquire_of_afterGuards guards
    have midway : call.Midway fw words none := ⟨state_eq, guards, Or.inl ⟨latest_eq, rfl⟩⟩
    unfold FixedCall.afterLoads
    rw [latest_eq]
    split
    · rename_i retryAfter attempt
      rw [attempt] at value
      show fw.acquire call.n call.now = _
      rw [value, state_eq, latest_eq]
    · rename_i window total attempt
      split
      · rename_i newer
        exact ⟨midway, rfl, latest_eq, attempt, newer⟩
      · rename_i current
        refine ⟨midway, rfl, attempt, ?_⟩
        rw [latest_eq, max_eq_left (Nat.le_of_not_lt current)]
  · have midway : call.Midway fw words (some (fw.state, window)) :=
      ⟨state_eq, guards, Or.inr ⟨window, total, publishing, latest_eq, rfl⟩⟩
    have retry := publishing.retry
    unfold FixedCall.afterLoads
    rw [latest_eq, retry]
    dsimp only
    rw [if_neg (lt_irrefl window)]
    refine ⟨midway, rfl, publishing.1, ?_⟩
    rw [latest_eq, max_eq_right publishing.2.le]

/-- One step of a call alone stays where a call alone can be. -/
theorem FixedCall.AloneAt.step {words words' : FixedWords} {pc pc' : FixedPc}
    (here : call.AloneAt fw (words, pc)) (step : call.Advance fw words pc words' pc') :
    call.AloneAt fw (words', pc') := by
  cases step with
  | guards =>
      obtain rfl : words = { state := fw.state, latest := fw.latest } := here
      by_cases loads : call.afterGuards fw = .loadState none
      · rw [loads]
        exact ⟨rfl, loads, Or.inl ⟨rfl, rfl⟩⟩
      · unfold FixedCall.afterGuards at loads ⊢
        split
        · rename_i zero
          exact if_pos zero
        · rename_i nonzero
          rw [if_neg nonzero] at loads
          split
          · rename_i guard
            exact (if_neg nonzero).trans (if_pos guard)
          · rename_i guard
            exact absurd (if_neg guard) loads
  | loadState openedOver => exact ⟨here, here.1⟩
  | loadLatest openedOver current =>
      obtain ⟨midway, rfl⟩ := here
      exact FixedCall.aloneAt_afterLoads midway
  | publish _ current window total =>
      obtain ⟨⟨state_eq, guards, -⟩, rfl, latest_eq, publishing⟩ := here
      have raised : max words.latest window = window := by
        rw [latest_eq]
        exact max_eq_right publishing.2.le
      refine ⟨⟨state_eq, guards, Or.inr ⟨window, total, publishing, raised, rfl⟩⟩, rfl,
        publishing.1, ?_⟩
      rw [latest_eq]
  | swapped latest current window total openedOver =>
      obtain ⟨⟨-, guards, -⟩, rfl, attempt, latest_eq⟩ := here
      have value := FixedCall.acquire_of_afterGuards guards
      rw [attempt] at value
      obtain rfl : latest = max fw.latest window := latest_eq
      exact value
  | failed openedOver current window total => exact here.1

/-- A call alone on its words that returns has computed the sequential `acquire`. -/
theorem fixed_alone {words : FixedWords} {decision : Decision} {charged : Option ℕ}
    (run : Relation.ReflTransGen
      (fun x y : FixedWords × FixedPc => call.Advance fw x.1 x.2 y.1 y.2)
      ({ state := fw.state, latest := fw.latest }, .entry) (words, .returned decision charged)) :
    fw.acquire call.n call.now =
      (decision, { fw with state := words.state, latest := words.latest }) := by
  have reached : call.AloneAt fw (words, .returned decision charged) := by
    generalize (words, FixedPc.returned decision charged) = target at run
    induction run with
    | refl => exact (rfl : FixedWords.mk fw.state fw.latest = _)
    | tail _ step inductionHypothesis => exact inductionHypothesis.step step
  exact reached

end Alone

end RateNet
