/-
Module: RateNet.Proofs.FixedWindowWraps
Purpose: The fixed window across turns of its 32-bit index. The compare-and-swap compares a word that names
  its window by the low 32 bits only, so a call that stalls between its load and its swap while the
  windows go once around finds the word it loaded and swaps its own, older, window back in. The windows
  really installed and the one each call saw installed when it loaded are carried beside the words; as
  long as each call that swaps does so less than a turn after its load, the window installed never goes
  back.
Trusted boundary: none
Main exports: TracedWords, TracedStep, InTime, installed_windows_never_go_back, stalled_swap_installs_older_window
-/
import RateNet.Proofs.FixedWindowInterleaving

namespace RateNet

open Interleaving

/-- The two words, and the windows installed in the state word so far, the newest first; the one the state
    was created in is the last. -/
structure TracedWords where
  words : FixedWords
  installed : List ℕ
deriving DecidableEq

/-- The window the state word really holds. -/
def TracedWords.window (mem : TracedWords) : ℕ := mem.installed.headD 0

/-- Where a call is, and the window that was installed when it last loaded the state word. -/
structure TracedPc where
  pc : FixedPc
  loaded : ℕ
deriving DecidableEq

/-- The windows installed once a call has moved to `pc`: a successful swap installs its own. -/
def installedAfter (pc : FixedPc) (installed : List ℕ) : List ℕ :=
  match pc with
  | .returned .allow (some window) => window :: installed
  | _ => installed

/-- What a call saw installed: renewed by each load of the state word. -/
def loadedAfter (pc : FixedPc) (window loaded : ℕ) : ℕ :=
  match pc with
  | .loadState _ => window
  | _ => loaded

/-- One atomic step of a call, with what it installs and sees installed. -/
inductive TracedStep (fw : FixedWindow) (call : FixedCall) :
    TracedWords → TracedPc → TracedWords → TracedPc → Prop where
  | advance {mem : TracedWords} {loc : TracedPc} {words : FixedWords} {pc : FixedPc}
      (step : call.Advance fw mem.words loc.pc words pc) :
      TracedStep fw call mem loc { words, installed := installedAfter pc mem.installed }
        { pc, loaded := loadedAfter loc.pc mem.window loc.loaded }

/-- A call about to swap over the word it loaded does so less than a turn of the index after its load: the
    window installed is fewer than `2^32` windows ahead of the one it saw. -/
def InTime (mem : TracedWords) (loc : TracedPc) : Prop :=
  match loc.pc with
  | .swap _ current _ _ => mem.words.state = current → mem.window < loc.loaded + 2 ^ 32
  | _ => True

instance (mem : TracedWords) : (loc : TracedPc) → Decidable (InTime mem loc)
  | ⟨.swap _ current _ _, loaded⟩ =>
      inferInstanceAs (Decidable (mem.words.state = current → mem.window < loaded + 2 ^ 32))
  | ⟨.entry, _⟩ | ⟨.loadState _, _⟩ | ⟨.loadLatest _ _, _⟩ | ⟨.publish _ _ _, _⟩ | ⟨.returned _ _, _⟩ =>
      inferInstanceAs (Decidable True)

/-- Every call runs `acquire` on the traced words. -/
def tracedProgram {ι : Type*} (fw : FixedWindow) (calls : ι → FixedCall) :
    Program ι TracedWords TracedPc :=
  fun i => TracedStep fw (calls i)

/-- The runs in which every call swaps in time. -/
def timelyProgram {ι : Type*} (fw : FixedWindow) (calls : ι → FixedCall) :
    Program ι TracedWords TracedPc :=
  fun i mem loc mem' loc' => InTime mem loc ∧ TracedStep fw (calls i) mem loc mem' loc'

/-- The state as created, and no call started. -/
def tracedStart {ι : Type*} (fw : FixedWindow) : Config ι TracedWords TracedPc :=
  { mem := { words := { state := fw.state, latest := fw.latest }, installed := [fw.latest] }
    loc := fun _ => { pc := .entry, loaded := 0 } }

/-!
### What the words and the calls keep
-/

/-- The state word holds the newest installed window, which `latest` has reached, and no window was
    installed over a newer one. -/
structure TracedWords.Good (mem : TracedWords) : Prop where
  word : ∃ count, mem.words.state = FixedWindow.packed mem.window count
  behind : mem.window ≤ mem.words.latest
  sorted : mem.installed.Pairwise fun later earlier => earlier ≤ later
  some_window : mem.installed ≠ []

/-- `latest` and the installed window only rise. -/
def WindowsRise (mem mem' : TracedWords) : Prop :=
  mem.words.latest ≤ mem'.words.latest ∧ mem.window ≤ mem'.window

/-- The word a call loaded held the window it saw installed. -/
def Loaded (mem : TracedWords) (loaded current : ℕ) : Prop :=
  (∃ count, current = FixedWindow.packed loaded count) ∧ loaded ≤ mem.window

/-- What a call knows at each location. -/
def TracedPc.Knows (mem : TracedWords) (loc : TracedPc) : Prop :=
  match loc.pc with
  | .loadLatest _ current => Loaded mem loc.loaded current ∧ loc.loaded ≤ mem.words.latest
  | .publish current window _ => Loaded mem loc.loaded current ∧ loc.loaded ≤ window
  | .swap _ current window _ =>
      Loaded mem loc.loaded current ∧ loc.loaded ≤ window ∧ window ≤ mem.words.latest
  | _ => True

theorem Loaded.later {mem mem' : TracedWords} {loaded current : ℕ} (known : Loaded mem loaded current)
    (rise : WindowsRise mem mem') : Loaded mem' loaded current :=
  ⟨known.1, known.2.trans rise.2⟩

theorem TracedPc.Knows.stable {mem mem' : TracedWords} {loc : TracedPc} (knows : loc.Knows mem)
    (rise : WindowsRise mem mem') : loc.Knows mem' := by
  obtain ⟨pc, loaded⟩ := loc
  cases pc with
  | loadLatest openedOver current => exact ⟨knows.1.later rise, knows.2.trans rise.1⟩
  | publish current window total => exact ⟨knows.1.later rise, knows.2⟩
  | swap openedOver current window total =>
      exact ⟨knows.1.later rise, knows.2.1, knows.2.2.trans rise.1⟩
  | entry => trivial
  | loadState openedOver => trivial
  | returned decision charged => trivial

/-- Two windows less than a turn apart whose words are equal are the same window. -/
theorem window_eq_of_packed {a b count count' : ℕ} (near : a ≤ b) (turn : b < a + 2 ^ 32)
    (words : FixedWindow.packed b count = FixedWindow.packed a count') : b = a := by
  have index := congrArg (fun word => (FixedWindow.unpack word).1) words
  simp only [FixedWindow.unpack_packed, FixedWindow.lowBits] at index
  omega

/-- A charge goes to the later of the call's own window and the `latest` it loaded. -/
theorem attempt_window {fw : FixedWindow} {n nowNs current latest window total : ℕ}
    {openedOver : Option (ℕ × ℕ)}
    (h : fw.attempt n nowNs current latest openedOver = .charge window total) : latest ≤ window := by
  simp only [FixedWindow.attempt] at h
  generalize (if openedOver = some (current, max (fw.windowOf nowNs) latest) then 0
    else FixedWindow.countIn (max (fw.windowOf nowNs) latest) current latest) = count at h
  split at h
  · cases h
  · injection h with window_eq
    rw [← window_eq]
    exact le_max_right _ _

section Steps

variable {fw : FixedWindow} {call : FixedCall} {mem mem' : TracedWords} {loc loc' : TracedPc}

/-- A step that installs nothing and does not lower `latest`. -/
theorem TracedWords.Good.quiet (good : mem.Good) (words : FixedWords)
    (state : words.state = mem.words.state) (rises : mem.words.latest ≤ words.latest) :
    (TracedWords.mk words mem.installed).Good ∧ WindowsRise mem ⟨words, mem.installed⟩ := by
  refine ⟨⟨?_, good.behind.trans rises, good.sorted, good.some_window⟩, rises, le_rfl⟩
  obtain ⟨count, word⟩ := good.word
  exact ⟨count, state.trans word⟩

theorem knows_afterGuards (mem : TracedWords) (loaded : ℕ) :
    (TracedPc.mk (call.afterGuards fw) loaded).Knows mem := by
  unfold FixedCall.afterGuards
  split
  · trivial
  · split <;> trivial

theorem knows_afterLoads {openedOver : Option (ℕ × ℕ)} {current loaded : ℕ}
    (known : Loaded mem loaded current) (reached : loaded ≤ mem.words.latest) :
    (TracedPc.mk (call.afterLoads fw openedOver current mem.words.latest) loaded).Knows mem := by
  unfold FixedCall.afterLoads
  split
  · trivial
  · rename_i window total charge
    have newest := attempt_window charge
    split
    · exact ⟨known, reached.trans newest⟩
    · rename_i current_window
      exact ⟨known, reached.trans newest, Nat.le_of_not_lt current_window⟩

theorem installedAfter_afterGuards (installed : List ℕ) :
    installedAfter (call.afterGuards fw) installed = installed := by
  unfold FixedCall.afterGuards
  split
  · rfl
  · split <;> rfl

theorem installedAfter_afterLoads (openedOver : Option (ℕ × ℕ)) (current latest : ℕ)
    (installed : List ℕ) :
    installedAfter (call.afterLoads fw openedOver current latest) installed = installed := by
  unfold FixedCall.afterLoads
  split
  · rfl
  · split <;> rfl

/-- One step in time keeps the words good, moves them forward, and renews what the call knows. -/
theorem TracedStep.keeps (step : TracedStep fw call mem loc mem' loc') (inTime : InTime mem loc)
    (good : mem.Good) (knows : loc.Knows mem) :
    mem'.Good ∧ WindowsRise mem mem' ∧ loc'.Knows mem' := by
  obtain ⟨words, installed⟩ := mem
  obtain ⟨pc, loaded⟩ := loc
  cases step with
  | advance step =>
      cases step with
      | guards =>
          dsimp only
          rw [installedAfter_afterGuards]
          obtain ⟨good', rise⟩ := good.quiet words rfl le_rfl
          exact ⟨good', rise, knows_afterGuards _ _⟩
      | loadState openedOver =>
          obtain ⟨good', rise⟩ := good.quiet words rfl le_rfl
          exact ⟨good', rise, ⟨good.word, le_rfl⟩, good.behind⟩
      | loadLatest openedOver current =>
          dsimp only
          rw [installedAfter_afterLoads]
          obtain ⟨good', rise⟩ := good.quiet words rfl le_rfl
          exact ⟨good', rise, knows_afterLoads knows.1 knows.2⟩
      | publish _ current window total =>
          obtain ⟨known, reached⟩ := knows
          obtain ⟨good', rise⟩ :=
            good.quiet { words with latest := max words.latest window } rfl (le_max_left _ _)
          exact ⟨good', rise, known.later rise, reached, le_max_right _ _⟩
      | swapped latest current window total openedOver =>
          obtain ⟨⟨⟨count, word⟩, near⟩, reached, published⟩ := knows
          obtain ⟨count', held⟩ := good.word
          -- the word is the one that was loaded, and less than a turn old: no window came between
          have same := window_eq_of_packed near (inTime rfl) (held.symm.trans word)
          have newest : ∀ earlier ∈ installed, earlier ≤ window := by
            intro earlier member
            cases installed with
            | nil => cases member
            | cons head rest =>
                have top : head ≤ window := same.le.trans reached
                rcases List.mem_cons.1 member with rfl | older
                · exact top
                · exact ((List.pairwise_cons.1 good.sorted).1 earlier older).trans top
          refine ⟨⟨⟨total, rfl⟩, published, List.pairwise_cons.2 ⟨newest, good.sorted⟩,
            List.cons_ne_nil _ _⟩, ⟨le_rfl, ?_⟩, trivial⟩
          exact same.le.trans reached
      | failed openedOver current window total =>
          obtain ⟨good', rise⟩ := good.quiet words rfl le_rfl
          exact ⟨good', rise, trivial⟩

end Steps

/-- No window is ever installed over a newer one, in every interleaving of any calls, any number of windows
    apart, in which each call that swaps does so less than a turn of the index after its load. -/
theorem installed_windows_never_go_back {ι : Type*} [DecidableEq ι] (quota : Quota) (created : ℕ)
    (calls : ι → FixedCall) (c : Config ι TracedWords TracedPc)
    (reach : Reachable (timelyProgram (.new quota created) calls) (tracedStart (.new quota created)) c) :
    c.mem.installed.Pairwise fun later earlier => earlier ≤ later := by
  have kept := reach.stably TracedWords.Good WindowsRise (fun _ mem loc => loc.Knows mem)
    ⟨⟨0, rfl⟩, le_rfl, List.pairwise_singleton _ _, List.cons_ne_nil _ _⟩ (fun _ => trivial)
    (fun i mem mem' loc loc' good knows step => step.2.keeps step.1 good knows)
    (fun _ mem mem' loc knows rise => knows.stable rise)
  exact kept.1.sorted

/-!
### Schedules
-/

/-- The step of a call whose swap succeeds whenever it can, traced; a call that would swap too late waits if
    `timely`. -/
def tracedNext {ι : Type*} (fw : FixedWindow) (calls : ι → FixedCall) (timely : Bool) (i : ι)
    (mem : TracedWords) (loc : TracedPc) : TracedWords × TracedPc :=
  match loc.pc with
  | .returned _ _ => (mem, loc)
  | _ =>
    if timely = true ∧ ¬ InTime mem loc then (mem, loc)
    else
      let (words, pc) := (calls i).next fw mem.words loc.pc
      ({ words, installed := installedAfter pc mem.installed },
        { pc, loaded := loadedAfter loc.pc mem.window loc.loaded })

theorem tracedNext_sound {ι : Type*} (fw : FixedWindow) (calls : ι → FixedCall) (timely : Bool) (i : ι)
    (mem : TracedWords) (loc : TracedPc) :
    tracedNext fw calls timely i mem loc = (mem, loc) ∨ (timely = true → InTime mem loc) ∧
      TracedStep fw (calls i) mem loc (tracedNext fw calls timely i mem loc).1
        (tracedNext fw calls timely i mem loc).2 := by
  unfold tracedNext
  split
  · exact Or.inl rfl
  · rename_i running
    split
    · exact Or.inl rfl
    · rename_i may
      right
      refine ⟨fun on => by_contra fun late => may ⟨on, late⟩, ?_⟩
      rcases (calls i).next_sound fw mem.words loc.pc with ⟨decision, charged, returned⟩ | step
      · exact absurd returned (running decision charged)
      · exact .advance step

theorem reachable_traced {ι : Type*} [DecidableEq ι] (fw : FixedWindow) (calls : ι → FixedCall)
    (schedule : List ι) : Reachable (tracedProgram fw calls) (tracedStart fw)
      (runSchedule (tracedNext fw calls false) schedule (tracedStart fw)) :=
  Reachable.schedule (fun i mem loc => (tracedNext_sound fw calls false i mem loc).imp_right And.right) _ _

theorem reachable_timely {ι : Type*} [DecidableEq ι] (fw : FixedWindow) (calls : ι → FixedCall)
    (schedule : List ι) : Reachable (timelyProgram fw calls) (tracedStart fw)
      (runSchedule (tracedNext fw calls true) schedule (tracedStart fw)) :=
  Reachable.schedule (fun i mem loc =>
    (tracedNext_sound fw calls true i mem loc).imp_right fun h => ⟨h.1 rfl, h.2⟩) _ _

/-- One unit per nanosecond. A call in window 0 is granted; a call in window 1 loads the word and stalls; a
    call in window `2^32` leaves the same word, a turn later; and the stalled call swaps window 1 in. -/
theorem stalled_swap_installs_older_window :
    let fw := FixedWindow.new unitPerNano 0
    let calls : Fin 3 → FixedCall := fun i => { n := 1, now := if i = 0 then 0 else if i = 1 then 1 else 2 ^ 32 }
    ∃ c, Reachable (tracedProgram fw calls) (tracedStart fw) c ∧ c.mem.installed = [1, 2 ^ 32, 0, 0] ∧
      ¬ c.mem.installed.Pairwise fun later earlier => earlier ≤ later := by
  intro fw calls
  refine ⟨_, reachable_traced fw calls [0, 0, 0, 0, 1, 1, 1, 1, 2, 2, 2, 2, 2, 1], ?_, ?_⟩
  · decide +kernel
  · decide +kernel

/-- The call in window 1 is granted before the one in window `2^32`, a turn after the first. -/
theorem installed_windows_never_go_back_across_a_turn :
    let fw := FixedWindow.new unitPerNano 0
    let calls : Fin 3 → FixedCall := fun i => { n := 1, now := if i = 0 then 0 else if i = 1 then 1 else 2 ^ 32 }
    let c := runSchedule (tracedNext fw calls true) [0, 0, 0, 0, 1, 1, 1, 1, 1, 2, 2, 2, 2, 2] (tracedStart fw)
    c.mem.installed = [2 ^ 32, 1, 0, 0] ∧ c.mem.installed.Pairwise fun later earlier => earlier ≤ later := by
  intro fw calls c
  refine ⟨by decide +kernel, ?_⟩
  exact installed_windows_never_go_back unitPerNano 0 calls c (reachable_timely fw calls _)

end RateNet
