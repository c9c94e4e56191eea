/-
Module: RateNet.Lib.Runs
Layer: Lib
Purpose: Runs of a deterministic machine. A condition holds along a list of calls when it holds of every
  call and the calls before it; it can be checked position by position, and an invariant that every
  call meeting its condition keeps holds after the whole run. Two machines whose states match answer
  alike. A labelled run is any number of steps of a relation, with their labels in order.
Imports: Mathlib.Tactic
Trusted boundary: none
Main exports: Runs.Along, along_snoc, along_cons, along_iff, Along.take, invariant, outputs, outputs_append, outputs_eq,
  Labelled, Labelled.keeps, Labelled.invariant
-/
import Mathlib.Tactic

namespace Runs

variable {Call State : Type*}

/-- `P` holds of every call of the list and the calls before it. -/
def Along (P : List Call → Call → Prop) (calls : List Call) : Prop :=
  ∀ before call rest, calls = before ++ call :: rest → P before call

variable {P : List Call → Call → Prop}

theorem along_snoc {calls : List Call} {call : Call} :
    Along P (calls ++ [call]) ↔ Along P calls ∧ P calls call := by
  constructor
  · intro along
    refine ⟨?_, along calls call [] rfl⟩
    intro before earlier rest split
    apply along before earlier (rest ++ [call])
    rw [split, List.append_assoc, List.cons_append]
  · rintro ⟨along, last⟩ before earlier rest split
    rcases List.eq_nil_or_concat rest with rfl | ⟨between, final, rfl⟩
    · obtain ⟨rfl, same⟩ := List.append_inj' split rfl
      obtain rfl : call = earlier := List.head_eq_of_cons_eq same
      exact last
    · rw [List.concat_eq_append, ← List.cons_append, ← List.append_assoc] at split
      obtain ⟨front, -⟩ := List.append_inj' split rfl
      exact along before earlier between front

theorem along_cons {calls : List Call} {call : Call} :
    Along P (call :: calls) ↔ P [] call ∧ Along (fun before => P (call :: before)) calls := by
  constructor
  · intro along
    refine ⟨along [] call calls rfl, ?_⟩
    rintro before next rest rfl
    exact along (call :: before) next rest rfl
  · rintro ⟨first, along⟩ before next rest split
    cases before with
    | nil =>
        obtain rfl : call = next := List.head_eq_of_cons_eq split
        exact first
    | cons start before =>
        obtain ⟨rfl, after⟩ := List.cons.inj split
        exact along before next rest after

/-- A condition that holds along a run holds along its beginning. -/
theorem Along.take {before rest : List Call} (along : Along P (before ++ rest)) : Along P before := by
  intro start call between split
  apply along start call (between ++ rest)
  rw [split, List.append_assoc, List.cons_append]

/-- A condition along a run, position by position. -/
theorem along_iff {calls : List Call} :
    Along P calls ↔ ∀ k < calls.length, ∀ call ∈ calls[k]?, P (calls.take k) call := by
  constructor
  · intro along k inside call held
    obtain ⟨-, rfl⟩ := List.getElem?_eq_some_iff.1 held
    apply along _ _ (calls.drop (k + 1))
    rw [← List.drop_eq_getElem_cons inside, List.take_append_drop]
  · rintro positions before call rest rfl
    have here := positions before.length (by simp) call (by simp)
    rw [List.take_left] at here
    exact here

instance [∀ before call, Decidable (P before call)] (calls : List Call) : Decidable (Along P calls) :=
  decidable_of_iff' _ along_iff

/-- An invariant of the start that every call meeting its condition keeps holds after the run. -/
theorem invariant {step : State → Call → State} {start : State} {Inv : List Call → State → Prop}
    (init : Inv [] start)
    (keep : ∀ before call, Inv before (before.foldl step start) → P before call →
      Inv (before ++ [call]) (step (before.foldl step start) call))
    {calls : List Call} (along : Along P calls) : Inv calls (calls.foldl step start) := by
  induction calls using List.reverseRecOn with
  | nil => exact init
  | append_singleton calls call inductionHypothesis =>
      rw [along_snoc] at along
      rw [List.foldl_append]
      exact keep calls call (inductionHypothesis along.1) along.2

/-!
### Outputs
-/

variable {State' Out : Type*}

/-- What a machine answers to a list of calls. -/
def outputs (step : State → Call → Out × State) : State → List Call → List Out
  | _, [] => []
  | s, call :: calls => (step s call).1 :: outputs step (step s call).2 calls

theorem outputs_append (step : State → Call → Out × State) (s : State) (calls calls' : List Call) :
    outputs step s (calls ++ calls') =
      outputs step s calls ++ outputs step (calls.foldl (fun s call => (step s call).2) s) calls' := by
  induction calls generalizing s with
  | nil => rfl
  | cons call calls inductionHypothesis =>
      rw [List.cons_append, outputs, inductionHypothesis, outputs, List.foldl_cons, List.cons_append]

/-- What every call is answered, in states with an invariant that the calls keep. -/
theorem answered {step : State → Call → Out × State} (Inv : State → Prop) (Q : Call → Out → Prop)
    {calls : List Call}
    (keep : ∀ {s call}, call ∈ calls → Inv s → Q call (step s call).1 ∧ Inv (step s call).2) {s : State}
    (start : Inv s) : ∀ pair ∈ calls.zip (outputs step s calls), Q pair.1 pair.2 := by
  induction calls generalizing s with
  | nil =>
      intro pair member
      cases member
  | cons call calls inductionHypothesis =>
      obtain ⟨here, onward⟩ := keep List.mem_cons_self start
      intro pair member
      rw [outputs, List.zip_cons_cons, List.mem_cons] at member
      rcases member with rfl | later
      · exact here
      · exact inductionHypothesis (fun there => keep (List.mem_cons_of_mem _ there)) onward pair later

/-- Machines in states that match, for the calls still to come, answer alike. -/
theorem outputs_eq {step : State → Call → Out × State} {step' : State' → Call → Out × State'}
    (Match : List Call → State → State' → Prop)
    (matched : ∀ {call calls s s'}, Match (call :: calls) s s' →
      (step s call).1 = (step' s' call).1 ∧ Match calls (step s call).2 (step' s' call).2)
    {calls : List Call} {s : State} {s' : State'} (start : Match calls s s') :
    outputs step s calls = outputs step' s' calls := by
  induction calls generalizing s s' with
  | nil => rfl
  | cons call calls inductionHypothesis =>
      obtain ⟨same, onward⟩ := matched start
      rw [outputs, outputs, same, inductionHypothesis onward]

/-!
### Labelled runs
-/

variable {Label : Type*}

/-- Any number of steps, with their labels in order. -/
inductive Labelled (Step : State → List Label → State → Prop) : State → List Label → State → Prop where
  | done (s : State) : Labelled Step s [] s
  | step {s s₁ s₂ : State} {labels labels' : List Label} (run : Labelled Step s labels s₁)
      (last : Step s₁ labels' s₂) : Labelled Step s (labels ++ labels') s₂

namespace Labelled

variable {Step : State → List Label → State → Prop} {s s₁ s₂ : State} {labels labels' : List Label}

theorem single (step : Step s labels s₁) : Labelled Step s labels s₁ := .step (.done s) step

theorem trans (first : Labelled Step s labels s₁) (second : Labelled Step s₁ labels' s₂) :
    Labelled Step s (labels ++ labels') s₂ := by
  induction second with
  | done =>
      rw [List.append_nil]
      exact first
  | step _ last inductionHypothesis =>
      rw [← List.append_assoc]
      exact .step inductionHypothesis last

/-- A property of the state that every step keeps. -/
theorem keeps (Inv : State → Prop) (keep : ∀ {labels s s'}, Step s labels s' → Inv s → Inv s')
    (run : Labelled Step s labels s₁) (init : Inv s) : Inv s₁ := by
  induction run with
  | done => exact init
  | step _ last inductionHypothesis => exact keep last inductionHypothesis

/-- A property of the labels so far and the state that every step keeps. -/
theorem invariant (Inv : List Label → State → Prop)
    (keep : ∀ {before labels s s'}, Step s labels s' → Inv before s → Inv (before ++ labels) s')
    (run : Labelled Step s labels s₁) {before : List Label} (init : Inv before s) :
    Inv (before ++ labels) s₁ := by
  induction run with
  | done =>
      rw [List.append_nil]
      exact init
  | step _ last inductionHypothesis =>
      rw [← List.append_assoc]
      exact keep last inductionHypothesis

end Labelled

end Runs
