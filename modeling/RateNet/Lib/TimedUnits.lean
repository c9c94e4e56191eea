/-
Module: RateNet.Lib.TimedUnits
Layer: Lib
Purpose: Sums over a history of timed amounts: how many units fell at the instants a predicate selects,
  and how such a sum changes when the history grows or the predicate does.
Imports: Mathlib.Algebra.BigOperators.Group.List.Basic, Mathlib.Tactic
Trusted boundary: none
Main exports: TimedUnits.units, units_append, units_congr, units_mono, units_lt, units_add_not, units_or_le,
  units_map, units_eq_zero, length_le_of_strict
-/
import Mathlib.Algebra.BigOperators.Group.List.Basic
import Mathlib.Tactic

namespace TimedUnits

/-- The units of a history of `(instant, amount)` pairs at the instants `p` selects. -/
def units (history : List (ℕ × ℕ)) (p : ℕ → Prop) [DecidablePred p] : ℕ :=
  (history.map fun event => if p event.1 then event.2 else 0).sum

variable {history : List (ℕ × ℕ)} {p q : ℕ → Prop} [DecidablePred p] [DecidablePred q]

theorem units_append (history : List (ℕ × ℕ)) (instant amount : ℕ) :
    units (history ++ [(instant, amount)]) p = units history p + if p instant then amount else 0 := by
  simp [units]

/-- Only the instants of nonempty amounts matter. -/
theorem units_mono (h : ∀ event ∈ history, 1 ≤ event.2 → p event.1 → q event.1) :
    units history p ≤ units history q := by
  induction history with
  | nil => exact le_rfl
  | cons event rest inductionHypothesis =>
      have tail := inductionHypothesis fun event member => h event (List.mem_cons_of_mem _ member)
      have head : (if p event.1 then event.2 else 0) ≤ if q event.1 then event.2 else 0 := by
        rcases Nat.eq_zero_or_pos event.2 with none_here | some_here
        · simp [none_here]
        · by_cases chosen : p event.1
          · rw [if_pos chosen, if_pos (h event List.mem_cons_self some_here chosen)]
          · rw [if_neg chosen]
            exact Nat.zero_le _
      simp only [units, List.map_cons, List.sum_cons] at tail ⊢
      exact Nat.add_le_add head tail

theorem units_congr (h : ∀ event ∈ history, 1 ≤ event.2 → (p event.1 ↔ q event.1)) :
    units history p = units history q :=
  le_antisymm (units_mono fun event member some_here => (h event member some_here).1)
    (units_mono fun event member some_here => (h event member some_here).2)

/-- The selected and the other units are all of them. -/
theorem units_add_not (history : List (ℕ × ℕ)) (p : ℕ → Prop) [DecidablePred p] :
    units history p + units history (fun t => ¬ p t) = units history fun _ => True := by
  induction history with
  | nil => rfl
  | cons event rest inductionHypothesis =>
      simp only [units, List.map_cons, List.sum_cons, if_true] at inductionHypothesis ⊢
      by_cases chosen : p event.1
      · rw [if_pos chosen, if_neg (not_not.2 chosen)]
        omega
      · rw [if_neg chosen, if_pos chosen]
        omega

/-- Units at instants that one of two predicates selects. -/
theorem units_or_le (history : List (ℕ × ℕ)) (p q : ℕ → Prop) [DecidablePred p] [DecidablePred q] :
    units history (fun t => p t ∨ q t) ≤ units history p + units history q := by
  induction history with
  | nil => exact le_rfl
  | cons event rest inductionHypothesis =>
      simp only [units, List.map_cons, List.sum_cons] at inductionHypothesis ⊢
      split_ifs <;> first | omega | tauto

/-- Units of a history whose instants are read through `f`. -/
theorem units_map (history : List (ℕ × ℕ)) (f : ℕ → ℕ) (p : ℕ → Prop) [DecidablePred p] :
    units (history.map fun event => (f event.1, event.2)) p = units history fun t => p (f t) := by
  rw [units, units, List.map_map]
  rfl

/-- No units fall where no nonempty amount does. -/
theorem units_eq_zero (h : ∀ event ∈ history, 1 ≤ event.2 → ¬ p event.1) : units history p = 0 := by
  have none_selected : units history p ≤ units history fun _ => False :=
    units_mono fun event member some_here chosen => absurd chosen (h event member some_here)
  have nothing : units history (fun _ => False) = 0 := by simp [units]
  omega

/-- One more nonempty instant makes a larger sum. -/
theorem units_lt (h : ∀ event ∈ history, 1 ≤ event.2 → p event.1 → q event.1) {event : ℕ × ℕ}
    (member : event ∈ history) (some_here : 1 ≤ event.2) (unchosen : ¬ p event.1) (chosen : q event.1) :
    units history p < units history q := by
  obtain ⟨before, after, rfl⟩ := List.append_of_mem member
  have earlier : units before p ≤ units before q :=
    units_mono fun event there => h event (List.mem_append_left _ there)
  have later : units after p ≤ units after q :=
    units_mono fun event there => h event (List.mem_append_right _ (List.mem_cons_of_mem _ there))
  simp only [units, List.map_append, List.map_cons, List.sum_append, List.sum_cons, if_neg unchosen,
    if_pos chosen] at earlier later ⊢
  omega

/-- Strictly increasing numbers above `low` and at most `high` are at most `high - low` many. -/
theorem length_le_of_strict {α : Type*} (f : α → ℕ) {low high : ℕ} {list : List α}
    (increasing : list.Pairwise fun a b => f a < f b) (above : ∀ a ∈ list, low < f a)
    (below : ∀ a ∈ list, f a ≤ high) : list.length ≤ high - low := by
  induction list generalizing low with
  | nil => exact Nat.zero_le _
  | cons first rest inductionHypothesis =>
      obtain ⟨later, tail⟩ := List.pairwise_cons.1 increasing
      have rest_le := inductionHypothesis tail later fun a member => below a (List.mem_cons_of_mem _ member)
      have first_low := above first List.mem_cons_self
      have first_high := below first List.mem_cons_self
      rw [List.length_cons]
      omega

end TimedUnits
