/-
Module: RateNet.Lib.VirtualScheduling
Layer: Lib
Purpose: The potential argument behind virtual scheduling. A meter advances one counter: an admission of
  `n` units at instant `t` lifts it from the later of the counter and `ticks t` by `n`, and never past
  `ticks t + burst`. Whatever the order of the instants, the units admitted at instants in `[a, b]`
  are then at most `burst + ticks b - ticks a`. The account is kept as a function of the window's two
  ends, so admissions may come in any order and the counter may also rise for other reasons.
Imports: Mathlib.Tactic
Trusted boundary: none
Main exports: Metered, Metered.empty, Metered.grant, Metered.bound
-/
import Mathlib.Tactic

namespace VirtualScheduling

variable {Time : Type*} [Preorder Time] {ticks : Time → ℕ} {burst counter counter' : ℕ}
  {account account' : Time → Time → ℕ}

/-- The counter and the account of admitted units agree: what was admitted in a window lies, as a stretch
    of ticks, above the window's first tick and below both the counter and the window's last tick plus
    the burst. -/
def Metered (ticks : Time → ℕ) (burst counter : ℕ) (account : Time → Time → ℕ) : Prop :=
  ∀ a b, a ≤ b → account a b = 0 ∨
    (ticks a + account a b ≤ counter ∧ ticks a + account a b ≤ ticks b + burst)

namespace Metered

theorem empty (ticks : Time → ℕ) (burst counter : ℕ) :
    Metered ticks burst counter fun _ _ => 0 := fun _ _ _ => Or.inl rfl

/-- An admission at instant `t` keeps the account. -/
theorem grant (metered : Metered ticks burst counter account) (mono : Monotone ticks) {t : Time}
    {n : ℕ} (lift : max counter (ticks t) + n ≤ counter')
    (cap : max counter (ticks t) + n ≤ ticks t + burst)
    (inside : ∀ a b, a ≤ t → t ≤ b → account' a b = account a b + n)
    (outside : ∀ a b, ¬ (a ≤ t ∧ t ≤ b) → account' a b = account a b) :
    Metered ticks burst counter' account' := by
  intro a b hab
  by_cases window : a ≤ t ∧ t ≤ b
  · rw [inside a b window.1 window.2]
    have first := mono window.1
    have last := mono window.2
    -- the earlier admissions of the window end below the point this one starts from
    have start : ticks a + account a b ≤ max counter (ticks t) := by
      rcases metered a b hab with none_yet | ⟨below, -⟩
      · rw [none_yet]
        exact le_max_of_le_right first
      · exact le_max_of_le_left below
    exact Or.inr ⟨by omega, by omega⟩
  · rw [outside a b window]
    rcases metered a b hab with none_yet | ⟨below, capped⟩
    · exact Or.inl none_yet
    · exact Or.inr ⟨by omega, capped⟩

/-- No window admits more than its ticks and the burst. -/
theorem bound (metered : Metered ticks burst counter account) {a b : Time} (hab : a ≤ b) :
    account a b ≤ burst + ticks b - ticks a := by
  rcases metered a b hab with none_yet | ⟨-, capped⟩
  · omega
  · omega

end Metered

end VirtualScheduling
