/-
Module: RateNet.Lib.CheckedArith
Layer: Lib
Purpose: Arithmetic on words of a given width in which every step has to be exact. A step returns `none` where
  the machine's would overflow, underflow, divide by zero or drop bits; where it is exact it returns the
  result, which is what its one lemma says. A program written with these steps returns a result exactly
  when it runs without such a step.
Imports: Mathlib.Algebra.Order.Floor.Div, Mathlib.Tactic
Trusted boundary: none
Main exports: narrow, add, mul, shl, sub, div, rem, divCeil
-/
import Mathlib.Algebra.Order.Floor.Div
import Mathlib.Tactic

namespace CheckedArith

variable {bits a b : ℕ}

/-- A value in a word of `bits` bits. -/
def narrow (bits x : ℕ) : Option ℕ := if x < 2 ^ bits then some x else none

def add (bits a b : ℕ) : Option ℕ := narrow bits (a + b)

def mul (bits a b : ℕ) : Option ℕ := narrow bits (a * b)

def shl (bits a count : ℕ) : Option ℕ := narrow bits (a <<< count)

def sub (a b : ℕ) : Option ℕ := if b ≤ a then some (a - b) else none

def div (a b : ℕ) : Option ℕ := if b = 0 then none else some (a / b)

def rem (a b : ℕ) : Option ℕ := if b = 0 then none else some (a % b)

/-- Division rounded up. -/
def divCeil (a b : ℕ) : Option ℕ := if b = 0 then none else some (a ⌈/⌉ b)

theorem narrow_eq (h : a < 2 ^ bits) : narrow bits a = some a := if_pos h

theorem add_eq (h : a + b < 2 ^ bits) : add bits a b = some (a + b) := if_pos h

theorem mul_eq (h : a * b < 2 ^ bits) : mul bits a b = some (a * b) := if_pos h

theorem shl_eq (h : a <<< b < 2 ^ bits) : shl bits a b = some (a <<< b) := if_pos h

theorem sub_eq (h : b ≤ a) : sub a b = some (a - b) := if_pos h

theorem div_eq (h : 0 < b) : div a b = some (a / b) := if_neg h.ne'

theorem rem_eq (h : 0 < b) : rem a b = some (a % b) := if_neg h.ne'

theorem divCeil_eq (h : 0 < b) : divCeil a b = some (a ⌈/⌉ b) := if_neg h.ne'

/-- A product of two words fits a word as wide as both together. -/
theorem mul_lt {x y : ℕ} (hx : x < 2 ^ a) (hy : y < 2 ^ b) (h : a + b ≤ bits) : x * y < 2 ^ bits :=
  calc x * y < 2 ^ a * 2 ^ b := Nat.mul_lt_mul'' hx hy
    _ = 2 ^ (a + b) := (pow_add 2 a b).symm
    _ ≤ 2 ^ bits := Nat.pow_le_pow_right Nat.two_pos h

end CheckedArith
