import Mathlib.Algebra.Ring.Int.Defs
import Mathlib.Tactic.Common
import Relb.Model.Utiles
/-!
# Conversions to `int`

A number keeps its value if it fits. Any other one is only known modulo `2 ^ 32`, and from the
middle of this range on it comes out below zero.
-/

namespace Relb

variable {n : Int}

theorem toInt_eq (n : Int) :
    toInt n = if n % 2 ^ 32 < 2 ^ 31 then n % 2 ^ 32 else n % 2 ^ 32 - 2 ^ 32 := by
  unfold toInt
  rw [Int.bmod_def]
  split_ifs <;> omega

theorem toInt_range (n : Int) : -2 ^ 31 ≤ toInt n ∧ toInt n < 2 ^ 31 := by
  rw [toInt_eq]
  split_ifs <;> omega

theorem toInt_eq_self_iff : toInt n = n ↔ -2 ^ 31 ≤ n ∧ n < 2 ^ 31 := by
  rw [toInt_eq]
  split_ifs <;> omega

theorem toInt_of_lt (h0 : -2 ^ 31 ≤ n) (h : n < 2 ^ 31) : toInt n = n :=
  toInt_eq_self_iff.mpr ⟨h0, h⟩

theorem toInt_milliseconds_iff : toInt (1000 * n) = 1000 * n ↔ -2147483 ≤ n ∧ n ≤ 2147483 := by
  rw [toInt_eq_self_iff]
  omega

end Relb
