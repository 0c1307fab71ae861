import Mathlib.Algebra.Order.Field.Power
import Mathlib.Algebra.Order.Field.Rat
import Mathlib.Data.Nat.Cast.Order.Field
import Mathlib.Tactic.FieldSimp
import Mathlib.Tactic.Linarith
import Mathlib.Tactic.NormNum
import Mathlib.Tactic.Positivity
import Mathlib.Tactic.Ring
import Relb.Model.Utiles
/-!
# `float` does not lose a load

The loads of the selection are quotients of rounded integers, rounded once more. Each rounding moves
a number that is not subnormal by at most a unit in the last place, so a load is the exact quotient
but for one part in two millions, and it is zero only where nothing is counted.
-/

namespace Relb

/-! ## The last place -/

theorem zpow_eq_shift (k : Int) : (2 : Rat) ^ k = 2 ^ k.toNat / 2 ^ (-k).toNat := by
  obtain ⟨n, rfl | rfl⟩ := k.eq_nat_or_neg
  · simp
  · simp

/-- The exponent that `roundToFloat` starts from. -/
def floatExponent (m d : Nat) : Int :=
  let e₀ : Int := (Nat.log2 m : Int) - Nat.log2 d
  if d * 2 ^ e₀.toNat ≤ m * 2 ^ (-e₀).toNat then e₀ else e₀ - 1

/-- The last place of the significand. -/
def lastPlace (m d : Nat) : Int := max (floatExponent m d - 23) (-149)

variable {m d : Nat}

theorem shift_le_iff (hd : 0 < d) (k : Int) :
    d * 2 ^ k.toNat ≤ m * 2 ^ (-k).toNat ↔ (2 : Rat) ^ k ≤ m / d := by
  rw [zpow_eq_shift, div_le_div_iff₀ (by positivity) (by exact_mod_cast hd), mul_comm d]
  exact_mod_cast Iff.rfl

theorem zpow_floatExponent_le (hm : 0 < m) (hd : 0 < d) :
    (2 : Rat) ^ floatExponent m d ≤ m / d := by
  rw [← shift_le_iff hd, floatExponent]
  split
  · assumption
  · have hlow : 2 ^ Nat.log2 m ≤ m := Nat.log2_self_le hm.ne'
    have hhigh : d < 2 ^ (Nat.log2 d + 1) := Nat.lt_log2_self
    generalize he : (Nat.log2 m : Int) - Nat.log2 d - 1 = e
    have hexp : Nat.log2 d + 1 + e.toNat = Nat.log2 m + (-e).toNat := by omega
    calc d * 2 ^ e.toNat ≤ 2 ^ (Nat.log2 d + 1) * 2 ^ e.toNat :=
          Nat.mul_le_mul_right _ hhigh.le
      _ = 2 ^ Nat.log2 m * 2 ^ (-e).toNat := by rw [← pow_add, ← pow_add, hexp]
      _ ≤ m * 2 ^ (-e).toNat := Nat.mul_le_mul_right _ hlow

/-- What is rounded lies in the unit that starts at `n`, and goes to one of its ends. -/
theorem exists_units (m : Nat) (hd : 0 < d) : ∃ t n : Nat, (t = n ∨ t = n + 1) ∧
    n * (2 : Rat) ^ lastPlace m d ≤ m / d ∧ m / d < (n + 1) * (2 : Rat) ^ lastPlace m d ∧
      roundToFloat m d = t * 2 ^ lastPlace m d := by
  have hvalue : ∀ (t : Nat) (k : Int),
      mkRat (t * 2 ^ k.toNat : Nat) (2 ^ (-k).toNat) = t * (2 : Rat) ^ k := by
    intro t k
    rw [Rat.mkRat_eq_div, zpow_eq_shift, ← mul_div_assoc]
    push_cast
    rfl
  have hnearest : ∀ t r den : Nat,
      (if 2 * r < den then t else if den < 2 * r then t + 1 else if t % 2 = 0 then t else t + 1) =
        t ∨ (if 2 * r < den then t else if den < 2 * r then t + 1
          else if t % 2 = 0 then t else t + 1) = t + 1 := by
    intro t r den
    split_ifs <;> simp
  refine ⟨_, m * 2 ^ (-lastPlace m d).toNat / (d * 2 ^ (lastPlace m d).toNat), hnearest _ _ _,
    ?_, ?_, hvalue _ (lastPlace m d)⟩
  all_goals
    generalize lastPlace m d = k
    have hunit : (0 : Rat) < 2 ^ k := by positivity
    have hden : 0 < d * 2 ^ k.toNat := by positivity
    have hwhole : (m * 2 ^ (-k).toNat : Nat) / ((d * 2 ^ k.toNat : Nat) : Rat) =
        m / d / 2 ^ k := by
      rw [zpow_eq_shift]
      push_cast
      field_simp
  · rw [← le_div_iff₀ hunit, ← hwhole]
    exact Nat.cast_div_le
  · rw [← div_lt_iff₀ hunit, ← hwhole, div_lt_iff₀ (by exact_mod_cast hden)]
    exact_mod_cast (Nat.lt_mul_div_succ _ hden).trans_eq (Nat.mul_comm _ _)

theorem roundToFloat_near (hm : 0 < m) (hd : 0 < d) (hnormal : (2 : Rat) ^ (-126 : Int) ≤ m / d) :
    |roundToFloat m d - m / d| ≤ 2 ^ (-23 : Int) * (m / d) := by
  obtain ⟨t, n, ht, hlow, hhigh, heq⟩ := exists_units m hd
  have hk : (2 : Rat) ^ lastPlace m d ≤ 2 ^ (-23 : Int) * (m / d) := by
    rcases max_cases (floatExponent m d - 23) (-149) with ⟨hmax, -⟩ | ⟨hmax, -⟩
    · rw [lastPlace, hmax, sub_eq_add_neg, add_comm, zpow_add₀ two_ne_zero]
      exact mul_le_mul_of_nonneg_left (zpow_floatExponent_le hm hd) (by positivity)
    · rw [lastPlace, hmax, show (-149 : Int) = -23 + -126 from rfl, zpow_add₀ two_ne_zero]
      exact mul_le_mul_of_nonneg_left hnormal (by positivity)
  have herror : |roundToFloat m d - m / d| ≤ 2 ^ lastPlace m d := by
    rw [heq, abs_le]
    rcases ht with rfl | rfl
    · constructor <;> linarith
    · push_cast
      constructor <;> linarith
  exact herror.trans hk

/-! ## `toFloat` -/

theorem toFloat_zero : toFloat 0 = 0 := if_pos rfl

theorem toFloat_of_pos {q : Rat} (hq : 0 < q) : toFloat q = roundToFloat q.num.natAbs q.den := by
  rw [toFloat, if_neg hq.ne', if_neg hq.not_gt]

theorem toFloat_neg (q : Rat) : toFloat (-q) = -toFloat q := by
  rcases lt_trichotomy q 0 with hq | rfl | hq
  · rw [toFloat_of_pos (neg_pos.mpr hq), toFloat, if_neg hq.ne, if_pos hq, neg_neg, Rat.neg_num,
      Rat.neg_den, Int.natAbs_neg]
  · rw [neg_zero, toFloat_zero, neg_zero]
  · rw [toFloat_of_pos hq, toFloat, if_neg (neg_ne_zero.mpr hq.ne'), if_pos (neg_lt_zero.mpr hq),
      Rat.neg_num, Rat.neg_den, Int.natAbs_neg]

theorem natAbs_num_div_den {q : Rat} (hq : 0 < q) :
    0 < q.num.natAbs ∧ (q.num.natAbs / q.den : Rat) = q := by
  have hnum : 0 < q.num := Rat.num_pos.mpr hq
  have hcast : ((q.num.natAbs : Nat) : Rat) = q.num := by
    rw [← Int.cast_natCast, Int.natCast_natAbs, abs_of_pos hnum]
  exact ⟨by omega, by rw [hcast, Rat.num_div_den]⟩

theorem toFloat_near {q : Rat} (h : (2 : Rat) ^ (-126 : Int) ≤ q) :
    |toFloat q - q| ≤ 2 ^ (-23 : Int) * q := by
  have hpos : 0 < q := lt_of_lt_of_le (by positivity) h
  obtain ⟨hnum, hq⟩ := natAbs_num_div_den hpos
  have hnear := roundToFloat_near hnum q.den_pos (hq.symm ▸ h)
  rwa [hq, ← toFloat_of_pos hpos] at hnear

/-! ## Quotients of rounded integers -/

theorem one_le_cast {z : Int} (hz : 0 < z) : (1 : Rat) ≤ z := by exact_mod_cast hz

theorem quotient_near {u x y x' y' : Rat} (hu : u < 1) (hy : 0 < y) (hx' : |x' - x| ≤ u * x)
    (hy' : |y' - y| ≤ u * y) (hx : 0 < x) :
    0 < x' / y' ∧ x' / y' * (1 - u) ≤ x / y * (1 + u) ∧ x / y * (1 - u) ≤ x' / y' * (1 + u) := by
  rw [abs_le] at hx' hy'
  have hpos : 0 < y' := by nlinarith
  have hpos' : 0 < x' := by nlinarith
  have hc : x' / y' * y' = x' := div_mul_cancel₀ _ hpos.ne'
  have hl : x / y * y = x := div_mul_cancel₀ _ hy.ne'
  have hcpos := div_pos hpos' hpos
  have hlpos := div_pos hx hy
  generalize x' / y' = c at hc hcpos ⊢
  generalize x / y = l at hl hlpos ⊢
  refine ⟨hcpos, le_of_mul_le_mul_right ?_ hy, le_of_mul_le_mul_right ?_ hy⟩
  · calc c * (1 - u) * y = c * (y - u * y) := by ring
      _ ≤ c * y' := mul_le_mul_of_nonneg_left (by linarith) hcpos.le
      _ ≤ x + u * x := by linarith
      _ = l * (1 + u) * y := by rw [← hl]; ring
  · calc l * (1 - u) * y = x - u * x := by rw [← hl]; ring
      _ ≤ c * y' := by linarith
      _ ≤ c * (y + u * y) := mul_le_mul_of_nonneg_left (by linarith) hcpos.le
      _ = c * (1 + u) * y := by ring

theorem rounded_near {u c l r : Rat} (hu₀ : 0 ≤ u) (hu : u ≤ 1 / 8) (hl : 0 < l)
    (hhigh : c * (1 - u) ≤ l * (1 + u)) (hlow : l * (1 - u) ≤ c * (1 + u))
    (hr : |r - c| ≤ u * c) : |r - l| ≤ 4 * u * l := by
  rw [abs_le] at hr ⊢
  have hup : r ≤ l * (1 + 4 * u) := by
    refine le_of_mul_le_mul_right (a := 1 - u) ?_ (by linarith)
    calc r * (1 - u) ≤ c * (1 + u) * (1 - u) :=
          mul_le_mul_of_nonneg_right (by linarith) (by linarith)
      _ = c * (1 - u) * (1 + u) := by ring
      _ ≤ l * (1 + u) * (1 + u) := mul_le_mul_of_nonneg_right hhigh (by linarith)
      _ ≤ l * (1 + 4 * u) * (1 - u) := by nlinarith [mul_nonneg hl.le hu₀]
  have hdown : l * (1 - 4 * u) ≤ r := by
    refine le_of_mul_le_mul_right (a := 1 + u) ?_ (by linarith)
    calc l * (1 - 4 * u) * (1 + u) ≤ l * (1 - u) * (1 - u) := by
          nlinarith [mul_nonneg hl.le hu₀]
      _ ≤ c * (1 + u) * (1 - u) := mul_le_mul_of_nonneg_right hlow (by linarith)
      _ = c * (1 - u) * (1 + u) := by ring
      _ ≤ r * (1 + u) := mul_le_mul_of_nonneg_right (by linarith) (by linarith)
  constructor <;> linarith

/-- Rounding an integer, a positive one of 32 bits and their quotient moves the quotient by at most
one part in two millions. -/
theorem toFloat_div_near (n : Int) {w : Int} (hw : 0 < w) (hw' : w < 2 ^ 32) :
    |toFloat (toFloat n / toFloat w) - n / w| ≤ 2 ^ (-21 : Int) * |(n / w : Rat)| := by
  have hnormal : ∀ z : Int, 0 < z → (2 : Rat) ^ (-126 : Int) ≤ z := fun z hz =>
    (zpow_le_one_of_nonpos₀ one_le_two (by omega)).trans (one_le_cast hz)
  have hwpos : (0 : Rat) < w := by exact_mod_cast hw
  have hwide : (w : Rat) ≤ 2 ^ 32 := by exact_mod_cast hw'.le
  have hpositive : ∀ n : Int, 0 < n →
      |toFloat (toFloat n / toFloat w) - n / w| ≤ 2 ^ (-21 : Int) * (n / w) := by
    intro n hn
    have hnpos : (0 : Rat) < n := by exact_mod_cast hn
    obtain ⟨hpos, hhigh, hlow⟩ := quotient_near (by norm_num) hwpos (toFloat_near (hnormal n hn))
      (toFloat_near (hnormal w hw)) hnpos
    have hleast : (2 : Rat) ^ (-32 : Int) ≤ n / w := by
      rw [le_div_iff₀ hwpos]
      calc (2 : Rat) ^ (-32 : Int) * w ≤ 2 ^ (-32 : Int) * 2 ^ 32 :=
            mul_le_mul_of_nonneg_left hwide (by positivity)
        _ = 1 := by norm_num
        _ ≤ n := one_le_cast hn
    have hnear := rounded_near (by positivity) (by norm_num) (div_pos hnpos hwpos) hhigh hlow
      (toFloat_near (by norm_num at hleast hlow ⊢; linarith))
    calc |toFloat (toFloat n / toFloat w) - n / w| ≤ 4 * 2 ^ (-23 : Int) * (n / w) := hnear
      _ = 2 ^ (-21 : Int) * (n / w) := by norm_num
  rcases lt_trichotomy n 0 with hn | rfl | hn
  · have hneg := hpositive (-n) (by omega)
    have hnneg : (n / w : Rat) < 0 := div_neg_of_neg_of_pos (by exact_mod_cast hn) hwpos
    rw [Int.cast_neg, toFloat_neg, neg_div, neg_div, toFloat_neg, ← neg_sub', abs_neg] at hneg
    rwa [abs_of_neg hnneg]
  · simp [toFloat_zero]
  · rw [abs_of_pos (div_pos (by exact_mod_cast hn) hwpos)]
    exact hpositive n hn

theorem toFloat_div_pos {n w : Int} (hn : 0 < n) (hw : 0 < w) (hw' : w < 2 ^ 32) :
    0 < toFloat (toFloat n / toFloat w) := by
  have hquotient : (0 : Rat) < n / w := div_pos (by exact_mod_cast hn) (by exact_mod_cast hw)
  have hnear := toFloat_div_near n hw hw'
  rw [abs_of_pos hquotient, abs_le] at hnear
  have hsmall : (2 : Rat) ^ (-21 : Int) * (n / w) < n / w := by
    rw [mul_lt_iff_lt_one_left hquotient]
    norm_num
  linarith

end Relb
