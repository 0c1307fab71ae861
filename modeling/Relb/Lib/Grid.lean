import Mathlib.Algebra.Order.Ring.Int
import Mathlib.Tactic.Common
import Mathlib.Tactic.Ring
/-!
# Times on a grid

The grid of a time `t` with the period `p` has the points `t + k * p`. A clock that reads `now`
leads to the next point: as many periods as have gone by, and one more. A log of such points, with
the readings that they come from, stays on the grid of the first one.
-/

namespace Relb.Lib

variable {p now t : Int} {log : List (Int × Int)}

def nextPoint (p now t : Int) : Int := t + ((now - t) / p + 1) * p

theorem lt_nextPoint (hp : 0 < p) (now t : Int) : now < nextPoint p now t :=
  Int.lt_add_of_sub_left_lt (Int.lt_ediv_add_one_mul_self (now - t) hp)

theorem nextPoint_le (hp : 0 < p) (now t : Int) : nextPoint p now t ≤ now + p := by
  have hle : (now - t) / p * p ≤ now - t := Int.ediv_mul_le _ (Int.ne_of_gt hp)
  calc
    nextPoint p now t = t + (now - t) / p * p + p := by unfold nextPoint; ring
    _ ≤ t + (now - t) + p := Int.add_le_add_right (Int.add_le_add_left hle t) p
    _ = now + p := by ring

/-- The next point is a period later at least. -/
theorem add_le_nextPoint (hp : 0 < p) (ht : t ≤ now) : t + p ≤ nextPoint p now t := by
  have hperiods : 0 ≤ (now - t) / p := Int.ediv_nonneg (by omega) (Int.le_of_lt hp)
  calc
    t + p = t + (0 + 1) * p := by ring
    _ ≤ t + ((now - t) / p + 1) * p :=
      Int.add_le_add_left
        (Int.mul_le_mul_of_nonneg_right (Int.add_le_add_right hperiods 1) (Int.le_of_lt hp)) t
    _ = nextPoint p now t := rfl

theorem dvd_nextPoint_sub (p now t : Int) : p ∣ nextPoint p now t - t :=
  ⟨(now - t) / p + 1, by unfold nextPoint; ring⟩

/-- From a time that has gone by a positive number of periods leads there. -/
theorem exists_nextPoint_eq (hp : 0 < p) (ht : t ≤ now) :
    ∃ k : Nat, nextPoint p now t = t + k * p := by
  have hperiods : 0 ≤ (now - t) / p := Int.ediv_nonneg (by omega) (Int.le_of_lt hp)
  refine ⟨((now - t) / p + 1).toNat, ?_⟩
  rw [Int.toNat_of_nonneg (by omega)]
  rfl

/-! ## Logs -/

/-- The log consists of pairs of a clock value and the point that it leads to. -/
structure OnGrid (t p : Int) (log : List (Int × Int)) : Prop where
  point : ∀ a ∈ log, ∃ k : Nat, a.2 = t + k * p
  next : ∀ a ∈ log, a.1 < a.2 ∧ a.2 ≤ a.1 + p
  increasing : (t :: log.map Prod.snd).Pairwise (· < ·)

namespace OnGrid

theorem nil (t p : Int) : OnGrid t p [] := ⟨by simp, by simp, by simp⟩

/-- A log that goes on behind the next point. -/
theorem cons (hp : 0 < p) (ht : t ≤ now) (h : OnGrid (nextPoint p now t) p log) :
    OnGrid t p ((now, nextPoint p now t) :: log) := by
  obtain ⟨k, hk⟩ := exists_nextPoint_eq hp ht
  constructor
  case point =>
    intro a ha
    rcases List.mem_cons.mp ha with rfl | ha
    · exact ⟨k, hk⟩
    · obtain ⟨j, hj⟩ := h.point a ha
      refine ⟨k + j, ?_⟩
      rw [hj, hk]
      push_cast
      ring
  case next =>
    intro a ha
    rcases List.mem_cons.mp ha with rfl | ha
    · exact ⟨lt_nextPoint hp now t, nextPoint_le hp now t⟩
    · exact h.next a ha
  case increasing =>
    have hlater : t < nextPoint p now t := Int.lt_of_le_of_lt ht (lt_nextPoint hp now t)
    rw [List.map_cons, List.pairwise_cons]
    refine ⟨fun y hy => ?_, h.increasing⟩
    rcases List.mem_cons.mp hy with rfl | hy
    · exact hlater
    · exact Int.lt_trans hlater ((List.pairwise_cons.mp h.increasing).1 y hy)

end OnGrid

/-! ## Pace

Something is due at some time, and whenever it is done, it is due again `p` later than it was, or
even later.
-/

/-- It was due at `first`, is due at `due`, and has been done at the times of the log. -/
structure Paced (p first due : Int) (log : List Int) : Prop where
  le_due : first + log.length * p ≤ due
  le_time : ∀ (k : Nat) (t : Int), log[k]? = some t → first + k * p ≤ t

namespace Paced

variable {first due next : Int} {log : List Int}

theorem nil (p first : Int) : Paced p first first [] := ⟨by simp, by simp⟩

/-- It is done when it is due. -/
theorem concat (h : Paced p first due log) (hdue : due ≤ now) (hnext : due + p ≤ next) :
    Paced p first next (log ++ [now]) := by
  have hle := h.le_due
  constructor
  case le_due =>
    rw [List.length_append, List.length_singleton]
    push_cast
    calc
      first + ((log.length : Int) + 1) * p = first + log.length * p + p := by ring
      _ ≤ due + p := Int.add_le_add_right hle p
      _ ≤ next := hnext
  case le_time =>
    intro k t ht
    rcases Nat.lt_or_ge k log.length with hk | hk
    · rw [List.getElem?_append_left hk] at ht
      exact h.le_time k t ht
    · obtain ⟨hlast, -⟩ := List.getElem?_eq_some_iff.mp ht
      rw [List.length_append, List.length_singleton] at hlast
      obtain rfl : k = log.length := by omega
      rw [List.getElem?_concat_length] at ht
      exact Option.some.inj ht ▸ Int.le_trans hle hdue

/-- Until `t` it has been done once for each period that has begun. -/
theorem countP_le (h : Paced p first due log) (hp : 0 < p) (t : Int) :
    (log.countP (· ≤ t) : Int) ≤ max 0 ((t - first) / p + 1) := by
  have hlate : ∀ x ∈ log.drop ((t - first) / p + 1).toNat, t < x := by
    intro x hx
    obtain ⟨j, hj⟩ := List.mem_iff_getElem?.mp hx
    rw [List.getElem?_drop] at hj
    have htime := h.le_time _ x hj
    by_contra hle
    have hperiods : ((((t - first) / p + 1).toNat + j : Nat) : Int) ≤ (t - first) / p :=
      (Int.le_ediv_iff_mul_le hp).mpr (by omega)
    omega
  have hnone : (log.drop ((t - first) / p + 1).toNat).countP (· ≤ t) = 0 := by
    rw [List.countP_eq_zero]
    intro x hx
    have hlt := hlate x hx
    simpa using hlt
  calc
    (log.countP (· ≤ t) : Int) = ((log.take ((t - first) / p + 1).toNat).countP (· ≤ t) : Nat) := by
      conv => lhs; rw [← List.take_append_drop ((t - first) / p + 1).toNat log]
      rw [List.countP_append, hnone, Nat.add_zero]
    _ ≤ ((t - first) / p + 1).toNat := by
      have hlength := List.countP_le_length (p := fun x => decide (x ≤ t))
        (l := log.take ((t - first) / p + 1).toNat)
      rw [List.length_take] at hlength
      omega
    _ ≤ max 0 ((t - first) / p + 1) := by omega

end Paced

end Relb.Lib
