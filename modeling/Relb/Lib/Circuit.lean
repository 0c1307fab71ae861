import Mathlib.Data.List.Iterate
import Mathlib.Data.List.Rotate
import Mathlib.Tactic.Common
import Mathlib.Tactic.TypeStar
/-!
# Once around a circle

A loop follows a function from place to place until it comes to the place where it has to stop.
On a circle of `n` places a loop that has to stop at its own start ends, and it has been to every
other place once, in circular order.
-/

namespace Relb.Lib

variable {α β : Type*}

/-! ## Loops that stop at a place -/

/-- Passes none of which fails. -/
theorem foldlM_eq_some {body : β → α → Option β} {f : β → α → β} {l : List α}
    (h : ∀ a ∈ l, ∀ b, body b a = some (f b a)) (b : β) : l.foldlM body b = some (l.foldl f b) := by
  induction l generalizing b with
  | nil => rfl
  | cons a l ih =>
      rw [List.forall_mem_cons] at h
      rw [List.foldlM_cons, h.1]
      exact ih h.2 (f b a)

section While

variable [DecidableEq α] {stop i : α} {next : α → α} {body : β → α → Option β} {fuel d : Nat}
  {b : β}

/-- `while( i != stop ) { body; i = next( i ); }`. There is no result if a pass fails, or if the
loop is not over after `fuel` passes. -/
def whileNot (stop : α) (next : α → α) (body : β → α → Option β) :
    Nat → α → β → Option (α × β)
  | 0, i, b => if i = stop then some (i, b) else none
  | fuel + 1, i, b =>
      if i = stop then some (i, b)
      else (body b i).bind (whileNot stop next body fuel (next i))

theorem whileNot_stop (next : α → α) (body : β → α → Option β) (fuel : Nat) (stop : α) (b : β) :
    whileNot stop next body fuel stop b = some (stop, b) := by
  cases fuel with
  | zero => exact if_pos rfl
  | succ fuel => exact if_pos rfl

/-- A loop that first comes to `stop` after `d` passes. -/
theorem whileNot_eq_foldlM (hstop : next^[d] i = stop) (hbefore : ∀ k < d, next^[k] i ≠ stop)
    (hfuel : d ≤ fuel) :
    whileNot stop next body fuel i b =
      ((List.iterate next i d).foldlM body b).map (stop, ·) := by
  induction d generalizing fuel i b with
  | zero =>
      obtain rfl : i = stop := hstop
      exact whileNot_stop next body fuel i b
  | succ d ih =>
      obtain ⟨fuel, rfl⟩ : ∃ m, fuel = m + 1 := ⟨fuel - 1, by omega⟩
      have hi : i ≠ stop := hbefore 0 (Nat.succ_pos d)
      have hbefore' : ∀ k < d, next^[k] (next i) ≠ stop :=
        fun k hk => hbefore (k + 1) (Nat.succ_lt_succ hk)
      rw [whileNot, if_neg hi, List.iterate, List.foldlM_cons]
      cases body b i with
      | none => rfl
      | some c => exact ih hstop hbefore' (Nat.le_of_succ_le_succ hfuel)

end While

/-! ## Circles -/

section Circle

variable {n i fuel : Nat}

/-- The place behind `i`, back to the first one behind the last one. -/
def around (n i : Nat) : Nat := if i + 1 ≥ n then 0 else i + 1

theorem around_eq_mod (hi : i < n) : around n i = (i + 1) % n := by
  unfold around
  split
  · obtain rfl : i + 1 = n := by omega
    exact (Nat.mod_self _).symm
  · exact (Nat.mod_eq_of_lt (by omega)).symm

theorem iterate_around (hi : i < n) (k : Nat) : (around n)^[k] i = (i + k) % n := by
  induction k with
  | zero => exact (Nat.mod_eq_of_lt hi).symm
  | succ k ih =>
      have hlt : (i + k) % n < n := Nat.mod_lt _ (by omega)
      rw [Function.iterate_succ_apply', ih, around_eq_mod hlt, Nat.mod_add_mod, Nat.add_assoc]

/-- All places from `i` on, in circular order. -/
theorem iterate_around_eq_rotate (hi : i < n) :
    List.iterate (around n) i n = (List.range n).rotate i := by
  apply List.ext_getElem
  · simp
  · intro k _ _
    rw [List.getElem_iterate, iterate_around hi, List.getElem_rotate, List.getElem_range,
      List.length_range, Nat.add_comm]

/-- The start does not come back before the last place. -/
theorem iterate_around_ne {k : Nat} (hi : i < n) (hk : k + 1 < n) : (around n)^[k + 1] i ≠ i := by
  rw [iterate_around hi]
  by_cases hlt : i + (k + 1) < n
  · rw [Nat.mod_eq_of_lt hlt]
    omega
  · rw [Nat.mod_eq_sub_mod (by omega), Nat.mod_eq_of_lt (by omega)]
    omega

/-- From the place behind `i` back to `i`. -/
theorem whileNot_around (body : β → Nat → Option β) (hi : i < n) (hfuel : n - 1 ≤ fuel) (b : β) :
    whileNot i (around n) body fuel (around n i) b =
      (((List.range n).rotate i).tail.foldlM body b).map (i, ·) := by
  obtain ⟨m, rfl⟩ : ∃ m, n = m + 1 := ⟨n - 1, by omega⟩
  have hback : (around (m + 1))^[m] (around (m + 1) i) = i := by
    rw [← Function.iterate_succ_apply, iterate_around hi, Nat.add_mod_right, Nat.mod_eq_of_lt hi]
  have hbefore : ∀ k < m, (around (m + 1))^[k] (around (m + 1) i) ≠ i := by
    intro k hk
    rw [← Function.iterate_succ_apply]
    exact iterate_around_ne hi (Nat.succ_lt_succ hk)
  rw [whileNot_eq_foldlM hback hbefore hfuel, ← iterate_around_eq_rotate hi]
  rfl

end Circle

end Relb.Lib
