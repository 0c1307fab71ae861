import Mathlib.Data.List.Basic
import Mathlib.Data.List.Induction
import Mathlib.Logic.Function.Basic
import Mathlib.Tactic.Common
import Mathlib.Tactic.TypeStar
/-!
# Handles that are given out again

A table gives out handles and takes them back, and a handle that has come back may be given out
again, to somebody else. The table does not ask who uses a handle or gives it back. If each owner
by itself uses and gives back only what it holds, then however the owners interleave, nobody
touches a handle of another one.
-/

namespace Relb.Lib

inductive HandleOp (κ : Type*)
  | acquire (h : κ)
  | use (h : κ)
  | release (h : κ)
  deriving DecidableEq, Repr

namespace HandleOp

variable {ι κ : Type*}

section Owner

variable [DecidableEq κ]

/-! ## One owner -/

/-- What an owner holds behind the operation, if it may do it. -/
def keep (held : κ → Bool) : HandleOp κ → Option (κ → Bool)
  | .acquire h => if held h then none else some (Function.update held h true)
  | .use h => if held h then some held else none
  | .release h => if held h then some (Function.update held h false) else none

/-- What an owner holds that has done these operations, if it has kept to the rule. -/
def holds (ops : List (HandleOp κ)) : Option (κ → Bool) := ops.foldlM keep fun _ => false

theorem holds_concat (ops : List (HandleOp κ)) (op : HandleOp κ) :
    holds (ops ++ [op]) = (holds ops).bind (keep · op) := by
  rw [holds, List.foldlM_append]
  simp [holds]

/-- The rule has been kept all the way. -/
theorem isSome_of_prefix {ops : List (HandleOp κ)} (more : List (HandleOp κ))
    (h : (holds (ops ++ more)).isSome) : (holds ops).isSome := by
  rw [holds, List.foldlM_append] at h
  cases hops : ops.foldlM keep fun _ => false with
  | none =>
      rw [hops] at h
      cases h
  | some held => rw [holds, hops]; rfl

end Owner

/-! ## All owners -/

section History

variable [DecidableEq ι]

/-- What one owner has done. -/
def history (i : ι) (log : List (ι × HandleOp κ)) : List (HandleOp κ) :=
  (log.filter (·.1 = i)).map Prod.snd

theorem history_concat_self (i : ι) (op : HandleOp κ) (log : List (ι × HandleOp κ)) :
    history i (log ++ [(i, op)]) = history i log ++ [op] := by
  simp [history]

theorem history_concat_of_ne {i j : ι} (hne : j ≠ i) (op : HandleOp κ)
    (log : List (ι × HandleOp κ)) : history i (log ++ [(j, op)]) = history i log := by
  simp [history, hne]

end History

section Table

variable [DecidableEq κ]

/-- The owners of the handles behind an operation. Whoever gives a handle back, it is free. -/
def record (owner : κ → Option ι) : ι × HandleOp κ → κ → Option ι
  | (i, .acquire h) => Function.update owner h (some i)
  | (_, .use _) => owner
  | (_, .release h) => Function.update owner h none

def ownerAfter (log : List (ι × HandleOp κ)) : κ → Option ι := log.foldl record fun _ => none

theorem ownerAfter_concat (log : List (ι × HandleOp κ)) (x : ι × HandleOp κ) :
    ownerAfter (log ++ [x]) = record (ownerAfter log) x := List.foldl_concat ..

/-- Only free handles are given out. -/
def Given (owner : κ → Option ι) : ι × HandleOp κ → Prop
  | (_, .acquire h) => owner h = none
  | _ => True

instance [DecidableEq ι] (owner : κ → Option ι) : ∀ x, Decidable (Given owner x)
  | (_, .acquire h) => inferInstanceAs (Decidable (owner h = none))
  | (_, .use _) => .isTrue trivial
  | (_, .release _) => .isTrue trivial

/-- The handle is the caller's. -/
def Own (owner : κ → Option ι) : ι × HandleOp κ → Prop
  | (_, .acquire _) => True
  | (i, .use h) => owner h = some i
  | (i, .release h) => owner h = some i

variable {owner : κ → Option ι} {i j : ι} {op : HandleOp κ}

/-- The others hold what they held. -/
theorem record_other (hne : j ≠ i) (hgiven : Given owner (i, op)) (hown : Own owner (i, op))
    (k : κ) : record owner (i, op) k = some j ↔ owner k = some j := by
  cases op with
  | acquire l =>
      change owner l = none at hgiven
      by_cases hk : k = l
      · subst hk
        simp [record, hgiven, hne.symm]
      · simp [record, hk]
  | use l => exact Iff.rfl
  | release l =>
      change owner l = some i at hown
      by_cases hk : k = l
      · subst hk
        simp [record, hown, hne.symm]
      · simp [record, hk]

end Table

section Owners

variable [DecidableEq ι] [DecidableEq κ] {owner : κ → Option ι} {log : List (ι × HandleOp κ)}
  {i j : ι} {op : HandleOp κ}

/-- The owner that acts keeps to the rule, so the handle is its own. -/
theorem own_of_keep {held : κ → Bool}
    (h : keep (fun k => decide (owner k = some i)) op = some held) (hgiven : Given owner (i, op)) :
    Own owner (i, op) ∧ held = fun k => decide (record owner (i, op) k = some i) := by
  cases op with
  | acquire k =>
      change owner k = none at hgiven
      simp only [keep, hgiven] at h
      obtain rfl := Option.some.inj h
      refine ⟨trivial, funext fun l => ?_⟩
      by_cases hl : l = k
      · subst hl
        simp [record]
      · simp [record, hl]
  | use k =>
      rw [keep] at h
      split_ifs at h with hown
      have hmine : owner k = some i := of_decide_eq_true hown
      exact ⟨hmine, (Option.some.inj h).symm⟩
  | release k =>
      rw [keep] at h
      split_ifs at h with hown
      have hmine : owner k = some i := of_decide_eq_true hown
      refine ⟨hmine, (Option.some.inj h).symm.trans (funext fun l => ?_)⟩
      by_cases hl : l = k
      · subst hl
        simp [record]
      · simp [record, hl]

/-- If the table gives out free handles only and every owner keeps to the rule by itself, every
handle that is used or given back is the caller's, and the owners hold what they have taken. -/
theorem owned (hgiven : ∀ k x, log[k]? = some x → Given (ownerAfter (log.take k)) x)
    (hkept : ∀ i, (holds (history i log)).isSome) :
    (∀ k x, log[k]? = some x → Own (ownerAfter (log.take k)) x) ∧
      ∀ i, holds (history i log) = some fun k => decide (ownerAfter log k = some i) := by
  induction log using List.reverseRecOn with
  | nil => exact ⟨nofun, fun i => rfl⟩
  | append_singleton log x ih =>
      obtain ⟨i, op⟩ := x
      have htake : ∀ {k x}, log[k]? = some x →
          (log ++ [(i, op)])[k]? = some x ∧ (log ++ [(i, op)]).take k = log.take k := by
        intro k x hx
        have hk := (List.getElem?_eq_some_iff.mp hx).1
        exact ⟨by rw [List.getElem?_append_left hk, hx],
          List.take_append_of_le_length (Nat.le_of_lt hk)⟩
      have hprefix : ∀ j, (holds (history j log)).isSome := by
        intro j
        have hj := hkept j
        by_cases hij : i = j
        · subst hij
          rw [history_concat_self] at hj
          exact isSome_of_prefix [op] hj
        · rwa [history_concat_of_ne hij] at hj
      obtain ⟨hown, hholds⟩ := ih (fun k x hx => (htake hx).2 ▸ hgiven k x (htake hx).1) hprefix
      have hnow : Given (ownerAfter log) (i, op) := by
        have hlast := hgiven log.length (i, op) (by simp)
        rwa [List.take_left] at hlast
      have hself := hkept i
      rw [history_concat_self, holds_concat, hholds, Option.bind_some, Option.isSome_iff_exists]
        at hself
      obtain ⟨held, hheld⟩ := hself
      obtain ⟨hmine, heq⟩ := own_of_keep hheld hnow
      refine ⟨fun k x hx => ?_, fun j => ?_⟩
      · rcases Nat.lt_or_ge k log.length with hk | hk
        · rw [List.getElem?_append_left hk] at hx
          rw [(htake hx).2]
          exact hown k x hx
        · have hlast := (List.getElem?_eq_some_iff.mp hx).1
          rw [List.length_append, List.length_singleton] at hlast
          obtain rfl : k = log.length := by omega
          rw [List.getElem?_concat_length] at hx
          obtain rfl := Option.some.inj hx
          rw [List.take_left]
          exact hmine
      · rw [ownerAfter_concat]
        by_cases hj : i = j
        · subst hj
          rw [history_concat_self, holds_concat, hholds, Option.bind_some, hheld, heq]
        · rw [history_concat_of_ne hj, hholds]
          simp only [record_other (Ne.symm hj) hnow hmine]

end Owners

end HandleOp

end Relb.Lib
