import Mathlib.Data.List.Induction
import Mathlib.Data.List.Sort
import Mathlib.Tactic.Common
/-!
# Insertion in front of the first match

A list is built by putting each element in front of the first one that a test accepts. The test may
be strict or not, as long as it agrees with the order that the list is sorted by; the opposite test
then builds the list in the opposite direction, elements that are equal in the order included.
-/

namespace Relb.Lib

variable {α β : Type*} {r le : α → α → Prop} [DecidableRel r] {a b : α} {l : List α}

/-- `r` says where an element goes in a list that is sorted by `le`. -/
structure Places (r le : α → α → Prop) : Prop where
  le_of_place : ∀ {a b}, r a b → le a b
  ge_of_pass : ∀ {a b}, ¬r a b → le b a
  trans : ∀ {a b c}, le a b → le b c → le a c
  place_of_le : ∀ {a b c}, r a b → le b c → r a c

theorem Places.congr {r' le' : α → α → Prop} (h : Places r le) (hr : ∀ a b, r' a b ↔ r a b)
    (hle : ∀ a b, le' a b ↔ le a b) : Places r' le' := by
  obtain rfl : r' = r := funext fun a => funext fun b => propext (hr a b)
  obtain rfl : le' = le := funext fun a => funext fun b => propext (hle a b)
  exact h

section Order

variable [LinearOrder β]

/-- A strict test puts an element behind its equals. -/
theorem places_lt (f : α → β) : Places (fun a b => f a < f b) fun a b => f a ≤ f b where
  le_of_place := le_of_lt
  ge_of_pass := le_of_not_gt
  trans := le_trans
  place_of_le := lt_of_lt_of_le

/-- The other one puts it in front of them. -/
theorem places_le (f : α → β) : Places (fun a b => f a ≤ f b) fun a b => f a ≤ f b where
  le_of_place := id
  ge_of_pass := fun h => le_of_lt (lt_of_not_ge h)
  trans := le_trans
  place_of_le := le_trans

end Order

theorem Places.pairwise_orderedInsert (h : Places r le) (hl : l.Pairwise le) :
    (l.orderedInsert r a).Pairwise le := by
  induction l with
  | nil => exact List.pairwise_singleton le a
  | cons b l ih =>
      obtain ⟨hb, hrest⟩ := List.pairwise_cons.mp hl
      rw [List.orderedInsert_cons]
      split
      · rename_i hplace
        apply List.pairwise_cons.mpr
        refine ⟨fun c hc => ?_, hl⟩
        rcases List.mem_cons.mp hc with rfl | hc
        · exact h.le_of_place hplace
        · exact h.trans (h.le_of_place hplace) (hb c hc)
      · rename_i hpass
        apply List.pairwise_cons.mpr
        refine ⟨fun c hc => ?_, ih hrest⟩
        rcases List.mem_orderedInsert r |>.mp hc with rfl | hc
        · exact h.ge_of_pass hpass
        · exact hb c hc

/-! ## The opposite test -/

theorem orderedInsert_eq_concat (h : ∀ b ∈ l, ¬r a b) : l.orderedInsert r a = l ++ [a] := by
  induction l with
  | nil => rfl
  | cons b l ih =>
      rw [List.forall_mem_cons] at h
      rw [List.orderedInsert_cons, if_neg h.1, ih h.2, List.cons_append]

/-- A match at the end stays there. -/
theorem orderedInsert_concat (h : r a b) : (l ++ [b]).orderedInsert r a =
    l.orderedInsert r a ++ [b] := by
  induction l with
  | nil => simp [h]
  | cons c l ih =>
      rw [List.cons_append, List.orderedInsert_cons, List.orderedInsert_cons]
      split
      · rfl
      · rw [ih, List.cons_append]

/-- The opposite test puts an element at the same place of the list in the opposite direction. -/
theorem Places.reverse_orderedInsert (h : Places r le) (hl : l.Pairwise le) :
    (l.orderedInsert r a).reverse = l.reverse.orderedInsert (fun a b => ¬r a b) a := by
  induction l with
  | nil => rfl
  | cons b l ih =>
      obtain ⟨hb, hrest⟩ := List.pairwise_cons.mp hl
      rw [List.orderedInsert_cons, List.reverse_cons]
      split
      · rename_i hplace
        have hall : ∀ c ∈ l.reverse ++ [b], ¬¬r a c := by
          intro c hc
          rw [not_not]
          rcases List.mem_append.mp hc with hc | hc
          · exact h.place_of_le hplace (hb c (List.mem_reverse.mp hc))
          · exact List.mem_singleton.mp hc ▸ hplace
        rw [orderedInsert_eq_concat hall, List.reverse_cons, List.reverse_cons]
      · rename_i hpass
        rw [orderedInsert_concat hpass, List.reverse_cons, ih hrest]

/-! ## Whole lists -/

/-- The elements are inserted one after the other. -/
def insertAll (r : α → α → Prop) [DecidableRel r] (l : List α) : List α :=
  l.foldl (fun sorted a => sorted.orderedInsert r a) []

theorem insertAll_eq (r : α → α → Prop) [DecidableRel r] (l : List α) :
    insertAll r l = l.reverse.insertionSort r := by
  rw [List.insertionSort, List.foldr_reverse]
  rfl

theorem perm_insertAll (r : α → α → Prop) [DecidableRel r] (l : List α) :
    (insertAll r l).Perm l := by
  rw [insertAll_eq]
  exact (List.perm_insertionSort r l.reverse).trans (List.reverse_perm l)

theorem insertAll_concat (r : α → α → Prop) [DecidableRel r] (l : List α) (a : α) :
    insertAll r (l ++ [a]) = (insertAll r l).orderedInsert r a := by
  unfold insertAll
  rw [List.foldl_append]
  rfl

theorem Places.pairwise_insertAll (h : Places r le) (l : List α) :
    (insertAll r l).Pairwise le := by
  induction l using List.reverseRecOn with
  | nil => exact .nil
  | append_singleton l a ih =>
      rw [insertAll_concat]
      exact h.pairwise_orderedInsert ih

theorem Places.reverse_insertAll (h : Places r le) (l : List α) :
    (insertAll r l).reverse = insertAll (fun a b => ¬r a b) l := by
  induction l using List.reverseRecOn with
  | nil => rfl
  | append_singleton l a ih =>
      rw [insertAll_concat, insertAll_concat, h.reverse_orderedInsert (h.pairwise_insertAll l), ih]

end Relb.Lib
