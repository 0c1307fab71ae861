import Mathlib.Data.List.TakeWhile
import Mathlib.Tactic.Common
import Mathlib.Tactic.TypeStar
import Relb.Lib.Keyed
/-!
# Lists in sections

Some elements of a list are heads, and a section is a head with the elements behind it up to the
next one. A reader that opens a group at each head and adds every other element to the last group
has the sections in the end, one group each. What stands in front of the first head is added to the
group that was the last one before.
-/

namespace Relb.Lib

variable {α β γ : Type*} {head? : α → Option β} {l : List α}

/-- The elements in front of the next head. -/
def body (head? : α → Option β) (l : List α) : List α := l.takeWhile fun a => (head? a).isNone

/-- Each head, with what follows it. -/
def sections (head? : α → Option β) : List α → List (β × List α)
  | [] => []
  | a :: l =>
      match head? a with
      | some b => (b, body head? l) :: sections head? l
      | none => sections head? l

theorem body_cons_of_none {a : α} (h : head? a = none) (l : List α) :
    body head? (a :: l) = a :: body head? l := List.takeWhile_cons_of_pos (by simp [h])

theorem body_cons_of_some {a : α} {b : β} (h : head? a = some b) (l : List α) :
    body head? (a :: l) = [] := List.takeWhile_cons_of_neg (by simp [h])

theorem sections_cons_of_none {a : α} (h : head? a = none) (l : List α) :
    sections head? (a :: l) = sections head? l := by rw [sections, h]

theorem sections_cons_of_some {a : α} {b : β} (h : head? a = some b) (l : List α) :
    sections head? (a :: l) = (b, body head? l) :: sections head? l := by rw [sections, h]

/-! ## Reading -/

/-- What the reader does with an element. -/
def readItem (head? : α → Option β) (start : β → γ) (add : γ → α → γ) (groups : List γ) (a : α) :
    List γ :=
  match head? a with
  | some b => groups ++ [start b]
  | none => groups.modify (groups.length - 1) fun g => add g a

theorem readItem_of_none {start : β → γ} {add : γ → α → γ} {a : α} (h : head? a = none)
    (groups : List γ) : readItem head? start add groups a =
      groups.modify (groups.length - 1) fun g => add g a := by rw [readItem, h]

theorem readItem_of_some {start : β → γ} {add : γ → α → γ} {a : α} {b : β} (h : head? a = some b)
    (groups : List γ) : readItem head? start add groups a = groups ++ [start b] := by
  rw [readItem, h]

/-- The group of a section. -/
def groupOf (start : β → γ) (add : γ → α → γ) (s : β × List α) : γ := s.2.foldl add (start s.1)

variable {start : β → γ} {add : γ → α → γ}

theorem foldl_readItem (groups : List γ) :
    l.foldl (readItem head? start add) groups =
      groups.modify (groups.length - 1) (fun g => (body head? l).foldl add g) ++
        (sections head? l).map (groupOf start add) := by
  induction l generalizing groups with
  | nil => exact (List.append_nil _).trans (List.modify_id _ groups) |>.symm
  | cons a l ih =>
      rw [List.foldl_cons, ih]
      cases h : head? a with
      | none =>
          rw [readItem_of_none h, body_cons_of_none h, sections_cons_of_none h, List.length_modify,
            List.modify_modify_eq]
          rfl
      | some b =>
          -- the head closes the group that was the last one
          have hclosed : groups.modify (groups.length - 1) (fun g => ([] : List α).foldl add g) =
              groups := List.modify_id _ groups
          rw [readItem_of_some h, body_cons_of_some h, sections_cons_of_some h, hclosed,
            List.length_append, List.length_singleton, Nat.add_sub_cancel, modify_append_cons,
            List.map_cons, List.append_assoc]
          rfl

/-- From nothing on, the groups are those of the sections. -/
theorem foldl_readItem_nil (l : List α) :
    l.foldl (readItem head? start add) [] = (sections head? l).map (groupOf start add) := by
  rw [foldl_readItem, List.modify_nil, List.nil_append]

/-! ## Last values -/

/-- A loop that keeps the last value that an element gives. -/
theorem foldl_getD {f : α → Option β} (b : β) :
    l.foldl (fun b a => (f a).getD b) b = (l.filterMap f).getLast?.getD b := by
  induction l generalizing b with
  | nil => rfl
  | cons a l ih =>
      rw [List.foldl_cons, ih, List.filterMap_cons]
      cases f a with
      | none => rfl
      | some b' =>
          dsimp only
          rw [List.getLast?_cons]
          rfl

end Relb.Lib
