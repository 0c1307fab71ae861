import Mathlib.Data.List.TakeWhile
import Mathlib.Tactic.Common
import Mathlib.Tactic.TypeStar
/-!
# Reading a text through an index

A text is kept without the mark that ends it. The mark may be read, as `none`, and a read behind it
is a fault. `Stands text h s` says that `s` is what is left of the text at the index `h`; a program
that moves an index is described by what it does to the rest of the text. A text that is made of
fields is taken apart again by loops that stop where a field ends.
-/

namespace Relb.Lib

variable {α β ε : Type*}

/-- `text[h]`. -/
def readAt (fault : ε) (text : List α) (h : Nat) : Except ε (Option α) :=
  if h ≤ text.length then .ok text[h]? else .error fault

/-- `while( p( text[h] ) ) { b = f( b, text[h] ); h++; }`, with at most `fuel` passes. -/
def foldFrom (fault : ε) (p : α → Bool) (f : β → α → β) (text : List α) :
    Nat → β → Nat → Except ε (β × Nat)
  | 0, b, h => .ok (b, h)
  | fuel + 1, b, h =>
      match readAt fault text h with
      | .ok (some a) =>
          if p a then foldFrom fault p f text fuel (f b a) (h + 1) else .ok (b, h)
      | .ok none => .ok (b, h)
      | .error e => .error e

/-- A loop that ends at the mark at the latest. -/
def foldWhile (fault : ε) (p : α → Bool) (f : β → α → β) (text : List α) (b : β) (h : Nat) :
    Except ε (β × Nat) := foldFrom fault p f text (text.length + 1) b h

/-- `while( p( text[h] ) ) h++`. -/
def scanWhile (fault : ε) (p : α → Bool) (text : List α) (h : Nat) : Except ε Nat :=
  (foldWhile fault p (fun _ _ => ()) text () h).map Prod.snd

/-- The elements from `h` on are those of `word`; the first other one ends the comparison. -/
def matchAt [DecidableEq α] (fault : ε) (text : List α) : List α → Nat → Except ε Bool
  | [], _ => .ok true
  | w :: word, h =>
      match readAt fault text h with
      | .ok (some a) => if a = w then matchAt fault text word (h + 1) else .ok false
      | .ok none => .ok false
      | .error e => .error e

/-- The `n` elements from `h` on; the mark ends the copy. -/
def copyAt (fault : ε) (text : List α) : Nat → Nat → Except ε (List α)
  | 0, _ => .ok []
  | n + 1, h =>
      match readAt fault text h with
      | .ok (some a) => (copyAt fault text n (h + 1)).map (a :: ·)
      | .ok none => .ok []
      | .error e => .error e

/-- What is left of the text at `h`. -/
def Stands (text : List α) (h : Nat) (s : List α) : Prop :=
  ∃ front, text = front ++ s ∧ h = front.length

namespace Stands

variable {text s : List α} {a : α} {h : Nat} {p : α → Bool} {f : β → α → β} {fault : ε}

theorem zero (text : List α) : Stands text 0 text := ⟨[], rfl, rfl⟩

/-- Behind the first elements. -/
theorem append {s' : List α} (hs : Stands text h (s ++ s')) : Stands text (h + s.length) s' := by
  obtain ⟨front, rfl, rfl⟩ := hs
  exact ⟨front ++ s, (List.append_assoc ..).symm, List.length_append.symm⟩

theorem next (hs : Stands text h (a :: s)) : Stands text (h + 1) s := append (s := [a]) hs

theorem readAt_eq (hs : Stands text h s) : readAt fault text h = .ok s.head? := by
  obtain ⟨front, rfl, rfl⟩ := hs
  unfold readAt
  rw [if_pos (by simp), List.getElem?_append_right (Nat.le_refl _), Nat.sub_self,
    List.head?_eq_getElem?]

/-- The index is in the text, and the rest ends with it. -/
theorem length_eq (hs : Stands text h s) : h + s.length = text.length := by
  obtain ⟨front, rfl, rfl⟩ := hs
  exact List.length_append.symm

theorem foldFrom_eq (hs : Stands text h s) {fuel : Nat} (hfuel : s.length < fuel) (b : β) :
    foldFrom fault p f text fuel b h =
      .ok ((s.takeWhile p).foldl f b, h + (s.takeWhile p).length) := by
  induction fuel generalizing s h b with
  | zero => omega
  | succ fuel ih =>
      rw [foldFrom, hs.readAt_eq]
      cases s with
      | nil => rfl
      | cons a s =>
          dsimp only [List.head?_cons]
          cases hp : p a with
          | false => simp [hp]
          | true =>
              rw [if_pos rfl, ih hs.next (Nat.lt_of_succ_lt_succ hfuel),
                List.takeWhile_cons_of_pos hp, List.foldl_cons, List.length_cons,
                Nat.add_right_comm, Nat.add_assoc]

/-- The loop takes the elements in front that satisfy `p`. -/
theorem foldWhile_eq (hs : Stands text h s) (b : β) :
    foldWhile fault p f text b h =
      .ok ((s.takeWhile p).foldl f b, h + (s.takeWhile p).length) :=
  hs.foldFrom_eq (by have hlength := hs.length_eq; omega) b

theorem dropWhile (hs : Stands text h s) (p : α → Bool) :
    Stands text (h + (s.takeWhile p).length) (s.dropWhile p) :=
  append (by rwa [List.takeWhile_append_dropWhile])

theorem scanWhile_eq (hs : Stands text h s) (p : α → Bool) :
    scanWhile fault p text h = .ok (h + (s.takeWhile p).length) := by
  rw [scanWhile, hs.foldWhile_eq]
  rfl

theorem matchAt_eq [DecidableEq α] (hs : Stands text h s) (word : List α) :
    matchAt fault text word h = .ok (word.isPrefixOf s) := by
  induction word generalizing s h with
  | nil => simp [matchAt]
  | cons w word ih =>
      rw [matchAt, hs.readAt_eq]
      cases s with
      | nil => rfl
      | cons a s =>
          dsimp only [List.head?_cons]
          by_cases haw : a = w
          · rw [if_pos haw, ih hs.next]
            simp [haw]
          · rw [if_neg haw]
            simp [List.isPrefixOf, Ne.symm haw]

theorem copyAt_eq (hs : Stands text h s) (n : Nat) : copyAt fault text n h = .ok (s.take n) := by
  induction n generalizing s h with
  | zero => rfl
  | succ n ih =>
      rw [copyAt, hs.readAt_eq]
      cases s with
      | nil => rfl
      | cons a s =>
          dsimp only [List.head?_cons]
          rw [ih hs.next]
          rfl

/-- The elements that a loop has passed. -/
theorem copyAt_takeWhile (hs : Stands text h s) (p : α → Bool) :
    copyAt fault text (s.takeWhile p).length h = .ok (s.takeWhile p) := by
  rw [hs.copyAt_eq, ← List.prefix_iff_eq_take.mp (List.takeWhile_prefix p)]

end Stands

/-! ## Sweeps

A loop that visits every index of a text, and may look at what stands behind each.
-/

section Sweep

variable {σ : Type*} {text s : List α} {i : Nat}

/-- `g` is done at every element, with its index and what stands from there on. -/
def sweep (g : Nat → List α → σ → σ) : Nat → List α → σ → σ
  | _, [], st => st
  | i, a :: s, st => sweep g (i + 1) s (g i (a :: s) st)

/-- The loop over the indices sweeps the text. -/
theorem Stands.foldlM_range' {f : σ → Nat → Except ε σ} {g : Nat → List α → σ → σ}
    (hf : ∀ i a s st, Stands text i (a :: s) → f st i = .ok (g i (a :: s) st))
    (hs : Stands text i s) (st : σ) :
    (List.range' i s.length).foldlM f st = .ok (sweep g i s st) := by
  induction s generalizing i st with
  | nil => rfl
  | cons a s ih =>
      rw [List.length_cons, List.range'_succ, List.foldlM_cons, hf i a s st hs]
      exact ih hs.next _

/-- What each step keeps, the sweep keeps. -/
theorem Stands.sweep_keeps {g : Nat → List α → σ → σ} {P : σ → Prop}
    (hg : ∀ i a s st, Stands text i (a :: s) → P st → P (g i (a :: s) st))
    (hs : Stands text i s) {st : σ} (hst : P st) : P (sweep g i s st) := by
  induction s generalizing i st with
  | nil => exact hst
  | cons a s ih => exact ih hs.next (hg i a s st hs hst)

/-- What a sweep brings about, some element has brought about. -/
theorem sweep_iff {g : Nat → List α → σ → σ} {P : σ → Prop} {Q : List α → Prop}
    (hg : ∀ i a s st, P (g i (a :: s) st) ↔ P st ∨ Q (a :: s)) (i : Nat) (s : List α) (st : σ) :
    P (sweep g i s st) ↔ P st ∨ ∃ front a rest, s = front ++ a :: rest ∧ Q (a :: rest) := by
  induction s generalizing i st with
  | nil => simp [sweep]
  | cons a s ih =>
      rw [sweep, ih, hg, or_assoc]
      apply or_congr_right
      constructor
      · rintro (hfirst | ⟨front, b, rest, rfl, hrest⟩)
        · exact ⟨[], a, s, rfl, hfirst⟩
        · exact ⟨a :: front, b, rest, rfl, hrest⟩
      · rintro ⟨front, b, rest, hsplit, hrest⟩
        cases front with
        | nil =>
            rw [List.nil_append] at hsplit
            exact .inl (hsplit ▸ hrest)
        | cons c front =>
            rw [List.cons_append, List.cons.injEq] at hsplit
            exact .inr ⟨front, b, rest, hsplit.2, hrest⟩

/-- Elements that nothing is done at are passed. -/
theorem sweep_append {g : Nat → List α → σ → σ} {front : List α}
    (hfront : ∀ a ∈ front, ∀ i s st, g i (a :: s) st = st) (i : Nat) (s : List α) (st : σ) :
    sweep g i (front ++ s) st = sweep g (i + front.length) s st := by
  induction front generalizing i with
  | nil => rfl
  | cons a front ih =>
      rw [List.forall_mem_cons] at hfront
      rw [List.cons_append, sweep, hfront.1, ih hfront.2, List.length_cons, Nat.add_right_comm,
        Nat.add_assoc]

end Sweep

/-! ## Fields

A field reaches to the first element that ends it. -/

section Field

variable {isEnd : α → Bool} {field rest : List α} {a : α}

theorem takeWhile_field (hfield : ∀ b ∈ field, isEnd b = false) (ha : isEnd a = true)
    (rest : List α) : (field ++ a :: rest).takeWhile (!isEnd ·) = field := by
  rw [List.takeWhile_append_of_pos fun b hb => by simp [hfield b hb],
    List.takeWhile_cons_of_neg (by simp [ha]), List.append_nil]

theorem dropWhile_field (hfield : ∀ b ∈ field, isEnd b = false) (ha : isEnd a = true)
    (rest : List α) : (field ++ a :: rest).dropWhile (!isEnd ·) = a :: rest := by
  rw [List.dropWhile_append_of_pos fun b hb => by simp [hfield b hb],
    List.dropWhile_cons_of_neg (by simp [ha])]

/-- The text ends with the field. -/
theorem takeWhile_lastField (hfield : ∀ b ∈ field, isEnd b = false) :
    field.takeWhile (!isEnd ·) = field :=
  List.takeWhile_eq_self_iff.mpr fun b hb => by simp [hfield b hb]

theorem dropWhile_lastField (hfield : ∀ b ∈ field, isEnd b = false) :
    field.dropWhile (!isEnd ·) = [] :=
  List.dropWhile_eq_nil_iff.mpr fun b hb => by simp [hfield b hb]

/-- A prefix that does not have `a` is a prefix of the field. -/
theorem isPrefixOf_field [DecidableEq α] {tag : List α} (htag : a ∉ tag) (field rest : List α) :
    tag.isPrefixOf (field ++ a :: rest) = tag.isPrefixOf field := by
  induction field generalizing tag with
  | nil =>
      cases tag with
      | nil => rfl
      | cons b tag =>
          have hb : b ≠ a := fun h => htag (h ▸ List.mem_cons_self)
          simp [List.isPrefixOf, hb]
  | cons c field ih =>
      cases tag with
      | nil => rfl
      | cons b tag =>
          rw [List.cons_append, List.isPrefixOf_cons_cons, List.isPrefixOf_cons_cons,
            ih fun h => htag (List.mem_cons_of_mem b h)]

/-- A text is the field in front and what stands behind the end of this field. The text may end
with the field. -/
inductive Cut (isEnd : α → Bool) : List α → List α → List α → Prop
  | ended {field rest : List α} {a : α} (hfield : ∀ b ∈ field, isEnd b = false)
      (ha : isEnd a = true) : Cut isEnd (field ++ a :: rest) field rest
  | last {field : List α} (hfield : ∀ b ∈ field, isEnd b = false) : Cut isEnd field field []

namespace Cut

variable {text : List α}

/-- The loop that looks for the end passes the field. -/
theorem takeWhile_eq (h : Cut isEnd text field rest) : text.takeWhile (!isEnd ·) = field := by
  cases h with
  | ended hfield ha => exact takeWhile_field hfield ha _
  | last hfield => exact takeWhile_lastField hfield

theorem drop_dropWhile_eq (h : Cut isEnd text field rest) :
    (text.dropWhile (!isEnd ·)).drop 1 = rest := by
  cases h with
  | ended hfield ha => rw [dropWhile_field hfield ha, List.drop_one, List.tail_cons]
  | last hfield => rw [dropWhile_lastField hfield, List.drop_nil]

end Cut

/-- Every text can be cut. -/
theorem exists_cut (isEnd : α → Bool) (text : List α) :
    ∃ field rest, Cut isEnd text field rest := by
  have hfield : ∀ b ∈ text.takeWhile (!isEnd ·), isEnd b = false := fun b hb => by
    simpa using List.mem_takeWhile_imp hb
  have htext := List.takeWhile_append_dropWhile (p := (!isEnd ·)) (l := text)
  cases hrest : text.dropWhile (!isEnd ·) with
  | nil =>
      rw [hrest, List.append_nil] at htext
      rw [htext] at hfield
      exact ⟨text, [], .last hfield⟩
  | cons a rest =>
      have ha := List.head?_dropWhile_not (!isEnd ·) text
      rw [hrest] at htext ha
      have hcut : Cut isEnd (text.takeWhile (!isEnd ·) ++ a :: rest) (text.takeWhile (!isEnd ·))
          rest := .ended hfield (by simpa using ha)
      rw [htext] at hcut
      exact ⟨_, rest, hcut⟩

end Field

end Relb.Lib
