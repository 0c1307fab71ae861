import Mathlib.Data.List.Basic
/-!
# Loops over an index

An iterator moves an index forward and tells whether it still points into a list; the body
of the loop works on what is in place. Such a loop does the elements behind the index, in
order, wherever the index starts, and the fuel that bounds it only has to cover them.

A loop that takes elements away while it counts keeps the index by hand: each pass of
`whileBelow` says where to go on. It ends behind the list if each pass comes closer to the end.
-/

namespace Relb.Lib

variable {σ α β : Type*}

/-- `while( next() ) body`, with at most `fuel` passes. -/
def whileNext (next : σ → Bool × σ) (body : σ → β → β) : Nat → σ → β → σ × β
  | 0, s, b => (s, b)
  | fuel + 1, s, b =>
      match next s with
      | (true, s) => whileNext next body fuel s (body s b)
      | (false, s) => (s, b)

/-- `do body while( next() )`. -/
def doWhile (next : σ → Bool × σ) (body : σ → β → β) (fuel : Nat) (s : σ) (b : β) : σ × β :=
  whileNext next body fuel s (body s b)

/-- What the body keeps, a loop keeps, wherever it stops. -/
theorem whileNext_keeps {P : β → Prop} {next : σ → Bool × σ} {body : σ → β → β}
    (hbody : ∀ s b, P b → P (body s b)) (fuel : Nat) (s : σ) {b : β} (hb : P b) :
    P (whileNext next body fuel s b).2 := by
  induction fuel generalizing s b with
  | zero => exact hb
  | succ fuel ih =>
      rw [whileNext]
      split
      · exact ih _ (hbody _ _ hb)
      · exact hb

/-- On the states that meet `I`, `next` walks through `l`. -/
structure Walks (I : σ → Prop) (next : σ → Bool × σ) (index : σ → Int) (l : List α) : Prop where
  keeps : ∀ s, I s → I (next s).2
  moves : ∀ s, I s → index (next s).2 = index s + 1
  more : ∀ s, I s → (next s).1 = decide (index s + 1 < l.length)

/-- The body does `f` with the element in place. -/
def DoesEach (I : σ → Prop) (index : σ → Int) (l : List α) (body : σ → β → β)
    (f : β → α × Nat → β) : Prop :=
  ∀ s, I s → ∀ i : Nat, index s = i → ∀ a, l[i]? = some a → ∀ b, body s b = f b (a, i)

variable {I : σ → Prop} {next : σ → Bool × σ} {index : σ → Int} {l : List α} {body : σ → β → β}
  {f : β → α × Nat → β} {s : σ} {n fuel : Nat}

theorem drop_zipIdx {a : α} (h : l[n]? = some a) :
    l.zipIdx.drop n = (a, n) :: l.zipIdx.drop (n + 1) := by
  have hget : l.zipIdx[n]? = some (a, n) := by simp [List.getElem?_zipIdx, h]
  obtain ⟨hlt, hsame⟩ := List.getElem?_eq_some_iff.mp hget
  rw [List.drop_eq_getElem_cons hlt, hsame]

/-- The loop does the elements from place `n` on, if the index stands before it. -/
theorem Walks.whileNext (h : Walks I next index l) (hbody : DoesEach I index l body f) (hs : I s)
    (hindex : index s + 1 = n) (hfuel : l.length ≤ fuel + n) (b : β) :
    (whileNext next body fuel s b).2 = (l.zipIdx.drop n).foldl f b ∧
      I (whileNext next body fuel s b).1 := by
  induction fuel generalizing s n b with
  | zero =>
      have hend : l.zipIdx.drop n = [] := List.drop_eq_nil_of_le (by simp; omega)
      rw [hend]
      exact ⟨rfl, hs⟩
  | succ fuel ih =>
      have hmore := h.more s hs
      have hmoves := h.moves s hs
      have hkeeps := h.keeps s hs
      rw [Lib.whileNext]
      generalize next s = r at *
      obtain ⟨more, t⟩ := r
      have hplace : index t = n := hmoves.trans hindex
      by_cases hn : n < l.length
      · obtain rfl : more = true := hmore.trans (decide_eq_true (by omega))
        have ha := List.getElem?_eq_getElem hn
        dsimp only
        rw [hbody t hkeeps n hplace _ ha, drop_zipIdx ha, List.foldl_cons]
        exact ih hkeeps (by omega) (by omega) _
      · obtain rfl : more = false := hmore.trans (decide_eq_false (by omega))
        have hend : l.zipIdx.drop n = [] := List.drop_eq_nil_of_le (by simp; omega)
        rw [hend]
        exact ⟨rfl, hkeeps⟩

/-- A loop that starts in front of the list, and not at all for an empty one. -/
theorem Walks.ifAny (h : Walks I next index l) (hbody : DoesEach I index l body f) (hs : I s)
    (hindex : index s = -1) (b : β) :
    (if l.length > 0 then Lib.whileNext next body (l.length + 1) s b else (s, b)).2 =
        l.zipIdx.foldl f b ∧
      I (if l.length > 0 then Lib.whileNext next body (l.length + 1) s b else (s, b)).1 := by
  split
  · exact h.whileNext hbody hs (n := 0) (by omega) (by omega) b
  · have hnil : l = [] := List.eq_nil_of_length_eq_zero (by omega)
    rw [hnil]
    exact ⟨rfl, hs⟩

/-- The first pass is made before the first test. -/
theorem Walks.doWhile (h : Walks I next index l) (hbody : DoesEach I index l body f) (hs : I s)
    (hindex : index s = 0) (hl : l ≠ []) (hfuel : l.length ≤ fuel + 1) (b : β) :
    (doWhile next body fuel s b).2 = l.zipIdx.foldl f b ∧ I (doWhile next body fuel s b).1 := by
  cases l with
  | nil => exact absurd rfl hl
  | cons a l =>
      have hfirst := hbody s hs 0 hindex a rfl b
      have hrest := h.whileNext hbody hs (n := 1) (by omega) hfuel (body s b)
      rw [hfirst] at hrest
      rw [Lib.doWhile, hfirst]
      exact hrest

/-! ## Loops that keep the index by hand -/

section Below

variable {count : σ → Nat} {body : Nat → σ → Option (Nat × σ)} {t : σ} {i j fuel : Nat}

/-- `while( i < count ) body`, with at most `fuel` passes. -/
def whileBelow (count : σ → Nat) (body : Nat → σ → Option (Nat × σ)) :
    Nat → Nat → σ → Option (Nat × σ)
  | 0, i, s => some (i, s)
  | fuel + 1, i, s =>
      if i < count s then
        match body i s with
        | some (j, t) => whileBelow count body fuel j t
        | none => none
      else some (i, s)

/-- The loop makes one pass and goes on, or it ends. -/
theorem whileBelow_succ {r : Nat × σ} (h : whileBelow count body (fuel + 1) i s = some r) :
    (∃ j t, i < count s ∧ body i s = some (j, t) ∧ whileBelow count body fuel j t = some r) ∨
      count s ≤ i ∧ r = (i, s) := by
  rw [whileBelow] at h
  split at h
  · rename_i hlt
    cases hpass : body i s with
    | none =>
        rw [hpass] at h
        cases h
    | some t =>
        rw [hpass] at h
        exact .inl ⟨t.1, t.2, hlt, rfl, h⟩
  · exact .inr ⟨by omega, (Option.some.inj h).symm⟩

/-- What the body keeps, the loop keeps. -/
theorem whileBelow_keeps {P : Nat → σ → Prop}
    (hbody : ∀ i s j t, P i s → body i s = some (j, t) → P j t) (hs : P i s)
    (h : whileBelow count body fuel i s = some (j, t)) : P j t := by
  induction fuel generalizing i s with
  | zero =>
      obtain ⟨rfl, rfl⟩ := Prod.mk.inj (Option.some.inj h)
      exact hs
  | succ fuel ih =>
      rcases whileBelow_succ h with ⟨j', t', -, hpass, hrest⟩ | ⟨-, hend⟩
      · exact ih (hbody _ _ _ _ hs hpass) hrest
      · obtain ⟨rfl, rfl⟩ := Prod.mk.inj hend
        exact hs

/-- With fuel for what is left of the list, the loop ends behind it. -/
theorem whileBelow_ends
    (hbody : ∀ i s j t, i < count s → body i s = some (j, t) → count t - j < count s - i)
    (hfuel : count s - i ≤ fuel) (h : whileBelow count body fuel i s = some (j, t)) :
    count t ≤ j := by
  induction fuel generalizing i s with
  | zero =>
      obtain ⟨rfl, rfl⟩ := Prod.mk.inj (Option.some.inj h)
      omega
  | succ fuel ih =>
      rcases whileBelow_succ h with ⟨j', t', hlt, hpass, hrest⟩ | ⟨hle, hend⟩
      · have hcloser := hbody _ _ _ _ hlt hpass
        exact ih (by omega) hrest
      · obtain ⟨rfl, rfl⟩ := Prod.mk.inj hend
        exact hle

/-- A loop that takes elements from the front, one with each pass, wherever the index goes: `P`
knows which have been taken and which are left. -/
theorem whileBelow_sweeps {P : List α → List α → Nat → σ → Prop} {done rest : List α}
    (hcount : ∀ done rest i s, P done rest i s → count s = i + rest.length)
    (hbody : ∀ done a rest i s j t, P done (a :: rest) i s → body i s = some (j, t) →
      P (done ++ [a]) rest j t)
    (hs : P done rest i s) (hfuel : rest.length ≤ fuel)
    (h : whileBelow count body fuel i s = some (j, t)) : P (done ++ rest) [] j t := by
  induction fuel generalizing done rest i s with
  | zero =>
      obtain rfl : rest = [] := List.eq_nil_of_length_eq_zero (by omega)
      obtain ⟨rfl, rfl⟩ := Prod.mk.inj (Option.some.inj h)
      rwa [List.append_nil]
  | succ fuel ih =>
      have hlength := hcount _ _ _ _ hs
      rcases whileBelow_succ h with ⟨j', t', hlt, hpass, hrest⟩ | ⟨hle, hend⟩
      · cases rest with
        | nil => exact absurd hlt (by simp at hlength; omega)
        | cons a rest =>
            rw [List.append_cons]
            exact ih (hbody _ _ _ _ _ _ _ hs hpass) (Nat.le_of_succ_le_succ hfuel) hrest
      · obtain rfl : rest = [] := List.eq_nil_of_length_eq_zero (by omega)
        obtain ⟨rfl, rfl⟩ := Prod.mk.inj hend
        rwa [List.append_nil]

/-- A loop none of whose passes fails has a result. -/
theorem whileBelow_isSome (hbody : ∀ i s, i < count s → (body i s).isSome) (fuel i : Nat) (s : σ) :
    (whileBelow count body fuel i s).isSome := by
  induction fuel generalizing i s with
  | zero => rfl
  | succ fuel ih =>
      rw [whileBelow]
      split
      · rename_i hlt
        obtain ⟨r, hr⟩ := Option.isSome_iff_exists.mp (hbody i s hlt)
        rw [hr]
        exact ih r.1 r.2
      · rfl

theorem whileBelow_of_le {s : σ} (h : count s ≤ i) :
    whileBelow count body fuel i s = some (i, s) := by
  cases fuel with
  | zero => rfl
  | succ fuel => rw [whileBelow, if_neg (by omega)]

/-- A loop that looks for the first element with `p`, leaves the list there and keeps what it has
found. -/
theorem whileBelow_find (body : Nat → σ → Option (Nat × σ)) {l : List α} {p : α → Bool}
    {found : α → σ} {s : σ}
    (hhit : ∀ i a, l[i]? = some a → p a = true →
      ∃ j, l.length ≤ j ∧ body i s = some (j, found a))
    (hmiss : ∀ i a, l[i]? = some a → p a = false → body i s = some (i + 1, s))
    (hfuel : l.length ≤ fuel + i) :
    ∃ j, whileBelow (fun _ => l.length) body fuel i s =
      some (j, (((l.drop i).find? p).map found).getD s) := by
  induction fuel generalizing i with
  | zero =>
      rw [List.drop_eq_nil_of_le (by omega)]
      exact ⟨i, rfl⟩
  | succ fuel ih =>
      by_cases hi : i < l.length
      · have ha := List.getElem?_eq_getElem hi
        rw [whileBelow, if_pos hi, List.drop_eq_getElem_cons hi]
        cases hp : p l[i] with
        | true =>
            obtain ⟨j, hj, hbody⟩ := hhit i _ ha hp
            rw [hbody, List.find?_cons_of_pos hp]
            exact ⟨j, whileBelow_of_le hj⟩
        | false =>
            rw [hmiss i _ ha hp, List.find?_cons_of_neg (by simp [hp])]
            exact ih (by omega)
      · rw [whileBelow_of_le (by omega), List.drop_eq_nil_of_le (by omega)]
        exact ⟨i, rfl⟩

end Below

end Relb.Lib
