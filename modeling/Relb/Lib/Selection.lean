import Mathlib.Data.List.Basic
import Mathlib.Data.List.Induction
import Mathlib.Order.Lattice
/-!
# Choosing by rank while preferring what is up

A scan keeps one choice and a flag that tells whether the choice is up. A candidate takes
over if it ranks strictly before the choice and does not lose the flag: once the flag is
set, only candidates that are up can take over. The flag may be set before there is a choice.
-/

namespace Relb.Lib

variable {α κ : Type*} [LinearOrder κ]

structure Choice (α : Type*) where
  chosen : Option α
  up : Bool

variable (rank : α → κ) (up : α → Bool)

/-- One candidate of the scan. -/
def Choice.pick (x : Choice α) (c : α) : Choice α :=
  if (up c || !x.up) && x.chosen.all (fun a => decide (rank c < rank a)) then ⟨some c, up c⟩ else x

/-- A scan. -/
def Choice.scan (x : Choice α) (l : List α) : Choice α := l.foldl (Choice.pick rank up) x

/-- `c` ranks strictly before all elements of `l` that stand before it, and behind none of the
others. -/
def First (l : List α) (c : α) : Prop :=
  ∃ l₁ l₂, l = l₁ ++ c :: l₂ ∧ (∀ a ∈ l₁, rank c < rank a) ∧ ∀ a ∈ l₂, rank c ≤ rank a

/-- Some element of `l` is up and ranks strictly before all elements that stand before it. -/
def HasWinner (l : List α) : Prop :=
  ∃ l₁ c l₂, l = l₁ ++ c :: l₂ ∧ up c = true ∧ ∀ a ∈ l₁, rank c < rank a

variable {rank up} {x : Choice α} {l : List α} {a b c : α}

/-! ## The first of a list -/

/-- Two places of a list are the same, or one is in front of the other. -/
theorem places_cases {l₁ l₂ m₁ m₂ : List α} (h : l₁ ++ b :: l₂ = m₁ ++ c :: m₂) :
    b = c ∨ (b ∈ m₁ ∧ c ∈ l₂) ∨ (c ∈ l₁ ∧ b ∈ m₂) := by
  rcases List.append_eq_append_iff.mp h with ⟨k, rfl, hk⟩ | ⟨k, rfl, hk⟩
  · cases k with
    | nil => exact .inl (List.cons.inj hk).1
    | cons d k =>
        obtain ⟨rfl, rfl⟩ := List.cons.inj hk
        exact .inr (.inl ⟨by simp, by simp⟩)
  · cases k with
    | nil => exact .inl (List.cons.inj hk).1.symm
    | cons d k =>
        obtain ⟨rfl, rfl⟩ := List.cons.inj hk
        exact .inr (.inr ⟨by simp, by simp⟩)

/-- A list without an element that meets `p`, or cut at the last one. -/
theorem none_or_last (p : α → Prop) (l : List α) : (∀ a ∈ l, ¬p a) ∨
    ∃ l₁ c l₂, l = l₁ ++ c :: l₂ ∧ p c ∧ ∀ a ∈ l₂, ¬p a := by
  induction l with
  | nil => exact .inl (by simp)
  | cons a l ih =>
      rcases ih with hnone | ⟨l₁, c, l₂, rfl, hc, hbehind⟩
      · by_cases ha : p a
        · exact .inr ⟨[], a, l, rfl, ha, hnone⟩
        · exact .inl (by simpa [ha] using hnone)
      · exact .inr ⟨a :: l₁, c, l₂, rfl, hc, hbehind⟩

namespace First

theorem mem (h : First rank l c) : c ∈ l := by
  obtain ⟨l₁, l₂, rfl, -, -⟩ := h
  exact List.mem_append_right l₁ List.mem_cons_self

theorem le (h : First rank l c) (ha : a ∈ l) : rank c ≤ rank a := by
  obtain ⟨l₁, l₂, rfl, hbefore, hbehind⟩ := h
  rw [List.mem_append, List.mem_cons] at ha
  rcases ha with ha | rfl | ha
  · exact (hbefore a ha).le
  · exact le_rfl
  · exact hbehind a ha

theorem singleton (c : α) : First rank [c] c := ⟨[], [], rfl, by simp, by simp⟩

theorem concat_of_lt (h : First rank l c) (hb : rank b < rank c) : First rank (l ++ [b]) b :=
  ⟨l, [], rfl, fun _ ha => hb.trans_le (h.le ha), by simp⟩

theorem concat_of_le (h : First rank l c) (hb : rank c ≤ rank b) : First rank (l ++ [b]) c := by
  obtain ⟨l₁, l₂, rfl, hbefore, hbehind⟩ := h
  refine ⟨l₁, l₂ ++ [b], by simp, hbefore, fun a ha => ?_⟩
  rw [List.mem_append, List.mem_singleton] at ha
  rcases ha with ha | rfl
  · exact hbehind a ha
  · exact hb

end First

/-! ## One candidate -/

namespace Choice

/-- A candidate takes over, or nothing changes. -/
theorem pick_cases (rank : α → κ) (up : α → Bool) (x : Choice α) (c : α) :
    (x.pick rank up c = ⟨some c, up c⟩ ∧ (up c = true ∨ x.up = false) ∧
        ∀ a, x.chosen = some a → rank c < rank a) ∨
      x.pick rank up c = x ∧ (x.up = true ∧ up c = false ∨
        ∃ a, x.chosen = some a ∧ rank a ≤ rank c) := by
  obtain ⟨o, flag⟩ := x
  cases o with
  | none => cases hc : up c <;> cases flag <;> simp [pick, hc]
  | some a =>
      by_cases hlt : rank c < rank a
      · cases hc : up c <;> cases flag <;> simp [pick, hc, hlt]
      · cases hc : up c <;> cases flag <;> simp [pick, hc, hlt, not_lt.mp hlt]

theorem up_pick (h : x.up = true) : (x.pick rank up c).up = true := by
  rcases pick_cases rank up x c with ⟨hpick, hup, -⟩ | ⟨hpick, -⟩
  · rw [hpick]
    exact hup.resolve_right (by simp [h])
  · rw [hpick]
    exact h

theorem mem_of_pick (h : (x.pick rank up c).chosen = some a) : x.chosen = some a ∨ a = c := by
  rcases pick_cases rank up x c with ⟨hpick, -⟩ | ⟨hpick, -⟩
  · rw [hpick] at h
    exact .inr (Option.some.inj h).symm
  · rw [hpick] at h
    exact .inl h

/-- The flag belongs to the choice. -/
def Coherent (up : α → Bool) (x : Choice α) : Prop := ∀ a, x.chosen = some a → x.up = up a

theorem Coherent.pick (h : x.Coherent up) (c : α) : (x.pick rank up c).Coherent up := by
  rcases pick_cases rank up x c with ⟨hpick, -⟩ | ⟨hpick, -⟩
  · rw [hpick]
    intro a ha
    rw [← Option.some.inj ha]
  · rwa [hpick]

/-! ## A scan -/

theorem scan_concat (x : Choice α) (l : List α) (c : α) :
    x.scan rank up (l ++ [c]) = (x.scan rank up l).pick rank up c := List.foldl_concat ..

theorem up_scan (h : x.up = true) (l : List α) : (x.scan rank up l).up = true := by
  induction l using List.reverseRecOn with
  | nil => exact h
  | append_singleton l c ih =>
      rw [scan_concat]
      exact up_pick ih

theorem Coherent.scan (h : x.Coherent up) (l : List α) : (x.scan rank up l).Coherent up := by
  induction l using List.reverseRecOn with
  | nil => exact h
  | append_singleton l c ih =>
      rw [scan_concat]
      exact ih.pick c

theorem mem_of_scan (h : (x.scan rank up l).chosen = some a) :
    a ∈ x.chosen.toList ++ l := by
  induction l using List.reverseRecOn with
  | nil => simpa [Choice.scan] using h
  | append_singleton l c ih =>
      rw [scan_concat] at h
      rw [← List.append_assoc, List.mem_append]
      rcases mem_of_pick h with h | rfl
      · exact .inl (ih h)
      · exact .inr (List.mem_singleton_self a)

/-- Nothing is chosen if nothing was, and the flag kept all candidates away. -/
theorem isSome_scan (x : Choice α) (l : List α) : (x.scan rank up l).chosen.isSome = true ↔
    x.chosen.isSome = true ∨ (∃ c ∈ l, up c = true) ∨ x.up = false ∧ l ≠ [] := by
  induction l generalizing x with
  | nil => simp [Choice.scan]
  | cons c l ih =>
      change ((x.pick rank up c).scan rank up l).chosen.isSome = true ↔ _
      rw [ih]
      rcases pick_cases rank up x c with ⟨hpick, hup, -⟩ | ⟨hpick, ⟨hflag, hc⟩ | ⟨a, ha, -⟩⟩
      · rw [hpick]
        rcases hup with hup | hup
        · simp [hup]
        · simp [hup]
      · rw [hpick]
        simp [hflag, hc]
      · rw [hpick]
        simp [ha]

/-- While the flag is not set, the choice is the first of all candidates. -/
theorem first_of_down (h : (x.scan rank up l).up = false) (ha : a ∈ x.chosen.toList ++ l) :
    ∃ c, (x.scan rank up l).chosen = some c ∧ rank c ≤ rank a := by
  induction l using List.reverseRecOn generalizing a with
  | nil =>
      rw [List.append_nil, Option.mem_toList] at ha
      exact ⟨a, ha, le_rfl⟩
  | append_singleton l b ih =>
      rw [scan_concat] at h ⊢
      have hdown : (x.scan rank up l).up = false := by
        cases hup : (x.scan rank up l).up with
        | false => rfl
        | true => rwa [up_pick hup] at h
      rw [← List.append_assoc, List.mem_append, List.mem_singleton] at ha
      rcases pick_cases rank up (x.scan rank up l) b with ⟨hpick, -, hlt⟩ | ⟨hpick, hkept⟩
      · rw [hpick]
        refine ⟨b, rfl, ?_⟩
        rcases ha with ha | rfl
        · obtain ⟨c, hc, hle⟩ := ih hdown ha
          exact (hlt c hc).le.trans hle
        · exact le_rfl
      · rw [hpick]
        rcases ha with ha | rfl
        · exact ih hdown ha
        · rcases hkept with ⟨hup, -⟩ | ⟨c, hc, hle⟩
          · rw [hdown] at hup
            cases hup
          · exact ⟨c, hc, hle⟩

/-- The flag is set by a winner. -/
theorem up_scan_iff (hdown : x.up = false) (hx : x.Coherent up) (l : List α) :
    (x.scan rank up l).up = true ↔ HasWinner rank up (x.chosen.toList ++ l) := by
  have hstart : ∀ a ∈ x.chosen.toList, up a = false := by
    intro a ha
    rw [← hx a (Option.mem_toList.mp ha), hdown]
  constructor
  · intro h
    induction l using List.reverseRecOn with
    | nil => rw [Choice.scan, List.foldl_nil, hdown] at h; cases h
    | append_singleton l b ih =>
        rw [← List.append_assoc]
        cases hup : (x.scan rank up l).up with
        | true =>
            obtain ⟨l₁, c, l₂, hsplit, hc, hlt⟩ := ih hup
            exact ⟨l₁, c, l₂ ++ [b], by rw [hsplit]; simp, hc, hlt⟩
        | false =>
            rw [scan_concat] at h
            rcases pick_cases rank up (x.scan rank up l) b with ⟨hpick, -, hlt⟩ | ⟨hpick, -⟩
            · rw [hpick] at h
              refine ⟨_, b, [], rfl, h, fun a ha => ?_⟩
              obtain ⟨c, hc, hle⟩ := first_of_down hup ha
              exact (hlt c hc).trans_le hle
            · rw [hpick, hup] at h
              cases h
  · rintro ⟨l₁, c, l₂, hsplit, hc, hlt⟩
    -- the winner is not what the scan started with, which is not up
    obtain ⟨k, rfl, rfl⟩ : ∃ k, l₁ = x.chosen.toList ++ k ∧ l = k ++ c :: l₂ := by
      rcases List.append_eq_append_iff.mp hsplit with ⟨k, rfl, hk⟩ | ⟨k, hk, hl⟩
      · exact ⟨k, rfl, hk⟩
      · cases k with
        | nil => exact ⟨[], by simpa using hk.symm, by simpa using hl.symm⟩
        | cons d k =>
            obtain ⟨rfl, -⟩ := List.cons.inj hl
            have hdown := hstart c (by rw [hk]; simp)
            rw [hdown] at hc
            cases hc
    have htaken : ((x.scan rank up k).pick rank up c).up = true := by
      rcases pick_cases rank up (x.scan rank up k) c with ⟨hpick, -⟩ | ⟨hpick, ⟨-, hkept⟩ | hkept⟩
      · rw [hpick]
        exact hc
      · rw [hc] at hkept
        cases hkept
      · obtain ⟨a, ha, hle⟩ := hkept
        exact absurd (hlt a (mem_of_scan ha)) hle.not_gt
    have hscan : x.scan rank up (k ++ c :: l₂) =
        ((x.scan rank up k).pick rank up c).scan rank up l₂ := List.foldl_append ..
    rw [hscan]
    exact up_scan htaken l₂

/-- If all are up, the choice is the first. -/
theorem first_scan (hup : ∀ c ∈ l, up c = true) (flag : Bool) :
    ∃ c, (Choice.scan rank up ⟨some a, flag⟩ l).chosen = some c ∧ First rank (a :: l) c := by
  induction l using List.reverseRecOn with
  | nil => exact ⟨a, rfl, .singleton a⟩
  | append_singleton l b ih =>
      obtain ⟨c, hc, hfirst⟩ := ih fun c hc => hup c (List.mem_append_left _ hc)
      have hb : up b = true := hup b (by simp)
      rw [scan_concat]
      rcases pick_cases rank up (Choice.scan rank up ⟨some a, flag⟩ l) b with
        ⟨hpick, -, hlt⟩ | ⟨hpick, ⟨-, hdown⟩ | ⟨d, hd, hle⟩⟩
      · exact ⟨b, by rw [hpick], hfirst.concat_of_lt (hlt c hc)⟩
      · rw [hb] at hdown
        cases hdown
      · obtain rfl : c = d := Option.some.inj (hc.symm.trans hd)
        exact ⟨c, by rw [hpick, hc], hfirst.concat_of_le hle⟩

/-- What is up and ranks before everything else is chosen. -/
theorem chosen_scan_lowest {l₁ l₂ : List α} (hc : up c = true)
    (hbefore : ∀ a ∈ x.chosen.toList ++ l₁, rank c < rank a)
    (hbehind : ∀ a ∈ l₂, rank c ≤ rank a) :
    (x.scan rank up (l₁ ++ c :: l₂)).chosen = some c := by
  induction l₂ using List.reverseRecOn with
  | nil =>
      rw [scan_concat]
      rcases pick_cases rank up (x.scan rank up l₁) c with
        ⟨hpick, -⟩ | ⟨-, ⟨-, hdown⟩ | ⟨a, ha, hle⟩⟩
      · rw [hpick]
      · rw [hc] at hdown
        cases hdown
      · exact absurd (hbefore a (mem_of_scan ha)) hle.not_gt
  | append_singleton l₂ b ih =>
      rw [List.forall_mem_append, List.forall_mem_singleton] at hbehind
      rw [← List.cons_append, ← List.append_assoc, scan_concat]
      rcases pick_cases rank up (x.scan rank up (l₁ ++ c :: l₂)) b with
        ⟨-, -, hlt⟩ | ⟨hpick, -⟩
      · exact absurd (hlt c (ih hbehind.1)) hbehind.2.not_gt
      · rw [hpick]
        exact ih hbehind.1

/-- What ranks behind nothing stays. -/
theorem chosen_scan_of_le (hx : x.chosen = some a) (h : ∀ b ∈ l, rank a ≤ rank b) :
    (x.scan rank up l).chosen = some a := by
  induction l using List.reverseRecOn with
  | nil => exact hx
  | append_singleton l b ih =>
      rw [List.forall_mem_append, List.forall_mem_singleton] at h
      rw [scan_concat]
      rcases pick_cases rank up (x.scan rank up l) b with ⟨-, -, hlt⟩ | ⟨hpick, -⟩
      · exact absurd (hlt a (ih h.1)) h.2.not_gt
      · rw [hpick]
        exact ih h.1

end Choice

end Relb.Lib
