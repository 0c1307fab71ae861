import Mathlib.Algebra.BigOperators.Pi
import Mathlib.Algebra.GroupWithZero.Nat
import Mathlib.Algebra.Order.BigOperators.Group.Finset
/-!
# Waking a thread up

Producers leave items of several kinds for one consumer and wake it up: each puts its item first
and then a token. The consumer goes round: it looks at what there is of each kind, sleeps while
there is no token, and takes one token. `unseen` counts the items that have come in since the
consumer has looked at their kind; what it has still to look at is not counted. `announcing` are
the producers between their item and their token.

However the threads interleave, an item that the consumer does not know of has its own token, or a
producer that is about to leave one. So nobody sleeps over an item.
-/

namespace Relb.Lib

open Finset

structure Mailbox (κ : Type*) where
  unseen : κ → Nat
  looked : κ → Bool
  tokens : Nat
  announcing : Nat

namespace Mailbox

variable {κ : Type*} [DecidableEq κ] {b c : Mailbox κ}

/-- A producer leaves an item of kind `k`. -/
def put (k : κ) (b : Mailbox κ) : Mailbox κ :=
  { b with
    unseen := if b.looked k then b.unseen + Pi.single k 1 else b.unseen
    announcing := b.announcing + 1 }

/-- A producer leaves its token. -/
def signal (b : Mailbox κ) : Mailbox κ :=
  { b with tokens := b.tokens + 1, announcing := b.announcing - 1 }

/-- The consumer sees all items of kind `k`. -/
def look (k : κ) (b : Mailbox κ) : Mailbox κ :=
  { b with
    unseen := fun x => if x = k then 0 else b.unseen x
    looked := fun x => x = k || b.looked x }

/-- The consumer is going to look at everything again. -/
def again (b : Mailbox κ) : Mailbox κ :=
  { b with unseen := fun _ => 0, looked := fun _ => false }

/-- The consumer takes a token. -/
def take (b : Mailbox κ) : Mailbox κ := { b.again with tokens := b.tokens - 1 }

/-- A step of some thread; `skip` is one that leaves everything as it is. -/
inductive Step (b : Mailbox κ) : Mailbox κ → Prop
  | skip : Step b b
  | put (k : κ) : Step b (b.put k)
  | signal : 0 < b.announcing → Step b b.signal
  | look (k : κ) : Step b (b.look k)
  | again : Step b b.again
  | take : 0 < b.tokens → Step b b.take

/-- The same threads, and no more items. -/
structure Le (b c : Mailbox κ) : Prop where
  unseen : ∀ k, b.unseen k ≤ c.unseen k
  tokens : b.tokens = c.tokens
  announcing : b.announcing = c.announcing

/-! ## The mailbox of a program -/

/-- What a program says of itself: which kinds it has looked at, and for each of these what has come
in behind. -/
def of (looked : κ → Bool) (missed : κ → Nat) (tokens announcing : Nat) : Mailbox κ where
  unseen k := if looked k then missed k else 0
  looked := looked
  tokens := tokens
  announcing := announcing

/-- Behind some step there is no more to see than in `c`. -/
def Follows (b c : Mailbox κ) : Prop := ∃ b', b.Step b' ∧ c.Le b'

section Follows

variable {looked looked' : κ → Bool} {missed missed' : κ → Nat} {tokens announcing : Nat}

omit [DecidableEq κ] in
theorem of_le (hunseen : ∀ k, looked k = true → missed k ≤ b.unseen k) :
    (of looked missed b.tokens b.announcing).Le b where
  unseen k := by
    change (if looked k then missed k else 0) ≤ b.unseen k
    split
    · exact hunseen k ‹_›
    · exact Nat.zero_le _
  tokens := rfl
  announcing := rfl

/-- A step that looks at nothing new, and at which nothing comes in. -/
theorem follows_skip (h : ∀ k, looked' k = true → looked k = true ∧ missed' k ≤ missed k) :
    (of looked missed tokens announcing).Follows (of looked' missed' tokens announcing) := by
  refine ⟨_, .skip, of_le (b := of looked missed tokens announcing) fun k hk => ?_⟩
  obtain ⟨hlooked, hle⟩ := h k hk
  change _ ≤ if looked k then missed k else 0
  rwa [if_pos hlooked]

/-- A step to a point at which the consumer has still to look at everything. -/
theorem follows_again (h : ∀ k, looked' k = false) :
    (of looked missed tokens announcing).Follows (of looked' missed' tokens announcing) := by
  refine ⟨_, .again, of_le (b := (of looked missed tokens announcing).again) fun k hk => ?_⟩
  rw [h k] at hk
  cases hk

/-- The consumer has seen all items of one kind. -/
theorem follows_look (k : κ) (hmissed : missed' k = 0) (h : ∀ x, looked' x = true →
      x = k ∨ looked x = true ∧ missed' x ≤ missed x) :
    (of looked missed tokens announcing).Follows (of looked' missed' tokens announcing) := by
  refine ⟨_, .look k, of_le (b := (of looked missed tokens announcing).look k) fun x hx => ?_⟩
  change _ ≤ if x = k then 0 else if looked x then missed x else 0
  split
  · rename_i hsame
    rw [hsame, hmissed]
  · rename_i hother
    obtain ⟨hlooked, hle⟩ := (h x hx).resolve_left hother
    rwa [if_pos hlooked]

/-- A producer leaves an item, and has still to announce it. -/
theorem follows_put (k : κ) (hlooked : ∀ x, looked' x = true → looked x = true)
    (h : ∀ x, looked' x = true → missed' x ≤ missed x + if x = k then 1 else 0) :
    (of looked missed tokens announcing).Follows (of looked' missed' tokens (announcing + 1)) := by
  refine ⟨_, .put k, of_le (b := (of looked missed tokens announcing).put k) fun x hx => ?_⟩
  have hle := h x hx
  have hunseen : (of looked missed tokens announcing).unseen x = missed x := if_pos (hlooked x hx)
  change _ ≤ (if looked k then (of looked missed tokens announcing).unseen + Pi.single k 1
    else (of looked missed tokens announcing).unseen) x
  by_cases hsame : x = k
  · subst hsame
    rw [if_pos (hlooked x hx), Pi.add_apply, Pi.single_eq_same, hunseen]
    rwa [if_pos rfl] at hle
  · rw [if_neg hsame] at hle
    split
    · rw [Pi.add_apply, Pi.single_eq_of_ne hsame, hunseen]
      exact hle
    · rwa [hunseen]

/-- A producer leaves its token. -/
theorem follows_signal (h : ∀ k, looked' k = true → looked k = true ∧ missed' k ≤ missed k) :
    (of looked missed tokens (announcing + 1)).Follows
      (of looked' missed' (tokens + 1) announcing) := by
  refine ⟨_, .signal (Nat.succ_pos _),
    of_le (b := (of looked missed tokens (announcing + 1)).signal) fun k hk => ?_⟩
  obtain ⟨hlooked, hle⟩ := h k hk
  change _ ≤ if looked k then missed k else 0
  rwa [if_pos hlooked]

/-- The consumer takes a token. -/
theorem follows_take (h : ∀ k, looked' k = false) :
    (of looked missed (tokens + 1) announcing).Follows (of looked' missed' tokens announcing) := by
  refine ⟨_, .take (Nat.succ_pos _),
    of_le (b := (of looked missed (tokens + 1) announcing).take) fun k hk => ?_⟩
  rw [h k] at hk
  cases hk

end Follows

section Covered

variable [Fintype κ]

/-- Every item that is not known of has a token, or a producer that is about to leave it. -/
def Covered (b : Mailbox κ) : Prop := ∑ k, b.unseen k ≤ b.tokens + b.announcing

theorem Covered.put (h : b.Covered) (k : κ) : (b.put k).Covered := by
  unfold Covered at h
  unfold Covered Mailbox.put
  dsimp only
  split
  · calc
      ∑ x, (b.unseen x + (Pi.single k 1 : κ → Nat) x) = ∑ x, b.unseen x + 1 := by
        rw [sum_add_distrib, sum_pi_single', if_pos (mem_univ k)]
      _ ≤ b.tokens + (b.announcing + 1) := by omega
  · omega

theorem Covered.look (h : b.Covered) (k : κ) : (b.look k).Covered := by
  refine Nat.le_trans (sum_le_sum fun x _ => ?_) h
  change (if x = k then 0 else b.unseen x) ≤ b.unseen x
  split <;> omega

omit [DecidableEq κ]

theorem Covered.signal (h : b.Covered) (hannouncing : 0 < b.announcing) : b.signal.Covered := by
  unfold Covered at h
  change ∑ x, b.unseen x ≤ b.tokens + 1 + (b.announcing - 1)
  omega

theorem covered_again (b : Mailbox κ) : b.again.Covered := by
  simp [Covered, again]

theorem covered_take (b : Mailbox κ) : b.take.Covered := by
  simp [Covered, take, again]

/-- Without a token, what is not known of is still to be announced. -/
theorem Covered.asleep (h : b.Covered) (htokens : b.tokens = 0) :
    ∑ k, b.unseen k ≤ b.announcing := by
  unfold Covered at h
  omega

theorem Covered.of_le (h : c.Covered) (hle : b.Le c) : b.Covered := by
  unfold Covered at h ⊢
  rw [hle.tokens, hle.announcing]
  exact Nat.le_trans (sum_le_sum fun k _ => hle.unseen k) h

/-- No step of any thread loses a wake-up. -/
theorem Covered.step [DecidableEq κ] (h : b.Covered) (hstep : b.Step c) : c.Covered := by
  cases hstep with
  | skip => exact h
  | put k => exact h.put k
  | signal hannouncing => exact h.signal hannouncing
  | look k => exact h.look k
  | again => exact covered_again b
  | take _ => exact covered_take b

theorem Covered.follows [DecidableEq κ] (h : b.Covered) (hstep : b.Follows c) : c.Covered := by
  obtain ⟨b', hb', hle⟩ := hstep
  exact (h.step hb').of_le hle

end Covered

end Mailbox

end Relb.Lib
