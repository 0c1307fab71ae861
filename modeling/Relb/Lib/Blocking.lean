import Mathlib.Data.Set.Basic
import Mathlib.Logic.Function.Basic
import Mathlib.Order.WellFounded
import Relb.Lib.Runs
/-!
# Threads that wait for each other

Threads go through calls, which are lists of actions: they lock and unlock for reading and for
writing, post to bounded buffers and take from them. A thread waits in front of a lock that others
hold, and in front of a full buffer. How readers and writers queue up in front of a lock is left
open: a step needs only that the lock can be given, and a thread counts as ready only if no writer
waits in front of it.

Locks and buffers have ranks. A thread that waits for something has a higher rank in front of it
than all the locks it holds, and the thread that empties a buffer waits only above the rank of the
buffer. What has no rank is never waited for: nobody locks it for writing, or it has room. Then the
threads do not all wait (`not_stuck`): the one in front of the highest rank would wait for one in
front of a higher rank.
-/

namespace Relb.Lib

inductive Action (κ β : Type*)
  | rdlock (l : κ)
  | wrlock (l : κ)
  | unlock (l : κ)
  | post (b : β)
  | take (b : β)
  deriving DecidableEq

/-- How a thread holds a lock. -/
inductive Hold
  | reading
  | writing
  deriving DecidableEq

/-- `program` is what the threads have left of their calls. -/
structure Threads (ι κ β : Type*) where
  program : ι → List (Action κ β)
  held : ι → κ → Option Hold
  fill : β → Nat

/-- The rank of a lock or a buffer that threads may wait for. -/
structure Ranks (κ β ρ : Type*) where
  lock : κ → Option ρ
  buffer : β → Option ρ

/-- The rank that an action may wait in front of. -/
def Ranks.wait {κ β ρ : Type*} (r : Ranks κ β ρ) : Action κ β → Option ρ
  | .rdlock l | .wrlock l => r.lock l
  | .post b => r.buffer b
  | .unlock _ | .take _ => none

namespace Threads

variable {ι κ β ρ : Type*}

/-- Nobody has started. -/
def idle : Threads ι κ β := ⟨fun _ => [], fun _ _ => none, fun _ => 0⟩

section Steps

variable [DecidableEq ι] [DecidableEq κ] [DecidableEq β]

/-- The locks of a thread behind an action. -/
def heldAfter (held : κ → Option Hold) : Action κ β → κ → Option Hold
  | .rdlock l => Function.update held l (some .reading)
  | .wrlock l => Function.update held l (some .writing)
  | .unlock l => Function.update held l none
  | .post _ | .take _ => held

def fillAfter (fill : β → Nat) : Action κ β → β → Nat
  | .post b => Function.update fill b (fill b + 1)
  | .take b => Function.update fill b (fill b - 1)
  | .rdlock _ | .wrlock _ | .unlock _ => fill

/-- Thread `i` has started a call. -/
def begin (s : Threads ι κ β) (i : ι) (p : List (Action κ β)) : Threads ι κ β :=
  { s with program := Function.update s.program i p }

/-- Thread `i` has done `a`. -/
def done (s : Threads ι κ β) (i : ι) (a : Action κ β) (rest : List (Action κ β)) :
    Threads ι κ β where
  program := Function.update s.program i rest
  held := Function.update s.held i (heldAfter (s.held i) a)
  fill := fillAfter s.fill a

end Steps

/-- The lock can be given, and the buffer has room. -/
def Admits (limit : β → Nat) (s : Threads ι κ β) : Action κ β → Prop
  | .rdlock l => ∀ j, s.held j l ≠ some .writing
  | .wrlock l => ∀ j, s.held j l = none
  | .post b => s.fill b < limit b
  | .unlock _ | .take _ => True

/-- Besides, no writer waits in front of the lock. -/
def Ready (limit : β → Nat) (s : Threads ι κ β) (a : Action κ β) : Prop :=
  s.Admits limit a ∧ ∀ l, a = .rdlock l → ∀ j, (s.program j).head? ≠ some (.wrlock l)

/-- A step of thread `i`; `calls` are the calls that a thread may start, those that begin with
taking something only if there is something. -/
inductive Step [DecidableEq ι] [DecidableEq κ] [DecidableEq β] (limit : β → Nat)
    (calls : ι → Set (List (Action κ β))) (s : Threads ι κ β) (i : ι) : Threads ι κ β → Prop
  | start (p : List (Action κ β)) : s.program i = [] → p ∈ calls i →
      (∀ b, p.head? = some (.take b) → 0 < s.fill b) → Step limit calls s i (s.begin i p)
  | go (a : Action κ β) (rest : List (Action κ β)) : s.program i = a :: rest → s.Admits limit a →
      Step limit calls s i (s.done i a rest)

/-- Some thread is in a call, none of these can go on, and who empties a buffer with something in it
is one of them. Threads that wait for each other while others go on come to this, once the others
have finished their calls and emptied their buffers, or wait as well. -/
structure Stuck (limit : β → Nat) (consumer : β → ι) (s : Threads ι κ β) : Prop where
  started : ∃ i, s.program i ≠ []
  waiting : ∀ i a rest, s.program i = a :: rest → ¬s.Ready limit a
  consumers : ∀ b, 0 < s.fill b → s.program (consumer b) ≠ []

/-! ## One call while nobody else moves -/

section Alone

variable [DecidableEq ι]

/-- Only thread `i` is in a call, and only it holds locks. -/
def alone (i : ι) (held : κ → Option Hold) (fill : β → Nat) (p : List (Action κ β)) :
    Threads ι κ β :=
  ⟨Function.update (fun _ => []) i p, Function.update (fun _ _ => none) i held, fill⟩

theorem alone_nil (i : ι) (fill : β → Nat) :
    (alone i (fun _ => none) fill [] : Threads ι κ β) = ⟨fun _ => [], fun _ _ => none, fill⟩ := by
  unfold alone
  rw [Function.update_eq_self_iff.mpr rfl, Function.update_eq_self_iff.mpr rfl]

variable [DecidableEq κ] [DecidableEq β] {limit : β → Nat}
  {calls : ι → Set (List (Action κ β))} {s : Threads ι κ β} {i : ι}

/-- Its next action, if nothing stands against it. -/
theorem reach_alone {held : κ → Option Hold} {fill : β → Nat} {a : Action κ β}
    {p : List (Action κ β)}
    (h : Reach (Step limit calls) anyStep (· = idle) (alone i held fill (a :: p)))
    (hrdlock : ∀ l, a = .rdlock l → held l ≠ some .writing)
    (hwrlock : ∀ l, a = .wrlock l → held l = none) (hpost : ∀ b, a = .post b → fill b < limit b) :
    Reach (Step limit calls) anyStep (· = idle)
      (alone i (heldAfter held a) (fillAfter fill a) p) := by
  have hself : (alone i held fill (a :: p)).held i = held := by
    simp only [alone, Function.update_self]
  have hheld : ∀ l j, (alone i held fill (a :: p)).held j l = none ∨
      (alone i held fill (a :: p)).held j l = held l := by
    intro l j
    by_cases hj : j = i
    · exact .inr (by rw [hj, hself])
    · refine .inl ?_
      change Function.update (fun _ _ => none) i held j l = none
      rw [Function.update_of_ne hj]
  have hadmits : (alone i held fill (a :: p)).Admits limit a := by
    cases a with
    | rdlock l =>
        intro j hj
        rcases hheld l j with hnone | hsame
        · exact absurd (hnone.symm.trans hj) nofun
        · exact hrdlock l rfl (hsame.symm.trans hj)
    | wrlock l => exact fun j => (hheld l j).elim id fun hsame => hsame.trans (hwrlock l rfl)
    | post b => exact hpost b rfl
    | unlock l | take b => trivial
  have hprogram : (alone i held fill (a :: p)).program i = a :: p := by
    simp only [alone, Function.update_self]
  have hnext := h.next trivial (.go a p hprogram hadmits)
  have hdone : (alone i held fill (a :: p)).done i a p =
      alone i (heldAfter held a) (fillAfter fill a) p := by
    unfold done
    rw [hself]
    simp only [alone, Function.update_idem]
  rwa [hdone] at hnext

/-- A thread posts and ends its call, while others may be in theirs. -/
theorem reach_post (h : Reach (Step limit calls) anyStep (· = idle) s) {b : β}
    (hi : s.program i = []) (hcall : [.post b] ∈ calls i) (hroom : s.fill b < limit b) :
    Reach (Step limit calls) anyStep (· = idle)
      { s with fill := Function.update s.fill b (s.fill b + 1) } := by
  have hstarted := h.next trivial (.start [.post b] hi hcall nofun)
  have hprogram : (s.begin i [.post b]).program i = [.post b] := by
    simp only [begin, Function.update_self]
  have hnext := hstarted.next trivial (.go (.post b) [] hprogram hroom)
  have hdone : (s.begin i [.post b]).done i (.post b) [] =
      { s with fill := Function.update s.fill b (s.fill b + 1) } := by
    simp only [done, begin, Function.update_idem, heldAfter, fillAfter,
      Function.update_eq_self, ← hi]
  rwa [hdone] at hnext

end Alone

/-! ## Calls in the order of the ranks -/

section Ordered

variable [DecidableEq κ] [Preorder ρ] {r : Ranks κ β ρ}
  {limit : β → Nat} {consumer : β → ι} {calls : ι → Set (List (Action κ β))} {s t : Threads ι κ β}
  {i : ι}

/-- Locks are taken once and given back, those without a rank are not locked for writing, and a
thread waits above the locks that it holds. -/
structure Fits (r : Ranks κ β ρ) (held : κ → Option Hold) (a : Action κ β) : Prop where
  free : ∀ l, a = .rdlock l ∨ a = .wrlock l → held l = none
  owned : ∀ l, a = .unlock l → held l ≠ none
  ranked : ∀ l, a = .wrlock l → r.lock l ≠ none
  above : ∀ n, r.wait a = some n → ∀ l k, held l ≠ none → r.lock l = some k → k < n

/-- Each action fits; `after` are the locks that are held in the end. -/
def Leads (r : Ranks κ β ρ) (after : κ → Option Hold) : (κ → Option Hold) → List (Action κ β) → Prop
  | held, [] => held = after
  | held, a :: p => Fits r held a ∧ Leads r after (heldAfter held a) p

theorem Leads.append {held between after : κ → Option Hold} {p q : List (Action κ β)}
    (hp : Leads r between held p) (hq : Leads r after between q) :
    Leads r after held (p ++ q) := by
  induction p generalizing held with
  | nil => exact hp ▸ hq
  | cons a p ih => exact ⟨hp.1, ih hp.2⟩

theorem leads_flatMap {α : Type*} {held : κ → Option Hold} {l : List α}
    {f : α → List (Action κ β)} (hf : ∀ x, Leads r held held (f x)) :
    Leads r held held (l.flatMap f) := by
  induction l with
  | nil => rfl
  | cons x l ih =>
      rw [List.flatMap_cons]
      exact (hf x).append ih

/-- Actions that have nothing to do with locks. -/
theorem leads_of_fits {held : κ → Option Hold} {p : List (Action κ β)}
    (hp : ∀ a ∈ p, heldAfter held a = held ∧ Fits r held a) : Leads r held held p := by
  induction p with
  | nil => rfl
  | cons a p ih =>
      obtain ⟨hheld, hfits⟩ := hp a List.mem_cons_self
      refine ⟨hfits, ?_⟩
      rw [hheld]
      exact ih fun b hb => hp b (List.mem_cons_of_mem a hb)

/-- From no lock to no lock. -/
def Nested (r : Ranks κ β ρ) (p : List (Action κ β)) : Prop :=
  Leads r (fun _ => none) (fun _ => none) p

structure Ordered (r : Ranks κ β ρ) (consumer : β → ι) (calls : ι → Set (List (Action κ β))) :
    Prop where
  nested : ∀ i, ∀ p ∈ calls i, Nested r p
  above : ∀ b k, r.buffer b = some k → ∀ p ∈ calls (consumer b), ∀ a ∈ p, ∀ n,
    r.wait a = some n → k < n

/-- What holds of the threads between two steps. -/
structure Sound (r : Ranks κ β ρ) (consumer : β → ι) (s : Threads ι κ β) : Prop where
  nested : ∀ i, Leads r (fun _ => none) (s.held i) (s.program i)
  above : ∀ b k, r.buffer b = some k → ∀ a ∈ s.program (consumer b), ∀ n,
    r.wait a = some n → k < n
  ranked : ∀ i l, s.held i l = some .writing → r.lock l ≠ none

theorem sound_idle : (idle : Threads ι κ β).Sound r consumer where
  nested _ := rfl
  above _ _ _ _ ha := nomatch ha
  ranked _ _ hheld := nomatch hheld

/-! ## Waiting -/

/-- A lock that is waited for is held, by a thread in a call. -/
theorem Sound.holder (h : s.Sound r consumer) {l : κ} {j : ι} (hheld : s.held j l ≠ none) :
    ∃ a rest, s.program j = a :: rest := by
  cases hj : s.program j with
  | nil =>
      have hnested := h.nested j
      rw [hj] at hnested
      exact absurd (congrFun hnested l) hheld
  | cons a rest => exact ⟨a, rest, rfl⟩

/-- Where a thread waits there is a rank. -/
theorem Sound.wait (h : s.Sound r consumer) (hroom : ∀ b, r.buffer b = none → s.fill b < limit b)
    {a : Action κ β} {rest : List (Action κ β)} (hi : s.program i = a :: rest)
    (hready : ¬s.Ready limit a) : ∃ n, r.wait a = some n := by
  have hfits : ∀ j b rest, s.program j = b :: rest → Fits r (s.held j) b := by
    intro j b rest hj
    have hnested := h.nested j
    rw [hj] at hnested
    exact hnested.1
  apply Option.ne_none_iff_exists'.mp
  intro hnone
  apply hready
  cases a with
  | rdlock l =>
      refine ⟨fun j hheld => h.ranked j l hheld hnone, fun l' hl j hj => ?_⟩
      obtain rfl : l = l' := by injection hl
      cases hp : s.program j with
      | nil =>
          rw [hp] at hj
          cases hj
      | cons b rest' =>
          rw [hp] at hj
          exact (hfits j b rest' hp).ranked l (Option.some.inj hj) hnone
  | wrlock l => exact absurd hnone ((hfits i _ rest hi).ranked l rfl)
  | unlock l => exact ⟨trivial, fun _ hl => nomatch hl⟩
  | post b => exact ⟨hroom b hnone, fun _ hl => nomatch hl⟩
  | take b => exact ⟨trivial, fun _ hl => nomatch hl⟩

/-- Who waits, waits for a thread in a call that has a higher rank in front of it, unless that one
can go on. -/
theorem Sound.waits_for (h : s.Sound r consumer)
    (hroom : ∀ b, r.buffer b = none → s.fill b < limit b) (hlimit : ∀ b, 0 < limit b)
    (hstuck : s.Stuck limit consumer) {a : Action κ β} {rest : List (Action κ β)}
    (hi : s.program i = a :: rest) {n : ρ} (hn : r.wait a = some n) :
    ∃ j b rest' k, s.program j = b :: rest' ∧ r.wait b = some k ∧ n < k := by
  have hwaits : ∀ l j, r.lock l = some n → s.held j l ≠ none →
      ∃ j b rest' k, s.program j = b :: rest' ∧ r.wait b = some k ∧ n < k := by
    intro l j hl hheld
    obtain ⟨b, rest', hj⟩ := h.holder hheld
    obtain ⟨k, hk⟩ := h.wait hroom hj (hstuck.waiting j b rest' hj)
    have hnested := h.nested j
    rw [hj] at hnested
    exact ⟨j, b, rest', k, hj, hk, hnested.1.above k hk l n hheld hl⟩
  have hready := hstuck.waiting i a rest hi
  cases a with
  | rdlock l =>
      by_cases hwriting : ∃ j, s.held j l = some .writing
      · obtain ⟨j, hj⟩ := hwriting
        exact hwaits l j hn (by rw [hj]; exact Option.some_ne_none _)
      · -- then a writer waits, for a thread that holds the lock
        have hwriter : ∃ j, (s.program j).head? = some (.wrlock l) := by
          by_contra hnone
          refine hready ⟨fun j hj => hwriting ⟨j, hj⟩, fun l' hl j hj => hnone ⟨j, ?_⟩⟩
          injection hl with hl
          rwa [hl]
        obtain ⟨j, hj⟩ := hwriter
        cases hp : s.program j with
        | nil =>
            rw [hp] at hj
            cases hj
        | cons b rest' =>
            rw [hp] at hj
            obtain rfl := Option.some.inj hj
            have hblocked := hstuck.waiting j _ rest' hp
            by_contra hnone
            refine hblocked ⟨fun m => ?_, fun _ hl => nomatch hl⟩
            by_contra hheld
            exact hnone (hwaits l m hn hheld)
  | wrlock l =>
      by_contra hnone
      refine hready ⟨fun m => ?_, fun _ hl => nomatch hl⟩
      by_contra hheld
      exact hnone (hwaits l m hn hheld)
  | post b =>
      have hfull : limit b ≤ s.fill b := by
        by_contra hlt
        exact hready ⟨Nat.lt_of_not_le hlt, fun _ hl => nomatch hl⟩
      have hconsumer := hstuck.consumers b (Nat.lt_of_lt_of_le (hlimit b) hfull)
      obtain ⟨c, rest', hc⟩ := List.exists_cons_of_ne_nil hconsumer
      obtain ⟨k, hk⟩ := h.wait hroom hc (hstuck.waiting _ c rest' hc)
      exact ⟨_, c, rest', k, hc, hk, h.above b n hn c (hc ▸ List.mem_cons_self) k hk⟩
  | unlock l => cases hn
  | take b => cases hn

/-! ## Runs -/

section

variable [DecidableEq ι]

theorem Sound.begin (h : s.Sound r consumer) (hordered : Ordered r consumer calls)
    (hi : s.program i = []) {p : List (Action κ β)} (hp : p ∈ calls i) :
    (s.begin i p).Sound r consumer where
  nested j := by
    by_cases hj : j = i
    · subst hj
      have hnone : s.held j = fun _ => none := by
        have hnested := h.nested j
        rw [hi] at hnested
        exact hnested
      change Leads r _ (s.held j) (Function.update s.program j p j)
      rw [Function.update_self, hnone]
      exact hordered.nested j p hp
    · change Leads r _ (s.held j) (Function.update s.program i p j)
      rw [Function.update_of_ne hj]
      exact h.nested j
  above b k hk a ha := by
    by_cases hb : consumer b = i
    · change a ∈ Function.update s.program i p (consumer b) at ha
      rw [hb, Function.update_self] at ha
      exact hordered.above b k hk p (hb ▸ hp) a ha
    · change a ∈ Function.update s.program i p (consumer b) at ha
      rw [Function.update_of_ne hb] at ha
      exact h.above b k hk a ha
  ranked := h.ranked

variable [DecidableEq β]

theorem Sound.done (h : s.Sound r consumer) {a : Action κ β} {rest : List (Action κ β)}
    (hi : s.program i = a :: rest) : (s.done i a rest).Sound r consumer where
  nested j := by
    by_cases hj : j = i
    · subst hj
      have hnested := h.nested j
      rw [hi] at hnested
      change Leads r _ (Function.update s.held j _ j) (Function.update s.program j rest j)
      rw [Function.update_self, Function.update_self]
      exact hnested.2
    · change Leads r _ (Function.update s.held i _ j) (Function.update s.program i rest j)
      rw [Function.update_of_ne hj, Function.update_of_ne hj]
      exact h.nested j
  above b k hk c hc := by
    have hmem : c ∈ s.program (consumer b) := by
      by_cases hb : consumer b = i
      · change c ∈ Function.update s.program i rest (consumer b) at hc
        rw [hb, Function.update_self] at hc
        rw [hb, hi]
        exact List.mem_cons_of_mem a hc
      · change c ∈ Function.update s.program i rest (consumer b) at hc
        rwa [Function.update_of_ne hb] at hc
    exact h.above b k hk c hmem
  ranked j l hheld := by
    by_cases hj : j = i
    · subst hj
      change Function.update s.held j _ j l = _ at hheld
      rw [Function.update_self] at hheld
      have hnested := h.nested j
      rw [hi] at hnested
      have hbefore : s.held j l = some .writing ∨ a = .wrlock l := by
        cases a with
        | rdlock l' =>
            by_cases hl : l = l'
            · rw [hl, heldAfter, Function.update_self] at hheld
              cases hheld
            · rw [heldAfter, Function.update_of_ne hl] at hheld
              exact .inl hheld
        | wrlock l' =>
            by_cases hl : l = l'
            · exact .inr (hl ▸ rfl)
            · rw [heldAfter, Function.update_of_ne hl] at hheld
              exact .inl hheld
        | unlock l' =>
            by_cases hl : l = l'
            · rw [hl, heldAfter, Function.update_self] at hheld
              cases hheld
            · rw [heldAfter, Function.update_of_ne hl] at hheld
              exact .inl hheld
        | post b => exact .inl hheld
        | take b => exact .inl hheld
      exact hbefore.elim (h.ranked j l) (hnested.1.ranked l)
    · change Function.update s.held i _ j l = _ at hheld
      rw [Function.update_of_ne hj] at hheld
      exact h.ranked j l hheld

theorem Sound.step (h : s.Sound r consumer) (hordered : Ordered r consumer calls)
    (hstep : Step limit calls s i t) : t.Sound r consumer := by
  cases hstep with
  | start p hi hp _ => exact h.begin hordered hi hp
  | go a rest hi _ => exact h.done hi

theorem sound_of_reach (hordered : Ordered r consumer calls)
    (h : Reach (Step limit calls) anyStep (· = idle) s) : s.Sound r consumer := by
  refine Reach.invariant (I := fun s : Threads ι κ β => s.Sound r consumer)
    ?_ (fun s i t hs _ hstep => hs.step hordered hstep) h
  rintro s rfl
  exact sound_idle

/-- As long as what has no rank has room, the threads do not all wait. -/
theorem not_stuck [WellFoundedGT ρ] (hordered : Ordered r consumer calls)
    (hlimit : ∀ b, 0 < limit b) (h : Reach (Step limit calls) anyStep (· = idle) s)
    (hroom : ∀ b, r.buffer b = none → s.fill b < limit b) : ¬s.Stuck limit consumer := by
  intro hstuck
  have hsound := sound_of_reach hordered h
  let ranks : Set ρ := {n | ∃ j a rest, s.program j = a :: rest ∧ r.wait a = some n}
  have hnonempty : ranks.Nonempty := by
    obtain ⟨j, hj⟩ := hstuck.started
    obtain ⟨a, rest, hp⟩ := List.exists_cons_of_ne_nil hj
    obtain ⟨n, hn⟩ := hsound.wait hroom hp (hstuck.waiting j a rest hp)
    exact ⟨n, j, a, rest, hp, hn⟩
  obtain ⟨n, ⟨j, a, rest, hp, hn⟩, hmax⟩ := wellFounded_gt.has_min ranks hnonempty
  obtain ⟨m, b, rest', k, hm, hk, hlt⟩ := hsound.waits_for hroom hlimit hstuck hp hn
  exact hmax k ⟨m, b, rest', hm, hk⟩ hlt

end

end Ordered

end Threads

end Relb.Lib
