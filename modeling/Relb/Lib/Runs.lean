import Mathlib.Tactic.Common
import Mathlib.Tactic.TypeStar
/-!
# Runs of a labelled transition relation

`Reach step guard init` collects the states reached from `init` by steps that
all meet `guard`, a condition on the state before the step and its label. With
the guard `anyStep` these are all the reachable states; a stronger guard singles
out the runs in which every step stays clear of some branch. A program that can
stop at a fault is an `Except` value whose error carries the state at the fault,
and `Always` states a property of that final state, however the program ended.
`Visits` says that a run goes through a state of some kind.

A step function of this kind runs a list of labels with `runAll`. `Clear guard` says
that every step of the run meets the guard, and `Along I` that every state it goes
through satisfies `I`.
-/

namespace Relb.Lib

section Reach

variable {σ α : Type*} {step : σ → α → σ → Prop} {guard : σ → α → Prop} {init : σ → Prop}

/-- The guard that every step meets. -/
def anyStep : σ → α → Prop := fun _ _ => True

inductive Reach (step : σ → α → σ → Prop) (guard : σ → α → Prop) (init : σ → Prop) : σ → Prop
  | start {s : σ} : init s → Reach step guard init s
  | next {s t : σ} {a : α} :
      Reach step guard init s → guard s a → step s a t → Reach step guard init t

/-- Every step of a run of `f` meets the guard. -/
def Guarded (f : σ → α → Option σ) (guard : σ → α → Prop) : σ → List α → Prop
  | _, [] => True
  | s, a :: as => guard s a ∧ ∀ t, f s a = some t → Guarded f guard t as

instance decidableGuarded {f : σ → α → Option σ} {guard : σ → α → Prop}
    [∀ s a, Decidable (guard s a)] : ∀ s as, Decidable (Guarded f guard s as)
  | _, [] => .isTrue trivial
  | s, a :: as =>
      have : Decidable (∀ t, f s a = some t → Guarded f guard t as) :=
        match f s a with
        | none => .isTrue fun _ h => nomatch h
        | some t =>
            match decidableGuarded t as with
            | .isTrue ht => .isTrue fun _ h => Option.some.inj h ▸ ht
            | .isFalse ht => .isFalse fun h => ht (h t rfl)
      inferInstanceAs (Decidable (_ ∧ _))

theorem guarded_anyStep (f : σ → α → Option σ) (s : σ) (as : List α) : Guarded f anyStep s as := by
  induction as generalizing s with
  | nil => trivial
  | cons a as ih => exact ⟨trivial, fun t _ => ih t⟩

/-- A run of `f` goes through a state that satisfies `P`. -/
def Visits (f : σ → α → Option σ) (P : σ → Prop) : σ → List α → Prop
  | s, [] => P s
  | s, a :: as => P s ∨ ∃ t, f s a = some t ∧ Visits f P t as

instance decidableVisits {f : σ → α → Option σ} {P : σ → Prop} [DecidablePred P] :
    ∀ s as, Decidable (Visits f P s as)
  | s, [] => inferInstanceAs (Decidable (P s))
  | s, a :: as =>
      have : Decidable (∃ t, f s a = some t ∧ Visits f P t as) :=
        match f s a with
        | none => .isFalse fun ⟨_, h, _⟩ => nomatch h
        | some t =>
            match decidableVisits t as with
            | .isTrue ht => .isTrue ⟨t, rfl, ht⟩
            | .isFalse ht => .isFalse fun ⟨_, h, hv⟩ => ht (Option.some.inj h ▸ hv)
      inferInstanceAs (Decidable (_ ∨ _))

theorem foldlM_cons_eq_some {f : σ → α → Option σ} {a : α} {as : List α} {s t : σ} :
    (a :: as).foldlM f s = some t ↔ ∃ u, f s a = some u ∧ as.foldlM f u = some t := by
  rw [List.foldlM_cons, Option.bind_eq_bind, Option.bind_eq_some_iff]

/-- What every label of a run keeps holds where it ends. -/
theorem kept_foldlM {f : σ → α → Option σ} {I : σ → Prop} {as : List α} {s t : σ}
    (hI : ∀ a ∈ as, ∀ s t, I s → f s a = some t → I t) (hs : I s)
    (h : as.foldlM f s = some t) : I t := by
  induction as generalizing s with
  | nil => exact Option.some.inj h ▸ hs
  | cons a as ih =>
      obtain ⟨u, hu, h⟩ := foldlM_cons_eq_some.mp h
      exact ih (fun x hx => hI x (List.mem_cons_of_mem _ hx))
        (hI a List.mem_cons_self s u hs hu) h

/-- `I` is kept, and becomes `J` in the state visited, which is kept from there on. -/
theorem Visits.foldlM {f : σ → α → Option σ} {P I J : σ → Prop} {as : List α} {s t : σ}
    (hv : Visits f P s as) (hI : ∀ a ∈ as, ∀ s t, I s → f s a = some t → I t)
    (hJ : ∀ a ∈ as, ∀ s t, J s → f s a = some t → J t) (hIJ : ∀ s, I s → P s → J s) (hs : I s)
    (h : as.foldlM f s = some t) : J t := by
  induction as generalizing s with
  | nil => exact Option.some.inj h ▸ hIJ s hs hv
  | cons a as ih =>
      rcases hv with hp | ⟨u, hu, hv⟩
      · exact kept_foldlM hJ (hIJ s hs hp) h
      · rw [List.foldlM_cons, hu] at h
        exact ih hv (fun x hx => hI x (List.mem_cons_of_mem _ hx))
          (fun x hx => hJ x (List.mem_cons_of_mem _ hx)) (hI a List.mem_cons_self s u hs hu) h

namespace Reach

/-- An invariant of the initial states that each guarded step preserves holds in
every state of a guarded run. -/
theorem invariant {I : σ → Prop} (hinit : ∀ s, init s → I s)
    (hstep : ∀ s a t, I s → guard s a → step s a t → I t) :
    ∀ {s}, Reach step guard init s → I s := by
  intro s hs
  induction hs with
  | start h => exact hinit _ h
  | next _ hg hst ih => exact hstep _ _ _ ih hg hst

/-- A step function runs a list of labels; every step on the way meets the guard. -/
theorem foldlM {f : σ → α → Option σ} {init : σ → Prop} {as : List α} {s t : σ}
    (hs : Reach (fun s a t => f s a = some t) guard init s) (hguard : Guarded f guard s as)
    (h : as.foldlM f s = some t) : Reach (fun s a t => f s a = some t) guard init t := by
  induction as generalizing s with
  | nil => exact Option.some.inj h ▸ hs
  | cons a as ih =>
      obtain ⟨u, hu, h⟩ := foldlM_cons_eq_some.mp h
      exact ih (hs.next hguard.1 hu) (hguard.2 u hu) h

theorem mono {guard' : σ → α → Prop} (hguard : ∀ s a, guard s a → guard' s a) {s : σ}
    (hs : Reach step guard init s) : Reach step guard' init s := by
  induction hs with
  | start h => exact .start h
  | next _ hg hst ih => exact .next ih (hguard _ _ hg) hst

end Reach

end Reach

section Always

variable {σ β : Type*} {I J : σ → Prop}

/-- The state a program ended in, normally or at a fault. -/
def final : Except σ σ → σ
  | .ok s => s
  | .error s => s

@[simp] theorem final_ok (s : σ) : final (.ok s) = s := rfl

/-- `I` holds where the program ended, normally or at a fault. -/
def Always (I : σ → Prop) (x : Except σ σ) : Prop := I (final x)

theorem Always.ok {s : σ} (h : I s) : Always I (.ok s) := h

theorem Always.imp {x : Except σ σ} (hx : Always I x) (h : ∀ s, I s → J s) : Always J x :=
  h _ hx

/-- Sequencing: the second program starts only where the first ended normally, and where the
first faulted its own property has to be enough. -/
theorem Always.bind {x : Except σ σ} {f : σ → Except σ σ} (hx : Always I x)
    (hf : ∀ s, I s → Always J (f s)) (hfault : ∀ s, I s → J s) : Always J (x >>= f) := by
  cases x with
  | ok s => exact hf s hx
  | error s => exact hfault s hx

end Always

section Run

variable {σ α : Type*} {step : σ → α → Except σ σ} {guard : σ → α → Prop} {I J : σ → Prop}

def runAll (step : σ → α → Except σ σ) : σ → List α → Except σ σ
  | s, [] => .ok s
  | s, a :: as => step s a >>= fun t => runAll step t as

def Clear (step : σ → α → Except σ σ) (guard : σ → α → Prop) : σ → List α → Prop
  | _, [] => True
  | s, a :: as => guard s a ∧ ∀ t, step s a = .ok t → Clear step guard t as

def Along (step : σ → α → Except σ σ) (I : σ → Prop) : σ → List α → Prop
  | s, [] => I s
  | s, a :: as => I s ∧ ∀ t, step s a = .ok t → Along step I t as

theorem runAll_cons_of_ok {a : α} {s t : σ} (h : step s a = .ok t) (as : List α) :
    runAll step s (a :: as) = runAll step t as := by
  rw [runAll, h]
  rfl

theorem runAll_append_of_ok {as : List α} {s t : σ} (h : runAll step s as = .ok t)
    (bs : List α) : runAll step s (as ++ bs) = runAll step t bs := by
  induction as generalizing s with
  | nil => rw [List.nil_append, Except.ok.inj h]
  | cons a as ih =>
      rw [runAll] at h
      cases hstep : step s a with
      | ok u =>
          rw [hstep] at h
          rw [List.cons_append, runAll_cons_of_ok hstep]
          exact ih h
      | error u =>
          rw [hstep] at h
          cases h

/-- What holds along a run holds where it ends. -/
theorem Along.of_runAll {as : List α} {s t : σ} (h : Along step I s as)
    (hrun : runAll step s as = .ok t) : I t := by
  induction as generalizing s with
  | nil => exact Except.ok.inj hrun ▸ h
  | cons a as ih =>
      rw [runAll] at hrun
      cases hstep : step s a with
      | ok u =>
          rw [hstep] at hrun
          exact ih (h.2 u hstep) hrun
      | error u =>
          rw [hstep] at hrun
          cases hrun

/-- If the guard says exactly when a step does not fault, it says so for runs. -/
theorem runAll_ok_iff (hstep : ∀ s a, (∃ t, step s a = .ok t) ↔ guard s a) (s : σ)
    (as : List α) : (∃ t, runAll step s as = .ok t) ↔ Clear step guard s as := by
  induction as generalizing s with
  | nil => exact ⟨fun _ => trivial, fun _ => ⟨s, rfl⟩⟩
  | cons a as ih =>
      simp only [runAll, Clear, ← hstep s a]
      cases hs : step s a with
      | ok t =>
          refine ⟨fun h => ⟨⟨t, rfl⟩, fun t' ht' => ?_⟩, fun h => (ih t).mpr (h.2 t rfl)⟩
          rw [← Except.ok.inj ht']
          exact (ih t).mp h
      | error t =>
          constructor
          · rintro ⟨u, hu⟩
            cases hu
          · rintro ⟨⟨u, hu⟩, -⟩
            cases hu

/-- An invariant `I` that gives the property `J`, is kept by the steps that meet the guard, and
is left with `J` broken by every other step: then `J` holds along a run exactly when every
step meets the guard. -/
theorem along_iff_clear (hgood : ∀ s, I s → J s)
    (hkeep : ∀ s a t, I s → guard s a → step s a = .ok t → I t)
    (hbreak : ∀ s a, I s → ¬guard s a → ∃ t, step s a = .ok t ∧ ¬J t) {s : σ} (hs : I s)
    (as : List α) : Along step J s as ↔ Clear step guard s as := by
  induction as generalizing s with
  | nil => exact ⟨fun _ => trivial, fun _ => hgood s hs⟩
  | cons a as ih =>
      constructor
      · rintro ⟨-, hrest⟩
        have hguard : guard s a := by
          by_contra hnot
          obtain ⟨t, ht, hbad⟩ := hbreak s a hs hnot
          have hafter := hrest t ht
          cases as with
          | nil => exact hbad hafter
          | cons b bs => exact hbad hafter.1
        exact ⟨hguard, fun t ht => (ih (hkeep s a t hs hguard ht)).mp (hrest t ht)⟩
      · rintro ⟨hguard, hrest⟩
        exact ⟨hgood s hs, fun t ht => (ih (hkeep s a t hs hguard ht)).mpr (hrest t ht)⟩

end Run

end Relb.Lib
