import Relb.Lib.Runs
/-!
# Forward simulation

Two transition systems, one of them closer to a program. `Simulation` relates their states: a step
of the first is followed by any number of steps of the second, none of them if nothing happens that
the second knows of. `I` is what is already known of the states that the first one reaches. So
whatever holds of the states of the second, holds of the first through the relation.
-/

namespace Relb.Lib

variable {σ τ α β : Type*} {step : σ → α → σ → Prop} {guard : σ → α → Prop} {init : σ → Prop}
  {step' : τ → β → τ → Prop} {guard' : τ → β → Prop} {init' : τ → Prop} {I : σ → Prop}
  {R : σ → τ → Prop}

/-- Runs are put one behind the other. -/
theorem Reach.trans {s t : σ} (hs : Reach step guard init s)
    (ht : Reach step guard (· = s) t) : Reach step guard init t := by
  induction ht with
  | start h => exact h ▸ hs
  | next _ hg hst ih => exact ih.next hg hst

theorem Reach.one {s t : σ} {a : α} (hguard : guard s a) (hstep : step s a t) :
    Reach step guard (· = s) t := by
  have hstart : Reach step guard (· = s) s := .start rfl
  exact hstart.next hguard hstep

structure Simulation (step : σ → α → σ → Prop) (guard : σ → α → Prop) (init : σ → Prop)
    (step' : τ → β → τ → Prop) (guard' : τ → β → Prop) (init' : τ → Prop) (I : σ → Prop)
    (R : σ → τ → Prop) : Prop where
  start : ∀ s, init s → ∃ a, init' a ∧ R s a
  follow : ∀ s op t a, I s → R s a → guard s op → step s op t →
    ∃ b, Reach step' guard' (· = a) b ∧ R t b

namespace Simulation

/-- Every state of the first system stands for a state that the second one reaches. -/
theorem reach (h : Simulation step guard init step' guard' init' I R)
    (hI : ∀ s, Reach step guard init s → I s) {s : σ} (hs : Reach step guard init s) :
    ∃ a, Reach step' guard' init' a ∧ R s a := by
  induction hs with
  | start hinit =>
      obtain ⟨a, ha, hR⟩ := h.start _ hinit
      exact ⟨a, .start ha, hR⟩
  | next hs hg hst ih =>
      obtain ⟨a, ha, hR⟩ := ih
      obtain ⟨b, hb, hR'⟩ := h.follow _ _ _ a (hI _ hs) hR hg hst
      exact ⟨b, ha.trans hb, hR'⟩

end Simulation

end Relb.Lib
