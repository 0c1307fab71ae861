import Mathlib.Tactic.Common
import Mathlib.Tactic.TypeStar
import Mathlib.Data.List.Infix
/-!
# A channel observed through its log

A component takes items in and gives items out, and keeps the rest pending. Every
event of its log carries the items it took in (`into`) and gave out (`out`).
`Conserves pending log` says that nothing was lost, duplicated or reordered: what
came in is what went out followed by what is pending. `InOrder log` is the safety
half for the whole history: at every moment the output was a prefix of the input.
-/

namespace Relb.Lib

variable {ε β : Type*} {into out : ε → List β} {pending : List β} {log : List ε} {ev : ε}

def Conserves (into out : ε → List β) (pending : List β) (log : List ε) : Prop :=
  log.flatMap into = log.flatMap out ++ pending

def InOrder (into out : ε → List β) (log : List ε) : Prop :=
  ∀ t, t <+: log → t.flatMap out <+: t.flatMap into

theorem flatMap_concat (f : ε → List β) (log : List ε) (ev : ε) :
    (log ++ [ev]).flatMap f = log.flatMap f ++ f ev := by
  simp

namespace Conserves

theorem nil : Conserves into out [] ([] : List ε) := rfl

/-- Items that come in queue up behind the pending ones. -/
theorem receive (h : Conserves into out pending log) (hout : out ev = []) :
    Conserves into out (pending ++ into ev) (log ++ [ev]) := by
  unfold Conserves at h ⊢
  rw [flatMap_concat, flatMap_concat, h, hout]
  simp

/-- The first `n` pending items go out. -/
theorem send {n : Nat} (h : Conserves into out pending log) (hin : into ev = [])
    (hout : out ev = pending.take n) :
    Conserves into out (pending.drop n) (log ++ [ev]) := by
  unfold Conserves at h ⊢
  rw [flatMap_concat, flatMap_concat, h, hin, hout]
  simp

theorem idle (h : Conserves into out pending log) (hin : into ev = []) (hout : out ev = []) :
    Conserves into out pending (log ++ [ev]) := by
  simpa [hin] using h.receive hout

/-- With nothing pending, everything that came in has gone out. -/
theorem drained (h : Conserves into out pending log) (hpending : pending = []) :
    log.flatMap out = log.flatMap into := by
  rw [h, hpending, List.append_nil]

end Conserves

namespace InOrder

theorem nil : InOrder into out ([] : List ε) := by
  intro t ht
  rw [List.prefix_nil.mp ht]
  exact List.prefix_rfl

theorem concat (h : InOrder into out log)
    (hlast : (log ++ [ev]).flatMap out <+: (log ++ [ev]).flatMap into) :
    InOrder into out (log ++ [ev]) := by
  intro t ht
  rcases List.prefix_concat_iff.mp ht with rfl | ht'
  · exact hlast
  · exact h t ht'

/-- An event that gives nothing out keeps the order. -/
theorem receive (h : InOrder into out log) (hout : out ev = []) :
    InOrder into out (log ++ [ev]) := by
  apply h.concat
  rw [flatMap_concat, flatMap_concat, hout, List.append_nil]
  exact (h log List.prefix_rfl).trans (List.prefix_append _ _)

/-- What goes out may be any first part of what is pending. -/
theorem send (h : InOrder into out log) (hcons : Conserves into out pending log)
    (hout : out ev <+: pending) : InOrder into out (log ++ [ev]) := by
  apply h.concat
  rw [flatMap_concat, flatMap_concat, hcons, List.append_assoc]
  exact (List.prefix_append_right_inj _).mpr (hout.trans (List.prefix_append _ _))

end InOrder

end Relb.Lib
