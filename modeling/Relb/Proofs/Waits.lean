import Relb.Lib.Runs
import Relb.Model.Tasks
import Relb.Proofs.Narrowing
/-!
# How long the thread waits

The time to the next pass is narrowed to an `int` before it is limited, and only from above. So a
time that has gone by, and one that is 25 days away, can both leave a wait that is not positive.
-/

namespace Relb

open Lib

variable {next test value ms : Int}

/-- Whole seconds, from one to fifteen. -/
def WakesUp (ms : Int) : Prop := 1000 ∣ ms ∧ 1000 ≤ ms ∧ ms ≤ 15000

/-- The time that is left, modulo `2 ^ 32`: the first reading puts it into the lower half and at
fourteen seconds or more, or the second one finds less than fifteen seconds, or that not a whole
second has gone by. -/
def Timely (next test value : Int) : Prop :=
  14000 ≤ (next - test + 16) % 2 ^ 32 ∧ (next - test + 16) % 2 ^ 32 < 2 ^ 31 ∨
    (next - value + 16) % 2 ^ 32 < 15000 ∨ 2 ^ 32 - 1000 < (next - value + 16) % 2 ^ 32

instance (next test value : Int) : Decidable (Timely next test value) :=
  inferInstanceAs (Decidable (_ ∧ _ ∨ _ ∨ _))

theorem tdiv_seconds (ms : Int) :
    (0 ≤ ms → ms.tdiv 1000 * 1000 ≤ ms ∧ ms < ms.tdiv 1000 * 1000 + 1000) ∧
      (ms < 0 → ms ≤ ms.tdiv 1000 * 1000 ∧ ms.tdiv 1000 * 1000 < ms + 1000) := by
  constructor
  · intro h
    rw [Int.tdiv_eq_ediv_of_nonneg h]
    omega
  · intro h
    have hdiv : ms.tdiv 1000 = -(-ms / 1000) := by
      calc
        ms.tdiv 1000 = (- -ms).tdiv 1000 := by rw [Int.neg_neg]
        _ = -(-ms).tdiv 1000 := Int.neg_tdiv _ _
        _ = -(-ms / 1000) := by rw [Int.tdiv_eq_ediv_of_nonneg (by omega)]
    rw [hdiv]
    omega

theorem wakesUp_rounded_iff (h0 : -2 ^ 31 ≤ ms) (h : ms < 2 ^ 31) :
    WakesUp (toInt (ms.tdiv 1000 * 1000 + 1000)) ↔ -1000 < ms ∧ ms < 15000 := by
  obtain ⟨hleft, hpassed⟩ := tdiv_seconds ms
  unfold WakesUp
  by_cases hfits : ms.tdiv 1000 * 1000 + 1000 < 2 ^ 31
  · rw [toInt_of_lt (by omega) hfits]
    omega
  · have hwrapped : toInt (ms.tdiv 1000 * 1000 + 1000) < 0 := by
      rw [toInt_eq, if_neg (by omega)]
      omega
    omega

theorem wakesUp_waitMs_iff (next test value : Int) :
    WakesUp (waitMs next test value) ↔ Timely next test value := by
  have htest := toInt_eq (next - test + 16)
  have hvalue := toInt_eq (next - value + 16)
  unfold waitMs Timely
  change WakesUp (toInt ((if toInt (next - test + 16) < 14000 then toInt (next - value + 16)
    else 14000).tdiv 1000 * 1000 + 1000)) ↔ _
  by_cases hshort : toInt (next - test + 16) < 14000
  · obtain ⟨h0, h⟩ := toInt_range (next - value + 16)
    rw [if_pos hshort, wakesUp_rounded_iff h0 h]
    split_ifs at htest hvalue <;> omega
  · rw [if_neg hshort, wakesUp_rounded_iff (by decide) (by decide)]
    split_ifs at htest <;> omega

namespace Scheduler

variable {s t : Scheduler} {op : Op}

/-- Every wait so far lets the thread go on in time. -/
def AlwaysWakesUp (s : Scheduler) : Prop := ∀ ms ∈ s.waits, WakesUp ms

/-- A wait that begins with a time that is near. -/
def WaitsTimely (s : Scheduler) : Op → Prop
  | .executeTasks _ => True
  | .wait test value => Timely s.pass.nextTaskRunTime test value

theorem alwaysWakesUp_perform (h : s.AlwaysWakesUp) (htimely : s.WaitsTimely op)
    (hstep : s.perform op = .ok t) : t.AlwaysWakesUp := by
  cases op with
  | executeTasks now =>
      unfold perform at hstep
      dsimp only at hstep
      split at hstep
      · obtain rfl := Except.ok.inj hstep
        exact h
      · cases hstep
  | wait test value =>
      obtain rfl := Except.ok.inj hstep
      intro ms hms
      rcases List.mem_append.mp hms with hms | hms
      · exact h ms hms
      · rw [List.mem_singleton.mp hms]
        exact (wakesUp_waitMs_iff _ _ _).mpr htimely

theorem not_wakesUp_of_not_timely (hlate : ¬s.WaitsTimely op) :
    ∃ t, s.perform op = .ok t ∧ ¬t.AlwaysWakesUp := by
  cases op with
  | executeTasks now => exact absurd trivial hlate
  | wait test value =>
      refine ⟨_, rfl, fun h => hlate ?_⟩
      exact (wakesUp_waitMs_iff _ _ _).mp (h _ (by simp))

/-- The thread always wakes up in time exactly if the time of the next pass is near whenever it
begins to wait, whatever the tasks are. -/
theorem alwaysWakesUp_along_iff (pass : TaskPass) (ops : List Op) :
    Along perform AlwaysWakesUp (start pass) ops ↔ Clear perform WaitsTimely (start pass) ops :=
  along_iff_clear (fun _ h => h) (fun _ _ _ => alwaysWakesUp_perform)
    (fun _ _ _ => not_wakesUp_of_not_timely) (fun _ hms => absurd hms List.not_mem_nil) ops

/-- A task that is first due in thirty days, and a wait that is below zero. -/
theorem scheduler_sleeps_on :
    ¬Along perform AlwaysWakesUp
      (ofTaskList (TaskList.create.addTaskAt .purgeConnections (63900000000000 + 30 * 86400000)
        86400) (.create 0))
      [.executeTasks 63900000000000, .wait 63900000000000 63900000000000] := by
  intro h
  have hwait := h.of_runAll rfl (-1702966000) (by decide +kernel)
  exact absurd hwait.2.1 (by decide)

end Scheduler

end Relb
