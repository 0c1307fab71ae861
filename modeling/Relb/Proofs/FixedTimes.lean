import Relb.Lib.Grid
import Relb.Proofs.Tasks
/-!
# Tasks at fixed times

A task at fixed times is moved when its line is read and whenever it has run. Both divide by its
period and go to the next point of the grid that its first run stands on, however late they come and
however far the clock goes on between its readings.
-/

namespace Relb

open Lib

variable {period : Int → Int} {now test value : Datetime} {interval firstRun : Int} {t : Task}
  {r : Reading} {rs : List Reading}

/-! ## One reading -/

theorem catchUp_eq_catchUpAt (h : intPeriod interval = period interval) (now firstRun : Datetime) :
    catchUp now interval firstRun = catchUpAt period now interval firstRun := by
  unfold catchUp catchUpAt
  rw [← h]
  rfl

theorem Task.rescheduleAt_self (period : Int → Int) (now : Datetime) (t : Task) :
    t.rescheduleAt period now now = t.reschedule period now := rfl

/-! ## Exact arithmetic -/

theorem catchUpAt_eq (hinterval : 0 < interval) (hpassed : firstRun ≤ value) :
    catchUpAt (1000 * ·) value interval firstRun =
      .ok (nextPoint (1000 * interval) value firstRun) := by
  have hperiod : (1000 : Int) * interval ≠ 0 := by omega
  unfold catchUpAt nextPoint
  rw [if_neg hperiod, Int.tdiv_eq_ediv_of_nonneg (by omega)]

namespace Task

theorem rescheduleAt_eq (hfixed : t.fixedTime = true) (hinterval : 0 < t.runIntervalSeconds)
    (hdue : t.nextRunTime ≤ r.check) (hclock : r.check ≤ r.value) :
    t.rescheduleAt (1000 * ·) r.check r.value =
      some (nextPoint (1000 * t.runIntervalSeconds) r.value t.nextRunTime) := by
  have hperiod : 1000 * t.runIntervalSeconds ≠ 0 := by omega
  have hpassed : t.nextRunTime ≤ r.value := Int.le_trans hdue hclock
  unfold rescheduleAt nextPoint
  rw [if_pos hfixed, if_pos hdue, if_neg hperiod,
    Int.tdiv_eq_ediv_of_nonneg (Int.sub_nonneg_of_le hpassed)]

/-- The times that the task gets in passes with these readings, each with the clock value that it is
computed from. Without a time for a task that is due there is no such list. -/
def rescheduled : List Reading → Task → Option (List (Datetime × Datetime))
  | [], _ => some []
  | r :: rs, t =>
      if r.due ≥ t.nextRunTime then
        match t.rescheduleAt (1000 * ·) r.check r.value with
        | some next =>
            (rescheduled rs { t with nextRunTime := next }).map fun log => (r.value, next) :: log
        | none => none
      else rescheduled rs t

/-- The same from its line on, which has given it its first run. -/
def scheduled (test value : Datetime) (rs : List Reading) (t : Task) :
    Option (List (Datetime × Datetime)) :=
  if t.nextRunTime < test then
    match catchUpAt (1000 * ·) value t.runIntervalSeconds t.nextRunTime with
    | .ok next =>
        (rescheduled rs { t with nextRunTime := next }).map fun log => (value, next) :: log
    | .error _ => none
  else rescheduled rs t

end Task

def Reading.times (r : Reading) : List Datetime := [r.due, r.check, r.value]

namespace Task

/-- A time that is due is moved, and the passes keep the grid that the task is on. -/
theorem exists_rescheduled (hfixed : t.fixedTime = true) (hinterval : 0 < t.runIntervalSeconds)
    (hclock : (rs.flatMap Reading.times).Pairwise (· ≤ ·)) :
    ∃ log, t.rescheduled rs = some log ∧
      OnGrid t.nextRunTime (1000 * t.runIntervalSeconds) log := by
  have hperiod : 0 < 1000 * t.runIntervalSeconds := by omega
  induction rs generalizing t with
  | nil => exact ⟨[], rfl, .nil _ _⟩
  | cons r rs ih =>
      rw [List.flatMap_cons, List.pairwise_append] at hclock
      obtain ⟨hreading, hrest, -⟩ := hclock
      simp only [Reading.times, List.pairwise_cons] at hreading
      have hcheck : r.due ≤ r.check := hreading.1 _ (by simp)
      have hgoesOn : r.check ≤ r.value := hreading.2.1 _ (by simp)
      rw [rescheduled]
      split
      · rename_i hdue
        have hpassed : t.nextRunTime ≤ r.check := Int.le_trans hdue hcheck
        obtain ⟨log, hlog, honGrid⟩ := ih (t := { t with
          nextRunTime := nextPoint (1000 * t.runIntervalSeconds) r.value t.nextRunTime })
          hfixed hinterval hrest hperiod
        rw [rescheduleAt_eq hfixed hinterval hpassed hgoesOn]
        dsimp only
        rw [hlog]
        exact ⟨_, rfl, honGrid.cons hperiod (Int.le_trans hpassed hgoesOn)⟩
      · exact ih hfixed hinterval hrest hperiod

theorem exists_scheduled (hfixed : t.fixedTime = true) (hinterval : 0 < t.runIntervalSeconds)
    (hclock : (test :: value :: rs.flatMap Reading.times).Pairwise (· ≤ ·)) :
    ∃ log, t.scheduled test value rs = some log ∧
      OnGrid t.nextRunTime (1000 * t.runIntervalSeconds) log := by
  have hperiod : 0 < 1000 * t.runIntervalSeconds := by omega
  obtain ⟨hline, hclock⟩ := List.pairwise_cons.mp hclock
  have hgoesOn : test ≤ value := hline value List.mem_cons_self
  obtain ⟨-, hrest⟩ := List.pairwise_cons.mp hclock
  unfold scheduled
  split
  · rename_i hpassed
    have hgone : t.nextRunTime ≤ value := Int.le_of_lt (Int.lt_of_lt_of_le hpassed hgoesOn)
    obtain ⟨log, hlog, honGrid⟩ := exists_rescheduled (t := { t with
      nextRunTime := nextPoint (1000 * t.runIntervalSeconds) value t.nextRunTime })
      hfixed hinterval hrest
    rw [catchUpAt_eq hinterval hgone]
    dsimp only
    rw [hlog]
    exact ⟨_, rfl, honGrid.cons hperiod hgone⟩
  · exact exists_rescheduled hfixed hinterval hrest

end Task

/-! ## Passes over all tasks -/

namespace TaskPass

variable {s s' : TaskPass}

theorem mem_executeTasks (hpass : s.nextTaskRunTime ≠ 0 ∧ now ≥ s.nextTaskRunTime)
    (h : executeTasks period now s = some s') (ht : t ∈ s.tasksList) (hstays : t.stays now) :
    t.handled period now ∈ s'.tasksList := by
  obtain ⟨j, -, -, hswept⟩ := executeTasks_swept hpass h
  rw [hswept.tasks, List.append_nil]
  exact List.mem_map_of_mem (List.mem_filter.mpr ⟨ht, hstays⟩)

end TaskPass

namespace Task

theorem stays_of_periodic (hinterval : 0 < t.runIntervalSeconds) (now : Datetime) :
    t.stays now = true := by
  have honce : t.isOneTime = false := decide_eq_false (by omega)
  rw [stays, honce, Bool.and_false]
  rfl

theorem rescheduled_pass (hfixed : t.fixedTime = true) (hinterval : 0 < t.runIntervalSeconds)
    (now : Datetime) :
    t.rescheduled [⟨now, now, now⟩] =
      some (if t.isDue now then [(now, t.after (1000 * ·) now)] else []) := by
  have honce : t.isOneTime = false := decide_eq_false (by omega)
  rw [rescheduled]
  dsimp only
  split
  · rename_i hdue
    have hisDue : t.isDue now = true := decide_eq_true hdue
    have hmoved := rescheduleAt_eq (r := ⟨now, now, now⟩) hfixed hinterval hdue (Int.le_refl now)
    rw [rescheduleAt_self] at hmoved ⊢
    rw [after, hisDue, honce, hmoved]
    rfl
  · rename_i hdue
    have hisDue : t.isDue now = false := decide_eq_false hdue
    rw [hisDue]
    rfl

/-- As long as the clock does not go back, a task at fixed times gets a time whenever one is due and
stays on the grid of its first run. The times are those that its line and the passes over all tasks
give it. -/
theorem onGrid_scheduled (hfixed : t.fixedTime = true) (hinterval : 0 < t.runIntervalSeconds)
    (hclock : (test :: value :: rs.flatMap Reading.times).Pairwise (· ≤ ·)) :
    (∃ log, t.scheduled test value rs = some log ∧
      OnGrid t.nextRunTime (1000 * t.runIntervalSeconds) log) ∧
    (intPeriod t.runIntervalSeconds = 1000 * t.runIntervalSeconds → ∀ now,
      catchUp now t.runIntervalSeconds t.nextRunTime =
        catchUpAt (1000 * ·) now t.runIntervalSeconds t.nextRunTime) ∧
    ∀ (s s' : TaskPass) (now : Datetime), s.nextTaskRunTime ≠ 0 ∧ now ≥ s.nextTaskRunTime →
      s.executeTasks (1000 * ·) now = some s' → t ∈ s.tasksList →
        t.handled (1000 * ·) now ∈ s'.tasksList ∧
        t.rescheduled [⟨now, now, now⟩] =
          some (if t.isDue now then [(now, t.after (1000 * ·) now)] else []) := by
  refine ⟨exists_scheduled hfixed hinterval hclock,
    fun hexact now => catchUp_eq_catchUpAt hexact now t.nextRunTime, ?_⟩
  intro s s' now hpass hs' ht
  exact ⟨TaskPass.mem_executeTasks hpass hs' ht (stays_of_periodic hinterval now),
    rescheduled_pass hfixed hinterval now⟩

/-- An hour and a half late, and then three hours. -/
theorem onGrid_scheduled_late :
    ∃ log, (TaskPass.Sample.hourly 1 100).scheduled 5400000 5400001
      [⟨18000000, 18000000, 18000005⟩] = some log ∧ OnGrid 100 3600000 log :=
  (onGrid_scheduled (t := TaskPass.Sample.hourly 1 100) rfl (by decide) (by decide)).1

end Task

end Relb
