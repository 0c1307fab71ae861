import Relb.Lib.Selection
import Relb.Proofs.Tasks
/-!
# The time of the next pass

While the time of the next pass has gone by, every task that the loop comes to overwrites it, and
from then on it is a minimum. A one-time task that has run brings in its own time, which has gone
by: so only the tasks behind the last one of them count.
-/

namespace Relb

open Lib

variable {period : Int → Int} {now next time : Datetime} {s s' : TaskPass}
  {times front behind : List Datetime}

namespace TaskPass

/-! ## Times -/

theorem noteTime_of_le (hnext : next ≤ now) : noteTime now next time = time := if_pos (.inr hnext)

theorem noteTime_passed (htime : time ≤ now) : noteTime now next time = time := by
  by_cases hnext : next ≤ now
  · exact noteTime_of_le hnext
  · exact if_pos (.inl (lt_of_le_of_lt htime (not_le.mp hnext)))

theorem noteTime_of_lt (hnext : now < next) : noteTime now next time = min next time := by
  unfold noteTime
  rw [min_comm, min_def_lt]
  exact if_congr (or_iff_left (not_le.mpr hnext)) rfl rfl

theorem foldl_noteTime_of_lt (hnext : now < next) (htimes : ∀ v ∈ times, now < v) :
    times.foldl (noteTime now) next = times.foldl min next := by
  induction times generalizing next with
  | nil => rfl
  | cons v times ih =>
      rw [List.forall_mem_cons] at htimes
      rw [List.foldl_cons, List.foldl_cons, noteTime_of_lt hnext]
      exact ih (lt_min hnext htimes.1) htimes.2

theorem foldl_noteTime_isLeast (hnext : next ≤ now) (htimes : ∀ v ∈ times, now < v)
    (hne : times ≠ []) : times.foldl (noteTime now) next ∈ times ∧
      ∀ v ∈ times, times.foldl (noteTime now) next ≤ v := by
  obtain ⟨v, rest, rfl⟩ := List.exists_cons_of_ne_nil hne
  have htimes' := List.forall_mem_cons.mp htimes
  rw [List.foldl_cons, noteTime_of_le hnext, foldl_noteTime_of_lt htimes'.1 htimes'.2]
  exact List.min?_eq_some_iff.mp List.min?_cons'

theorem foldl_noteTime_passed (htime : time ≤ now) :
    (front ++ time :: behind).foldl (noteTime now) next = behind.foldl (noteTime now) time := by
  rw [List.foldl_append, List.foldl_cons, noteTime_passed htime]

/-! ## The next pass -/

/-- No task is due before the next pass. -/
def Covers (s : TaskPass) : Prop := ∀ t ∈ s.tasksList, s.nextTaskRunTime ≤ t.nextRunTime

/-- Every task that stays has a task behind `x` that is due no later, or `x` is the last one and is
due no later itself. -/
def CoveredBehind (period : Int → Int) (now : Datetime) (x : Task) (behind l : List Task) : Prop :=
  ∀ r ∈ l, r.stays now = true →
    behind = [] ∧ x.after period now ≤ r.after period now ∨
      ∃ y ∈ behind, y.after period now ≤ r.after period now

/-- Every time of the list is one to come, or the tasks behind the last other one cover all. -/
def Covered (period : Int → Int) (now : Datetime) (l : List Task) : Prop :=
  (∀ t ∈ l, now < t.after period now) ∨
    ∃ front x behind, l = front ++ x :: behind ∧ x.after period now ≤ now ∧
      (∀ y ∈ behind, now < y.after period now) ∧ CoveredBehind period now x behind l

instance (s : TaskPass) : Decidable s.Covers :=
  inferInstanceAs (Decidable (∀ t ∈ s.tasksList, s.nextTaskRunTime ≤ t.nextRunTime))

theorem Swept.covers_iff {l : List Task} {j : Nat} (h : Swept period now s l [] j s') :
    s'.Covers ↔ ∀ r ∈ l, r.stays now = true →
      (l.map (·.after period now)).foldl (noteTime now) s.nextTaskRunTime ≤ r.after period now := by
  have htasks : s'.tasksList = (l.filter (·.stays now)).map (·.handled period now) := by
    rw [h.tasks, List.append_nil]
  constructor
  · intro hcovers r hr hstays
    have hmem : r.handled period now ∈ s'.tasksList := by
      rw [htasks]
      exact List.mem_map_of_mem (List.mem_filter.mpr ⟨hr, hstays⟩)
    rw [← h.next (List.ne_nil_of_mem hmem)]
    exact hcovers _ hmem
  · intro hle t ht
    rw [h.next (List.ne_nil_of_mem ht)]
    rw [htasks] at ht
    obtain ⟨r, hr, rfl⟩ := List.mem_map.mp ht
    obtain ⟨hr, hstays⟩ := List.mem_filter.mp hr
    exact hle r hr hstays

theorem coveredBehind_iff {front behind l : List Task} {x : Task} (hl : l = front ++ x :: behind)
    (hx : x.after period now ≤ now) (hbehind : ∀ y ∈ behind, now < y.after period now) :
    CoveredBehind period now x behind l ↔ ∀ r ∈ l, r.stays now = true →
      (l.map (·.after period now)).foldl (noteTime now) next ≤ r.after period now := by
  have hleft : (l.map (·.after period now)).foldl (noteTime now) next =
      (behind.map (·.after period now)).foldl (noteTime now) (x.after period now) := by
    rw [hl, List.map_append, List.map_cons, foldl_noteTime_passed hx]
  rw [hleft]
  refine forall₃_congr fun r _ _ => ?_
  cases hb : behind with
  | nil => simp
  | cons y ys =>
      rw [← hb]
      have hne : behind.map (·.after period now) ≠ [] := by simp [hb]
      obtain ⟨hmem, hleast⟩ := foldl_noteTime_isLeast hx (by simpa using hbehind) hne
      constructor
      · rintro (⟨hnil, -⟩ | ⟨z, hz, hle⟩)
        · simp [hnil] at hb
        · exact (hleast _ (List.mem_map_of_mem hz)).trans hle
      · intro hle
        obtain ⟨z, hz, hzero⟩ := List.mem_map.mp hmem
        exact .inr ⟨z, hz, hzero.trans_le hle⟩

/-- After a pass no task is overlooked, exactly if the tasks behind the last one whose time has
still gone by cover the others. -/
theorem executeTasks_covers_iff {period : Int → Int} {now : Datetime} {s s' : TaskPass}
    (hpass : s.nextTaskRunTime ≠ 0 ∧ now ≥ s.nextTaskRunTime)
    (h : executeTasks period now s = some s') : s'.Covers ↔ Covered period now s.tasksList := by
  obtain ⟨j, -, -, hswept⟩ := executeTasks_swept hpass h
  rw [hswept.covers_iff]
  constructor
  · intro hcovers
    rcases none_or_last (fun t : Task => t.after period now ≤ now) s.tasksList with
      hnone | ⟨front, x, behind, hl, hx, hbehind⟩
    · exact .inl fun t ht => not_le.mp (hnone t ht)
    · have hbehind' : ∀ y ∈ behind, now < y.after period now :=
        fun y hy => not_le.mp (hbehind y hy)
      have hcovered := (coveredBehind_iff hl hx hbehind').mpr hcovers
      exact .inr ⟨front, x, behind, hl, hx, hbehind', hcovered⟩
  · rintro (hcome | ⟨front, x, behind, hl, hx, hbehind, hcovered⟩) r hr hstays
    · have hne : s.tasksList.map (·.after period now) ≠ [] := by
        simpa using List.ne_nil_of_mem hr
      obtain ⟨-, hleast⟩ := foldl_noteTime_isLeast hpass.2 (by simpa using hcome) hne
      exact hleast _ (List.mem_map_of_mem hr)
    · exact (coveredBehind_iff hl hx hbehind).mp hcovered r hr hstays

theorem executeTasks_covers_iff_mixed :
    ∃ s', executeTasks intPeriod 50 Sample.mixed = some s' ∧
      (s'.Covers ↔ Covered intPeriod 50 Sample.mixed.tasksList) := by
  have hpass : Sample.mixed.nextTaskRunTime ≠ 0 ∧ 50 ≥ Sample.mixed.nextTaskRunTime := by decide
  obtain ⟨s', hs'⟩ : ∃ s', executeTasks intPeriod 50 Sample.mixed = some s' := ⟨_, rfl⟩
  exact ⟨s', hs', executeTasks_covers_iff hpass hs'⟩

/-- The one-time task brings in its old time, and the task in front of it is forgotten. -/
theorem task_overlooked :
    ∃ s', executeTasks intPeriod 50 Sample.mixed = some s' ∧
      s'.tasksList.map (fun t => (t.addr, t.nextRunTime)) = [(1, 100), (3, 200)] ∧
      s'.nextTaskRunTime = 200 ∧ ¬s'.Covers :=
  ⟨_, rfl, rfl, rfl, by decide⟩

end TaskPass

end Relb
