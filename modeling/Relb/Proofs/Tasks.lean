import Relb.Model.Tasks
/-!
# A pass over the tasks

Each task is taken once, in the order of the list, and the index is always behind what is left of
the tasks that were taken.
-/

namespace Relb

open Lib

variable {period : Int → Int} {now : Datetime} {t : Task} {s s' : TaskPass} {i j : Nat}

namespace Task

/-- The task runs in a pass. -/
def isDue (now : Datetime) (t : Task) : Bool := t.nextRunTime ≤ now

def isOneTime (t : Task) : Bool := t.runIntervalSeconds ≤ 0

/-- The task is still there after the pass. -/
def stays (now : Datetime) (t : Task) : Bool := !(t.isDue now && t.isOneTime)

/-- The time that the pass leaves in the task. -/
def after (period : Int → Int) (now : Datetime) (t : Task) : Datetime :=
  if t.isDue now && !t.isOneTime then (t.reschedule period now).getD t.nextRunTime
  else t.nextRunTime

/-- The task as the pass leaves it. -/
def handled (period : Int → Int) (now : Datetime) (t : Task) : Task :=
  { t with nextRunTime := t.after period now }

theorem handled_of_not_due (h : t.isDue now = false) : t.handled period now = t := by
  rw [handled, after, h]
  rfl

/-- What the task does with the server list. The call for an update is commented out. -/
def work (now : Datetime) (t : Task) : Option ServerList.Op :=
  match t.taskType with
  | .cleanConnections => some .cleanConnections
  | .purgeConnections => some (.purgeConnections now)
  | .invalidTask | .updateServerInfo => none

theorem reschedule_isSome (h : period t.runIntervalSeconds ≠ 0) (now : Datetime) :
    (t.reschedule period now).isSome := by
  unfold reschedule
  dsimp only
  rw [if_neg h]
  split
  · split <;> rfl
  · rfl

end Task

namespace TaskPass

/-! ## One task -/

/-- What a pass does when it comes to the task `t` at the index `i`. -/
structure Takes (period : Int → Int) (now : Datetime) (t : Task) (i j : Nat) (s s' : TaskPass) :
    Prop where
  tasks : s'.tasksList =
    if t.stays now then s.tasksList.set i (t.handled period now) else s.tasksList.eraseIdx i
  index : j = if t.stays now then i + 1 else i
  ran : s'.ran = s.ran ++ [t].filter (·.isDue now)
  slist : s'.slist = ([t].filter (·.isDue now)).foldl (runTask now) s.slist
  next : s'.tasksList ≠ [] →
    s'.nextTaskRunTime = noteTime now s.nextTaskRunTime (t.after period now)

theorem checkTask_spec (ht : s.tasksList[i]? = some t)
    (h : checkTask period now i s = some (j, s')) : Takes period now t i j s s' := by
  unfold checkTask at h
  rw [ht] at h
  dsimp only at h
  split at h
  · rename_i hdue
    have hdue : t.isDue now = true := decide_eq_true hdue
    split at h
    · rename_i hperiodic
      have honce : t.isOneTime = false := decide_eq_false (by omega)
      obtain ⟨next, hnext, hpass⟩ := Option.map_eq_some_iff.mp h
      obtain ⟨rfl, rfl⟩ := Prod.mk.inj hpass
      have hafter : t.after period now = next := by simp [Task.after, hdue, honce, hnext]
      constructor <;> simp [Task.stays, Task.handled, hdue, honce, hafter]
    · rename_i honce
      have honce : t.isOneTime = true := decide_eq_true (by omega)
      obtain ⟨rfl, rfl⟩ := Prod.mk.inj (Option.some.inj h)
      have hafter : t.after period now = t.nextRunTime := by simp [Task.after, honce]
      refine ⟨by simp [Task.stays, hdue, honce], by simp [Task.stays, hdue, honce],
        by simp [hdue], by simp [hdue], fun hne => ?_⟩
      dsimp only at hne ⊢
      rw [if_neg (by simpa using hne), hafter]
  · rename_i hdue
    have hdue : t.isDue now = false := decide_eq_false (by omega)
    obtain ⟨rfl, rfl⟩ := Prod.mk.inj (Option.some.inj h)
    have hafter : t.after period now = t.nextRunTime := by simp [Task.after, hdue]
    have hsame : s.tasksList.set i t = s.tasksList := by
      obtain ⟨hi, rfl⟩ := List.getElem?_eq_some_iff.mp ht
      exact List.set_getElem_self hi
    constructor <;> simp [Task.stays, Task.handled_of_not_due, hdue, hafter, hsame]

theorem runTask_eq (now : Datetime) (slist : ServerList) (t : Task) :
    runTask now slist t = (t.work now).toList.foldl ServerList.perform slist := by
  unfold runTask Task.work
  cases t.taskType <;> rfl

theorem foldl_runTask (now : Datetime) (due : List Task) (slist : ServerList) :
    due.foldl (runTask now) slist =
      (due.filterMap (·.work now)).foldl ServerList.perform slist := by
  induction due generalizing slist with
  | nil => rfl
  | cons t due ih =>
      rw [List.foldl_cons, ih, runTask_eq, List.filterMap_cons]
      cases t.work now <;> rfl

/-! ## All tasks -/

/-- The loop has taken the tasks `done` of a pass that started in `s`, and `rest` is left. -/
structure Swept (period : Int → Int) (now : Datetime) (s : TaskPass) (done rest : List Task)
    (i : Nat) (s' : TaskPass) : Prop where
  tasks : s'.tasksList = (done.filter (·.stays now)).map (·.handled period now) ++ rest
  index : i = (done.filter (·.stays now)).length
  ran : s'.ran = s.ran ++ done.filter (·.isDue now)
  slist : s'.slist = (done.filter (·.isDue now)).foldl (runTask now) s.slist
  next : s'.tasksList ≠ [] →
    s'.nextTaskRunTime = (done.map (·.after period now)).foldl (noteTime now) s.nextTaskRunTime

variable {done rest : List Task} {s'' : TaskPass}

theorem Swept.start (period : Int → Int) (now : Datetime) (s : TaskPass) :
    Swept period now s [] s.tasksList 0 s :=
  ⟨rfl, rfl, (List.append_nil _).symm, rfl, fun _ => rfl⟩

theorem Swept.step (h : Swept period now s done (t :: rest) i s')
    (hpass : checkTask period now i s' = some (j, s'')) :
    Swept period now s (done ++ [t]) rest j s'' := by
  have hlength : i = ((done.filter (·.stays now)).map (·.handled period now)).length := by
    rw [List.length_map, h.index]
  have ht : s'.tasksList[i]? = some t := by
    rw [h.tasks, hlength, List.getElem?_append_right (Nat.le_refl _), Nat.sub_self]
    rfl
  have htakes := checkTask_spec ht hpass
  have hne : s'.tasksList ≠ [] := by simp [h.tasks]
  constructor
  · rw [htakes.tasks, h.tasks, List.filter_append, List.map_append, hlength]
    cases hstays : t.stays now with
    | true => simp [hstays]
    | false =>
        rw [if_neg (by decide), List.eraseIdx_append_of_length_le (Nat.le_refl _), Nat.sub_self]
        simp [hstays]
  · rw [htakes.index, List.filter_append, List.length_append, ← h.index]
    cases hstays : t.stays now <;> simp [hstays]
  · rw [htakes.ran, h.ran, List.filter_append, List.append_assoc]
  · rw [htakes.slist, h.slist, List.filter_append, List.foldl_append]
  · intro hleft
    rw [htakes.next hleft, h.next hne, List.map_append, List.foldl_append]
    rfl

theorem executeTasks_swept (hpass : s.nextTaskRunTime ≠ 0 ∧ now ≥ s.nextTaskRunTime)
    (h : executeTasks period now s = some s') :
    ∃ j, whileBelow (·.tasksList.length) (checkTask period now) s.tasksList.length 0 s =
        some (j, s') ∧ s'.tasksList.length ≤ j ∧ Swept period now s s.tasksList [] j s' := by
  rw [executeTasks, if_pos hpass] at h
  obtain ⟨⟨j, t⟩, hloop, rfl⟩ := Option.map_eq_some_iff.mp h
  have hcount : ∀ done rest i t, Swept period now s done rest i t →
      t.tasksList.length = i + rest.length := by
    intro done rest i t hswept
    rw [hswept.tasks, List.length_append, List.length_map, hswept.index]
  have hswept := whileBelow_sweeps hcount (fun _ _ _ _ _ _ _ => Swept.step)
    (Swept.start period now s) (Nat.le_refl _) hloop
  exact ⟨j, hloop, Nat.le_of_eq (hcount _ _ _ _ hswept), hswept⟩

theorem executeTasks_isSome (hperiod : ∀ n, 0 < n → period n ≠ 0) (now : Datetime) (s : TaskPass) :
    ∃ s', executeTasks period now s = some s' := by
  rw [← Option.isSome_iff_exists]
  unfold executeTasks
  split
  · rw [Option.isSome_map]
    refine whileBelow_isSome (fun i t hi => ?_) _ _ _
    unfold checkTask
    rw [List.getElem?_eq_getElem hi]
    dsimp only
    split
    · split
      · rename_i hperiodic
        rw [Option.isSome_map]
        exact Task.reschedule_isSome (hperiod _ hperiodic) now
      · rfl
    · rfl
  · rfl

/-! ## Exact arithmetic -/

theorem lt_after (hdue : t.isDue now = true) (hperiodic : t.isOneTime = false) :
    now < t.after (1000 * ·) now := by
  have hdue' : t.nextRunTime ≤ now := of_decide_eq_true hdue
  have hms : 0 < 1000 * t.runIntervalSeconds := by
    have hinterval := of_decide_eq_false hperiodic
    omega
  rw [Task.after, hdue, hperiodic, if_pos (by decide), Task.reschedule]
  by_cases hfixed : t.fixedTime = true
  · rw [if_pos hfixed, if_pos hdue', if_neg (Int.ne_of_gt hms), Option.getD_some,
      Int.tdiv_eq_ediv_of_nonneg (Int.sub_nonneg_of_le hdue')]
    exact Int.lt_add_of_sub_left_lt (Int.lt_ediv_add_one_mul_self (now - t.nextRunTime) hms)
  · rw [if_neg hfixed, Option.getD_some]
    exact Int.lt_add_of_pos_right now hms

/-- A pass comes to the end of the list. It runs the tasks that are due, once and in their order,
each with its work, takes the one-time tasks of them out of the list and leaves the periodic ones
with a time to come. -/
theorem executeTasks_runs_due {s : TaskPass} {now : Datetime}
    (hpass : s.nextTaskRunTime ≠ 0 ∧ now ≥ s.nextTaskRunTime) :
    ∃ j s', whileBelow (·.tasksList.length) (checkTask (1000 * ·) now) s.tasksList.length 0 s =
        some (j, s') ∧ s'.tasksList.length ≤ j ∧ executeTasks (1000 * ·) now s = some s' ∧
      s'.ran = s.ran ++ s.tasksList.filter (·.isDue now) ∧
      s'.slist = ((s.tasksList.filter (·.isDue now)).filterMap (·.work now)).foldl
        ServerList.perform s.slist ∧
      ∃ f : Task → Task, s'.tasksList = (s.tasksList.filter (·.stays now)).map f ∧
        (∀ t, t.isDue now = false → f t = t) ∧
        ∀ t, t.isDue now = true → t.isOneTime = false →
          now < (f t).nextRunTime ∧ { f t with nextRunTime := t.nextRunTime } = t := by
  obtain ⟨s', hs'⟩ : ∃ s', executeTasks (1000 * ·) now s = some s' :=
    executeTasks_isSome (fun n hn => by omega) now s
  obtain ⟨j, hloop, hend, hswept⟩ := executeTasks_swept hpass hs'
  refine ⟨j, s', hloop, hend, hs', hswept.ran, hswept.slist.trans (foldl_runTask now _ _),
    (·.handled (1000 * ·) now), ?_, fun t => Task.handled_of_not_due,
    fun t hdue hperiodic => ⟨lt_after hdue hperiodic, rfl⟩⟩
  rw [hswept.tasks, List.append_nil]

namespace Sample

def hourly (addr : Ptr) (nextRunTime : Datetime) : Task :=
  { taskType := .cleanConnections, runIntervalSeconds := 3600, nextRunTime := nextRunTime,
    fixedTime := true, addr := addr }

/-- A one-time task that is due between two others that are not. -/
def mixed : TaskPass where
  tasksList := [hourly 1 100, { hourly 2 10 with runIntervalSeconds := 0 }, hourly 3 200]
  nextTaskRunTime := 10
  slist := .create 0
  ran := []

end Sample

theorem executeTasks_runs_due_mixed :
    ∃ s', executeTasks (1000 * ·) 50 Sample.mixed = some s' ∧ s'.ran.map Task.addr = [2] := by
  have hpass : Sample.mixed.nextTaskRunTime ≠ 0 ∧ 50 ≥ Sample.mixed.nextTaskRunTime := by decide
  obtain ⟨-, s', -, -, hs', hran, -⟩ := executeTasks_runs_due hpass
  exact ⟨s', hs', by rw [hran]; rfl⟩

end TaskPass

end Relb
