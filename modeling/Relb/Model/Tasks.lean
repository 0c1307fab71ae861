import Relb.Model.Main
/-!
# `ServerList::execute`: a pass over the tasks

The loop counts through `tasks_list` while it takes tasks out of it. A task is kept with the address
that `new` has returned for it, and `ran` records the tasks whose work has been done. A pass reads
one clock value. `period` is the product `1000 * run_interval_seconds`, which the code computes as
an `int`. A division by zero ends a pass without a result. Between two passes the thread waits, and
`waits` records for how long. Tracing and the fields that nothing reads are left out.
-/

namespace Relb

open Lib

/-- `MINIMUM_UPDATE_INTERVAL_MS`. -/
def minimumUpdateIntervalMs : Int := 3000

/-- `MAXIMUM_UPDATE_INTERVAL_MS`. -/
def maximumUpdateIntervalMs : Int := minimumUpdateIntervalMs * 5

/-- `TIMEDSEM_PROPER_PRECISION_MS`. -/
def timedsemProperPrecisionMs : Int := 1000

/-- `TIME_SLICE_MARGIN_MS`. -/
def timeSliceMarginMs : Int := 16

/-- `1000 * run_interval_seconds`, for an `int`. -/
def intPeriod (runIntervalSeconds : Int) : Int := toInt (1000 * runIntervalSeconds)

/-- `task_info`, at its address. -/
structure Task extends TaskInfo where
  addr : Ptr
  deriving DecidableEq, Repr

/-- The lists and times of `ServerList` that a pass works on. -/
structure TaskPass where
  tasksList : List Task
  nextTaskRunTime : Datetime
  slist : ServerList
  ran : List Task

/-- The next execution of a task that has run and is not a one-time task. -/
def Task.reschedule (period : Int → Int) (now : Datetime) (t : Task) : Option Datetime :=
  let ms := period t.runIntervalSeconds
  if t.fixedTime then
    if now ≥ t.nextRunTime then
      if ms = 0 then none else some (t.nextRunTime + ((now - t.nextRunTime).tdiv ms + 1) * ms)
    else some t.nextRunTime
  else some (now + ms)

/-! ### Several readings of the clock -/

/-- The readings in a pass: is the task due, is its fixed time to be moved, and where to. -/
structure Reading where
  due : Datetime
  check : Datetime
  value : Datetime

/-- `reschedule`, where the clock goes on between the test and the new time. -/
def Task.rescheduleAt (period : Int → Int) (check value : Datetime) (t : Task) : Option Datetime :=
  let ms := period t.runIntervalSeconds
  if t.fixedTime then
    if check ≥ t.nextRunTime then
      if ms = 0 then none else some (t.nextRunTime + ((value - t.nextRunTime).tdiv ms + 1) * ms)
    else some t.nextRunTime
  else some (value + ms)

/-- `catchUp`, with the product and the reading for the new time. -/
def catchUpAt (period : Int → Int) (value : Datetime) (interval : Int) (firstRun : Datetime) :
    Except Fault Datetime :=
  let ms := period interval
  if ms = 0 then .error .divisionByZero
  else .ok (firstRun + ((value - firstRun).tdiv ms + 1) * ms)

namespace TaskPass

/-- The work of a task. -/
def runTask (now : Datetime) (slist : ServerList) (t : Task) : ServerList :=
  match t.taskType with
  | .cleanConnections => slist.cleanConnections
  | .purgeConnections => slist.purgeConnections now
  | .invalidTask | .updateServerInfo => slist

/-- `next_task_run_time`, when the pass comes to a task with this time. -/
def noteTime (now next time : Datetime) : Datetime :=
  if time < next ∨ now ≥ next then time else next

/-- The body of the loop at `task_index`, with the index of the next pass. -/
def checkTask (period : Int → Int) (now : Datetime) (i : Nat) (s : TaskPass) :
    Option (Nat × TaskPass) :=
  match s.tasksList[i]? with
  | none => none
  | some t =>
      if now ≥ t.nextRunTime then
        let s := { s with slist := runTask now s.slist t, ran := s.ran ++ [t] }
        if t.runIntervalSeconds > 0 then
          (t.reschedule period now).map fun next =>
            (i + 1, { s with
              tasksList := s.tasksList.set i { t with nextRunTime := next }
              nextTaskRunTime := noteTime now s.nextTaskRunTime next })
        else
          -- a one-time task is deleted, and the index stays
          let tasksList := s.tasksList.eraseIdx i
          let next := noteTime now s.nextTaskRunTime t.nextRunTime
          some (i, { s with
            tasksList := tasksList
            nextTaskRunTime :=
              if tasksList.length = 0 then now + minimumUpdateIntervalMs else next })
      else
        some (i + 1, { s with
          nextTaskRunTime := noteTime now s.nextTaskRunTime t.nextRunTime })

/-- What `execute` does with the tasks at the clock value `now`. -/
def executeTasks (period : Int → Int) (now : Datetime) (s : TaskPass) : Option TaskPass :=
  if s.nextTaskRunTime ≠ 0 ∧ now ≥ s.nextTaskRunTime then
    (whileBelow (·.tasksList.length) (checkTask period now) s.tasksList.length 0 s).map Prod.snd
  else some s

end TaskPass

/-! ## The wait -/

/-- `wait_ms`, while `update` is set. `MIN` is a macro: it reads the clock for its test, and again
for its value. -/
def waitMs (next test value : Datetime) : Int :=
  let left := fun now => toInt (next - now + timeSliceMarginMs)
  let longest := maximumUpdateIntervalMs - timedsemProperPrecisionMs
  let ms := if left test < longest then left value else longest
  toInt (ms.tdiv timedsemProperPrecisionMs * timedsemProperPrecisionMs + timedsemProperPrecisionMs)

/-- The thread that runs the tasks. -/
structure Scheduler where
  pass : TaskPass
  waits : List Int

namespace Scheduler

/-- Before the first pass. -/
def start (pass : TaskPass) : Scheduler := ⟨pass, []⟩

/-- Addresses for the tasks that have been added. -/
def ofTaskList (l : TaskList) (slist : ServerList) : Scheduler :=
  start ⟨l.tasksList.zipIdx.map fun x => { x.1 with addr := x.2 }, l.nextTaskRunTime, slist, []⟩

inductive Op
  | executeTasks (now : Datetime)
  | wait (test value : Datetime)

/-- A division by zero ends the program. -/
def perform (s : Scheduler) : Op → Except Scheduler Scheduler
  | .executeTasks now =>
      match s.pass.executeTasks intPeriod now with
      | some pass => .ok { s with pass := pass }
      | none => .error s
  | .wait test value =>
      .ok { s with waits := s.waits ++ [waitMs s.pass.nextTaskRunTime test value] }

end Scheduler

end Relb
