import Relb.Model.Tasks
/-!
# `ServerList::execute` and its queue, one statement at a time

The thread of a `ServerList` empties its queue, runs the tasks that are due and waits on `status`,
for some time or until somebody posts to it. `MessageQueue::post` puts a message into the queue and
then posts to `status`, which is the trigger of this queue. Other threads come in between any two
statements; how long a wait lasts is left open. A queue of `jobqueue` is bounded: who posts waits
while it is full. A pass over the tasks is one step, as `getServer` is.

`posted` and `processed` are ghost logs.
-/

namespace Relb

open Lib

/-- In front of which statement the thread stands. -/
inductive ListPoint
  /-- `if( !update && tasks_list.get_count() )`. -/
  | start
  /-- `while( !finish )`. -/
  | loop
  /-- `!finish`, in the loop over the messages. -/
  | drain
  | getmessage
  | processMessage (msg : Message)
  /-- `if( update )`. -/
  | tasks
  | waitTime
  /-- `status.wait( wait_ms )`. -/
  | wait
  | ended
  deriving DecidableEq

/-- Another thread, in front of what it does next. -/
inductive ListCaller
  /-- `jobqueue::post( id, param )`. -/
  | post (msg : Message)
  /-- `update = true`, in `startUpdating`. -/
  | startUpdating
  /-- `update = false`, in `stopUpdating`. -/
  | stopUpdating
  /-- `update = false`, in the destructor. -/
  | destroy
  /-- `finish = true`, in the destructor. -/
  | finish
  /-- `status.post()`, or `pts->post()` for the trigger. -/
  | trigger
  deriving DecidableEq

structure ServerListThread where
  pass : TaskPass
  queue : List Message
  status : Nat
  update : Bool
  finish : Bool
  waitMs : Int
  point : ListPoint
  callers : List ListCaller
  posted : List Message
  processed : List Message

namespace ServerListThread

/-- The thread has been started, with these tasks and servers. -/
def create (pass : TaskPass) (update : Bool) : ServerListThread where
  pass := pass
  queue := []
  status := 0
  update := update
  finish := false
  waitMs := minimumUpdateIntervalMs
  point := .start
  callers := []
  posted := []
  processed := []

def goto (m : ServerListThread) (point : ListPoint) : ServerListThread := { m with point := point }

/-- The next step of the thread, except for the wait. A pass reads the clock value `now`, and the
computation of `wait_ms` reads `test` and `value`. -/
def advance (m : ServerListThread) (now test value : Datetime) : Option ServerListThread :=
  match m.point with
  | .start =>
      some { m with update := m.update || decide (0 < m.pass.tasksList.length), point := .loop }
  | .loop => some (m.goto (if m.finish then .ended else .drain))
  | .drain => some (m.goto (if m.finish then .tasks else .getmessage))
  | .getmessage =>
      match m.queue with
      | msg :: rest => some { m with queue := rest, point := .processMessage msg }
      | [] => some (m.goto .tasks)
  | .processMessage msg =>
      some { m with
        pass := { m.pass with slist := m.pass.slist.processMessage msg now }
        processed := m.processed ++ [msg]
        point := .drain }
  | .tasks =>
      if m.update then
        (m.pass.executeTasks intPeriod now).map fun pass =>
          { m with pass := pass, point := .waitTime }
      else some (m.goto .wait)
  | .waitTime =>
      some { m with waitMs := Relb.waitMs m.pass.nextTaskRunTime test value, point := .wait }
  | .wait | .ended => none

/-- What another thread does next, and what it has left to do. -/
def advanceCaller (limit : Nat) (m : ServerListThread) :
    ListCaller → Option (ServerListThread × Option ListCaller)
  | .post msg =>
      if m.queue.length < limit then
        some ({ m with queue := m.queue ++ [msg], posted := m.posted ++ [msg] }, some .trigger)
      else none
  | .startUpdating => some ({ m with update := true }, some .trigger)
  | .stopUpdating => some ({ m with update := false }, none)
  | .destroy => some ({ m with update := false }, some .finish)
  | .finish => some ({ m with finish := true }, some .trigger)
  | .trigger => some ({ m with status := m.status + 1 }, none)

inductive Op
  /-- The thread itself. -/
  | advance (now test value : Datetime)
  /-- `status.wait` takes what has been posted. -/
  | wake
  /-- `status.wait` has waited for `wait_ms`. -/
  | timeout
  /-- Another thread begins with `caller`. -/
  | call (caller : ListCaller)
  /-- Thread `k` goes on. -/
  | caller (k : Nat)
  /-- The thread that accepts clients. -/
  | getServer (clientIp : IpAddress) (clientPort : UInt16) (pcm : Option ManagerId)
      (now : Datetime) (addr parallelAddr : Ptr)

def perform (limit : Nat) (m : ServerListThread) : Op → Option ServerListThread
  | .advance now test value => m.advance now test value
  | .wake =>
      if m.point = .wait ∧ 0 < m.status then some { m with status := m.status - 1, point := .loop }
      else none
  | .timeout => if m.point = .wait ∧ m.status = 0 then some (m.goto .loop) else none
  | .call caller =>
      -- the others come behind these
      match caller with
      | .finish | .trigger => none
      | _ => some { m with callers := m.callers ++ [caller] }
  | .caller k =>
      match m.callers[k]? with
      | some caller =>
          (m.advanceCaller limit caller).map fun (m, rest) =>
            { m with callers := m.callers.eraseIdx k ++ rest.toList }
      | none => none
  | .getServer clientIp clientPort pcm now addr parallelAddr =>
      some { m with
        pass := { m.pass with
          slist := (m.pass.slist.getServer clientIp clientPort pcm now addr parallelAddr).1 } }

/-- The states of all runs, whatever tasks and servers there are. -/
def Reachable (limit : Nat) : ServerListThread → Prop :=
  Reach (fun m op m' => m.perform limit op = some m') anyStep
    fun m => ∃ pass update, m = create pass update

end ServerListThread

end Relb
