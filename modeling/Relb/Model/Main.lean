import Relb.Lib.Loops
import Relb.Model.AdminHTTPServer
import Relb.Model.AppConfig
/-!
# `main`: setting up the bind

From a loaded configuration `main` fills in a `Bind`: its addresses, and the servers, tasks
and filters of the first bind, one loop each. The task list of `ServerList` and the time of
its next task are kept apart from the rest of it. Each call reads the clock once; what it
reads is a function of the index that the loop has come to.
-/

namespace Relb

open Lib

/-- `tasks_list` and `next_task_run_time` of `ServerList`. -/
structure TaskList where
  tasksList : List TaskInfo
  nextTaskRunTime : Datetime

namespace TaskList

def create : TaskList := ⟨[], 0⟩

def add (l : TaskList) (task : TaskInfo) : TaskList where
  tasksList := l.tasksList ++ [task]
  nextTaskRunTime :=
    if l.nextTaskRunTime > task.nextRunTime ∨ l.nextTaskRunTime = 0 then task.nextRunTime
    else l.nextTaskRunTime

/-- `addTask( type, interval )`, at clock value `now`. -/
def addTask (l : TaskList) (taskType : TaskType) (interval : Int) (now : Datetime) : TaskList :=
  l.add ⟨taskType, interval, now + toInt (1000 * interval), false⟩

/-- `addTask( type, firstrun, interval )`. -/
def addTaskAt (l : TaskList) (taskType : TaskType) (firstrun : Datetime) (interval : Int) :
    TaskList :=
  l.add ⟨taskType, interval, firstrun, true⟩

end TaskList

/-- The `Bind` object before `startListening`. -/
structure BindServer where
  addresses : List BindAddress
  admin : AdminHTTPServer
  adminEnabled : Bool
  adminIP : IpAddress
  adminPort : UInt16
  slist : ServerList
  tasks : TaskList

namespace BindServer

/-- The constructor at clock value `now`. -/
def create (now : Datetime) : BindServer where
  addresses := []
  admin := .create
  adminEnabled := false
  adminIP := ipany
  adminPort := 0
  slist := .create now
  tasks := .create

def setAdmin (b : BindServer) (enable : Bool) (ip : IpAddress) (port : UInt16) : BindServer :=
  { b with adminEnabled := enable, adminIP := ip, adminPort := port }

def addAddress (b : BindServer) (port : UInt16) (ip : IpAddress) : BindServer :=
  { b with addresses := b.addresses ++ [⟨ip, port⟩] }

def addServer (b : BindServer) (ip : IpAddress) (port : UInt16) (weight maxConnections : Int)
    (now : Datetime) : BindServer :=
  { b with
    slist := b.slist.addServer ip port weight maxConnections now
    admin := b.admin.addServer ip port weight maxConnections now }

def addTask (b : BindServer) (taskType : TaskType) (interval : Int) (now : Datetime) :
    BindServer :=
  { b with tasks := b.tasks.addTask taskType interval now }

def addTaskAt (b : BindServer) (taskType : TaskType) (firstrun : Datetime) (interval : Int) :
    BindServer :=
  { b with tasks := b.tasks.addTaskAt taskType firstrun interval }

def addFilter (b : BindServer) (srcIp srcMask dstIp dstMask : IpAddress) (allow : Bool) :
    BindServer :=
  { b with slist := b.slist.addFilter ⟨srcIp, srcMask, dstIp, dstMask, allow⟩ }

def setServerRetry (b : BindServer) (seconds : Int) : BindServer :=
  { b with slist := b.slist.setServerRetry seconds }

end BindServer

namespace AppConfig

/-! ## The bodies of the loops -/

def addAddress (c : AppConfig) (b : BindServer) : BindServer :=
  b.addAddress c.getAddressPort c.getAddressIP

def addServer (clock : Int → Datetime) (c : AppConfig) (b : BindServer) : BindServer :=
  b.addServer c.getServerIP c.getServerPort c.getServerWeight c.getServerMaxConnections
    (clock c.currentServer)

def addTask (clock : Int → Datetime) (c : AppConfig) (b : BindServer) : BindServer :=
  if c.getTaskFixedTime then b.addTaskAt c.getTaskType c.getTaskFirstRun c.getTaskInterval
  else b.addTask c.getTaskType c.getTaskInterval (clock c.currentTask)

def addFilter (c : AppConfig) (b : BindServer) : BindServer :=
  b.addFilter c.getFilterSourceIP c.getFilterSourceMask c.getFilterDestIP c.getFilterDestMask
    c.getFilterAllow

/-- The number of elements of a list of the current bind; it bounds the passes of a loop over
it. -/
def countInBind {α : Type} (c : AppConfig) (list : BindConf → List α) : Nat :=
  (c.theBind.map fun b => (list b).length).getD 0

/-! ## The loops -/

def addAddresses (x : AppConfig × BindServer) : AppConfig × BindServer :=
  doWhile getNextAddress addAddress (x.1.countInBind BindConf.address) x.1 x.2

def addServers (clock : Int → Datetime) (x : AppConfig × BindServer) : AppConfig × BindServer :=
  doWhile getNextServer (addServer clock) (x.1.countInBind BindConf.dst) x.1 x.2

def addTasks (clock : Int → Datetime) (x : AppConfig × BindServer) : AppConfig × BindServer :=
  let (count, c) := x.1.getTasksCount
  if count > 0 then whileNext getNextTask (addTask clock) (count + 1) c x.2 else (c, x.2)

def addFilters (x : AppConfig × BindServer) : AppConfig × BindServer :=
  let (count, c) := x.1.getFilterCount
  if count > 0 then whileNext getNextFilter addFilter (count + 1) c x.2 else (c, x.2)

/-- The part of `main` between `loadConfig` and `startListening`; `start` is the clock value
when the `Bind` is built. -/
def setUp (start : Datetime) (serverClock taskClock : Int → Datetime) (c : AppConfig) :
    BindServer :=
  let c := c.getFirstBind.2
  let b := (BindServer.create start).setAdmin c.httpAdminEnabled c.httpAdminIp c.httpAdminPort
  let x := addFilters (addTasks taskClock (addServers serverClock (addAddresses (c, b))))
  x.2.setServerRetry x.1.minimumServerReconnectionTime

end AppConfig

end Relb
