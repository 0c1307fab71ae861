import Relb.Lib.Blocking
import Relb.Model.Bind
/-!
# What the threads of a bind wait for

The threads of a bind and the calls that they make, as far as they lock `servers_lock` and
`peer_lock`, post to the two queues and to the pipes of the managers, and take from these. What a
call does depends on what it finds, and between two of its locks others may have changed it: each
locked section has a `ServerList` of its own, whatever the others have left in it. So there are more
runs here than the program has, and what holds in all of them holds in its runs. Who posts to a full
queue or pipe waits. What the program does before its threads start and while they end is left out.
-/

namespace Relb

open Lib

/-- `servers_lock` and `peer_lock`. -/
inductive ListLock
  | servers
  | peer
  deriving DecidableEq

/-- The queue of `ServerList`, the one of the web admin, and the pipe of a manager. -/
inductive Inbox
  | list
  | admin
  | pipe (m : ManagerId)
  deriving DecidableEq

/-- The threads of `Bind`, `ServerList`, `AdminHTTPServer` and of the managers. -/
inductive ThreadId
  | accept
  | list
  | admin
  | manager (m : ManagerId)
  deriving DecidableEq

abbrev LockAction := Action ListLock Inbox

namespace ServerList

variable (s : ServerList)

/-- `parallelList->post( id, p )`, if both pointers are set. -/
def postParallelActions (p : Option Ptr) : List LockAction :=
  if s.parallelList.isSome && p.isSome then [.post .admin] else []

/-- `manager->closePInfo( p )`, if the manager is set: the request is noted and the manager woken
up. -/
def closePInfoActions : Option ManagerId → List LockAction
  | some m => [.post (.pipe m)]
  | none => []

/-- A loop over `servers_list`. -/
def serversSection : List LockAction := [.rdlock .servers, .unlock .servers]

def processMessageActions (msg : Message) : List LockAction :=
  let record (pinfo : PeerInfo) :=
    if msg.id = statusPeerConnectionCancelled then []
    else if msg.id = statusPeerConnectionKicked then closePInfoActions pinfo.manager
    else s.postParallelActions pinfo.parallel
  let kind := msg.id &&& statusClientServerMask
  let count :=
    if kind = statusConnectionLost ∨ kind = statusDisconnectedOk ∨ kind = statusConnectionFailed ∨
        kind = statusConnectionEstablished then serversSection
    else []
  [.rdlock .peer] ++
    (match s.peerList[s.peerList.findIdx fun q => q.addr == msg.param]? with
      | some pinfo => record pinfo ++ count
      | none => []) ++
    [.unlock .peer]

/-- An entry that has ended. -/
def cleanEntryActions (q : PeerInfo) : List LockAction :=
  if q.notConnected then serversSection ++ s.postParallelActions q.parallel else []

def cleanConnectionsActions : List LockAction :=
  [.wrlock .peer] ++ s.peerList.flatMap s.cleanEntryActions ++ [.unlock .peer]

def purgeConnectionsActions : List LockAction :=
  [.wrlock .peer] ++ s.peerList.flatMap (fun q => closePInfoActions q.manager) ++ [.unlock .peer]

/-- The search for sessions. -/
def scanActions (found : SessionScan) : List LockAction :=
  [.rdlock .peer] ++
    (match found with
      | .reuse peer _ =>
          match s.peerList[peer]? with
          | some old => closePInfoActions old.manager ++ s.postParallelActions old.parallel
          | none => []
      | _ => []) ++
    [.unlock .peer]

/-- What announces a new entry to the web admin. -/
def announceActions : List LockAction := if s.parallelList.isSome then [.post .admin] else []

/-- A lost session is re-created; `created` tells whether its entry is still there. -/
def recreateActions (created : Bool) : List LockAction :=
  [.wrlock .peer] ++ (if created then s.announceActions else []) ++ [.unlock .peer]

def assignActions (assigned : Bool) : List LockAction :=
  if assigned then s.announceActions ++ [.wrlock .peer, .unlock .peer] else []

/-- The locked sections of `getServer` for one client: the search finds `scan`, the second section
`again`, and the assignment `last`. The result tells whether there is an entry. -/
def getServerActions (scan again last : ServerList) (clientIp : IpAddress) (clientPort : UInt16)
    (pcm : Option ManagerId) (now : Datetime) (addr parallelAddr : Ptr) :
    List LockAction × Bool :=
  let assigned := (last.assignServer clientIp clientPort pcm now addr parallelAddr).2.isSome
  let assign := (last.assignActions assigned, assigned)
  let sections : List LockAction × Bool :=
    if scan.serversList.isEmpty then ([], false)
    else if scan.reconnectLostSessions then
      let found := scan.scanSessions clientIp clientPort now scan.peerList 0 none
      match found with
      | .reuse _ _ => (scan.scanActions found, true)
      | .lost peer server =>
          let created := (again.recreateSession peer server clientIp clientPort pcm now addr
            parallelAddr).2.isSome
          if created then (scan.scanActions found ++ again.recreateActions created, true)
          else (scan.scanActions found ++ again.recreateActions created ++ assign.1, assign.2)
      | .nothing => (scan.scanActions found ++ assign.1, assign.2)
    else assign
  ([.rdlock .servers] ++ sections.1 ++ [.unlock .servers], sections.2)

/-- `setServer`: a new peer goes to its manager, which is woken up. -/
def setServerActions (scan again last : ServerList) (clientIp : IpAddress) (clientPort : UInt16)
    (pcm : ManagerId) (now : Datetime) (addr parallelAddr : Ptr) : List LockAction :=
  let r := getServerActions scan again last clientIp clientPort (some pcm) now addr parallelAddr
  r.1 ++ if r.2 then [.post (.pipe pcm)] else []

/-- `setParallelList`: every entry is announced, under its copy or a new one. -/
def setParallelListActions (jq : Bool) : List LockAction :=
  [.rdlock .peer] ++ (if jq then s.peerList.reverse.map fun _ => .post .admin else []) ++
    [.unlock .peer]

end ServerList

/-- The calls of each thread. -/
inductive LockCall : ThreadId → List LockAction → Prop
  | setServer (scan again last : ServerList) (clientIp : IpAddress) (clientPort : UInt16)
      (pcm : ManagerId) (now : Datetime) (addr parallelAddr : Ptr) : LockCall .accept
        (ServerList.setServerActions scan again last clientIp clientPort pcm now addr parallelAddr)
  | setParallelList (s : ServerList) (jq : Bool) : LockCall .accept (s.setParallelListActions jq)
  /-- `getmessage` and `processMessage`. -/
  | processMessage (s : ServerList) (msg : Message) :
      LockCall .list (.take .list :: s.processMessageActions msg)
  | cleanConnections (s : ServerList) : LockCall .list s.cleanConnectionsActions
  | purgeConnections (s : ServerList) : LockCall .list s.purgeConnectionsActions
  /-- A message of the web admin's own queue. -/
  | receive : LockCall .admin [.take .admin]
  | ban (a : AdminHTTPServer) (heap : Ptr → Option PeerInfo) (ip : IpAddress) (port : UInt16) :
      LockCall .admin ((a.ban heap ip port).toList.map fun _ => .post .list)
  | banAll (a : AdminHTTPServer) (heap : Ptr → Option PeerInfo) (ip : IpAddress) (port : UInt16) :
      LockCall .admin ((a.banAll heap ip port).toList.map fun _ => .post .list)
  | kick (a : AdminHTTPServer) (heap : Ptr → Option PeerInfo) (ip : IpAddress) (port : UInt16) :
      LockCall .admin ((a.kick heap ip port).toList.map fun _ => .post .list)
  /-- `checkSocket`. -/
  | checkSocket (m : ManagerId) : LockCall (.manager m) [.take (.pipe m)]
  /-- An iteration of a loop of `execute`. -/
  | iterate (m : ManagerId) (t t' : ThreadedConnectionManager) (op : ThreadedConnectionManager.Op)
      (msgs : List Message) : t.perform op = some (t', msgs) →
        LockCall (.manager m) (msgs.map fun _ => .post .list)

namespace LockCall

/-- The calls that a thread may start. -/
def calls (i : ThreadId) : Set (List LockAction) := {p | LockCall i p}

/-- The thread that takes from a buffer. -/
def consumer : Inbox → ThreadId
  | .list => .list
  | .admin => .admin
  | .pipe m => .manager m

/-- Any order of the steps of all threads, from their start. -/
def Reachable (limit : Inbox → Nat) : Threads ThreadId ListLock Inbox → Prop :=
  Reach (Threads.Step limit calls) anyStep (· = .idle)

end LockCall

end Relb
