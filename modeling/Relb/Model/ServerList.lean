import Relb.Lib.Loops
import Relb.Lib.Runs
import Relb.Model.Utiles
/-!
# `ServerList`: filters, servers and the session directory

An entry of `peer_list` is kept by value with its address `addr`; a message names an
entry by its address. `parallelList` is the queue of the web admin, `none` while it is not
attached, and `parallels` holds the copies of the entries that were made for it.
`closeRequests` collects the calls of `closePInfo` on connection managers. Each operation
reads the clock once and runs alone; the addresses that `new` returns are arguments.
Tracing, the task list and the fields that nothing reads are left out.
-/

namespace Relb

open Lib

/-- Address of a `ThreadedConnectionManager`. -/
abbrev ManagerId := Nat

/-- `peer_info`. -/
structure PeerInfo where
  addr : Ptr
  srcIp : IpAddress
  srcPort : UInt16
  dstIp : IpAddress
  dstPort : UInt16
  status : UInt8
  parallel : Option Ptr
  manager : Option ManagerId
  created : Datetime
  modified : Datetime
  deriving DecidableEq, Repr

def PeerInfo.setStatus (q : PeerInfo) (status : UInt8) (now : Datetime) : PeerInfo :=
  { q with status := status, modified := now }

/-- The fields written for a reconnection. -/
def PeerInfo.rearm (q : PeerInfo) (clientPort : UInt16) (pcm : Option ManagerId)
    (now : Datetime) : PeerInfo :=
  { q with
    srcPort := clientPort
    status := statusConnectingServer.toUInt8
    modified := now
    manager := pcm }

/-- `status & STATUS_PEER_NOT_CONNECTED`. -/
def PeerInfo.notConnected (q : PeerInfo) : Bool := statusHas q.status statusPeerNotConnected

/-- `status & STATUS_PEER_DISCONNECTED`. -/
def PeerInfo.disconnected (q : PeerInfo) : Bool := statusHas q.status statusPeerDisconnected

namespace ServerInfo

/-- The server at the address and port that an entry points to. -/
def isDst (srv : ServerInfo) (q : PeerInfo) : Bool := srv.ip == q.dstIp && srv.port == q.dstPort

/-- The limit is reached. -/
def isFull (srv : ServerInfo) : Bool :=
  srv.maxConnections ≠ 0 ∧ srv.connected ≥ srv.maxConnections

/-- The last connection failed and it is too early for another one. -/
def inRetry (srv : ServerInfo) (retry : Int) (now : Datetime) : Bool :=
  srv.lastConnectionFailed ∧ now - srv.lastConnectionAttempt < retry

def notAvailable (srv : ServerInfo) (retry : Int) (now : Datetime) : Bool :=
  srv.isFull || srv.inRetry retry now

def startConnecting (srv : ServerInfo) : ServerInfo :=
  { srv with connecting := srv.connecting + 1 }

/-- One ended connection less, by the status of its entry. -/
def forget (srv : ServerInfo) (q : PeerInfo) : ServerInfo :=
  if q.disconnected then { srv with disconnected := max (srv.disconnected - 1) 0 }
  else { srv with finished := max (srv.finished - 1) 0 }

/-- The same in `cleanConnections`, which falls back on `finished`. -/
def clean (srv : ServerInfo) (q : PeerInfo) : ServerInfo :=
  if q.disconnected ∧ srv.disconnected ≠ 0 then
    { srv with disconnected := max (srv.disconnected - 1) 0 }
  else { srv with finished := max (srv.finished - 1) 0 }

end ServerInfo

structure ServerList where
  filterList : List FilterInfo
  serversList : List ServerInfo
  peerList : List PeerInfo
  lastServerAssigned : Nat
  serverRetryMilliseconds : Int
  finishedWeight : Int
  disconnectedWeight : Int
  reconnectLostSessions : Bool
  lastConnectionsCleanup : Datetime
  parallelList : Option (List Message)
  parallels : Ptr → Option PeerInfo
  closeRequests : List (ManagerId × Option Ptr)

namespace ServerList

/-- The constructor at clock value `now`. -/
def create (now : Datetime) : ServerList where
  filterList := []
  serversList := []
  peerList := []
  lastServerAssigned := 9999
  serverRetryMilliseconds := 30 * 1000
  finishedWeight := 1
  disconnectedWeight := 1
  reconnectLostSessions := true
  lastConnectionsCleanup := now
  parallelList := none
  parallels := fun _ => none
  closeRequests := []

/-- `addServer`, with the clock value `now`. -/
def addServer (s : ServerList) (ip : IpAddress) (port : UInt16) (weight maxConnections : Int)
    (now : Datetime) : ServerList :=
  { s with
    serversList := s.serversList ++ [{
      ip := ip
      port := port
      disconnected := 0
      finished := 0
      connected := 0
      connecting := 0
      weight := weight
      maxConnections := maxConnections
      lastConnectionFailed := false
      lastConnectionAttempt := now }] }

/-- `setServerRetry`. The product is an `int`. -/
def setServerRetry (s : ServerList) (seconds : Int) : ServerList :=
  { s with serverRetryMilliseconds := toInt (seconds * 1000) }

/-- `setParallelList` before the first connection: the queue of the web admin is empty. -/
def attachAdmin (s : ServerList) : ServerList := { s with parallelList := some [] }

/-- `addFilter`, called before the thread runs. -/
def addFilter (s : ServerList) (f : FilterInfo) : ServerList :=
  { s with filterList := s.filterList ++ [f] }

def isServerAllowed (s : ServerList) (server client : IpAddress) : Bool :=
  match s.filterList.find? fun f =>
      maskedIp client f.srcMask == maskedIp f.srcIp f.srcMask &&
        maskedIp server f.dstMask == maskedIp f.dstIp f.dstMask with
  | some f => f.allow
  | none => true

/-- One pass of the loop of `isServerAllowed` at the index `i`; a match moves the index behind the
list. -/
def checkFilter (s : ServerList) (server client : IpAddress) (i : Nat) (val : Bool) :
    Option (Nat × Bool) :=
  match s.filterList[i]? with
  | some f =>
      if maskedIp client f.srcMask == maskedIp f.srcIp f.srcMask &&
          maskedIp server f.dstMask == maskedIp f.dstIp f.dstMask then
        some (s.filterList.length + 1 + 1, f.allow)
      else some (i + 1, val)
  | none => none

/-- `isServerAllowed`, with the loop of the code. -/
def isServerAllowedLoop (s : ServerList) (server client : IpAddress) : Option Bool :=
  (whileBelow (fun _ => s.filterList.length) (s.checkFilter server client) s.filterList.length 0
    true).map Prod.snd

/-! ## Small updates -/

/-- `parallelList->post( id, p )`, if both pointers are set. -/
def postParallel (s : ServerList) (id : UInt32) (p : Option Ptr) : ServerList :=
  match s.parallelList, p with
  | some queue, some p => { s with parallelList := some (queue ++ [⟨id, p⟩]) }
  | _, _ => s

/-- `manager->closePInfo( p )`, if the manager is set. -/
def closePInfo (s : ServerList) (manager : Option ManagerId) (p : Option Ptr) : ServerList :=
  match manager with
  | some m => { s with closeRequests := s.closeRequests ++ [(m, p)] }
  | none => s

def modifyServer (s : ServerList) (i : Nat) (f : ServerInfo → ServerInfo) : ServerList :=
  { s with serversList := s.serversList.modify i f }

def modifyPeer (s : ServerList) (i : Nat) (f : PeerInfo → PeerInfo) : ServerList :=
  { s with peerList := s.peerList.modify i f }

/-- `peer_list.del( i )`. -/
def delPeer (s : ServerList) (i : Nat) : ServerList :=
  { s with peerList := s.peerList.eraseIdx i }

/-- Keep the entries that satisfy `keep`. -/
def filterPeers (s : ServerList) (keep : PeerInfo → Bool) : ServerList :=
  { s with peerList := s.peerList.filter keep }

/-- `pinfo->setParallel( pinfoparallel )`, when the queue of the web admin is attached. -/
def withParallel (s : ServerList) (q : PeerInfo) (parallelAddr : Ptr) : PeerInfo :=
  if s.parallelList.isSome then { q with parallel := some parallelAddr } else q

/-- `peer_list.add( pinfo )`, together with the copy for the web admin and its announcement. -/
def addPeer (s : ServerList) (q : PeerInfo) (parallelAddr : Ptr) : ServerList :=
  let s := { s with
    peerList := s.peerList ++ [s.withParallel q parallelAddr]
    parallels :=
      if s.parallelList.isSome then
        fun p => if p = parallelAddr then
          some { q with addr := parallelAddr, parallel := some q.addr } else s.parallels p
      else s.parallels }
  s.postParallel q.status.toUInt32 (some parallelAddr)

/-! ## Messages -/

/-- The first `switch` of `processMessage`: a kick is passed to the manager, and every message
but a kick and a cancellation is recorded and forwarded. -/
def recordMessage (s : ServerList) (index : Nat) (pinfo : PeerInfo) (id : UInt32) (now : Datetime) :
    ServerList :=
  if id = statusPeerConnectionCancelled then s
  else if id = statusPeerConnectionKicked then s.closePInfo pinfo.manager (some pinfo.addr)
  else
    (s.modifyPeer index (·.setStatus id.toUInt8 now)).postParallel id.toUInt8.toUInt32
      pinfo.parallel

/-- Another entry of the same client is not among the ended ones. -/
def otherConnected (s : ServerList) (index : Nat) (pinfo : PeerInfo) : Bool :=
  s.peerList.zipIdx.any fun x =>
    x.2 ≠ index && !x.1.notConnected && x.1.srcIp == pinfo.srcIp

/-- What an end does to the counters of its server; `removed` tells whether the entry goes. -/
def endedServer (srv : ServerInfo) (id : UInt32) (removed : Bool) (now : Datetime) : ServerInfo :=
  let srv := if id = statusConnectionFailed then
      { srv with lastConnectionFailed := true, lastConnectionAttempt := now }
    else srv
  let srv := if id &&& statusConnectionFailed ≠ 0 then
      { srv with connecting := max (srv.connecting - 1) 0 }
    else { srv with connected := max (srv.connected - 1) 0 }
  if removed then srv
  else if id &&& statusPeerDisconnected ≠ 0 then { srv with disconnected := srv.disconnected + 1 }
  else { srv with finished := srv.finished + 1 }

def endConnection (s : ServerList) (index : Nat) (pinfo : PeerInfo) (id : UInt32) (now : Datetime) :
    ServerList :=
  match s.serversList.findIdx? (·.isDst pinfo) with
  | none => s
  | some i =>
      let removed := s.otherConnected index pinfo ||
        decide (pinfo.created < s.lastConnectionsCleanup)
      if removed then (s.modifyServer i (endedServer · id true now)).delPeer index
      else s.modifyServer i (endedServer · id false now)

def establishedServer (srv : ServerInfo) (now : Datetime) : ServerInfo :=
  { srv with
    connected := srv.connected + 1
    connecting := max (srv.connecting - 1) 0
    lastConnectionFailed := false
    lastConnectionAttempt := now }

def establishConnection (s : ServerList) (pinfo : PeerInfo) (now : Datetime) : ServerList :=
  match s.serversList.findIdx? (·.isDst pinfo) with
  | none => s
  | some i => s.modifyServer i (establishedServer · now)

/-- The second `switch`, on the id without its lowest bit. -/
def countMessage (s : ServerList) (index : Nat) (pinfo : PeerInfo) (id : UInt32) (now : Datetime) :
    ServerList :=
  let kind := id &&& statusClientServerMask
  if kind = statusConnectionLost ∨ kind = statusDisconnectedOk ∨ kind = statusConnectionFailed then
    s.endConnection index pinfo id now
  else if kind = statusConnectionEstablished then s.establishConnection pinfo now
  else s

def processMessage (s : ServerList) (msg : Message) (now : Datetime) : ServerList :=
  let index := s.peerList.findIdx fun q => q.addr == msg.param
  match s.peerList[index]? with
  | none => s
  | some pinfo =>
      (s.recordMessage index pinfo msg.id now).countMessage index pinfo msg.id now

/-! ## Maintenance -/

/-- Forget an entry at the first server with its address, whatever the port. -/
def cleanServer (s : ServerList) (q : PeerInfo) : ServerList :=
  match s.serversList.findIdx? (fun srv => srv.ip == q.dstIp) with
  | none => s
  | some i => s.modifyServer i (·.clean q)

/-- One step of `cleanConnections`: an entry that has ended is dropped. -/
def cleanEntry (s : ServerList) (q : PeerInfo) : ServerList :=
  if q.notConnected then (s.cleanServer q).postParallel statusPeerConnectionDeleted q.parallel
  else { s with peerList := s.peerList ++ [q] }

def cleanConnections (s : ServerList) : ServerList :=
  s.peerList.foldl cleanEntry { s with peerList := [] }

def purgeConnections (s : ServerList) (now : Datetime) : ServerList :=
  let s := s.peerList.foldl (fun s q => s.closePInfo q.manager (some q.addr)) s
  { s with lastConnectionsCleanup := now }

/-! ## Assignment: sessions -/

/-- The last of the first `n` servers with the address `ip`. -/
def lastServerWithIp (s : ServerList) (ip : IpAddress) : Nat → Option Nat
  | 0 => none
  | n + 1 =>
      if s.serversList[n]?.any fun srv => srv.ip == ip then some n else s.lastServerWithIp ip n

/-- The server of a valid session: the session has not failed and its server may be tried. -/
def sessionServer (s : ServerList) (q : PeerInfo) (now : Datetime) : Option Nat :=
  if q.status.toUInt32 ≠ statusConnectionFailed then
    match s.lastServerWithIp q.dstIp s.serversList.length with
    | none => none
    | some i =>
        if s.serversList[i]?.any fun srv => srv.inRetry s.serverRetryMilliseconds now then none
        else some i
  else none

/-- What the search for sessions finds: an entry with the port of the client, or the entry of
a session to be re-created; always with the server. -/
inductive SessionScan
  | nothing
  | lost (peer server : Nat)
  | reuse (peer server : Nat)
  deriving DecidableEq, Repr

/-- Whether the session in place `j` is preferred to the one in place `i`. -/
def prefersSession (s : ServerList) (i j : Nat) : Bool :=
  match s.peerList[i]?, s.peerList[j]? with
  | some p, some q =>
      (q.modified > p.modified ∧ p.status.toUInt32 ≠ statusConnectionFailed) ∨
        p.status.toUInt32 = statusConnectionFailed
  | _, _ => false

/-- The search, from the entry in place `i` on; `lost` is the session chosen so far. -/
def scanSessions (s : ServerList) (clientIp : IpAddress) (clientPort : UInt16) (now : Datetime) :
    List PeerInfo → Nat → Option (Nat × Nat) → SessionScan
  | [], _, none => .nothing
  | [], _, some (peer, server) => .lost peer server
  | q :: rest, i, lost =>
      if q.srcIp = clientIp then
        match s.sessionServer q now with
        | none => s.scanSessions clientIp clientPort now rest (i + 1) lost
        | some server =>
            if q.srcPort = clientPort then .reuse i server
            else
              let lost := match lost with
                | some (peer, server') =>
                    if s.prefersSession peer i then some (i, server) else some (peer, server')
                | none => some (i, server)
              s.scanSessions clientIp clientPort now rest (i + 1) lost
      else s.scanSessions clientIp clientPort now rest (i + 1) lost

/-- The entry with the port of the client is armed again. The close request for its previous
connection is made with the result variable, which is still `NULL`. -/
def reuseSession (s : ServerList) (peer server : Nat) (clientPort : UInt16)
    (pcm : Option ManagerId) (now : Datetime) : ServerList × Option PeerInfo :=
  match s.peerList[peer]? with
  | none => (s, none)
  | some old =>
      let q := old.rearm clientPort pcm now
      ((((s.closePInfo old.manager none).modifyServer server ServerInfo.startConnecting).modifyPeer
        peer (·.rearm clientPort pcm now)).postParallel q.status.toUInt32 q.parallel, some q)

/-- A new entry, as the two other ways fill it in. -/
def newPeer (clientIp : IpAddress) (clientPort : UInt16) (dstIp : IpAddress) (dstPort : UInt16)
    (pcm : Option ManagerId) (now : Datetime) (addr : Ptr) : PeerInfo where
  addr := addr
  srcIp := clientIp
  srcPort := clientPort
  dstIp := dstIp
  dstPort := dstPort
  status := statusConnectingServer.toUInt8
  parallel := none
  manager := pcm
  created := now
  modified := now

/-- An ended entry of the client. -/
def isLostOf (clientIp : IpAddress) (q : PeerInfo) : Bool := q.srcIp == clientIp && q.notConnected

/-- A new entry takes the server of a lost session; the ended entries of the client go, all on
the account of that server. -/
def recreateSession (s : ServerList) (peer server : Nat) (clientIp : IpAddress)
    (clientPort : UInt16) (pcm : Option ManagerId) (now : Datetime) (addr parallelAddr : Ptr) :
    ServerList × Option PeerInfo :=
  match s.peerList[peer]? with
  | none => (s, none)
  | some old =>
      if old.srcIp = clientIp then
        let q := newPeer clientIp clientPort old.dstIp old.dstPort pcm now addr
        let gone := s.peerList.filter (isLostOf clientIp)
        let s := s.modifyServer server ServerInfo.startConnecting
        let s := gone.foldl (fun s x => s.modifyServer server (·.forget x)) s
        let s := s.filterPeers fun x => !isLostOf clientIp x
        (s.addPeer q parallelAddr, some (s.withParallel q parallelAddr))
      else (s, none)

/-! ## Assignment: selection -/

/-- The load of the default candidate. -/
def defaultLoad (s : ServerList) (srv : ServerInfo) : Rat :=
  let sum := srv.connecting + srv.connected + srv.finished * s.finishedWeight +
    srv.disconnected * s.disconnectedWeight
  toFloat (toFloat sum / toFloat (max 1 srv.weight : Int))

/-- The load of the servers it is compared with. -/
def inspectedLoad (s : ServerList) (srv : ServerInfo) : Rat :=
  let sum := srv.finished + srv.connected + srv.finished * s.finishedWeight +
    srv.disconnected * s.disconnectedWeight
  toFloat (toFloat sum / toFloat (max 1 srv.weight : Int))

/-- The variables `nextserver`, `nextserver_weight`, `nextserver_index`,
`nextserver_notavailable` and `assigned_server`. -/
structure Candidate where
  server : Nat
  weight : Int
  index : Rat
  notAvailable : Bool
  assigned : Bool

/-- One comparison of the scan. -/
def inspectServer (s : ServerList) (clientIp : IpAddress) (current : Nat) (notAvailable : Bool)
    (next : Candidate) : Candidate :=
  match s.serversList[current]? with
  | none => next
  | some srv =>
      let index := s.inspectedLoad srv
      if s.isServerAllowed srv.ip clientIp then
        let available := !notAvailable || (notAvailable && next.notAvailable)
        let better :=
          if index = 0 ∧ next.index = 0 then !next.assigned || decide (srv.weight > next.weight)
          else !next.assigned || decide (index < next.index)
        if better && available then ⟨current, srv.weight, index, notAvailable, true⟩ else next
      else next

/-- `currentserver++`, back to the first server behind the last one. -/
def nextIndex (s : ServerList) (current : Nat) : Nat :=
  if current + 1 ≥ s.serversList.length then 0 else current + 1

/-- `while( currentserver != last_server_assigned )`. `notAvailable` is computed for each server
in the first scan and false in the second. -/
def scanServers (s : ServerList) (clientIp : IpAddress) (last : Nat)
    (notAvailable : ServerInfo → Bool) : Nat → Nat → Candidate → Nat × Candidate
  | 0, current, next => (current, next)
  | fuel + 1, current, next =>
      if current = last then (current, next)
      else
        let next := s.inspectServer clientIp current
          (s.serversList[current]?.any notAvailable) next
        s.scanServers clientIp last notAvailable fuel (s.nextIndex current) next

/-- Selection among the servers, starting behind the last one assigned. The second scan starts
where the first one ended, which is where it has to stop. -/
def selectServer (s : ServerList) (clientIp : IpAddress) (now : Datetime) (last : Nat)
    (first : ServerInfo) : Candidate :=
  let next : Candidate := {
    server := last
    weight := first.weight
    index := s.defaultLoad first
    notAvailable := first.notAvailable s.serverRetryMilliseconds now
    assigned := s.isServerAllowed first.ip clientIp }
  let (current, next) := s.scanServers clientIp last
    (·.notAvailable s.serverRetryMilliseconds now) s.serversList.length (s.nextIndex last) next
  if next.assigned then next
  else (s.scanServers clientIp last (fun _ => false) s.serversList.length current next).2

def assignServer (s : ServerList) (clientIp : IpAddress) (clientPort : UInt16)
    (pcm : Option ManagerId) (now : Datetime) (addr parallelAddr : Ptr) :
    ServerList × Option PeerInfo :=
  let last := s.nextIndex s.lastServerAssigned
  match s.serversList[last]? with
  | none => ({ s with lastServerAssigned := last }, none)
  | some first =>
      let next := s.selectServer clientIp now last first
      if next.assigned then
        let last := if next.server ≥ s.serversList.length then 0 else next.server
        match s.serversList[last]? with
        | none => ({ s with lastServerAssigned := last }, none)
        | some srv =>
            let q := newPeer clientIp clientPort srv.ip srv.port pcm now addr
            let s := { s with lastServerAssigned := last }
            ((s.modifyServer last ServerInfo.startConnecting).addPeer q parallelAddr,
              some (s.withParallel q parallelAddr))
      else ({ s with lastServerAssigned := last }, none)

def getServer (s : ServerList) (clientIp : IpAddress) (clientPort : UInt16)
    (pcm : Option ManagerId) (now : Datetime) (addr parallelAddr : Ptr) :
    ServerList × Option PeerInfo :=
  if s.serversList.isEmpty then (s, none)
  else
    let found :=
      if s.reconnectLostSessions then
        match s.scanSessions clientIp clientPort now s.peerList 0 none with
        | .nothing => (s, none)
        | .lost peer server =>
            s.recreateSession peer server clientIp clientPort pcm now addr parallelAddr
        | .reuse peer server => s.reuseSession peer server clientPort pcm now
      else (s, none)
    match found with
    | (s, some q) => (s, some q)
    | (s, none) => s.assignServer clientIp clientPort pcm now addr parallelAddr

/-! ## Runs -/

inductive Op
  | getServer (clientIp : IpAddress) (clientPort : UInt16) (pcm : Option ManagerId)
      (now : Datetime) (addr parallelAddr : Ptr)
  | processMessage (msg : Message) (now : Datetime)
  | cleanConnections
  | purgeConnections (now : Datetime)

def perform (s : ServerList) : Op → ServerList
  | .getServer clientIp clientPort pcm now addr parallelAddr =>
      (s.getServer clientIp clientPort pcm now addr parallelAddr).1
  | .processMessage msg now => s.processMessage msg now
  | .cleanConnections => s.cleanConnections
  | .purgeConnections now => s.purgeConnections now

/-- The states that start-up can leave, before the first connection. -/
inductive Configured : ServerList → Prop
  | create (now : Datetime) : Configured (create now)
  | addServer {s : ServerList} (ip : IpAddress) (port : UInt16) (weight maxConnections : Int)
      (now : Datetime) : Configured s → Configured (s.addServer ip port weight maxConnections now)
  | addFilter {s : ServerList} (f : FilterInfo) : Configured s → Configured (s.addFilter f)
  | setServerRetry {s : ServerList} (seconds : Int) :
      Configured s → Configured (s.setServerRetry seconds)
  | attachAdmin {s : ServerList} : Configured s → Configured s.attachAdmin

/-- The states of the runs whose steps all meet `guard`. -/
def ReachableBy (guard : ServerList → Op → Prop) : ServerList → Prop :=
  Reach (fun s op t => s.perform op = t) guard Configured

end ServerList

end Relb
