import Mathlib.Logic.Function.Basic
import Relb.Model.ServerList
/-!
# `AdminHTTPServer`: the message loop

The web admin keeps its own servers and its own list of connections. A connection is named
by the address of the copy of its entry that `ServerList` made for the admin; the copies are
`heap`, which both sides share and into which only the admin writes later on. An address
without a copy is never dereferenced.
-/

namespace Relb

structure AdminHTTPServer where
  serverList : List ServerInfo
  peerList : List Ptr
  currentItemIndex : Nat

namespace AdminHTTPServer

def create : AdminHTTPServer := ⟨[], [], 0⟩

/-- `addServer`, with the clock value `now`. -/
def addServer (a : AdminHTTPServer) (ip : IpAddress) (port : UInt16) (weight maxConnections : Int)
    (now : Datetime) : AdminHTTPServer :=
  { a with
    serverList := a.serverList ++ [{
      ip := ip
      port := port
      disconnected := 0
      finished := 0
      connected := 0
      connecting := 0
      weight := weight
      maxConnections := maxConnections
      lastConnectionFailed := false
      lastConnectionAttempt := now }] }

variable (a : AdminHTTPServer) (heap : Ptr → Option PeerInfo)

/-- Forget a connection at the first server with its address, whatever the port. -/
def cleanServer (q : PeerInfo) : AdminHTTPServer :=
  match a.serverList.findIdx? (fun srv => srv.ip == q.dstIp) with
  | none => a
  | some i => { a with serverList := a.serverList.modify i (·.clean q) }

/-- One step of the search for ended connections from the address `ip`. -/
def cleanPeer (ip : IpAddress) (a : AdminHTTPServer) (p : Ptr) : AdminHTTPServer :=
  match heap p with
  | some q =>
      if ServerList.isLostOf ip q then a.cleanServer q
      else { a with peerList := a.peerList ++ [p] }
  | none => { a with peerList := a.peerList ++ [p] }

/-- The ended connections of the client go, and the new one comes. -/
def enter (p : Ptr) (pinfo : PeerInfo) : AdminHTTPServer :=
  let a := a.peerList.foldl (cleanPeer heap pinfo.srcIp) { a with peerList := [] }
  { a with peerList := a.peerList ++ [p] }

/-- The client has another connection that is not among the ended ones. -/
def otherConnectionsActive (pinfo : PeerInfo) : Bool :=
  a.peerList.zipIdx.any fun x =>
    x.2 ≠ a.currentItemIndex &&
      (heap x.1).any fun q => !q.notConnected && q.srcIp == pinfo.srcIp

def endConnection (pinfo : PeerInfo) (id : UInt32) (now : Datetime) : AdminHTTPServer :=
  match a.serverList.findIdx? (·.isDst pinfo) with
  | none => a
  | some i =>
      let other := id == statusPeerConnectionDeleted || a.otherConnectionsActive heap pinfo
      let removed := other && decide (a.currentItemIndex < a.peerList.length)
      { a with
        serverList := a.serverList.modify i (ServerList.endedServer · id removed now)
        peerList := if removed then a.peerList.eraseIdx a.currentItemIndex else a.peerList }

def establishConnection (pinfo : PeerInfo) (now : Datetime) : AdminHTTPServer :=
  match a.serverList.findIdx? (·.isDst pinfo) with
  | none => a
  | some i => { a with serverList := a.serverList.modify i (ServerList.establishedServer · now) }

def startConnection (pinfo : PeerInfo) : AdminHTTPServer :=
  match a.serverList.findIdx? (·.isDst pinfo) with
  | none => a
  | some i => { a with serverList := a.serverList.modify i ServerInfo.startConnecting }

/-- The `switch`, on the id without its lowest bit. -/
def countMessage (pinfo : PeerInfo) (id : UInt32) (now : Datetime) : AdminHTTPServer :=
  let kind := id &&& statusClientServerMask
  if kind = statusConnectionLost ∨ kind = statusDisconnectedOk ∨ kind = statusConnectionFailed ∨
      kind = statusPeerConnectionDeleted then
    a.endConnection heap pinfo id now
  else if kind = statusConnectionEstablished then a.establishConnection pinfo now
  else if kind = statusConnectingServer then a.startConnection pinfo
  else a

/-- One message of the queue. -/
def processMessage (msg : Message) (now : Datetime) :
    AdminHTTPServer × (Ptr → Option PeerInfo) :=
  if msg.id = statusConnectingServer then
    match heap msg.param with
    | none => (a, heap)
    | some pinfo => ((a.enter heap msg.param pinfo).countMessage heap pinfo msg.id now, heap)
  else
    let a := { a with currentItemIndex := a.peerList.findIdx (· == msg.param) }
    match a.peerList[a.currentItemIndex]?, heap msg.param with
    | some _, some pinfo =>
        let pinfo := pinfo.setStatus msg.id.toUInt8 now
        let heap := Function.update heap msg.param (some pinfo)
        (a.countMessage heap pinfo msg.id now, heap)
    | _, _ => (a, heap)

/-! ## Requests -/

/-- What a request looks for: the entry of the first copy with the address and port of the
client that has one. -/
def requested (ip : IpAddress) (port : UInt16) : Option Ptr :=
  a.peerList.findSome? fun p =>
    (heap p).bind fun q => if q.srcIp = ip ∧ q.srcPort = port then q.parallel else none

/-- `ban`. Its argument `undo` is not used. -/
def ban (ip : IpAddress) (port : UInt16) : Option Message :=
  (a.requested heap ip port).map (⟨statusPeerConnectionBanThis, ·⟩)

def banAll (ip : IpAddress) (port : UInt16) : Option Message :=
  (a.requested heap ip port).map (⟨statusPeerConnectionBanAll, ·⟩)

def kick (ip : IpAddress) (port : UInt16) : Option Message :=
  (a.requested heap ip port).map (⟨statusPeerConnectionKicked, ·⟩)

end AdminHTTPServer

end Relb
