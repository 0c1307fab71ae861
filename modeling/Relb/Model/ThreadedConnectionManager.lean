import Relb.Model.ConnectionPeer
/-!
# `ThreadedConnectionManager`

A manager owns two lists of peers and the close requests that wait for it. `execute` is
split into the iterations of its loops: one close request, and for each list the removal,
the socket work and the check of one peer. An iteration returns the messages that its peers
have posted, in order. `select` and the control socket are left out: the descriptor sets
and the socket results are arguments. A null access, after which the program is gone,
returns `none`, as an index without a peer does.
-/

namespace Relb

/-- The messages that a peer has posted between `p` and `q`. -/
def ConnectionPeer.newMessages (p q : ConnectionPeer) : List Message :=
  match p.pinfo with
  | some info => (q.posted.drop p.posted.length).map (⟨·, info⟩)
  | none => []

structure ThreadedConnectionManager where
  peerList : List ConnectionPeer
  connectingPeerList : List ConnectionPeer
  toBeClosed : List (Option Ptr)

namespace ThreadedConnectionManager

def create : ThreadedConnectionManager := ⟨[], [], []⟩

def addConnectionPeer (m : ThreadedConnectionManager) (peer : ConnectionPeer) :
    ThreadedConnectionManager :=
  { m with connectingPeerList := m.connectingPeerList ++ [peer] }

/-- `closePInfo`: the request is only noted. -/
def closePInfo (m : ThreadedConnectionManager) (pinfo : Option Ptr) : ThreadedConnectionManager :=
  { m with toBeClosed := m.toBeClosed ++ [pinfo] }

/-- The request on top is passed to every peer, connected ones first. -/
def serveRequest (m : ThreadedConnectionManager) :
    Option (ThreadedConnectionManager × List Message) :=
  match m.toBeClosed.getLast? with
  | none => none
  | some top =>
      some (⟨m.peerList.map (·.closePInfo top), m.connectingPeerList.map (·.closePInfo top),
          m.toBeClosed.dropLast⟩,
        (m.peerList ++ m.connectingPeerList).flatMap fun p => p.newMessages (p.closePInfo top))

/-- An inactive peer is deleted. -/
def removePeer (m : ThreadedConnectionManager) (i : Nat) :
    Option (ThreadedConnectionManager × List Message) :=
  match m.peerList[i]? with
  | some p => if p.isActive then none else some ({ m with peerList := m.peerList.eraseIdx i }, [])
  | none => none

def removeConnectingPeer (m : ThreadedConnectionManager) (i : Nat) :
    Option (ThreadedConnectionManager × List Message) :=
  match m.connectingPeerList[i]? with
  | some p =>
      if p.isActive then none
      else some ({ m with connectingPeerList := m.connectingPeerList.eraseIdx i }, [])
  | none => none

def manageConnections (m : ThreadedConnectionManager) (i : Nat) (setr setw : FdSet)
    (io : SocketIO) : Option (ThreadedConnectionManager × List Message) :=
  match m.peerList[i]? with
  | some p =>
      match p.manageConnections setr setw io with
      | .ok q => some ({ m with peerList := m.peerList.set i q }, p.newMessages q)
      | .error _ => none
  | none => none

/-- The peer changes lists when its status has changed. -/
def manageConnectingPeer (m : ThreadedConnectionManager) (i : Nat) (setr setw : FdSet)
    (io : SocketIO) : Option (ThreadedConnectionManager × List Message) :=
  match m.connectingPeerList[i]? with
  | some p =>
      match p.manageConnectingPeer setr setw io with
      | .ok (true, q) =>
          some ({ m with
            connectingPeerList := m.connectingPeerList.eraseIdx i
            peerList := m.peerList ++ [q] }, p.newMessages q)
      | .ok (false, q) =>
          some ({ m with connectingPeerList := m.connectingPeerList.set i q }, p.newMessages q)
      | .error _ => none
  | none => none

/-- `checkConnections`, for a connecting peer. -/
def checkConnectingPeers (m : ThreadedConnectionManager) (i : Nat) (io : SocketIO) :
    Option (ThreadedConnectionManager × List Message) :=
  match m.connectingPeerList[i]? with
  | some p =>
      let q := p.checkConnectingPeers io
      some ({ m with connectingPeerList := m.connectingPeerList.set i q }, p.newMessages q)
  | none => none

/-- `checkConnections`, for a connected peer. -/
def checkPeers (m : ThreadedConnectionManager) (i : Nat) (io : SocketIO) :
    Option (ThreadedConnectionManager × List Message) :=
  match m.peerList[i]? with
  | some p =>
      let q := p.checkPeers io
      some ({ m with peerList := m.peerList.set i q }, p.newMessages q)
  | none => none

/-- An iteration of a loop of `execute`. -/
inductive Op
  | serveRequest
  | removePeer (i : Nat)
  | removeConnectingPeer (i : Nat)
  | manageConnections (i : Nat) (setr setw : FdSet) (io : SocketIO)
  | manageConnectingPeer (i : Nat) (setr setw : FdSet) (io : SocketIO)
  | checkConnectingPeers (i : Nat) (io : SocketIO)
  | checkPeers (i : Nat) (io : SocketIO)

def perform (m : ThreadedConnectionManager) :
    Op → Option (ThreadedConnectionManager × List Message)
  | .serveRequest => m.serveRequest
  | .removePeer i => m.removePeer i
  | .removeConnectingPeer i => m.removeConnectingPeer i
  | .manageConnections i setr setw io => m.manageConnections i setr setw io
  | .manageConnectingPeer i setr setw io => m.manageConnectingPeer i setr setw io
  | .checkConnectingPeers i io => m.checkConnectingPeers i io
  | .checkPeers i io => m.checkPeers i io

end ThreadedConnectionManager

end Relb
