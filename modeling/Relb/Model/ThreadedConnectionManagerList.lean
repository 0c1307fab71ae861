import Relb.Lib.Loops
import Relb.Model.ThreadedConnectionManager
/-!
# `ThreadedConnectionManagerList`: the managers and their capacity

The managers here keep the count `currentconnections` apart from their lists, and the phases of
`execute` are loops over an index, which the removal and the promotion of a peer set back by
hand. A peer is an object with an identity. `added` and `removed` are ghost logs: the peers that
a manager has taken, and those that it has deleted, as they were then.

`setServer` runs on the one accept thread: it asks for a manager that is free, and adds a peer to
it unless the client is refused. `select` is left out: the sets it leaves are arguments.
-/

namespace Relb

open Lib

/-- `MAX_PEERS_PER_FDSET`: two descriptors for the control socket and two for each peer. -/
def maxPeersPerFdset : Int := (fdSetSize - 2) / 2

/-- The two descriptor sets of a manager, with the highest descriptor in them. -/
structure FdSets where
  setr : FdSet
  setw : FdSet
  maxFd : Int

namespace FdSets

def zero : FdSets := ⟨fun _ => false, fun _ => false, 0⟩

def addPeer (sets : FdSets) (p : ConnectionPeer) : FdSets :=
  let (setr, maxFd) := p.addToFDSETR sets.setr sets.maxFd
  let (setw, maxFd) := p.addToFDSETW sets.setw maxFd
  ⟨setr, setw, maxFd⟩

def addConnectingPeer (sets : FdSets) (p : ConnectionPeer) : FdSets :=
  let (setr, setw, maxFd) := p.addToFDSETC sets.setr sets.setw sets.maxFd
  ⟨setr, setw, maxFd⟩

end FdSets

structure PeerObject where
  id : Nat
  peer : ConnectionPeer

structure PooledManager where
  peerList : List PeerObject
  connectingPeerList : List PeerObject
  toBeClosed : List (Option Ptr)
  maxConnections : Int
  currentconnections : Int
  added : List Nat
  removed : List PeerObject

namespace PooledManager

def create (connections : Int) : PooledManager where
  peerList := []
  connectingPeerList := []
  toBeClosed := []
  maxConnections := min connections maxPeersPerFdset
  currentconnections := 0
  added := []
  removed := []

def addConnectionPeer (m : PooledManager) (p : PeerObject) : PooledManager :=
  { m with
    currentconnections := m.currentconnections + 1
    connectingPeerList := m.connectingPeerList ++ [p]
    added := m.added ++ [p.id] }

def closePInfo (m : PooledManager) (pinfo : Option Ptr) : PooledManager :=
  { m with toBeClosed := m.toBeClosed ++ [pinfo] }

def getFreeConnections (m : PooledManager) : Int :=
  max (m.maxConnections - m.currentconnections) 0

/-! ## The phases of `execute` -/

/-- The request on top is passed to every peer. -/
def serveRequest (m : PooledManager) (top : Option Ptr) : PooledManager :=
  { m with
    peerList := m.peerList.map fun p => { p with peer := p.peer.closePInfo top }
    connectingPeerList :=
      m.connectingPeerList.map fun p => { p with peer := p.peer.closePInfo top }
    toBeClosed := m.toBeClosed.dropLast }

/-- `while( to_be_closed.get_count() )`, the last request first. -/
def purgeRequests (m : PooledManager) : PooledManager :=
  m.toBeClosed.reverse.foldl serveRequest m

/-- Common body of the two loops of the registration: the peer in place is added to the sets. An
inactive one is deleted, and the index stays. -/
def registerIn (list : PooledManager → List PeerObject)
    (setList : PooledManager → List PeerObject → PooledManager)
    (add : FdSets → ConnectionPeer → FdSets) (i : Nat) :
    PooledManager × FdSets → Option (Nat × PooledManager × FdSets)
  | (m, sets) =>
      match (list m)[i]? with
      | some p =>
          if p.peer.isActive then some (i + 1, m, add sets p.peer)
          else some (i, { setList m ((list m).eraseIdx i) with
            currentconnections := m.currentconnections - 1
            removed := m.removed ++ [p] }, sets)
      | none => none

def registerPeer : Nat → PooledManager × FdSets → Option (Nat × PooledManager × FdSets) :=
  registerIn (·.peerList) (fun m l => { m with peerList := l }) FdSets.addPeer

def registerConnectingPeer :
    Nat → PooledManager × FdSets → Option (Nat × PooledManager × FdSets) :=
  registerIn (·.connectingPeerList) (fun m l => { m with connectingPeerList := l })
    FdSets.addConnectingPeer

/-- The sets for `select` are built anew, and inactive peers removed. -/
def register (m : PooledManager) : Option (PooledManager × FdSets) := do
  let (_, m, sets) ← whileBelow (·.1.peerList.length) registerPeer m.peerList.length 0
    (m, FdSets.zero)
  let (_, m, sets) ← whileBelow (·.1.connectingPeerList.length) registerConnectingPeer
    m.connectingPeerList.length 0 (m, sets)
  return (m, sets)

/-- One pass of the loop below. -/
def managePeer (setr setw : FdSet) (io : Nat → SocketIO) (i : Nat) (m : PooledManager) :
    Option (Nat × PooledManager) :=
  match m.peerList[i]? with
  | some p =>
      match p.peer.manageConnections setr setw (io p.id) with
      | .ok q => some (i + 1, { m with peerList := m.peerList.set i { p with peer := q } })
      | .error _ => none
  | none => none

/-- The sockets of peer `id` answer what `io id` says. -/
def manageConnections (m : PooledManager) (setr setw : FdSet) (io : Nat → SocketIO) :
    Option PooledManager :=
  (whileBelow (·.peerList.length) (managePeer setr setw io) m.peerList.length 0 m).map Prod.snd

/-- A peer whose status has changed moves to the other list, and the index stays. -/
def promotePeer (setr setw : FdSet) (io : Nat → SocketIO) (i : Nat) (m : PooledManager) :
    Option (Nat × PooledManager) :=
  match m.connectingPeerList[i]? with
  | some p =>
      match p.peer.manageConnectingPeer setr setw (io p.id) with
      | .ok (true, q) =>
          some (i, { m with
            connectingPeerList := m.connectingPeerList.eraseIdx i
            peerList := m.peerList ++ [{ p with peer := q }] })
      | .ok (false, q) =>
          some (i + 1, { m with
            connectingPeerList := m.connectingPeerList.set i { p with peer := q } })
      | .error _ => none
  | none => none

def manageConnectingPeers (m : PooledManager) (setr setw : FdSet) (io : Nat → SocketIO) :
    Option PooledManager :=
  (whileBelow (·.connectingPeerList.length) (promotePeer setr setw io)
    m.connectingPeerList.length 0 m).map Prod.snd

def checkConnections (m : PooledManager) (io : Nat → SocketIO) : PooledManager :=
  { m with
    connectingPeerList := m.connectingPeerList.map fun p =>
      { p with peer := p.peer.checkConnectingPeers (io p.id) }
    peerList := m.peerList.map fun p => { p with peer := p.peer.checkPeers (io p.id) } }

inductive Phase
  | purgeRequests
  | register
  | manageConnections (setr setw : FdSet) (io : Nat → SocketIO)
  | manageConnectingPeers (setr setw : FdSet) (io : Nat → SocketIO)
  | checkConnections (io : Nat → SocketIO)

def perform (m : PooledManager) : Phase → Option PooledManager
  | .purgeRequests => some m.purgeRequests
  | .register => m.register.map Prod.fst
  | .manageConnections setr setw io => m.manageConnections setr setw io
  | .manageConnectingPeers setr setw io => m.manageConnectingPeers setr setw io
  | .checkConnections io => some (m.checkConnections io)

end PooledManager

structure ThreadedConnectionManagerList where
  peersPerThread : Int
  mList : List PooledManager

namespace ThreadedConnectionManagerList

/-- `MAX_CONNECTIONS_PER_THREAD` by default. -/
def create : ThreadedConnectionManagerList := ⟨maxPeersPerFdset, []⟩

def setPeersPerThread (l : ThreadedConnectionManagerList) (ppt : Int) :
    ThreadedConnectionManagerList :=
  if ppt > 0 then { l with peersPerThread := ppt } else l

/-- The new manager, with its place. -/
def addNew (l : ThreadedConnectionManagerList) : ThreadedConnectionManagerList × Nat :=
  ({ l with mList := l.mList ++ [.create l.peersPerThread] }, l.mList.length)

/-- The search for the manager with the most free connections, from place `i` on. -/
def scanFree : List PooledManager → Nat → Int → Option Nat → Int × Option Nat
  | [], _, freeconections, pcm => (freeconections, pcm)
  | m :: rest, i, freeconections, pcm =>
      let current := m.getFreeConnections
      if current > freeconections ∧ current > 0 then scanFree rest (i + 1) current (some i)
      else scanFree rest (i + 1) freeconections pcm

/-- The search starts at the second manager. -/
def getFreeThreadedConnectionManager (l : ThreadedConnectionManagerList) :
    ThreadedConnectionManagerList × Nat :=
  if l.mList.length = 0 then l.addNew
  else
    match scanFree (l.mList.drop 1) 1 (-1) none with
    | (freeconections, some pcm) => if freeconections < 1 then l.addNew else (l, pcm)
    | (_, none) => l.addNew

end ThreadedConnectionManagerList

/-- The managers and the accept thread: `pcm` is the manager that `setServer` has been given.
The next peer to be built is object `created`. -/
structure ConnectionPool where
  cmlist : ThreadedConnectionManagerList
  pcm : Option Nat
  created : Nat

namespace ConnectionPool

def create : ConnectionPool := ⟨.create, none, 0⟩

def modifyManager (c : ConnectionPool) (k : Nat) (f : PooledManager → PooledManager) :
    ConnectionPool :=
  { c with cmlist := { c.cmlist with mList := c.cmlist.mList.modify k f } }

inductive Op
  | setPeersPerThread (ppt : Int)
  | getFreeThreadedConnectionManager
  | addConnectionPeer (peer : ConnectionPeer)
  | refuse
  | closePInfo (k : Nat) (pinfo : Option Ptr)
  | manager (k : Nat) (phase : PooledManager.Phase)

/-- A manager is asked for when none is held, and a peer is added to the one that is held. -/
def perform (c : ConnectionPool) : Op → Option ConnectionPool
  | .setPeersPerThread ppt => some { c with cmlist := c.cmlist.setPeersPerThread ppt }
  | .getFreeThreadedConnectionManager =>
      match c.pcm with
      | some _ => none
      | none =>
          let (cmlist, pcm) := c.cmlist.getFreeThreadedConnectionManager
          some { c with cmlist := cmlist, pcm := some pcm }
  | .addConnectionPeer peer =>
      match c.pcm with
      | some pcm =>
          some { c.modifyManager pcm (·.addConnectionPeer ⟨c.created, peer⟩) with
            pcm := none, created := c.created + 1 }
      | none => none
  | .refuse => some { c with pcm := none }
  | .closePInfo k pinfo => some (c.modifyManager k (·.closePInfo pinfo))
  | .manager k phase =>
      match c.cmlist.mList[k]? with
      | some m => (m.perform phase).map fun m => c.modifyManager k fun _ => m
      | none => none

/-- The states of all runs, from a pool without managers. -/
def Reachable : ConnectionPool → Prop :=
  Reach (fun c op c' => c.perform op = some c') anyStep (· = create)

end ConnectionPool

end Relb
