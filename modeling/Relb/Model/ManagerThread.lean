import Relb.Model.CloseRequests
import Relb.Model.ControlSocket
import Relb.Model.ThreadedConnectionManagerList
/-!
# `ThreadedConnectionManager::execute`, one statement at a time

The thread of a manager with its control socket, and the threads that call the manager. Each access
to one of its lists, to `finish`, to the counter or to the pipe is a step, and the steps of all
threads come in any order. `currentconnections++`, `currentconnections--` and the operations of the
lists are not synchronized in the source. That each of them is one step is an assumption: two of
them that overlap are taken to come one after the other.

A statement that is undefined has no step: a null access, and `FD_SET` of a descriptor outside its
range. `select` leaves the sets that it is given, or parts of them, and marks the control socket
when there is a byte in the pipe. Nothing else is known about it: it may come back with no socket at
all.

`removed` and `messages` are ghost logs: the peers that have been deleted, and what the peers have
posted. `created` is the number of peers that `addConnectionPeer` has been called with.
-/

namespace Relb

open Lib

/-- Where the thread stands: in front of the statement named. -/
inductive ManagerPoint
  /-- `while( !finish )`. -/
  | loop
  /-- The loop over `to_be_closed`. -/
  | purge (point : ClosePoint)
  /-- The test of the index, and the peer in place. -/
  | registerTest (place : PeerPlace)
  | register (place : PeerPlace)
  /-- `del( i )`. -/
  | remove (place : PeerPlace) (p : PeerObject)
  /-- `delete cpeer` and `currentconnections--`. -/
  | delete (place : PeerPlace) (p : PeerObject)
  /-- `if( !finish )`. -/
  | beforeSelect
  | select
  /-- `checkSocket`, where `select` has found something. -/
  | checkSocket
  | manageTest (i : Nat)
  | manage (i : Nat)
  | promoteTest (i : Nat)
  | promote (i : Nat)
  /-- `connecting_peer_list.del( i )`. -/
  | leave (i : Nat) (p : PeerObject)
  /-- `peer_list.add( cpeer )`. -/
  | join (i : Nat) (p : PeerObject)
  /-- `checkSocket`, where `select` has met a bad descriptor. -/
  | badDescriptor
  | checkTest (place : PeerPlace)
  | check (place : PeerPlace)
  /-- The loop over one list in `cleanup`. -/
  | cleanup (kind : PeerKind)
  | cleanupRequests
  | ended

/-- Another thread, in front of what it does next. -/
inductive Caller
  /-- `currentconnections++`. -/
  | addConnectionPeer (p : PeerObject)
  /-- `connecting_peer_list.add( peer )`. -/
  | addPeer (p : PeerObject)
  /-- `to_be_closed.add( pinfo )`. -/
  | closePInfo (pinfo : Option Ptr)
  /-- `finish = true`, in the destructor. -/
  | destroy
  /-- `control_socket.post()`. -/
  | post

/-- `waited`: the destructor has come back from `waitfor`. -/
structure ManagerThread where
  peerList : List PeerObject
  connectingPeerList : List PeerObject
  toBeClosed : List (Option Ptr)
  currentconnections : Int
  finish : Bool
  controlSocket : ControlSocket
  sets : FdSets
  connectedPeers : Nat
  connectingPeers : Nat
  point : ManagerPoint
  waited : Bool
  callers : List Caller
  created : Nat
  removed : List PeerObject
  messages : List Message

/-- How `select` comes back. -/
inductive SelectAnswer
  /-- More than zero, with what is left of the sets. -/
  | ready (setr setw : FdSet)
  /-- `EBADF`: the sets are as they were. -/
  | badDescriptor
  /-- Another error, or zero. -/
  | other

namespace FdSets

/-- `addToFDSETR` and `addToFDSETW`, or `addToFDSETC`. -/
def addFor (sets : FdSets) : PeerKind → ConnectionPeer → FdSets
  | .connected => sets.addPeer
  | .connecting => sets.addConnectingPeer

/-- The descriptors that a peer waits for. -/
def asked (kind : PeerKind) (p : ConnectionPeer) : FdSets := zero.addFor kind p

/-- `FD_SET` is defined for each of them. -/
def inRange (kind : PeerKind) (p : ConnectionPeer) : Bool :=
  [p.pClient, p.pServer].all fun ptr => ptr.all fun s =>
    decide (InRange s.sock) || !((asked kind p).setr s.sock || (asked kind p).setw s.sock)

def addControl (sets : FdSets) (c : ControlSocket) : FdSets :=
  let (setr, maxFd) := c.addToFDSET sets.setr sets.maxFd
  ⟨setr, sets.setw, maxFd⟩

/-- What is left of the sets when some descriptors are ready. -/
def restrict (sets : FdSets) (c : ControlSocket) (setr setw : FdSet) : FdSets :=
  ⟨fun fd => sets.setr fd && if fd = c.fd0 then decide (0 < c.bytes) else setr fd,
    fun fd => sets.setw fd && setw fd, sets.maxFd⟩

end FdSets

namespace ManagerThread

/-- The thread has been started. -/
def create (control : ControlSocket) : ManagerThread where
  peerList := []
  connectingPeerList := []
  toBeClosed := []
  currentconnections := 0
  finish := false
  controlSocket := control
  sets := .zero
  connectedPeers := 0
  connectingPeers := 0
  point := .loop
  waited := false
  callers := []
  created := 0
  removed := []
  messages := []

/-- `peer_list` and `connecting_peer_list`. -/
def peers (m : ManagerThread) : PeerKind → List PeerObject
  | .connected => m.peerList
  | .connecting => m.connectingPeerList

def setPeers (m : ManagerThread) (kind : PeerKind) (l : List PeerObject) : ManagerThread :=
  match kind with
  | .connected => { m with peerList := l }
  | .connecting => { m with connectingPeerList := l }

def goto (m : ManagerThread) (point : ManagerPoint) : ManagerThread := { m with point := point }

/-- The peer in place has become `q`, and has posted what is new. -/
def update (m : ManagerThread) (place : PeerPlace) (p : PeerObject) (q : ConnectionPeer) :
    ManagerThread :=
  { m.setPeers place.kind ((m.peers place.kind).set place.index { p with peer := q }) with
    messages := m.messages ++ p.peer.newMessages q }

/-- Behind the last peer of a list that has been registered. -/
def registered (m : ManagerThread) (place : PeerPlace) : ManagerThread :=
  match place.kind with
  | .connected => { m with connectedPeers := place.index, point := .registerTest ⟨.connecting, 0⟩ }
  | .connecting => { m with connectingPeers := place.index, point := .beforeSelect }

/-- `peer_list` comes second in `checkConnections`. -/
def behindCheck : PeerKind → ManagerPoint
  | .connecting => .checkTest ⟨.connected, 0⟩
  | .connected => .loop

/-- `peer_list` comes second in `cleanup`. -/
def behindCleanup : PeerKind → ManagerPoint
  | .connecting => .cleanup .connected
  | .connected => .cleanupRequests

/-- `checkConnectingPeers` or `checkPeers`. -/
def checked (kind : PeerKind) (p : ConnectionPeer) (io : SocketIO) : ConnectionPeer :=
  match kind with
  | .connecting => p.checkConnectingPeers io
  | .connected => p.checkPeers io

/-- The next step of the loop over `to_be_closed`. -/
def advancePurge (m : ManagerThread) : ClosePoint → Option ManagerThread
  | .count =>
      some (m.goto (.purge (if 0 < m.toBeClosed.length then .top ⟨.connected, 0⟩ else .ended)))
  | .top place =>
      if place.index < (m.peers place.kind).length then
        m.toBeClosed.getLast?.map fun top => m.goto (.purge (.offer place m.toBeClosed.length top))
      else some (m.goto (.purge (CloseRequests.behind place.kind)))
  | .offer place _ top =>
      (m.peers place.kind)[place.index]?.map fun p =>
        (m.update place p (p.peer.closePInfo top)).goto (.purge (.top place.next))
  | .pop =>
      if m.toBeClosed = [] then none
      else some { m with toBeClosed := m.toBeClosed.dropLast, point := .purge .count }
  | .ended => some { m with sets := .zero, point := .registerTest ⟨.connected, 0⟩ }

/-- The next step of the manager's own thread, except for `select`. The sockets of the peer that
it works on answer what `io` says. -/
def advance (m : ManagerThread) (io : SocketIO) : Option ManagerThread :=
  match m.point with
  | .loop => some (m.goto (if m.finish then .cleanup .connecting else .purge .count))
  | .purge point => m.advancePurge point
  | .registerTest place =>
      if place.index < (m.peers place.kind).length then some (m.goto (.register place))
      else some (m.registered place)
  | .register place =>
      match (m.peers place.kind)[place.index]? with
      | some p =>
          if !m.finish && p.peer.isActive then
            if FdSets.inRange place.kind p.peer then
              some { m with
                sets := m.sets.addFor place.kind p.peer
                point := .registerTest place.next }
            else none
          else some (m.goto (.remove place p))
      | none => none
  | .remove place p =>
      some ((m.setPeers place.kind ((m.peers place.kind).eraseIdx place.index)).goto
        (.delete place p))
  | .delete place p =>
      some { m with
        removed := m.removed ++ [p]
        currentconnections := m.currentconnections - 1
        point := .registerTest place }
  | .beforeSelect =>
      if m.finish then some (m.goto .loop)
      else if m.controlSocket.fd0 < fdSetSize then
        some { m with sets := m.sets.addControl m.controlSocket, point := .select }
      else none
  | .select => none
  | .checkSocket =>
      (m.controlSocket.checkSocket m.sets.setr).map fun (_, c) =>
        { m with controlSocket := c, point := .manageTest 0 }
  | .manageTest i =>
      some (m.goto (if i < m.peerList.length then .manage i else .promoteTest 0))
  | .manage i =>
      match m.peerList[i]? with
      | some p =>
          match p.peer.manageConnections m.sets.setr m.sets.setw io with
          | .ok q => some ((m.update ⟨.connected, i⟩ p q).goto (.manageTest (i + 1)))
          | .error _ => none
      | none => none
  | .promoteTest i =>
      some (m.goto (if i < m.connectingPeerList.length then .promote i else .loop))
  | .promote i =>
      match m.connectingPeerList[i]? with
      | some p =>
          match p.peer.manageConnectingPeer m.sets.setr m.sets.setw io with
          | .ok (changed, q) =>
              some ((m.update ⟨.connecting, i⟩ p q).goto
                (if changed then .leave i { p with peer := q } else .promoteTest (i + 1)))
          | .error _ => none
      | none => none
  | .leave i p =>
      some ((m.setPeers .connecting (m.connectingPeerList.eraseIdx i)).goto (.join i p))
  | .join i p => some ((m.setPeers .connected (m.peerList ++ [p])).goto (.promoteTest i))
  | .badDescriptor =>
      (m.controlSocket.checkSocket m.sets.setr).map fun (ret, c) =>
        { m with
          controlSocket := c
          point := if 0 ≤ ret then .checkTest ⟨.connecting, 0⟩ else .loop }
  | .checkTest place =>
      some (m.goto (if place.index < (m.peers place.kind).length then .check place
        else behindCheck place.kind))
  | .check place =>
      (m.peers place.kind)[place.index]?.map fun p =>
        (m.update place p (checked place.kind p.peer io)).goto (.checkTest place.next)
  | .cleanup kind =>
      match m.peers kind with
      | p :: rest => some { m.setPeers kind rest with removed := m.removed ++ [p] }
      | [] => some (m.goto (behindCleanup kind))
  | .cleanupRequests =>
      match m.toBeClosed with
      | _ :: rest => some { m with toBeClosed := rest }
      | [] => some (m.goto .ended)
  | .ended => none

/-- Without connections `select` is not given the set for writing. -/
def selected (m : ManagerThread) : SelectAnswer → ManagerThread
  | .ready setr setw =>
      { m with
        sets := m.sets.restrict m.controlSocket setr
          (if m.connectedPeers ≠ 0 ∨ m.connectingPeers ≠ 0 then setw else m.sets.setw)
        point := .checkSocket }
  | .badDescriptor => m.goto .badDescriptor
  | .other => m.goto .loop

/-- What another thread does next, and what it has left to do. -/
def advanceCaller (m : ManagerThread) : Caller → Option (ManagerThread × Option Caller)
  | .addConnectionPeer p =>
      some ({ m with currentconnections := m.currentconnections + 1 }, some (.addPeer p))
  | .addPeer p => some ({ m with connectingPeerList := m.connectingPeerList ++ [p] }, some .post)
  | .closePInfo pinfo => some ({ m with toBeClosed := m.toBeClosed ++ [pinfo] }, some .post)
  | .destroy => some ({ m with finish := true }, some .post)
  | .post => m.controlSocket.post.map fun c => ({ m with controlSocket := c }, none)

inductive Op
  /-- The manager's own thread. -/
  | advance (io : SocketIO)
  | select (answer : SelectAnswer)
  /-- `waitfor` returns in the destructor, which cleans up once more. -/
  | waitfor
  /-- Another thread makes a call. -/
  | addConnectionPeer (peer : ConnectionPeer)
  | closePInfo (pinfo : Option Ptr)
  | destroy
  /-- Thread `k` goes on with its call. -/
  | caller (k : Nat)

def perform (m : ManagerThread) : Op → Option ManagerThread
  | .advance io => m.advance io
  | .select answer =>
      match m.point with
      | .select => some (m.selected answer)
      | _ => none
  | .waitfor =>
      match m.point with
      | .ended =>
          if m.finish && !m.waited then
            some { m with waited := true, point := .cleanup .connecting }
          else none
      | _ => none
  | .addConnectionPeer peer =>
      some { m with
        callers := m.callers ++ [.addConnectionPeer ⟨m.created, peer⟩]
        created := m.created + 1 }
  | .closePInfo pinfo => some { m with callers := m.callers ++ [.closePInfo pinfo] }
  | .destroy => some { m with callers := m.callers ++ [.destroy] }
  | .caller k =>
      match m.callers[k]? with
      | some caller =>
          (m.advanceCaller caller).map fun (m, rest) =>
            { m with callers := m.callers.eraseIdx k ++ rest.toList }
      | none => none

/-- The states of all runs, for a pipe that has been made. -/
def Reachable (fd0 : Int) (capacity : Nat) : ManagerThread → Prop :=
  Reach (fun m op m' => m.perform op = some m') anyStep (· = create (.create fd0 capacity))

/-- The thread waits for a byte. -/
def Blocked (m : ManagerThread) : Prop :=
  (m.point = .select ∨ m.point = .badDescriptor) ∧ m.controlSocket.bytes = 0

end ManagerThread

end Relb
