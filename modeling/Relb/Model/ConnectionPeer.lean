import Relb.Lib.Runs
import Relb.Model.Socket
/-!
# `ConnectionPeer`: the relay of one connection

A peer moves bytes between a client socket and a server socket through one buffer
for each direction. `trace` is a ghost log of everything the peer has done: the
calls on its sockets with their results, the closes and the messages posted.

Calling a method through a null pointer is a fault. The public operations that
test a pointer at one place and use it at another are `Except` programs whose
error is the peer at the fault; where a test stands directly before the use the
two are one match. Tracing is left out, and `OPTIMIZE_PEER_READING` is off as in
the source.
-/

namespace Relb

open Lib

/-- `STAMBUFFERSOCKET`. -/
def stamBufferSocket : Nat := 16384

inductive Event
  | receiveNB (e : Endpoint) (offset max : Nat) (ret : Int) (bytes : List UInt8)
  | sendNB (e : Endpoint) (bytes : List UInt8) (ret : Int)
  | checkSocket (e : Endpoint) (ret : Int)
  | close (e : Endpoint)
  | post (id : UInt32)
  deriving DecidableEq, Repr

/-- One `char[STAMBUFFERSOCKET]` array with its two offsets and two counts. The array is a
memory indexed by position, so that a write past its end is expressible. -/
structure Buffer where
  data : Nat → UInt8
  wOffset : Nat
  rOffset : Nat
  bytesToReceive : Nat
  bytesToSend : Nat

namespace Buffer

/-- The values that the constructor and the two close functions give to the offsets. -/
def reset (b : Buffer) : Buffer :=
  { b with wOffset := 0, rOffset := 0, bytesToReceive := stamBufferSocket, bytesToSend := 0 }

/-- The `n` bytes at offset `off`. -/
def slice (b : Buffer) (off n : Nat) : List UInt8 :=
  (List.range n).map fun i => b.data (off + i)

/-- `recv` has put `bytes` at `wOffset`. -/
def write (b : Buffer) (bytes : List UInt8) : Buffer :=
  { b with data := fun i =>
      if b.wOffset ≤ i ∧ i < b.wOffset + bytes.length then bytes.getD (i - b.wOffset) 0
      else b.data i }

/-- Bookkeeping after a receive of `ret` bytes. -/
def received (b : Buffer) (ret : Nat) : Buffer :=
  { b with
    wOffset := b.wOffset + ret
    bytesToSend := b.bytesToSend + ret
    bytesToReceive := b.bytesToReceive - ret }

/-- Bookkeeping after a send of `ret` bytes; a drained buffer starts over. -/
def sent (b : Buffer) (ret : Nat) : Buffer :=
  let b := { b with rOffset := b.rOffset + ret, bytesToSend := b.bytesToSend - ret }
  if b.wOffset ≠ 0 ∧ b.bytesToSend = 0 then
    { b with rOffset := 0, wOffset := 0, bytesToReceive := stamBufferSocket }
  else b

end Buffer

/-- `bufferForServer` holds what the client sent, `bufferForClient` what the server sent.
`pjq` tells whether the queue pointer is set. -/
structure ConnectionPeer where
  bufferForServer : Buffer
  bufferForClient : Buffer
  pjq : Bool
  pinfo : Option Ptr
  pServerConnected : Bool
  pServer : Option Socket
  pClient : Option Socket
  trace : List Event

namespace ConnectionPeer

/-- The constructor; `memory` is what the uninitialised arrays hold. -/
def create (memory : Endpoint → Nat → UInt8) (pcli psrv : Option Socket) (jq : Bool)
    (info : Option Ptr) : ConnectionPeer where
  bufferForServer := Buffer.reset ⟨memory .server, 0, 0, 0, 0⟩
  bufferForClient := Buffer.reset ⟨memory .client, 0, 0, 0, 0⟩
  pjq := jq
  pinfo := info
  pServerConnected := false
  pServer := psrv
  pClient := pcli
  trace := []

/-- The pointer to the socket of an endpoint. -/
def socket (p : ConnectionPeer) : Endpoint → Option Socket
  | .client => p.pClient
  | .server => p.pServer

/-- The buffer whose bytes go to an endpoint. -/
def bufferFor (p : ConnectionPeer) : Endpoint → Buffer
  | .client => p.bufferForClient
  | .server => p.bufferForServer

def setBufferFor (p : ConnectionPeer) (e : Endpoint) (b : Buffer) : ConnectionPeer :=
  match e with
  | .client => { p with bufferForClient := b }
  | .server => { p with bufferForServer := b }

def emit (p : ConnectionPeer) (ev : Event) : ConnectionPeer :=
  { p with trace := p.trace ++ [ev] }

/-- `if( pjq && pinfo ) pjq->post( id, pinfo )`. -/
def post (p : ConnectionPeer) (id : UInt32) : ConnectionPeer :=
  if p.pjq ∧ p.pinfo.isSome then p.emit (.post id) else p

def isActive (p : ConnectionPeer) : Bool :=
  p.pClient.isSome || p.pServer.isSome

/-! ## Closing -/

/-- Close and delete one socket and reset the buffer of its direction. -/
def drop (p : ConnectionPeer) (e : Endpoint) : ConnectionPeer :=
  let p := (p.emit (.close e)).setBufferFor e (p.bufferFor e).reset
  match e with
  | .client => { p with pClient := none }
  | .server => { p with pServer := none }

/-- `closeClient` and `closeServer` call each other. Each call clears one pointer before it
goes on, so that two nested calls are enough. -/
def closeNested : Nat → Endpoint → ConnectionPeer → ConnectionPeer
  | 0, _, p => p
  | n + 1, .client, p =>
      if p.pClient.isSome then
        let p := p.drop .client
        if p.pServer.isSome ∧ p.bufferForServer.bytesToSend = 0 then
          closeNested n .server p
        else if ¬p.pServerConnected then closeNested n .server p
        else p
      else p
  | n + 1, .server, p =>
      if p.pServer.isSome then
        let p := p.drop .server
        if p.pClient.isSome ∧ p.bufferForClient.bytesToSend = 0 then
          closeNested n .client p
        else p
      else p

/-- Close one endpoint; the other one follows as the source says. -/
def closeEndpoint (e : Endpoint) (p : ConnectionPeer) : ConnectionPeer := closeNested 2 e p

def closeClient (p : ConnectionPeer) : ConnectionPeer := p.closeEndpoint .client

def closeServer (p : ConnectionPeer) : ConnectionPeer := p.closeEndpoint .server

def close (p : ConnectionPeer) : ConnectionPeer := p.closeClient.closeServer

def closePInfo (pcheck : Option Ptr) (p : ConnectionPeer) : ConnectionPeer :=
  if pcheck = p.pinfo then p.close.post statusServerDisconnectedOk else p

/-! ## Moving bytes -/

/-- Common body of `getMissingDataFromClient` and `getMissingDataFromServer`: read from `e`
into the buffer of the other endpoint. `disconnected` and `lost` are the ids posted after a
graceful and after an unexpected end. -/
def getMissingDataFrom (e : Endpoint) (disconnected lost : ConnectionPeer → UInt32)
    (io : SocketIO) (p : ConnectionPeer) : ConnectionPeer :=
  let b := p.bufferFor e.other
  if (p.socket e).isSome ∧ b.bytesToReceive ≠ 0 then
    let r := io.receiveNB e b.bytesToReceive
    let p := p.emit (.receiveNB e b.wOffset b.bytesToReceive r.ret r.bytes)
    if 0 < r.ret then
      p.setBufferFor e.other ((b.write r.bytes).received r.ret.toNat)
    else if r.ret < 0 then
      if r.ret = -2 then (p.closeEndpoint e).post (disconnected p)
      else (p.closeEndpoint e).post (lost p)
    else p
  else p

/-- While the server is not connected yet, the end of the client is a failed connection. -/
def getMissingDataFromClient : SocketIO → ConnectionPeer → ConnectionPeer :=
  getMissingDataFrom .client
    (fun p => if p.pServerConnected then statusClientDisconnectedOk else statusConnectionFailed)
    (fun p => if p.pServerConnected then statusClientConnectionLost else statusConnectionFailed)

def getMissingDataFromServer : SocketIO → ConnectionPeer → ConnectionPeer :=
  getMissingDataFrom .server (fun _ => statusServerDisconnectedOk)
    (fun _ => statusServerConnectionLost)

/-- Common body of `sendMissingDataToClient` and `sendMissingDataToServer`. -/
def sendMissingDataTo (e : Endpoint) (disconnected lost : UInt32) (io : SocketIO)
    (p : ConnectionPeer) : ConnectionPeer :=
  let b := p.bufferFor e
  if (p.socket e).isSome ∧ b.bytesToSend ≠ 0 then
    let r := io.sendNB e b.bytesToSend
    let p := p.emit (.sendNB e (b.slice b.rOffset b.bytesToSend) r.ret)
    if 0 < r.ret then
      let b := b.sent r.ret.toNat
      let p := p.setBufferFor e b
      if (p.socket e.other).isNone ∧ b.bytesToSend = 0 then
        (p.closeEndpoint e).post statusPeerConnectionCancelled
      else p
    else if r.ret < 0 then
      if r.ret = -2 then (p.closeEndpoint e).post disconnected
      else (p.closeEndpoint e).post lost
    else p
  else p

def sendMissingDataToClient : SocketIO → ConnectionPeer → ConnectionPeer :=
  sendMissingDataTo .client statusClientDisconnectedOk statusClientConnectionLost

def sendMissingDataToServer : SocketIO → ConnectionPeer → ConnectionPeer :=
  sendMissingDataTo .server statusServerDisconnectedOk statusServerConnectionLost

/-! ## Public operations -/

/-- `ptr->isInFDSET( set )`, a fault when `ptr` is `NULL`. -/
def isInFDSET (p : ConnectionPeer) (ptr : Option Socket) (set : FdSet) :
    Except ConnectionPeer Bool :=
  match ptr with
  | some s => .ok (s.isInFDSET set)
  | none => .error p

/-- The branch of `manageConnectingPeer` for two open sockets. -/
def connectBoth (setr setw : FdSet) (io : SocketIO) (p : ConnectionPeer) :
    Except ConnectionPeer (Bool × ConnectionPeer) := do
  let readable ← p.isInFDSET p.pClient setr
  let p := if readable then p.getMissingDataFromClient io else p
  if p.pServer.isSome then
    let writable ← p.isInFDSET p.pServer setw
    if writable then
      return (true, { p with pServerConnected := true }.post statusConnectionEstablished)
    else return (false, p)
  else return (false, p)

/-- The branch of `manageConnectingPeer` for at most one open socket. -/
def connectSingle (setw : FdSet) (io : SocketIO) (p : ConnectionPeer) :
    Except ConnectionPeer (Bool × ConnectionPeer) := do
  let (ret, p) ←
    if p.pClient.isSome then do
      let writable ← p.isInFDSET p.pClient setw
      let p := if writable then p.sendMissingDataToClient io else p
      if p.bufferForClient.bytesToSend = 0 then
        pure (true, p.closeClient.post statusPeerConnectionCancelled)
      else pure (false, p)
    else pure (false, p)
  if p.pServer.isSome then
    return (false, p.closeServer.post statusPeerConnectionCancelled)
  else return (ret, p)

/-- True if the peer status changed. -/
def manageConnectingPeer (setr setw : FdSet) (io : SocketIO) (p : ConnectionPeer) :
    Except ConnectionPeer (Bool × ConnectionPeer) :=
  if p.pClient.isSome ∧ p.pServer.isSome then p.connectBoth setr setw io
  else p.connectSingle setw io

/-- First half of `manageConnections` for two open sockets: from the client to the server. -/
def relayFromClient (setr setw : FdSet) (io : SocketIO) (p : ConnectionPeer) :
    Except ConnectionPeer ConnectionPeer := do
  let readable ← p.isInFDSET p.pClient setr
  if readable then
    return (p.getMissingDataFromClient io).sendMissingDataToServer io
  else
    let writable ← p.isInFDSET p.pServer setw
    if writable then return p.sendMissingDataToServer io else return p

/-- Second half: from the server to the client. -/
def relayFromServer (setr setw : FdSet) (io : SocketIO) (p : ConnectionPeer) :
    Except ConnectionPeer ConnectionPeer := do
  if p.pServer.isSome then
    let readable ← p.isInFDSET p.pServer setr
    if readable then
      return (p.getMissingDataFromServer io).sendMissingDataToClient io
    else
      let writable ← p.isInFDSET p.pClient setw
      if writable then return p.sendMissingDataToClient io else return p
  else return p

/-- Drain what is left for an endpoint whose counterpart is gone, then close it. -/
def drainSingle (e : Endpoint) (send : SocketIO → ConnectionPeer → ConnectionPeer)
    (setw : FdSet) (io : SocketIO) (p : ConnectionPeer) :
    Except ConnectionPeer ConnectionPeer := do
  if (p.socket e).isSome then
    let writable ← p.isInFDSET (p.socket e) setw
    let p := if writable then send io p else p
    if (p.bufferFor e).bytesToSend = 0 then
      return (p.closeEndpoint e).post statusPeerConnectionCancelled
    else return p
  else return p

def manageConnections (setr setw : FdSet) (io : SocketIO) (p : ConnectionPeer) :
    Except ConnectionPeer ConnectionPeer :=
  if p.pClient.isSome ∧ p.pServer.isSome then do
    let p ← p.relayFromClient setr setw io
    p.relayFromServer setr setw io
  else do
    let p ← p.drainSingle .client sendMissingDataToClient setw io
    p.drainSingle .server sendMissingDataToServer setw io

/-- Common part of `checkPeers` and `checkConnectingPeers`, which differ in their traces
only: check one socket and close it on an error. -/
def checkEndpoint (e : Endpoint) (lost : UInt32) (io : SocketIO) (p : ConnectionPeer) :
    ConnectionPeer :=
  if (p.socket e).isSome then
    let p := p.emit (.checkSocket e (io.checkSocket e))
    if io.checkSocket e < 0 then (p.closeEndpoint e).post lost else p
  else p

def checkPeers (io : SocketIO) (p : ConnectionPeer) : ConnectionPeer :=
  (p.checkEndpoint .server statusServerConnectionLost io).checkEndpoint .client
    statusClientConnectionLost io

def checkConnectingPeers (io : SocketIO) (p : ConnectionPeer) : ConnectionPeer :=
  (p.checkEndpoint .server statusServerConnectionLost io).checkEndpoint .client
    statusClientConnectionLost io

/-! ## Registration -/

/-- `if( ptr && bytes ) ptr->addToFDSET( set, p_max_fd )`. -/
def addIfBytes (ptr : Option Socket) (bytes : Nat) (set : FdSet) (maxFd : Int) : FdSet × Int :=
  match ptr with
  | some s => if bytes ≠ 0 then s.addToFDSET set maxFd else (set, maxFd)
  | none => (set, maxFd)

/-- An endpoint is read from while there is room for what it sends. -/
def addToFDSETR (p : ConnectionPeer) (set : FdSet) (maxFd : Int) : FdSet × Int :=
  let (set, maxFd) := addIfBytes p.pClient p.bufferForServer.bytesToReceive set maxFd
  addIfBytes p.pServer p.bufferForClient.bytesToReceive set maxFd

/-- An endpoint is written to while something is pending for it. -/
def addToFDSETW (p : ConnectionPeer) (set : FdSet) (maxFd : Int) : FdSet × Int :=
  let (set, maxFd) := addIfBytes p.pClient p.bufferForClient.bytesToSend set maxFd
  addIfBytes p.pServer p.bufferForServer.bytesToSend set maxFd

/-- While connecting: the client for reading and the server for writing. -/
def addToFDSETC (p : ConnectionPeer) (setr setw : FdSet) (maxFd : Int) : FdSet × FdSet × Int :=
  let (setr, maxFd) := addIfBytes p.pClient p.bufferForServer.bytesToReceive setr maxFd
  match p.pServer with
  | some s =>
      let (setw, maxFd) := s.addToFDSET setw maxFd
      (setr, setw, maxFd)
  | none => (setr, setw, maxFd)

/-! ## Runs -/

/-- A call of a public operation with everything it reads from outside. -/
inductive Op
  | manageConnectingPeer (setr setw : FdSet) (io : SocketIO)
  | manageConnections (setr setw : FdSet) (io : SocketIO)
  | checkPeers (io : SocketIO)
  | checkConnectingPeers (io : SocketIO)
  | closePInfo (pcheck : Option Ptr)

/-- One public operation, with the peer it leaves behind. -/
def perform (p : ConnectionPeer) : Op → Except ConnectionPeer ConnectionPeer
  | .manageConnectingPeer setr setw io => (p.manageConnectingPeer setr setw io).map Prod.snd
  | .manageConnections setr setw io => p.manageConnections setr setw io
  | .checkPeers io => .ok (p.checkPeers io)
  | .checkConnectingPeers io => .ok (p.checkConnectingPeers io)
  | .closePInfo pcheck => .ok (p.closePInfo pcheck)

/-- A peer just built. -/
def Created (p : ConnectionPeer) : Prop :=
  ∃ memory pcli psrv jq info, p = create memory pcli psrv jq info

/-- The peers that public operations can lead to, in any order and with any answers of the
outside, as long as no operation faults. -/
def Reachable : ConnectionPeer → Prop :=
  Reach (fun p op p' => p.perform op = .ok p') anyStep Created

/-- The ids posted so far, in order. -/
def posted (p : ConnectionPeer) : List UInt32 :=
  p.trace.filterMap fun ev =>
    match ev with
    | .post id => some id
    | _ => none

end ConnectionPeer

end Relb
