import Relb.Lib.Handles
import Relb.Model.ConnectionPeer
/-!
# `Socket` over the system calls

`Model.Socket` is what the users of a `Socket` see of it. Here are its methods with the system calls
that they make on the descriptor, and with `sock`, which is `-1` behind a close. The results of the
calls come from outside. The trace of a `ConnectionPeer` is a list of method calls on its two
`Socket` objects; `execute` lets the objects answer them.
-/

namespace Relb

open Lib

/-- `accept` and `socket` give a descriptor out, `recv`, `send` and `select` use it, and
`closesocket` gives it back. -/
abbrev SystemCall := HandleOp Int

/-- What `recv` and `send` return: a count, or an error that is `EAGAIN` or `EWOULDBLOCK`, or
another one. -/
inductive Transfer
  | done (n : Nat)
  | wouldBlock
  | failed
  deriving DecidableEq, Repr

namespace Socket

/-- What has been called before a constructor, or in it. -/
def opened (s : Socket) : List SystemCall := if 0 ≤ s.sock then [.acquire s.sock] else []

def close (s : Socket) : Socket × List SystemCall :=
  if s.sock > 0 then ({ s with sock := -1 }, [.release s.sock]) else (s, [])

/-- `~Socket`. -/
def destroy (s : Socket) : List SystemCall := s.close.2

/-- Common body of `receiveNB` and `sendNB`: the result, the object and the calls. -/
def transferNB (answer : Transfer) (s : Socket) : Int × Socket × List SystemCall :=
  if s.sock > 0 then
    match answer with
    | .wouldBlock => (0, s, [.use s.sock])
    | .failed => (-1, s.close.1, .use s.sock :: s.close.2)
    | .done 0 => (-2, s.close.1, .use s.sock :: s.close.2)
    | .done (n + 1) => (n + 1, s, [.use s.sock])
  else (-1, s, [])

def receiveNB : Transfer → Socket → Int × Socket × List SystemCall := transferNB

def sendNB : Transfer → Socket → Int × Socket × List SystemCall := transferNB

/-- A `select` on the descriptor alone. -/
def checkSocket (answer : Int) (s : Socket) : Int × List SystemCall :=
  if s.sock > 0 then (answer, [.use s.sock]) else (-1, [])

end Socket

/-- The answer behind a result of `receiveNB` or `sendNB`. -/
def Transfer.ofRet (ret : Int) : Option Transfer :=
  if ret = 0 then some .wouldBlock
  else if ret = -1 then some .failed
  else if ret = -2 then some (.done 0)
  else if 0 < ret then some (.done ret.toNat)
  else none

/-- The objects that `pClient` and `pServer` point to. -/
abbrev SocketObjects := Endpoint → Option Socket

namespace Event

/-- Common part of `receiveNB` and `sendNB`. -/
def transfer (method : Transfer → Socket → Int × Socket × List SystemCall) (objs : SocketObjects)
    (e : Endpoint) (ret : Int) : Option (SocketObjects × List SystemCall) :=
  (objs e).bind fun s => (Transfer.ofRet ret).bind fun answer =>
    let r := method answer s
    if r.1 = ret then some (Function.update objs e (some r.2.1), r.2.2) else none

/-- What a method call of the trace does: the objects behind it, and the system calls. There is no
result if no object can have answered so. -/
def execute (objs : SocketObjects) : Event → Option (SocketObjects × List SystemCall)
  | .receiveNB e _ _ ret _ => transfer Socket.receiveNB objs e ret
  | .sendNB e _ ret => transfer Socket.sendNB objs e ret
  | .checkSocket e ret =>
      (objs e).bind fun s =>
        if (s.checkSocket ret).1 = ret then some (objs, (s.checkSocket ret).2) else none
  | .close e =>
      -- `close()` and then `delete`
      (objs e).map fun s => (Function.update objs e none, s.close.2 ++ s.close.1.destroy)
  | .post _ => some (objs, [])

/-- A whole trace. -/
def executeAll (objs : SocketObjects) (trace : List Event) :
    Option (SocketObjects × List SystemCall) :=
  trace.foldlM (fun x ev => (ev.execute x.1).map fun y => (y.1, x.2 ++ y.2)) (objs, [])

end Event

namespace ConnectionPeer

/-- What happens to a peer: its operations, and its end. -/
inductive LifeOp
  | perform (op : Op)
  | destroy

/-- `~ConnectionPeer` closes both sockets, and finds nothing to delete behind that. -/
def live (p : ConnectionPeer) : LifeOp → Except ConnectionPeer ConnectionPeer
  | .perform op => p.perform op
  | .destroy => .ok p.close

end ConnectionPeer

end Relb
