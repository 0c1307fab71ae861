import Mathlib.Logic.Function.Basic
import Relb.Model.ServerList
import Relb.Model.ThreadedConnectionManager
/-!
# The balancer: `ServerList`, its queue and its managers

Accepted clients enter through `setServer`; the managers drive their peers; the messages of
the peers and the requests of the web admin go through one queue, which `ServerList` empties
in order; tasks clean and purge. Each of these runs alone. Which manager is free is left
open, and a manager exists from the start with empty lists.
-/

namespace Relb

open Lib

structure Balancer where
  list : ServerList
  managers : ManagerId → ThreadedConnectionManager
  queue : List Message

namespace Balancer

def create (list : ServerList) : Balancer := ⟨list, fun _ => .create, []⟩

/-- The calls of `closePInfo` that an operation of `ServerList` has made reach the managers. -/
def passRequests (b : Balancer) : Balancer where
  list := { b.list with closeRequests := [] }
  managers := fun m =>
    (b.list.closeRequests.filter (·.1 == m)).foldl (fun t r => t.closePInfo r.2) (b.managers m)
  queue := b.queue

def setManager (b : Balancer) (m : ManagerId) (t : ThreadedConnectionManager) : Balancer :=
  { b with managers := Function.update b.managers m t }

/-- `setServer`, for an accepted socket; `sock` is the descriptor of the socket to the server,
`memory` what the buffers of the new peer hold. -/
def setServer (b : Balancer) (pClient : Socket) (pcm : ManagerId) (now : Datetime)
    (addr parallelAddr : Ptr) (sock : Int) (memory : Endpoint → Nat → UInt8) : Balancer :=
  let r := b.list.getServer pClient.ip pClient.port (some pcm) now addr parallelAddr
  let b := passRequests { b with list := r.1 }
  match r.2 with
  | some pinfo =>
      let pServer : Socket := ⟨sock, pinfo.dstIp, pinfo.dstPort⟩
      let cpeer := ConnectionPeer.create memory (some pClient) (some pServer) true (some pinfo.addr)
      b.setManager pcm ((b.managers pcm).addConnectionPeer cpeer)
  | none => b

/-- The first message of the queue. -/
def processMessage (b : Balancer) (now : Datetime) : Option Balancer :=
  match b.queue with
  | [] => none
  | msg :: queue =>
      some (passRequests { b with list := b.list.processMessage msg now, queue := queue })

/-- A kick or a ban from the web admin. -/
def adminRequest (b : Balancer) (msg : Message) : Option Balancer :=
  if msg.id ∈ [statusPeerConnectionKicked, statusPeerConnectionBanThis,
      statusPeerConnectionBanAll] then
    some { b with queue := b.queue ++ [msg] }
  else none

inductive Op
  | setServer (pClient : Socket) (pcm : ManagerId) (now : Datetime) (addr parallelAddr : Ptr)
      (sock : Int) (memory : Endpoint → Nat → UInt8)
  | processMessage (now : Datetime)
  | adminRequest (msg : Message)
  | cleanConnections
  | purgeConnections (now : Datetime)
  | manager (m : ManagerId) (op : ThreadedConnectionManager.Op)

def perform (b : Balancer) : Op → Option Balancer
  | .setServer pClient pcm now addr parallelAddr sock memory =>
      some (b.setServer pClient pcm now addr parallelAddr sock memory)
  | .processMessage now => b.processMessage now
  | .adminRequest msg => b.adminRequest msg
  | .cleanConnections => some (passRequests { b with list := b.list.cleanConnections })
  | .purgeConnections now => some (passRequests { b with list := b.list.purgeConnections now })
  | .manager m op =>
      ((b.managers m).perform op).map fun r =>
        { b.setManager m r.1 with queue := b.queue ++ r.2 }

/-- A balancer just started. -/
def Started (b : Balancer) : Prop := ∃ list, ServerList.Configured list ∧ b = create list

/-- The states of the runs whose steps all meet `guard`. -/
def ReachableBy (guard : Balancer → Op → Prop) : Balancer → Prop :=
  Reach (fun b op b' => b.perform op = some b') guard Started

end Balancer

end Relb
