import Relb.Model.AdminHTTPServer
import Relb.Model.Balancer
/-!
# A bind: the balancer and its web admin

The web admin posts its requests to the queue of `ServerList` and takes the announcements
and the forwarded messages from its own queue, `parallelList`.
-/

namespace Relb

open Lib

structure Bind where
  balancer : Balancer
  admin : AdminHTTPServer

namespace Bind

abbrev list (w : Bind) : ServerList := w.balancer.list

/-- The web admin takes the first message of its queue. -/
def receive (w : Bind) (now : Datetime) : Option Bind :=
  match w.list.parallelList with
  | some (msg :: queue) =>
      let r := w.admin.processMessage w.list.parallels msg now
      some ⟨{ w.balancer with
        list := { w.list with parallelList := some queue, parallels := r.2 } }, r.1⟩
  | _ => none

/-- `parallel_list_jq->post`, if the search has found an entry. -/
def post (w : Bind) (msg : Option Message) : Bind :=
  { w with balancer := { w.balancer with queue := w.balancer.queue ++ msg.toList } }

inductive Op
  | balancer (op : Balancer.Op)
  | receive (now : Datetime)
  | ban (ip : IpAddress) (port : UInt16)
  | banAll (ip : IpAddress) (port : UInt16)
  | kick (ip : IpAddress) (port : UInt16)

/-- The requests of the web admin come from its three pages only. -/
def perform (w : Bind) : Op → Option Bind
  | .balancer (.adminRequest _) => none
  | .balancer op => (w.balancer.perform op).map fun b => { w with balancer := b }
  | .receive now => w.receive now
  | .ban ip port => some (w.post (w.admin.ban w.list.parallels ip port))
  | .banAll ip port => some (w.post (w.admin.banAll w.list.parallels ip port))
  | .kick ip port => some (w.post (w.admin.kick w.list.parallels ip port))

/-- Start-up configures the same servers on both sides, whatever the clock. -/
structure Started (w : Bind) : Prop where
  balancer : w.balancer.Started
  peerList : w.admin.peerList = []
  serverList : w.admin.serverList.map (fun srv => { srv with lastConnectionAttempt := 0 }) =
    w.list.serversList.map fun srv => { srv with lastConnectionAttempt := 0 }

/-- The states of the runs whose steps all meet `guard`. -/
def ReachableBy (guard : Bind → Op → Prop) : Bind → Prop :=
  Reach (fun w op w' => w.perform op = some w') guard Started

end Bind

end Relb
