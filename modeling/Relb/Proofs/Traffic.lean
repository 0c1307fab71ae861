import Relb.Proofs.Accounts
import Relb.Proofs.Assignment
/-!
# Legal traffic

`ServerList` among connections that keep to the lifecycle: a connection is announced by
`getServer`, reports that it is established and then one end, or that it has failed. It may
also cancel, which counts for nothing. `new` returns addresses that nobody uses.
-/

namespace Relb

open Lib

open ConnectionPeer (Report report)

/-- A connection that has not ended. -/
structure Connection where
  addr : Ptr
  established : Bool
  deriving DecidableEq, Repr

structure Traffic where
  list : ServerList
  connections : List Connection

namespace Traffic

/-- `getServer`, and the connection to the server that it returns. -/
def connect (t : Traffic) (clientIp : IpAddress) (clientPort : UInt16) (pcm : Option ManagerId)
    (now : Datetime) (addr parallelAddr : Ptr) : Option Traffic :=
  if (∀ q ∈ t.list.peerList, q.addr ≠ addr) ∧ (∀ c ∈ t.connections, c.addr ≠ addr) ∧
      t.list.parallels parallelAddr = none then
    let r := t.list.getServer clientIp clientPort pcm now addr parallelAddr
    some ⟨r.1, t.connections ++ r.2.toList.map fun q => ⟨q.addr, false⟩⟩
  else none

/-- What is left of the connections when the one in place `i` has sent `id`; `none` if it may
not send it. -/
def after (connections : List Connection) (i : Nat) (c : Connection) (id : UInt32) :
    Option (List Connection) :=
  match report id, c.established with
  | some .established, false => some (connections.set i ⟨c.addr, true⟩)
  | some .failed, false => some (connections.eraseIdx i)
  | some .ended, true => some (connections.eraseIdx i)
  | none, _ => if id = statusPeerConnectionCancelled then some connections else none
  | _, _ => none

/-- `processMessage`, for a message of the connection in place `i`. -/
def message (t : Traffic) (i : Nat) (id : UInt32) (now : Datetime) : Option Traffic :=
  match t.connections[i]? with
  | none => none
  | some c =>
      (after t.connections i c id).map fun connections =>
        ⟨t.list.processMessage ⟨id, c.addr⟩ now, connections⟩

inductive Op
  | connect (clientIp : IpAddress) (clientPort : UInt16) (pcm : Option ManagerId)
      (now : Datetime) (addr parallelAddr : Ptr)
  | message (i : Nat) (id : UInt32) (now : Datetime)
  | cleanConnections
  | purgeConnections (now : Datetime)

def perform (t : Traffic) : Op → Option Traffic
  | .connect clientIp clientPort pcm now addr parallelAddr =>
      t.connect clientIp clientPort pcm now addr parallelAddr
  | .message i id now => t.message i id now
  | .cleanConnections => some { t with list := t.list.cleanConnections }
  | .purgeConnections now => some { t with list := t.list.purgeConnections now }

def Started (t : Traffic) : Prop := ServerList.Configured t.list ∧ t.connections = []

/-- The states of the runs whose steps all meet `guard`. -/
def ReachableBy (guard : Traffic → Op → Prop) : Traffic → Prop :=
  Reach (fun t op t' => t.perform op = some t') guard Started

variable {t t' : Traffic} {c : Connection} {id : UInt32} {now : Datetime} {i : Nat}

/-- A message that a connection may send is a cancellation, its establishment or its end. -/
theorem message_cases (hop : t.message i id now = some t') :
    ∃ c, t.connections[i]? = some c ∧ t'.list = t.list.processMessage ⟨id, c.addr⟩ now ∧
      (id = statusPeerConnectionCancelled ∧ t'.connections = t.connections ∨
        report id = some .established ∧ c.established = false ∧
          t'.connections = t.connections.set i ⟨c.addr, true⟩ ∨
        (report id = some .failed ∧ c.established = false ∨
            report id = some .ended ∧ c.established = true) ∧
          t'.connections = t.connections.eraseIdx i) := by
  unfold message at hop
  cases hc : t.connections[i]? with
  | none => simp [hc] at hop
  | some c =>
      simp only [hc, Option.map_eq_some_iff] at hop
      obtain ⟨connections, hafter, rfl⟩ := hop
      refine ⟨c, rfl, rfl, ?_⟩
      unfold after at hafter
      split at hafter
      · rename_i hr hest
        exact .inr (.inl ⟨hr, hest, (Option.some.inj hafter).symm⟩)
      · rename_i hr hest
        exact .inr (.inr ⟨.inl ⟨hr, hest⟩, (Option.some.inj hafter).symm⟩)
      · rename_i hr hest
        exact .inr (.inr ⟨.inr ⟨hr, hest⟩, (Option.some.inj hafter).symm⟩)
      · split at hafter
        · rename_i hid
          exact .inl ⟨hid, (Option.some.inj hafter).symm⟩
        · cases hafter
      · cases hafter

end Traffic

end Relb
