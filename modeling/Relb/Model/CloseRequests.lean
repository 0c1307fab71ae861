import Relb.Lib.Runs
import Relb.Model.ThreadedConnectionManager
/-!
# The close requests of `execute`, one step at a time

Other threads call `closePInfo` while a manager goes through its requests. Here each operation on
`to_be_closed` and each `closePInfo` of a peer is a step, and requests come in between any two of
them. `to_be_closed` only changes at its end, so its height tells a request from the others as long
as none is removed.

`offered` and `removed` are ghost logs: the requests that this scan has offered, by height, each
with the place of the peer; and all that have been removed, each with the places that it has not
been offered at.
-/

namespace Relb

open Lib

/-- The two lists of a manager, in the order of a scan. -/
inductive PeerKind
  | connected
  | connecting
  deriving DecidableEq, Repr

/-- An index into one of the lists. -/
structure PeerPlace where
  kind : PeerKind
  index : Nat
  deriving DecidableEq, Repr

/-- `i++`. -/
def PeerPlace.next (place : PeerPlace) : PeerPlace := ⟨place.kind, place.index + 1⟩

/-- Where the loop stands. -/
inductive ClosePoint
  /-- Before `to_be_closed.get_count()`. -/
  | count
  /-- Before the test of the index and `to_be_closed.top()`. -/
  | top (place : PeerPlace)
  /-- Before `closePInfo` of the peer, with what `top()` has returned. -/
  | offer (place : PeerPlace) (height : Nat) (pinfo : Option Ptr)
  /-- Before `to_be_closed.pop()`. -/
  | pop
  | ended
  deriving DecidableEq, Repr

structure CloseRequests where
  peerList : List ConnectionPeer
  connectingPeerList : List ConnectionPeer
  toBeClosed : List (Option Ptr)
  point : ClosePoint
  offered : List (Nat × PeerPlace)
  removed : List (Option Ptr × List PeerPlace)

namespace CloseRequests

/-- In front of the loop. -/
def start (peerList connectingPeerList : List ConnectionPeer) (toBeClosed : List (Option Ptr)) :
    CloseRequests := ⟨peerList, connectingPeerList, toBeClosed, .count, [], []⟩

/-- `peer_list` and `connecting_peer_list`. -/
def peers (s : CloseRequests) : PeerKind → List ConnectionPeer
  | .connected => s.peerList
  | .connecting => s.connectingPeerList

def setPeers (s : CloseRequests) (kind : PeerKind) (peers : List ConnectionPeer) :
    CloseRequests :=
  match kind with
  | .connected => { s with peerList := peers }
  | .connecting => { s with connectingPeerList := peers }

/-- `peer_list[i]->closePInfo( pinfo )`, and the same for the other list. -/
def closeAt (s : CloseRequests) (pinfo : Option Ptr) (place : PeerPlace) : CloseRequests :=
  s.setPeers place.kind ((s.peers place.kind).modify place.index (·.closePInfo pinfo))

/-- Behind the last peer of a list. -/
def behind : PeerKind → ClosePoint
  | .connected => .top ⟨.connecting, 0⟩
  | .connecting => .pop

/-- The places of the first `n` peers of a list. -/
def firstPlaces (kind : PeerKind) (n : Nat) : List PeerPlace :=
  (List.range n).map fun i => ⟨kind, i⟩

/-- The places of all peers, in the order of a scan. -/
def places (s : CloseRequests) : List PeerPlace :=
  firstPlaces .connected s.peerList.length ++ firstPlaces .connecting s.connectingPeerList.length

/-- The places at which this scan has not offered the request on top. -/
def missed (s : CloseRequests) : List PeerPlace :=
  s.places.filter fun place => (s.toBeClosed.length, place) ∉ s.offered

/-- The next step of the loop. -/
def advance (s : CloseRequests) : Except CloseRequests CloseRequests :=
  match s.point with
  | .count =>
      .ok { s with
        offered := []
        point := if 0 < s.toBeClosed.length then .top ⟨.connected, 0⟩ else .ended }
  | .top place =>
      if place.index < (s.peers place.kind).length then
        match s.toBeClosed.getLast? with
        | some pinfo => .ok { s with point := .offer place s.toBeClosed.length pinfo }
        | none => .error s
      else .ok { s with point := behind place.kind }
  | .offer place height pinfo =>
      .ok { s.closeAt pinfo place with
        offered := s.offered ++ [(height, place)]
        point := .top place.next }
  | .pop =>
      match s.toBeClosed.getLast? with
      | some pinfo =>
          .ok { s with
            toBeClosed := s.toBeClosed.dropLast
            removed := s.removed ++ [(pinfo, s.missed)]
            point := .count }
      | none => .error s
  | .ended => .ok s

inductive Op
  | advance
  /-- Another thread. -/
  | closePInfo (pinfo : Option Ptr)
  /-- The rest of an iteration of `execute`, with the lists that it leaves. -/
  | rest (peerList connectingPeerList : List ConnectionPeer)

/-- The rest of the iteration comes behind the loop. -/
def perform (s : CloseRequests) : Op → Except CloseRequests CloseRequests
  | .advance => s.advance
  | .closePInfo pinfo => .ok { s with toBeClosed := s.toBeClosed ++ [pinfo] }
  | .rest peerList connectingPeerList =>
      .ok (if s.point = .ended then
        { s with
          peerList := peerList
          connectingPeerList := connectingPeerList
          point := .count }
      else s)

/-- As the manager has it between two iterations. -/
def manager (s : CloseRequests) : ThreadedConnectionManager :=
  ⟨s.peerList, s.connectingPeerList, s.toBeClosed⟩

end CloseRequests

end Relb
