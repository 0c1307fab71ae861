import Relb.Lib.Circuit
import Relb.Model.ServerList
/-!
# The selection of a server, step by step

The part of `getServer` that `assignServer` models, once more as a program that can fail. There is
no result if `servers_list` is subscripted outside of the list, or if one of the two loops is not
over after `fuel` passes. The servers that are examined are kept, in order.
-/

namespace Relb

open Lib

namespace ServerList

/-- The variables of the selection and the values of `currentserver` so far. -/
structure Scan where
  next : Candidate
  examined : List Nat

/-- The server behind the last one assigned is the default candidate. -/
def startScan (s : ServerList) (clientIp : IpAddress) (now : Datetime) (last : Nat) :
    Option Scan :=
  s.serversList[last]?.map fun first => {
    next := {
      server := last
      weight := first.weight
      index := s.defaultLoad first
      notAvailable := first.notAvailable s.serverRetryMilliseconds now
      assigned := s.isServerAllowed first.ip clientIp }
    examined := [last] }

/-- One pass of a loop. -/
def examineServer (s : ServerList) (clientIp : IpAddress) (notAvailable : ServerInfo → Bool)
    (scan : Scan) (current : Nat) : Option Scan :=
  s.serversList[current]?.map fun srv => {
    next := s.inspectServer clientIp current (notAvailable srv) scan.next
    examined := scan.examined ++ [current] }

/-- `while( currentserver != last_server_assigned )`. -/
def scanFrom (s : ServerList) (clientIp : IpAddress) (last : Nat)
    (notAvailable : ServerInfo → Bool) (fuel current : Nat) (scan : Scan) : Option (Nat × Scan) :=
  whileNot last s.nextIndex (s.examineServer clientIp notAvailable) fuel current scan

/-- What the selection leaves: `server` is the one whose `connecting` is counted. -/
structure Selected where
  lastServerAssigned : Nat
  server : Option Nat
  examined : List Nat
  deriving DecidableEq, Repr

def runSelection (s : ServerList) (clientIp : IpAddress) (now : Datetime) (fuel : Nat) :
    Option Selected := do
  let last := s.nextIndex s.lastServerAssigned
  let scan ← s.startScan clientIp now last
  let (current, scan) ← s.scanFrom clientIp last
    (·.notAvailable s.serverRetryMilliseconds now) fuel (s.nextIndex last) scan
  -- the servers that are not available get a second chance
  let scan ←
    if scan.next.assigned then some scan
    else (s.scanFrom clientIp last (fun _ => false) fuel current scan).map Prod.snd
  if scan.next.assigned then
    let last := if scan.next.server ≥ s.serversList.length then 0 else scan.next.server
    let _ ← s.serversList[last]?
    return ⟨last, some last, scan.examined⟩
  else return ⟨last, none, scan.examined⟩

end ServerList

end Relb
