import Relb.Model.ServerScan
import Relb.Proofs.Selection
/-!
# The way around the servers

The loops of the selection stop where the cursor comes back to the starting server, which it left
before the first test, and the cursor is set back by hand at the end of the list. From any value of
`last_server_assigned` the first loop goes once around; the second one starts where it has to stop.
-/

namespace Relb

open Lib

namespace ServerList

variable {s : ServerList} {clientIp : IpAddress} {clientPort : UInt16} {pcm : Option ManagerId}
  {now : Datetime} {addr parallelAddr : Ptr} {first : ServerInfo} {last fuel : Nat} {scan : Scan}
  {notAvailable : ServerInfo → Bool}

/-! ## The loops -/

def Scan.pass (s : ServerList) (clientIp : IpAddress) (notAvailable : ServerInfo → Bool)
    (scan : Scan) (i : Nat) : Scan where
  next := s.inspectServer clientIp i (s.serversList[i]?.any notAvailable) scan.next
  examined := scan.examined ++ [i]

theorem examineServer_of_lt {i : Nat} (hi : i < s.serversList.length) (scan : Scan) :
    s.examineServer clientIp notAvailable scan i =
      some (scan.pass s clientIp notAvailable i) := by
  rw [examineServer, Scan.pass, List.getElem?_eq_getElem hi]
  rfl

theorem foldl_pass (places : List Nat) (scan : Scan) :
    places.foldl (Scan.pass s clientIp notAvailable) scan =
      ⟨places.foldl (fun next i =>
        s.inspectServer clientIp i (s.serversList[i]?.any notAvailable) next) scan.next,
        scan.examined ++ places⟩ := by
  induction places generalizing scan with
  | nil => rw [List.append_nil]; rfl
  | cons i places ih =>
      rw [List.foldl_cons, ih, List.foldl_cons, Scan.pass, List.append_assoc,
        List.singleton_append]

theorem scanFrom_next (hlast : last < s.serversList.length)
    (hfuel : s.serversList.length - 1 ≤ fuel) :
    s.scanFrom clientIp last notAvailable fuel (s.nextIndex last) scan =
      some (last, ⟨(s.scanServers clientIp last notAvailable s.serversList.length
        (s.nextIndex last) scan.next).2,
        scan.examined ++ scanOrder s.serversList.length last⟩) := by
  have hround := whileNot_around (s.examineServer clientIp notAvailable) hlast hfuel scan
  have hpasses : ∀ i ∈ scanOrder s.serversList.length last, ∀ scan : Scan,
      s.examineServer clientIp notAvailable scan i =
        some (scan.pass s clientIp notAvailable i) := by
    intro i hi scan
    rw [mem_scanOrder] at hi
    exact examineServer_of_lt (by omega) scan
  rw [rotate_range hlast, List.tail_cons, foldlM_eq_some hpasses, foldl_pass] at hround
  rw [scanServers_eq hlast]
  exact hround

theorem scanFrom_stop : s.scanFrom clientIp last notAvailable fuel last scan = some (last, scan) :=
  whileNot_stop s.nextIndex _ fuel last scan

/-! ## The selection -/

theorem selectServer_eq (hlast : last < s.serversList.length) :
    s.selectServer clientIp now last first =
      (s.scanServers clientIp last (·.notAvailable s.serverRetryMilliseconds now)
        s.serversList.length (s.nextIndex last) {
          server := last
          weight := first.weight
          index := s.defaultLoad first
          notAvailable := first.notAvailable s.serverRetryMilliseconds now
          assigned := s.isServerAllowed first.ip clientIp }).2 := by
  unfold selectServer
  simp only [scanServers_eq hlast, scanServers_again, ite_self]

/-- What the selection leaves if its variables end as `next`. -/
def Candidate.selected (s : ServerList) (next : Candidate) : Selected where
  lastServerAssigned := if next.assigned then next.server else s.startPlace
  server := if next.assigned then some next.server else none
  examined := (List.range s.serversList.length).rotate s.startPlace

theorem runSelection_eq (hfirst : s.serversList[s.startPlace]? = some first)
    (hfuel : s.serversList.length - 1 ≤ fuel) :
    s.runSelection clientIp now fuel =
      some ((s.selectServer clientIp now s.startPlace first).selected s) := by
  have hstart := (List.getElem?_eq_some_iff.mp hfirst).1
  have hallowed : s.CandidateAllowed clientIp (s.selectServer clientIp now s.startPlace first) :=
    candidateAllowed_selectServer hfirst
  rw [selectServer_eq hstart] at hallowed ⊢
  unfold runSelection startScan
  dsimp only
  rw [← startPlace, hfirst]
  simp only [Option.map_some, Option.bind_eq_bind, Option.bind_some, scanFrom_next hstart hfuel,
    scanFrom_stop, ite_self]
  rw [Candidate.selected, rotate_range hstart]
  generalize (s.scanServers clientIp s.startPlace _ _ _ _).2 = next at hallowed ⊢
  by_cases hassigned : next.assigned = true
  · obtain ⟨srv, hsrv, -⟩ := hallowed hassigned
    simp only [if_pos hassigned, if_neg (hallowed.inRange hassigned), hsrv, Option.bind_some]
    rfl
  · simp only [if_neg hassigned]
    rfl

theorem assignServer_selected (hfirst : s.serversList[s.startPlace]? = some first) :
    let r := s.assignServer clientIp clientPort pcm now addr parallelAddr
    let selected := (s.selectServer clientIp now s.startPlace first).selected s
    r.1.lastServerAssigned = selected.lastServerAssigned ∧
      r.1.serversList = match selected.server with
        | some i => s.serversList.modify i ServerInfo.startConnecting
        | none => s.serversList := by
  have hallowed : s.CandidateAllowed clientIp (s.selectServer clientIp now s.startPlace first) :=
    candidateAllowed_selectServer hfirst
  rw [startPlace] at hfirst hallowed
  unfold assignServer Candidate.selected startPlace
  dsimp only
  rw [hfirst]
  dsimp only
  generalize s.selectServer clientIp now _ first = next at hallowed ⊢
  by_cases hassigned : next.assigned = true
  · obtain ⟨srv, hsrv, -⟩ := hallowed hassigned
    simp only [if_pos hassigned, if_neg (hallowed.inRange hassigned), hsrv]
    exact ⟨lastServerAssigned_addPeer _ _ _, serversList_addPeer _ _ _⟩
  · simp only [if_neg hassigned, and_self]

/-- A selection that has been to all servers. -/
structure Selected.Complete (s : ServerList) (r : Selected) : Prop where
  /-- The starting server first, and every server once. -/
  starts : r.examined.head? = some s.startPlace
  once : r.examined.Perm (List.range s.serversList.length)
  /-- `currentserver` goes around. -/
  inOrder : r.examined = (List.range s.serversList.length).rotate s.startPlace
  /-- The servers examined, and the one that is counted. -/
  inRange : ∀ i ∈ r.examined ++ r.server.toList, i < s.serversList.length
  left : r.lastServerAssigned < s.serversList.length

theorem complete_selected (hfirst : s.serversList[s.startPlace]? = some first) :
    ((s.selectServer clientIp now s.startPlace first).selected s).Complete s := by
  have hstart := (List.getElem?_eq_some_iff.mp hfirst).1
  have hallowed : s.CandidateAllowed clientIp (s.selectServer clientIp now s.startPlace first) :=
    candidateAllowed_selectServer hfirst
  generalize s.selectServer clientIp now s.startPlace first = next at hallowed ⊢
  have hserver : next.assigned = true → next.server < s.serversList.length :=
    fun hassigned => Nat.not_le.mp (hallowed.inRange hassigned)
  refine ⟨?_, List.rotate_perm _ _, rfl, fun i hi => ?_, ?_⟩
  · rw [Candidate.selected, rotate_range hstart]
    rfl
  · rcases List.mem_append.mp hi with hi | hi
    · exact List.mem_range.mp (List.mem_rotate.mp hi)
    · rw [Option.mem_toList] at hi
      obtain ⟨hassigned, heq⟩ := Option.ite_none_right_eq_some.mp hi
      exact Option.some.inj heq ▸ hserver hassigned
  · rw [Candidate.selected]
    dsimp only
    split
    · rename_i hassigned
      exact hserver hassigned
    · exact hstart

/-! ## Values of `last_server_assigned` -/

section Frames

@[simp] theorem lastServerAssigned_postParallel (s : ServerList) (id : UInt32) (p : Option Ptr) :
    (s.postParallel id p).lastServerAssigned = s.lastServerAssigned := by
  unfold postParallel
  split <;> rfl

@[simp] theorem lastServerAssigned_closePInfo (s : ServerList) (m : Option ManagerId)
    (p : Option Ptr) : (s.closePInfo m p).lastServerAssigned = s.lastServerAssigned := by
  unfold closePInfo
  split <;> rfl

theorem lastServerAssigned_recordMessage (s : ServerList) (index : Nat) (q : PeerInfo)
    (id : UInt32) (now : Datetime) :
    (s.recordMessage index q id now).lastServerAssigned = s.lastServerAssigned := by
  unfold recordMessage modifyPeer
  split_ifs <;> simp

theorem lastServerAssigned_countMessage (s : ServerList) (index : Nat) (q : PeerInfo)
    (id : UInt32) (now : Datetime) :
    (s.countMessage index q id now).lastServerAssigned = s.lastServerAssigned := by
  have hend : (s.endConnection index q id now).lastServerAssigned = s.lastServerAssigned := by
    unfold endConnection
    split
    · rfl
    · dsimp only
      split <;> rfl
  have hestablish : (s.establishConnection q now).lastServerAssigned = s.lastServerAssigned := by
    unfold establishConnection
    split <;> rfl
  unfold countMessage
  dsimp only
  split_ifs
  · exact hend
  · exact hestablish
  · rfl

theorem lastServerAssigned_processMessage (s : ServerList) (msg : Message) (now : Datetime) :
    (s.processMessage msg now).lastServerAssigned = s.lastServerAssigned := by
  rcases processMessage_cases s msg now with ⟨-, hsame⟩ | ⟨index, pinfo, -, -, hprocess⟩
  · rw [hsame]
  · rw [hprocess, lastServerAssigned_countMessage, lastServerAssigned_recordMessage]

theorem lastServerAssigned_cleanConnections (s : ServerList) :
    s.cleanConnections.lastServerAssigned = s.lastServerAssigned := by
  refine foldl_keeps (f := lastServerAssigned) (fun s q => ?_) s.peerList _
  unfold cleanEntry cleanServer
  split_ifs
  · rw [lastServerAssigned_postParallel]
    split <;> rfl
  · rfl

theorem lastServerAssigned_purgeConnections (s : ServerList) (now : Datetime) :
    (s.purgeConnections now).lastServerAssigned = s.lastServerAssigned := by
  exact foldl_keeps (f := lastServerAssigned) (fun s _ => lastServerAssigned_closePInfo s _ _)
    s.peerList s

end Frames

theorem lastServerAssigned_assignServer_lt (hservers : s.serversList ≠ []) :
    (s.assignServer clientIp clientPort pcm now addr parallelAddr).1.lastServerAssigned <
      s.serversList.length := by
  have hfirst := List.getElem?_eq_getElem (nextIndex_lt hservers s.lastServerAssigned)
  rw [(assignServer_selected hfirst).1]
  exact (complete_selected hfirst).left

/-- A call that finds a session leaves it alone. -/
theorem lastServerAssigned_getServer (s : ServerList) (clientIp : IpAddress)
    (clientPort : UInt16) (pcm : Option ManagerId) (now : Datetime) (addr parallelAddr : Ptr) :
    (s.getServer clientIp clientPort pcm now addr parallelAddr).1.lastServerAssigned =
        s.lastServerAssigned ∨
      (s.getServer clientIp clientPort pcm now addr parallelAddr).1.lastServerAssigned <
        s.serversList.length := by
  have hscan : s.ScanCorrect clientIp clientPort now s.peerList none
      (s.scanSessions clientIp clientPort now s.peerList 0 none) :=
    scanSessions_correct rfl (by simp)
  unfold getServer
  split
  · exact .inl rfl
  · rename_i hempty
    have hservers : s.serversList ≠ [] := by simpa using hempty
    split
    · revert hscan
      cases s.scanSessions clientIp clientPort now s.peerList 0 none with
      | nothing => exact fun _ => .inr (lastServerAssigned_assignServer_lt hservers)
      | lost peer server =>
          rintro ⟨q, hq⟩
          dsimp only
          rw [recreateSession_eq hq.found hq.client]
          exact .inl (lastServerAssigned_addPeer _ _ _)
      | reuse peer server =>
          rintro ⟨q, hq, -⟩
          dsimp only
          rw [reuseSession_eq hq.found]
          left
          simp [afterReuse, modifyPeer, modifyServer]
    · exact .inr (lastServerAssigned_assignServer_lt hservers)

/-- The initial value, or the index of a server. -/
def LastInRange (s : ServerList) : Prop :=
  s.lastServerAssigned = 9999 ∨ s.lastServerAssigned < s.serversList.length

theorem LastInRange.perform (h : s.LastInRange) (op : Op) : (s.perform op).LastInRange := by
  have hcount : (s.perform op).serversList.length = s.serversList.length := by
    have haddresses := congrArg List.length (sameConfig_perform s op).addresses
    rwa [List.length_map, List.length_map] at haddresses
  have hlast : (s.perform op).lastServerAssigned = s.lastServerAssigned ∨
      (s.perform op).lastServerAssigned < s.serversList.length := by
    cases op with
    | getServer => exact lastServerAssigned_getServer s _ _ _ _ _ _
    | processMessage msg now => exact .inl (lastServerAssigned_processMessage s msg now)
    | cleanConnections => exact .inl (lastServerAssigned_cleanConnections s)
    | purgeConnections now => exact .inl (lastServerAssigned_purgeConnections s now)
  unfold LastInRange
  rw [hcount]
  rcases hlast with hsame | hlt
  · rw [hsame]
    exact h
  · exact .inr hlt

theorem ReachableBy.lastInRange (h : ReachableBy anyStep s) : s.LastInRange := by
  refine Reach.invariant (I := LastInRange) (fun s hs => .inl ?_) ?_ h
  · induction hs with
    | create now => rfl
    | addServer _ _ _ _ _ _ ih => exact ih
    | addFilter _ _ ih => exact ih
    | setServerRetry _ _ ih => exact ih
    | attachAdmin _ ih => exact ih
  · intro s op t hs _ hstep
    exact hstep ▸ hs.perform op

/-! ## All servers -/

/-- From any value of `last_server_assigned` the selection ends without a subscript outside of the
list, after one pass for each server but the starting one, and what it leaves is what the call
leaves. -/
theorem circular_scan_complete (hservers : s.serversList ≠ []) (clientIp : IpAddress)
    (clientPort : UInt16) (pcm : Option ManagerId) (now : Datetime) (addr parallelAddr : Ptr) :
    ∃ r : Selected, r.Complete s ∧
      (∀ fuel, s.serversList.length - 1 ≤ fuel → s.runSelection clientIp now fuel = some r) ∧
      (s.assignServer clientIp clientPort pcm now addr parallelAddr).1.lastServerAssigned =
        r.lastServerAssigned ∧
      (s.assignServer clientIp clientPort pcm now addr parallelAddr).1.serversList =
        match r.server with
        | some i => s.serversList.modify i ServerInfo.startConnecting
        | none => s.serversList := by
  have hfirst := List.getElem?_eq_getElem (nextIndex_lt hservers s.lastServerAssigned)
  exact ⟨_, complete_selected hfirst, fun fuel hfuel => runSelection_eq hfirst hfuel,
    assignServer_selected hfirst⟩

theorem circular_scan_complete_twoServers :
    Sample.twoServers.runSelection Sample.client 10 1 = some ⟨0, some 0, [0, 1]⟩ ∧
      ∃ r : Selected, r.Complete Sample.twoServers ∧
        (∀ fuel, Sample.twoServers.serversList.length - 1 ≤ fuel →
          Sample.twoServers.runSelection Sample.client 10 fuel = some r) ∧
        (Sample.twoServers.assignServer Sample.client 5000 (some 1) 10 100 200
          ).1.lastServerAssigned = r.lastServerAssigned ∧
        (Sample.twoServers.assignServer Sample.client 5000 (some 1) 10 100 200).1.serversList =
          match r.server with
          | some i => Sample.twoServers.serversList.modify i ServerInfo.startConnecting
          | none => Sample.twoServers.serversList :=
  ⟨by decide +kernel, circular_scan_complete (List.cons_ne_nil _ _) _ _ _ _ _ _⟩

end ServerList

end Relb
