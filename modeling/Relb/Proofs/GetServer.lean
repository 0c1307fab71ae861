import Relb.Proofs.ServerListBasics
/-!
# The three ways of `getServer`

A valid session of the client is reused or re-created, and only a client without one is
given a server by the selection. `Outcome` lists what a call may do, and after
`getServer_outcome` nothing looks into the search and the selection again.
-/

namespace Relb

open Lib

namespace ServerList

variable {s : ServerList} {q : PeerInfo} {clientIp : IpAddress} {clientPort : UInt16}
  {pcm : Option ManagerId} {now : Datetime} {addr parallelAddr : Ptr}

/-! ## Sessions -/

theorem lastServerWithIp_spec {ip : IpAddress} {n i : Nat}
    (h : s.lastServerWithIp ip n = some i) :
    ∃ srv, s.serversList[i]? = some srv ∧ srv.ip = ip := by
  induction n with
  | zero => cases h
  | succ n ih =>
      unfold lastServerWithIp at h
      split at h
      · rename_i hn
        obtain rfl := Option.some.inj h
        obtain ⟨srv, hsrv, hip⟩ := (Option.any_eq_true _ _).mp hn
        exact ⟨srv, hsrv, by simpa using hip⟩
      · exact ih h

theorem sessionServer_spec {i : Nat} (h : s.sessionServer q now = some i) :
    q.status.toUInt32 ≠ statusConnectionFailed ∧
      ∃ srv, s.serversList[i]? = some srv ∧ srv.ip = q.dstIp := by
  unfold sessionServer at h
  split at h
  · rename_i hstatus
    refine ⟨hstatus, ?_⟩
    split at h
    · cases h
    · rename_i j hj
      split at h
      · cases h
      · obtain rfl := Option.some.inj h
        exact lastServerWithIp_spec hj
  · cases h

theorem sessionServer_of_no_servers (h : s.serversList = []) : s.sessionServer q now = none := by
  unfold sessionServer
  rw [h]
  split <;> rfl

/-- The entry `q` in place `peer` is a valid session of the client. -/
structure ValidSession (s : ServerList) (clientIp : IpAddress) (now : Datetime)
    (peer server : Nat) (q : PeerInfo) : Prop where
  found : s.peerList[peer]? = some q
  client : q.srcIp = clientIp
  server : s.sessionServer q now = some server

/-- No entry of the client is a valid session, as far as sessions count. -/
def NoSession (s : ServerList) (clientIp : IpAddress) (now : Datetime) : Prop :=
  s.reconnectLostSessions = true →
    ∀ q ∈ s.peerList, q.srcIp = clientIp → s.sessionServer q now = none

/-- What the search may answer. -/
def ScanCorrect (s : ServerList) (clientIp : IpAddress) (clientPort : UInt16) (now : Datetime)
    (rest : List PeerInfo) (lost : Option (Nat × Nat)) : SessionScan → Prop
  | .nothing => lost = none ∧ ∀ q ∈ rest, q.srcIp = clientIp → s.sessionServer q now = none
  | .lost peer server => ∃ q, s.ValidSession clientIp now peer server q
  | .reuse peer server => ∃ q, s.ValidSession clientIp now peer server q ∧ q.srcPort = clientPort

theorem ScanCorrect.skip {rest : List PeerInfo} {lost : Option (Nat × Nat)} {found : SessionScan}
    (h : s.ScanCorrect clientIp clientPort now rest lost found)
    (hq : q.srcIp = clientIp → s.sessionServer q now = none) :
    s.ScanCorrect clientIp clientPort now (q :: rest) lost found := by
  cases found with
  | nothing => exact ⟨h.1, List.forall_mem_cons.mpr ⟨hq, h.2⟩⟩
  | lost peer server => exact h
  | reuse peer server => exact h

theorem ScanCorrect.chosen {rest : List PeerInfo} {lost : Option (Nat × Nat)} {x : Nat × Nat}
    {found : SessionScan} (h : s.ScanCorrect clientIp clientPort now rest (some x) found) :
    s.ScanCorrect clientIp clientPort now (q :: rest) lost found := by
  cases found with
  | nothing => exact absurd h.1 (Option.some_ne_none x)
  | lost peer server => exact h
  | reuse peer server => exact h

theorem scanSessions_correct {rest : List PeerInfo} {i : Nat} {lost : Option (Nat × Nat)}
    (hrest : s.peerList.drop i = rest)
    (hlost : ∀ peer server, lost = some (peer, server) →
      ∃ q, s.ValidSession clientIp now peer server q) :
    s.ScanCorrect clientIp clientPort now rest lost
      (s.scanSessions clientIp clientPort now rest i lost) := by
  induction rest generalizing i lost with
  | nil =>
      cases lost with
      | none => exact ⟨rfl, by simp⟩
      | some x => exact hlost x.1 x.2 rfl
  | cons q rest ih =>
      have hi : s.peerList[i]? = some q := by
        rw [← List.head?_drop, hrest]
        rfl
      have hnext : s.peerList.drop (i + 1) = rest := by
        rw [← List.tail_drop, hrest]
        rfl
      unfold scanSessions
      by_cases hclient : q.srcIp = clientIp
      · rw [if_pos hclient]
        cases hserver : s.sessionServer q now with
        | none => exact (ih hnext hlost).skip fun _ => hserver
        | some server =>
            have hvalid : s.ValidSession clientIp now i server q := ⟨hi, hclient, hserver⟩
            dsimp only
            by_cases hport : q.srcPort = clientPort
            · rw [if_pos hport]
              exact ⟨q, hvalid, hport⟩
            · rw [if_neg hport]
              have hchosen : ∀ x, (∃ q, s.ValidSession clientIp now x.1 x.2 q) →
                  s.ScanCorrect clientIp clientPort now (q :: rest) lost
                    (s.scanSessions clientIp clientPort now rest (i + 1) (some x)) := by
                intro x hx
                have hscan : s.ScanCorrect clientIp clientPort now rest (some x)
                    (s.scanSessions clientIp clientPort now rest (i + 1) (some x)) := by
                  apply ih hnext
                  intro peer server' heq
                  obtain rfl := Option.some.inj heq
                  exact hx
                exact hscan.chosen
              cases lost with
              | none => exact hchosen (i, server) ⟨q, hvalid⟩
              | some x =>
                  dsimp only
                  split
                  · exact hchosen (i, server) ⟨q, hvalid⟩
                  · exact hchosen (x.1, x.2) (hlost x.1 x.2 rfl)
      · rw [if_neg hclient]
        exact (ih hnext hlost).skip fun h => absurd h hclient

/-! ## Selection -/

/-- The candidate may be assigned. -/
def CandidateAllowed (s : ServerList) (clientIp : IpAddress) (next : Candidate) : Prop :=
  next.assigned = true →
    ∃ srv, s.serversList[next.server]? = some srv ∧ s.isServerAllowed srv.ip clientIp = true

theorem CandidateAllowed.inRange {next : Candidate} (h : s.CandidateAllowed clientIp next)
    (hassigned : next.assigned = true) : ¬next.server ≥ s.serversList.length := by
  obtain ⟨srv, hsrv, -⟩ := h hassigned
  exact Nat.not_le.mpr (List.getElem?_eq_some_iff.mp hsrv).1

theorem candidateAllowed_inspectServer {next : Candidate} (current : Nat) (notAvailable : Bool)
    (h : s.CandidateAllowed clientIp next) :
    s.CandidateAllowed clientIp (s.inspectServer clientIp current notAvailable next) := by
  unfold inspectServer
  split
  · exact h
  · rename_i srv hsrv
    dsimp only
    by_cases hallowed : s.isServerAllowed srv.ip clientIp = true
    · rw [if_pos hallowed]
      generalize (if s.inspectedLoad srv = 0 ∧ next.index = 0 then
        !next.assigned || decide (srv.weight > next.weight)
        else !next.assigned || decide (s.inspectedLoad srv < next.index)) = better
      split
      · exact fun _ => ⟨srv, hsrv, hallowed⟩
      · exact h
    · rw [if_neg hallowed]
      exact h

theorem candidateAllowed_scanServers (last : Nat) (notAvailable : ServerInfo → Bool)
    (fuel current : Nat) {next : Candidate} (h : s.CandidateAllowed clientIp next) :
    s.CandidateAllowed clientIp
      (s.scanServers clientIp last notAvailable fuel current next).2 := by
  induction fuel generalizing current next with
  | zero => exact h
  | succ fuel ih =>
      unfold scanServers
      split
      · exact h
      · exact ih _ (candidateAllowed_inspectServer _ _ h)

theorem candidateAllowed_selectServer {last : Nat} {first : ServerInfo}
    (hfirst : s.serversList[last]? = some first) :
    s.CandidateAllowed clientIp (s.selectServer clientIp now last first) := by
  unfold selectServer
  dsimp only
  have hstart : s.CandidateAllowed clientIp ⟨last, first.weight, s.defaultLoad first,
      first.notAvailable s.serverRetryMilliseconds now, s.isServerAllowed first.ip clientIp⟩ :=
    fun hassigned => ⟨first, hfirst, hassigned⟩
  have hscan := candidateAllowed_scanServers last
    (·.notAvailable s.serverRetryMilliseconds now) s.serversList.length
    (s.nextIndex last) hstart
  split
  · exact hscan
  · exact candidateAllowed_scanServers _ _ _ _ hscan

/-! ## The session directory after an assignment -/

theorem modifyServer_modifyServer (s : ServerList) (i : Nat) (f g : ServerInfo → ServerInfo) :
    (s.modifyServer i f).modifyServer i g = s.modifyServer i (g ∘ f) := by
  simp [modifyServer, List.modify_modify_eq]

theorem foldl_forget (l : List PeerInfo) (s : ServerList) (server : Nat) :
    l.foldl (fun s x => s.modifyServer server (·.forget x)) s =
      s.modifyServer server fun srv => l.foldl ServerInfo.forget srv := by
  induction l generalizing s with
  | nil =>
      have hsame : s.serversList.modify server id = s.serversList := List.modify_id server _
      exact congrArg (fun l => { s with serversList := l }) hsame.symm
  | cons x l ih =>
      rw [List.foldl_cons, ih, modifyServer_modifyServer]
      rfl

theorem address_foldl_forget (l : List PeerInfo) (srv : ServerInfo) :
    (l.foldl ServerInfo.forget srv).address = srv.address :=
  foldl_keeps (f := ServerInfo.address) ServerInfo.address_forget l srv

/-- The server that gets the session of a client back, whose entries `gone` are dropped. -/
def recreatedServer (gone : List PeerInfo) (srv : ServerInfo) : ServerInfo :=
  gone.foldl ServerInfo.forget srv.startConnecting

@[simp] theorem address_recreatedServer (gone : List PeerInfo) (srv : ServerInfo) :
    (recreatedServer gone srv).address = srv.address := address_foldl_forget gone _

/-- The state after a session of the client has been re-created as the entry `q`. -/
def afterRecreation (s : ServerList) (server : Nat) (clientIp : IpAddress) (q : PeerInfo)
    (parallelAddr : Ptr) : ServerList :=
  ((s.modifyServer server (recreatedServer (s.peerList.filter (isLostOf clientIp)))).filterPeers
    fun x => !isLostOf clientIp x).addPeer q parallelAddr

theorem recreateSession_eq {peer server : Nat} (hq : s.peerList[peer]? = some q)
    (hclient : q.srcIp = clientIp) :
    s.recreateSession peer server clientIp clientPort pcm now addr parallelAddr =
      (s.afterRecreation server clientIp
        (newPeer clientIp clientPort q.dstIp q.dstPort pcm now addr) parallelAddr,
      some (s.withParallel (newPeer clientIp clientPort q.dstIp q.dstPort pcm now addr)
        parallelAddr)) := by
  simp only [recreateSession, hq, if_pos hclient, foldl_forget, modifyServer_modifyServer]
  rfl

theorem peerList_afterRecreation (s : ServerList) (server : Nat) (clientIp : IpAddress)
    (q : PeerInfo) (parallelAddr : Ptr) :
    (s.afterRecreation server clientIp q parallelAddr).peerList =
      s.peerList.filter (fun x => !isLostOf clientIp x) ++ [s.withParallel q parallelAddr] := by
  rw [afterRecreation, peerList_addPeer]
  rfl

theorem serversList_afterRecreation (s : ServerList) (server : Nat) (clientIp : IpAddress)
    (q : PeerInfo) (parallelAddr : Ptr) :
    (s.afterRecreation server clientIp q parallelAddr).serversList =
      s.serversList.modify server (recreatedServer (s.peerList.filter (isLostOf clientIp))) := by
  rw [afterRecreation, serversList_addPeer]
  rfl

/-- The state after the entry `q` of the client has been armed again. -/
def afterReuse (s : ServerList) (peer server : Nat) (q : PeerInfo) (clientPort : UInt16)
    (pcm : Option ManagerId) (now : Datetime) : ServerList :=
  (((s.closePInfo q.manager none).modifyServer server ServerInfo.startConnecting).modifyPeer
    peer (·.rearm clientPort pcm now)).postParallel
      (q.rearm clientPort pcm now).status.toUInt32 q.parallel

theorem peerList_afterReuse (s : ServerList) (peer server : Nat) (q : PeerInfo)
    (clientPort : UInt16) (pcm : Option ManagerId) (now : Datetime) :
    (s.afterReuse peer server q clientPort pcm now).peerList =
      s.peerList.modify peer (·.rearm clientPort pcm now) := by
  simp [afterReuse]

theorem serversList_afterReuse (s : ServerList) (peer server : Nat) (q : PeerInfo)
    (clientPort : UInt16) (pcm : Option ManagerId) (now : Datetime) :
    (s.afterReuse peer server q clientPort pcm now).serversList =
      s.serversList.modify server ServerInfo.startConnecting := by
  simp [afterReuse]

theorem reuseSession_eq {peer server : Nat} (hq : s.peerList[peer]? = some q) :
    s.reuseSession peer server clientPort pcm now =
      (s.afterReuse peer server q clientPort pcm now, some (q.rearm clientPort pcm now)) := by
  simp only [reuseSession, hq]
  rfl

/-- The state after a server has been selected and the entry `q` made for it. -/
def afterAssignment (s : ServerList) (server : Nat) (q : PeerInfo) (parallelAddr : Ptr) :
    ServerList :=
  (({ s with lastServerAssigned := server }).modifyServer server
    ServerInfo.startConnecting).addPeer q parallelAddr

theorem peerList_afterAssignment (s : ServerList) (server : Nat) (q : PeerInfo)
    (parallelAddr : Ptr) :
    (s.afterAssignment server q parallelAddr).peerList =
      s.peerList ++ [s.withParallel q parallelAddr] := by
  rw [afterAssignment, peerList_addPeer]
  rfl

theorem serversList_afterAssignment (s : ServerList) (server : Nat) (q : PeerInfo)
    (parallelAddr : Ptr) :
    (s.afterAssignment server q parallelAddr).serversList =
      s.serversList.modify server ServerInfo.startConnecting := by
  rw [afterAssignment, serversList_addPeer]
  rfl

/-! ## All of `getServer` -/

/-- The server on whose account a call would put its connection, and where the connection
would go. -/
def assignment (s : ServerList) (clientIp : IpAddress) (clientPort : UInt16) (now : Datetime) :
    Option (Nat × IpAddress × UInt16) :=
  let session :=
    if s.serversList.isEmpty then none
    else if s.reconnectLostSessions then
      match s.scanSessions clientIp clientPort now s.peerList 0 none with
      | .nothing => none
      | .lost peer server => s.peerList[peer]?.map fun q => (server, q.dstIp, q.dstPort)
      | .reuse peer server => s.peerList[peer]?.map fun q => (server, q.dstIp, q.dstPort)
    else none
  match session with
  | some x => some x
  | none =>
      let last := s.nextIndex s.lastServerAssigned
      s.serversList[last]?.bind fun first =>
        let next := s.selectServer clientIp now last first
        if next.assigned then
          s.serversList[next.server]?.map fun srv => (next.server, srv.ip, srv.port)
        else none

def reusedPeer (s : ServerList) (clientIp : IpAddress) (clientPort : UInt16) (now : Datetime) :
    Option PeerInfo :=
  if s.reconnectLostSessions then
    match s.scanSessions clientIp clientPort now s.peerList 0 none with
    | .reuse peer _ => s.peerList[peer]?
    | _ => none
  else none

theorem mem_of_reusedPeer (h : s.reusedPeer clientIp clientPort now = some q) :
    q ∈ s.peerList := by
  unfold reusedPeer at h
  split at h
  · split at h
    · exact List.mem_of_getElem? h
    · cases h
  · cases h

/-- What a call of `getServer` does. -/
inductive Outcome (s : ServerList) (clientIp : IpAddress) (clientPort : UInt16)
    (pcm : Option ManagerId) (now : Datetime) (addr parallelAddr : Ptr) :
    ServerList × Option PeerInfo → Prop
  | refused (last : Nat) : s.NoSession clientIp now →
      s.assignment clientIp clientPort now = none →
      Outcome s clientIp clientPort pcm now addr parallelAddr
        ({ s with lastServerAssigned := last }, none)
  | reused {peer server : Nat} {q : PeerInfo} :
      s.ValidSession clientIp now peer server q → q.srcPort = clientPort →
      s.reusedPeer clientIp clientPort now = some q →
      s.assignment clientIp clientPort now = some (server, q.dstIp, q.dstPort) →
      Outcome s clientIp clientPort pcm now addr parallelAddr
        (s.afterReuse peer server q clientPort pcm now, some (q.rearm clientPort pcm now))
  | recreated {peer server : Nat} {q : PeerInfo} :
      s.ValidSession clientIp now peer server q →
      s.assignment clientIp clientPort now = some (server, q.dstIp, q.dstPort) →
      Outcome s clientIp clientPort pcm now addr parallelAddr
        (s.afterRecreation server clientIp
          (newPeer clientIp clientPort q.dstIp q.dstPort pcm now addr) parallelAddr,
        some (s.withParallel (newPeer clientIp clientPort q.dstIp q.dstPort pcm now addr)
          parallelAddr))
  | assigned {last : Nat} {srv : ServerInfo} : s.NoSession clientIp now →
      s.serversList[last]? = some srv → s.isServerAllowed srv.ip clientIp = true →
      s.assignment clientIp clientPort now = some (last, srv.ip, srv.port) →
      Outcome s clientIp clientPort pcm now addr parallelAddr
        (s.afterAssignment last
          (newPeer clientIp clientPort srv.ip srv.port pcm now addr) parallelAddr,
        some (s.withParallel (newPeer clientIp clientPort srv.ip srv.port pcm now addr)
          parallelAddr))

/-- A client without a valid session is refused, or gets a new entry for an allowed server. -/
theorem assignServer_outcome (hnone : s.NoSession clientIp now)
    (hassignment : s.assignment clientIp clientPort now =
      s.serversList[s.nextIndex s.lastServerAssigned]?.bind fun first =>
        let next := s.selectServer clientIp now (s.nextIndex s.lastServerAssigned) first
        if next.assigned then
          s.serversList[next.server]?.map fun srv => (next.server, srv.ip, srv.port)
        else none) :
    s.Outcome clientIp clientPort pcm now addr parallelAddr
      (s.assignServer clientIp clientPort pcm now addr parallelAddr) := by
  unfold assignServer
  dsimp only at hassignment ⊢
  generalize s.nextIndex s.lastServerAssigned = last at hassignment ⊢
  cases hfirst : s.serversList[last]? with
  | none =>
      rw [hfirst] at hassignment
      exact .refused last hnone hassignment
  | some first =>
      have hallowed : s.CandidateAllowed clientIp (s.selectServer clientIp now last first) :=
        candidateAllowed_selectServer hfirst
      rw [hfirst, Option.bind_some] at hassignment
      dsimp only
      generalize s.selectServer clientIp now last first = next at hallowed hassignment ⊢
      by_cases hassigned : next.assigned = true
      · obtain ⟨srv, hsrv, hok⟩ := hallowed hassigned
        rw [if_pos hassigned, hsrv] at hassignment
        rw [if_pos hassigned, if_neg (hallowed.inRange hassigned), hsrv]
        exact .assigned hnone hsrv hok hassignment
      · rw [if_neg hassigned] at hassignment
        rw [if_neg hassigned]
        exact .refused last hnone hassignment

theorem getServer_outcome (s : ServerList) (clientIp : IpAddress) (clientPort : UInt16)
    (pcm : Option ManagerId) (now : Datetime) (addr parallelAddr : Ptr) :
    s.Outcome clientIp clientPort pcm now addr parallelAddr
      (s.getServer clientIp clientPort pcm now addr parallelAddr) := by
  have hscan : s.ScanCorrect clientIp clientPort now s.peerList none
      (s.scanSessions clientIp clientPort now s.peerList 0 none) :=
    scanSessions_correct rfl (by simp)
  have hassignment : s.assignment clientIp clientPort now =
      s.assignment clientIp clientPort now := rfl
  conv_rhs at hassignment => unfold assignment
  unfold getServer
  split
  · rename_i hempty
    have hservers : s.serversList = [] := by simpa using hempty
    refine .refused s.lastServerAssigned (fun _ q _ _ => sessionServer_of_no_servers hservers) ?_
    rw [hassignment, if_pos hempty, hservers]
    rfl
  · rename_i hempty
    rw [if_neg hempty] at hassignment
    by_cases hrec : s.reconnectLostSessions = true
    · have hreused : s.reusedPeer clientIp clientPort now = s.reusedPeer clientIp clientPort now :=
        rfl
      conv_rhs at hreused => unfold reusedPeer
      rw [if_pos hrec] at hassignment hreused ⊢
      revert hscan hassignment hreused
      cases s.scanSessions clientIp clientPort now s.peerList 0 none with
      | nothing =>
          intro hscan hassignment _
          exact assignServer_outcome (fun _ => hscan.2) hassignment
      | lost peer server =>
          rintro ⟨q, hq⟩ hassignment _
          dsimp only at hassignment ⊢
          rw [hq.found] at hassignment
          rw [recreateSession_eq hq.found hq.client]
          exact .recreated hq hassignment
      | reuse peer server =>
          rintro ⟨q, hq, hport⟩ hassignment hreused
          dsimp only at hassignment ⊢
          rw [hq.found] at hassignment
          rw [reuseSession_eq hq.found]
          exact .reused hq hport (hreused.trans hq.found) hassignment
    · rw [if_neg hrec] at hassignment ⊢
      exact assignServer_outcome (fun h => absurd h hrec) hassignment

theorem Outcome.sameConfig {r : ServerList × Option PeerInfo}
    (h : s.Outcome clientIp clientPort pcm now addr parallelAddr r) : s.SameConfig r.1 := by
  cases h with
  | refused last hnone hassign => exact .of_eq rfl rfl rfl
  | @reused peer server q =>
      have hstart : s.SameConfig ((s.closePInfo q.manager none).modifyServer server
          ServerInfo.startConnecting) :=
        (SameConfig.closePInfo s _ _).trans (.modifyServer _ _ ServerInfo.address_startConnecting)
      exact hstart.trans (.of_eq (by simp [afterReuse]) (by simp [afterReuse])
        (by simp [afterReuse]))
  | @recreated peer server q =>
      have hserver : s.SameConfig (s.modifyServer server
          (recreatedServer (s.peerList.filter (isLostOf clientIp)))) :=
        .modifyServer s server (address_recreatedServer _)
      exact hserver.trans (.of_eq (by simp [afterRecreation]) (by simp [afterRecreation])
        (by simp [afterRecreation]))
  | @assigned last srv =>
      have hserver : s.SameConfig (s.modifyServer last ServerInfo.startConnecting) :=
        .modifyServer s last ServerInfo.address_startConnecting
      exact hserver.trans (.of_eq (by simp [afterAssignment, modifyServer])
        (by simp [afterAssignment, modifyServer]) (by simp [afterAssignment, modifyServer]))

theorem Outcome.allServers {P : ServerInfo → Prop} {r : ServerList × Option PeerInfo}
    (h : s.Outcome clientIp clientPort pcm now addr parallelAddr r) (hs : s.AllServers P)
    (hstart : ∀ srv, P srv → P srv.startConnecting)
    (hforget : ∀ srv (q : PeerInfo), P srv → P (srv.forget q)) : r.1.AllServers P := by
  cases h with
  | refused last hnone hassign => exact hs.of_eq rfl
  | @reused peer server q =>
      have hclosed : (s.closePInfo q.manager none).AllServers P := hs.of_eq (by simp)
      exact (hclosed.modifyServer server hstart).of_eq (by simp [afterReuse])
  | @recreated peer server q =>
      have hfold : ∀ (l : List PeerInfo) srv, P srv → P (l.foldl ServerInfo.forget srv) :=
        fun l _ h => List.foldlRecOn l ServerInfo.forget h fun srv hsrv x _ => hforget srv x hsrv
      have hserver : (s.modifyServer server
          (recreatedServer (s.peerList.filter (isLostOf clientIp)))).AllServers P :=
        hs.modifyServer server fun srv h => hfold _ _ (hstart srv h)
      exact hserver.of_eq (by simp [afterRecreation])
  | @assigned last srv =>
      exact (hs.modifyServer last hstart).of_eq (by simp [afterAssignment, modifyServer])

/-- A property of entries that a reconnection keeps and that new entries have holds of the whole
directory and of the entry returned. -/
theorem Outcome.allPeers {P : PeerInfo → Prop} {r : ServerList × Option PeerInfo}
    (h : s.Outcome clientIp clientPort pcm now addr parallelAddr r) (hs : s.AllPeers P)
    (hrearm : ∀ q, P q → P (q.rearm clientPort pcm now))
    (hrecreated : ∀ q ∈ s.peerList, q.srcIp = clientIp →
      P (s.withParallel (newPeer clientIp clientPort q.dstIp q.dstPort pcm now addr)
        parallelAddr))
    (hassigned : ∀ srv ∈ s.serversList, s.NoSession clientIp now →
      s.isServerAllowed srv.ip clientIp = true →
      P (s.withParallel (newPeer clientIp clientPort srv.ip srv.port pcm now addr)
        parallelAddr)) :
    r.1.AllPeers P ∧ ∀ q, r.2 = some q → P q := by
  cases h with
  | refused last hnone hassign => exact ⟨hs, fun q hq => (nomatch hq)⟩
  | @reused peer server p hvalid hport hreused hassign =>
      refine ⟨?_, ?_⟩
      · intro q hq
        have hmem : q ∈ s.peerList.modify peer (·.rearm clientPort pcm now) := by
          rwa [peerList_afterReuse] at hq
        exact forall_mem_modify hs (fun b hb => hrearm b (hs b hb)) q hmem
      · intro q hq
        obtain rfl := Option.some.inj hq
        exact hrearm p (hs p (List.mem_of_getElem? hvalid.found))
  | @recreated peer server p hvalid hassign =>
      have hnew := hrecreated p (List.mem_of_getElem? hvalid.found) hvalid.client
      refine ⟨?_, ?_⟩
      · intro q hq
        rw [peerList_afterRecreation, List.mem_append, List.mem_singleton] at hq
        rcases hq with hq | rfl
        · exact hs q (List.mem_of_mem_filter hq)
        · exact hnew
      · intro q hq
        obtain rfl := Option.some.inj hq
        exact hnew
  | @assigned last srv hnone hsrv hallowed hassign =>
      have hnew := hassigned srv (List.mem_of_getElem? hsrv) hnone hallowed
      refine ⟨?_, ?_⟩
      · intro q hq
        rw [peerList_afterAssignment, List.mem_append, List.mem_singleton] at hq
        rcases hq with hq | rfl
        · exact hs q hq
        · exact hnew
      · intro q hq
        obtain rfl := Option.some.inj hq
        exact hnew

theorem Outcome.returned {r : ServerList × Option PeerInfo}
    (h : s.Outcome clientIp clientPort pcm now addr parallelAddr r) (hq : r.2 = some q) :
    q.addr = addr ∨ ∃ p, s.reusedPeer clientIp clientPort now = some p ∧
      q = p.rearm clientPort pcm now := by
  cases h with
  | refused last hnone hassign => cases hq
  | @reused peer server p hvalid hport hreused hassign =>
      exact .inr ⟨p, hreused, (Option.some.inj hq).symm⟩
  | recreated hvalid hassign =>
      obtain rfl := Option.some.inj hq
      exact .inl (addr_withParallel _ _ _)
  | assigned hnone hsrv hallowed hassign =>
      obtain rfl := Option.some.inj hq
      exact .inl (addr_withParallel _ _ _)

theorem Outcome.listed {r : ServerList × Option PeerInfo}
    (h : s.Outcome clientIp clientPort pcm now addr parallelAddr r) {x : PeerInfo}
    (hx : x ∈ r.1.peerList) :
    (∃ p ∈ s.peerList, p.addr = x.addr ∧ p.route = x.route) ∨ r.2 = some x ∧ x.addr = addr := by
  cases h with
  | refused last hnone hassign => exact .inl ⟨x, hx, rfl, rfl⟩
  | @reused peer server p hvalid hport hreused hassign =>
      rw [peerList_afterReuse] at hx
      rcases mem_modify hx with hx | ⟨y, hy, rfl⟩
      · exact .inl ⟨x, List.mem_of_mem_eraseIdx hx, rfl, rfl⟩
      · exact .inl ⟨y, List.mem_of_getElem? hy, rfl, rfl⟩
  | recreated hvalid hassign =>
      rw [peerList_afterRecreation, List.mem_append, List.mem_singleton] at hx
      rcases hx with hx | rfl
      · exact .inl ⟨x, List.mem_of_mem_filter hx, rfl, rfl⟩
      · exact .inr ⟨rfl, addr_withParallel _ _ _⟩
  | assigned hnone hsrv hallowed hassign =>
      rw [peerList_afterAssignment, List.mem_append, List.mem_singleton] at hx
      rcases hx with hx | rfl
      · exact .inl ⟨x, hx, rfl, rfl⟩
      · exact .inr ⟨rfl, addr_withParallel _ _ _⟩

/-- A new address keeps the addresses distinct. -/
theorem Outcome.nodup {r : ServerList × Option PeerInfo}
    (h : s.Outcome clientIp clientPort pcm now addr parallelAddr r)
    (hnodup : (s.peerList.map PeerInfo.addr).Nodup) (hfresh : ∀ q ∈ s.peerList, q.addr ≠ addr) :
    (r.1.peerList.map PeerInfo.addr).Nodup := by
  have happend : ∀ (l : List PeerInfo) (q : PeerInfo), l.Sublist s.peerList → q.addr = addr →
      ((l ++ [q]).map PeerInfo.addr).Nodup := by
    intro l q hsub hq
    rw [List.map_append, List.nodup_append]
    refine ⟨hnodup.sublist (hsub.map _), List.nodup_singleton _, ?_⟩
    intro a ha b hb
    obtain ⟨x, hx, rfl⟩ := List.mem_map.mp ha
    rw [List.map_singleton, List.mem_singleton] at hb
    rw [hb, hq]
    exact hfresh x (hsub.subset hx)
  cases h with
  | refused last hnone hassign => exact hnodup
  | reused hvalid hport hreused hassign =>
      rw [peerList_afterReuse, map_modify (by intro q; rfl)]
      exact hnodup
  | recreated hvalid hassign =>
      rw [peerList_afterRecreation]
      exact happend _ _ List.filter_sublist (addr_withParallel _ _ _)
  | assigned hnone hsrv hallowed hassign =>
      rw [peerList_afterAssignment]
      exact happend _ _ (List.Sublist.refl _) (addr_withParallel _ _ _)

theorem Outcome.noSession {r : ServerList × Option PeerInfo}
    (h : s.Outcome clientIp clientPort pcm now addr parallelAddr r) (hr : r.2 = none) :
    s.NoSession clientIp now := by
  cases h with
  | refused last hnone hassign => exact hnone
  | reused => cases hr
  | recreated => cases hr
  | assigned => cases hr

theorem Outcome.srcIp {r : ServerList × Option PeerInfo}
    (h : s.Outcome clientIp clientPort pcm now addr parallelAddr r) (hq : r.2 = some q) :
    q.srcIp = clientIp := by
  have hnew : ∀ dstIp dstPort, (s.withParallel (newPeer clientIp clientPort dstIp dstPort pcm now
      addr) parallelAddr).srcIp = clientIp := by
    intro dstIp dstPort
    exact congrArg Prod.fst (route_withParallel s (newPeer clientIp clientPort dstIp dstPort pcm
      now addr) parallelAddr)
  cases h with
  | refused last hnone hassign => cases hq
  | reused hvalid hport hreused hassign =>
      obtain rfl := Option.some.inj hq
      exact hvalid.client
  | recreated hvalid hassign =>
      obtain rfl := Option.some.inj hq
      exact hnew _ _
  | assigned hnone hsrv hallowed hassign =>
      obtain rfl := Option.some.inj hq
      exact hnew _ _

end ServerList

end Relb
