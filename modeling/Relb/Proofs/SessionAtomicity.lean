import Relb.Proofs.ReuseBooks
/-!
# A session that is re-created in two sections

`getServer` chooses the session of a client in one critical section and re-creates it in
another. In between the thread of `ServerList` may drop entries, and the place that was chosen
may hold another entry of the client by then. The second section compares the client only, so
it may count the new connection for a server that the new entry does not point to.
-/

namespace Relb

open Lib

def PeerInfo.dst (q : PeerInfo) : IpAddress × UInt16 := (q.dstIp, q.dstPort)

namespace ServerList

variable {s t : ServerList} {clientIp : IpAddress} {clientPort : UInt16} {pcm : Option ManagerId}
  {now now' : Datetime} {addr parallelAddr : Ptr} {x y : PeerInfo} {peer server : Nat}
  {between : List Op}

/-! ## The first section -/

/-- Whatever follows, the server that has been chosen is the one that the chosen entry points
to: nothing moves the servers. -/
theorem chosen_configured (hs : ReachableBy anyStep s)
    (hips : (s.serversList.map ServerInfo.ip).Nodup)
    (hvalid : s.ValidSession clientIp now peer server x) (between : List Op) :
    ∃ srv, (between.foldl perform s).serversList[server]? = some srv ∧ srv.address = x.dst := by
  have hpointed : s.Pointed := fun q hq => (configured_iff s q).mp (hs.allPermitted q hq).configured
  obtain ⟨i, dst, hdst, hisDst⟩ := exists_isDst hpointed (List.mem_of_getElem? hvalid.found)
  obtain rfl := hvalid.index_eq hips hdst hisDst
  have hconfig := SameConfig.foldl (f := perform) sameConfig_perform between s
  have hmap : ((between.foldl perform s).serversList.map ServerInfo.address)[server]? =
      (s.serversList.map ServerInfo.address)[server]? := by rw [hconfig.addresses]
  rw [List.getElem?_map, List.getElem?_map, hdst] at hmap
  obtain ⟨srv, hsrv, hsame⟩ := Option.map_eq_some_iff.mp hmap
  exact ⟨srv, hsrv, hsame.trans ((ServerInfo.isDst_iff dst x).mp hisDst)⟩

/-! ## The second section -/

/-- If a new entry has been made, its connection is counted for the server it points to. -/
def CountedAtDst (t : ServerList) (r : ServerList × Option PeerInfo) : Prop :=
  ∀ p, r.2 = some p → ∀ (k : Nat) (srv srv' : ServerInfo), t.serversList[k]? = some srv →
    r.1.serversList[k]? = some srv' →
      srv'.connecting = srv.connecting + if srv.isDst p then 1 else 0

theorem connecting_recreatedServer (gone : List PeerInfo) (srv : ServerInfo) :
    (recreatedServer gone srv).connecting = srv.connecting + 1 :=
  congrFun (counter_recreatedServer gone) Phase.connecting

theorem isDst_recreated (t : ServerList) (y : PeerInfo) (srv : ServerInfo) :
    srv.isDst (t.withParallel (newPeer clientIp clientPort y.dstIp y.dstPort pcm now addr)
      parallelAddr) = srv.isDst y := by
  have hroute := route_withParallel t
    (newPeer clientIp clientPort y.dstIp y.dstPort pcm now addr) parallelAddr
  rw [Bool.eq_iff_iff, ServerInfo.isDst_iff, ServerInfo.isDst_iff, (Prod.mk.inj hroute).2]
  rfl

/-- The connection of a new entry is counted for the server that has been chosen. -/
theorem countedAtDst_afterRecreation (hnodup : (t.serversList.map ServerInfo.address).Nodup)
    {srv : ServerInfo} (hsrv : t.serversList[server]? = some srv)
    (hy : t.peerList[peer]? = some y) (hclient : y.srcIp = clientIp) :
    t.CountedAtDst (t.recreateSession peer server clientIp clientPort pcm now addr
        parallelAddr) ↔ srv.isDst y = true := by
  rw [recreateSession_eq hy hclient]
  constructor
  · intro h
    have hcounted := h _ rfl server srv _ hsrv (by
      rw [serversList_afterRecreation, List.getElem?_modify_eq, hsrv]
      rfl)
    rw [connecting_recreatedServer, isDst_recreated] at hcounted
    by_contra hother
    rw [if_neg hother] at hcounted
    omega
  · intro hself p hp k other other' hother hother'
    obtain rfl := Option.some.inj hp
    rw [serversList_afterRecreation] at hother'
    rw [eq_of_getElem?_modify hother hother', isDst_recreated]
    by_cases hk : server = k
    · subst hk
      obtain rfl := Option.some.inj (hsrv.symm.trans hother)
      rw [if_pos rfl, connecting_recreatedServer, if_pos hself]
    · have hnot : ¬other.isDst y = true := fun hdst =>
        hk (index_eq_of_isDst hnodup hsrv hother hself hdst)
      rw [if_neg hk, if_neg hnot, Int.add_zero]

theorem countedAtDst_recreateSession (hnodup : (t.serversList.map ServerInfo.address).Nodup)
    {srv : ServerInfo} (hsrv : t.serversList[server]? = some srv) :
    t.CountedAtDst (t.recreateSession peer server clientIp clientPort pcm now addr
        parallelAddr) ↔
      ∀ y, t.peerList[peer]? = some y → y.srcIp = clientIp → srv.isDst y = true := by
  have hnothing : t.CountedAtDst (t, none) := by
    intro p hp
    cases hp
  cases hy : t.peerList[peer]? with
  | none =>
      have hnone : t.recreateSession peer server clientIp clientPort pcm now addr parallelAddr =
          (t, none) := by
        simp only [recreateSession, hy]
      rw [hnone]
      exact iff_of_true hnothing (by simp)
  | some y =>
      by_cases hclient : y.srcIp = clientIp
      · rw [countedAtDst_afterRecreation hnodup hsrv hy hclient]
        simp [hclient]
      · have hnone : t.recreateSession peer server clientIp clientPort pcm now addr parallelAddr =
            (t, none) := by
          simp only [recreateSession, hy, if_neg hclient]
        rw [hnone]
        exact iff_of_true hnothing (by simp [hclient])

/-- Whatever is run between the sections, the connection is counted for the server of the new
entry exactly if the entry that is in the place of the chosen one by then, if it is one of the
client, points where the chosen one does. -/
theorem recreation_counted (hs : ReachableBy anyStep s)
    (hips : (s.serversList.map ServerInfo.ip).Nodup)
    (hscan : s.scanSessions clientIp clientPort now s.peerList 0 none = .lost peer server)
    (between : List Op) (now' : Datetime) (addr parallelAddr : Ptr) :
    (between.foldl perform s).CountedAtDst
        ((between.foldl perform s).recreateSession peer server clientIp clientPort pcm now' addr
          parallelAddr) ↔
      ∀ x y, s.peerList[peer]? = some x → (between.foldl perform s).peerList[peer]? = some y →
        y.srcIp = clientIp → y.dst = x.dst := by
  have hchosen : s.ScanCorrect clientIp clientPort now s.peerList none
      (s.scanSessions clientIp clientPort now s.peerList 0 none) :=
    scanSessions_correct rfl (by simp)
  rw [hscan] at hchosen
  obtain ⟨x, hvalid⟩ := hchosen
  obtain ⟨srv, hsrv, haddress⟩ := chosen_configured hs hips hvalid between
  have hnodup : ((between.foldl perform s).serversList.map ServerInfo.address).Nodup := by
    rw [(SameConfig.foldl (f := perform) sameConfig_perform between s).addresses]
    exact nodup_address_of_ips hips
  have hisDst : ∀ y, srv.isDst y = true ↔ y.dst = x.dst := by
    intro y
    rw [ServerInfo.isDst_iff, haddress]
    exact eq_comm
  rw [countedAtDst_recreateSession hnodup hsrv]
  constructor
  · intro h x' y hx' hy hclient
    obtain rfl := Option.some.inj (hvalid.found.symm.trans hx')
    exact (hisDst y).mp (h y hy hclient)
  · intro h y hy hclient
    exact (hisDst y).mpr (h x y hvalid.found hy hclient)

namespace Sample

def client2 : IpAddress := ⟨192, 168, 0, 8⟩
def client3 : IpAddress := ⟨192, 168, 0, 7⟩

def bothServers : ServerList :=
  ((create 0).addServer server1 80 1 0 0).addServer server2 80 1 0 0

/-- The client has two connections: the first one to the second server, which was established
last, and then one to the first server. -/
def twoOfClient : ServerList :=
  [.getServer client3 4000 (some 1) 10 100 200, .getServer client2 4000 (some 1) 11 101 200,
    .getServer client 5000 (some 1) 12 102 200, .processMessage ⟨statusConnectionFailed, 101⟩ 13,
    .getServer client 5001 (some 1) 14 103 200,
    .processMessage ⟨statusConnectionEstablished, 103⟩ 20,
    .processMessage ⟨statusConnectionEstablished, 102⟩ 21].foldl perform bothServers

theorem reachable_twoOfClient : ReachableBy anyStep twoOfClient :=
  ReachableBy.foldl (.start (.addServer _ _ _ _ _ (.addServer _ _ _ _ _ (.create 0)))) _

def oneEnded : ServerList :=
  twoOfClient.perform (.processMessage ⟨statusClientDisconnectedOk, 102⟩ 31)

theorem length_oneEnded : 1 < oneEnded.serversList.length ∧ 2 < oneEnded.peerList.length := by
  decide +kernel

theorem scan_twoOfClient :
    twoOfClient.scanSessions client 5002 30 twoOfClient.peerList 0 none = .lost 2 1 := by
  decide +kernel

end Sample

theorem recreation_counted_alone :
    Sample.twoOfClient.CountedAtDst (Sample.twoOfClient.recreateSession 2 1 Sample.client 5002
      (some 1) 32 104 200) := by
  refine (recreation_counted Sample.reachable_twoOfClient (by decide +kernel)
    Sample.scan_twoOfClient [] 32 104 200).mpr fun x y hx hy _ => ?_
  rw [Option.some.inj (hy.symm.trans hx)]

/-- In between the chosen connection ends. The other entry of the client takes its place, and the
connection to the first server is counted for the second one. -/
theorem recreation_miscounted : ¬∀ (s : ServerList) clientIp clientPort pcm now now' peer server
    (between : List Op) addr parallelAddr, ReachableBy anyStep s →
      (s.serversList.map ServerInfo.ip).Nodup →
      s.scanSessions clientIp clientPort now s.peerList 0 none = .lost peer server →
      (∀ op ∈ between, (∃ msg now, op = .processMessage msg now) ∨ op = .cleanConnections) →
      (between.foldl perform s).CountedAtDst ((between.foldl perform s).recreateSession peer server
        clientIp clientPort pcm now' addr parallelAddr) := by
  intro h
  have hcounted := h Sample.twoOfClient Sample.client 5002 (some 1) 30 32 2 1
    [.processMessage ⟨statusClientDisconnectedOk, 102⟩ 31] 104 200 Sample.reachable_twoOfClient
    (by decide +kernel) Sample.scan_twoOfClient (by simp)
  have hdst := (countedAtDst_recreateSession (t := Sample.oneEnded) (by decide +kernel)
    (List.getElem?_eq_getElem Sample.length_oneEnded.1)).mp hcounted _
    (List.getElem?_eq_getElem Sample.length_oneEnded.2) (by decide +kernel)
  exact absurd hdst (by decide +kernel)

end ServerList

end Relb
