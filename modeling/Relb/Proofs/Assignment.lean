import Relb.Proofs.GetServer
/-!
# Where a client may be sent

Only the selection consults the filters, and only the selection looks a server up in the
configuration; a session is copied from an earlier entry. Both facts about an entry depend on
its route and on the configuration alone, so they hold of every entry of every run.

The directory also keeps a client on one server. Until a connection fails, every session stays
valid: the selection is left for the clients without any entry.
-/

namespace Relb

open Lib

namespace ServerList

variable {s t : ServerList} {p q : PeerInfo} {msg : Message} {now : Datetime}

/-! ## Filters -/

/-- The filters let the client of an entry reach its server, and the server is configured. -/
structure Permitted (s : ServerList) (q : PeerInfo) : Prop where
  allowed : s.isServerAllowed q.dstIp q.srcIp = true
  configured : ∃ srv ∈ s.serversList, srv.ip = q.dstIp ∧ srv.port = q.dstPort

theorem configured_iff (s : ServerList) (q : PeerInfo) :
    (∃ srv ∈ s.serversList, srv.ip = q.dstIp ∧ srv.port = q.dstPort) ↔
      (q.dstIp, q.dstPort) ∈ s.serversList.map ServerInfo.address := by
  simp [ServerInfo.address]

theorem Permitted.sameConfig (h : s.Permitted q) (ht : s.SameConfig t) : t.Permitted q := by
  refine ⟨?_, ?_⟩
  · rw [isServerAllowed, ht.filterList]
    exact h.allowed
  · rw [configured_iff, ht.addresses, ← configured_iff]
    exact h.configured

theorem Permitted.of_route (h : s.Permitted p) (hroute : q.route = p.route) : s.Permitted q := by
  obtain ⟨hsrc, hdst⟩ := Prod.mk.inj hroute
  obtain ⟨hip, hport⟩ := Prod.mk.inj hdst
  refine ⟨?_, ?_⟩
  · rw [hip, hsrc]
    exact h.allowed
  · rw [hip, hport]
    exact h.configured

theorem sameConfig_perform (s : ServerList) (op : Op) : s.SameConfig (s.perform op) := by
  cases op with
  | getServer => exact (getServer_outcome s _ _ _ _ _ _).sameConfig
  | processMessage msg now => exact sameConfig_processMessage s msg now
  | cleanConnections => exact sameConfig_cleanConnections s
  | purgeConnections now => exact sameConfig_purgeConnections s now

theorem permitted_getServer (hs : s.AllPeers s.Permitted) (clientIp : IpAddress)
    (clientPort : UInt16) (pcm : Option ManagerId) (now : Datetime) (addr parallelAddr : Ptr) :
    (s.getServer clientIp clientPort pcm now addr parallelAddr).1.AllPeers s.Permitted ∧
      ∀ q, (s.getServer clientIp clientPort pcm now addr parallelAddr).2 = some q →
        s.Permitted q := by
  refine (getServer_outcome s _ _ _ _ _ _).allPeers hs ?_ ?_ ?_
  · exact fun q hq => hq.of_route rfl
  · intro q hq hclient
    apply (hs q hq).of_route
    rw [route_withParallel]
    exact congrArg (·, q.dstIp, q.dstPort) hclient.symm
  · intro srv hsrv _ hallowed
    have hnew : s.Permitted (newPeer clientIp clientPort srv.ip srv.port pcm now addr) :=
      ⟨hallowed, srv, hsrv, rfl, rfl⟩
    exact hnew.of_route (route_withParallel _ _ _)

theorem permitted_perform (hs : s.AllPeers s.Permitted) (op : Op) :
    (s.perform op).AllPeers (s.perform op).Permitted := by
  have hbefore : (s.perform op).AllPeers s.Permitted := by
    cases op with
    | getServer => exact (permitted_getServer hs _ _ _ _ _ _).1
    | processMessage msg now => exact hs.processMessage msg now fun q hq => hq.of_route rfl
    | cleanConnections => exact hs.cleanConnections
    | purgeConnections now => exact hs.purgeConnections now
  exact fun q hq => (hbefore q hq).sameConfig (sameConfig_perform s op)

/-! ## Start-up -/

/-- What start-up leaves: nothing has happened to any server. -/
structure Fresh (s : ServerList) : Prop where
  peerList : s.peerList = []
  reconnect : s.reconnectLostSessions = true
  servers : s.AllServers fun srv => srv.lastConnectionFailed = false ∧ srv.connected = 0 ∧
    srv.connecting = 0 ∧ srv.finished = 0 ∧ srv.disconnected = 0
  closeRequests : s.closeRequests = []
  queue : s.parallelList = none ∨ s.parallelList = some []

theorem Configured.fresh (h : Configured s) : s.Fresh := by
  induction h with
  | create now => exact ⟨rfl, rfl, fun srv h => absurd h List.not_mem_nil, rfl, .inl rfl⟩
  | @addServer s ip port weight maxConnections now _ ih =>
      refine ⟨ih.peerList, ih.reconnect, ?_, ih.closeRequests, ih.queue⟩
      intro srv hsrv
      rcases List.mem_append.mp hsrv with hsrv | hsrv
      · exact ih.servers srv hsrv
      · rw [List.mem_singleton.mp hsrv]
        exact ⟨rfl, rfl, rfl, rfl, rfl⟩
  | addFilter f _ ih => exact ⟨ih.peerList, ih.reconnect, ih.servers, ih.closeRequests, ih.queue⟩
  | setServerRetry seconds _ ih =>
      exact ⟨ih.peerList, ih.reconnect, ih.servers, ih.closeRequests, ih.queue⟩
  | attachAdmin _ ih => exact ⟨ih.peerList, ih.reconnect, ih.servers, ih.closeRequests, .inr rfl⟩

theorem ReachableBy.foldl (hs : ReachableBy anyStep s) (ops : List Op) :
    ReachableBy anyStep (ops.foldl perform s) := by
  induction ops generalizing s with
  | nil => exact hs
  | cons op ops ih => exact ih (.next hs trivial rfl)

theorem ReachableBy.allPermitted (hs : ReachableBy anyStep s) : s.AllPeers s.Permitted := by
  refine Reach.invariant (I := fun s => s.AllPeers s.Permitted) ?_ ?_ hs
  · intro s hs q hq
    rw [hs.fresh.peerList] at hq
    exact absurd hq List.not_mem_nil
  · intro s op t ih _ hstep
    rw [← hstep]
    exact permitted_perform ih op

/-- Every assignment passes the filters: those listed, and those handed to a connection. -/
theorem assignments_permitted (hs : ReachableBy anyStep s) :
    (∀ q ∈ s.peerList, s.Permitted q) ∧
      ∀ clientIp clientPort pcm now addr parallelAddr q,
        (s.getServer clientIp clientPort pcm now addr parallelAddr).2 = some q →
          s.Permitted q :=
  ⟨hs.allPermitted, fun _ _ _ _ _ _ => (permitted_getServer hs.allPermitted _ _ _ _ _ _).2⟩

namespace Sample

/-- A client and two servers; the second one has a limit. -/
def client : IpAddress := ⟨192, 168, 0, 9⟩
def server1 : IpAddress := ⟨10, 0, 0, 1⟩
def server2 : IpAddress := ⟨10, 0, 0, 2⟩

def twoServers : ServerList :=
  ((create 0).addServer server1 80 1 0 0).addServer server2 80 1 1 0

theorem configured_twoServers : Configured twoServers :=
  .addServer _ _ _ _ _ (.addServer _ _ _ _ _ (.create 0))

def oneAddress : IpAddress := ⟨255, 255, 255, 255⟩

def filtered : ServerList := twoServers.addFilter ⟨client, oneAddress, server1, oneAddress, false⟩

def connect : Op := .getServer client 5000 (some 1) 10 100 200

end Sample

theorem assignments_permitted_filtered :
    ((Sample.filtered.perform Sample.connect).peerList.map PeerInfo.route =
        [(Sample.client, Sample.server2, 80)]) ∧
      (∀ q ∈ (Sample.filtered.perform Sample.connect).peerList,
        (Sample.filtered.perform Sample.connect).Permitted q) ∧
      ∀ clientIp clientPort pcm now addr parallelAddr q,
        ((Sample.filtered.perform Sample.connect).getServer clientIp clientPort pcm now addr
          parallelAddr).2 = some q → (Sample.filtered.perform Sample.connect).Permitted q :=
  ⟨by decide +kernel, assignments_permitted
    (.next (.start (.addFilter _ Sample.configured_twoServers)) trivial rfl)⟩

end ServerList

end Relb
