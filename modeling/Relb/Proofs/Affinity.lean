import Relb.Proofs.Assignment
/-!
# Session affinity

As long as no connection fails, no server is ever waiting for a retry and no session is ever
invalid. A client with an entry is then sent by one of its entries, and the selection meets
only clients without any; so all entries of a client keep pointing to one server.
-/

namespace Relb

open Lib

namespace ServerList

variable {s t : ServerList} {p q : PeerInfo} {op : Op} {msg : Message} {now : Datetime}
  {clientIp : IpAddress}

/-- No message of the run records a failed connection. -/
def NoFailure (_ : ServerList) : Op → Prop
  | .processMessage msg _ => msg.id.toUInt8 ≠ statusConnectionFailed.toUInt8
  | _ => True

theorem connecting_ne_failed :
    statusConnectingServer.toUInt8 ≠ statusConnectionFailed.toUInt8 := by decide

theorem status_newPeer_ne_failed (s : ServerList) (clientIp : IpAddress) (clientPort : UInt16)
    (dstIp : IpAddress) (dstPort : UInt16) (pcm : Option ManagerId) (now : Datetime)
    (addr parallelAddr : Ptr) :
    (s.withParallel (newPeer clientIp clientPort dstIp dstPort pcm now addr)
      parallelAddr).status ≠ statusConnectionFailed.toUInt8 := by
  rw [status_withParallel]
  exact connecting_ne_failed

/-- What holds of each entry while no connection fails; `dst` gives the server of a client. -/
structure Settled (s : ServerList) (dst : IpAddress → IpAddress × UInt16) (q : PeerInfo) :
    Prop where
  dst : (q.dstIp, q.dstPort) = dst q.srcIp
  valid : q.status ≠ statusConnectionFailed.toUInt8
  configured : (q.dstIp, q.dstPort) ∈ s.serversList.map ServerInfo.address

theorem Settled.of_route {dst : IpAddress → IpAddress × UInt16} (h : s.Settled dst p)
    (hroute : q.route = p.route) (hstatus : q.status ≠ statusConnectionFailed.toUInt8) :
    s.Settled dst q := by
  obtain ⟨hsrc, hdst⟩ := Prod.mk.inj hroute
  refine ⟨?_, hstatus, ?_⟩
  · rw [hsrc, hdst]
    exact h.dst
  · rw [hdst]
    exact h.configured

theorem Settled.sameConfig {dst : IpAddress → IpAddress × UInt16} (h : s.Settled dst q)
    (ht : s.SameConfig t) : t.Settled dst q :=
  ⟨h.dst, h.valid, ht.addresses ▸ h.configured⟩

/-- What holds while no connection fails. -/
structure Sticky (s : ServerList) (dst : IpAddress → IpAddress × UInt16) : Prop where
  entries : s.AllPeers (s.Settled dst)
  healthy : s.AllServers fun srv => srv.lastConnectionFailed = false
  reconnect : s.reconnectLostSessions = true

theorem lastServerWithIp_isSome {ip : IpAddress} {i n : Nat} {srv : ServerInfo}
    (hsrv : s.serversList[i]? = some srv) (hip : srv.ip = ip) (hi : i < n) :
    ∃ j, s.lastServerWithIp ip n = some j := by
  induction n with
  | zero => omega
  | succ n ih =>
      unfold lastServerWithIp
      split
      · exact ⟨n, rfl⟩
      · rename_i hn
        have hne : i ≠ n := by
          rintro rfl
          exact hn (by simp [hsrv, hip])
        exact ih (by omega)

namespace Sticky

variable {dst : IpAddress → IpAddress × UInt16}

theorem sessionServer (h : s.Sticky dst) (hq : q ∈ s.peerList) (now : Datetime) :
    ∃ i, s.sessionServer q now = some i := by
  obtain ⟨srv, hsrv, haddr⟩ := List.mem_map.mp (h.entries q hq).configured
  obtain ⟨i, hi⟩ := List.mem_iff_getElem?.mp hsrv
  obtain ⟨j, hj⟩ := lastServerWithIp_isSome hi (Prod.mk.inj haddr).1
    (List.getElem?_eq_some_iff.mp hi).1
  obtain ⟨srv', hsrv', -⟩ := lastServerWithIp_spec hj
  have hstatus : q.status.toUInt32 ≠ statusConnectionFailed := by
    intro heq
    apply (h.entries q hq).valid
    rw [← heq, UInt8.toUInt8_toUInt32]
  have hretry : srv'.inRetry s.serverRetryMilliseconds now = false := by
    simp [ServerInfo.inRetry, h.healthy srv' (List.mem_of_getElem? hsrv')]
  refine ⟨j, ?_⟩
  simp [ServerList.sessionServer, hstatus, hj, hsrv', hretry]

theorem no_entry_of_noSession (h : s.Sticky dst) (hnone : s.NoSession clientIp now)
    (hq : q ∈ s.peerList) : q.srcIp ≠ clientIp := by
  intro hclient
  obtain ⟨i, hi⟩ := h.sessionServer hq now
  rw [hnone h.reconnect q hq hclient] at hi
  cases hi

theorem next (h : s.Sticky dst) (ht : s.SameConfig t) {dst' : IpAddress → IpAddress × UInt16}
    (hentries : t.AllPeers (s.Settled dst'))
    (hhealthy : t.AllServers fun srv => srv.lastConnectionFailed = false) : t.Sticky dst' :=
  ⟨fun q hq => (hentries q hq).sameConfig ht, hhealthy, ht.reconnect.trans h.reconnect⟩

/-- A client with an entry is sent where its entries point to, by an entry old or new. -/
theorem getServer_listed (h : s.Sticky dst) (hp : p ∈ s.peerList) (clientPort : UInt16)
    (pcm : Option ManagerId) (now : Datetime) (addr parallelAddr : Ptr) :
    (s.getServer p.srcIp clientPort pcm now addr parallelAddr).1.AllPeers (s.Settled dst) ∧
      ∃ q, (s.getServer p.srcIp clientPort pcm now addr parallelAddr).2 = some q ∧
        q.route = p.route := by
  have houtcome := getServer_outcome s p.srcIp clientPort pcm now addr parallelAddr
  have hsession : ¬s.NoSession p.srcIp now := fun hnone => h.no_entry_of_noSession hnone hp rfl
  have hrecreated : ∀ q ∈ s.peerList, q.srcIp = p.srcIp → s.Settled dst (s.withParallel
      (newPeer p.srcIp clientPort q.dstIp q.dstPort pcm now addr) parallelAddr) := by
    intro q hq hclient
    refine (h.entries q hq).of_route ?_ (status_newPeer_ne_failed _ _ _ _ _ _ _ _ _)
    rw [route_withParallel]
    exact congrArg (·, q.dstIp, q.dstPort) hclient.symm
  have hsettled := houtcome.allPeers h.entries
    (fun q hq => hq.of_route rfl connecting_ne_failed) hrecreated
    (fun srv _ hnone _ => absurd hnone hsession)
  refine ⟨hsettled.1, ?_⟩
  cases hq : (s.getServer p.srcIp clientPort pcm now addr parallelAddr).2 with
  | none => exact absurd (houtcome.noSession hq) hsession
  | some q =>
      have hsrc := houtcome.srcIp hq
      refine ⟨q, rfl, Prod.ext hsrc ?_⟩
      calc (q.dstIp, q.dstPort) = dst q.srcIp := (hsettled.2 q hq).dst
        _ = dst p.srcIp := by rw [hsrc]
        _ = (p.dstIp, p.dstPort) := (h.entries p hp).dst.symm

/-- A client without any entry is refused, or settles on the server selected. -/
theorem getServer_unlisted (h : s.Sticky dst) (hclient : ∀ q ∈ s.peerList, q.srcIp ≠ clientIp)
    (clientPort : UInt16) (pcm : Option ManagerId) (now : Datetime) (addr parallelAddr : Ptr) :
    ∃ dst', (s.getServer clientIp clientPort pcm now addr parallelAddr).1.AllPeers
      (s.Settled dst') := by
  have houtcome := getServer_outcome s clientIp clientPort pcm now addr parallelAddr
  generalize s.getServer clientIp clientPort pcm now addr parallelAddr = r at houtcome ⊢
  cases houtcome with
  | refused last hnone hassign => exact ⟨dst, h.entries⟩
  | reused hvalid hport hreused hassign =>
      exact absurd hvalid.client (hclient _ (List.mem_of_getElem? hvalid.found))
  | recreated hvalid hassign =>
      exact absurd hvalid.client (hclient _ (List.mem_of_getElem? hvalid.found))
  | @assigned last srv hnone hsrv hallowed hassign =>
      refine ⟨fun ip => if ip = clientIp then (srv.ip, srv.port) else dst ip, ?_⟩
      intro q hq
      rw [peerList_afterAssignment, List.mem_append, List.mem_singleton] at hq
      rcases hq with hq | rfl
      · have hold := h.entries q hq
        refine ⟨?_, hold.valid, hold.configured⟩
        rw [if_neg (hclient q hq)]
        exact hold.dst
      · have hconfigured : (srv.ip, srv.port) ∈ s.serversList.map ServerInfo.address :=
          List.mem_map_of_mem (List.mem_of_getElem? hsrv)
        have hnew : s.Settled (fun ip => if ip = clientIp then (srv.ip, srv.port) else dst ip)
            (newPeer clientIp clientPort srv.ip srv.port pcm now addr) :=
          ⟨(if_pos rfl).symm, connecting_ne_failed, hconfigured⟩
        exact hnew.of_route (route_withParallel _ _ _) (status_newPeer_ne_failed _ _ _ _ _ _ _ _ _)

theorem perform (h : s.Sticky dst) (hop : NoFailure s op) : ∃ dst', (s.perform op).Sticky dst' := by
  have hconfig := sameConfig_perform s op
  cases op with
  | getServer clientIp clientPort pcm now addr parallelAddr =>
      have hhealthy := (getServer_outcome s clientIp clientPort pcm now addr
        parallelAddr).allServers h.healthy (fun _ hsrv => hsrv) (fun srv q hsrv => by
          unfold ServerInfo.forget
          split <;> exact hsrv)
      by_cases hclient : ∀ q ∈ s.peerList, q.srcIp ≠ clientIp
      · obtain ⟨dst', hentries⟩ := h.getServer_unlisted hclient clientPort pcm now addr parallelAddr
        exact ⟨dst', h.next hconfig hentries hhealthy⟩
      · push Not at hclient
        obtain ⟨p, hp, rfl⟩ := hclient
        exact ⟨dst, h.next hconfig (h.getServer_listed hp _ _ _ _ _).1 hhealthy⟩
  | processMessage msg now =>
      have hentries := h.entries.processMessage msg now fun q hq => hq.of_route rfl hop
      refine ⟨dst, h.next hconfig hentries (h.healthy.processMessage msg now (fun _ _ => rfl) ?_)⟩
      intro srv removed hsrv
      have hid : msg.id ≠ statusConnectionFailed := by
        intro heq
        exact hop (congrArg UInt32.toUInt8 heq)
      simp only [endedServer, if_neg hid]
      split_ifs <;> exact hsrv
  | cleanConnections =>
      refine ⟨dst, h.next hconfig h.entries.cleanConnections (h.healthy.cleanConnections ?_)⟩
      intro srv q hsrv
      unfold ServerInfo.clean
      split <;> exact hsrv
  | purgeConnections now =>
      exact ⟨dst, h.next hconfig (h.entries.purgeConnections now) (h.healthy.purgeConnections now)⟩

end Sticky

/-- Entries of one client point to one server, and the client is sent there. -/
theorem session_affinity (hs : ReachableBy NoFailure s) :
    (∀ p ∈ s.peerList, ∀ q ∈ s.peerList, p.srcIp = q.srcIp →
      (p.dstIp, p.dstPort) = (q.dstIp, q.dstPort)) ∧
    ∀ p ∈ s.peerList, ∀ clientPort pcm now addr parallelAddr,
      ∃ q, (s.getServer p.srcIp clientPort pcm now addr parallelAddr).2 = some q ∧
        (q.dstIp, q.dstPort) = (p.dstIp, p.dstPort) := by
  obtain ⟨dst, h⟩ : ∃ dst, s.Sticky dst := by
    refine Reach.invariant (I := fun s => ∃ dst, s.Sticky dst) ?_ ?_ hs
    · intro s hs
      have hfresh := hs.fresh
      refine ⟨fun ip => (ip, 0), ?_, fun srv hsrv => (hfresh.servers srv hsrv).1,
        hfresh.reconnect⟩
      intro q hq
      rw [hfresh.peerList] at hq
      exact absurd hq List.not_mem_nil
    · rintro s op t ⟨dst, h⟩ hop hstep
      rw [← hstep]
      exact h.perform hop
  refine ⟨?_, ?_⟩
  · intro p hp q hq hsrc
    rw [(h.entries p hp).dst, (h.entries q hq).dst, hsrc]
  · intro p hp clientPort pcm now addr parallelAddr
    obtain ⟨q, hq, hroute⟩ := (h.getServer_listed hp clientPort pcm now addr parallelAddr).2
    exact ⟨q, hq, (Prod.mk.inj hroute).2⟩

namespace Sample

def connected : ServerList := twoServers.perform connect

/-- The client's connection is lost, and it connects again. -/
def reconnected : ServerList :=
  (connected.perform (.processMessage ⟨statusServerConnectionLost, 100⟩ 20)).perform
    (.getServer client 5001 (some 1) 30 101 201)

theorem reachable_reconnected : ReachableBy NoFailure reconnected := by
  have hlost : connected.NoFailure (.processMessage ⟨statusServerConnectionLost, 100⟩ 20) := by
    change statusServerConnectionLost.toUInt8 ≠ statusConnectionFailed.toUInt8
    decide
  have hconnected : ReachableBy NoFailure connected :=
    .next (a := connect) (.start configured_twoServers) trivial rfl
  exact .next (a := .getServer ..) (.next hconnected hlost rfl) trivial rfl

end Sample

theorem session_affinity_reconnected :
    Sample.reconnected.peerList.map PeerInfo.route = [(Sample.client, Sample.server1, 80)] ∧
    (∀ p ∈ Sample.reconnected.peerList, ∀ q ∈ Sample.reconnected.peerList, p.srcIp = q.srcIp →
      (p.dstIp, p.dstPort) = (q.dstIp, q.dstPort)) ∧
    ∀ p ∈ Sample.reconnected.peerList, ∀ clientPort pcm now addr parallelAddr,
      ∃ q, (Sample.reconnected.getServer p.srcIp clientPort pcm now addr parallelAddr).2 = some q ∧
        (q.dstIp, q.dstPort) = (p.dstIp, p.dstPort) :=
  ⟨by decide +kernel, session_affinity Sample.reachable_reconnected⟩

end ServerList

end Relb
