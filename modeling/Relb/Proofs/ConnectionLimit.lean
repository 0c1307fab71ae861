import Relb.Proofs.Traffic
/-!
# The connection limit

A server is filled by the connections that it has and by those that may still be
established. The selection compares the limit with the established ones only, the two session
paths do not compare at all, and a full server may be the only candidate. `WithinLimit` asks
of each assignment that the server has room for one connection more; as each establishment
uses up a connection that waited, `connected` then stays below the limit.
-/

namespace Relb

open Lib

open ConnectionPeer (Report report)

namespace Traffic

variable {t t' : Traffic} {c : Connection} {id : UInt32} {now : Datetime} {i j : Nat}

/-! ## Waiting connections -/

/-- The connection waits for the server `j`. -/
def waits (s : ServerList) (j : Nat) (c : Connection) : Bool :=
  !c.established && s.peerList.any fun q => q.addr == c.addr && s.dstServer q == some j

def waiting (t : Traffic) (j : Nat) : Nat := t.connections.countP (waits t.list j)

theorem waits_iff {s : ServerList} :
    waits s j c = true ↔ c.established = false ∧
      ∃ q ∈ s.peerList, q.addr = c.addr ∧ s.dstServer q = some j := by
  simp [waits]

theorem waits_mono {s s' : ServerList} (hconfig : s.SameConfig s')
    (hpeers : ∀ q ∈ s'.peerList, ∃ p ∈ s.peerList, p.addr = q.addr ∧ p.route = q.route)
    (h : waits s' j c = true) : waits s j c = true := by
  obtain ⟨hc, q, hq, haddr, hdst⟩ := waits_iff.mp h
  obtain ⟨p, hp, hpaddr, hroute⟩ := hpeers q hq
  refine waits_iff.mpr ⟨hc, p, hp, hpaddr.trans haddr, ?_⟩
  rw [ServerList.dstServer_of_route hroute, ← hconfig.dstServer, hdst]

theorem waiting_le (hconfig : t.list.SameConfig t'.list)
    (hpeers : ∀ q ∈ t'.list.peerList, ∃ p ∈ t.list.peerList, p.addr = q.addr ∧ p.route = q.route)
    (hconnections : ∀ j, t'.connections.countP (waits t.list j) ≤ t.waiting j) (j : Nat) :
    t'.waiting j ≤ t.waiting j :=
  calc t'.waiting j ≤ t'.connections.countP (waits t.list j) :=
        List.countP_mono_left fun _ _ h => waits_mono hconfig hpeers h
    _ ≤ t.waiting j := hconnections j

/-! ## Room -/

/-- The server has room for the `n` connections that wait for it. -/
structure Within (srv : ServerInfo) (n : Nat) : Prop where
  connected : 0 ≤ srv.connected
  limit : 0 < srv.maxConnections → srv.connected + n ≤ srv.maxConnections

theorem Within.mono {srv : ServerInfo} {n n' : Nat} (h : Within srv n) (hle : n' ≤ n) :
    Within srv n' := by
  refine ⟨h.connected, fun hmax => ?_⟩
  have hlimit := h.limit hmax
  omega

theorem Within.established {srv : ServerInfo} {n n' : Nat} (h : Within srv n)
    (hle : n' + 1 ≤ n) (now : Datetime) : Within (ServerList.establishedServer srv now) n' := by
  have hconnected := h.connected
  refine ⟨?_, fun hmax => ?_⟩
  · simp only [ServerList.establishedServer]
    omega
  · have hlimit := h.limit hmax
    simp only [ServerList.establishedServer]
    omega

theorem maxConnections_endedServer (srv : ServerInfo) (id : UInt32) (removed : Bool)
    (now : Datetime) :
    (ServerList.endedServer srv id removed now).maxConnections = srv.maxConnections := by
  unfold ServerList.endedServer
  split_ifs <;> rfl

theorem Within.ended {srv : ServerInfo} {n n' : Nat} (h : Within srv n) (hle : n' ≤ n)
    (hid : id ∈ postedIds) (removed : Bool) (now : Datetime) :
    Within (ServerList.endedServer srv id removed now) n' := by
  have hconnected := h.connected
  refine ⟨?_, ?_⟩
  · rw [ServerList.connected_endedServer hid]
    split <;> omega
  · rw [ServerList.connected_endedServer hid, maxConnections_endedServer]
    intro hmax
    have hlimit := h.limit hmax
    split <;> omega

theorem Within.reported {srv : ServerInfo} {n n' : Nat} {r : Report} (h : Within srv n)
    (hr : report id = some r) (hle : n' ≤ n) (hfirst : r ≠ .ended → n' + 1 ≤ n) (removed : Bool)
    (now : Datetime) : Within (ServerList.reportedServer srv id removed now) n' := by
  have hid := ConnectionPeer.posted_of_report hr
  unfold ServerList.reportedServer
  rw [hr]
  cases r with
  | established => exact h.established (hfirst (by decide)) now
  | failed => exact h.ended hle hid removed now
  | ended => exact h.ended hle hid removed now

/-- Addresses are distinct, and every server has room for those that wait for it. -/
structure Limited (t : Traffic) : Prop where
  nodup : (t.list.peerList.map PeerInfo.addr).Nodup
  within : ∀ j srv, t.list.serversList[j]? = some srv → Within srv (t.waiting j)

theorem Limited.modify (h : t.Limited) {dst : Option Nat} {f : ServerInfo → ServerInfo}
    (hservers : t'.list.serversList =
      dst.elim t.list.serversList fun i => t.list.serversList.modify i f)
    (hnodup : (t'.list.peerList.map PeerInfo.addr).Nodup)
    (hother : ∀ j, dst ≠ some j → t'.waiting j ≤ t.waiting j)
    (hf : ∀ i srv, dst = some i → t.list.serversList[i]? = some srv →
      Within srv (t.waiting i) → Within (f srv) (t'.waiting i)) : t'.Limited := by
  refine ⟨hnodup, fun j srv hsrv => ?_⟩
  rw [hservers] at hsrv
  rcases getElem?_elim_modify_cases hsrv with ⟨rfl, before, hbefore, rfl⟩ | ⟨hdst, hsrv⟩
  · exact hf j before rfl hbefore (h.within j before hbefore)
  · exact (h.within j srv hsrv).mono (hother j hdst)

theorem Limited.of_same (h : t.Limited)
    (hservers : t'.list.serversList.map (fun srv => (srv.connected, srv.maxConnections)) =
      t.list.serversList.map fun srv => (srv.connected, srv.maxConnections))
    (hnodup : (t'.list.peerList.map PeerInfo.addr).Nodup)
    (hwithin : ∀ j srv, t.list.serversList[j]? = some srv → Within srv (t.waiting j) →
      Within srv (t'.waiting j)) : t'.Limited := by
  refine ⟨hnodup, fun j srv hsrv => ?_⟩
  have hsame : (t.list.serversList.map fun srv => (srv.connected, srv.maxConnections))[j]? =
      some (srv.connected, srv.maxConnections) := by
    rw [← hservers, List.getElem?_map, hsrv]
    rfl
  rw [List.getElem?_map, Option.map_eq_some_iff] at hsame
  obtain ⟨old, hold, heq⟩ := hsame
  obtain ⟨hconnected, hmax⟩ := Prod.mk.inj heq
  have hbefore := hwithin j old hold (h.within j old hold)
  exact ⟨hconnected ▸ hbefore.connected, hconnected ▸ hmax ▸ hbefore.limit⟩

/-! ## Steps -/

theorem limited_message (h : t.Limited) (hop : t.message i id now = some t') : t'.Limited := by
  obtain ⟨c, hc, hlist, hsent⟩ := message_cases hop
  have hconfig : t.list.SameConfig t'.list := hlist ▸ ServerList.sameConfig_processMessage _ _ _
  have hpeers : t'.list.AllPeers fun q => ∃ p ∈ t.list.peerList, p.addr = q.addr ∧
      p.route = q.route := by
    rw [hlist]
    exact ServerList.AllPeers.processMessage (fun q hq => ⟨q, hq, rfl, rfl⟩) _ _ fun q hq => hq
  have hnodup : (t'.list.peerList.map PeerInfo.addr).Nodup := by
    rw [hlist]
    exact h.nodup.sublist (ServerList.map_processMessage (fun _ _ _ => rfl) _ _ _)
  rcases hsent with ⟨rfl, hconnections⟩ | hreport
  · rw [ServerList.processMessage_cancelled] at hlist
    refine h.of_same (by rw [hlist]) hnodup fun j srv _ hwithin => hwithin.mono ?_
    exact waiting_le hconfig hpeers (fun j =>
      Nat.le_of_eq (congrArg (List.countP (waits t.list j)) hconnections)) j
  · -- without the connection that has sent the report
    have hrest : ∀ j, t'.connections.countP (waits t.list j) +
        (if waits t.list j c then 1 else 0) = t.waiting j := by
      intro j
      rcases hreport with ⟨-, -, hconnections⟩ | ⟨-, hconnections⟩
      · have hi := (List.getElem?_eq_some_iff.mp hc).1
        rw [hconnections, (List.set_perm_cons_eraseIdx hi _).countP_eq, List.countP_cons_of_neg,
          countP_eraseIdx_add hc, waiting]
        simp [waits]
      · rw [hconnections, countP_eraseIdx_add hc, waiting]
    have hle : ∀ j, t'.waiting j ≤ t.waiting j :=
      waiting_le hconfig hpeers fun j => by have := hrest j; omega
    obtain ⟨r, hr, hfirst⟩ : ∃ r, report id = some r ∧ (r ≠ .ended → c.established = false) := by
      rcases hreport with ⟨hr, hest, -⟩ | ⟨⟨hr, hest⟩ | ⟨hr, -⟩, -⟩
      · exact ⟨_, hr, fun _ => hest⟩
      · exact ⟨_, hr, fun _ => hest⟩
      · exact ⟨_, hr, fun hne => absurd rfl hne⟩
    rcases ServerList.processMessage_cases t.list ⟨id, c.addr⟩ now with
      ⟨-, hsame⟩ | ⟨index, pinfo, hq, haddr, hmsg⟩
    · exact h.of_same (by rw [hlist, hsame]) hnodup fun j srv _ hwithin => hwithin.mono (hle j)
    · obtain ⟨removed, hservers⟩ := ServerList.serversList_of_report hr t.list index pinfo now
      apply h.modify (hlist ▸ hmsg ▸ hservers) hnodup (fun j _ => hle j)
      intro j srv hdst _ hwithin
      refine hwithin.reported hr (hle j) (fun hne => ?_) removed now
      have hwaits : waits t.list j c = true :=
        waits_iff.mpr ⟨hfirst hne, pinfo, List.mem_of_getElem? hq, haddr, hdst⟩
      have hless := hrest j
      rw [if_pos hwaits] at hless
      have hafter : t'.waiting j ≤ t'.connections.countP (waits t.list j) :=
        List.countP_mono_left fun _ _ h => waits_mono hconfig hpeers h
      omega

/-- The server that the connection goes to has room for it. -/
def WithinLimit (t : Traffic) : Op → Prop
  | .connect clientIp clientPort _ now _ _ =>
      ∀ i dst j srv, t.list.assignment clientIp clientPort now = some (i, dst) →
        (t.list.serversList.map ServerInfo.address).findIdx? (· == dst) = some j →
        t.list.serversList[j]? = some srv → 0 < srv.maxConnections →
          srv.connected + t.waiting j < srv.maxConnections
  | _ => True

theorem dstServer_of_waits {s : ServerList} {clientIp : IpAddress} {clientPort : UInt16}
    {pcm : Option ManagerId} {addr parallelAddr : Ptr} {o : ServerList × Option PeerInfo}
    {q : PeerInfo} (ho : s.Outcome clientIp clientPort pcm now addr parallelAddr o)
    (hq : o.2 = some q) (hnodup : (s.peerList.map PeerInfo.addr).Nodup)
    (hfresh : ∀ q ∈ s.peerList, q.addr ≠ addr) (hwaits : waits o.1 j ⟨q.addr, false⟩ = true) :
    s.dstServer q = some j := by
  obtain ⟨-, x, hx, haddr, hdst⟩ := waits_iff.mp hwaits
  rw [ho.sameConfig.dstServer] at hdst
  rw [← hdst]
  rcases ho.listed hx with ⟨p, hp, hpaddr, hroute⟩ | ⟨hsome, -⟩
  · rcases ho.returned hq with hqaddr | ⟨p₀, hp₀, rfl⟩
    · apply absurd _ (hfresh p hp)
      calc
        p.addr = x.addr := hpaddr
        _ = q.addr := haddr
        _ = addr := hqaddr
    · have hsame : p = p₀ := eq_of_key hnodup hp (ServerList.mem_of_reusedPeer hp₀)
        (hpaddr.trans haddr)
      rw [← ServerList.dstServer_of_route hroute, hsame]
      rfl
  · rw [Option.some.inj (hq.symm.trans hsome)]

theorem limited_connect (h : t.Limited) {clientIp : IpAddress} {clientPort : UInt16}
    {pcm : Option ManagerId} {addr parallelAddr : Ptr}
    (hroom : t.WithinLimit (.connect clientIp clientPort pcm now addr parallelAddr))
    (hop : t.connect clientIp clientPort pcm now addr parallelAddr = some t') : t'.Limited := by
  unfold connect at hop
  split at hop
  · rename_i hnew
    obtain ⟨hfresh, hconnections, -⟩ := hnew
    obtain rfl := Option.some.inj hop
    have ho := t.list.getServer_outcome clientIp clientPort pcm now addr parallelAddr
    generalize t.list.getServer clientIp clientPort pcm now addr parallelAddr = o at ho ⊢
    have hnodup := ho.nodup h.nodup hfresh
    -- a connection that waits now has waited for the same server before
    have hold : ∀ j, t.connections.countP (waits o.1 j) ≤ t.waiting j := by
      intro j
      apply List.countP_mono_left
      intro c hc hwaits
      obtain ⟨hest, q, hq, haddr, hdst⟩ := waits_iff.mp hwaits
      rcases ho.listed hq with ⟨p, hp, hpaddr, hroute⟩ | ⟨-, hqaddr⟩
      · refine waits_iff.mpr ⟨hest, p, hp, hpaddr.trans haddr, ?_⟩
        rw [ServerList.dstServer_of_route hroute, ← ho.sameConfig.dstServer, hdst]
      · exact absurd (haddr.symm.trans hqaddr) (hconnections c hc)
    cases hq : o.2 with
    | none =>
        obtain ⟨last, hsame⟩ := ho.refuses hq
        refine h.of_same (by rw [hsame]) hnodup fun j srv _ hwithin => hwithin.mono ?_
        simpa [waiting] using hold j
    | some q =>
        obtain ⟨i, f, hassign, hservers, hf⟩ := ho.accounted hq
        change Limited ⟨o.1, t.connections ++ [⟨q.addr, false⟩]⟩
        refine h.of_same ?_ hnodup fun j srv hsrv hwithin => ?_
        · refine (congrArg _ hservers).trans (map_modify (fun srv => ?_) _ _)
          obtain ⟨hcounter, hmax⟩ := hf srv
          exact Prod.ext (congrFun hcounter .established) hmax
        · have hbefore := hold j
          have hcount : Traffic.waiting ⟨o.1, t.connections ++ [⟨q.addr, false⟩]⟩ j =
              t.connections.countP (waits o.1 j) +
                if waits o.1 j ⟨q.addr, false⟩ then 1 else 0 := by
            simp [waiting, List.countP_append, List.countP_singleton]
          by_cases hwaits : waits o.1 j ⟨q.addr, false⟩ = true
          · rw [if_pos hwaits] at hcount
            have hdst := dstServer_of_waits ho hq h.nodup hfresh hwaits
            rw [ServerList.dstServer_eq] at hdst
            refine ⟨hwithin.connected, fun hmax => ?_⟩
            have hless := hroom i _ j srv hassign hdst hsrv hmax
            omega
          · rw [if_neg hwaits] at hcount
            exact hwithin.mono (by omega)
  · cases hop

theorem limited_perform (h : t.Limited) {op : Op} (hguard : t.WithinLimit op)
    (hop : t.perform op = some t') : t'.Limited := by
  cases op with
  | connect => exact limited_connect h hguard hop
  | message i id now => exact limited_message h hop
  | cleanConnections =>
      obtain rfl := Option.some.inj hop
      have hpeers := ServerList.peerList_cleanConnections t.list
      have hle : ∀ j, Traffic.waiting { t with list := t.list.cleanConnections } j ≤
          t.waiting j := by
        refine waiting_le (ServerList.sameConfig_cleanConnections t.list) (fun q hq => ?_)
          fun j => Nat.le_refl _
        dsimp only at hq
        rw [hpeers] at hq
        exact ⟨q, List.mem_of_mem_filter hq, rfl, rfl⟩
      refine h.of_same (ServerList.map_cleanConnections (fun srv q => ?_) t.list) ?_
        fun j srv _ hwithin => hwithin.mono (hle j)
      · unfold ServerInfo.clean
        split <;> rfl
      · dsimp only
        rw [hpeers]
        exact h.nodup.sublist (List.filter_sublist.map _)
  | purgeConnections now =>
      obtain rfl := Option.some.inj hop
      have hpeers := ServerList.peerList_purgeConnections t.list now
      have hle : ∀ j, Traffic.waiting { t with list := t.list.purgeConnections now } j ≤
          t.waiting j := by
        refine waiting_le (ServerList.sameConfig_purgeConnections t.list now) (fun q hq => ?_)
          fun j => Nat.le_refl _
        dsimp only at hq
        rw [hpeers] at hq
        exact ⟨q, hq, rfl, rfl⟩
      refine h.of_same ?_ ?_ fun j srv _ hwithin => hwithin.mono (hle j)
      · dsimp only
        rw [ServerList.serversList_purgeConnections]
      · dsimp only
        rw [hpeers]
        exact h.nodup

theorem limited_started (h : Started t) : t.Limited := by
  have hfresh := h.1.fresh
  refine ⟨?_, fun j srv hsrv => ?_⟩
  · rw [hfresh.peerList]
    exact List.nodup_nil
  · obtain ⟨-, hconnected, -⟩ := hfresh.servers srv (List.mem_of_getElem? hsrv)
    have hzero : t.waiting j = 0 := by rw [waiting, h.2]; rfl
    exact ⟨by omega, by omega⟩

theorem connection_limit (ht : ReachableBy WithinLimit t) :
    ∀ srv ∈ t.list.serversList, 0 < srv.maxConnections →
      srv.connected ≤ srv.maxConnections := by
  have hlimited : t.Limited := by
    refine Reach.invariant (I := Limited) ?_ ?_ ht
    · exact fun t hstart => limited_started hstart
    · exact fun t op t' h hguard hstep => limited_perform h hguard hstep
  intro srv hsrv hmax
  obtain ⟨j, hj⟩ := List.mem_iff_getElem?.mp hsrv
  have hlimit := (hlimited.within j srv hj).limit hmax
  omega

namespace Sample

open ServerList.Sample (client server1 server2)

def start : Traffic := ⟨(ServerList.create 0).addServer server1 80 1 1 0, []⟩

theorem started_start : Started start := ⟨.addServer _ _ _ _ _ (.create 0), rfl⟩

def one : List Op :=
  [.connect client 5000 none 10 100 200, .message 0 statusConnectionEstablished 11]

/-- A second client connects before the first one is established. -/
def two : List Op :=
  [.connect client 5000 none 10 100 200, .connect server2 6000 none 11 101 201,
    .message 0 statusConnectionEstablished 12, .message 1 statusConnectionEstablished 13]

theorem guarded_one : Guarded perform WithinLimit start one := by
  refine ⟨fun i dst j srv hassign hdst hsrv hmax => ?_, fun _ _ => ⟨trivial, fun _ _ => trivial⟩⟩
  have hfirst : start.list.assignment client 5000 10 = some (0, server1, 80) := by decide +kernel
  obtain ⟨rfl, rfl⟩ := Prod.mk.inj (Option.some.inj (hassign.symm.trans hfirst))
  have hzero : (start.list.serversList.map ServerInfo.address).findIdx? (· == (server1, 80)) =
      some 0 := by decide +kernel
  obtain rfl := Option.some.inj (hdst.symm.trans hzero)
  obtain rfl := Option.some.inj hsrv
  decide

end Sample

theorem connection_limit_one : ∃ t, Sample.one.foldlM perform Sample.start = some t ∧
    t.list.serversList.map (·.connected) = [1] ∧
      ∀ srv ∈ t.list.serversList, 0 < srv.maxConnections →
        srv.connected ≤ srv.maxConnections := by
  have hsome : (Sample.one.foldlM perform Sample.start).isSome := by decide +kernel
  obtain ⟨t, ht⟩ := Option.isSome_iff_exists.mp hsome
  have hcount : (Sample.one.foldlM perform Sample.start).all fun t =>
      t.list.serversList.map (·.connected) = [1] := by decide +kernel
  rw [ht, Option.all_some, decide_eq_true_eq] at hcount
  exact ⟨t, ht, hcount, connection_limit
    ((Reach.start Sample.started_start).foldlM Sample.guarded_one ht)⟩

/-- Two connections are admitted while the first one is connecting. -/
theorem connection_limit_two : ¬∀ t, ReachableBy anyStep t →
    ∀ srv ∈ t.list.serversList, 0 < srv.maxConnections →
      srv.connected ≤ srv.maxConnections := by
  intro h
  have hsome : (Sample.two.foldlM perform Sample.start).isSome := by decide +kernel
  obtain ⟨t, ht⟩ := Option.isSome_iff_exists.mp hsome
  have hcount : (Sample.two.foldlM perform Sample.start).all fun t =>
      t.list.serversList.any fun srv => srv.maxConnections = 1 ∧ srv.connected = 2 := by
    decide +kernel
  rw [ht, Option.all_some, List.any_eq_true] at hcount
  obtain ⟨srv, hsrv, hover⟩ := hcount
  obtain ⟨hmax, hconnected⟩ := of_decide_eq_true hover
  have hle := h t ((Reach.start Sample.started_start).foldlM (guarded_anyStep _ _ _) ht) srv hsrv
    (by omega)
  omega

end Traffic

end Relb
