import Relb.Proofs.AssignmentBooks
/-!
# The books after an entry is armed again

A client that comes back with the port of an eligible entry gets this entry again. It is put
on the account of the connecting ones, but not taken off the account it was in.
-/

namespace Relb

open Lib

namespace ServerList

variable {s : ServerList} {clientIp : IpAddress} {clientPort : UInt16} {pcm : Option ManagerId}
  {now : Datetime} {addr parallelAddr : Ptr} {q : PeerInfo} {peer server : Nat}
  {cls : PeerInfo → Option Account} {l l₁ l₂ : List PeerInfo} {i : Nat}

theorem tally_modify (hq : l[i]? = some q) (f : PeerInfo → PeerInfo) (srv : ServerInfo)
    (a : Account) :
    (tally cls (l.modify i f) srv a : Int) =
      tally cls l srv a - tally cls [q] srv a + tally cls [f q] srv a := by
  have happend : ∀ x, tally cls (x :: l.eraseIdx i) srv a =
      tally cls [x] srv a + tally cls (l.eraseIdx i) srv a :=
    fun x => tally_append [x] (l.eraseIdx i) srv a
  rw [tally_perm (perm_cons_eraseIdx hq), tally_perm (modify_perm_cons_eraseIdx hq f), happend,
    happend]
  omega

theorem standing_rearm (q : PeerInfo) (clientPort : UInt16) (pcm : Option ManagerId)
    (now : Datetime) : (q.rearm clientPort pcm now).standing = some .connecting := by
  rw [PeerInfo.standing, PeerInfo.notConnected_rearm]
  rfl

theorem isDst_rearm (srv : ServerInfo) (q : PeerInfo) (clientPort : UInt16)
    (pcm : Option ManagerId) (now : Datetime) :
    srv.isDst (q.rearm clientPort pcm now) = srv.isDst q := rfl

/-- Of servers with distinct addresses, an entry can only point to the one that the search for
its session finds. -/
theorem ValidSession.index_eq (hips : (s.serversList.map ServerInfo.ip).Nodup)
    (h : s.ValidSession clientIp now peer server q) {srv : ServerInfo}
    (hsrv : s.serversList[i]? = some srv) (hdst : srv.isDst q = true) : server = i := by
  obtain ⟨-, dst, hserver, hip⟩ := sessionServer_spec h.server
  have hsrvip : srv.ip = q.dstIp := congrArg Prod.fst ((ServerInfo.isDst_iff srv q).mp hdst)
  exact index_eq_of_key hips hserver hsrv (hip.trans hsrvip.symm)

theorem tally_afterReuse (hbooks : s.Balanced PeerInfo.standing)
    (h : s.ValidSession clientIp now peer server q) {srv : ServerInfo}
    (hsrv : s.serversList[i]? = some srv) (a : Account) :
    (tally PeerInfo.standing (s.afterReuse peer server q clientPort pcm now).peerList srv a : Int) =
      srv.book a - (if srv.isDst q = true ∧ q.standing = some a then 1 else 0) +
        if srv.isDst q = true ∧ a = .connecting then 1 else 0 := by
  rw [peerList_afterReuse, tally_modify h.found, hbooks srv (List.mem_of_getElem? hsrv),
    tally_singleton, tally_singleton, standing_rearm, isDst_rearm]
  simp only [Option.some.injEq, @eq_comm _ Account.connecting]

theorem standing_of_afterReuse_balanced (hbooks : s.Balanced PeerInfo.standing)
    (h : s.ValidSession clientIp now peer server q)
    (hafter : (s.afterReuse peer server q clientPort pcm now).Balanced PeerInfo.standing) :
    q.standing = none ∧ (q.dstIp, q.dstPort) ∈ s.serversList.map ServerInfo.address := by
  obtain ⟨-, dst, hdst, -⟩ := sessionServer_spec h.server
  have hmem : dst.startConnecting ∈
      (s.afterReuse peer server q clientPort pcm now).serversList := by
    rw [serversList_afterReuse]
    apply List.mem_of_getElem? (i := server)
    rw [List.getElem?_modify_eq, hdst]
    rfl
  have hbook : ∀ a, (if a = Account.connecting then (1 : Int) else 0) =
      (if dst.isDst q = true ∧ a = .connecting then 1 else 0) -
        if dst.isDst q = true ∧ q.standing = some a then 1 else 0 := by
    intro a
    have hat := hafter _ hmem a
    rw [tally_congr (ServerInfo.address_startConnecting dst), tally_afterReuse hbooks h hdst,
      ServerInfo.book_startConnecting] at hat
    omega
  have hisDst : dst.isDst q = true := by
    by_contra hother
    have hconnecting := hbook .connecting
    simp [hother] at hconnecting
  constructor
  · cases hstanding : q.standing with
    | none => rfl
    | some a =>
        have hat := hbook a
        simp only [hisDst, hstanding, and_self, if_true, true_and] at hat
        omega
  · rw [← (ServerInfo.isDst_iff dst q).mp hisDst]
    exact List.mem_map_of_mem (List.mem_of_getElem? hdst)

theorem afterReuse_balanced (hips : (s.serversList.map ServerInfo.ip).Nodup)
    (hbooks : s.Balanced PeerInfo.standing) (h : s.ValidSession clientIp now peer server q)
    (hstanding : q.standing = none)
    (hpointed : (q.dstIp, q.dstPort) ∈ s.serversList.map ServerInfo.address) :
    (s.afterReuse peer server q clientPort pcm now).Balanced PeerInfo.standing := by
  obtain ⟨srv, hmem, haddr⟩ := List.mem_map.mp hpointed
  obtain ⟨i, hsrv⟩ := List.mem_iff_getElem?.mp hmem
  have hisDst : srv.isDst q = true := (ServerInfo.isDst_iff srv q).mpr haddr
  obtain rfl := h.index_eq hips hsrv hisDst
  intro srv' hmem' a
  obtain ⟨k, hk⟩ := List.mem_iff_getElem?.mp hmem'
  rw [serversList_afterReuse] at hk
  rcases getElem?_modify_cases hk with ⟨rfl, other, hother, rfl⟩ | ⟨hplace, hother⟩
  · obtain rfl := Option.some.inj (hsrv.symm.trans hother)
    rw [tally_congr (ServerInfo.address_startConnecting srv), tally_afterReuse hbooks h hsrv,
      ServerInfo.book_startConnecting]
    simp [hisDst, hstanding]
  · have hnot : ¬srv'.isDst q = true := fun h' => hplace (h.index_eq hips hother h')
    rw [tally_afterReuse hbooks h hother]
    simp [hnot]

theorem afterReuse_balanced_iff (hips : (s.serversList.map ServerInfo.ip).Nodup)
    (hbooks : s.Balanced PeerInfo.standing) (h : s.ValidSession clientIp now peer server q) :
    (s.afterReuse peer server q clientPort pcm now).Balanced PeerInfo.standing ↔
      q.standing = none ∧ (q.dstIp, q.dstPort) ∈ s.serversList.map ServerInfo.address := by
  constructor
  · exact standing_of_afterReuse_balanced hbooks h
  · rintro ⟨hstanding, hpointed⟩
    exact afterReuse_balanced hips hbooks h hstanding hpointed

theorem getServer_of_port (hrec : s.reconnectLostSessions = true)
    (hlist : s.peerList = l₁ ++ q :: l₂) (hq : s.Eligible clientIp now q)
    (hport : q.srcPort = clientPort)
    (hfirst : ∀ x ∈ l₁, s.Eligible clientIp now x → x.srcPort ≠ clientPort)
    (pcm : Option ManagerId) (addr parallelAddr : Ptr) :
    ∃ peer server, s.ValidSession clientIp now peer server q ∧
      s.getServer clientIp clientPort pcm now addr parallelAddr =
        (s.afterReuse peer server q clientPort pcm now, some (q.rearm clientPort pcm now)) := by
  have hmem : q ∈ s.peerList := by simp [hlist]
  rcases getServer_sessions s clientIp clientPort pcm now addr parallelAddr with
    ⟨-, hports, -⟩ | ⟨m₁, x, m₂, server, hlist', hfirst', hvalid, hxport, hcall⟩ | ⟨hnone, -⟩
  · exact absurd hport (hports q hmem hq)
  · rcases places_cases (hlist.symm.trans hlist') with rfl | ⟨hbefore, -⟩ | ⟨hbefore, -⟩
    · exact ⟨m₁.length, server, hvalid, hcall⟩
    · exact absurd hport (hfirst' q hbefore hq)
    · exact absurd hxport (hfirst x hbefore hvalid.eligible)
  · exact absurd hq (hnone hrec q hmem)

/-- An entry that is armed again keeps the books exactly if it was in no account before. -/
theorem reuse_keeps_books (hrec : s.reconnectLostSessions = true)
    (hips : (s.serversList.map ServerInfo.ip).Nodup) (hbooks : s.Balanced PeerInfo.standing)
    (hlist : s.peerList = l₁ ++ q :: l₂) (hq : s.Eligible clientIp now q)
    (hport : q.srcPort = clientPort)
    (hfirst : ∀ x ∈ l₁, s.Eligible clientIp now x → x.srcPort ≠ clientPort) :
    (s.getServer clientIp clientPort pcm now addr parallelAddr).1.Balanced PeerInfo.standing ↔
      q.standing = none ∧ (q.dstIp, q.dstPort) ∈ s.serversList.map ServerInfo.address := by
  obtain ⟨peer, server, hvalid, hcall⟩ :=
    getServer_of_port hrec hlist hq hport hfirst pcm addr parallelAddr
  rw [hcall]
  exact afterReuse_balanced_iff hips hbooks hvalid

namespace Sample

/-- The client has ended a connection from port 5000. -/
def finishedPort : ServerList :=
  { twoServers with
    serversList := [⟨server1, 80, 0, 1, 0, 0, 1, 0, false, 0⟩]
    peerList := [⟨100, client, 5000, server1, 80, statusServerDisconnectedOk.toUInt8, none,
      some 1, 3, 5⟩] }

/-- The last message for the connection from port 5000 was a ban, whose status is in no
account. -/
def bannedPort : ServerList :=
  { twoServers with
    serversList := [⟨server1, 80, 0, 0, 0, 0, 1, 0, false, 0⟩]
    peerList := [⟨100, client, 5000, server1, 80, statusPeerConnectionBanThis.toUInt8, none,
      some 1, 3, 5⟩] }

theorem eligible_port {s : ServerList} {status : UInt8} {srv : ServerInfo}
    (hservers : s.serversList = [srv]) (hip : srv.ip = server1)
    (hup : srv.lastConnectionFailed = false) (hstatus : status.toUInt32 ≠ statusConnectionFailed) :
    s.Eligible client 10 ⟨100, client, 5000, server1, 80, status, none, some 1, 3, 5⟩ := by
  refine ⟨rfl, hstatus, 0, srv, by rw [hservers]; rfl, hip, fun j x hj hx => ?_, ?_⟩
  · rw [hservers, List.getElem?_eq_none (Nat.succ_le_of_lt hj)] at hx
    cases hx
  · simp [ServerInfo.inRetry, hup]

end Sample

theorem reuse_keeps_books_banned :
    (Sample.bannedPort.getServer Sample.client 5000 (some 2) 10 101 200).1.Balanced
      PeerInfo.standing :=
  (reuse_keeps_books rfl (by decide) (by decide)
    (show Sample.bannedPort.peerList = [] ++ _ :: [] from rfl)
    (Sample.eligible_port rfl rfl rfl (by decide)) rfl (by simp)).mpr ⟨by decide, by decide⟩

/-- The entry has been counted as finished, and is now counted as connecting as well. -/
theorem reuse_breaks_books :
    (Sample.finishedPort.serversList.map ServerInfo.ip).Nodup ∧
      Sample.finishedPort.Balanced PeerInfo.standing ∧
      (∃ q ∈ Sample.finishedPort.peerList, Sample.finishedPort.Eligible Sample.client 10 q ∧
        q.srcPort = 5000) ∧
      ¬(Sample.finishedPort.getServer Sample.client 5000 (some 2) 10 101 200).1.Balanced
        PeerInfo.standing := by
  refine ⟨by decide, by decide, ⟨_, List.mem_singleton_self _, ?_, rfl⟩, by decide +kernel⟩
  exact Sample.eligible_port rfl rfl rfl (by decide)

end ServerList

end Relb
