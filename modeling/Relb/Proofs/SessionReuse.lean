import Relb.Proofs.BalancerBasics
/-!
# One live connection per entry

A new connection that takes an entry over from an earlier one asks for the earlier one to be
closed, but the request names no entry: the result variable is set only afterwards. So the
code keeps to its purpose exactly as long as no entry is taken over (`NoReuse`). Without
reuse, an entry has one peer at most: each connection brings a new entry, and a manager
neither copies a peer nor changes its entry.
-/

namespace Relb

open Lib

namespace ServerList

variable {s : ServerList} {q : PeerInfo} {clientIp : IpAddress} {clientPort : UInt16}
  {now : Datetime}

/-- What a call does that arms an entry again. -/
theorem getServer_of_reusedPeer (h : s.reusedPeer clientIp clientPort now = some q)
    (pcm : Option ManagerId) (addr parallelAddr : Ptr) :
    q ∈ s.peerList ∧ ∃ peer server,
      s.getServer clientIp clientPort pcm now addr parallelAddr =
        (s.afterReuse peer server q clientPort pcm now, some (q.rearm clientPort pcm now)) := by
  have hscan : s.ScanCorrect clientIp clientPort now s.peerList none
      (s.scanSessions clientIp clientPort now s.peerList 0 none) :=
    scanSessions_correct rfl (by simp)
  unfold reusedPeer at h
  split at h
  · rename_i hrec
    cases hresult : s.scanSessions clientIp clientPort now s.peerList 0 none with
    | nothing => simp [hresult] at h
    | lost peer server => simp [hresult] at h
    | reuse peer server =>
        rw [hresult] at h hscan
        obtain ⟨p, hp, -⟩ := hscan
        obtain rfl : p = q := Option.some.inj (hp.found.symm.trans h)
        have hservers : s.serversList.isEmpty = false := by
          by_contra hempty
          have hnone : s.sessionServer p now = none :=
            sessionServer_of_no_servers (List.isEmpty_iff.mp (by simpa using hempty))
          cases hnone.symm.trans hp.server
        refine ⟨List.mem_of_getElem? hp.found, peer, server, ?_⟩
        simp [getServer, hservers, hrec, hresult, reuseSession_eq hp.found]
  · cases h

theorem closeRequests_postParallel (s : ServerList) (id : UInt32) (p : Option Ptr) :
    (s.postParallel id p).closeRequests = s.closeRequests := by
  unfold postParallel
  split <;> rfl

theorem closeRequests_afterReuse {m : ManagerId} (hmanager : q.manager = some m)
    (peer server : Nat) (clientPort : UInt16) (pcm : Option ManagerId) (now : Datetime) :
    (s.afterReuse peer server q clientPort pcm now).closeRequests =
      s.closeRequests ++ [(m, none)] := by
  rw [afterReuse, closeRequests_postParallel, hmanager]
  rfl

end ServerList

namespace Balancer

variable {b b' : Balancer} {op : Op}

/-- `new` returns an address that is not in use. -/
def Allocates (b : Balancer) : Op → Prop
  | .setServer _ _ _ addr _ _ _ =>
      (∀ q ∈ b.list.peerList, q.addr ≠ addr) ∧ ∀ m p, b.Held m p → p.pinfo ≠ some addr
  | _ => True

def NoReuse (b : Balancer) : Op → Prop
  | .setServer pClient _ now _ _ _ _ => b.list.reusedPeer pClient.ip pClient.port now = none
  | _ => True

/-- When `getServer` returns a listed entry, it asks the manager of that entry to close it. -/
def ClosesPrevious (b : Balancer) : Op → Prop
  | .setServer pClient pcm now addr parallelAddr _ _ =>
      ∀ q, (b.list.getServer pClient.ip pClient.port (some pcm) now addr parallelAddr).2 = some q →
        ∀ old ∈ b.list.peerList, old.addr = q.addr → ∀ m, old.manager = some m →
          (m, some q.addr) ∈ (b.list.getServer pClient.ip pClient.port (some pcm) now addr
            parallelAddr).1.closeRequests
  | _ => True

/-! ## Requests -/

/-- Every entry has a manager, and no request waits in the list. -/
structure Attended (list : ServerList) : Prop where
  managed : list.AllPeers fun q => q.manager.isSome
  passed : list.closeRequests = []

theorem attended_perform (h : Attended b.list) (hb : b.perform op = some b') :
    Attended b'.list := by
  have hpassed : ∀ c : Balancer, c.list.AllPeers (fun q => q.manager.isSome) →
      Attended c.passRequests.list := fun c hc => ⟨hc, rfl⟩
  cases performs hb with
  | setServer pClient pcm now addr parallelAddr sock memory =>
      have hlisted := ((b.list.getServer_outcome pClient.ip pClient.port (some pcm) now addr
        parallelAddr).allPeers h.managed (fun q _ => rfl)
        (fun q _ _ => by rw [ServerList.manager_withParallel]; rfl)
        (fun srv _ _ _ => by rw [ServerList.manager_withParallel]; rfl)).1
      unfold setServer
      dsimp only
      split
      · exact hpassed _ hlisted
      · exact hpassed _ hlisted
  | processMessage _ now => exact hpassed _ (h.managed.processMessage _ now fun q hq => hq)
  | adminRequest => exact h
  | cleanConnections => exact hpassed _ h.managed.cleanConnections
  | purgeConnections now => exact hpassed _ (h.managed.purgeConnections now)
  | manager => exact h

theorem attended_started (h : Started b) : Attended b.list := by
  obtain ⟨list, hlist, rfl⟩ := h
  refine ⟨fun q hq => ?_, hlist.fresh.closeRequests⟩
  change q ∈ list.peerList at hq
  rw [hlist.fresh.peerList] at hq
  cases hq

theorem closesPrevious_iff (h : Attended b.list) (hop : b.Allocates op) :
    b.ClosesPrevious op ↔ b.NoReuse op := by
  cases op with
  | setServer pClient pcm now addr parallelAddr sock memory =>
      constructor
      · intro hcloses
        by_contra hreuse
        obtain ⟨p, hp⟩ := Option.ne_none_iff_exists'.mp hreuse
        obtain ⟨hlisted, peer, server, hget⟩ :=
          ServerList.getServer_of_reusedPeer hp (some pcm) addr parallelAddr
        obtain ⟨m, hm⟩ := Option.isSome_iff_exists.mp (h.managed p hlisted)
        have hmem := hcloses (p.rearm pClient.port (some pcm) now) (by rw [hget]) p hlisted rfl m hm
        rw [hget, ServerList.closeRequests_afterReuse hm, h.passed] at hmem
        simp at hmem
      · intro hnone q hq old hold haddr
        rcases (b.list.getServer_outcome pClient.ip pClient.port (some pcm) now addr
          parallelAddr).returned hq with hnew | ⟨p, hp, -⟩
        · exact absurd (haddr.trans hnew) (hop.1 old hold)
        · cases hnone.symm.trans hp
  | processMessage now => exact Iff.rfl
  | adminRequest msg => exact Iff.rfl
  | cleanConnections => exact Iff.rfl
  | purgeConnections now => exact Iff.rfl
  | manager m op => exact Iff.rfl

/-! ## Peers -/

theorem OneLive.perform (h : b.OneLive) (halloc : b.Allocates op) (hreuse : b.NoReuse op)
    (hb : b.perform op = some b') : b'.OneLive := by
  have hkept : op.manager? = none → b'.OneLive := fun hnone =>
    h.of_subperm fun m => by rw [peers_perform hb (by simp [hnone])]
  cases performs hb with
  | setServer pClient pcm now addr parallelAddr sock memory =>
      have hpeers : ∀ m, ((b.setServer pClient pcm now addr parallelAddr sock memory).managers
          m).peers = (b.managers m).peers ++ if m = pcm then
            (b.list.getServer pClient.ip pClient.port (some pcm) now addr
              parallelAddr).2.toList.map (newConnection pClient sock memory) else [] := by
        intro m
        rw [ThreadedConnectionManager.peers, peerList_setServer, connectingPeerList_setServer,
          ← List.append_assoc]
        rfl
      cases hq : (b.list.getServer pClient.ip pClient.port (some pcm) now addr parallelAddr).2 with
      | none =>
          apply h.of_subperm
          intro m
          rw [hpeers, hq]
          simp [List.Subperm.refl]
      | some q =>
          rw [hq] at hpeers
          have hnew : q.addr = addr := by
            refine ((b.list.getServer_outcome pClient.ip pClient.port (some pcm) now addr
              parallelAddr).returned hq).resolve_right ?_
            rintro ⟨p, hp, -⟩
            cases hreuse.symm.trans hp
          exact h.enter (congrArg some hnew) halloc.2 hpeers
  | processMessage => exact hkept rfl
  | adminRequest => exact hkept rfl
  | cleanConnections => exact hkept rfl
  | purgeConnections => exact hkept rfl
  | manager m hop => exact h.manager hop

/-- The previous connection of an entry is asked to close exactly if there is none; as long as
no entry is armed again, it has one peer at most. -/
theorem one_live_connection (b : Balancer) :
    (ReachableBy anyStep b → ∀ op, b.Allocates op → (b.ClosesPrevious op ↔ b.NoReuse op)) ∧
      (ReachableBy (fun b op => b.Allocates op ∧ b.NoReuse op) b → b.OneLive) := by
  refine ⟨fun hb op halloc => ?_, fun hb => ?_⟩
  · have hattended : Attended b.list := by
      refine Reach.invariant (I := fun b => Attended b.list) ?_ ?_ hb
      · exact fun b hstart => attended_started hstart
      · exact fun b op b' h _ hstep => attended_perform h hstep
    exact closesPrevious_iff hattended halloc
  · refine Reach.invariant (I := OneLive) ?_ ?_ hb
    · exact fun b hstart => oneLive_started hstart
    · exact fun b op b' h hguard hstep => h.perform hguard.1 hguard.2 hstep

namespace Sample

theorem allocates_accept : start.Allocates accept :=
  ⟨fun _ hq => (nomatch hq), fun _ _ hp => (nomatch hp)⟩

theorem noReuse_accept : start.NoReuse accept := by
  change start.list.reusedPeer _ _ _ = none
  decide +kernel

/-- The same client port connects to another address. -/
def acceptAgain : Op :=
  .setServer { ConnectionPeer.Sample.client with sock := 3 } 1 20 101 201 4 fun _ _ => 0

def established : List Op :=
  [accept, .manager 1 (.manageConnectingPeer 0 (fun _ => false) (fun _ => true) .idle),
    .processMessage 11]

end Sample

theorem one_live_connection_accepted :
    (Sample.start.ClosesPrevious Sample.accept ↔ Sample.start.NoReuse Sample.accept) ∧
      Sample.start.NoReuse Sample.accept ∧
      ∃ b, Sample.start.perform Sample.accept = some b ∧ (b.managers 1).peers.length = 1 ∧
        b.OneLive :=
  ⟨(one_live_connection _).1 (.start Sample.started_start) _ Sample.allocates_accept,
    Sample.noReuse_accept, _, rfl, by decide +kernel,
    (one_live_connection _).2 (.next (.start Sample.started_start)
      ⟨Sample.allocates_accept, Sample.noReuse_accept⟩ rfl)⟩

/-- The close request of a second connection names no entry. When it has been served, two active
peers have the entry of the client. -/
theorem session_reuse_two_live :
    ¬(∀ b op, ReachableBy anyStep b → b.Allocates op → b.ClosesPrevious op) ∧
      ((Sample.established ++ [Sample.acceptAgain, .manager 1 .serveRequest]).foldlM perform
        Sample.start).map (fun b => ((b.managers 1).toBeClosed,
          (b.managers 1).peers.map fun p => (p.pinfo, p.isActive))) =
        some ([], [(some 100, true), (some 100, true)]) := by
  refine ⟨fun h => ?_, by decide +kernel⟩
  have hsome : (Sample.established.foldlM perform Sample.start).isSome := by decide +kernel
  obtain ⟨b, hb⟩ := Option.isSome_iff_exists.mp hsome
  have hrun : (Sample.established.foldlM perform Sample.start).all fun b =>
      (b.list.peerList.all fun q => q.addr ≠ 101 ∧ q.manager = some 1) &&
        (b.managers 1).peers.all (fun p => p.pinfo ≠ some 101) &&
        b.list.closeRequests.isEmpty &&
        (b.list.reusedPeer ConnectionPeer.Sample.client.ip ConnectionPeer.Sample.client.port
          20).isSome := by decide +kernel
  simp only [hb, Option.all_some, Bool.and_eq_true, List.all_eq_true, decide_eq_true_eq,
    List.isEmpty_iff] at hrun
  obtain ⟨⟨⟨hlisted, hheld⟩, hpassed⟩, hreused⟩ := hrun
  have halloc : b.Allocates Sample.acceptAgain := by
    refine ⟨fun q hq => (hlisted q hq).1, fun m p hp => ?_⟩
    obtain rfl := Sample.eq_of_held hb (by decide) hp
    exact hheld p hp
  have hattended : Attended b.list :=
    ⟨fun q hq => Option.isSome_iff_exists.mpr ⟨1, (hlisted q hq).2⟩, hpassed⟩
  have hcloses := h b Sample.acceptAgain
    ((Reach.start Sample.started_start).foldlM (guarded_anyStep _ _ _) hb) halloc
  have hnone : b.list.reusedPeer ConnectionPeer.Sample.client.ip
      ConnectionPeer.Sample.client.port 20 = none :=
    (closesPrevious_iff hattended halloc).mp hcloses
  rw [hnone] at hreused
  cases hreused

end Balancer

end Relb
