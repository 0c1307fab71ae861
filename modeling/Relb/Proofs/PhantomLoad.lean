import Relb.Proofs.Delivery
/-!
# No phantom load

`Balanced` adds the accounts to the delivery of the reports: they agree with the reports that
have been processed. When all peers are inactive and the queue is empty, every listed
connection has ended.

A run must avoid what the code gets wrong (`Sound`): a connecting peer closed on request or
dropped by a check, an account put on a server that the messages do not count for, and an
entry given to a second connection while the first one may still report.
-/

namespace Relb

open Lib

open ConnectionPeer (Report report)

namespace Balancer

variable {b b' : Balancer} {done : Ptr → List Report} {a : Ptr} {msg : Message} {now : Datetime}

/-- `done` holds the reports that have been processed for each entry. -/
structure Balanced (b : Balancer) (done : Ptr → List Report) : Prop where
  accounts : b.list.Accounts fun a => phaseOf (done a)
  posted : ∀ msg ∈ b.queue, msg.id ∈ postedIds
  wellformed : ∀ m, (b.managers m).Wellformed
  oneLive : b.OneLive
  lawful : ∀ a, Lawful (done a ++ pending b.queue a)
  held : ∀ m p a, b.Held m p → p.pinfo = some a → p.reports = done a ++ pending b.queue a
  left : ∀ q ∈ b.list.peerList, (∃ m p, b.Held m p ∧ p.pinfo = some q.addr) ∨
    Concluded (done q.addr ++ pending b.queue q.addr)

/-- What a step must meet. -/
def Sound (b : Balancer) : Op → Prop
  | .setServer pClient _ now addr _ _ _ =>
      b.list.CountedRight pClient.ip pClient.port now ∧
      (∀ q ∈ b.list.peerList, q.addr ≠ addr) ∧ b.Unused addr ∧
      ∀ q, b.list.reusedPeer pClient.ip pClient.port now = some q → b.Unused q.addr
  | .manager m op => (b.managers m).Spares op
  | _ => True

namespace Balanced

theorem delivered (h : b.Balanced done) : b.Delivered done :=
  ⟨h.posted, h.oneLive, h.held, h.left⟩

theorem of_delivered (h : b.Delivered done) (haccounts : b.list.Accounts fun a => phaseOf (done a))
    (hwellformed : ∀ m, (b.managers m).Wellformed)
    (hlawful : ∀ a, Lawful (done a ++ pending b.queue a)) : b.Balanced done :=
  ⟨haccounts, h.posted, hwellformed, h.oneLive, hlawful, h.held, h.left⟩

theorem passRequests (h : b.Balanced done) : b.passRequests.Balanced done := by
  refine of_delivered h.delivered.passRequests
    ⟨h.accounts.nodup, h.accounts.ended, h.accounts.bounded⟩ (fun m => ?_) h.lawful
  have hm := h.wellformed m
  exact ⟨by simpa using hm.peerList, by simpa using hm.connectingPeerList,
    by simpa [ThreadedConnectionManager.peers] using hm.nodup⟩

theorem manager (h : b.Balanced done) {m : ManagerId} {op : ThreadedConnectionManager.Op}
    {t : ThreadedConnectionManager} {msgs : List Message} (hspares : (b.managers m).Spares op)
    (hop : (b.managers m).perform op = some (t, msgs)) :
    Balanced { b.setManager m t with queue := b.queue ++ msgs } done := by
  obtain ⟨hkeeps, hwell⟩ := ThreadedConnectionManager.keeps_perform (h.wellformed m) hspares hop
  have hdelivered := h.delivered.manager hkeeps hop
  refine of_delivered hdelivered h.accounts (fun m' => ?_) fun a => ?_
  · by_cases hm : m' = m
    · subst hm
      simpa [setManager] using hwell
    · simpa [setManager, Function.update_of_ne hm] using h.wellformed m'
  · by_cases hmsgs : pending msgs a = []
    · rw [pending_append, hmsgs, List.append_nil]
      exact h.lawful a
    · obtain ⟨q, hq, hqinfo⟩ := hkeeps.own a hmsgs
      have hheld : Held { b.setManager m t with queue := b.queue ++ msgs } m q :=
        held_iteration.mpr (by rwa [if_pos rfl])
      exact hdelivered.held m q a hheld hqinfo ▸ hwell.lawful hq

theorem of_list (h : b.Balanced done) {list : ServerList} {done' : Ptr → List Report}
    {queue : List Message} (haccounts : list.Accounts fun a => phaseOf (done' a))
    (hposted : ∀ msg ∈ queue, msg.id ∈ postedIds)
    (hreports : ∀ a, done' a ++ pending queue a = done a ++ pending b.queue a)
    (hentries : ∀ q ∈ list.peerList, q.addr ∈ b.list.peerList.map PeerInfo.addr) :
    Balanced { b with list := list, queue := queue } done' := by
  refine of_delivered (h.delivered.of_list hposted hreports hentries) haccounts h.wellformed
    fun a => ?_
  rw [hreports]
  exact h.lawful a

theorem processMessage (h : b.Balanced done) {queue : List Message}
    (hqueue : b.queue = msg :: queue) (now : Datetime) :
    Balanced { b with list := b.list.processMessage msg now, queue := queue } (taken done msg) := by
  have hlawful : ∀ a, Lawful (taken done msg a ++ pending queue a) := by
    intro a
    rw [taken_append, ← hqueue]
    exact h.lawful a
  have hnext : ∀ r, report msg.id = some r →
      Lawful (done msg.param ++ (r :: pending queue msg.param)) := by
    intro r hr
    have hlast := hlawful msg.param
    rw [taken, Function.update_self, hr, List.append_assoc] at hlast
    exact hlast
  have hphases : ∀ r, report msg.id = some r → (fun a => phaseOf (taken done msg a)) =
      Function.update (fun a => phaseOf (done a)) msg.param r.next := by
    intro r hr
    ext a
    rw [taken, hr, Option.toList_some]
    by_cases ha : a = msg.param
    · subst ha
      rw [Function.update_self, Function.update_self, (hnext r hr).phaseOf_append]
    · rw [Function.update_of_ne ha, Function.update_of_ne ha]
  have haccounts := h.accounts.processMessage (h.posted msg (hqueue ▸ List.mem_cons_self))
    (fun r hr => (hnext r hr).ended_iff) now
  refine of_delivered (h.delivered.take hqueue now) ?_ h.wellformed hlawful
  cases hr : report msg.id with
  | none =>
      rw [hr] at haccounts
      rw [taken_of_none hr]
      exact haccounts
  | some r =>
      rw [hr] at haccounts
      rw [hphases r hr]
      exact haccounts

theorem adminRequest (h : b.Balanced done) (hid : msg.id ∈ requestIds) :
    Balanced { b with queue := b.queue ++ [msg] } done := by
  apply of_delivered (h.delivered.adminRequest hid) h.accounts h.wellformed
  intro a
  rw [pending_append, pending_cons, (Delivered.request_spec hid).2]
  simpa using h.lawful a

theorem cleanConnections (h : b.Balanced done) :
    Balanced { b with list := b.list.cleanConnections } done := by
  apply h.of_list h.accounts.cleanConnections h.posted (fun a => rfl)
  intro q hq
  have hmem := ServerList.AllPeers.cleanConnections (P := fun q =>
    q.addr ∈ b.list.peerList.map PeerInfo.addr) fun q hq => List.mem_map_of_mem hq
  exact hmem q hq

theorem purgeConnections (h : b.Balanced done) (now : Datetime) :
    Balanced { b with list := b.list.purgeConnections now } done := by
  apply h.of_list (h.accounts.purgeConnections now) h.posted (fun a => rfl)
  intro q hq
  have hmem := ServerList.AllPeers.purgeConnections (P := fun q =>
    q.addr ∈ b.list.peerList.map PeerInfo.addr) (fun q hq => List.mem_map_of_mem hq) now
  exact hmem q hq

/-- A new connection, to whose entry nobody else can report. -/
theorem enter (h : b.Balanced done) (pcm : ManagerId) {p : ConnectionPeer} (hp : p.Connecting)
    (hpinfo : p.pinfo = some a) (hunused : b.Unused a)
    (hpeerList : ∀ m, (b'.managers m).peerList = (b.managers m).peerList)
    (hconnecting : ∀ m, (b'.managers m).connectingPeerList =
      (b.managers m).connectingPeerList ++ if m = pcm then [p] else [])
    (hqueue : b'.queue = b.queue)
    (haccounts : b'.list.Accounts (Function.update (fun a => phaseOf (done a)) a .connecting))
    (hentries : ∀ q ∈ b'.list.peerList, q.addr ∈ b.list.peerList.map PeerInfo.addr ∨ q.addr = a) :
    b'.Balanced (Function.update done a []) := by
  have hpeers : ∀ m, (b'.managers m).peers = (b.managers m).peers ++ if m = pcm then [p] else [] :=
    fun m => by simp [ThreadedConnectionManager.peers, hpeerList, hconnecting]
  have hphases : (fun x => phaseOf (Function.update done a [] x)) =
      Function.update (fun x => phaseOf (done x)) a .connecting := by
    ext x
    by_cases hx : x = a
    · subst hx
      rw [Function.update_self, Function.update_self]
      rfl
    · rw [Function.update_of_ne hx, Function.update_of_ne hx]
  have hdelivered := h.delivered.enter pcm hp.reports hpinfo hunused hpeers hqueue hentries
  refine of_delivered hdelivered (hphases ▸ haccounts)
    (fun m => ⟨?_, ?_, hdelivered.oneLive.nodup m⟩) fun x => ?_
  · exact hpeerList m ▸ (h.wellformed m).peerList
  · rw [hconnecting]
    exact forall_mem_enter (h.wellformed m).connectingPeerList (.inl hp)
  · rw [hqueue]
    by_cases hx : x = a
    · subst hx
      rw [Function.update_self, hunused.2]
      exact .inl rfl
    · rw [Function.update_of_ne hx]
      exact h.lawful x

theorem setServer (h : b.Balanced done) {pClient : Socket} {pcm : ManagerId}
    {addr parallelAddr : Ptr} {sock : Int} {memory : Endpoint → Nat → UInt8}
    (hsound : b.Sound (.setServer pClient pcm now addr parallelAddr sock memory)) :
    ∃ done', (b.setServer pClient pcm now addr parallelAddr sock memory).Balanced done' := by
  obtain ⟨hright, hfresh, hunused, hreuse⟩ := hsound
  have ho := b.list.getServer_outcome pClient.ip pClient.port (some pcm) now addr parallelAddr
  have hlist := b.list_setServer pClient pcm now addr parallelAddr sock memory
  have hconnecting := b.connectingPeerList_setServer pClient pcm now addr parallelAddr sock memory
  have hrefused : (b.list.getServer pClient.ip pClient.port (some pcm) now addr parallelAddr).2 =
      none → b.setServer pClient pcm now addr parallelAddr sock memory =
        Balancer.passRequests { b with list := (b.list.getServer pClient.ip pClient.port (some pcm)
          now addr parallelAddr).1 } := by
    intro hnone
    rw [Balancer.setServer, hnone]
  generalize b.list.getServer pClient.ip pClient.port (some pcm) now addr parallelAddr = o
    at ho hlist hconnecting hrefused
  have hreturned : ∀ q, o.2 = some q → b.Unused q.addr := by
    intro q hq
    rcases ho.returned hq with hnew | ⟨p, hp, rfl⟩
    · exact hnew ▸ hunused
    · exact hreuse p hp
  -- the entry that is armed again belongs to a connection that has ended
  have hended : ∀ q, o.2 = some q → q.addr ∈ b.list.peerList.map PeerInfo.addr →
      phaseOf (done q.addr) = .ended := by
    intro q hq hlisted
    obtain ⟨p, hp, haddr⟩ := List.mem_map.mp hlisted
    have hlawful := h.lawful q.addr
    have hleft := h.left p hp
    rw [haddr, (hreturned q hq).2, List.append_nil] at hleft
    rw [(hreturned q hq).2, List.append_nil] at hlawful
    refine hlawful.phaseOf_of_concluded (hleft.resolve_left ?_)
    rintro ⟨m, x, hx, hxinfo⟩
    exact (hreturned q hq).1 m x hx hxinfo
  have haccounts := h.accounts.outcome ho hright hfresh hended
  cases hq : o.2 with
  | none =>
      have hkept : Balanced { b with list := o.1, queue := b.queue } done := by
        rw [hq] at haccounts
        apply h.of_list haccounts h.posted (fun a => rfl)
        intro x hx
        rcases ho.listed hx with ⟨p, hp, haddr, -⟩ | ⟨hsome, -⟩
        · exact haddr ▸ List.mem_map_of_mem hp
        · cases hq.symm.trans hsome
      exact ⟨done, hrefused hq ▸ hkept.passRequests⟩
  | some q =>
      rw [hq] at haccounts hconnecting
      refine ⟨_, h.enter pcm (ConnectionPeer.connecting_create _ _ _ _) rfl (hreturned q hq)
        (b.peerList_setServer pClient pcm now addr parallelAddr sock memory) hconnecting
        (b.queue_setServer pClient pcm now addr parallelAddr sock memory) ?_ ?_⟩
      · rw [hlist]
        exact ⟨haccounts.nodup, haccounts.ended, haccounts.bounded⟩
      · intro x hx
        rw [hlist] at hx
        rcases ho.listed hx with ⟨p, hp, haddr, -⟩ | ⟨hsome, -⟩
        · exact .inl (haddr ▸ List.mem_map_of_mem hp)
        · exact .inr (by rw [Option.some.inj (hq.symm.trans hsome)])

theorem perform (h : b.Balanced done) {op : Op} (hsound : b.Sound op)
    (hb : b.perform op = some b') : ∃ done', b'.Balanced done' := by
  cases performs hb with
  | setServer => exact h.setServer hsound
  | processMessage hqueue now => exact ⟨_, (h.processMessage hqueue now).passRequests⟩
  | adminRequest hid => exact ⟨done, h.adminRequest hid⟩
  | cleanConnections => exact ⟨done, h.cleanConnections.passRequests⟩
  | purgeConnections now => exact ⟨done, (h.purgeConnections now).passRequests⟩
  | manager m hop => exact ⟨done, h.manager hsound hop⟩

theorem started (h : Started b) : b.Balanced fun _ => [] := by
  obtain ⟨list, hlist, rfl⟩ := h
  have hfresh := hlist.fresh
  have hheld : ∀ m p, ¬(create list).Held m p := fun m p hp => (nomatch hp)
  have hempty : ∀ q, q ∉ (create list).list.peerList := by
    intro q hq
    change q ∈ list.peerList at hq
    rw [hfresh.peerList] at hq
    cases hq
  refine ⟨⟨?_, fun q hq => absurd hq (hempty q), fun j srv hsrv ph => ?_⟩,
    fun msg hmsg => (nomatch hmsg), fun m => ?_, oneLive_started ⟨list, hlist, rfl⟩,
    fun a => .inl rfl, fun m p a hp => absurd hp (hheld m p), fun q hq => absurd hq (hempty q)⟩
  · change (list.peerList.map PeerInfo.addr).Nodup
    rw [hfresh.peerList]
    exact List.nodup_nil
  · obtain ⟨-, hconnected, hconnecting, -⟩ := hfresh.servers srv (List.mem_of_getElem? hsrv)
    have hzero : srv.counter ph = 0 := by
      cases ph with
      | connecting => exact hconnecting
      | established => exact hconnected
      | ended => rfl
    rw [hzero]
    exact ⟨Int.le_refl 0, Int.natCast_nonneg _⟩
  · exact ⟨fun p hp => (nomatch hp), fun p hp => (nomatch hp), List.nodup_nil⟩

end Balanced

/-- Nothing is going on: no peer is active and no message waits. -/
structure Idle (b : Balancer) : Prop where
  inactive : ∀ m p, b.Held m p → p.isActive = false
  queue : b.queue = []

theorem Balanced.ended (h : b.Balanced done) (hidle : b.Idle) {q : PeerInfo}
    (hq : q ∈ b.list.peerList) : phaseOf (done q.addr) = .ended := by
  have hleft := h.left q hq
  have hlawful := h.lawful q.addr
  rw [hidle.queue, pending_nil, List.append_nil] at hleft hlawful
  refine hlawful.phaseOf_of_concluded (hleft.elim ?_ id)
  rintro ⟨m, p, hp, hpinfo⟩
  have hreports := h.held m p q.addr hp hpinfo
  rw [hidle.queue, pending_nil, List.append_nil] at hreports
  rw [← hreports]
  exact (h.wellformed m).staged.concluded ThreadedConnectionManager.final_gone hp
    (hidle.inactive m p hp)

theorem no_phantom_load (hb : ReachableBy Sound b) (hidle : b.Idle) :
    ∀ srv ∈ b.list.serversList, srv.connecting = 0 ∧ srv.connected = 0 := by
  have hbalanced : ∃ done, b.Balanced done := by
    refine Reach.invariant (I := fun b => ∃ done, b.Balanced done) ?_ ?_ hb
    · exact fun b hstart => ⟨_, .started hstart⟩
    · rintro b op b' ⟨done, h⟩ hsound hstep
      exact h.perform hsound hstep
  obtain ⟨done, h⟩ := hbalanced
  intro srv hsrv
  obtain ⟨j, hj⟩ := List.mem_iff_getElem?.mp hsrv
  have hzero : ∀ ph, ph ≠ .ended → srv.counter ph = 0 := by
    intro ph hph
    have hload : b.list.load (fun a => phaseOf (done a)) ph j = 0 := by
      rw [ServerList.load, List.countP_eq_zero]
      intro q hq
      simp [h.ended hidle hq, Ne.symm hph]
    have hbound := h.accounts.bounded j srv hj ph
    rw [hload] at hbound
    omega
  exact ⟨hzero .connecting (by decide), hzero .established (by decide)⟩

namespace Sample

/-- The server answers, the client goes, and both reports are processed. -/
def connection : List Op :=
  [accept,
    .manager 1 (.manageConnectingPeer 0 (fun _ => false) (fun _ => true) .idle),
    .manager 1 (.manageConnections 0 (fun _ => true) (fun _ => false)
      ConnectionPeer.Sample.clientCloses),
    .processMessage 11, .processMessage 12]

def purge : List Op :=
  [accept, .purgeConnections 20, .manager 1 .serveRequest, .processMessage 21]

theorem sound_accept : start.Sound accept := by
  refine ⟨?_, fun q hq => (nomatch hq), ⟨fun m p hp => (nomatch hp), rfl⟩, ?_⟩
  · intro i dst hassign
    have hfirst : start.list.assignment ConnectionPeer.Sample.client.ip
        ConnectionPeer.Sample.client.port 10 = some (0, ServerList.Sample.server1, 80) := by
      decide +kernel
    obtain ⟨rfl, rfl⟩ := Prod.mk.inj (Option.some.inj (hassign.symm.trans hfirst))
    decide +kernel
  · intro q hq
    have hnone : start.list.reusedPeer ConnectionPeer.Sample.client.ip
        ConnectionPeer.Sample.client.port 10 = none := by decide +kernel
    cases hnone.symm.trans hq

theorem idle_of_run {ops : List Op} (hb : ops.foldlM perform start = some b)
    (hops : ∀ op ∈ ops, op.manager? = none ∨ op.manager? = some 1)
    (hrun : (ops.foldlM perform start).all fun b =>
      b.queue.isEmpty && (b.managers 1).peers.all (!·.isActive)) : b.Idle := by
  rw [hb, Option.all_some, Bool.and_eq_true, List.isEmpty_iff, List.all_eq_true] at hrun
  refine ⟨fun m p hp => ?_, hrun.1⟩
  obtain rfl := eq_of_held hb hops hp
  simpa using hrun.2 p hp

theorem guarded_connection : Guarded perform Sound start connection :=
  ⟨sound_accept, fun _ _ => ⟨trivial, fun _ _ => ⟨trivial, fun _ _ => ⟨trivial, fun _ _ =>
    ⟨trivial, fun _ _ => trivial⟩⟩⟩⟩⟩

end Sample

theorem no_phantom_load_connection : ∃ b, Sample.connection.foldlM perform Sample.start = some b ∧
    b.Idle ∧ b.list.peerList ≠ [] ∧
      ∀ srv ∈ b.list.serversList, srv.connecting = 0 ∧ srv.connected = 0 := by
  have hsome : (Sample.connection.foldlM perform Sample.start).isSome := by decide +kernel
  obtain ⟨b, hb⟩ := Option.isSome_iff_exists.mp hsome
  have hlisted : (Sample.connection.foldlM perform Sample.start).all fun b =>
      !b.list.peerList.isEmpty := by decide +kernel
  have hidle : b.Idle := Sample.idle_of_run hb (by decide) (by decide +kernel)
  refine ⟨b, hb, hidle, ?_, no_phantom_load
    ((Reach.start Sample.started_start).foldlM Sample.guarded_connection hb) hidle⟩
  simpa [hb] using hlisted

/-- A connecting peer that is closed on request reports an end: `connecting` stays. -/
theorem phantom_load_purge : ¬∀ b, ReachableBy anyStep b → b.Idle →
    ∀ srv ∈ b.list.serversList, srv.connecting = 0 ∧ srv.connected = 0 := by
  intro h
  have hsome : (Sample.purge.foldlM perform Sample.start).isSome := by decide +kernel
  obtain ⟨b, hb⟩ := Option.isSome_iff_exists.mp hsome
  have hload : (Sample.purge.foldlM perform Sample.start).all fun b =>
      b.list.serversList.any (·.connecting == 1) := by decide +kernel
  rw [hb, Option.all_some, List.any_eq_true] at hload
  obtain ⟨srv, hsrv, hone⟩ := hload
  have hzero := (h b ((Reach.start Sample.started_start).foldlM (guarded_anyStep _ _ _) hb)
    (Sample.idle_of_run hb (by decide) (by decide +kernel)) srv hsrv).1
  rw [hzero] at hone
  cases hone

end Balancer

end Relb
