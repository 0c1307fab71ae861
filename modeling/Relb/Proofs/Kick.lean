import Mathlib.Data.List.Forall2
import Relb.Proofs.BindBasics
import Relb.Proofs.Copies
/-!
# A kick hits its target only

The request names the address that a copy gives, and the copy was found by its client. Since
the addresses are not recycled, the entry that is listed under the address when `ServerList`
takes the request still belongs to that client, and so do the peers that are told to close.
-/

namespace Relb

open Lib

namespace ThreadedConnectionManager

variable {m t : ThreadedConnectionManager} {msgs : List Message} {T : ConnectionPeer → Prop}

/-- Some peers that satisfy `T` have been closed, and no request has come. -/
def Served (T : ConnectionPeer → Prop) (m t : ThreadedConnectionManager) : Prop :=
  ∃ close : ConnectionPeer → ConnectionPeer, (∀ p, close p = p ∨ T p) ∧
    t.peerList = m.peerList.map close ∧ t.connectingPeerList = m.connectingPeerList.map close ∧
      ∀ r ∈ t.toBeClosed, r ∈ m.toBeClosed

theorem Served.refl (T : ConnectionPeer → Prop) (m : ThreadedConnectionManager) :
    m.Served T m :=
  ⟨id, fun _ => .inl rfl, (List.map_id _).symm, (List.map_id _).symm, fun _ h => h⟩

theorem Served.trans {u : ThreadedConnectionManager} (h : m.Served T t) (h' : t.Served T u) :
    m.Served T u := by
  obtain ⟨close, hclose, hpeers, hconnecting, hrequests⟩ := h
  obtain ⟨close', hclose', hpeers', hconnecting', hrequests'⟩ := h'
  refine ⟨close' ∘ close, fun p => ?_, ?_, ?_, fun r hr => hrequests r (hrequests' r hr)⟩
  · rcases hclose p with hsame | htarget
    · rw [Function.comp_apply, hsame]
      exact hclose' p
    · exact .inr htarget
  · rw [hpeers', hpeers, List.map_map]
  · rw [hconnecting', hconnecting, List.map_map]

theorem served_serveRequest (hT : ∀ p : ConnectionPeer, p.pinfo ∈ m.toBeClosed → T p)
    (hop : m.serveRequest = some (t, msgs)) : m.Served T t := by
  have hstep : m.perform .serveRequest = some (t, msgs) := hop
  cases iteration_perform hstep with
  | serveRequest top htop =>
      refine ⟨(·.closePInfo top), fun p => ?_, rfl, rfl, fun r hr => List.dropLast_subset _ hr⟩
      by_cases hp : p.pinfo = top
      · exact .inr (hT p (hp ▸ List.mem_of_getLast? htop))
      · exact .inl (ConnectionPeer.closePInfo_other hp)

end ThreadedConnectionManager

namespace ServerList

theorem processMessage_kicked (s : ServerList) (x : Ptr) (now : Datetime) :
    s.processMessage ⟨statusPeerConnectionKicked, x⟩ now = s ∨
      ∃ q ∈ s.peerList, q.addr = x ∧
        s.processMessage ⟨statusPeerConnectionKicked, x⟩ now =
          s.closePInfo q.manager (some x) := by
  rcases processMessage_cases s ⟨statusPeerConnectionKicked, x⟩ now with
    ⟨-, hsame⟩ | ⟨index, q, hq, haddr, hmsg⟩
  · exact .inl hsame
  · refine .inr ⟨q, List.mem_of_getElem? hq, haddr, ?_⟩
    obtain rfl : q.addr = x := haddr
    rw [hmsg]
    have hposted : statusPeerConnectionKicked ∈ postedIds := by decide
    have hreport : ConnectionPeer.report statusPeerConnectionKicked = none := by decide
    exact countMessage_of_none hposted hreport

end ServerList

namespace Balancer

variable {b b' : Balancer} {op : Op}

/-- `new` returns no address that an entry or a copy uses. -/
def NotRecycled (b : Balancer) : Op → Prop
  | .setServer _ _ _ addr parallelAddr _ _ => b.list.Unused addr parallelAddr
  | _ => True

theorem matched_perform (h : b.list.Matched) (hguard : b.NotRecycled op)
    (hb : b.perform op = some b') : b'.list.Matched ∧ b.list.Remembers b'.list := by
  cases performs hb with
  | setServer pClient pcm now addr parallelAddr sock memory =>
      rw [list_setServer]
      exact (b.list.getServer_outcome pClient.ip pClient.port (some pcm) now addr
        parallelAddr).matched h hguard
  | processMessage _ now => exact h.processMessage _ now
  | adminRequest => exact ⟨h, fun p n hn => hn⟩
  | cleanConnections => exact h.cleanConnections
  | purgeConnections now => exact h.purgeConnections now
  | manager => exact ⟨h, fun p n hn => hn⟩

end Balancer

namespace AdminHTTPServer

variable {a : AdminHTTPServer} {heap : Ptr → Option PeerInfo} {msg : Message} {now : Datetime}

theorem map_processMessage {α : Type} {f : PeerInfo → α}
    (hf : ∀ (q : PeerInfo) status now, f (q.setStatus status now) = f q) (p : Ptr) :
    ((a.processMessage heap msg now).2 p).map f = (heap p).map f := by
  unfold processMessage
  dsimp only
  split_ifs
  · split <;> rfl
  · split
    · rename_i c _ hc
      dsimp only
      by_cases hp : p = msg.param
      · subst hp
        rw [Function.update_self, hc]
        exact congrArg some (hf c _ _)
      · rw [Function.update_of_ne hp]
    · rfl

end AdminHTTPServer

namespace Bind

variable {w w₁ w₂ w₃ w₄ : Bind} {op : Op} {x : Ptr} {ip : IpAddress} {port : UInt16}

def NotRecycled (w : Bind) : Op → Prop
  | .balancer op => w.balancer.NotRecycled op
  | _ => True

/-! ## The addresses keep their clients -/

theorem names_receive {now : Datetime} (h : w.receive now = some w₁) :
    w₁.list.names = w.list.names := by
  unfold receive at h
  split at h
  · obtain rfl := Option.some.inj h
    funext p
    exact AdminHTTPServer.map_processMessage (by intro q status now; rfl) p
  · cases h

/-- Copies and entries agree on the clients, and no request waits in `ServerList`. -/
structure Consistent (w : Bind) : Prop where
  matched : w.list.Matched
  attended : Balancer.Attended w.list

theorem consistent_started (h : w.Started) : w.Consistent := by
  have hattended := Balancer.attended_started h.balancer
  obtain ⟨list, hlist, hw⟩ := h.balancer
  refine ⟨fun p client q hq => ?_, hattended⟩
  have hnone : w.list.peerList = [] :=
    (congrArg (fun b : Balancer => b.list.peerList) hw).trans hlist.fresh.peerList
  rw [hnone] at hq
  cases hq

theorem consistent_perform (h : w.Consistent) (hguard : w.NotRecycled op)
    (hop : w.perform op = some w₁) : w₁.Consistent ∧ w.list.Remembers w₁.list := by
  cases op with
  | balancer op =>
      obtain ⟨b, hb, rfl⟩ := balancer_of_perform hop
      obtain ⟨hmatched, hremembers⟩ := Balancer.matched_perform h.matched hguard hb
      exact ⟨⟨hmatched, Balancer.attended_perform h.attended hb⟩, hremembers⟩
  | receive now =>
      obtain ⟨hpeers, hpassed⟩ := peerList_receive hop
      have hnames := names_receive hop
      refine ⟨⟨h.matched.of_eq hnames fun q hq => ⟨q, hpeers ▸ hq, rfl, rfl⟩, ?_, ?_⟩,
        .of_eq hnames⟩
      · intro q hq
        exact h.attended.managed q (hpeers ▸ hq)
      · exact hpassed.trans h.attended.passed
  | ban ip port =>
      obtain rfl := Option.some.inj hop
      exact ⟨⟨h.matched, h.attended⟩, fun p n hn => hn⟩
  | banAll ip port =>
      obtain rfl := Option.some.inj hop
      exact ⟨⟨h.matched, h.attended⟩, fun p n hn => hn⟩
  | kick ip port =>
      obtain rfl := Option.some.inj hop
      exact ⟨⟨h.matched, h.attended⟩, fun p n hn => hn⟩

theorem consistent_reachable (hw : ReachableBy NotRecycled w) : w.Consistent := by
  refine Reach.invariant ?_ ?_ hw
  · exact fun w hstart => consistent_started hstart
  · exact fun w op w' h hguard hstep => (consistent_perform h hguard hstep).1

theorem consistent_foldlM {ops : List Op} (h : w.Consistent)
    (hguard : Guarded perform NotRecycled w ops) (hrun : ops.foldlM perform w = some w₁) :
    w₁.Consistent ∧ w.list.Remembers w₁.list := by
  induction ops generalizing w with
  | nil =>
      obtain rfl := Option.some.inj hrun
      exact ⟨h, fun p n hn => hn⟩
  | cons op ops ih =>
      obtain ⟨u, hu, hrun⟩ := foldlM_cons_eq_some.mp hrun
      obtain ⟨hnext, hremembers⟩ := consistent_perform h hguard.1 hu
      obtain ⟨hlast, hremembers'⟩ := ih hnext (hguard.2 u hu) hrun
      exact ⟨hlast, fun p n hn => hremembers' p n (hremembers p n hn)⟩

/-! ## The kick -/

theorem names_of_requested (h : w.admin.requested w.list.parallels ip port = some x) :
    ∃ p, w.list.names p = some ((ip, port), some x) := by
  obtain ⟨p, -, hp⟩ := List.exists_of_findSome?_eq_some h
  obtain ⟨c, hc, hx⟩ := Option.bind_eq_some_iff.mp hp
  split at hx
  · rename_i hclient
    refine ⟨p, ?_⟩
    rw [ServerList.names, hc, Option.map_some, hx, PeerInfo.client, hclient.1, hclient.2]
  · cases hx

/-- The peer belongs to a connection of the client. -/
def Hit (w : Bind) (ip : IpAddress) (port : UInt16) (p : ConnectionPeer) : Prop :=
  ∃ q ∈ w.list.peerList, p.pinfo = some q.addr ∧ q.srcIp = ip ∧ q.srcPort = port

/-- A kick from the page to the peers: other steps may come before `ServerList` takes the request
for the entry `x`. The managers that serve requests afterwards have no other ones. -/
structure KickProcessed (ip : IpAddress) (port : UInt16) (x : Ptr) (w w₁ w₂ w₃ w₄ : Bind) :
    Prop where
  kicked : w.perform (.kick ip port) = some w₁
  waited : ∃ ops, Guarded perform NotRecycled w₁ ops ∧ ops.foldlM perform w₁ = some w₂
  requested : w₂.balancer.queue.head? = some ⟨statusPeerConnectionKicked, x⟩
  processed : ∃ now, w₂.perform (.balancer (.processMessage now)) = some w₃
  served : ∃ ms : List ManagerId, (∀ m ∈ ms, (w₂.balancer.managers m).toBeClosed = []) ∧
    (ms.map fun m => Op.balancer (.manager m .serveRequest)).foldlM perform w₃ = some w₄

/-- The managers work, and nothing else happens. -/
theorem served_foldlM {T : ConnectionPeer → Prop} {ms : List ManagerId}
    (hT : ∀ m ∈ ms, ∀ p : ConnectionPeer, p.pinfo ∈ (w₃.balancer.managers m).toBeClosed → T p)
    (h : (ms.map fun m => Op.balancer (.manager m .serveRequest)).foldlM perform w₃ = some w₄) :
    w₄.list = w₃.list ∧ w₄.admin = w₃.admin ∧
      ∀ m, (w₃.balancer.managers m).Served T (w₄.balancer.managers m) := by
  induction ms generalizing w₃ with
  | nil =>
      obtain rfl := Option.some.inj h
      exact ⟨rfl, rfl, fun m => .refl T _⟩
  | cons m ms ih =>
      rw [List.map_cons] at h
      obtain ⟨u, hu, h⟩ := foldlM_cons_eq_some.mp h
      obtain ⟨b, hb, rfl⟩ := balancer_of_perform hu
      obtain ⟨⟨t, msgs⟩, hserve, rfl⟩ := Option.map_eq_some_iff.mp hb
      have hserved : ∀ m', (w₃.balancer.managers m').Served T
          (({ w₃.balancer.setManager m t with queue := w₃.balancer.queue ++ msgs } :
            Balancer).managers m') := by
        intro m'
        change (w₃.balancer.managers m').Served T ((w₃.balancer.setManager m t).managers m')
        by_cases hm : m' = m
        · subst hm
          rw [Balancer.managers_setManager_self]
          exact ThreadedConnectionManager.served_serveRequest (hT m' List.mem_cons_self) hserve
        · rw [Balancer.managers_setManager_of_ne hm]
          exact .refl T _
      have hfewer : ∀ m' ∈ ms, ∀ p : ConnectionPeer, p.pinfo ∈ (({ w₃.balancer.setManager m t with
          queue := w₃.balancer.queue ++ msgs } : Balancer).managers m').toBeClosed → T p := by
        intro m' hm' p hp
        obtain ⟨-, -, -, -, hrequests⟩ := hserved m'
        exact hT m' (List.mem_cons_of_mem _ hm') p (hrequests _ hp)
      obtain ⟨hlist, hadmin, hrest⟩ := ih hfewer h
      exact ⟨hlist, hadmin, fun m' => (hserved m').trans (hrest m')⟩

/-- `ServerList` only tells the manager of the entry. -/
theorem kicked_spec {now : Datetime} (hpassed : w₂.list.closeRequests = [])
    (hhead : w₂.balancer.queue.head? = some ⟨statusPeerConnectionKicked, x⟩)
    (h : w₂.perform (.balancer (.processMessage now)) = some w₃) :
    w₃.list = w₂.list ∧ w₃.admin = w₂.admin ∧
      (∀ m, (w₃.balancer.managers m).peerList = (w₂.balancer.managers m).peerList ∧
        (w₃.balancer.managers m).connectingPeerList =
          (w₂.balancer.managers m).connectingPeerList) ∧
      ∀ m, (w₂.balancer.managers m).toBeClosed = [] →
        ∀ r ∈ (w₃.balancer.managers m).toBeClosed, ∃ q ∈ w₂.list.peerList,
          q.addr = x ∧ r = some x := by
  obtain ⟨b, hb, rfl⟩ := balancer_of_perform h
  change w₂.balancer.processMessage now = some b at hb
  obtain ⟨queue, hqueue⟩ := List.head?_eq_some_iff.mp hhead
  rw [Balancer.processMessage, hqueue] at hb
  obtain rfl := Option.some.inj hb
  refine ⟨?_, rfl, fun m => ⟨Balancer.peerList_passRequests _ m,
    Balancer.connectingPeerList_passRequests _ m⟩, fun m hidle r hr => ?_⟩
  · have hsame : { w₂.list with closeRequests := [] } = w₂.list := by rw [← hpassed]
    change { w₂.list.processMessage _ now with closeRequests := [] } = w₂.list
    rcases w₂.list.processMessage_kicked x now with hnone | ⟨q, -, -, hclose⟩
    · rw [hnone, hsame]
    · rw [hclose, ServerList.passed_closePInfo, hsame]
  · rw [Balancer.toBeClosed_passRequests] at hr
    change r ∈ (w₂.balancer.managers m).toBeClosed ++
      ((w₂.list.processMessage _ now).closeRequests.filter _).map Prod.snd at hr
    rw [hidle, List.nil_append, List.mem_map] at hr
    obtain ⟨y, hy, rfl⟩ := hr
    have hmem := List.mem_of_mem_filter hy
    rcases w₂.list.processMessage_kicked x now with hnone | ⟨q, hq, haddr, hclose⟩
    · rw [hnone, hpassed] at hmem
      cases hmem
    · rw [hclose, ServerList.closeRequests_closePInfo, hpassed, List.nil_append,
        Option.mem_toList, Option.map_eq_some_iff] at hmem
      obtain ⟨_, -, rfl⟩ := hmem
      exact ⟨q, hq, haddr, rfl⟩

/-- A kick for a connection that the admin does not show changes nothing. Otherwise the page only
posts the request; later, `ServerList` and the web admin stay as they are, and of the peers
only those of the client can change. -/
theorem kick_hits_target (hw : ReachableBy NotRecycled w) (ip : IpAddress) (port : UInt16) :
    (w.admin.requested w.list.parallels ip port = none → w.perform (.kick ip port) = some w) ∧
      ∀ x w₁ w₂ w₃ w₄, w.admin.requested w.list.parallels ip port = some x →
        KickProcessed ip port x w w₁ w₂ w₃ w₄ →
        (w₁.list = w.list ∧ w₁.admin = w.admin ∧ w₁.balancer.managers = w.balancer.managers) ∧
        w₄.list = w₂.list ∧ w₄.admin = w₂.admin ∧
        ∀ m, List.Forall₂ (fun p p' => p' = p ∨ w₂.Hit ip port p)
            (w₂.balancer.managers m).peerList (w₄.balancer.managers m).peerList ∧
          List.Forall₂ (fun p p' => p' = p ∨ w₂.Hit ip port p)
            (w₂.balancer.managers m).connectingPeerList
            (w₄.balancer.managers m).connectingPeerList := by
  have hcons := consistent_reachable hw
  refine ⟨fun hnone => ?_, fun x w₁ w₂ w₃ w₄ hx h => ?_⟩
  · change some (w.post (w.admin.kick w.list.parallels ip port)) = some w
    rw [AdminHTTPServer.kick, hnone]
    simp [post]
  · obtain ⟨p, hp⟩ := names_of_requested hx
    have hfresh : w.NotRecycled (.kick ip port) := trivial
    obtain ⟨hcons₁, hkept₁⟩ := consistent_perform hcons hfresh h.kicked
    obtain ⟨ops, hguard, hrun⟩ := h.waited
    obtain ⟨hcons₂, hkept₂⟩ := consistent_foldlM hcons₁ hguard hrun
    have hclient : ∀ q ∈ w₂.list.peerList, q.addr = x → q.client = (ip, port) := by
      rintro q hq rfl
      exact hcons₂.matched p _ q hq (hkept₂ p _ (hkept₁ p _ hp))
    obtain rfl := Option.some.inj h.kicked
    refine ⟨⟨rfl, rfl, rfl⟩, ?_⟩
    obtain ⟨now, hprocessed⟩ := h.processed
    obtain ⟨hlist, hadmin, hpeers, hrequests⟩ :=
      kicked_spec hcons₂.attended.passed h.requested hprocessed
    obtain ⟨ms, hidle, hserve⟩ := h.served
    have hhit : ∀ m ∈ ms, ∀ p : ConnectionPeer,
        p.pinfo ∈ (w₃.balancer.managers m).toBeClosed → w₂.Hit ip port p := by
      intro m hm p hp
      obtain ⟨q, hq, haddr, hpinfo⟩ := hrequests m (hidle m hm) _ hp
      have hsame := Prod.mk.inj (hclient q hq haddr)
      exact ⟨q, hq, hpinfo.trans (congrArg some haddr.symm), hsame.1, hsame.2⟩
    obtain ⟨hlist', hadmin', hserved⟩ := served_foldlM hhit hserve
    refine ⟨hlist'.trans hlist, hadmin'.trans hadmin, fun m => ?_⟩
    obtain ⟨close, hclose, hpeers', hconnecting', -⟩ := hserved m
    rw [hpeers', hconnecting', (hpeers m).1, (hpeers m).2, List.forall₂_map_right_iff,
      List.forall₂_map_right_iff, List.forall₂_same, List.forall₂_same]
    exact ⟨fun p _ => hclose p, fun p _ => hclose p⟩

namespace Sample

theorem guarded_established : Guarded perform NotRecycled start established :=
  ⟨⟨fun _ hq => (nomatch hq), fun _ _ hn => (nomatch hn), rfl⟩, fun _ _ => ⟨trivial, fun _ _ =>
    ⟨trivial, fun _ _ => ⟨trivial, fun _ _ => ⟨trivial, fun _ _ => trivial⟩⟩⟩⟩⟩

end Sample

/-- The connection of the client is kicked. -/
theorem kick_hits_target_shown : ∃ w w₁ w₃ w₄ : Bind,
    KickProcessed ConnectionPeer.Sample.client.ip ConnectionPeer.Sample.client.port 100
        w w₁ w₁ w₃ w₄ ∧
      (w₁.balancer.managers 1).peers.map ConnectionPeer.isActive = [true] ∧
      (w₄.balancer.managers 1).peers.map ConnectionPeer.isActive = [false] ∧
      w₄.list = w₁.list := by
  have hrun : (Sample.established.foldlM perform Sample.start).any fun w =>
      (w.admin.requested w.list.parallels ConnectionPeer.Sample.client.ip
        ConnectionPeer.Sample.client.port = some 100) &&
      (w.perform (.kick ConnectionPeer.Sample.client.ip ConnectionPeer.Sample.client.port)).any
        fun w₁ =>
          (w₁.balancer.queue.head? = some ⟨statusPeerConnectionKicked, 100⟩ ∧
            (w₁.balancer.managers 1).toBeClosed = [] ∧
            (w₁.balancer.managers 1).peers.map ConnectionPeer.isActive = [true]) &&
          (w₁.perform (.balancer (.processMessage 14))).any fun w₃ =>
            (w₃.perform (.balancer (.manager 1 .serveRequest))).any fun w₄ =>
              (w₄.balancer.managers 1).peers.map ConnectionPeer.isActive = [false] := by
    decide +kernel
  simp only [Option.any_eq_true, Bool.and_eq_true, decide_eq_true_eq] at hrun
  obtain ⟨w, hw, hx, w₁, hkicked, ⟨hhead, hidle, hactive⟩, w₃, hprocessed, w₄, hserved,
    hclosed⟩ := hrun
  have hreach : ReachableBy NotRecycled w :=
    (Reach.start Sample.started_start).foldlM Sample.guarded_established hw
  have hkick : KickProcessed ConnectionPeer.Sample.client.ip ConnectionPeer.Sample.client.port 100
      w w₁ w₁ w₃ w₄ := by
    refine ⟨hkicked, ⟨[], trivial, rfl⟩, hhead, ⟨14, hprocessed⟩, [1], ?_, ?_⟩
    · intro m hm
      rwa [List.mem_singleton.mp hm]
    · rw [List.map_singleton, List.foldlM_cons, hserved]
      rfl
  exact ⟨w, w₁, w₃, w₄, hkick, hactive, hclosed,
    ((kick_hits_target hreach _ _).2 100 w₁ w₁ w₃ w₄ hx hkick).2.1⟩

end Bind

end Relb
