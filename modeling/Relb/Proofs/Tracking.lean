import Relb.Proofs.Copies
import Relb.Proofs.Delivery
/-!
# Entries and their peers

In a run that accepts no client twice, and whose new entries take addresses that nothing
names any more, an entry that is recorded as connecting or established has its peer with its
own manager, or the end of the connection is on the way to it. `Tracked` says so with the
reports processed so far, like `Delivered`, of which it is an instance.
-/

namespace Relb

open Lib

open ConnectionPeer (Report report)

/-- Nothing is established once an end or a failure has been reported. -/
def EndsLast (l : List Report) : Prop :=
  ∀ l₁ l₂, l = l₁ ++ l₂ → Concluded l₁ → .established ∉ l₂

theorem endsLast_nil : EndsLast [] := by
  intro l₁ l₂ hl _ hmem
  rw [(List.append_eq_nil_iff.mp hl.symm).2] at hmem
  cases hmem

theorem endsLast_of_reports {p : ConnectionPeer}
    (h : p.reports = [] ∨ ∃ first, p.ReportsFrom first) : EndsLast p.reports := by
  intro l₁ l₂ hl hconcluded hmem
  rcases h with hnone | ⟨first, n, hreports⟩
  · exact endsLast_nil l₁ l₂ (hnone ▸ hl) hconcluded hmem
  · cases l₁ with
    | nil => simp [Concluded] at hconcluded
    | cons r l₁ =>
        rw [hreports, List.cons_append] at hl
        have hrest : Report.established ∈ List.replicate n Report.ended := by
          rw [(List.cons.inj hl).2]
          exact List.mem_append_right _ hmem
        cases (List.mem_replicate.mp hrest).2

/-- Recorded as connecting or as established. -/
def PeerInfo.InUse (q : PeerInfo) : Prop :=
  q.status = statusConnectingServer.toUInt8 ∨ q.status = statusConnectionEstablished.toUInt8

instance (q : PeerInfo) : Decidable q.InUse := inferInstanceAs (Decidable (_ ∨ _))

namespace ServerList

variable {s : ServerList} {msg : Message} {now : Datetime} {q x : PeerInfo} {r : Report}
  {clientIp : IpAddress} {clientPort : UInt16} {pcm : Option ManagerId} {addr parallelAddr : Ptr}

theorem Permitted.dstServer (h : s.Permitted q) : (s.dstServer q).isSome := by
  obtain ⟨srv, hsrv, hip, hport⟩ := h.configured
  rw [ServerList.dstServer, List.findIdx?_isSome, List.any_eq_true]
  exact ⟨srv, hsrv, by simp [ServerInfo.isDst, hip, hport]⟩

theorem Outcome.made {o : ServerList × Option PeerInfo}
    (h : s.Outcome clientIp clientPort pcm now addr parallelAddr o) (hq : o.2 = some q)
    (hnew : ∀ q ∈ s.peerList, q.client ≠ (clientIp, clientPort)) :
    (q.addr = addr ∧ q.manager = pcm ∧ q.client = (clientIp, clientPort)) ∧
      ∀ x ∈ o.1.peerList, x ∈ s.peerList ∨ x = q := by
  cases h with
  | refused last hnone hassign => cases hq
  | @reused peer server old hvalid hport hreused hassign =>
      exact absurd (Prod.ext hvalid.client hport) (hnew old (List.mem_of_getElem? hvalid.found))
  | recreated hvalid hassign =>
      obtain rfl := Option.some.inj hq
      refine ⟨⟨addr_withParallel _ _ _, manager_withParallel _ _ _, client_withParallel _ _ _⟩,
        fun x hx => ?_⟩
      rw [peerList_afterRecreation, List.mem_append, List.mem_singleton] at hx
      exact hx.imp_left List.mem_of_mem_filter
  | assigned hnone hsrv hallowed hassign =>
      obtain rfl := Option.some.inj hq
      refine ⟨⟨addr_withParallel _ _ _, manager_withParallel _ _ _, client_withParallel _ _ _⟩,
        fun x hx => ?_⟩
      rwa [peerList_afterAssignment, List.mem_append, List.mem_singleton] at hx

/-- The entry of a message is marked with its id, unless it is a cancellation or a kick; the others
stay as they are. -/
theorem mem_processMessage (hnodup : (s.peerList.map PeerInfo.addr).Nodup)
    (hx : x ∈ (s.processMessage msg now).peerList) :
    x ∈ s.peerList ∧ (x.addr = msg.param →
        msg.id = statusPeerConnectionCancelled ∨ msg.id = statusPeerConnectionKicked) ∨
      ∃ q ∈ s.peerList, q.addr = msg.param ∧ x = q.setStatus msg.id.toUInt8 now := by
  rcases processMessage_cases s msg now with ⟨hother, hsame⟩ | ⟨index, pinfo, hq, haddr, hmsg⟩
  · rw [hsame] at hx
    exact .inl ⟨hx, fun heq => absurd heq (hother x hx)⟩
  · have hrecorded : x ∈ (s.recordMessage index pinfo msg.id now).peerList := by
      rw [hmsg] at hx
      exact (sublist_countMessage _ index pinfo msg.id now).mem hx
    rw [peerList_recordMessage] at hrecorded
    split at hrecorded
    · rename_i hsilent
      exact .inl ⟨hrecorded, fun _ => hsilent⟩
    · rcases mem_modify hrecorded with hrest | ⟨q, hindex, rfl⟩
      · refine .inl ⟨List.mem_of_mem_eraseIdx hrest, fun heq => ?_⟩
        exact absurd (heq.trans haddr.symm) (key_ne_of_mem_eraseIdx hnodup hq hrest)
      · obtain rfl := Option.some.inj (hindex.symm.trans hq)
        exact .inr ⟨q, List.mem_of_getElem? hq, haddr, rfl⟩

theorem lastConnectionsCleanup_recordMessage (s : ServerList) (index : Nat) (q : PeerInfo)
    (id : UInt32) (now : Datetime) :
    (s.recordMessage index q id now).lastConnectionsCleanup = s.lastConnectionsCleanup := by
  unfold recordMessage
  split_ifs <;> simp

theorem lastConnectionsCleanup_endConnection (s : ServerList) (index : Nat) (q : PeerInfo)
    (id : UInt32) (now : Datetime) :
    (s.endConnection index q id now).lastConnectionsCleanup = s.lastConnectionsCleanup := by
  unfold endConnection
  split
  · rfl
  · dsimp only
    split_ifs <;> rfl

theorem lastConnectionsCleanup_countMessage (s : ServerList) (index : Nat) (q : PeerInfo)
    (id : UInt32) (now : Datetime) :
    (s.countMessage index q id now).lastConnectionsCleanup = s.lastConnectionsCleanup := by
  unfold countMessage establishConnection
  dsimp only
  split_ifs
  · exact lastConnectionsCleanup_endConnection _ _ _ _ _
  · split <;> rfl
  · rfl

theorem lastConnectionsCleanup_processMessage (s : ServerList) (msg : Message) (now : Datetime) :
    (s.processMessage msg now).lastConnectionsCleanup = s.lastConnectionsCleanup := by
  rcases processMessage_cases s msg now with ⟨-, hsame⟩ | ⟨index, pinfo, -, -, hmsg⟩
  · rw [hsame]
  · rw [hmsg, lastConnectionsCleanup_countMessage, lastConnectionsCleanup_recordMessage]

theorem lastConnectionsCleanup_cleanConnections (s : ServerList) :
    s.cleanConnections.lastConnectionsCleanup = s.lastConnectionsCleanup := by
  refine foldl_keeps (f := lastConnectionsCleanup) (fun s q => ?_) s.peerList _
  rw [cleanEntry]
  split
  · rw [lastConnectionsCleanup_postParallel, cleanServer]
    split <;> rfl
  · rfl

theorem ne_of_mem_processMessage (hnodup : (s.peerList.map PeerInfo.addr).Nodup)
    (hr : report msg.id = some r) (hend : r ≠ .established)
    (hold : ∀ q ∈ s.peerList, q.created < s.lastConnectionsCleanup)
    (hdst : ∀ q ∈ s.peerList, (s.dstServer q).isSome)
    (hx : x ∈ (s.processMessage msg now).peerList) : x.addr ≠ msg.param := by
  rcases processMessage_cases s msg now with ⟨hother, hsame⟩ | ⟨index, pinfo, hq, haddr, hmsg⟩
  · rw [hsame] at hx
    exact hother x hx
  · have hmem := List.mem_of_getElem? hq
    have hremoves : (s.recordMessage index pinfo msg.id now).removes index pinfo = true := by
      rw [removes, lastConnectionsCleanup_recordMessage, decide_eq_true (hold pinfo hmem),
        Bool.or_true]
    have hserver : ((s.recordMessage index pinfo msg.id now).dstServer pinfo).isSome = true := by
      rw [(sameConfig_recordMessage s index pinfo msg.id now).dstServer]
      exact hdst pinfo hmem
    rw [hmsg, (countMessage_of_report hr _ index pinfo now).2,
      if_pos ⟨hend, hserver, hremoves⟩, peerList_recordMessage_of_report hr,
      List.eraseIdx_modify_of_eq] at hx
    rw [← haddr]
    exact key_ne_of_mem_eraseIdx hnodup hq hx

end ServerList

namespace Balancer

variable {b b' : Balancer} {done done' : Ptr → List Report} {msg : Message} {now : Datetime}
  {m : ManagerId} {op : Op}

/-- An entry in use has a peer with its manager, or its end is on the way. -/
structure Tracked (b : Balancer) (done : Ptr → List Report) : Prop where
  delivered : b.Delivered done
  staged : ∀ m, (b.managers m).Staged ConnectionPeer.Departed
  endsLast : ∀ a, EndsLast (done a ++ pending b.queue a)
  nodup : (b.list.peerList.map PeerInfo.addr).Nodup
  attended : ∀ q ∈ b.list.peerList, ∀ m p, b.Held m p → p.pinfo = some q.addr →
    q.manager = some m
  ended : ∀ q ∈ b.list.peerList, Concluded (done q.addr) → ¬q.InUse
  permitted : b.list.AllPeers b.list.Permitted

/-- Nothing names the address of the new entry. -/
def Fresh (b : Balancer) : Op → Prop
  | .setServer _ _ _ addr _ _ _ => (∀ q ∈ b.list.peerList, q.addr ≠ addr) ∧ b.Unused addr
  | _ => True

/-- The client whose connection an operation accepts. -/
def accepted (b : Balancer) : Op → List (IpAddress × UInt16)
  | .setServer pClient pcm now addr parallelAddr _ _ =>
      (b.list.getServer pClient.ip pClient.port (some pcm) now addr parallelAddr).2.toList.map
        fun _ => (pClient.ip, pClient.port)
  | _ => []

/-- The clients that a run accepts, in order. -/
def acceptedAlong : Balancer → List Op → List (IpAddress × UInt16)
  | _, [] => []
  | b, op :: ops => b.accepted op ++ ((b.perform op).map fun c => c.acceptedAlong ops).getD []

theorem not_client_of_accepted {pClient : Socket} {pcm : ManagerId} {addr parallelAddr : Ptr}
    {sock : Int} {memory : Endpoint → Nat → UInt8} {q : PeerInfo}
    (hnew : ∀ x ∈ b.list.peerList,
      x.client ∉ b.accepted (.setServer pClient pcm now addr parallelAddr sock memory))
    (hq : (b.list.getServer pClient.ip pClient.port (some pcm) now addr parallelAddr).2 = some q) :
    ∀ x ∈ b.list.peerList, x.client ≠ (pClient.ip, pClient.port) := by
  intro x hx heq
  apply hnew x hx
  rw [accepted, hq, heq]
  exact List.mem_singleton_self _

/-- The entries are for clients accepted so far. -/
theorem clients_perform {seen : List (IpAddress × UInt16)}
    (hseen : b.list.AllPeers (·.client ∈ seen))
    (hnew : ∀ x ∈ b.list.peerList, x.client ∉ b.accepted op) (hb : b.perform op = some b') :
    b'.list.AllPeers (·.client ∈ b.accepted op ++ seen) := by
  have hmore : b.list.AllPeers (·.client ∈ b.accepted op ++ seen) :=
    fun q hq => List.mem_append_right _ (hseen q hq)
  cases performs hb with
  | setServer pClient pcm now addr parallelAddr sock memory =>
      have ho := b.list.getServer_outcome pClient.ip pClient.port (some pcm) now addr parallelAddr
      intro x hx
      rw [list_setServer] at hx
      cases hq : (b.list.getServer pClient.ip pClient.port (some pcm) now addr parallelAddr).2 with
      | none =>
          obtain ⟨last, hrefused⟩ := ho.refuses hq
          rw [hrefused] at hx
          exact hmore x hx
      | some q =>
          obtain ⟨⟨-, -, hclient⟩, hlisted⟩ := ho.made hq (not_client_of_accepted hnew hq)
          rcases hlisted x hx with hx | rfl
          · exact hmore x hx
          · rw [hclient, accepted, hq]
            exact List.mem_cons_self
  | processMessage _ now => exact hmore.processMessage _ now fun q hq => hq
  | adminRequest => exact hmore
  | cleanConnections => exact hmore.cleanConnections
  | purgeConnections now => exact hmore.purgeConnections now
  | manager => exact hmore

namespace Tracked

theorem of_same (h : b.Tracked done)
    (hpeerList : ∀ m, (b'.managers m).peerList = (b.managers m).peerList)
    (hconnecting : ∀ m, (b'.managers m).connectingPeerList = (b.managers m).connectingPeerList)
    (hqueue : b'.queue = b.queue) (hentries : b'.list.peerList = b.list.peerList)
    (hpermitted : b'.list.AllPeers b'.list.Permitted) : b'.Tracked done := by
  have hpeers : ∀ m, (b'.managers m).peers = (b.managers m).peers := by
    intro m
    rw [ThreadedConnectionManager.peers, hpeerList, hconnecting, ThreadedConnectionManager.peers]
  refine ⟨h.delivered.of_same hpeers hqueue hentries, fun m => ⟨?_, ?_⟩, hqueue ▸ h.endsLast,
    hentries ▸ h.nodup, ?_, hentries ▸ h.ended, hpermitted⟩
  · exact hpeerList m ▸ (h.staged m).peerList
  · exact hconnecting m ▸ (h.staged m).connectingPeerList
  · rw [hentries]
    intro q hq m p hp
    rw [Held, hpeers] at hp
    exact h.attended q hq m p hp

theorem passRequests (h : b.Tracked done) : b.passRequests.Tracked done :=
  h.of_same (peerList_passRequests b) (connectingPeerList_passRequests b) rfl rfl fun q hq =>
    (h.permitted q hq).sameConfig ⟨rfl, rfl, rfl⟩

/-- One iteration of one manager. -/
theorem manager (h : b.Tracked done) {op : ThreadedConnectionManager.Op}
    {t : ThreadedConnectionManager} {msgs : List Message}
    (hop : (b.managers m).perform op = some (t, msgs)) :
    Tracked { b.setManager m t with queue := b.queue ++ msgs } done := by
  have hkeeps := (ThreadedConnectionManager.iterated_perform hop).keeps
    (h.delivered.oneLive.nodup m) fun p hp hinactive =>
      (h.staged m).concluded ThreadedConnectionManager.final_departed hp hinactive
  have hdelivered := h.delivered.manager hkeeps hop
  have hstaged := (h.staged m).perform ThreadedConnectionManager.final_departed
    (ThreadedConnectionManager.dropsTo_departed _ op) hop
  refine ⟨hdelivered, fun m' => ?_, fun a => ?_, h.nodup, ?_, h.ended, h.permitted⟩
  · by_cases hm : m' = m
    · subst hm
      simpa [setManager] using hstaged
    · simpa [setManager, Function.update_of_ne hm] using h.staged m'
  · by_cases hmsgs : pending msgs a = []
    · rw [pending_append, hmsgs, List.append_nil]
      exact h.endsLast a
    · obtain ⟨q, hq, hqinfo⟩ := hkeeps.own a hmsgs
      have hheld : Held { b.setManager m t with queue := b.queue ++ msgs } m q :=
        held_iteration.mpr (by rwa [if_pos rfl])
      exact hdelivered.held m q a hheld hqinfo ▸ endsLast_of_reports
        (hstaged.reports ThreadedConnectionManager.final_departed hq)
  · intro q hq m' p hp hpinfo
    rw [held_iteration] at hp
    split at hp
    · rename_i hm
      obtain ⟨p₀, hp₀, hsame, -⟩ := hkeeps.origin p hp
      exact h.attended q hq m' p₀ (hm ▸ hp₀) (hsame.symm.trans hpinfo)
    · exact h.attended q hq m' p hp hpinfo

theorem of_list (h : b.Tracked done) {list : ServerList} {queue : List Message}
    (hdelivered : Delivered { b with list := list, queue := queue } done')
    (hreports : ∀ a, done' a ++ pending queue a = done a ++ pending b.queue a)
    (hnodup : (list.peerList.map PeerInfo.addr).Nodup)
    (hentries : ∀ x ∈ list.peerList, ∃ q ∈ b.list.peerList, q.addr = x.addr ∧
      q.manager = x.manager)
    (hended : ∀ x ∈ list.peerList, Concluded (done' x.addr) → ¬x.InUse)
    (hpermitted : list.AllPeers list.Permitted) :
    Tracked { b with list := list, queue := queue } done' := by
  refine ⟨hdelivered, h.staged, fun a => ?_, hnodup, ?_, hended, hpermitted⟩
  · rw [hreports]
    exact h.endsLast a
  · intro x hx m p hp hpinfo
    obtain ⟨q, hq, haddr, hmanager⟩ := hentries x hx
    rw [← hmanager]
    exact h.attended q hq m p hp (by rw [haddr]; exact hpinfo)

theorem of_subset (h : b.Tracked done) {list : ServerList} {queue : List Message}
    (hposted : ∀ msg ∈ queue, msg.id ∈ postedIds)
    (hreports : ∀ a, pending queue a = pending b.queue a)
    (hentries : list.peerList.Sublist b.list.peerList)
    (hpermitted : list.AllPeers list.Permitted) :
    Tracked { b with list := list, queue := queue } done := by
  have hsame : ∀ a, done a ++ pending queue a = done a ++ pending b.queue a :=
    fun a => by rw [hreports]
  exact h.of_list
    (h.delivered.of_list hposted hsame fun q hq => List.mem_map_of_mem (hentries.subset hq)) hsame
    (h.nodup.sublist (hentries.map _)) (fun x hx => ⟨x, hentries.subset hx, rfl, rfl⟩)
    (fun x hx => h.ended x (hentries.subset hx)) hpermitted

theorem processMessage (h : b.Tracked done) {queue : List Message}
    (hqueue : b.queue = msg :: queue) (now : Datetime) :
    Tracked { b with list := b.list.processMessage msg now, queue := queue } (taken done msg) := by
  have hreports : ∀ a, taken done msg a ++ pending queue a = done a ++ pending b.queue a :=
    fun a => by rw [hqueue, taken_append]
  have hposted : msg.id ∈ postedIds := h.delivered.posted msg (hqueue ▸ List.mem_cons_self)
  refine h.of_list (h.delivered.take hqueue now) hreports
    (h.nodup.sublist (ServerList.map_processMessage (fun _ _ _ => rfl) _ _ _)) ?_ ?_
    (ServerList.permitted_perform h.permitted (.processMessage msg now))
  · intro x hx
    rcases ServerList.mem_processMessage h.nodup hx with ⟨hx, -⟩ | ⟨q, hq, -, rfl⟩
    · exact ⟨x, hx, rfl, rfl⟩
    · exact ⟨q, hq, rfl, rfl⟩
  · intro x hx hconcluded
    rcases ServerList.mem_processMessage h.nodup hx with ⟨hx, hsilent⟩ | ⟨q, hq, haddr, rfl⟩
    · have hsame : taken done msg x.addr = done x.addr := by
        by_cases heq : x.addr = msg.param
        · have hnone : report msg.id = none := by
            rcases hsilent heq with hid | hid
            · rw [hid]
              rfl
            · rw [hid]
              rfl
          rw [taken_of_none hnone]
        · exact Function.update_of_ne heq _ _
      exact h.ended x hx (hsame ▸ hconcluded)
    · intro huse
      have hstatus : ∀ id ∈ postedIds, (id.toUInt8 = statusConnectingServer.toUInt8 ∨
          id.toUInt8 = statusConnectionEstablished.toUInt8) → report id = some .established :=
        List.all_iff_forall_prop.mp (by decide)
      have hr := hstatus msg.id hposted huse
      change Concluded (taken done msg q.addr) at hconcluded
      rw [haddr, taken, Function.update_self, hr] at hconcluded
      have hbefore : Concluded (done msg.param) := by simpa [Concluded] using hconcluded
      apply h.endsLast msg.param (done msg.param) _ rfl hbefore
      rw [hqueue, pending_cons, if_pos rfl, hr]
      exact List.mem_cons_self

theorem adminRequest (h : b.Tracked done) (hid : msg.id ∈ requestIds) :
    Tracked { b with queue := b.queue ++ [msg] } done := by
  have hdelivered := h.delivered.adminRequest hid
  refine h.of_subset hdelivered.posted (fun a => ?_) (List.Sublist.refl _) h.permitted
  rw [pending_append, pending_cons, (Delivered.request_spec hid).2]
  simp

theorem cleanConnections (h : b.Tracked done) :
    Tracked { b with list := b.list.cleanConnections } done := by
  refine h.of_subset h.delivered.posted (fun a => rfl) ?_
    (ServerList.permitted_perform h.permitted .cleanConnections)
  rw [ServerList.peerList_cleanConnections]
  exact List.filter_sublist

theorem purgeConnections (h : b.Tracked done) (now : Datetime) :
    Tracked { b with list := b.list.purgeConnections now } done := by
  refine h.of_subset h.delivered.posted (fun a => rfl) ?_
    (ServerList.permitted_perform h.permitted (.purgeConnections now))
  rw [ServerList.peerList_purgeConnections]

/-- A new connection comes, with an entry at an address that nothing names. -/
theorem enter (h : b.Tracked done) {q : PeerInfo} {p : ConnectionPeer} (pcm : ManagerId)
    (hp : p.Connecting) (hpinfo : p.pinfo = some q.addr) (hmanager : q.manager = some pcm)
    (hunlisted : ∀ x ∈ b.list.peerList, x.addr ≠ q.addr) (hunused : b.Unused q.addr)
    (hpeerList : ∀ m, (b'.managers m).peerList = (b.managers m).peerList)
    (hconnecting : ∀ m, (b'.managers m).connectingPeerList =
      (b.managers m).connectingPeerList ++ if m = pcm then [p] else [])
    (hqueue : b'.queue = b.queue)
    (hentries : ∀ x ∈ b'.list.peerList, x ∈ b.list.peerList ∨ x = q)
    (hnodup : (b'.list.peerList.map PeerInfo.addr).Nodup)
    (hpermitted : b'.list.AllPeers b'.list.Permitted) :
    b'.Tracked (Function.update done q.addr []) := by
  have hpeers : ∀ m, (b'.managers m).peers = (b.managers m).peers ++
      if m = pcm then [p] else [] := by
    intro m
    rw [ThreadedConnectionManager.peers, hpeerList, hconnecting, ← List.append_assoc,
      ThreadedConnectionManager.peers]
  have hdelivered := h.delivered.enter pcm hp.reports hpinfo hunused hpeers hqueue fun x hx =>
    (hentries x hx).imp List.mem_map_of_mem (congrArg PeerInfo.addr)
  refine ⟨hdelivered, fun m => ⟨?_, ?_⟩, fun a => ?_, hnodup, ?_, ?_, hpermitted⟩
  · exact hpeerList m ▸ (h.staged m).peerList
  · rw [hconnecting]
    exact forall_mem_enter (h.staged m).connectingPeerList (.inl hp)
  · rw [hqueue]
    by_cases ha : a = q.addr
    · subst ha
      rw [Function.update_self, hunused.2]
      exact endsLast_nil
    · rw [Function.update_of_ne ha]
      exact h.endsLast a
  -- an old entry has no new peer, and the new entry has no old one
  · intro x hx m y hy hsame
    rcases hentries x hx with hx | rfl
    · rcases (held_append hpeers).mp hy with hy | ⟨-, rfl⟩
      · exact h.attended x hx m y hy hsame
      · exact absurd (Option.some.inj (hpinfo.symm.trans hsame)).symm (hunlisted x hx)
    · rcases (held_append hpeers).mp hy with hy | ⟨rfl, -⟩
      · exact absurd hsame (hunused.1 m y hy)
      · exact hmanager
  · intro x hx hconcluded
    rcases hentries x hx with hx | rfl
    · rw [Function.update_of_ne (hunlisted x hx)] at hconcluded
      exact h.ended x hx hconcluded
    · rw [Function.update_self] at hconcluded
      simp [Concluded] at hconcluded

/-- A client that no listed entry is for. -/
theorem setServer (h : b.Tracked done) {pClient : Socket} {pcm : ManagerId}
    {addr parallelAddr : Ptr} {sock : Int} {memory : Endpoint → Nat → UInt8}
    (hfresh : b.Fresh (.setServer pClient pcm now addr parallelAddr sock memory))
    (hnew : ∀ q ∈ b.list.peerList,
      q.client ∉ b.accepted (.setServer pClient pcm now addr parallelAddr sock memory)) :
    ∃ done', (b.setServer pClient pcm now addr parallelAddr sock memory).Tracked done' := by
  obtain ⟨hunlisted, hunused⟩ := hfresh
  have ho := b.list.getServer_outcome pClient.ip pClient.port (some pcm) now addr parallelAddr
  have hmade := fun q hq => ho.made (q := q) hq (not_client_of_accepted hnew hq)
  have hlist := b.list_setServer pClient pcm now addr parallelAddr sock memory
  have hpeerList := b.peerList_setServer pClient pcm now addr parallelAddr sock memory
  have hconnecting := b.connectingPeerList_setServer pClient pcm now addr parallelAddr sock memory
  have hqueue := b.queue_setServer pClient pcm now addr parallelAddr sock memory
  have hpermitted := ServerList.permitted_perform h.permitted
    (.getServer pClient.ip pClient.port (some pcm) now addr parallelAddr)
  change (b.list.getServer pClient.ip pClient.port (some pcm) now addr parallelAddr).1.AllPeers
    (b.list.getServer pClient.ip pClient.port (some pcm) now addr parallelAddr).1.Permitted
    at hpermitted
  generalize b.setServer pClient pcm now addr parallelAddr sock memory = b' at *
  generalize b.list.getServer pClient.ip pClient.port (some pcm) now addr parallelAddr = o at *
  have hpassed : b'.list.AllPeers b'.list.Permitted := by
    rw [hlist]
    exact fun q hq => (hpermitted q hq).sameConfig ⟨rfl, rfl, rfl⟩
  cases hq : o.2 with
  | none =>
      have hsame : b'.list.peerList = b.list.peerList := by
        obtain ⟨last, hrefused⟩ := ho.refuses hq
        rw [hlist, hrefused]
      have hkept : ∀ m, (b'.managers m).connectingPeerList =
          (b.managers m).connectingPeerList := by
        intro m
        rw [hconnecting, hq]
        simp
      exact ⟨done, h.of_same hpeerList hkept hqueue hsame hpassed⟩
  | some q =>
      rw [hq] at hconnecting
      obtain ⟨⟨rfl, hmanager, -⟩, hlisted⟩ := hmade q hq
      have hentries : ∀ x ∈ b'.list.peerList, x ∈ b.list.peerList ∨ x = q := by
        rw [hlist]
        exact hlisted
      have hnodup : (b'.list.peerList.map PeerInfo.addr).Nodup := by
        rw [hlist]
        exact ho.nodup h.nodup hunlisted
      exact ⟨_, h.enter pcm (ConnectionPeer.connecting_create _ _ _ _) rfl hmanager hunlisted
        hunused hpeerList hconnecting hqueue hentries hnodup hpassed⟩

theorem perform (h : b.Tracked done) (hfresh : b.Fresh op)
    (hnew : ∀ q ∈ b.list.peerList, q.client ∉ b.accepted op) (hb : b.perform op = some b') :
    ∃ done', b'.Tracked done' := by
  cases performs hb with
  | setServer => exact h.setServer hfresh hnew
  | processMessage hqueue now => exact ⟨_, (h.processMessage hqueue now).passRequests⟩
  | adminRequest hid => exact ⟨done, h.adminRequest hid⟩
  | cleanConnections => exact ⟨done, h.cleanConnections.passRequests⟩
  | purgeConnections now => exact ⟨done, (h.purgeConnections now).passRequests⟩
  | manager m hop => exact ⟨done, h.manager hop⟩

theorem started (h : Started b) : b.Tracked fun _ => [] := by
  have hdelivered := Delivered.started h
  obtain ⟨list, hlist, rfl⟩ := h
  have hempty : (create list).list.peerList = [] := hlist.fresh.peerList
  refine ⟨hdelivered, fun m => ⟨fun p hp => (nomatch hp), fun p hp => (nomatch hp)⟩,
    fun a => endsLast_nil, ?_, ?_, ?_, ?_⟩
  · rw [hempty]
    exact List.nodup_nil
  all_goals
    intro q hq
    rw [hempty] at hq
    cases hq

theorem foldlM (h : b.Tracked done) {ops : List Op} {seen : List (IpAddress × UInt16)}
    (hseen : b.list.AllPeers (·.client ∈ seen)) (hfresh : Guarded Balancer.perform Fresh b ops)
    (hnew : ∀ c ∈ b.acceptedAlong ops, c ∉ seen) (hdistinct : (b.acceptedAlong ops).Nodup)
    (hb : ops.foldlM Balancer.perform b = some b') : ∃ done', b'.Tracked done' := by
  induction ops generalizing b done seen with
  | nil => exact ⟨done, Option.some.inj hb ▸ h⟩
  | cons op ops ih =>
      obtain ⟨c, hc, hb⟩ := foldlM_cons_eq_some.mp hb
      rw [acceptedAlong, hc, Option.map_some, Option.getD_some] at hnew hdistinct
      obtain ⟨-, hrest, hapart⟩ := List.nodup_append.mp hdistinct
      have hfirst : ∀ q ∈ b.list.peerList, q.client ∉ b.accepted op := fun q hq haccepted =>
        hnew q.client (List.mem_append_left _ haccepted) (hseen q hq)
      obtain ⟨done', hc'⟩ := h.perform hfresh.1 hfirst hc
      refine ih hc' (clients_perform hseen hfirst hc) (hfresh.2 c hc) (fun x hx hmem => ?_) hrest hb
      rcases List.mem_append.mp hmem with haccepted | hold
      · exact hapart x haccepted x hx rfl
      · exact hnew x (List.mem_append_right _ hx) hold

end Tracked

end Balancer

end Relb
