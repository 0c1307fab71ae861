import Mathlib.Data.Bool.AllAny
import Mathlib.Data.List.Basic
import Relb.Lib.Keyed
import Relb.Model.ServerList
/-!
# Frame lemmas and case lemmas of `ServerList`

What the small updates leave alone, what a message can do to the session directory, and
the three ways in which `getServer` finds a server.
-/

namespace Relb

open Lib

def PeerInfo.route (q : PeerInfo) : IpAddress × IpAddress × UInt16 := (q.srcIp, q.dstIp, q.dstPort)

@[simp] theorem PeerInfo.notConnected_rearm (q : PeerInfo) (clientPort : UInt16)
    (pcm : Option ManagerId) (now : Datetime) :
    (q.rearm clientPort pcm now).notConnected = false := by
  change statusHas statusConnectingServer.toUInt8 statusPeerNotConnected = false
  decide

namespace ServerInfo

/-- The address and the port, which never change. -/
def address (srv : ServerInfo) : IpAddress × UInt16 := (srv.ip, srv.port)

@[simp] theorem address_startConnecting (srv : ServerInfo) :
    srv.startConnecting.address = srv.address := rfl

@[simp] theorem address_forget (srv : ServerInfo) (q : PeerInfo) :
    (srv.forget q).address = srv.address := by
  unfold forget
  split <;> rfl

@[simp] theorem address_clean (srv : ServerInfo) (q : PeerInfo) :
    (srv.clean q).address = srv.address := by
  unfold clean
  split <;> rfl

theorem isDst_iff (srv : ServerInfo) (q : PeerInfo) :
    srv.isDst q = true ↔ srv.address = (q.dstIp, q.dstPort) := by
  simp [isDst, address]

end ServerInfo

namespace ServerList

variable {s t : ServerList} {q : PeerInfo} {id : UInt32} {now : Datetime}

@[simp] theorem address_endedServer (srv : ServerInfo) (removed : Bool) :
    (endedServer srv id removed now).address = srv.address := by
  unfold endedServer
  split_ifs <;> rfl

/-! ## Frames -/

section Frames

variable (s) (p : Option Ptr) (m : Option ManagerId) (i : Nat) (f : ServerInfo → ServerInfo)
  (g : PeerInfo → PeerInfo) (keep : PeerInfo → Bool)

@[simp] theorem peerList_postParallel : (s.postParallel id p).peerList = s.peerList := by
  unfold postParallel
  split <;> rfl

@[simp] theorem serversList_postParallel : (s.postParallel id p).serversList = s.serversList := by
  unfold postParallel
  split <;> rfl

@[simp] theorem filterList_postParallel : (s.postParallel id p).filterList = s.filterList := by
  unfold postParallel
  split <;> rfl

@[simp] theorem lastConnectionsCleanup_postParallel :
    (s.postParallel id p).lastConnectionsCleanup = s.lastConnectionsCleanup := by
  unfold postParallel
  split <;> rfl

@[simp] theorem reconnectLostSessions_postParallel :
    (s.postParallel id p).reconnectLostSessions = s.reconnectLostSessions := by
  unfold postParallel
  split <;> rfl

@[simp] theorem peerList_closePInfo : (s.closePInfo m p).peerList = s.peerList := by
  unfold closePInfo
  split <;> rfl

@[simp] theorem serversList_closePInfo : (s.closePInfo m p).serversList = s.serversList := by
  unfold closePInfo
  split <;> rfl

@[simp] theorem filterList_closePInfo : (s.closePInfo m p).filterList = s.filterList := by
  unfold closePInfo
  split <;> rfl

@[simp] theorem lastConnectionsCleanup_closePInfo :
    (s.closePInfo m p).lastConnectionsCleanup = s.lastConnectionsCleanup := by
  unfold closePInfo
  split <;> rfl

@[simp] theorem reconnectLostSessions_closePInfo :
    (s.closePInfo m p).reconnectLostSessions = s.reconnectLostSessions := by
  unfold closePInfo
  split <;> rfl

theorem closeRequests_closePInfo :
    (s.closePInfo m p).closeRequests = s.closeRequests ++ (m.map (·, p)).toList := by
  cases m with
  | none => exact (List.append_nil _).symm
  | some m => rfl

theorem passed_closePInfo :
    { s.closePInfo m p with closeRequests := [] } = { s with closeRequests := [] } := by
  unfold closePInfo
  split <;> rfl

@[simp] theorem peerList_modifyServer : (s.modifyServer i f).peerList = s.peerList := rfl

@[simp] theorem filterList_modifyServer : (s.modifyServer i f).filterList = s.filterList := rfl

@[simp] theorem lastConnectionsCleanup_modifyServer :
    (s.modifyServer i f).lastConnectionsCleanup = s.lastConnectionsCleanup := rfl

@[simp] theorem reconnectLostSessions_modifyServer :
    (s.modifyServer i f).reconnectLostSessions = s.reconnectLostSessions := rfl

@[simp] theorem serversList_modifyServer :
    (s.modifyServer i f).serversList = s.serversList.modify i f := rfl

@[simp] theorem serversList_modifyPeer : (s.modifyPeer i g).serversList = s.serversList := rfl

@[simp] theorem filterList_modifyPeer : (s.modifyPeer i g).filterList = s.filterList := rfl

@[simp] theorem lastConnectionsCleanup_modifyPeer :
    (s.modifyPeer i g).lastConnectionsCleanup = s.lastConnectionsCleanup := rfl

@[simp] theorem reconnectLostSessions_modifyPeer :
    (s.modifyPeer i g).reconnectLostSessions = s.reconnectLostSessions := rfl

@[simp] theorem serversList_delPeer : (s.delPeer i).serversList = s.serversList := rfl

@[simp] theorem filterList_delPeer : (s.delPeer i).filterList = s.filterList := rfl

@[simp] theorem lastConnectionsCleanup_delPeer :
    (s.delPeer i).lastConnectionsCleanup = s.lastConnectionsCleanup := rfl

@[simp] theorem reconnectLostSessions_delPeer :
    (s.delPeer i).reconnectLostSessions = s.reconnectLostSessions := rfl

@[simp] theorem serversList_filterPeers : (s.filterPeers keep).serversList = s.serversList := rfl

@[simp] theorem filterList_filterPeers : (s.filterPeers keep).filterList = s.filterList := rfl

@[simp] theorem lastConnectionsCleanup_filterPeers :
    (s.filterPeers keep).lastConnectionsCleanup = s.lastConnectionsCleanup := rfl

@[simp] theorem reconnectLostSessions_filterPeers :
    (s.filterPeers keep).reconnectLostSessions = s.reconnectLostSessions := rfl

@[simp] theorem peerList_modifyPeer : (s.modifyPeer i g).peerList = s.peerList.modify i g := rfl

@[simp] theorem peerList_delPeer : (s.delPeer i).peerList = s.peerList.eraseIdx i := rfl

@[simp] theorem peerList_filterPeers :
    (s.filterPeers keep).peerList = s.peerList.filter keep := rfl

end Frames

/-! ## The configuration -/

/-- The filters, the addresses of the servers and the use of sessions are the same. -/
structure SameConfig (s t : ServerList) : Prop where
  filterList : t.filterList = s.filterList
  addresses : t.serversList.map ServerInfo.address = s.serversList.map ServerInfo.address
  reconnect : t.reconnectLostSessions = s.reconnectLostSessions

namespace SameConfig

theorem refl (s : ServerList) : s.SameConfig s := ⟨rfl, rfl, rfl⟩

theorem trans {u : ServerList} (h : s.SameConfig t) (h' : t.SameConfig u) : s.SameConfig u :=
  ⟨h'.filterList.trans h.filterList, h'.addresses.trans h.addresses,
    h'.reconnect.trans h.reconnect⟩

theorem modifyServer (s : ServerList) (i : Nat) {f : ServerInfo → ServerInfo}
    (hf : ∀ srv, (f srv).address = srv.address) : s.SameConfig (s.modifyServer i f) :=
  ⟨rfl, map_modify hf s.serversList i, rfl⟩

theorem postParallel (s : ServerList) (id : UInt32) (p : Option Ptr) :
    s.SameConfig (s.postParallel id p) := ⟨by simp, by simp, by simp⟩

theorem closePInfo (s : ServerList) (m : Option ManagerId) (p : Option Ptr) :
    s.SameConfig (s.closePInfo m p) := ⟨by simp, by simp, by simp⟩

theorem of_eq (hfilter : t.filterList = s.filterList) (hservers : t.serversList = s.serversList)
    (hrec : t.reconnectLostSessions = s.reconnectLostSessions) : s.SameConfig t :=
  ⟨hfilter, by rw [hservers], hrec⟩

theorem foldl {α : Type} {f : ServerList → α → ServerList}
    (hf : ∀ (s : ServerList) a, s.SameConfig (f s a))
    (l : List α) (s : ServerList) : s.SameConfig (l.foldl f s) := by
  exact List.foldlRecOn l f (refl s) fun t ht a _ => ht.trans (hf t a)

end SameConfig

/-! ## New entries -/

@[simp] theorem notConnected_newPeer (clientIp : IpAddress) (clientPort : UInt16)
    (dstIp : IpAddress) (dstPort : UInt16) (pcm : Option ManagerId) (now : Datetime) (addr : Ptr) :
    (newPeer clientIp clientPort dstIp dstPort pcm now addr).notConnected = false := by
  change statusHas statusConnectingServer.toUInt8 statusPeerNotConnected = false
  decide

@[simp] theorem peerList_addPeer (s : ServerList) (q : PeerInfo) (a : Ptr) :
    (s.addPeer q a).peerList = s.peerList ++ [s.withParallel q a] := by
  simp [addPeer]

@[simp] theorem serversList_addPeer (s : ServerList) (q : PeerInfo) (a : Ptr) :
    (s.addPeer q a).serversList = s.serversList := by
  simp [addPeer]

@[simp] theorem filterList_addPeer (s : ServerList) (q : PeerInfo) (a : Ptr) :
    (s.addPeer q a).filterList = s.filterList := by
  simp [addPeer]

@[simp] theorem reconnectLostSessions_addPeer (s : ServerList) (q : PeerInfo) (a : Ptr) :
    (s.addPeer q a).reconnectLostSessions = s.reconnectLostSessions := by
  simp [addPeer]

@[simp] theorem route_withParallel (s : ServerList) (q : PeerInfo) (a : Ptr) :
    (s.withParallel q a).route = q.route := by
  unfold withParallel
  split <;> rfl

@[simp] theorem addr_withParallel (s : ServerList) (q : PeerInfo) (a : Ptr) :
    (s.withParallel q a).addr = q.addr := by
  unfold withParallel
  split <;> rfl

@[simp] theorem manager_withParallel (s : ServerList) (q : PeerInfo) (a : Ptr) :
    (s.withParallel q a).manager = q.manager := by
  unfold withParallel
  split <;> rfl

@[simp] theorem status_withParallel (s : ServerList) (q : PeerInfo) (a : Ptr) :
    (s.withParallel q a).status = q.status := by
  unfold withParallel
  split <;> rfl

@[simp] theorem notConnected_withParallel (s : ServerList) (q : PeerInfo) (a : Ptr) :
    (s.withParallel q a).notConnected = q.notConnected := by
  rw [PeerInfo.notConnected, status_withParallel, PeerInfo.notConnected]

/-! ## The configuration stays -/

theorem sameConfig_recordMessage (s : ServerList) (index : Nat) (q : PeerInfo) (id : UInt32)
    (now : Datetime) : s.SameConfig (s.recordMessage index q id now) := by
  unfold recordMessage
  split_ifs
  · exact .refl s
  · exact .of_eq (by simp) (by simp) (by simp)
  · exact .of_eq (by simp) (by simp) (by simp)

theorem sameConfig_endConnection (s : ServerList) (index : Nat) (q : PeerInfo) (id : UInt32)
    (now : Datetime) : s.SameConfig (s.endConnection index q id now) := by
  have hended : ∀ i removed, s.SameConfig (s.modifyServer i (endedServer · id removed now)) :=
    fun i removed => .modifyServer s i fun srv => address_endedServer srv removed
  unfold endConnection
  split
  · exact .refl s
  · dsimp only
    split_ifs
    · exact (hended _ true).trans (.of_eq rfl rfl rfl)
    · exact hended _ false

theorem sameConfig_establishConnection (s : ServerList) (q : PeerInfo) (now : Datetime) :
    s.SameConfig (s.establishConnection q now) := by
  unfold establishConnection
  split
  · exact .refl s
  · exact .modifyServer s _ fun _ => rfl

theorem sameConfig_countMessage (s : ServerList) (index : Nat) (q : PeerInfo) (id : UInt32)
    (now : Datetime) : s.SameConfig (s.countMessage index q id now) := by
  unfold countMessage
  dsimp only
  split_ifs
  · exact sameConfig_endConnection s index q id now
  · exact sameConfig_establishConnection s q now
  · exact .refl s

theorem sameConfig_processMessage (s : ServerList) (msg : Message) (now : Datetime) :
    s.SameConfig (s.processMessage msg now) := by
  unfold processMessage
  dsimp only
  split
  · exact .refl s
  · exact (sameConfig_recordMessage s _ _ _ _).trans (sameConfig_countMessage _ _ _ _ _)

theorem sameConfig_cleanConnections (s : ServerList) : s.SameConfig s.cleanConnections := by
  have hclean : ∀ (s : ServerList) q, s.SameConfig (s.cleanEntry q) := by
    intro s q
    unfold cleanEntry cleanServer
    split_ifs
    · split
      · exact .postParallel s _ _
      · refine (SameConfig.modifyServer s _ fun srv => ?_).trans (.postParallel _ _ _)
        exact ServerInfo.address_clean srv q
    · exact .of_eq rfl rfl rfl
  have hstart : s.SameConfig { s with peerList := [] } := .of_eq rfl rfl rfl
  exact hstart.trans (.foldl hclean s.peerList _)

theorem map_cleanConnections {α : Type} {f : ServerInfo → α}
    (hf : ∀ srv (q : PeerInfo), f (srv.clean q) = f srv) (s : ServerList) :
    s.cleanConnections.serversList.map f = s.serversList.map f := by
  have hentry : ∀ (s : ServerList) q, (s.cleanEntry q).serversList.map f =
      s.serversList.map f := by
    intro s q
    unfold cleanEntry cleanServer
    split_ifs
    · split
      · rw [serversList_postParallel]
      · rw [serversList_postParallel]
        exact map_modify (fun srv => hf srv q) s.serversList _
    · rfl
  exact foldl_keeps (f := fun s : ServerList => s.serversList.map f) hentry s.peerList _

theorem sameConfig_purgeConnections (s : ServerList) (now : Datetime) :
    s.SameConfig (s.purgeConnections now) := by
  have hclose := SameConfig.foldl (fun s (q : PeerInfo) => SameConfig.closePInfo s q.manager
    (some q.addr)) s.peerList s
  exact hclose.trans (.of_eq rfl rfl rfl)

theorem serversList_recordMessage (s : ServerList) (index : Nat) (q : PeerInfo) (id : UInt32)
    (now : Datetime) : (s.recordMessage index q id now).serversList = s.serversList := by
  unfold recordMessage
  split_ifs <;> simp

theorem serversList_purgeConnections (s : ServerList) (now : Datetime) :
    (s.purgeConnections now).serversList = s.serversList := by
  exact foldl_keeps (f := serversList) (fun s q => serversList_closePInfo s _ _) s.peerList s

theorem processMessage_cases (s : ServerList) (msg : Message) (now : Datetime) :
    (∀ q ∈ s.peerList, q.addr ≠ msg.param) ∧ s.processMessage msg now = s ∨
      ∃ index pinfo, s.peerList[index]? = some pinfo ∧ pinfo.addr = msg.param ∧
        s.processMessage msg now =
          (s.recordMessage index pinfo msg.id now).countMessage index pinfo msg.id now := by
  unfold processMessage
  dsimp only
  cases hq : s.peerList[s.peerList.findIdx fun q => q.addr == msg.param]? with
  | none =>
      refine .inl ⟨fun q hmem heq => ?_, rfl⟩
      have hlt := List.findIdx_lt_length_of_exists (p := fun q => q.addr == msg.param)
        ⟨q, hmem, beq_iff_eq.mpr heq⟩
      rw [List.getElem?_eq_none_iff] at hq
      omega
  | some pinfo =>
      refine .inr ⟨_, pinfo, hq, ?_, rfl⟩
      obtain ⟨hlt, hget⟩ := List.getElem?_eq_some_iff.mp hq
      have hfound := List.findIdx_getElem (w := hlt)
      rw [hget] at hfound
      exact beq_iff_eq.mp hfound

/-! ## What every server satisfies -/

def AllServers (P : ServerInfo → Prop) (s : ServerList) : Prop := ∀ srv ∈ s.serversList, P srv

namespace AllServers

variable {P : ServerInfo → Prop}

theorem of_eq (h : s.AllServers P) (ht : t.serversList = s.serversList) : t.AllServers P := by
  rwa [AllServers, ht]

theorem modifyServer (h : s.AllServers P) (i : Nat) {f : ServerInfo → ServerInfo}
    (hf : ∀ srv, P srv → P (f srv)) : (s.modifyServer i f).AllServers P :=
  forall_mem_modify h fun srv hsrv => hf srv (h srv hsrv)

theorem processMessage (h : s.AllServers P) (msg : Message) (now : Datetime)
    (hestablished : ∀ srv, P srv → P (establishedServer srv now))
    (hended : ∀ srv removed, P srv → P (endedServer srv msg.id removed now)) :
    (s.processMessage msg now).AllServers P := by
  rcases processMessage_cases s msg now with ⟨-, hsame⟩ | ⟨index, pinfo, -, -, hmsg⟩
  · rwa [hsame]
  · have hrecord : (s.recordMessage index pinfo msg.id now).AllServers P :=
      h.of_eq (serversList_recordMessage s _ _ _ _)
    rw [hmsg]
    generalize s.recordMessage index pinfo msg.id now = u at hrecord
    unfold countMessage
    dsimp only
    split_ifs
    · unfold endConnection
      split
      · exact hrecord
      · dsimp only
        split_ifs
        · exact (hrecord.modifyServer _ fun srv => hended srv true).of_eq rfl
        · exact hrecord.modifyServer _ fun srv => hended srv false
    · unfold establishConnection
      split
      · exact hrecord
      · exact hrecord.modifyServer _ hestablished
    · exact hrecord

theorem cleanConnections (h : s.AllServers P)
    (hclean : ∀ srv (q : PeerInfo), P srv → P (srv.clean q)) :
    s.cleanConnections.AllServers P := by
  have hentry : ∀ (s : ServerList) q, s.AllServers P → (s.cleanEntry q).AllServers P := by
    intro s q h
    unfold cleanEntry cleanServer
    split_ifs
    · split
      · exact h.of_eq (serversList_postParallel s _)
      · exact (h.modifyServer _ fun srv => hclean srv q).of_eq (serversList_postParallel _ _)
    · exact h
  have hstart : AllServers P { s with peerList := [] } := h.of_eq rfl
  exact List.foldlRecOn s.peerList cleanEntry hstart fun s hs q _ => hentry s q hs

theorem purgeConnections (h : s.AllServers P) (now : Datetime) :
    (s.purgeConnections now).AllServers P := h.of_eq (serversList_purgeConnections s now)

end AllServers

/-! ## The session directory after a message -/

theorem peerList_recordMessage (s : ServerList) (index : Nat) (q : PeerInfo) (id : UInt32)
    (now : Datetime) :
    (s.recordMessage index q id now).peerList =
      if id = statusPeerConnectionCancelled ∨ id = statusPeerConnectionKicked then s.peerList
      else s.peerList.modify index (·.setStatus id.toUInt8 now) := by
  unfold recordMessage
  by_cases hcancelled : id = statusPeerConnectionCancelled
  · rw [if_pos hcancelled, if_pos (.inl hcancelled)]
  · by_cases hkicked : id = statusPeerConnectionKicked
    · rw [if_neg hcancelled, if_pos hkicked, if_pos (.inr hkicked), peerList_closePInfo]
    · rw [if_neg hcancelled, if_neg hkicked, if_neg (not_or.mpr ⟨hcancelled, hkicked⟩),
        peerList_postParallel, peerList_modifyPeer]

theorem peerList_countMessage (s : ServerList) (index : Nat) (q : PeerInfo) (id : UInt32)
    (now : Datetime) :
    (s.countMessage index q id now).peerList = s.peerList ∨
      (s.countMessage index q id now).peerList = s.peerList.eraseIdx index := by
  unfold countMessage
  dsimp only
  split_ifs
  · unfold endConnection
    split
    · exact .inl rfl
    · dsimp only
      split_ifs
      · exact .inr rfl
      · exact .inl rfl
  · unfold establishConnection
    split
    · exact .inl rfl
    · exact .inl rfl
  · exact .inl rfl

theorem sublist_countMessage (s : ServerList) (index : Nat) (q : PeerInfo) (id : UInt32)
    (now : Datetime) : (s.countMessage index q id now).peerList.Sublist s.peerList := by
  rcases s.peerList_countMessage index q id now with hcount | hcount
  · rw [hcount]
  · rw [hcount]
    exact List.eraseIdx_sublist _ _

theorem map_processMessage {α : Type} {f : PeerInfo → α}
    (hf : ∀ (q : PeerInfo) status now, f (q.setStatus status now) = f q) (s : ServerList)
    (msg : Message) (now : Datetime) :
    ((s.processMessage msg now).peerList.map f).Sublist (s.peerList.map f) := by
  unfold processMessage
  dsimp only
  split
  · exact List.Sublist.refl _
  · rename_i pinfo _
    generalize (s.peerList.findIdx fun q => q.addr == msg.param) = index
    have hrecord : (s.recordMessage index pinfo msg.id now).peerList.map f = s.peerList.map f := by
      rw [peerList_recordMessage]
      split
      · rfl
      · exact map_modify (fun q => hf q _ _) _ _
    rw [← hrecord]
    exact (sublist_countMessage _ index pinfo msg.id now).map f

theorem peerList_cleanConnections (s : ServerList) :
    s.cleanConnections.peerList = s.peerList.filter (!·.notConnected) := by
  have hfold : ∀ (l : List PeerInfo) (s : ServerList),
      (l.foldl cleanEntry s).peerList = s.peerList ++ l.filter (!·.notConnected) := by
    intro l
    induction l with
    | nil => intro s; simp
    | cons q l ih =>
        intro s
        rw [List.foldl_cons, ih, List.filter_cons]
        cases hq : q.notConnected
        · simp [cleanEntry, hq]
        · have hserver : (s.cleanServer q).peerList = s.peerList := by
            unfold cleanServer
            split <;> simp
          simp [cleanEntry, hq, hserver]
  rw [cleanConnections, hfold, List.nil_append]

theorem peerList_purgeConnections (s : ServerList) (now : Datetime) :
    (s.purgeConnections now).peerList = s.peerList := by
  exact foldl_keeps (f := peerList) (fun s q => peerList_closePInfo s _ _) s.peerList s

def AllPeers (P : PeerInfo → Prop) (s : ServerList) : Prop := ∀ q ∈ s.peerList, P q

namespace AllPeers

variable {P : PeerInfo → Prop}

theorem processMessage (h : s.AllPeers P) (msg : Message) (now : Datetime)
    (hset : ∀ q, P q → P (q.setStatus msg.id.toUInt8 now)) :
    (s.processMessage msg now).AllPeers P := by
  rcases processMessage_cases s msg now with ⟨-, hsame⟩ | ⟨index, pinfo, -, -, hmsg⟩
  · rwa [hsame]
  · have hrecord : (s.recordMessage index pinfo msg.id now).AllPeers P := by
      intro q hq
      rw [peerList_recordMessage] at hq
      split at hq
      · exact h q hq
      · exact forall_mem_modify h (fun p hp => hset p (h p hp)) q hq
    rw [hmsg]
    intro q hq
    exact hrecord q ((sublist_countMessage _ index pinfo msg.id now).mem hq)

theorem cleanConnections (h : s.AllPeers P) : s.cleanConnections.AllPeers P := by
  intro q hq
  rw [peerList_cleanConnections] at hq
  exact h q (List.mem_of_mem_filter hq)

theorem purgeConnections (h : s.AllPeers P) (now : Datetime) :
    (s.purgeConnections now).AllPeers P := by
  intro q hq
  rw [peerList_purgeConnections] at hq
  exact h q hq

end AllPeers

end ServerList

end Relb
