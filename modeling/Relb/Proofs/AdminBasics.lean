import Mathlib.Data.List.Pairwise
import Relb.Model.AdminHTTPServer
import Relb.Proofs.Messages
/-!
# What a message does to the web admin

The two sides keep the same data of a connection and of a server but for clock values and
addresses (`shown`). An ended connection or an established one changes the account of the
admin as it changes that of `ServerList`, with its own decision whether the connection goes;
an announced connection first drops the ended ones of its client.
-/

namespace Relb

open Lib

open ConnectionPeer (Report report)

/-- An entry but for its address, its counterpart and the time of its last change. -/
def PeerInfo.shown (q : PeerInfo) : PeerInfo :=
  { q with addr := 0, parallel := none, modified := 0 }

theorem PeerInfo.shown_setStatus {p q : PeerInfo} (h : p.shown = q.shown) (status : UInt8)
    (now now' : Datetime) : (p.setStatus status now).shown = (q.setStatus status now').shown :=
  congrArg (fun x : PeerInfo => { x with status := status }) h

namespace ServerInfo

variable {srv srv' : ServerInfo} {p q : PeerInfo}

/-- A server but for the time of its last attempt. -/
def shown (srv : ServerInfo) : ServerInfo := { srv with lastConnectionAttempt := 0 }

theorem eq_of_shown (h : srv.shown = srv'.shown) :
    ∃ t, srv' = { srv with lastConnectionAttempt := t } := by
  refine ⟨srv'.lastConnectionAttempt, ?_⟩
  cases srv
  cases srv'
  simpa [shown, eq_comm] using h

theorem shown_startConnecting (h : srv.shown = srv'.shown) :
    srv.startConnecting.shown = srv'.startConnecting.shown := by
  obtain ⟨t, rfl⟩ := eq_of_shown h
  rfl

theorem shown_reportedServer (h : srv.shown = srv'.shown) {id : UInt32} {removed removed' : Bool}
    (hremoved : report id ≠ some .established → removed = removed') (now now' : Datetime) :
    (ServerList.reportedServer srv id removed now).shown =
      (ServerList.reportedServer srv' id removed' now').shown := by
  obtain ⟨t, rfl⟩ := eq_of_shown h
  unfold ServerList.reportedServer
  by_cases hest : report id = some .established
  · rw [if_pos hest, if_pos hest]
    rfl
  · rw [if_neg hest, if_neg hest, hremoved hest]
    unfold ServerList.endedServer
    split_ifs <;> rfl

theorem shown_forget (h : srv.shown = srv'.shown) (hq : p.shown = q.shown)
    (hlost : p.disconnected = true → srv.disconnected ≠ 0) :
    (srv.startConnecting.forget p).shown = ((srv'.clean q).startConnecting).shown := by
  obtain ⟨t, rfl⟩ := eq_of_shown h
  have hsame : p.shown.disconnected = q.shown.disconnected := congrArg PeerInfo.disconnected hq
  change p.disconnected = q.disconnected at hsame
  unfold forget clean
  rw [← hsame]
  cases hp : p.disconnected with
  | false => rfl
  | true =>
      have hne := hlost hp
      simp only [hne, ne_eq, not_false_eq_true, and_true, if_true]
      rfl

end ServerInfo

/-- The servers after the ended connection `q` has been cleaned. -/
def cleanFirst (servers : List ServerInfo) (q : PeerInfo) : List ServerInfo :=
  match servers.findIdx? (fun srv => srv.ip == q.dstIp) with
  | none => servers
  | some i => servers.modify i (·.clean q)

@[simp] theorem address_cleanFirst (servers : List ServerInfo) (q : PeerInfo) :
    (cleanFirst servers q).map ServerInfo.address = servers.map ServerInfo.address := by
  unfold cleanFirst
  split
  · rfl
  · exact map_modify (fun srv => ServerInfo.address_clean srv q) _ _

@[simp] theorem address_foldl_cleanFirst (l : List PeerInfo) (servers : List ServerInfo) :
    (l.foldl cleanFirst servers).map ServerInfo.address = servers.map ServerInfo.address :=
  foldl_keeps (f := fun servers => servers.map ServerInfo.address)
    (fun _ _ => address_cleanFirst _ _) l servers

theorem findIdx?_isDst_shown (servers : List ServerInfo) (q : PeerInfo) :
    servers.findIdx? (·.isDst q) =
      (servers.map ServerInfo.shown).findIdx? (·.isDst q.shown) := by
  rw [List.findIdx?_map]
  rfl

theorem findIdx?_ip_shown (servers : List ServerInfo) (ip : IpAddress) :
    servers.findIdx? (fun srv => srv.ip == ip) =
      (servers.map ServerInfo.shown).findIdx? fun srv => srv.ip == ip := by
  rw [List.findIdx?_map]
  rfl

theorem findIdx?_isDst (servers : List ServerInfo) (q : PeerInfo) :
    servers.findIdx? (·.isDst q) =
      (servers.map ServerInfo.address).findIdx? (· == (q.dstIp, q.dstPort)) := by
  rw [List.findIdx?_map]
  rfl

namespace AdminHTTPServer

variable {a : AdminHTTPServer} {heap : Ptr → Option PeerInfo} {p : Ptr} {c : PeerInfo}
  {id : UInt32} {now : Datetime} {index : Nat} {r : Report}

/-! ## A new connection -/

theorem foldl_cleanPeer (ip : IpAddress) (l : List Ptr) (a : AdminHTTPServer) :
    l.foldl (cleanPeer heap ip) a =
      { a with
        serverList := ((l.filterMap heap).filter (ServerList.isLostOf ip)).foldl cleanFirst
          a.serverList
        peerList := a.peerList ++ l.filter fun p => !(heap p).any (ServerList.isLostOf ip) } := by
  induction l generalizing a with
  | nil => simp
  | cons p l ih =>
      rw [List.foldl_cons, ih]
      cases hp : heap p with
      | none => simp [cleanPeer, hp]
      | some q =>
          cases hlost : ServerList.isLostOf ip q with
          | false => simp [cleanPeer, hp, hlost]
          | true =>
              have hserver : (a.cleanServer q).serverList = cleanFirst a.serverList q ∧
                  (a.cleanServer q).peerList = a.peerList ∧
                  (a.cleanServer q).currentItemIndex = a.currentItemIndex := by
                unfold cleanServer cleanFirst
                cases a.serverList.findIdx? fun srv => srv.ip == q.dstIp <;> exact ⟨rfl, rfl, rfl⟩
              simp [cleanPeer, hp, hlost, hserver]

theorem enter_eq (a : AdminHTTPServer) (heap : Ptr → Option PeerInfo) (p : Ptr) (c : PeerInfo) :
    a.enter heap p c =
      { a with
        serverList := ((a.peerList.filterMap heap).filter
          (ServerList.isLostOf c.srcIp)).foldl cleanFirst a.serverList
        peerList := a.peerList.filter (fun p => !(heap p).any (ServerList.isLostOf c.srcIp)) ++
          [p] } := by
  rw [enter, foldl_cleanPeer]
  rfl

theorem startConnection_eq (a : AdminHTTPServer) (c : PeerInfo) :
    (a.startConnection c).serverList =
        (a.serverList.findIdx? (·.isDst c)).elim a.serverList (fun i =>
          a.serverList.modify i ServerInfo.startConnecting) ∧
      (a.startConnection c).peerList = a.peerList := by
  unfold startConnection
  cases a.serverList.findIdx? (·.isDst c) <;> exact ⟨rfl, rfl⟩

theorem processMessage_connecting (hc : heap p = some c) (now : Datetime) :
    a.processMessage heap ⟨statusConnectingServer, p⟩ now =
      ((a.enter heap p c).startConnection c, heap) := by
  simp only [processMessage, if_true, hc]
  rfl

/-! ## A report -/

theorem countMessage_of_established (hr : report id = some .established) :
    a.countMessage heap c id now = a.establishConnection c now := by
  have hkind : ∀ id ∈ postedIds, report id = some .established →
      ¬(id &&& statusClientServerMask = statusConnectionLost ∨
        id &&& statusClientServerMask = statusDisconnectedOk ∨
        id &&& statusClientServerMask = statusConnectionFailed ∨
        id &&& statusClientServerMask = statusPeerConnectionDeleted) ∧
      id &&& statusClientServerMask = statusConnectionEstablished :=
    List.all_iff_forall_prop.mp (by decide)
  obtain ⟨hend, hest⟩ := hkind id (ConnectionPeer.posted_of_report hr) hr
  rw [countMessage, if_neg hend, if_pos hest]

theorem countMessage_of_end (hr : report id = some .failed ∨ report id = some .ended) :
    a.countMessage heap c id now = a.endConnection heap c id now := by
  have hkind : ∀ id ∈ postedIds, report id = some .failed ∨ report id = some .ended →
      id &&& statusClientServerMask = statusConnectionLost ∨
        id &&& statusClientServerMask = statusDisconnectedOk ∨
        id &&& statusClientServerMask = statusConnectionFailed :=
    List.all_iff_forall_prop.mp (by decide)
  have hid : id ∈ postedIds := hr.elim ConnectionPeer.posted_of_report
    ConnectionPeer.posted_of_report
  rw [countMessage, if_pos]
  rcases hkind id hid hr with h | h | h
  · exact .inl h
  · exact .inr (.inl h)
  · exact .inr (.inr (.inl h))

/-- The decision of the admin whether an ended connection goes. -/
def removes (a : AdminHTTPServer) (heap : Ptr → Option PeerInfo) (c : PeerInfo) : Bool :=
  a.otherConnectionsActive heap c && decide (a.currentItemIndex < a.peerList.length)

theorem countMessage_of_report (hr : report id = some r) (a : AdminHTTPServer)
    (heap : Ptr → Option PeerInfo) (c : PeerInfo) (now : Datetime) :
    (a.countMessage heap c id now).serverList =
        (a.serverList.findIdx? (·.isDst c)).elim a.serverList (fun i =>
          a.serverList.modify i (ServerList.reportedServer · id (a.removes heap c) now)) ∧
      (a.countMessage heap c id now).peerList =
        if r ≠ .established ∧ (a.serverList.findIdx? (·.isDst c)).isSome = true ∧
            a.removes heap c = true then
          a.peerList.eraseIdx a.currentItemIndex
        else a.peerList := by
  by_cases hest : r = .established
  · subst hest
    rw [countMessage_of_established hr, establishConnection]
    cases a.serverList.findIdx? (·.isDst c) with
    | none => simp
    | some i => simp [ServerList.reportedServer, hr]
  · have hend := ConnectionPeer.failed_or_ended hr hest
    have hdeleted : (id == statusPeerConnectionDeleted) = false := by
      have hall : ∀ id ∈ postedIds, report id = some .failed ∨ report id = some .ended →
          (id == statusPeerConnectionDeleted) = false := List.all_iff_forall_prop.mp (by decide)
      exact hall id (hend.elim ConnectionPeer.posted_of_report ConnectionPeer.posted_of_report) hend
    rw [countMessage_of_end hend, endConnection]
    cases a.serverList.findIdx? (·.isDst c) with
    | none => simp
    | some i => simp [ServerList.reportedServer, hr, hest, hdeleted, removes]

theorem processMessage_listed (hid : id ≠ statusConnectingServer)
    (hp : a.peerList[index]? = some p) (hnodup : a.peerList.Nodup) (hc : heap p = some c)
    (now : Datetime) :
    a.processMessage heap ⟨id, p⟩ now =
      (countMessage { a with currentItemIndex := index }
        (Function.update heap p (some (c.setStatus id.toUInt8 now))) (c.setStatus id.toUInt8 now) id
        now, Function.update heap p (some (c.setStatus id.toUInt8 now))) := by
  obtain ⟨hindex, hget⟩ := List.getElem?_eq_some_iff.mp hp
  have hfound : a.peerList.findIdx (· == p) = index := by
    have hidx := hnodup.idxOf_getElem index hindex
    rwa [hget] at hidx
  simp only [processMessage, if_neg hid, hfound, hp, hc]

theorem ne_connecting_of_report (hr : report id = some r) : id ≠ statusConnectingServer := by
  rintro rfl
  cases hr

/-! ## Copies that the admin does not know -/

variable {heap' : Ptr → Option PeerInfo} {msg : Message} {x : Option PeerInfo}

theorem otherConnectionsActive_congr (h : ∀ y ∈ a.peerList, heap' y = heap y) :
    a.otherConnectionsActive heap' c = a.otherConnectionsActive heap c := by
  unfold otherConnectionsActive
  rw [Bool.eq_iff_iff, List.any_eq_true, List.any_eq_true]
  refine exists_congr fun y => and_congr_right fun hy => ?_
  rw [h y.1 (List.fst_mem_of_mem_zipIdx hy)]

theorem countMessage_congr (h : ∀ y ∈ a.peerList, heap' y = heap y) :
    a.countMessage heap' c id now = a.countMessage heap c id now := by
  unfold countMessage endConnection
  rw [otherConnectionsActive_congr h]

theorem enter_congr (h : ∀ y ∈ a.peerList, heap' y = heap y) :
    a.enter heap' p c = a.enter heap p c := by
  have hfilter : a.peerList.filter (fun y => !(heap' y).any (ServerList.isLostOf c.srcIp)) =
      a.peerList.filter fun y => !(heap y).any (ServerList.isLostOf c.srcIp) :=
    List.filter_congr fun y hy => by rw [h y hy]
  rw [enter_eq, enter_eq, hfilter, List.filterMap_congr h]

theorem mem_enter {y : Ptr} (hy : y ∈ (a.enter heap p c).peerList) : y ∈ a.peerList ∨ y = p := by
  rw [enter_eq, List.mem_append, List.mem_singleton] at hy
  exact hy.imp_left List.mem_of_mem_filter

/-- A copy that no message has announced yet changes nothing. -/
theorem processMessage_update (hp : p ∉ a.peerList) (hmsg : msg.param ≠ p) :
    a.processMessage (Function.update heap p x) msg now =
      ((a.processMessage heap msg now).1,
        Function.update (a.processMessage heap msg now).2 p x) := by
  have hne : ∀ y ∈ a.peerList, y ≠ p := fun y hy heq => hp (heq ▸ hy)
  have hsame : ∀ y ∈ a.peerList, Function.update heap p x y = heap y :=
    fun y hy => Function.update_of_ne (hne y hy) _ _
  have hparam : Function.update heap p x msg.param = heap msg.param :=
    Function.update_of_ne hmsg _ _
  unfold processMessage
  rw [hparam]
  split
  · cases heap msg.param with
    | none => rfl
    | some c =>
        dsimp only
        rw [enter_congr hsame]
        refine Prod.ext (countMessage_congr fun y hy => ?_) rfl
        rcases mem_enter hy with hy | rfl
        · exact hsame y hy
        · exact hparam
  · dsimp only
    split
    · rw [Function.update_comm hmsg.symm]
      refine Prod.ext (countMessage_congr fun y hy => ?_) rfl
      exact Function.update_of_ne (hne y hy) _ _
    · rfl

/-! ## Several messages -/

/-- Every connection of the admin has its copy. -/
def Allocated (heap : Ptr → Option PeerInfo) (a : AdminHTTPServer) : Prop :=
  ∀ y ∈ a.peerList, (heap y).isSome

theorem sublist_countMessage (a : AdminHTTPServer) (heap : Ptr → Option PeerInfo) (c : PeerInfo)
    (id : UInt32) (now : Datetime) :
    (a.countMessage heap c id now).peerList.Sublist a.peerList := by
  unfold countMessage
  dsimp only
  split_ifs
  · unfold endConnection
    split
    · exact List.Sublist.refl _
    · dsimp only
      split
      · exact List.eraseIdx_sublist _ _
      · exact List.Sublist.refl _
  · unfold establishConnection
    split <;> exact List.Sublist.refl _
  · unfold startConnection
    split <;> exact List.Sublist.refl _
  · exact List.Sublist.refl _

theorem mem_countMessage {y : Ptr} (hy : y ∈ (a.countMessage heap c id now).peerList) :
    y ∈ a.peerList := (sublist_countMessage a heap c id now).subset hy

theorem isSome_processMessage (y : Ptr) :
    ((a.processMessage heap msg now).2 y).isSome = (heap y).isSome := by
  unfold processMessage
  split
  · split <;> rfl
  · dsimp only
    split
    · rename_i c _ hc
      dsimp only
      by_cases hy : y = msg.param
      · rw [hy, Function.update_self, hc]
        rfl
      · rw [Function.update_of_ne hy]
    · rfl

theorem Allocated.processMessage (h : Allocated heap a) (hmsg : (heap msg.param).isSome)
    (now : Datetime) : Allocated (a.processMessage heap msg now).2 (a.processMessage heap msg
      now).1 := by
  intro y hy
  rw [isSome_processMessage]
  unfold AdminHTTPServer.processMessage at hy
  split at hy
  · split at hy
    · exact h y hy
    · rcases mem_enter (mem_countMessage hy) with hy | rfl
      · exact h y hy
      · exact hmsg
  · dsimp only at hy
    split at hy
    · have hmem : y ∈ peerList { a with
          currentItemIndex := a.peerList.findIdx (· == msg.param) } := mem_countMessage hy
      exact h y hmem
    · exact h y hy

/-- The messages of the log, each with the time at which it is processed. -/
def replay (a : AdminHTTPServer) (heap : Ptr → Option PeerInfo) (log : List (Message × Datetime)) :
    AdminHTTPServer × (Ptr → Option PeerInfo) :=
  log.foldl (fun r m => r.1.processMessage r.2 m.1 m.2) (a, heap)

theorem replay_cons (a : AdminHTTPServer) (heap : Ptr → Option PeerInfo) (msg : Message)
    (now : Datetime) (log : List (Message × Datetime)) :
    a.replay heap ((msg, now) :: log) =
      (a.processMessage heap msg now).1.replay (a.processMessage heap msg now).2 log := rfl

theorem replay_append (a : AdminHTTPServer) (heap : Ptr → Option PeerInfo)
    (log log' : List (Message × Datetime)) :
    a.replay heap (log ++ log') = (a.replay heap log).1.replay (a.replay heap log).2 log' :=
  List.foldl_append

theorem replay_update (h : Allocated heap a) (hp : heap p = none) (x : Option PeerInfo)
    {log : List (Message × Datetime)} (hlog : ∀ m ∈ log, (heap m.1.param).isSome) :
    a.replay (Function.update heap p x) log =
      ((a.replay heap log).1, Function.update (a.replay heap log).2 p x) := by
  induction log generalizing a heap with
  | nil => rfl
  | cons m log ih =>
      have hmsg := hlog m List.mem_cons_self
      have hpeer : p ∉ a.peerList := fun hmem => ServerList.ne_of_isSome hp (h p hmem) rfl
      rw [replay_cons, replay_cons,
        processMessage_update hpeer (ServerList.ne_of_isSome hp hmsg)]
      have hnone : (a.processMessage heap m.1 m.2).2 p = none := by
        rw [← Option.not_isSome_iff_eq_none, isSome_processMessage, hp]
        decide
      apply ih (h.processMessage hmsg m.2) hnone
      intro m' hm'
      rw [isSome_processMessage]
      exact hlog m' (List.mem_cons_of_mem _ hm')

end AdminHTTPServer

end Relb
