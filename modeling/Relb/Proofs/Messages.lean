import Relb.Proofs.PeerSteps
import Relb.Proofs.GetServer
/-!
# What a message does to the counters

The id of a message decides which counters of which server change. For the ids that the
program posts, the bit tests of `processMessage` amount to `report`. The server is the first
one with the address and port of the entry, and depends on the configuration only.
-/

namespace Relb

open Lib

open ConnectionPeer (Report report)

namespace ServerList

variable {s t : ServerList} {q pinfo : PeerInfo} {id : UInt32} {now : Datetime} {index j : Nat}
  {srv : ServerInfo} {r : Report} {removed : Bool} {p : Ptr} {queue : List Message}

/-! ## The entry and its server -/

/-- The server that the messages of an entry are counted for. -/
def dstServer (s : ServerList) (q : PeerInfo) : Option Nat := s.serversList.findIdx? (·.isDst q)

theorem dstServer_eq (s : ServerList) (q : PeerInfo) :
    s.dstServer q =
      (s.serversList.map ServerInfo.address).findIdx? (· == (q.dstIp, q.dstPort)) := by
  rw [dstServer, List.findIdx?_map]
  congr 1

theorem SameConfig.dstServer (h : s.SameConfig t) (q : PeerInfo) :
    t.dstServer q = s.dstServer q := by
  rw [dstServer_eq, dstServer_eq, h.addresses]

theorem dstServer_of_route {p : PeerInfo} (h : q.route = p.route) :
    s.dstServer q = s.dstServer p := by
  rw [dstServer_eq, dstServer_eq, (Prod.mk.inj h).2]

theorem getElem?_of_dstServer (h : s.dstServer q = some j) :
    ∃ srv, s.serversList[j]? = some srv ∧ srv.address = (q.dstIp, q.dstPort) := by
  obtain ⟨hj, hdst, -⟩ := List.findIdx?_eq_some_iff_getElem.mp h
  exact ⟨_, List.getElem?_eq_getElem hj, (ServerInfo.isDst_iff _ _).mp hdst⟩

/-! ## Ids -/

theorem kind_of_posted (hid : id ∈ postedIds) :
    ((id &&& statusClientServerMask = statusConnectionLost ∨
        id &&& statusClientServerMask = statusDisconnectedOk ∨
        id &&& statusClientServerMask = statusConnectionFailed) ↔
      report id = some .failed ∨ report id = some .ended) ∧
    (id &&& statusClientServerMask = statusConnectionEstablished ↔
      report id = some .established) := by
  have hall : ∀ id ∈ postedIds,
      ((id &&& statusClientServerMask = statusConnectionLost ∨
          id &&& statusClientServerMask = statusDisconnectedOk ∨
          id &&& statusClientServerMask = statusConnectionFailed) ↔
        report id = some .failed ∨ report id = some .ended) ∧
      (id &&& statusClientServerMask = statusConnectionEstablished ↔
        report id = some .established) := List.all_iff_forall_prop.mp (by decide)
  exact hall id hid

theorem countMessage_of_none (hid : id ∈ postedIds) (hr : report id = none) :
    s.countMessage index q id now = s := by
  obtain ⟨hend, hest⟩ := kind_of_posted hid
  rw [countMessage, if_neg (hend.not.mpr (by simp [hr])), if_neg (hest.not.mpr (by simp [hr]))]

theorem countMessage_of_established (hr : report id = some .established) :
    s.countMessage index q id now = s.establishConnection q now := by
  obtain ⟨hend, hest⟩ := kind_of_posted (ConnectionPeer.posted_of_report hr)
  rw [countMessage, if_neg (hend.not.mpr (by simp [hr])), if_pos (hest.mpr hr)]

theorem countMessage_of_end (hr : report id = some .failed ∨ report id = some .ended) :
    s.countMessage index q id now = s.endConnection index q id now := by
  have hid : id ∈ postedIds := hr.elim ConnectionPeer.posted_of_report
    ConnectionPeer.posted_of_report
  rw [countMessage, if_pos ((kind_of_posted hid).1.mpr hr)]

theorem peerList_recordMessage_of_report (hr : report id = some r) (s : ServerList) (index : Nat)
    (pinfo : PeerInfo) (now : Datetime) :
    (s.recordMessage index pinfo id now).peerList =
      s.peerList.modify index (·.setStatus id.toUInt8 now) := by
  have hrecorded : ¬(id = statusPeerConnectionCancelled ∨ id = statusPeerConnectionKicked) := by
    rintro (rfl | rfl)
    · cases hr
    · cases hr
  rw [peerList_recordMessage, if_neg hrecorded]

theorem notConnected_setStatus (hid : id ∈ postedIds) :
    (q.setStatus id.toUInt8 now).notConnected = true ↔
      report id = some .failed ∨ report id = some .ended := by
  have hstatus : ∀ id ∈ postedIds, statusHas id.toUInt8 statusPeerNotConnected = true ↔
      (report id = some .failed ∨ report id = some .ended) :=
    List.all_iff_forall_prop.mp (by decide)
  exact hstatus id hid

/-! ## The counted connection -/

theorem establishConnection_spec (s : ServerList) (q : PeerInfo) (now : Datetime) :
    (s.establishConnection q now).peerList = s.peerList ∧
      (s.establishConnection q now).serversList =
        (s.dstServer q).elim s.serversList fun i =>
          s.serversList.modify i (establishedServer · now) := by
  unfold establishConnection dstServer
  cases s.serversList.findIdx? (·.isDst q) with
  | none => exact ⟨rfl, rfl⟩
  | some i => exact ⟨rfl, rfl⟩

/-- An end removes its entry: the client has another one that has not ended, or the entry was
made before the last purge. -/
def removes (s : ServerList) (index : Nat) (pinfo : PeerInfo) : Bool :=
  s.otherConnected index pinfo || decide (pinfo.created < s.lastConnectionsCleanup)

theorem otherConnected_iff : s.otherConnected index pinfo = true ↔
    ∃ n q, s.peerList[n]? = some q ∧ n ≠ index ∧ q.notConnected = false ∧
      q.srcIp = pinfo.srcIp := by
  simp only [otherConnected, List.any_eq_true, Prod.exists, List.mk_mem_zipIdx_iff_getElem?,
    Bool.and_eq_true, decide_eq_true_eq, Bool.not_eq_true', beq_iff_eq, and_assoc]
  exact exists_comm

theorem otherConnected_recordMessage (s : ServerList) (index : Nat) (q pinfo : PeerInfo)
    (id : UInt32) (now : Datetime) :
    (s.recordMessage index q id now).otherConnected index pinfo =
      s.otherConnected index pinfo := by
  rw [Bool.eq_iff_iff, otherConnected_iff, otherConnected_iff]
  refine exists_congr fun n => exists_congr fun x => and_congr_left fun ⟨hn, _⟩ => ?_
  rw [peerList_recordMessage]
  split
  · exact Iff.rfl
  · rw [List.getElem?_modify_ne _ _ (Ne.symm hn)]

theorem endConnection_spec (s : ServerList) (index : Nat) (q : PeerInfo) (id : UInt32)
    (now : Datetime) :
    (s.endConnection index q id now).peerList =
        (if (s.dstServer q).isSome && s.removes index q then s.peerList.eraseIdx index
          else s.peerList) ∧
      (s.endConnection index q id now).serversList =
        (s.dstServer q).elim s.serversList fun i =>
          s.serversList.modify i (endedServer · id (s.removes index q) now) := by
  unfold endConnection dstServer
  cases s.serversList.findIdx? (·.isDst q) with
  | none => exact ⟨rfl, rfl⟩
  | some i =>
      dsimp only
      rw [← removes]
      cases s.removes index q
      · exact ⟨rfl, rfl⟩
      · exact ⟨rfl, rfl⟩

theorem processMessage_cancelled (s : ServerList) (a : Ptr) (now : Datetime) :
    s.processMessage ⟨statusPeerConnectionCancelled, a⟩ now = s := by
  rcases processMessage_cases s ⟨statusPeerConnectionCancelled, a⟩ now with
    ⟨-, hsame⟩ | ⟨index, pinfo, -, -, hmsg⟩
  · exact hsame
  · rw [hmsg]
    have hrecord : s.recordMessage index pinfo statusPeerConnectionCancelled now = s := if_pos rfl
    dsimp only
    rw [hrecord]
    exact countMessage_of_none (by decide) rfl

/-- What a report does to the server of its entry. -/
def reportedServer (srv : ServerInfo) (id : UInt32) (removed : Bool) (now : Datetime) :
    ServerInfo :=
  if report id = some .established then establishedServer srv now
  else endedServer srv id removed now

@[simp] theorem address_reportedServer (srv : ServerInfo) (id : UInt32) (removed : Bool)
    (now : Datetime) : (reportedServer srv id removed now).address = srv.address := by
  unfold reportedServer
  split
  · rfl
  · exact address_endedServer srv removed

theorem countMessage_of_report (hr : report id = some r) (s : ServerList) (index : Nat)
    (pinfo : PeerInfo) (now : Datetime) :
    (s.countMessage index pinfo id now).serversList =
        (s.dstServer pinfo).elim s.serversList (fun i =>
          s.serversList.modify i (reportedServer · id (s.removes index pinfo) now)) ∧
      (s.countMessage index pinfo id now).peerList =
        if r ≠ .established ∧ (s.dstServer pinfo).isSome = true ∧ s.removes index pinfo = true then
          s.peerList.eraseIdx index
        else s.peerList := by
  by_cases hest : r = .established
  · subst hest
    obtain ⟨hpeers, hservers⟩ := establishConnection_spec s pinfo now
    rw [countMessage_of_established hr, hservers, hpeers]
    simp [reportedServer, hr]
  · have hend := ConnectionPeer.failed_or_ended hr hest
    obtain ⟨hpeers, hservers⟩ := endConnection_spec s index pinfo id now
    rw [countMessage_of_end hend, hservers, hpeers]
    simp [reportedServer, hr, hest]

theorem serversList_of_report (hr : report id = some r) (s : ServerList) (index : Nat)
    (pinfo : PeerInfo) (now : Datetime) :
    ∃ removed, ((s.recordMessage index pinfo id now).countMessage index pinfo id now).serversList =
      (s.dstServer pinfo).elim s.serversList fun i =>
        s.serversList.modify i (reportedServer · id removed now) := by
  have hdst := (sameConfig_recordMessage s index pinfo id now).dstServer pinfo
  refine ⟨(s.recordMessage index pinfo id now).removes index pinfo, ?_⟩
  rw [(countMessage_of_report hr _ index pinfo now).1, hdst, serversList_recordMessage]

/-! ## Counters -/

theorem connecting_endedServer (hid : id ∈ postedIds) :
    (endedServer srv id removed now).connecting =
      if report id = some .failed then max (srv.connecting - 1) 0 else srv.connecting := by
  have hbits : ∀ id ∈ postedIds, id &&& statusConnectionFailed ≠ 0 ↔
      report id = some .failed := List.all_iff_forall_prop.mp (by decide)
  simp only [endedServer, ← hbits id hid]
  split_ifs <;> rfl

theorem connected_endedServer (hid : id ∈ postedIds) :
    (endedServer srv id removed now).connected =
      if report id = some .failed then srv.connected else max (srv.connected - 1) 0 := by
  have hbits : ∀ id ∈ postedIds, id &&& statusConnectionFailed ≠ 0 ↔
      report id = some .failed := List.all_iff_forall_prop.mp (by decide)
  simp only [endedServer, ← hbits id hid]
  split_ifs <;> rfl

theorem disconnected_endedServer (srv : ServerInfo) (id : UInt32) (removed : Bool)
    (now : Datetime) : (endedServer srv id removed now).disconnected = srv.disconnected +
      if removed = false ∧ id &&& statusPeerDisconnected ≠ 0 then 1 else 0 := by
  simp only [endedServer, apply_ite ServerInfo.disconnected, ite_self]
  cases removed with
  | true => simp
  | false =>
      by_cases hbit : id &&& statusPeerDisconnected ≠ 0
      · simp [hbit]
      · simp [hbit]

theorem finished_endedServer (srv : ServerInfo) (id : UInt32) (removed : Bool) (now : Datetime) :
    (endedServer srv id removed now).finished = srv.finished +
      if removed = false ∧ id &&& statusPeerDisconnected = 0 then 1 else 0 := by
  simp only [endedServer, apply_ite ServerInfo.finished, ite_self]
  cases removed with
  | true => simp
  | false =>
      by_cases hbit : id &&& statusPeerDisconnected ≠ 0
      · simp [hbit]
      · simp [hbit]

/-! ## The queue of the admin and the copies -/

theorem isSome_update {heap : Ptr → Option PeerInfo} {p y : Ptr} (h : (heap y).isSome)
    (c : PeerInfo) : (Function.update heap p (some c) y).isSome := by
  by_cases hy : y = p
  · rw [hy, Function.update_self]
    rfl
  · rwa [Function.update_of_ne hy]

theorem ne_of_isSome {heap : Ptr → Option PeerInfo} {p y : Ptr} (hp : heap p = none)
    (hy : (heap y).isSome) : y ≠ p := by
  rintro rfl
  rw [hp] at hy
  cases hy

theorem postParallel_eq (hqueue : s.parallelList = some queue) (id : UInt32) (p : Ptr) :
    s.postParallel id (some p) = { s with parallelList := some (queue ++ [⟨id, p⟩]) } := by
  simp only [postParallel, hqueue]

/-- The part of the state that the admin can see. -/
def link (s : ServerList) : Option (List Message) × (Ptr → Option PeerInfo) :=
  (s.parallelList, s.parallels)

@[simp] theorem link_closePInfo (m : Option ManagerId) (p : Option Ptr) :
    (s.closePInfo m p).link = s.link := by
  unfold closePInfo
  split <;> rfl

theorem link_endConnection (s : ServerList) (index : Nat) (pinfo : PeerInfo) (id : UInt32)
    (now : Datetime) : (s.endConnection index pinfo id now).link = s.link := by
  unfold endConnection
  split
  · rfl
  · dsimp only
    split_ifs <;> rfl

theorem link_countMessage (s : ServerList) (index : Nat) (pinfo : PeerInfo) (id : UInt32)
    (now : Datetime) : (s.countMessage index pinfo id now).link = s.link := by
  unfold countMessage establishConnection
  dsimp only
  split_ifs
  · exact link_endConnection _ _ _ _ _
  · split <;> rfl
  · rfl

theorem link_recordMessage (hqueue : s.parallelList = some queue) (hr : report id = some r)
    (hp : pinfo.parallel = some p) (index : Nat) (now : Datetime) :
    (s.recordMessage index pinfo id now).link = (some (queue ++ [⟨id, p⟩]), s.parallels) := by
  have hid : ∀ id ∈ postedIds, report id = some r →
      id ≠ statusPeerConnectionCancelled ∧ id ≠ statusPeerConnectionKicked ∧
        id.toUInt8.toUInt32 = id := by
    cases r <;> exact List.all_iff_forall_prop.mp (by decide)
  obtain ⟨hcancelled, hkicked, hbyte⟩ := hid id (ConnectionPeer.posted_of_report hr) hr
  have hmodified : (s.modifyPeer index (·.setStatus id.toUInt8 now)).parallelList = some queue :=
    hqueue
  rw [recordMessage, if_neg hcancelled, if_neg hkicked, hp, hbyte, postParallel_eq hmodified]
  rfl

end ServerList

end Relb
