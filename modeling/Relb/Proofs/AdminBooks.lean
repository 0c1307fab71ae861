import Relb.Proofs.CleanBooks
/-!
# The books of the web admin

The admin processes messages from an empty list on, each connection in the order of its life.
Its counters are the numbers of its connections by the last message for each of them, as long
as no connection that is still listed is reported as deleted: such a report takes the entry off
the account of the established connections, where it no longer is.
-/

namespace Relb

open Lib

open ConnectionPeer (report)

open ServerList (tally Booked LegalTransition reportedServer endedServer keptEntry)

/-! ## Entries by their copies -/

section Copies

variable {heap : Ptr → Option PeerInfo} {l : List Ptr} {p : Ptr} {index : Nat} {c : PeerInfo}
  {servers : List ServerInfo} {q : PeerInfo} {cls cls' : PeerInfo → Option Account}
  {entries : List PeerInfo}

theorem filterMap_filter_any (P : PeerInfo → Bool) (l : List Ptr) :
    (l.filter fun p => !(heap p).any P).filterMap heap = (l.filterMap heap).filter (!P ·) := by
  induction l with
  | nil => rfl
  | cons p l ih =>
      cases hp : heap p with
      | none => simp [hp, ih]
      | some c => cases hP : P c <;> simp [hp, hP, ih]

theorem filterMap_perm (hp : l[index]? = some p) (hc : heap p = some c) :
    (l.filterMap heap).Perm (c :: (l.eraseIdx index).filterMap heap) := by
  have hperm := (perm_cons_eraseIdx hp).filterMap heap
  rwa [List.filterMap_cons_some hc] at hperm

theorem filterMap_eraseIdx_update (hnodup : l.Nodup) (hp : l[index]? = some p)
    (heap : Ptr → Option PeerInfo) (x : Option PeerInfo) :
    (l.eraseIdx index).filterMap (Function.update heap p x) =
      (l.eraseIdx index).filterMap heap := by
  have hkeys : (l.map id).Nodup := by rwa [List.map_id]
  apply List.filterMap_congr
  intro y hy
  exact Function.update_of_ne (key_ne_of_mem_eraseIdx hkeys hp hy) _ _

theorem ServerList.Booked.congr (h : Booked cls servers entries)
    (hcls : ∀ q ∈ entries, cls' q = cls q) : Booked cls' servers entries := by
  intro srv hsrv a
  have htally : tally cls' entries srv a = tally cls entries srv a :=
    List.countP_congr fun q hq => by rw [hcls q hq]
  rw [h srv hsrv a, htally]

theorem ServerList.Booked.perm {entries' : List PeerInfo} (h : Booked cls servers entries)
    (hperm : entries.Perm entries') : Booked cls servers entries' := by
  intro srv hsrv a
  rw [h srv hsrv a, ServerList.tally_perm hperm]

theorem ServerList.Booked.start (h : Booked PeerInfo.account servers entries)
    (hnodup : (servers.map ServerInfo.address).Nodup)
    (hpointed : (q.dstIp, q.dstPort) ∈ servers.map ServerInfo.address)
    (hstatus : q.status = statusConnectingServer.toUInt8) :
    Booked PeerInfo.account
      ((servers.findIdx? (·.isDst q)).elim servers fun i =>
        servers.modify i ServerInfo.startConnecting) (entries ++ [q]) := by
  obtain ⟨i, dst, hdst, hisDst, hserver⟩ := ServerList.exists_dst hnodup hpointed
  have haccount : q.account = some .connecting := by
    rw [PeerInfo.account, hstatus]
    rfl
  rw [hserver, Option.elim_some]
  refine h.exchange_entry hnodup hdst none (some q) (by simp)
    (fun x hx => Option.some.inj hx ▸ hisDst) (List.Perm.refl _) List.perm_append_comm
    dst.address_startConnecting fun a => ?_
  rw [dst.book_startConnecting, Option.bind_some, haccount]
  simp [eq_comm]

theorem foundByIp_of_distinct (hips : (servers.map ServerInfo.ip).Nodup)
    (hpointed : (q.dstIp, q.dstPort) ∈ servers.map ServerInfo.address) :
    FoundByIp servers q := by
  obtain ⟨dst, hmem, haddr⟩ := List.mem_map.mp hpointed
  obtain ⟨i, hdst⟩ := List.mem_iff_getElem?.mp hmem
  have hip : dst.ip = q.dstIp := congrArg Prod.fst haddr
  have hfirst : servers.findIdx? (fun srv => srv.ip == q.dstIp) = some i :=
    findIdx?_eq_of_key hips hdst (beq_iff_eq.mpr hip) fun x _ hx =>
      (beq_iff_eq.mp hx).trans hip.symm
  have hown : servers.findIdx? (·.isDst q) = some i :=
    findIdx?_eq_of_key hips hdst ((ServerInfo.isDst_iff dst q).mpr haddr) fun x _ hx =>
      (congrArg Prod.fst ((ServerInfo.isDst_iff x q).mp hx)).trans hip.symm
  exact hfirst.trans hown.symm

end Copies

/-! ## Runs -/

def lastId (log : List Message) (p : Ptr) : Option UInt32 :=
  (log.reverse.find? fun msg => msg.param == p).map Message.id

theorem lastId_concat (log : List Message) (msg : Message) (p : Ptr) :
    lastId (log ++ [msg]) p = if msg.param = p then some msg.id else lastId log p := by
  rw [lastId, List.reverse_append, List.reverse_singleton, List.singleton_append,
    List.find?_cons]
  by_cases hp : msg.param = p
  · simp [hp]
  · have hbeq : (msg.param == p) = false := by simpa using hp
    rw [hbeq, if_neg hp]
    rfl

/-- The admin with the messages that it has processed. -/
structure AdminRun where
  admin : AdminHTTPServer
  heap : Ptr → Option PeerInfo
  log : List Message

namespace AdminRun

def receive (w : AdminRun) (msg : Message) (now : Datetime) : AdminRun :=
  ⟨(w.admin.processMessage w.heap msg now).1, (w.admin.processMessage w.heap msg now).2,
    w.log ++ [msg]⟩

/-- No message has been processed, and nothing is counted; the copies are as they were made. -/
structure Started (w : AdminRun) : Prop where
  peerList : w.admin.peerList = []
  counters : ∀ srv ∈ w.admin.serverList, ∀ a, srv.book a = 0
  ips : (w.admin.serverList.map ServerInfo.ip).Nodup
  copies : ∀ p c, w.heap p = some c → c.status = statusConnectingServer.toUInt8 ∧
    (c.dstIp, c.dstPort) ∈ w.admin.serverList.map ServerInfo.address
  log : w.log = []

/-- The message is the next one in the life of its connection. -/
def InOrder (w : AdminRun) (msg : Message) : Prop :=
  match lastId w.log msg.param with
  | none => msg.id = statusConnectingServer
  | some id => LegalTransition id.toUInt8 msg.id ∨
      (report id = some .failed ∨ report id = some .ended) ∧ msg.id = statusPeerConnectionDeleted

/-- No connection is deleted that is still listed. -/
def Unlisted (w : AdminRun) (msg : Message) : Prop :=
  msg.id = statusPeerConnectionDeleted → msg.param ∉ w.admin.peerList

def Admissible (w : AdminRun) (x : Message × Datetime) : Prop := w.InOrder x.1 ∧ w.Unlisted x.1

def ReachableBy (guard : AdminRun → Message × Datetime → Prop) : AdminRun → Prop :=
  Reach (fun w x w' => w.receive x.1 x.2 = w') guard Started

/-- The last message for a connection of the server has put it in the account. -/
def isReported (w : AdminRun) (srv : ServerInfo) (a : Account) (p : Ptr) : Bool :=
  (w.heap p).any (srv.isDst ·) &&
    ((lastId w.log p).bind fun id => statusAccount id.toUInt8) == some a

/-- The listed connections of a server in an account. -/
def reported (w : AdminRun) (srv : ServerInfo) (a : Account) : Nat :=
  w.admin.peerList.countP (w.isReported srv a)

/-- For every server, each counter is the number of its connections in that account. -/
def Balanced (w : AdminRun) : Prop :=
  ∀ srv ∈ w.admin.serverList, ∀ a, srv.book a = (w.reported srv a : Int)

/-! ## The invariant -/

/-- The ids after which a connection is listed. -/
def trackedIds : List UInt32 :=
  [statusConnectingServer, statusConnectionEstablished, statusConnectionFailed,
    statusServerDisconnectedOk, statusClientDisconnectedOk,
    statusServerConnectionLost, statusClientConnectionLost]

/-- The copies show the last messages, and the books are those of the copies. -/
structure Audited (w : AdminRun) : Prop where
  ips : (w.admin.serverList.map ServerInfo.ip).Nodup
  nodup : w.admin.peerList.Nodup
  pointed : ∀ p c, w.heap p = some c →
    (c.dstIp, c.dstPort) ∈ w.admin.serverList.map ServerInfo.address
  unheard : ∀ p c, lastId w.log p = none → w.heap p = some c →
    c.status = statusConnectingServer.toUInt8
  heard : ∀ p ∈ w.admin.peerList, ∃ c, w.heap p = some c ∧
    ∃ id ∈ trackedIds, lastId w.log p = some id ∧ c.status = id.toUInt8
  books : Booked PeerInfo.account w.admin.serverList (w.admin.peerList.filterMap w.heap)

variable {w : AdminRun} {msg : Message} {now : Datetime} {p : Ptr} {c : PeerInfo} {index : Nat}

theorem Started.audited (h : w.Started) : w.Audited := by
  refine ⟨h.ips, by simp [h.peerList], fun p c hc => (h.copies p c hc).2,
    fun p c _ hc => (h.copies p c hc).1, by simp [h.peerList], ?_⟩
  intro srv hsrv a
  rw [h.counters srv hsrv a, h.peerList]
  rfl

theorem Audited.reported_eq (h : w.Audited) (srv : ServerInfo) (a : Account) :
    w.reported srv a = tally PeerInfo.account (w.admin.peerList.filterMap w.heap) srv a := by
  rw [tally, List.countP_filterMap]
  apply List.countP_congr
  intro p hp
  obtain ⟨c, hc, id, -, hid, hstatus⟩ := h.heard p hp
  simp [isReported, hc, hid, PeerInfo.account, hstatus]

theorem Audited.balanced (h : w.Audited) : w.Balanced := by
  intro srv hsrv a
  rw [h.books srv hsrv a, h.reported_eq]

theorem Audited.standing (h : w.Audited) :
    ∀ q ∈ w.admin.peerList.filterMap w.heap, q.standing = q.account := by
  intro q hq
  obtain ⟨p, hp, hc⟩ := List.mem_filterMap.mp hq
  obtain ⟨c, hc', id, hid, -, hstatus⟩ := h.heard p hp
  obtain rfl := Option.some.inj (hc.symm.trans hc')
  apply PeerInfo.standing_eq_account
  rw [hstatus]
  apply List.mem_map_of_mem
  have hall : ∀ id ∈ trackedIds, id ∈ statusConnectingServer :: postedIds :=
    List.all_iff_forall_prop.mp (by decide)
  exact hall id hid

/-! ## One message -/

/-- A message writes the copy of its connection only, and lists no other one. -/
theorem Audited.next {w' : AdminRun} (h : w.Audited)
    (haddress : w'.admin.serverList.map ServerInfo.address =
      w.admin.serverList.map ServerInfo.address)
    (hlog : w'.log = w.log ++ [msg])
    (hheap : ∀ p, msg.param ≠ p → w'.heap p = w.heap p)
    (hcopy : ∀ c, w'.heap msg.param = some c → ∃ c₀, w.heap msg.param = some c₀ ∧
      (c.dstIp, c.dstPort) = (c₀.dstIp, c₀.dstPort))
    (hnodup : w'.admin.peerList.Nodup)
    (hlisted : ∀ p ∈ w'.admin.peerList, msg.param ≠ p → p ∈ w.admin.peerList)
    (hself : msg.param ∈ w'.admin.peerList → ∃ c, w'.heap msg.param = some c ∧
      msg.id ∈ trackedIds ∧ c.status = msg.id.toUInt8)
    (hbooks : Booked PeerInfo.account w'.admin.serverList
      (w'.admin.peerList.filterMap w'.heap)) : w'.Audited := by
  have hips : w'.admin.serverList.map ServerInfo.ip = w.admin.serverList.map ServerInfo.ip := by
    have hfst := congrArg (List.map Prod.fst) haddress
    rwa [List.map_map, List.map_map] at hfst
  refine ⟨hips ▸ h.ips, hnodup, fun p c hc => ?_, fun p c hlast hc => ?_, fun p hp => ?_, hbooks⟩
  · rw [haddress]
    by_cases hp : msg.param = p
    · subst hp
      obtain ⟨c₀, hc₀, hdst⟩ := hcopy c hc
      rw [hdst]
      exact h.pointed _ c₀ hc₀
    · rw [hheap p hp] at hc
      exact h.pointed p c hc
  · rw [hlog, lastId_concat] at hlast
    split at hlast
    · cases hlast
    · rename_i hp
      rw [hheap p hp] at hc
      exact h.unheard p c hlast hc
  · by_cases hp' : msg.param = p
    · subst hp'
      obtain ⟨c, hc, hid, hstatus⟩ := hself hp
      exact ⟨c, hc, msg.id, hid, by rw [hlog, lastId_concat, if_pos rfl], hstatus⟩
    · rw [hheap p hp', hlog, lastId_concat, if_neg hp']
      exact h.heard p (hlisted p hp hp')

theorem Audited.of_same {w' : AdminRun} (h : w.Audited)
    (hservers : w'.admin.serverList = w.admin.serverList)
    (hpeers : w'.admin.peerList = w.admin.peerList) (hheap : w'.heap = w.heap)
    (hlog : w'.log = w.log ++ [msg]) (hp : msg.param ∉ w.admin.peerList) : w'.Audited := by
  apply h.next (by rw [hservers]) hlog
  · exact fun p _ => by rw [hheap]
  · exact fun c hc => ⟨c, by rwa [hheap] at hc, rfl⟩
  · rw [hpeers]
    exact h.nodup
  · exact fun p hmem _ => hpeers ▸ hmem
  · intro hmem
    rw [hpeers] at hmem
    exact absurd hmem hp
  · rw [hservers, hpeers, hheap]
    exact h.books

theorem receive_of_unlisted (hid : msg.id ≠ statusConnectingServer)
    (hp : msg.param ∉ w.admin.peerList) (now : Datetime) :
    (w.receive msg now).admin.serverList = w.admin.serverList ∧
      (w.receive msg now).admin.peerList = w.admin.peerList ∧
      (w.receive msg now).heap = w.heap := by
  have hnone : w.admin.peerList[w.admin.peerList.findIdx (· == msg.param)]? = none := by
    rw [List.getElem?_eq_none_iff, List.findIdx_eq_length_of_false]
    intro p hmem
    exact beq_eq_false_iff_ne.mpr fun heq => hp (heq ▸ hmem)
  unfold receive AdminHTTPServer.processMessage
  rw [if_neg hid]
  dsimp only
  rw [hnone]
  exact ⟨rfl, rfl, rfl⟩

theorem Audited.cleaned (h : w.Audited) (ip : IpAddress) :
    Booked PeerInfo.account
      (((w.admin.peerList.filterMap w.heap).filter (ServerList.isLostOf ip)).foldl cleanFirst
        w.admin.serverList)
      ((w.admin.peerList.filterMap w.heap).filter (!ServerList.isLostOf ip ·)) := by
  have hentries : ∀ q ∈ w.admin.peerList.filterMap w.heap,
      (q.dstIp, q.dstPort) ∈ w.admin.serverList.map ServerInfo.address := by
    intro q hq
    obtain ⟨p, -, hc⟩ := List.mem_filterMap.mp hq
    exact h.pointed p q hc
  have hbooked := (h.books.congr h.standing).perm
    (List.filter_append_perm (ServerList.isLostOf ip) _).symm
  refine (hbooked.foldl_clean (nodup_address_of_ips h.ips) ?_ ?_ ?_).congr ?_
  · intro q hq
    exact (Bool.and_eq_true_iff.mp (List.mem_filter.mp hq).2).2
  · intro q hq
    exact foundByIp_of_distinct h.ips (hentries q (List.mem_of_mem_filter hq))
  · intro q hq
    exact hentries q (List.mem_of_mem_filter hq)
  · intro q hq
    exact (h.standing q (List.mem_of_mem_filter hq)).symm

theorem Audited.entered (h : w.Audited) (p : Ptr) (c : PeerInfo) :
    (w.admin.enter w.heap p c).serverList.map ServerInfo.address =
        w.admin.serverList.map ServerInfo.address ∧
      Booked PeerInfo.account (w.admin.enter w.heap p c).serverList
        ((w.admin.peerList.filter fun p =>
          !(w.heap p).any (ServerList.isLostOf c.srcIp)).filterMap w.heap) := by
  rw [AdminHTTPServer.enter_eq, filterMap_filter_any]
  exact ⟨address_foldl_cleanFirst _ _, h.cleaned c.srcIp⟩

/-- An announced connection is put on the account of its server. -/
theorem Audited.announce (h : w.Audited) (hnone : lastId w.log msg.param = none)
    (hid : msg.id = statusConnectingServer) (now : Datetime) : (w.receive msg now).Audited := by
  obtain ⟨id, p⟩ := msg
  subst hid
  have hunlisted : p ∉ w.admin.peerList := by
    intro hmem
    obtain ⟨c, -, id, -, hlast, -⟩ := h.heard p hmem
    rw [hnone] at hlast
    cases hlast
  cases hc : w.heap p with
  | none =>
      have hsame : w.receive ⟨statusConnectingServer, p⟩ now =
          ⟨w.admin, w.heap, w.log ++ [⟨statusConnectingServer, p⟩]⟩ := by
        simp [receive, AdminHTTPServer.processMessage, hc]
      rw [hsame]
      exact h.of_same rfl rfl rfl rfl hunlisted
  | some c =>
      have hstatus := h.unheard p c hnone hc
      obtain ⟨haddress, hentered⟩ := h.entered p c
      obtain ⟨hservers, hpeers⟩ :=
        AdminHTTPServer.startConnection_eq (w.admin.enter w.heap p c) c
      have hlist : (w.admin.enter w.heap p c).peerList =
          w.admin.peerList.filter (fun p => !(w.heap p).any (ServerList.isLostOf c.srcIp)) ++
            [p] := by
        rw [AdminHTTPServer.enter_eq]
      rw [hlist] at hpeers
      rw [receive, AdminHTTPServer.processMessage_connecting hc]
      apply h.next _ rfl
      · exact fun y _ => rfl
      · exact fun x hx => ⟨x, hx, rfl⟩
      · rw [hpeers, List.nodup_append]
        refine ⟨h.nodup.filter _, List.nodup_singleton p, fun x hx y hy heq => ?_⟩
        rw [List.mem_singleton.mp hy] at heq
        exact hunlisted (heq ▸ List.mem_of_mem_filter hx)
      · intro y hy hne
        rw [hpeers, List.mem_append, List.mem_singleton] at hy
        rcases hy with hy | hy
        · exact List.mem_of_mem_filter hy
        · exact absurd hy.symm hne
      · exact fun _ => ⟨c, hc, List.mem_cons_self, hstatus⟩
      · have hlast : [p].filterMap w.heap = [c] := List.filterMap_cons_some hc
        rw [hservers, hpeers, List.filterMap_append, hlast]
        exact hentered.start (haddress ▸ nodup_address_of_ips h.ips)
          (haddress ▸ h.pointed p c hc) hstatus
      · rw [hservers, ← haddress]
        cases (w.admin.enter w.heap p c).serverList.findIdx? (·.isDst c) with
        | none => rfl
        | some i => exact map_modify (by intro srv; rfl) _ i

theorem mem_trackedIds {status : UInt8} {id : UInt32} (h : LegalTransition status id) :
    id ∈ trackedIds := by
  rcases h with ⟨-, rfl | rfl⟩ | ⟨-, rfl | rfl | rfl | rfl⟩ <;> decide

/-- The next report for a listed connection moves it to its next account, or drops it. -/
theorem Audited.moved (h : w.Audited) {id : UInt32} (hp : w.admin.peerList[index]? = some p)
    (hc : w.heap p = some c) (hlegal : LegalTransition c.status id) (now : Datetime) :
    (w.receive ⟨id, p⟩ now).Audited := by
  obtain ⟨r, hr⟩ := hlegal.report
  obtain ⟨i, dst, hdst, hisDst, hserver⟩ :=
    ServerList.exists_dst (nodup_address_of_ips h.ips) (h.pointed p c hc)
  have hmem : c ∈ w.admin.peerList.filterMap w.heap :=
    List.mem_filterMap.mpr ⟨p, List.mem_of_getElem? hp, hc⟩
  rw [receive, AdminHTTPServer.processMessage_listed (AdminHTTPServer.ne_connecting_of_report hr)
    hp h.nodup hc]
  obtain ⟨hservers, hpeers⟩ := AdminHTTPServer.countMessage_of_report hr
    { w.admin with currentItemIndex := index }
    (Function.update w.heap p (some (c.setStatus id.toUInt8 now))) (c.setStatus id.toUInt8 now) now
  generalize AdminHTTPServer.removes _ _ _ = removed at hservers hpeers
  have hserver' : w.admin.serverList.findIdx? (·.isDst (c.setStatus id.toUInt8 now)) = some i :=
    hserver
  dsimp only at hservers hpeers
  rw [hserver', Option.elim_some] at hservers
  rw [hserver', Option.isSome_some] at hpeers
  have hrest := filterMap_eraseIdx_update h.nodup hp w.heap
    (some (c.setStatus id.toUInt8 now))
  apply h.next _ rfl
  · exact fun y hy => Function.update_of_ne (Ne.symm hy) _ _
  · intro x hx
    have hself : Function.update w.heap p (some (c.setStatus id.toUInt8 now)) p = some x := hx
    rw [Function.update_self] at hself
    obtain rfl := Option.some.inj hself
    exact ⟨c, hc, rfl⟩
  · rw [hpeers]
    split
    · exact h.nodup.eraseIdx index
    · exact h.nodup
  · intro y hy _
    rw [hpeers] at hy
    split at hy
    · exact List.mem_of_mem_eraseIdx hy
    · exact hy
  · exact fun _ => ⟨_, Function.update_self .., mem_trackedIds hlegal, rfl⟩
  · rw [hservers]
    refine h.books.exchange_entry (nodup_address_of_ips h.ips) hdst (some c)
      (keptEntry c id removed now) (fun x hx => Option.some.inj hx ▸ hisDst) ?_
      (filterMap_perm hp hc) ?_ (ServerList.address_reportedServer dst id removed now) ?_
    · intro x hx
      unfold keptEntry at hx
      split at hx
      · cases hx
      · exact Option.some.inj hx ▸ hisDst
    · rw [hpeers, ← hrest, keptEntry, hr]
      by_cases hgone : r ≠ .established ∧ removed = true
      · rw [if_pos ⟨hgone.1, rfl, hgone.2⟩, if_pos (by simpa using hgone)]
        exact List.Perm.refl _
      · rw [if_neg fun hall => hgone ⟨hall.1, hall.2.2⟩, if_neg (by simpa using hgone)]
        exact filterMap_perm hp (Function.update_self ..)
    · exact ServerList.book_reportedServer hlegal removed now fun a ha =>
        h.books.one_le_book (List.mem_of_getElem? hdst) hmem hisDst ha
  · rw [hservers]
    exact map_modify (fun srv => ServerList.address_reportedServer srv id removed now) _ i

theorem ne_connecting_of_legal {status : UInt8} {id : UInt32} (h : LegalTransition status id) :
    id ≠ statusConnectingServer := by
  rcases h with ⟨-, rfl | rfl⟩ | ⟨-, rfl | rfl | rfl | rfl⟩ <;> decide

theorem Audited.received (h : w.Audited) (horder : w.InOrder msg) (hunlisted : w.Unlisted msg)
    (now : Datetime) : (w.receive msg now).Audited := by
  have hother : msg.id ≠ statusConnectingServer → msg.param ∉ w.admin.peerList →
      (w.receive msg now).Audited := by
    intro hid hp
    obtain ⟨hservers, hpeers, hheap⟩ := receive_of_unlisted hid hp now
    exact h.of_same hservers hpeers hheap rfl hp
  unfold InOrder at horder
  cases hlast : lastId w.log msg.param with
  | none =>
      rw [hlast] at horder
      exact h.announce hlast horder now
  | some id₀ =>
      rw [hlast] at horder
      rcases horder with hlegal | ⟨-, hdeleted⟩
      · by_cases hp : msg.param ∈ w.admin.peerList
        · obtain ⟨index, hindex⟩ := List.mem_iff_getElem?.mp hp
          obtain ⟨c, hc, id, -, hid, hstatus⟩ := h.heard _ hp
          obtain rfl := Option.some.inj (hlast.symm.trans hid)
          exact h.moved hindex hc (hstatus ▸ hlegal) now
        · exact hother (ne_connecting_of_legal hlegal) hp
      · exact hother (by rw [hdeleted]; decide) (hunlisted hdeleted)

theorem ReachableBy.audited (hw : ReachableBy Admissible w) :
    w.Audited := by
  refine Reach.invariant (I := Audited) (fun w hw => hw.audited) ?_ hw
  intro w x w' ih hguard hstep
  rw [← hstep]
  exact ih.received hguard.1 hguard.2 x.2

/-! ## A deletion -/

theorem countMessage_deleted (a : AdminHTTPServer) (heap : Ptr → Option PeerInfo) (c : PeerInfo)
    (now : Datetime) :
    a.countMessage heap c statusPeerConnectionDeleted now =
      a.endConnection heap c statusPeerConnectionDeleted now := by
  unfold AdminHTTPServer.countMessage
  exact if_pos (by decide)

theorem receive_deleted {i : Nat} (hnodup : w.admin.peerList.Nodup)
    (hp : w.admin.peerList[index]? = some p) (hc : w.heap p = some c)
    (hserver : w.admin.serverList.findIdx? (·.isDst c) = some i) (now : Datetime) :
    (w.receive ⟨statusPeerConnectionDeleted, p⟩ now).admin.serverList =
        w.admin.serverList.modify i (endedServer · statusPeerConnectionDeleted true now) ∧
      (w.receive ⟨statusPeerConnectionDeleted, p⟩ now).admin.peerList =
        w.admin.peerList.eraseIdx index ∧
      ∀ y, y ≠ p → (w.receive ⟨statusPeerConnectionDeleted, p⟩ now).heap y = w.heap y := by
  have hindex := (List.getElem?_eq_some_iff.mp hp).1
  have hserver' : w.admin.serverList.findIdx?
      (·.isDst (c.setStatus statusPeerConnectionDeleted.toUInt8 now)) = some i := hserver
  rw [receive, AdminHTTPServer.processMessage_listed (by decide) hp hnodup hc,
    countMessage_deleted]
  simp only [AdminHTTPServer.endConnection, hserver', hindex]
  exact ⟨rfl, rfl, fun y hy => Function.update_of_ne hy _ _⟩

theorem book_endedServer_removed (srv : ServerInfo) (id : UInt32) (now : Datetime) {a : Account}
    (ha : a = .finished ∨ a = .disconnected) :
    (endedServer srv id true now).book a = srv.book a := by
  rcases ha with rfl | rfl
  · exact (ServerList.finished_endedServer srv id true now).trans (by simp [ServerInfo.book])
  · exact (ServerList.disconnected_endedServer srv id true now).trans (by simp [ServerInfo.book])

theorem account_of_ended {id : UInt32} (h : report id = some .failed ∨ report id = some .ended) :
    ∃ a, statusAccount id.toUInt8 = some a ∧ (a = .finished ∨ a = .disconnected) := by
  have hall : ∀ id ∈ postedIds, report id = some .failed ∨ report id = some .ended →
      statusAccount id.toUInt8 = some .finished ∨ statusAccount id.toUInt8 = some .disconnected :=
    List.all_iff_forall_prop.mp (by decide)
  rcases hall id (h.elim ConnectionPeer.posted_of_report ConnectionPeer.posted_of_report) h with
    ha | ha
  · exact ⟨_, ha, .inl rfl⟩
  · exact ⟨_, ha, .inr rfl⟩

/-- An ended connection that is deleted while it is listed leaves its account as it was. -/
theorem Audited.not_balanced_deletion (h : w.Audited) (hp : w.admin.peerList[index]? = some p)
    (horder : w.InOrder ⟨statusPeerConnectionDeleted, p⟩) (now : Datetime) :
    ¬(w.receive ⟨statusPeerConnectionDeleted, p⟩ now).Balanced := by
  obtain ⟨c, hc, last, -, hlast, -⟩ := h.heard p (List.mem_of_getElem? hp)
  obtain ⟨i, dst, hdst, hisDst, hserver⟩ :=
    ServerList.exists_dst (nodup_address_of_ips h.ips) (h.pointed p c hc)
  have hended : report last = some .failed ∨ report last = some .ended := by
    rw [InOrder, hlast] at horder
    rcases horder with hlegal | ⟨hended, -⟩
    · have htracked : statusPeerConnectionDeleted ∈ trackedIds := mem_trackedIds hlegal
      exact absurd htracked (by decide)
    · exact hended
  obtain ⟨a, ha, hkind⟩ := account_of_ended hended
  obtain ⟨hservers, hpeers, hheap⟩ := receive_deleted h.nodup hp hc hserver now
  have haddress : (endedServer dst statusPeerConnectionDeleted true now).address = dst.address :=
    ServerList.address_endedServer dst true
  intro hbalanced
  have hmem : endedServer dst statusPeerConnectionDeleted true now ∈
      (w.receive ⟨statusPeerConnectionDeleted, p⟩ now).admin.serverList := by
    rw [hservers]
    apply List.mem_of_getElem? (i := i)
    rw [List.getElem?_modify_eq, hdst]
    rfl
  have hafter := hbalanced _ hmem a
  have hbefore := h.balanced dst (List.mem_of_getElem? hdst) a
  have hself : w.isReported dst a p = true := by
    simp [isReported, hc, hisDst, hlast, ha]
  have hcount := countP_eraseIdx_add hp (w.isReported dst a)
  have hkeys : (w.admin.peerList.map id).Nodup := by
    rw [List.map_id]
    exact h.nodup
  have hothers : ∀ y ∈ w.admin.peerList.eraseIdx index,
      (w.receive ⟨statusPeerConnectionDeleted, p⟩ now).isReported
        (endedServer dst statusPeerConnectionDeleted true now) a y = w.isReported dst a y := by
    intro y hy
    have hne : y ≠ p := key_ne_of_mem_eraseIdx hkeys hp hy
    have hlog : lastId (w.log ++ [⟨statusPeerConnectionDeleted, p⟩]) y = lastId w.log y := by
      rw [lastId_concat, if_neg (Ne.symm hne)]
    simp only [isReported, hheap y hne, ServerList.isDst_congr haddress]
    rw [receive, hlog]
  rw [if_pos hself] at hcount
  have hsame := List.countP_congr (l := w.admin.peerList.eraseIdx index) fun y hy =>
    (Bool.eq_iff_iff.mp (hothers y hy))
  rw [book_endedServer_removed dst _ now hkind, hbefore, reported, reported, hpeers,
    hsame] at hafter
  omega

/-- The counters of the admin are the numbers of its connections by their last messages, in every
run in which only connections that have gone are deleted; the first other deletion breaks them. -/
theorem admin_books_balance (hw : ReachableBy Admissible w) :
    w.Balanced ∧
      (∀ p, lastId w.log p = some statusPeerConnectionDeleted → p ∉ w.admin.peerList) ∧
      ∀ msg now, w.InOrder msg → ((w.receive msg now).Balanced ↔ w.Unlisted msg) := by
  have h := hw.audited
  refine ⟨h.balanced, fun p hlast hp => ?_, fun msg now horder => ⟨?_, fun hunlisted => ?_⟩⟩
  · obtain ⟨c, -, id, hid, hlast', -⟩ := h.heard p hp
    obtain rfl := Option.some.inj (hlast.symm.trans hlast')
    exact absurd hid (by decide)
  · rintro hbalanced hid hp
    obtain ⟨index, hindex⟩ := List.mem_iff_getElem?.mp hp
    obtain ⟨id, p⟩ := msg
    subst hid
    exact h.not_balanced_deletion hindex horder now hbalanced
  · exact (h.received horder hunlisted now).balanced

namespace Sample

/-- One server, and the copy of one entry, which nobody has announced yet. -/
def start : AdminRun where
  admin := AdminHTTPServer.create.addServer ServerList.Sample.server1 80 1 0 0
  heap p := if p = 200 then
      some ⟨200, ServerList.Sample.client, 5000, ServerList.Sample.server1, 80,
        statusConnectingServer.toUInt8, some 100, none, 10, 10⟩
    else none
  log := []

/-- The connection is announced, established and ended. -/
def ended : AdminRun :=
  ((start.receive ⟨statusConnectingServer, 200⟩ 10).receive ⟨statusConnectionEstablished, 200⟩
    20).receive ⟨statusServerDisconnectedOk, 200⟩ 30

theorem started_start : start.Started := by
  refine ⟨rfl, ?_, by decide, ?_, rfl⟩
  · intro srv hsrv a
    rw [List.mem_singleton.mp hsrv]
    cases a <;> rfl
  · intro p c hc
    unfold start at hc
    dsimp only at hc
    split at hc
    · obtain rfl := Option.some.inj hc
      exact ⟨rfl, by decide⟩
    · cases hc

theorem reachable_ended : ReachableBy Admissible ended := by
  have hunlisted : ∀ (w : AdminRun) (msg : Message), msg.id ≠ statusPeerConnectionDeleted →
      w.Unlisted msg := fun w msg hid heq => absurd heq hid
  have hannounced : ReachableBy Admissible (start.receive ⟨statusConnectingServer, 200⟩ 10) :=
    .next (a := (⟨statusConnectingServer, 200⟩, 10)) (.start started_start)
      ⟨rfl, hunlisted _ _ (by decide)⟩ rfl
  have hestablished : ReachableBy Admissible ((start.receive ⟨statusConnectingServer, 200⟩
      10).receive ⟨statusConnectionEstablished, 200⟩ 20) := by
    refine hannounced.next (a := (⟨statusConnectionEstablished, 200⟩, 20))
      ⟨?_, hunlisted _ _ (by decide)⟩ rfl
    exact Or.inl (.inl ⟨rfl, .inl rfl⟩)
  refine hestablished.next (a := (⟨statusServerDisconnectedOk, 200⟩, 30))
    ⟨?_, hunlisted _ _ (by decide)⟩ rfl
  exact Or.inl (.inr ⟨rfl, .inr (.inr (.inl rfl))⟩)

end Sample

theorem admin_books_balance_ended :
    Sample.ended.admin.peerList = [200] ∧ Sample.ended.Balanced ∧
      (∀ p, lastId Sample.ended.log p = some statusPeerConnectionDeleted →
        p ∉ Sample.ended.admin.peerList) ∧
      ∀ msg now, Sample.ended.InOrder msg →
        ((Sample.ended.receive msg now).Balanced ↔ Sample.ended.Unlisted msg) :=
  ⟨by decide +kernel, admin_books_balance Sample.reachable_ended⟩

/-- The deletion that the cleanup of `ServerList` posts is in order. -/
theorem admin_books_broken :
    Sample.start.Started ∧ Sample.start.InOrder ⟨statusConnectingServer, 200⟩ ∧
      (Sample.start.receive ⟨statusConnectingServer, 200⟩ 10).InOrder
        ⟨statusConnectionEstablished, 200⟩ ∧
      ((Sample.start.receive ⟨statusConnectingServer, 200⟩ 10).receive
        ⟨statusConnectionEstablished, 200⟩ 20).InOrder ⟨statusServerDisconnectedOk, 200⟩ ∧
      Sample.ended.InOrder ⟨statusPeerConnectionDeleted, 200⟩ ∧
      ¬(Sample.ended.receive ⟨statusPeerConnectionDeleted, 200⟩ 40).Balanced := by
  refine ⟨Sample.started_start, rfl, Or.inl (.inl ⟨rfl, .inl rfl⟩),
    Or.inl (.inr ⟨rfl, .inr (.inr (.inl rfl))⟩), Or.inr ⟨.inr rfl, rfl⟩, fun hbalanced => ?_⟩
  have hfinished := hbalanced
    ⟨ServerList.Sample.server1, 80, 0, 1, 0, 0, 1, 0, false, 20⟩ (by decide +kernel) .finished
  revert hfinished
  decide +kernel

end AdminRun

end Relb
