import Relb.Proofs.Assignment
import Relb.Proofs.Messages
/-!
# The books of `ServerList`

The four counters of a server are meant to be the numbers of its entries, account by account.
An exchange of entries keeps the books balanced if each counter changes by what leaves and
what comes; a message of the life of a connection exchanges one entry for itself with a new
status, or drops it.
-/

namespace Relb

open Lib

open ConnectionPeer (Report)

/-- The counters of a server. -/
inductive Account
  | connecting
  | connected
  | finished
  | disconnected
  deriving DecidableEq, Repr

def ServerInfo.book (srv : ServerInfo) : Account → Int
  | .connecting => srv.connecting
  | .connected => srv.connected
  | .finished => srv.finished
  | .disconnected => srv.disconnected

theorem ServerInfo.book_startConnecting (srv : ServerInfo) (a : Account) :
    srv.startConnecting.book a = srv.book a + if a = .connecting then 1 else 0 := by
  cases a with
  | connecting => rfl
  | connected => exact (Int.add_zero _).symm
  | finished => exact (Int.add_zero _).symm
  | disconnected => exact (Int.add_zero _).symm

theorem nodup_address_of_ips {servers : List ServerInfo}
    (hips : (servers.map ServerInfo.ip).Nodup) : (servers.map ServerInfo.address).Nodup := by
  apply List.Nodup.of_map Prod.fst
  rw [List.map_map]
  exact hips

/-- The account of the entries with a status. -/
def statusAccount (status : UInt8) : Option Account :=
  if status.toUInt32 = statusConnectingServer then some .connecting
  else if status.toUInt32 = statusConnectionEstablished then some .connected
  else if status.toUInt32 = statusServerDisconnectedOk ∨
      status.toUInt32 = statusClientDisconnectedOk then some .finished
  else if status.toUInt32 = statusConnectionFailed ∨
      status.toUInt32 = statusServerConnectionLost ∨
      status.toUInt32 = statusClientConnectionLost then some .disconnected
  else none

def PeerInfo.account (q : PeerInfo) : Option Account := statusAccount q.status

namespace ServerList

variable {s t : ServerList} {q pinfo : PeerInfo} {id : UInt32} {now : Datetime} {j : Nat}
  {srv srv' : ServerInfo} {a : Account} {cls : PeerInfo → Option Account} {l l' : List PeerInfo}
  {servers servers' : List ServerInfo}

/-! ## Balance -/

/-- The entries of a server in an account; `cls` gives the account of an entry. -/
def tally (cls : PeerInfo → Option Account) (l : List PeerInfo) (srv : ServerInfo) (a : Account) :
    Nat :=
  l.countP fun q => srv.isDst q && cls q == some a

/-- For every server, each counter is the number of its entries in that account. -/
def Balanced (cls : PeerInfo → Option Account) (s : ServerList) : Prop :=
  ∀ srv ∈ s.serversList, ∀ a, srv.book a = (tally cls s.peerList srv a : Int)

instance (cls : PeerInfo → Option Account) (s : ServerList) : Decidable (s.Balanced cls) :=
  decidable_of_iff (∀ srv ∈ s.serversList,
      ∀ a ∈ [Account.connecting, .connected, .finished, .disconnected],
        srv.book a = (tally cls s.peerList srv a : Int))
    ⟨fun h srv hsrv a => h srv hsrv a (by cases a <;> simp), fun h srv hsrv a _ => h srv hsrv a⟩

/-- Every entry points to a configured server. -/
def Pointed (s : ServerList) : Prop :=
  ∀ q ∈ s.peerList, (q.dstIp, q.dstPort) ∈ s.serversList.map ServerInfo.address

instance (s : ServerList) : Decidable s.Pointed :=
  inferInstanceAs (Decidable (∀ q ∈ s.peerList,
    (q.dstIp, q.dstPort) ∈ s.serversList.map ServerInfo.address))

theorem isDst_congr (h : srv'.address = srv.address) (q : PeerInfo) :
    srv'.isDst q = srv.isDst q := by
  rw [Bool.eq_iff_iff, ServerInfo.isDst_iff, ServerInfo.isDst_iff, h]

theorem tally_congr (h : srv'.address = srv.address) (l : List PeerInfo) (a : Account) :
    tally cls l srv' a = tally cls l srv a :=
  List.countP_congr fun q _ => by rw [isDst_congr h q]

theorem tally_append (l l' : List PeerInfo) (srv : ServerInfo) (a : Account) :
    tally cls (l ++ l') srv a = tally cls l srv a + tally cls l' srv a := List.countP_append

theorem tally_perm (h : l.Perm l') (srv : ServerInfo) (a : Account) :
    tally cls l srv a = tally cls l' srv a := h.countP_eq _

@[simp] theorem tally_nil (srv : ServerInfo) (a : Account) : tally cls [] srv a = 0 := rfl

theorem tally_singleton (q : PeerInfo) (srv : ServerInfo) (a : Account) :
    (tally cls [q] srv a : Int) = if srv.isDst q = true ∧ cls q = some a then 1 else 0 := by
  simp only [tally, List.countP_cons, List.countP_nil, Bool.and_eq_true, beq_iff_eq]
  split <;> rfl

theorem tally_eq_zero (h : ∀ q ∈ l, srv.isDst q = false) (a : Account) : tally cls l srv a = 0 := by
  apply List.countP_eq_zero.mpr
  intro q hq
  rw [h q hq, Bool.false_and]
  exact Bool.false_ne_true

theorem index_eq_of_isDst (hnodup : (servers.map ServerInfo.address).Nodup) {i : Nat}
    (hsrv : servers[i]? = some srv) (hsrv' : servers[j]? = some srv')
    (hq : srv.isDst q = true) (hq' : srv'.isDst q = true) : i = j := by
  rw [ServerInfo.isDst_iff] at hq hq'
  exact index_eq_of_key hnodup hsrv hsrv' (hq.trans hq'.symm)

theorem exists_isDst (hpointed : s.Pointed) (hq : q ∈ s.peerList) :
    ∃ (j : Nat) (srv : ServerInfo), s.serversList[j]? = some srv ∧ srv.isDst q = true := by
  obtain ⟨srv, hmem, haddr⟩ := List.mem_map.mp (hpointed q hq)
  obtain ⟨j, hj⟩ := List.mem_iff_getElem?.mp hmem
  exact ⟨j, srv, hj, (ServerInfo.isDst_iff srv q).mpr haddr⟩

theorem dstServer_of_isDst (hnodup : (s.serversList.map ServerInfo.address).Nodup)
    (hsrv : s.serversList[j]? = some srv) (hq : srv.isDst q = true) : s.dstServer q = some j := by
  refine findIdx?_eq_of_key hnodup hsrv hq fun x _ hx => ?_
  rw [ServerInfo.isDst_iff] at hq hx
  exact hx.trans hq.symm

theorem tally_toList {o : Option PeerInfo} (h : ∀ q ∈ o, srv.isDst q = true) (a : Account) :
    (tally cls o.toList srv a : Int) = if o.bind cls = some a then 1 else 0 := by
  cases o with
  | none => simp
  | some q => simp [tally_singleton, h q rfl]

/-- The counters of `servers` are the numbers of the entries `l`, account by account. -/
def Booked (cls : PeerInfo → Option Account) (servers : List ServerInfo) (l : List PeerInfo) :
    Prop :=
  ∀ srv ∈ servers, ∀ a, srv.book a = (tally cls l srv a : Int)

theorem exists_dst (hnodup : (servers.map ServerInfo.address).Nodup)
    (hpointed : (q.dstIp, q.dstPort) ∈ servers.map ServerInfo.address) :
    ∃ (i : Nat) (dst : ServerInfo), servers[i]? = some dst ∧ dst.isDst q = true ∧
      servers.findIdx? (·.isDst q) = some i := by
  obtain ⟨dst, hmem, haddr⟩ := List.mem_map.mp hpointed
  obtain ⟨i, hdst⟩ := List.mem_iff_getElem?.mp hmem
  have hisDst : dst.isDst q = true := (ServerInfo.isDst_iff dst q).mpr haddr
  refine ⟨i, dst, hdst, hisDst, findIdx?_eq_of_key hnodup hdst hisDst fun x _ hx => ?_⟩
  exact ((ServerInfo.isDst_iff x q).mp hx).trans haddr.symm

namespace Booked

theorem exchange (h : Booked cls servers l) (gone new rest : List PeerInfo)
    (hl : l.Perm (gone ++ rest)) (hl' : l'.Perm (new ++ rest))
    (hservers : ∀ (k : Nat) (srv' : ServerInfo), servers'[k]? = some srv' → ∃ srv,
      servers[k]? = some srv ∧ srv'.address = srv.address ∧
        ∀ a, srv'.book a = srv.book a - tally cls gone srv a + tally cls new srv a) :
    Booked cls servers' l' := by
  intro srv' hmem a
  obtain ⟨k, hk⟩ := List.mem_iff_getElem?.mp hmem
  obtain ⟨srv, hsrv, haddr, hbook⟩ := hservers k srv' hk
  have hbefore := h srv (List.mem_of_getElem? hsrv) a
  rw [tally_perm hl, tally_append] at hbefore
  rw [hbook, tally_perm hl', tally_congr haddr, tally_append, hbefore]
  omega

/-- One entry is exchanged for another one of the same server, on the account of that server;
there may be none before, or none behind. -/
theorem exchange_entry (h : Booked cls servers l)
    (hnodup : (servers.map ServerInfo.address).Nodup) {i : Nat} {dst : ServerInfo}
    (hdst : servers[i]? = some dst) (old new : Option PeerInfo) {rest : List PeerInfo}
    (hold : ∀ q ∈ old, dst.isDst q = true) (hnew : ∀ q ∈ new, dst.isDst q = true)
    (hl : l.Perm (old.toList ++ rest)) (hl' : l'.Perm (new.toList ++ rest))
    {f : ServerInfo → ServerInfo} (hf : (f dst).address = dst.address)
    (hbook : ∀ a, (f dst).book a = dst.book a - (if old.bind cls = some a then 1 else 0) +
      if new.bind cls = some a then 1 else 0) : Booked cls (servers.modify i f) l' := by
  apply h.exchange old.toList new.toList rest hl hl'
  intro k srv' hsrv'
  rw [List.getElem?_modify] at hsrv'
  obtain ⟨srv, hsrv, rfl⟩ := Option.map_eq_some_iff.mp hsrv'
  by_cases hk : i = k
  · subst hk
    obtain rfl := Option.some.inj (hdst.symm.trans hsrv)
    refine ⟨dst, hdst, by rwa [if_pos rfl], fun a => ?_⟩
    rw [if_pos rfl, hbook, tally_toList hold, tally_toList hnew]
  · have hother : ∀ o : Option PeerInfo, (∀ q ∈ o, dst.isDst q = true) → ∀ a,
        tally cls o.toList srv a = 0 := by
      intro o ho
      apply tally_eq_zero
      intro q hq
      by_contra htrue
      exact hk (index_eq_of_isDst hnodup hdst hsrv (ho q (Option.mem_toList.mp hq))
        (by simpa using htrue))
    refine ⟨srv, hsrv, by rw [if_neg hk], fun a => ?_⟩
    rw [if_neg hk, hother old hold, hother new hnew]
    simp

theorem one_le_book (h : Booked cls servers l) (hsrv : srv ∈ servers) (hq : q ∈ l)
    (hdst : srv.isDst q = true) (ha : cls q = some a) : 1 ≤ srv.book a := by
  have hpos : 0 < tally cls l srv a :=
    List.countP_pos_iff.mpr ⟨q, hq, by rw [hdst, ha]; simp⟩
  rw [h srv hsrv a]
  omega

end Booked

namespace Balanced

theorem of_eq (h : s.Balanced cls) (hservers : t.serversList = s.serversList)
    (hpeers : t.peerList = s.peerList) : t.Balanced cls := by
  rw [Balanced, hservers, hpeers]
  exact h

theorem booked (h : s.Balanced cls) : Booked cls s.serversList s.peerList := h

end Balanced

/-! ## Messages -/

/-- The steps in the life of a connection. -/
def LegalTransition (status : UInt8) (id : UInt32) : Prop :=
  status.toUInt32 = statusConnectingServer ∧
      (id = statusConnectionEstablished ∨ id = statusConnectionFailed) ∨
    status.toUInt32 = statusConnectionEstablished ∧
      (id = statusServerConnectionLost ∨ id = statusClientConnectionLost ∨
        id = statusServerDisconnectedOk ∨ id = statusClientDisconnectedOk)

theorem LegalTransition.accounts (h : LegalTransition q.status id) (now : Datetime) :
    (ConnectionPeer.report id = some .established ∧ q.account = some .connecting ∧
        (q.setStatus id.toUInt8 now).account = some .connected) ∨
      (ConnectionPeer.report id = some .failed ∧ q.account = some .connecting ∧
        (q.setStatus id.toUInt8 now).account = some .disconnected ∧
        id &&& statusPeerDisconnected ≠ 0) ∨
      (ConnectionPeer.report id = some .ended ∧ q.account = some .connected ∧
        (q.setStatus id.toUInt8 now).account =
          some (if id &&& statusPeerDisconnected ≠ 0 then .disconnected else .finished)) := by
  rcases h with ⟨hstatus, rfl | rfl⟩ | ⟨hstatus, hid⟩
  · exact .inl ⟨rfl, if_pos hstatus, rfl⟩
  · exact .inr (.inl ⟨rfl, if_pos hstatus, rfl, by decide⟩)
  · refine .inr (.inr ?_)
    rw [PeerInfo.account, statusAccount, hstatus]
    rcases hid with rfl | rfl | rfl | rfl <;> exact ⟨rfl, rfl, rfl⟩

theorem LegalTransition.report (h : LegalTransition q.status id) :
    ∃ r, ConnectionPeer.report id = some r := by
  rcases h.accounts 0 with ⟨hr, -⟩ | ⟨hr, -⟩ | ⟨hr, -⟩
  · exact ⟨_, hr⟩
  · exact ⟨_, hr⟩
  · exact ⟨_, hr⟩

/-- What a message leaves of its entry. -/
def keptEntry (q : PeerInfo) (id : UInt32) (removed : Bool) (now : Datetime) : Option PeerInfo :=
  if ConnectionPeer.report id ≠ some .established ∧ removed = true then none
  else some (q.setStatus id.toUInt8 now)

/-- A legal step moves its entry from its account to the next one, if it is kept. -/
theorem book_reportedServer (h : LegalTransition q.status id) (removed : Bool) (now : Datetime)
    (hbook : ∀ a, q.account = some a → 1 ≤ srv.book a) (a : Account) :
    (reportedServer srv id removed now).book a =
      srv.book a - (if q.account = some a then 1 else 0) +
        if (keptEntry q id removed now).bind PeerInfo.account = some a then 1 else 0 := by
  obtain ⟨r, hr⟩ := h.report
  have hid := ConnectionPeer.posted_of_report hr
  have hconnecting : (endedServer srv id removed now).connecting = _ := connecting_endedServer hid
  have hconnected : (endedServer srv id removed now).connected = _ := connected_endedServer hid
  have hfinished := finished_endedServer srv id removed now
  have hdisconnected := disconnected_endedServer srv id removed now
  rcases h.accounts now with ⟨hr, hold, hnew⟩ | ⟨hr, hold, hnew, hbit⟩ | ⟨hr, hold, hnew⟩
  · have hone : 1 ≤ srv.connecting := hbook _ hold
    have hkept : keptEntry q id removed now = some (q.setStatus id.toUInt8 now) :=
      if_neg fun hc => hc.1 hr
    rw [reportedServer, if_pos hr, hold, hkept, Option.bind_some, hnew]
    cases a <;> simp [ServerInfo.book, establishedServer]
    omega
  · have hone : 1 ≤ srv.connecting := hbook _ hold
    rw [hr] at hconnecting hconnected
    rw [reportedServer, if_neg (by simp [hr]), hold, keptEntry, hr]
    cases removed <;> cases a <;> simp [ServerInfo.book, hconnecting, hconnected, hfinished,
      hdisconnected, hbit, hnew] <;> omega
  · have hone : 1 ≤ srv.connected := hbook _ hold
    rw [hr] at hconnecting hconnected
    rw [reportedServer, if_neg (by simp [hr]), hold, keptEntry, hr]
    by_cases hbit : id &&& statusPeerDisconnected = 0 <;> cases removed <;> cases a <;>
      simp [ServerInfo.book, hconnecting, hconnected, hfinished, hdisconnected, hbit, hnew] <;>
      omega

/-- A legal step of a listed entry exchanges it for itself with the new status, or for nothing. -/
theorem Balanced.report {index : Nat} (h : s.Balanced PeerInfo.account)
    (hnodup : (s.serversList.map ServerInfo.address).Nodup) (hpointed : s.Pointed)
    (hq : s.peerList[index]? = some pinfo) (hlegal : LegalTransition pinfo.status id)
    (now : Datetime) :
    ((s.recordMessage index pinfo id now).countMessage index pinfo id now).Balanced
      PeerInfo.account := by
  obtain ⟨r, hr⟩ := hlegal.report
  have hmem := List.mem_of_getElem? hq
  obtain ⟨i, dst, hdst, hisDst⟩ := exists_isDst hpointed hmem
  have hserver : (s.recordMessage index pinfo id now).dstServer pinfo = some i := by
    rw [(sameConfig_recordMessage s index pinfo id now).dstServer]
    exact dstServer_of_isDst hnodup hdst hisDst
  obtain ⟨hservers, hpeers⟩ := countMessage_of_report hr (s.recordMessage index pinfo id now)
    index pinfo now
  rw [hserver, Option.elim_some, serversList_recordMessage] at hservers
  rw [hserver, peerList_recordMessage_of_report hr] at hpeers
  generalize (s.recordMessage index pinfo id now).removes index pinfo = removed at hservers hpeers
  rw [Balanced, hservers]
  refine h.booked.exchange_entry hnodup hdst (some pinfo) (keptEntry pinfo id removed now)
    (fun q hpinfo => Option.some.inj hpinfo ▸ hisDst) ?_ (perm_cons_eraseIdx hq) ?_
    (address_reportedServer dst id removed now) ?_
  · intro q hkept
    unfold keptEntry at hkept
    split at hkept
    · cases hkept
    · rw [← Option.some.inj hkept]
      exact hisDst
  · rw [hpeers, keptEntry, hr]
    by_cases hgone : r ≠ .established ∧ removed = true
    · rw [if_pos ⟨hgone.1, rfl, hgone.2⟩, if_pos (by simpa using hgone),
        List.eraseIdx_modify_of_eq]
      exact List.Perm.refl _
    · rw [if_neg fun hc => hgone ⟨hc.1, hc.2.2⟩, if_neg (by simpa using hgone)]
      exact modify_perm_cons_eraseIdx hq _
  · exact book_reportedServer hlegal removed now fun a ha =>
      h.booked.one_le_book (List.mem_of_getElem? hdst) hmem hisDst ha

/-- The messages that keep the books balanced. -/
theorem messages_balanced (hnodup : (s.serversList.map ServerInfo.address).Nodup)
    (hpointed : s.Pointed) (hbooks : s.Balanced PeerInfo.account) {msg : Message}
    (hmsg : msg.id = statusPeerConnectionCancelled ∨ msg.id = statusPeerConnectionKicked ∨
      ∀ q ∈ s.peerList, q.addr = msg.param → LegalTransition q.status msg.id) (now : Datetime) :
    (s.processMessage msg now).Balanced PeerInfo.account := by
  rcases processMessage_cases s msg now with ⟨-, hsame⟩ | ⟨index, pinfo, hq, haddr, hprocessed⟩
  · rwa [hsame]
  · rw [hprocessed]
    rcases hmsg with hid | hid | hlegal
    · rw [countMessage_of_none (by rw [hid]; decide) (by rw [hid]; rfl)]
      apply hbooks.of_eq (serversList_recordMessage s index pinfo msg.id now)
      rw [peerList_recordMessage, if_pos (.inl hid)]
    · rw [countMessage_of_none (by rw [hid]; decide) (by rw [hid]; rfl)]
      apply hbooks.of_eq (serversList_recordMessage s index pinfo msg.id now)
      rw [peerList_recordMessage, if_pos (.inr hid)]
    · exact hbooks.report hnodup hpointed hq (hlegal pinfo (List.mem_of_getElem? hq) haddr) now

/-- A connection to the second server is established, and the first one is lost while the other
one is up. -/
def Sample.twoConnections : ServerList :=
  { Sample.twoServers with
    serversList := [⟨Sample.server1, 80, 0, 0, 1, 0, 1, 0, false, 0⟩,
      ⟨Sample.server2, 80, 0, 0, 0, 1, 1, 1, false, 0⟩]
    peerList := [⟨100, Sample.client, 5000, Sample.server1, 80,
        statusConnectionEstablished.toUInt8, none, some 1, 3, 5⟩,
      ⟨101, Sample.client, 5001, Sample.server2, 80,
        statusConnectingServer.toUInt8, none, some 1, 4, 7⟩] }

theorem messages_balanced_removed :
    (Sample.twoConnections.processMessage ⟨statusServerConnectionLost, 100⟩ 20).peerList.length =
        1 ∧
      (Sample.twoConnections.processMessage ⟨statusServerConnectionLost, 100⟩ 20).Balanced
        PeerInfo.account :=
  ⟨by decide +kernel, messages_balanced (by decide) (by decide) (by decide) (.inr (.inr (by
    intro q hq haddr
    rcases List.mem_cons.mp hq with rfl | hq
    · exact .inr ⟨rfl, .inl rfl⟩
    · rw [List.mem_singleton.mp hq] at haddr
      exact absurd haddr (by decide)))) 20⟩

end ServerList

end Relb
