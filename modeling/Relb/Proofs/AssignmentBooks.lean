import Relb.Proofs.Accounts
import Relb.Proofs.Books
import Relb.Proofs.Selection
import Relb.Proofs.Sessions
/-!
# The books after an assignment

A new entry is put on the account of one server. A session that is re-created also takes the
ended entries of the client off the account of that server, which was found by the address of
the session alone: the books stay right exactly if all of them belong there.
-/

namespace Relb

open Lib

/-- The account that an ended entry is taken off. -/
def PeerInfo.endAccount (q : PeerInfo) : Account :=
  if q.disconnected then .disconnected else .finished

/-- The account of an entry, by the tests with which the program tells ended entries apart. -/
def PeerInfo.standing (q : PeerInfo) : Option Account :=
  if q.notConnected then some q.endAccount else q.account

theorem PeerInfo.standing_eq_account {q : PeerInfo}
    (h : q.status ∈ (statusConnectingServer :: postedIds).map UInt32.toUInt8) :
    q.standing = q.account := by
  have hall : ∀ status ∈ (statusConnectingServer :: postedIds).map UInt32.toUInt8,
      (if statusHas status statusPeerNotConnected then
        some (if statusHas status statusPeerDisconnected then Account.disconnected else .finished)
        else statusAccount status) = statusAccount status :=
    List.all_iff_forall_prop.mp (by decide)
  exact hall q.status h

namespace ServerList

variable {s : ServerList} {clientIp : IpAddress} {clientPort : UInt16} {pcm : Option ManagerId}
  {now : Datetime} {addr parallelAddr : Ptr} {p q : PeerInfo} {srv : ServerInfo} {a : Account}

/-! ## Forgetting -/

theorem book_forget (srv : ServerInfo) (q : PeerInfo) (a : Account) :
    (srv.forget q).book a =
      if q.endAccount = a then max (srv.book a - 1) 0 else srv.book a := by
  unfold ServerInfo.forget PeerInfo.endAccount
  cases q.disconnected <;> cases a <;> rfl

theorem book_foldl_forget (gone : List PeerInfo) (srv : ServerInfo) (a : Account)
    (h : 0 ≤ srv.book a) : (gone.foldl ServerInfo.forget srv).book a =
      max (srv.book a - (gone.countP fun q => q.endAccount == a : Nat)) 0 := by
  induction gone generalizing srv with
  | nil => simp [h]
  | cons q gone ih =>
      have hforget := book_forget srv q a
      rw [List.foldl_cons, List.countP_cons, ih, hforget]
      · by_cases hq : q.endAccount = a
        · simp only [hq, if_true, beq_self_eq_true]
          omega
        · simp [hq]
      · rw [hforget]
        split <;> omega

/-! ## Kept books -/

def removedEntries (s : ServerList) (r : ServerList × Option PeerInfo) : List PeerInfo :=
  s.peerList.filter fun q => q ∉ r.1.peerList

/-- What the books of a server should be after a new entry `p` and the removal of `removed`. -/
structure BooksKept (srv srv' : ServerInfo) (p : PeerInfo) (removed : List PeerInfo) : Prop where
  connecting : srv'.connecting = srv.connecting + if srv.isDst p then 1 else 0
  connected : srv'.connected = srv.connected
  finished : srv'.finished = srv.finished - tally PeerInfo.standing removed srv .finished
  disconnected :
    srv'.disconnected = srv.disconnected - tally PeerInfo.standing removed srv .disconnected

/-- If the latest session of the client is re-created, it is found at the server it points to,
and the ended entries of the client all point to that server. -/
def SessionOnItsServer (s : ServerList) (clientIp : IpAddress) (now : Datetime) : Prop :=
  s.reconnectLostSessions = true → ∀ q, s.Latest clientIp now s.peerList q →
    (∃ (i : Nat) (srv : ServerInfo), s.sessionServer q now = some i ∧
      s.serversList[i]? = some srv ∧ srv.isDst q = true) ∧
    ∀ x ∈ s.peerList, isLostOf clientIp x = true →
      (x.dstIp, x.dstPort) = (q.dstIp, q.dstPort)

/-! ## New entries -/

variable {l : List PeerInfo}

theorem tally_of_forall {n : Nat} (h : ∀ q ∈ l, srv.isDst q = true ∧ q.notConnected = true)
    (hn : l.countP (fun q => q.endAccount == a) = n) : tally PeerInfo.standing l srv a = n := by
  rw [← hn]
  apply List.countP_congr
  intro q hq
  obtain ⟨hdst, hended⟩ := h q hq
  simp [hdst, PeerInfo.standing, hended]

theorem booksKept_afterAssignment (hnodup : (s.serversList.map ServerInfo.address).Nodup)
    {last k : Nat} {dst srv' : ServerInfo} (hdst : s.serversList[last]? = some dst)
    (hp : (p.dstIp, p.dstPort) = dst.address)
    (hsrv : s.serversList[k]? = some srv)
    (hsrv' : (s.serversList.modify last ServerInfo.startConnecting)[k]? = some srv') :
    BooksKept srv srv' p [] := by
  rw [eq_of_getElem?_modify hsrv hsrv']
  have hisDst : dst.isDst p = true := (ServerInfo.isDst_iff dst p).mpr hp.symm
  by_cases hk : last = k
  · subst hk
    obtain rfl := Option.some.inj (hdst.symm.trans hsrv)
    rw [if_pos rfl]
    exact ⟨by rw [if_pos hisDst]; rfl, rfl, by simp [ServerInfo.startConnecting],
      by simp [ServerInfo.startConnecting]⟩
  · have hother : ¬srv.isDst p = true := fun h =>
      hk (index_eq_of_isDst hnodup hdst hsrv hisDst h)
    rw [if_neg hk]
    exact ⟨by rw [if_neg hother, Int.add_zero], rfl, by simp, by simp⟩

theorem book_recreatedServer (gone : List PeerInfo) (srv : ServerInfo) {a : Account}
    (ha : a ≠ .connecting) (h : 0 ≤ srv.book a) : (recreatedServer gone srv).book a =
      max (srv.book a - (gone.countP fun q => q.endAccount == a : Nat)) 0 := by
  have hstart : srv.startConnecting.book a = srv.book a := by
    rw [srv.book_startConnecting, if_neg ha, Int.add_zero]
  rw [← hstart] at h ⊢
  exact book_foldl_forget gone _ a h

theorem booksKept_recreatedServer (hbooks : s.Balanced PeerInfo.standing) {gone : List PeerInfo}
    (hgone : gone.Sublist s.peerList) (hended : ∀ x ∈ gone, x.notConnected = true)
    (hsrv : srv ∈ s.serversList) (hp : srv.isDst p = true) (hall : ∀ x ∈ gone, srv.isDst x = true) :
    BooksKept srv (recreatedServer gone srv) p gone := by
  have hcounters : (recreatedServer gone srv).counter = srv.startConnecting.counter :=
    counter_recreatedServer gone
  have htaken : ∀ a, a ≠ .connecting → (recreatedServer gone srv).book a =
      srv.book a - tally PeerInfo.standing gone srv a := by
    intro a ha
    have htally := tally_of_forall (a := a) (fun x hx => ⟨hall x hx, hended x hx⟩) rfl
    have hle : tally PeerInfo.standing gone srv a ≤ tally PeerInfo.standing s.peerList srv a :=
      hgone.countP_le
    have hbook := hbooks srv hsrv a
    rw [book_recreatedServer gone srv ha (by omega), htally]
    omega
  refine ⟨?_, congrFun hcounters Phase.established, htaken .finished Account.noConfusion,
    htaken .disconnected Account.noConfusion⟩
  rw [if_pos hp]
  exact congrFun hcounters Phase.connecting

/-- A session that is re-created keeps the books exactly if it is found at the server it points
to and all the entries that are dropped point there. -/
theorem booksKept_afterRecreation (hnodup : (s.serversList.map ServerInfo.address).Nodup)
    (hpointed : s.Pointed) (hbooks : s.Balanced PeerInfo.standing) {server : Nat}
    {dst : ServerInfo} (hdst : s.serversList[server]? = some dst) {gone : List PeerInfo}
    (hgone : gone.Sublist s.peerList) (hended : ∀ x ∈ gone, x.notConnected = true) :
    (∀ (k : Nat) (srv srv' : ServerInfo), s.serversList[k]? = some srv →
        (s.serversList.modify server (recreatedServer gone))[k]? = some srv' →
        BooksKept srv srv' p gone) ↔
      dst.isDst p = true ∧ ∀ x ∈ gone, dst.isDst x = true := by
  constructor
  · intro h
    have hkept := h server dst (recreatedServer gone dst) hdst (by simp [hdst])
    have hstart : (recreatedServer gone dst).connecting = dst.connecting + 1 :=
      congrFun (counter_recreatedServer gone) Phase.connecting
    refine ⟨?_, fun x hx => ?_⟩
    · by_contra hp
      have hconnecting := hkept.connecting
      rw [hstart, if_neg hp] at hconnecting
      omega
    · obtain ⟨k, srv, hsrv, hisDst⟩ := exists_isDst hpointed (hgone.subset hx)
      by_cases hk : server = k
      · subst hk
        rwa [Option.some.inj (hdst.symm.trans hsrv)]
      · -- the entry would not be taken off its own server
        have hkept := h k srv srv hsrv (by rw [List.getElem?_modify_ne _ _ hk, hsrv])
        have hpos : 0 < tally PeerInfo.standing gone srv x.endAccount :=
          List.countP_pos_iff.mpr ⟨x, hx, by simp [hisDst, PeerInfo.standing, hended x hx]⟩
        have hfinished := hkept.finished
        have hdisconnected := hkept.disconnected
        unfold PeerInfo.endAccount at hpos
        split at hpos <;> omega
  · rintro ⟨hp, hall⟩ k srv srv' hsrv hsrv'
    rw [eq_of_getElem?_modify hsrv hsrv']
    by_cases hk : server = k
    · subst hk
      obtain rfl := Option.some.inj (hdst.symm.trans hsrv)
      rw [if_pos rfl]
      exact booksKept_recreatedServer hbooks hgone hended (List.mem_of_getElem? hdst) hp hall
    · have hother : ∀ x, dst.isDst x = true → srv.isDst x = false := by
        intro x hx
        by_contra htrue
        exact hk (index_eq_of_isDst hnodup hdst hsrv hx (by simpa using htrue))
      have htally : ∀ a, tally PeerInfo.standing gone srv a = 0 :=
        tally_eq_zero fun x hx => hother x (hall x hx)
      rw [if_neg hk]
      exact ⟨by simp [hother p hp], rfl, by simp [htally], by simp [htally]⟩

theorem removedEntries_afterRecreation (s : ServerList) (server : Nat) (clientIp : IpAddress)
    (hp : p.notConnected = false) (parallelAddr : Ptr) (o : Option PeerInfo) :
    s.removedEntries (s.afterRecreation server clientIp p parallelAddr, o) =
      s.peerList.filter (isLostOf clientIp) := by
  apply List.filter_congr
  intro q hq
  rw [peerList_afterRecreation, Bool.eq_iff_iff, decide_eq_true_eq, List.mem_append,
    List.mem_filter, List.mem_singleton]
  constructor
  · intro hnot
    by_contra hkept
    exact hnot (.inl ⟨hq, by simpa using hkept⟩)
  · rintro hlost (⟨-, hkept⟩ | rfl)
    · rw [hlost] at hkept
      cases hkept
    · rw [isLostOf, notConnected_withParallel, hp, Bool.and_false] at hlost
      cases hlost

theorem removedEntries_afterAssignment (s : ServerList) (server : Nat) (q : PeerInfo)
    (parallelAddr : Ptr) (o : Option PeerInfo) :
    s.removedEntries (s.afterAssignment server q parallelAddr, o) = [] := by
  apply List.filter_eq_nil_iff.mpr
  intro x hx
  rw [peerList_afterAssignment]
  simp [hx]

theorem sessionOnItsServer_iff (hrec : s.reconnectLostSessions = true)
    (hlatest : s.Latest clientIp now s.peerList q) {server : Nat} {dst : ServerInfo}
    (hserver : s.sessionServer q now = some server) (hdst : s.serversList[server]? = some dst) :
    s.SessionOnItsServer clientIp now ↔
      dst.isDst q = true ∧ ∀ x ∈ s.peerList.filter (isLostOf clientIp), dst.isDst x = true := by
  have hisDst : ∀ x : PeerInfo, dst.isDst x = true ↔ dst.address = (x.dstIp, x.dstPort) :=
    ServerInfo.isDst_iff dst
  constructor
  · intro hsession
    obtain ⟨⟨i, srv, hi, hsrv, hq⟩, hall⟩ := hsession hrec q hlatest
    obtain rfl := Option.some.inj (hserver.symm.trans hi)
    obtain rfl := Option.some.inj (hdst.symm.trans hsrv)
    refine ⟨hq, fun x hx => ?_⟩
    obtain ⟨hmem, hlost⟩ := List.mem_filter.mp hx
    exact (hisDst x).mpr (((hisDst q).mp hq).trans (hall x hmem hlost).symm)
  · rintro ⟨hq, hall⟩ - q' hlatest'
    obtain rfl := hlatest.unique hlatest'
    refine ⟨⟨server, dst, hserver, hdst, hq⟩, fun x hx hlost => ?_⟩
    have hx' := (hisDst x).mp (hall x (List.mem_filter.mpr ⟨hx, hlost⟩))
    exact hx'.symm.trans ((hisDst q).mp hq)

/-- A call that creates a new entry keeps the books exactly if no session is re-created, or the
latest one is found at its own server and all the ended entries of the client belong there. -/
theorem assignment_keeps_books (hnodup : (s.serversList.map ServerInfo.address).Nodup)
    (hpointed : s.Pointed) (hbooks : s.Balanced PeerInfo.standing)
    (hfresh : ∀ q ∈ s.peerList, q.addr ≠ addr)
    (hnew : (s.getServer clientIp clientPort pcm now addr parallelAddr).2 = some p)
    (haddr : p.addr = addr) :
    (∀ (k : Nat) (srv srv' : ServerInfo), s.serversList[k]? = some srv →
        (s.getServer clientIp clientPort pcm now addr parallelAddr).1.serversList[k]? = some srv' →
        BooksKept srv srv' p
          (s.removedEntries (s.getServer clientIp clientPort pcm now addr parallelAddr))) ↔
      s.SessionOnItsServer clientIp now := by
  rcases getServer_sessions s clientIp clientPort pcm now addr parallelAddr with
    ⟨hrec, -, peer, server, q, hvalid, hlatest, hcall⟩ |
    ⟨l₁, q, l₂, server, hlist, -, hvalid, -, hcall⟩ | ⟨hnone, hcall⟩
  · rw [hcall] at hnew ⊢
    obtain ⟨-, dst, hdst, -⟩ := sessionServer_spec hvalid.server
    have hp : (p.dstIp, p.dstPort) = (q.dstIp, q.dstPort) := by
      rw [← Option.some.inj hnew]
      exact congrArg Prod.snd (route_withParallel s (newPeer clientIp clientPort q.dstIp q.dstPort
        pcm now addr) parallelAddr)
    have hdstp : dst.isDst p = dst.isDst q := by
      rw [Bool.eq_iff_iff, ServerInfo.isDst_iff, ServerInfo.isDst_iff, hp]
    have hended : ∀ x ∈ s.peerList.filter (isLostOf clientIp), x.notConnected = true :=
      fun x hx => (Bool.and_eq_true_iff.mp (List.mem_filter.mp hx).2).2
    rw [removedEntries_afterRecreation s server clientIp (notConnected_newPeer ..),
      sessionOnItsServer_iff hrec hlatest hvalid.server hdst, ← hdstp]
    dsimp only
    rw [serversList_afterRecreation]
    exact booksKept_afterRecreation hnodup hpointed hbooks hdst List.filter_sublist hended
  · rw [hcall] at hnew
    obtain rfl := Option.some.inj hnew
    exact absurd haddr (hfresh q (List.mem_of_getElem? hvalid.found))
  · have hservers : s.serversList ≠ [] := by
      intro hempty
      rw [hcall, hempty] at hnew
      cases hnew
    rw [hcall, if_neg (by simpa using hservers)] at hnew ⊢
    rcases assignServer_of_selection hservers clientIp clientPort pcm now addr parallelAddr with
      ⟨-, last, hrefused⟩ | ⟨b, dst, -, hdst, hassigned⟩
    · rw [hrefused] at hnew
      cases hnew
    · rw [hassigned] at hnew ⊢
      refine iff_of_true (fun k srv srv' hsrv hsrv' => ?_) fun hrec q hq => ?_
      · rw [removedEntries_afterAssignment]
        rw [serversList_afterAssignment] at hsrv'
        refine booksKept_afterAssignment hnodup hdst ?_ hsrv hsrv'
        rw [← Option.some.inj hnew]
        exact congrArg Prod.snd (route_withParallel s (newPeer clientIp clientPort dst.ip dst.port
          pcm now addr) parallelAddr)
      · exact absurd hq.eligible (hnone hrec q hq.mem)

namespace Sample

/-- Two servers at one address; the client has ended a connection to the first one. -/
def sharedAddress : ServerList :=
  { twoServers with
    serversList := [⟨server1, 80, 0, 1, 0, 0, 1, 0, false, 0⟩,
      ⟨server1, 81, 0, 0, 0, 0, 1, 0, false, 0⟩]
    peerList := [⟨100, client, 5000, server1, 80, statusServerDisconnectedOk.toUInt8, none,
      some 1, 3, 5⟩] }

def lastAddress : ServerList :=
  { twoServers with
    serversList := [⟨server1, 80, 0, 0, 0, 0, 1, 0, false, 0⟩,
      ⟨server1, 81, 0, 1, 0, 0, 1, 0, false, 0⟩]
    peerList := [⟨100, client, 5000, server1, 81, statusServerDisconnectedOk.toUInt8, none,
      some 1, 3, 5⟩] }

end Sample

theorem assignment_keeps_books_shown :
    Sample.lastAddress.SessionOnItsServer Sample.client 10 ∧
      ∀ (k : Nat) (srv srv' : ServerInfo), Sample.lastAddress.serversList[k]? = some srv →
        (Sample.lastAddress.getServer Sample.client 6000 (some 2) 10 101 200).1.serversList[k]? =
          some srv' →
        BooksKept srv srv' ⟨101, Sample.client, 6000, Sample.server1, 81,
            statusConnectingServer.toUInt8, none, some 2, 10, 10⟩
          (Sample.lastAddress.removedEntries
            (Sample.lastAddress.getServer Sample.client 6000 (some 2) 10 101 200)) := by
  have hsession : Sample.lastAddress.SessionOnItsServer Sample.client 10 := by
    intro _ q hq
    rw [List.mem_singleton.mp hq.mem]
    refine ⟨⟨1, _, by decide, rfl, by decide⟩, fun x hx _ => ?_⟩
    rw [List.mem_singleton.mp hx]
  refine ⟨hsession, (assignment_keeps_books ?_ ?_ ?_ ?_ ?_ ?_).mpr hsession⟩
  · decide
  · decide
  · decide
  · decide
  · decide +kernel
  · rfl

/-- The session is put on the account of the wrong server. -/
theorem assignment_breaks_books :
    (Sample.sharedAddress.serversList.map ServerInfo.address).Nodup ∧
      Sample.sharedAddress.Pointed ∧ Sample.sharedAddress.Balanced PeerInfo.standing ∧
      (∀ q ∈ Sample.sharedAddress.peerList, q.addr ≠ 101) ∧
      ∃ p, (Sample.sharedAddress.getServer Sample.client 6000 (some 2) 10 101 200).2 = some p ∧
        p.addr = 101 ∧
        ¬∀ (k : Nat) (srv srv' : ServerInfo), Sample.sharedAddress.serversList[k]? = some srv →
          (Sample.sharedAddress.getServer Sample.client 6000 (some 2) 10 101
            200).1.serversList[k]? = some srv' →
          BooksKept srv srv' p (Sample.sharedAddress.removedEntries
            (Sample.sharedAddress.getServer Sample.client 6000 (some 2) 10 101 200)) := by
  refine ⟨by decide, by decide, by decide, by decide, ⟨101, Sample.client, 6000, Sample.server1,
    80, statusConnectingServer.toUInt8, none, some 2, 10, 10⟩, by decide +kernel, rfl, ?_⟩
  intro h
  have hfirst := h 0 ⟨Sample.server1, 80, 0, 1, 0, 0, 1, 0, false, 0⟩
    ⟨Sample.server1, 80, 0, 1, 0, 0, 1, 0, false, 0⟩ rfl (by decide +kernel)
  have hconnecting := hfirst.connecting
  revert hconnecting
  decide

end ServerList

end Relb
