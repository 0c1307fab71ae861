import Relb.Proofs.AdminBasics
import Relb.Proofs.Orderly
/-!
# The web admin as a mirror of `ServerList`

`Mirrors` says that the two sides show the same servers and the same connections. A report
that both have processed keeps it, if `ServerList` drops the entry only where the admin does;
so does an announced connection, if the ended entries that `ServerList` drops are those of its
client. `Orderly` is what that needs of the session directory: a client with an ended entry
has no other one, and every ended entry is counted.
-/

namespace Relb

open Lib

open ConnectionPeer (Report report)

/-! ## What the two sides show -/

/-- Another connection of the client than the one in place `index` has not ended. -/
def otherActive (view : List (Option Ptr × Option PeerInfo)) (index : Nat) (ip : IpAddress) :
    Bool :=
  view.zipIdx.any fun x =>
    x.2 ≠ index && x.1.2.any fun q => !q.notConnected && q.srcIp == ip

/-- The connections of `ServerList`, each with its name at the admin. -/
def ServerList.view (s : ServerList) : List (Option Ptr × Option PeerInfo) :=
  s.peerList.map fun q => (q.parallel, some q.shown)

theorem ServerList.view_modifyPeer {s : ServerList} {index : Nat} {pinfo : PeerInfo}
    (hq : s.peerList[index]? = some pinfo) (g : PeerInfo → PeerInfo) :
    (s.modifyPeer index g).view =
      s.view.set index ((g pinfo).parallel, some (g pinfo).shown) :=
  map_modify_eq_set hq _ g

def AdminHTTPServer.view (a : AdminHTTPServer) (heap : Ptr → Option PeerInfo) :
    List (Option Ptr × Option PeerInfo) :=
  a.peerList.map fun p => (some p, (heap p).map PeerInfo.shown)

theorem ServerList.otherConnected_eq (s : ServerList) (index : Nat) (pinfo : PeerInfo) :
    s.otherConnected index pinfo = otherActive s.view index pinfo.srcIp := by
  rw [otherActive, ServerList.view, List.zipIdx_map, List.any_map]
  exact congrArg (List.any s.peerList.zipIdx) (funext fun x => Bool.and_assoc _ _ _)

theorem AdminHTTPServer.otherConnectionsActive_eq (a : AdminHTTPServer)
    (heap : Ptr → Option PeerInfo) (c : PeerInfo) :
    a.otherConnectionsActive heap c =
      otherActive (a.view heap) a.currentItemIndex c.srcIp := by
  rw [otherActive, AdminHTTPServer.view, List.zipIdx_map, List.any_map]
  refine congrArg (List.any a.peerList.zipIdx) (funext fun x => ?_)
  simp only [Function.comp_apply, Prod.map_snd, Prod.map_fst, id_eq, Option.any_map]
  rfl

/-- The two sides show the same. -/
structure Mirrors (s : ServerList) (heap : Ptr → Option PeerInfo) (a : AdminHTTPServer) :
    Prop where
  servers : a.serverList.map ServerInfo.shown = s.serversList.map ServerInfo.shown
  peers : a.view heap = s.view

namespace Mirrors

variable {s t : ServerList} {heap : Ptr → Option PeerInfo} {a : AdminHTTPServer} {index : Nat}
  {pinfo : PeerInfo} {id : UInt32} {r : Report}

theorem of_eq (h : Mirrors s heap a) (hservers : t.serversList = s.serversList)
    (hpeers : t.peerList = s.peerList) : Mirrors t heap a :=
  ⟨hservers ▸ h.servers, h.peers.trans (by rw [ServerList.view, ServerList.view, hpeers])⟩

theorem found (h : Mirrors s heap a) (hq : s.peerList[index]? = some pinfo) :
    ∃ p c, a.peerList[index]? = some p ∧ pinfo.parallel = some p ∧ heap p = some c ∧
      c.shown = pinfo.shown := by
  have hview : (a.view heap)[index]? = some (pinfo.parallel, some pinfo.shown) := by
    rw [h.peers, ServerList.view, List.getElem?_map, hq]
    rfl
  rw [AdminHTTPServer.view, List.getElem?_map, Option.map_eq_some_iff] at hview
  obtain ⟨p, hp, heq⟩ := hview
  obtain ⟨hparallel, hshown⟩ := Prod.mk.inj heq
  obtain ⟨c, hc, hcshown⟩ := Option.map_eq_some_iff.mp hshown
  exact ⟨p, c, hp, hparallel.symm, hc, hcshown⟩

theorem parallels_eq (h : Mirrors s heap a) :
    a.peerList.map some = s.peerList.map PeerInfo.parallel := by
  have hfst := congrArg (List.map Prod.fst) h.peers
  simpa [AdminHTTPServer.view, ServerList.view, Function.comp_def] using hfst

theorem dst_eq (h : Mirrors s heap a) {c : PeerInfo} (hc : c.shown = pinfo.shown) :
    a.serverList.findIdx? (·.isDst c) = s.dstServer pinfo := by
  rw [findIdx?_isDst_shown, h.servers, hc, ← findIdx?_isDst_shown]
  rfl

/-! ## A report -/

variable {p : Ptr} {c : PeerInfo}

theorem recorded (h : Mirrors s heap a) (hnodup : a.peerList.Nodup)
    (hq : s.peerList[index]? = some pinfo) (hp : a.peerList[index]? = some p)
    (hparallel : pinfo.parallel = some p) (hshown : c.shown = pinfo.shown) (status : UInt8)
    (now now' : Datetime) :
    a.view (Function.update heap p (some (c.setStatus status now'))) =
      (s.modifyPeer index (·.setStatus status now)).view := by
  have hkeys : (a.peerList.map id).Nodup := by rwa [List.map_id]
  have hview : a.view (Function.update heap p (some (c.setStatus status now'))) =
      (a.view heap).set index (some p, some (c.setStatus status now').shown) := by
    rw [AdminHTTPServer.view, map_eq_set hkeys hp fun y _ hne => by
      rw [Function.update_of_ne (show y ≠ p from hne)]]
    rw [Function.update_self]
    rfl
  rw [hview, h.peers, ServerList.view_modifyPeer hq,
    PeerInfo.shown_setStatus hshown status now' now, ← hparallel]
  rfl

/-- What a report does to both sides, if they agree whether the connection goes. -/
theorem counted (h : Mirrors s heap a) (hr : report id = some r)
    (hdst : a.serverList.findIdx? (·.isDst c) = s.dstServer pinfo)
    (hindex : a.currentItemIndex = index)
    (hremoves : r ≠ .established → a.removes heap c = s.removes index pinfo)
    (now now' : Datetime) :
    Mirrors (s.countMessage index pinfo id now) heap (a.countMessage heap c id now') := by
  obtain ⟨hservers, hpeers⟩ := ServerList.countMessage_of_report hr s index pinfo now
  obtain ⟨haservers, hapeers⟩ := AdminHTTPServer.countMessage_of_report hr a heap c now'
  rw [hdst] at haservers hapeers
  refine ⟨?_, ?_⟩
  · rw [haservers, hservers]
    cases s.dstServer pinfo with
    | none => exact h.servers
    | some i =>
        apply map_modify_congr h.servers i
        intro srv srv' _ _ hsrv
        refine ServerInfo.shown_reportedServer hsrv (fun hne => ?_) now' now
        exact hremoves fun hest => hne (hest ▸ hr)
  · rw [AdminHTTPServer.view, hapeers, ServerList.view, hpeers]
    by_cases hest : r = .established
    · rw [if_neg fun hc => hc.1 hest, if_neg fun hc => hc.1 hest]
      exact h.peers
    · rw [hremoves hest, hindex]
      split
      · rw [← List.eraseIdx_map, ← List.eraseIdx_map]
        exact congrArg (List.eraseIdx · index) h.peers
      · exact h.peers

/-- A report that both sides have processed. `ServerList` also drops the entries that were made
before the last purge, so such an entry must go anyway. -/
theorem report (h : Mirrors s heap a) (hnodup : (s.peerList.map PeerInfo.parallel).Nodup)
    (hq : s.peerList[index]? = some pinfo) (hr : ConnectionPeer.report id = some r)
    (hparallel : pinfo.parallel = some p)
    (hpurge : r ≠ .established → pinfo.created < s.lastConnectionsCleanup →
      s.otherConnected index pinfo = true) (now now' : Datetime) :
    Mirrors ((s.recordMessage index pinfo id now).countMessage index pinfo id now)
      (a.processMessage heap ⟨id, p⟩ now').2 (a.processMessage heap ⟨id, p⟩ now').1 := by
  obtain ⟨p', c, hp, hparallel', hc, hshown⟩ := h.found hq
  obtain rfl : p' = p := Option.some.inj (hparallel'.symm.trans hparallel)
  have hanodup : a.peerList.Nodup := by
    apply List.Nodup.of_map some
    rwa [h.parallels_eq]
  rw [AdminHTTPServer.processMessage_listed (AdminHTTPServer.ne_connecting_of_report hr) hp
    hanodup hc]
  have hrecorded := h.recorded hanodup hq hp hparallel hshown id.toUInt8 now now'
  have hpeers : (s.recordMessage index pinfo id now).peerList =
      (s.modifyPeer index (·.setStatus id.toUInt8 now)).peerList :=
    ServerList.peerList_recordMessage_of_report hr s index pinfo now
  have hview : (s.recordMessage index pinfo id now).view =
      (s.modifyPeer index (·.setStatus id.toUInt8 now)).view :=
    congrArg (List.map fun q : PeerInfo => (q.parallel, some q.shown)) hpeers
  have hpurged : (s.recordMessage index pinfo id now).lastConnectionsCleanup =
      s.lastConnectionsCleanup := by
    unfold ServerList.recordMessage
    split_ifs <;> simp
  have hcommon : Mirrors (s.recordMessage index pinfo id now)
      (Function.update heap p' (some (c.setStatus id.toUInt8 now')))
      { a with currentItemIndex := index } :=
    ⟨h.servers.trans (by rw [ServerList.serversList_recordMessage]), hrecorded.trans hview.symm⟩
  refine hcommon.counted hr ?_ rfl (fun hest => ?_) now now'
  · rw [(ServerList.sameConfig_recordMessage s index pinfo id now).dstServer]
    have hdst := h.dst_eq hshown
    exact hdst
  · have hlt : index < a.peerList.length := (List.getElem?_eq_some_iff.mp hp).1
    have hsrc : c.shown.srcIp = pinfo.shown.srcIp := congrArg PeerInfo.srcIp hshown
    change (c.setStatus id.toUInt8 now').srcIp = pinfo.srcIp at hsrc
    have hactive : AdminHTTPServer.otherConnectionsActive { a with currentItemIndex := index }
        (Function.update heap p' (some (c.setStatus id.toUInt8 now')))
        (c.setStatus id.toUInt8 now') = s.otherConnected index pinfo := by
      rw [AdminHTTPServer.otherConnectionsActive_eq, hcommon.peers, hsrc,
        ← ServerList.otherConnected_eq, ServerList.otherConnected_recordMessage]
    rw [AdminHTTPServer.removes, hactive, ServerList.removes,
      ServerList.otherConnected_recordMessage, hpurged, decide_eq_true hlt, Bool.and_true]
    by_cases hold : pinfo.created < s.lastConnectionsCleanup
    · rw [hpurge hest hold, Bool.true_or]
    · rw [decide_eq_false hold, Bool.or_false]

/-! ## A new connection -/

theorem lost_eq (h : Mirrors s heap a) (ip : IpAddress) :
    ((a.peerList.filterMap heap).filter (ServerList.isLostOf ip)).map PeerInfo.shown =
      (s.peerList.filter (ServerList.isLostOf ip)).map PeerInfo.shown := by
  have hfilter : ∀ l : List PeerInfo, (l.filter (ServerList.isLostOf ip)).map PeerInfo.shown =
      (l.map PeerInfo.shown).filter (ServerList.isLostOf ip) := by
    intro l
    rw [List.filter_map]
    rfl
  have hall : (a.peerList.filterMap heap).map PeerInfo.shown = s.peerList.map PeerInfo.shown := by
    have hsnd := congrArg (List.filterMap Prod.snd) h.peers
    rw [AdminHTTPServer.view, ServerList.view, List.filterMap_map, List.filterMap_map] at hsnd
    rw [List.map_filterMap, ← List.filterMap_eq_map]
    exact hsnd
  rw [hfilter, hfilter, hall]

theorem kept_eq (h : Mirrors s heap a) (ip : IpAddress) :
    (a.peerList.filter fun p => !(heap p).any (ServerList.isLostOf ip)).map
        (fun p => (some p, (heap p).map PeerInfo.shown)) =
      (s.peerList.filter fun x => !ServerList.isLostOf ip x).map
        fun q => (q.parallel, some q.shown) := by
  have hfilter := congrArg (List.filter fun x => !x.2.any (ServerList.isLostOf ip)) h.peers
  rw [AdminHTTPServer.view, ServerList.view, List.filter_map, List.filter_map] at hfilter
  have hadmin : ((fun x : Option Ptr × Option PeerInfo => !x.2.any (ServerList.isLostOf ip)) ∘
      fun p => (some p, (heap p).map PeerInfo.shown)) =
        fun p => !(heap p).any (ServerList.isLostOf ip) := by
    ext p
    simp only [Function.comp_apply, Option.any_map]
    rfl
  rw [hadmin] at hfilter
  exact hfilter

/-- The accounts after a new connection, with the ended one of its client going. -/
theorem shown_entered (h : Mirrors s heap a) (ho : s.Orderly) {gone gone' : List PeerInfo} {i : Nat}
    (hgone : gone'.map PeerInfo.shown = gone.map PeerInfo.shown) (hone : gone.length ≤ 1)
    (hlost : ∀ x ∈ gone, x ∈ s.peerList) (hdst : ∀ x ∈ gone, s.dstServer x = some i) :
    ((gone'.foldl cleanFirst a.serverList).modify i ServerInfo.startConnecting).map
        ServerInfo.shown =
      (s.serversList.modify i (ServerList.recreatedServer gone)).map ServerInfo.shown := by
  rcases gone with _ | ⟨x, _ | ⟨y, rest⟩⟩
  · rw [List.map_nil, List.map_eq_nil_iff] at hgone
    subst hgone
    exact map_modify_congr h.servers i fun srv srv' _ _ hsrv =>
      ServerInfo.shown_startConnecting hsrv
  · obtain ⟨x', rfl, hx⟩ := List.map_eq_singleton_iff.mp hgone
    have hip : x'.shown.dstIp = x.shown.dstIp := congrArg PeerInfo.dstIp hx
    change x'.dstIp = x.dstIp at hip
    have hxdst := hdst x List.mem_cons_self
    have hsame : s.serversList.findIdx? (fun srv => srv.ip == x.dstIp) = some i := by
      obtain ⟨srv, hsrv, haddress⟩ := ServerList.getElem?_of_dstServer hxdst
      have hsrvip : srv.ip = x.dstIp := congrArg Prod.fst haddress
      refine findIdx?_eq_of_key ho.ips hsrv (beq_iff_eq.mpr hsrvip) fun b _ hb => ?_
      rw [hsrvip]
      exact beq_iff_eq.mp hb
    have hfirst : cleanFirst a.serverList x' = a.serverList.modify i (·.clean x') := by
      rw [cleanFirst, findIdx?_ip_shown, h.servers, hip, ← findIdx?_ip_shown, hsame]
    rw [List.foldl_cons, List.foldl_nil, hfirst, List.modify_modify_eq]
    apply map_modify_congr h.servers i
    intro srv srv' _ hsrv' hsrv
    refine (ServerInfo.shown_forget hsrv.symm hx.symm fun hdisconnected => ?_).symm
    have hcount : 0 < s.peerList.countP (s.lostAt i) :=
      List.countP_pos_iff.mpr ⟨x, hlost x List.mem_cons_self, by
        rw [ServerList.lostAt, hxdst, hdisconnected]; simp⟩
    have hbound := ho.counted i srv' hsrv'
    omega
  · exact absurd hone (by simp)

/-- A new connection that has been announced, with the ended one of its client going. -/
theorem announce (h : Mirrors s heap a) (ho : s.Orderly) {q : PeerInfo} {i : Nat}
    (he : s.Entered t q i p) (hfresh : s.parallels p = none) (now : Datetime) :
    Mirrors t
      (a.processMessage (Function.update heap p (some (ServerList.copyAt q p)))
        ⟨statusConnectingServer, p⟩ now).2
      (a.processMessage (Function.update heap p (some (ServerList.copyAt q p)))
        ⟨statusConnectingServer, p⟩ now).1 := by
  have hunknown : p ∉ a.peerList := by
    intro hp
    have hmem : some p ∈ s.peerList.map PeerInfo.parallel := by
      rw [← h.parallels_eq]
      exact List.mem_map_of_mem hp
    obtain ⟨x, hx, hparallel⟩ := List.mem_map.mp hmem
    obtain ⟨p', hp', hsome⟩ := ho.copies x hx
    exact ServerList.ne_of_isSome hfresh hsome (Option.some.inj (hp'.symm.trans hparallel))
  have hcopy : (ServerList.copyAt q p).shown = q.shown := rfl
  have hsrc : (ServerList.copyAt q p).srcIp = q.srcIp := rfl
  generalize ServerList.copyAt q p = copy at hcopy hsrc ⊢
  have hnew : Function.update heap p (some copy) p = some copy := Function.update_self _ _ _
  have hview : a.view (Function.update heap p (some copy)) = a.view heap := by
    apply List.map_congr_left
    intro y hy
    have hne : y ≠ p := fun heq => hunknown (heq ▸ hy)
    rw [Function.update_of_ne hne]
  have hcommon : Mirrors s (Function.update heap p (some copy)) a :=
    ⟨h.servers, hview.trans h.peers⟩
  rw [AdminHTTPServer.processMessage_connecting hnew]
  generalize Function.update heap p (some copy) = heap' at hnew hcommon ⊢
  have henter := AdminHTTPServer.enter_eq a heap' p copy
  rw [hsrc] at henter
  obtain ⟨hstart, hlisted⟩ := (a.enter heap' p copy).startConnection_eq copy
  have hgone' := hcommon.lost_eq q.srcIp
  have hkept := hcommon.kept_eq q.srcIp
  generalize (a.peerList.filterMap heap').filter (ServerList.isLostOf q.srcIp) = gone' at *
  have hcleaned : (a.enter heap' p copy).serverList = gone'.foldl cleanFirst a.serverList := by
    rw [henter]
  have hdst' : (a.enter heap' p copy).serverList.findIdx? (·.isDst copy) = some i := by
    rw [findIdx?_isDst, hcleaned, address_foldl_cleanFirst, ← findIdx?_isDst, h.dst_eq hcopy,
      he.dst]
  rw [hdst', Option.elim_some, hcleaned] at hstart
  refine ⟨?_, ?_⟩
  · rw [hstart, he.servers]
    exact h.shown_entered ho hgone' (ho.length_lost q.srcIp)
      (fun x hx => List.mem_of_mem_filter hx) he.gone
  · rw [AdminHTTPServer.view, ServerList.view, hlisted, he.peers, henter, List.map_append,
      List.map_append, hkept]
    simp [hnew, hcopy, he.parallel]

end Mirrors

end Relb
