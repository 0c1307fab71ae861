import Mathlib.Data.List.Pairwise
import Relb.Proofs.Traffic
/-!
# An orderly session directory

As long as nothing is armed again and no purge or cleanup interferes, a client with an ended
entry has no other one, and every entry that has been lost is still counted at its server.
`exchange` keeps this when one entry comes or changes and others go; reports and new
connections are cases of it.
-/

namespace Relb

open Lib

open ConnectionPeer (Report report)

/-- Of two entries of one client, neither has ended. -/
def PeerInfo.Apart (q q' : PeerInfo) : Prop :=
  q.srcIp = q'.srcIp → q.notConnected = false ∧ q'.notConnected = false

theorem PeerInfo.Apart.symm {q q' : PeerInfo} (h : q.Apart q') : q'.Apart q :=
  fun heq => (h heq.symm).symm

instance : Std.Symm PeerInfo.Apart := ⟨fun _ _ h => h.symm⟩

namespace ServerList

variable {s t : ServerList} {index i j : Nat} {pinfo q : PeerInfo} {id : UInt32} {now : Datetime}
  {r : Report} {p : Ptr}

/-- The entry is a lost one of the server `j`. -/
def lostAt (s : ServerList) (j : Nat) (q : PeerInfo) : Bool :=
  s.dstServer q == some j && q.disconnected

theorem SameConfig.lostAt (h : s.SameConfig t) (j : Nat) : t.lostAt j = s.lostAt j := by
  ext q
  rw [ServerList.lostAt, ServerList.lostAt, h.dstServer]

structure Orderly (s : ServerList) : Prop where
  ips : (s.serversList.map ServerInfo.ip).Nodup
  dst : ∀ q ∈ s.peerList, (s.dstServer q).isSome
  copies : ∀ q ∈ s.peerList, ∃ p, q.parallel = some p ∧ (s.parallels p).isSome
  nodup : (s.peerList.map PeerInfo.parallel).Nodup
  apart : s.peerList.Pairwise PeerInfo.Apart
  counted : ∀ j srv, s.serversList[j]? = some srv →
    (s.peerList.countP (s.lostAt j) : Int) ≤ srv.disconnected

namespace Orderly

theorem of_eq (h : s.Orderly) (hservers : t.serversList = s.serversList)
    (hpeers : t.peerList = s.peerList)
    (hcopies : ∀ p, (s.parallels p).isSome → (t.parallels p).isSome) : t.Orderly := by
  have hdst : t.dstServer = s.dstServer := by
    ext q
    rw [dstServer, dstServer, hservers]
  refine ⟨hservers ▸ h.ips, ?_, ?_, hpeers ▸ h.nodup, hpeers ▸ h.apart, ?_⟩
  · rw [hpeers, hdst]
    exact h.dst
  · rw [hpeers]
    intro q hq
    obtain ⟨p, hp, hsome⟩ := h.copies q hq
    exact ⟨p, hp, hcopies p hsome⟩
  · have hlost : t.lostAt = s.lostAt := by
      ext j q
      rw [lostAt, lostAt, hdst]
    rw [hservers, hpeers, hlost]
    exact h.counted

/-- Some entries go, and one comes or takes the place of another. -/
theorem exchange (h : s.Orderly) (hconfig : s.SameConfig t) (new : Option PeerInfo)
    {rest : List PeerInfo} (hpeers : t.peerList.Perm (new.toList ++ rest))
    (hrest : rest.Sublist s.peerList)
    (hcopies : ∀ p, (s.parallels p).isSome → (t.parallels p).isSome)
    (hnew : ∀ q, new = some q → (s.dstServer q).isSome ∧
      (∃ p, q.parallel = some p ∧ (t.parallels p).isSome) ∧
      ∀ x ∈ rest, q.parallel ≠ x.parallel ∧ q.Apart x)
    (hcounted : ∀ j srv, t.serversList[j]? = some srv →
      ((new.toList ++ rest).countP (s.lostAt j) : Int) ≤ srv.disconnected) : t.Orderly := by
  have hmem : ∀ q ∈ t.peerList, new = some q ∨ q ∈ s.peerList := by
    intro q hq
    rcases List.mem_append.mp (hpeers.mem_iff.mp hq) with hq | hq
    · exact .inl (Option.mem_toList.mp hq)
    · exact .inr (hrest.subset hq)
  refine ⟨?_, ?_, ?_, ?_, ?_, ?_⟩
  · have hips : ∀ l : List ServerInfo, l.map ServerInfo.ip =
        (l.map ServerInfo.address).map Prod.fst := by
      intro l
      rw [List.map_map]
      rfl
    rw [hips, hconfig.addresses, ← hips]
    exact h.ips
  · intro q hq
    rw [hconfig.dstServer]
    rcases hmem q hq with hq | hq
    · exact (hnew q hq).1
    · exact h.dst q hq
  · intro q hq
    rcases hmem q hq with hq | hq
    · exact (hnew q hq).2.1
    · obtain ⟨p, hp, hsome⟩ := h.copies q hq
      exact ⟨p, hp, hcopies p hsome⟩
  · have hold := h.nodup.sublist (hrest.map _)
    rw [(hpeers.map _).nodup_iff]
    cases new with
    | none => exact hold
    | some q =>
        refine List.nodup_cons.mpr ⟨fun hq => ?_, hold⟩
        obtain ⟨x, hx, heq⟩ := List.mem_map.mp hq
        exact ((hnew q rfl).2.2 x hx).1 heq.symm
  · rw [hpeers.pairwise_iff PeerInfo.Apart.symm]
    have hold := h.apart.sublist hrest
    cases new with
    | none => exact hold
    | some q => exact List.pairwise_cons.mpr ⟨fun x hx => ((hnew q rfl).2.2 x hx).2, hold⟩
  · intro j srv hsrv
    rw [hconfig.lostAt, hpeers.countP_eq]
    exact hcounted j srv hsrv

/-! ## Reports -/

theorem disconnected_reportedServer (hr : ConnectionPeer.report id = some r) (pinfo : PeerInfo)
    (srv : ServerInfo) (removed : Bool) (now : Datetime) :
    (reportedServer srv id removed now).disconnected = srv.disconnected +
      if ¬(r ≠ .established ∧ removed = true) ∧
        (pinfo.setStatus id.toUInt8 now).disconnected = true then 1 else 0 := by
  have hbits : ∀ id ∈ postedIds, (statusHas id.toUInt8 statusPeerDisconnected = true ↔
      id &&& statusPeerDisconnected ≠ 0) ∧
      (ConnectionPeer.report id = some .established → id &&& statusPeerDisconnected = 0) :=
    List.all_iff_forall_prop.mp (by decide)
  obtain ⟨hlost, hest⟩ := hbits id (ConnectionPeer.posted_of_report hr)
  have hstatus : (pinfo.setStatus id.toUInt8 now).disconnected = true ↔
      id &&& statusPeerDisconnected ≠ 0 := hlost
  simp only [hstatus]
  by_cases hestablished : r = .established
  · subst hestablished
    simp [reportedServer, hr, hest hr, establishedServer]
  · have hne : ¬ConnectionPeer.report id = some .established := by
      rw [hr]
      exact fun heq => hestablished (Option.some.inj heq)
    rw [reportedServer, if_neg hne, disconnected_endedServer]
    simp [hestablished]

/-- Without the entry that is reported, and with it if it stays as a lost one, the losses are still
counted. -/
theorem counted_report (h : s.Orderly) (hq : s.peerList[index]? = some pinfo)
    (hr : ConnectionPeer.report id = some r) (hi : s.dstServer pinfo = some i) {removed : Bool}
    {srv : ServerInfo} (hsrv : (s.serversList.modify i fun srv =>
      reportedServer srv id removed now)[j]? = some srv) :
    ((s.peerList.eraseIdx index).countP (s.lostAt j) : Int) +
      (if ¬(r ≠ .established ∧ removed = true) ∧
        s.lostAt j (pinfo.setStatus id.toUInt8 now) = true then 1 else 0) ≤ srv.disconnected := by
  have hdst : s.lostAt j (pinfo.setStatus id.toUInt8 now) =
      (some i == some j && (pinfo.setStatus id.toUInt8 now).disconnected) :=
    congrArg (fun x => x == some j && _) hi
  have hrest := countP_eraseIdx_add hq (s.lostAt j)
  rcases getElem?_modify_cases hsrv with ⟨rfl, before, hbefore, rfl⟩ | ⟨hij, hsrv⟩
  · have hbound := h.counted i before hbefore
    rw [disconnected_reportedServer hr pinfo before removed now]
    simp only [hdst, beq_self_eq_true, Bool.true_and]
    omega
  · have hbound := h.counted j srv hsrv
    simp only [hdst, Option.some_beq_some, beq_eq_false_iff_ne.mpr hij, Bool.false_and,
      Bool.false_eq_true, and_false, if_false]
    omega

theorem apart_report (h : s.Orderly) (hq : s.peerList[index]? = some pinfo)
    (hr : ConnectionPeer.report id = some r)
    (hkept : r ≠ .established → s.otherConnected index pinfo = false)
    (hx : q ∈ s.peerList.eraseIdx index) (now : Datetime) :
    (pinfo.setStatus id.toUInt8 now).Apart q := by
  intro hsrc
  have hpairs := ((perm_cons_eraseIdx hq).pairwise_iff PeerInfo.Apart.symm).mp h.apart
  have hconnected := ((List.pairwise_cons.mp hpairs).1 q hx hsrc).2
  refine ⟨?_, hconnected⟩
  rw [← Bool.not_eq_true, notConnected_setStatus (ConnectionPeer.posted_of_report hr), hr]
  intro hend
  have hest : r ≠ .established := by
    rintro rfl
    simp at hend
  obtain ⟨n, hne, hn⟩ := List.mem_eraseIdx_iff_getElem?.mp hx
  have hsome : s.otherConnected index pinfo = true :=
    otherConnected_iff.mpr ⟨n, q, hn, hne, hconnected, hsrc.symm⟩
  rw [hsome] at hkept
  cases hkept hest

/-- A report changes its entry or drops it. -/
theorem report (h : s.Orderly) (hq : s.peerList[index]? = some pinfo)
    (hr : ConnectionPeer.report id = some r)
    (hparallels : (s.recordMessage index pinfo id now).parallels = s.parallels) :
    ((s.recordMessage index pinfo id now).countMessage index pinfo id now).Orderly := by
  have hmem := List.mem_of_getElem? hq
  have hrecord := sameConfig_recordMessage s index pinfo id now
  have hconfig := hrecord.trans (sameConfig_countMessage _ index pinfo id now)
  have hother := otherConnected_recordMessage s index pinfo pinfo id now
  have hlink := congrArg Prod.snd (link_countMessage (s.recordMessage index pinfo id now) index
    pinfo id now)
  change _ = (s.recordMessage index pinfo id now).parallels at hlink
  rw [hparallels] at hlink
  obtain ⟨i, hi⟩ := Option.isSome_iff_exists.mp (h.dst pinfo hmem)
  obtain ⟨hservers, hpeers⟩ := countMessage_of_report hr (s.recordMessage index pinfo id now)
    index pinfo now
  rw [hrecord.dstServer, hi, Option.elim_some, serversList_recordMessage] at hservers
  rw [hrecord.dstServer, hi, peerList_recordMessage_of_report hr] at hpeers
  have hkept : (s.recordMessage index pinfo id now).removes index pinfo = false →
      s.otherConnected index pinfo = false := by
    intro hremoves
    rw [removes, hother, Bool.or_eq_false_iff] at hremoves
    exact hremoves.1
  generalize (s.recordMessage index pinfo id now).removes index pinfo = removed at *
  generalize (s.recordMessage index pinfo id now).countMessage index pinfo id now = t at *
  have hcopies : ∀ p, (s.parallels p).isSome → (t.parallels p).isSome := by
    change t.parallels = s.parallels at hlink
    rw [hlink]
    exact fun p hp => hp
  by_cases hgone : r ≠ .established ∧ removed = true
  · rw [if_pos ⟨hgone.1, rfl, hgone.2⟩, List.eraseIdx_modify_of_eq] at hpeers
    refine h.exchange hconfig none (.of_eq hpeers) (List.eraseIdx_sublist _ _) hcopies
      (fun q hq => absurd hq (Option.not_mem_none q)) fun j srv hsrv => ?_
    rw [hservers] at hsrv
    simpa [hgone] using h.counted_report hq hr hi hsrv
  · have hstay : ¬(r ≠ .established ∧ (some i).isSome = true ∧ removed = true) :=
      fun hc => hgone ⟨hc.1, hc.2.2⟩
    rw [if_neg hstay] at hpeers
    have hperm := modify_perm_cons_eraseIdx hq (·.setStatus id.toUInt8 now)
    refine h.exchange hconfig (some (pinfo.setStatus id.toUInt8 now)) (hpeers ▸ hperm)
      (List.eraseIdx_sublist _ _) hcopies (fun q hnew => ?_) fun j srv hsrv => ?_
    · obtain rfl := Option.some.inj hnew
      refine ⟨h.dst pinfo hmem, ?_, fun x hx => ⟨?_, ?_⟩⟩
      · obtain ⟨p, hp, hsome⟩ := h.copies pinfo hmem
        exact ⟨p, hp, hcopies p hsome⟩
      · exact (key_ne_of_mem_eraseIdx h.nodup hq hx).symm
      · exact h.apart_report hq hr (fun hest => hkept (by simpa [hest] using hgone)) hx now
    · rw [hservers] at hsrv
      have hcount := h.counted_report hq hr hi hsrv
      rw [Option.toList_some, List.singleton_append, List.countP_cons]
      simp only [hgone, not_false_eq_true, true_and] at hcount
      split_ifs at hcount ⊢ <;> omega

end Orderly

/-! ## New connections -/

variable {clientIp : IpAddress} {clientPort : UInt16} {pcm : Option ManagerId}
  {addr parallelAddr : Ptr} {queue : List Message}

theorem withParallel_eq (hqueue : s.parallelList = some queue) (q : PeerInfo) (p : Ptr) :
    s.withParallel q p = { q with parallel := some p } := by
  rw [withParallel, hqueue]
  rfl

/-- The copy that the admin gets of the entry `q`. -/
def copyAt (q : PeerInfo) (p : Ptr) : PeerInfo := { q with addr := p, parallel := some q.addr }

theorem link_addPeer (hqueue : s.parallelList = some queue) (q : PeerInfo) (p : Ptr) :
    (s.addPeer q p).link =
      (some (queue ++ [⟨q.status.toUInt32, p⟩]),
        Function.update s.parallels p (some (copyAt q p))) := by
  refine Prod.ext ?_ (funext fun x => ?_)
  · simp only [link, addPeer, postParallel, hqueue]
  · simp only [link, addPeer, postParallel, hqueue, Option.isSome_some, if_true,
      Function.update_apply]
    rfl

theorem link_afterRecreation (hqueue : s.parallelList = some queue) (server : Nat)
    (clientIp : IpAddress) (q : PeerInfo) (p : Ptr) :
    (s.afterRecreation server clientIp q p).link =
      (some (queue ++ [⟨q.status.toUInt32, p⟩]),
        Function.update s.parallels p (some (copyAt q p))) := by
  have hsame : ((s.modifyServer server (recreatedServer (s.peerList.filter (isLostOf clientIp))))
      |>.filterPeers fun x => !isLostOf clientIp x).parallelList = some queue := hqueue
  exact link_addPeer hsame q p

theorem link_afterAssignment (hqueue : s.parallelList = some queue) (server : Nat)
    (q : PeerInfo) (p : Ptr) :
    (s.afterAssignment server q p).link =
      (some (queue ++ [⟨q.status.toUInt32, p⟩]),
        Function.update s.parallels p (some (copyAt q p))) := by
  have hsame : (({ s with lastServerAssigned := server }).modifyServer server
      ServerInfo.startConnecting).parallelList = some queue := hqueue
  exact link_addPeer hsame q p

/-- The entry `q` has come to the server `i`, the ended ones of its client have gone from there,
and its copy at `p` has been announced. -/
structure Entered (s t : ServerList) (q : PeerInfo) (i : Nat) (p : Ptr) : Prop where
  config : s.SameConfig t
  servers : t.serversList =
    s.serversList.modify i (recreatedServer (s.peerList.filter (isLostOf q.srcIp)))
  peers : t.peerList = s.peerList.filter (fun x => !isLostOf q.srcIp x) ++ [q]
  dst : s.dstServer q = some i
  parallel : q.parallel = some p
  status : q.status = statusConnectingServer.toUInt8
  gone : ∀ x ∈ s.peerList.filter (isLostOf q.srcIp), s.dstServer x = some i
  announced : ∀ queue, s.parallelList = some queue → t.link =
    (some (queue ++ [⟨statusConnectingServer, p⟩]),
      Function.update s.parallels p (some (copyAt q p)))

theorem toUInt32_status_newPeer (dstIp : IpAddress) (dstPort : UInt16) :
    (newPeer clientIp clientPort dstIp dstPort pcm now addr).status.toUInt32 =
      statusConnectingServer := by
  change statusConnectingServer.toUInt8.toUInt32 = statusConnectingServer
  decide

/-- A session that is created again, whose ended entry is the only one of its client. -/
theorem Orderly.entered_afterRecreation (h : s.Orderly) {peer server : Nat} {old : PeerInfo}
    (hvalid : s.ValidSession clientIp now peer server old)
    (hconfig : s.SameConfig (s.afterRecreation server clientIp
      (newPeer clientIp clientPort old.dstIp old.dstPort pcm now addr) parallelAddr))
    (hqueue : s.parallelList = some queue) :
    s.Entered (s.afterRecreation server clientIp
        (newPeer clientIp clientPort old.dstIp old.dstPort pcm now addr) parallelAddr)
      (s.withParallel (newPeer clientIp clientPort old.dstIp old.dstPort pcm now addr)
        parallelAddr) server parallelAddr := by
  have hmem := List.mem_of_getElem? hvalid.found
  have hserver : s.dstServer old = some server := by
    obtain ⟨j, hj⟩ := Option.isSome_iff_exists.mp (h.dst old hmem)
    obtain ⟨srv, hsrv, haddress⟩ := getElem?_of_dstServer hj
    obtain ⟨-, srv', hsrv', hip⟩ := sessionServer_spec hvalid.server
    have hsame : srv.ip = srv'.ip := (congrArg Prod.fst haddress).trans hip.symm
    rw [hj, index_eq_of_key h.ips hsrv hsrv' hsame]
  have hdst : s.dstServer { newPeer clientIp clientPort old.dstIp old.dstPort pcm now addr with
      parallel := some parallelAddr } = some server := by
    rw [← hserver]
    exact dstServer_of_route (congrArg (·, old.dstIp, old.dstPort) hvalid.client.symm)
  rw [withParallel_eq hqueue]
  refine ⟨hconfig, ?_, ?_, hdst, rfl, rfl, ?_, ?_⟩
  · exact serversList_afterRecreation _ _ _ _ _
  · rw [peerList_afterRecreation, withParallel_eq hqueue]
    rfl
  · intro x hx
    obtain ⟨hx, hlost⟩ := List.mem_filter.mp hx
    simp only [isLostOf, Bool.and_eq_true, beq_iff_eq] at hlost
    obtain ⟨hsrc, hended⟩ := hlost
    -- the ended entry of the client is the session itself
    have hsame : x = old := by
      by_contra hne
      have hactive := h.apart.forall hx hmem hne (hsrc.trans hvalid.client.symm)
      rw [hended] at hactive
      cases hactive.1
    rw [hsame]
    exact hserver
  · intro queue hqueue
    have hlink := link_afterRecreation hqueue server clientIp (newPeer clientIp clientPort
      old.dstIp old.dstPort pcm now addr) parallelAddr
    rwa [toUInt32_status_newPeer] at hlink

/-- A new assignment, to a client without ended entries. -/
theorem Orderly.entered_afterAssignment (h : s.Orderly) {last : Nat} {srv : ServerInfo}
    (hsrv : s.serversList[last]? = some srv)
    (hconfig : s.SameConfig (s.afterAssignment last
      (newPeer clientIp clientPort srv.ip srv.port pcm now addr) parallelAddr))
    (hkeep : ∀ x ∈ s.peerList, isLostOf clientIp x = false)
    (hqueue : s.parallelList = some queue) :
    s.Entered (s.afterAssignment last
        (newPeer clientIp clientPort srv.ip srv.port pcm now addr) parallelAddr)
      (s.withParallel (newPeer clientIp clientPort srv.ip srv.port pcm now addr) parallelAddr)
      last parallelAddr := by
  rw [withParallel_eq hqueue]
  have hgone : s.peerList.filter (isLostOf clientIp) = [] := by
    rw [List.filter_eq_nil_iff]
    exact fun x hx => by rw [hkeep x hx]; decide
  have hall : s.peerList.filter (fun x => !isLostOf clientIp x) = s.peerList := by
    rw [List.filter_eq_self]
    exact fun x hx => by rw [hkeep x hx]; rfl
  refine ⟨hconfig, ?_, ?_, ?_, rfl, rfl, ?_, ?_⟩
  · change _ = s.serversList.modify last (recreatedServer (s.peerList.filter
      (isLostOf clientIp)))
    rw [hgone]
    exact serversList_afterAssignment _ _ _ _
  · change _ = s.peerList.filter (fun x => !isLostOf clientIp x) ++ _
    rw [hall, peerList_afterAssignment, withParallel_eq hqueue]
  · refine findIdx?_eq_of_key h.ips hsrv ?_ fun b _ hb => ?_
    · rw [ServerInfo.isDst_iff]
      rfl
    · rw [ServerInfo.isDst_iff] at hb
      exact congrArg Prod.fst hb
  · intro x hx
    change x ∈ s.peerList.filter (isLostOf clientIp) at hx
    rw [hgone] at hx
    cases hx
  · intro queue hqueue
    have hlink := link_afterAssignment hqueue last (newPeer clientIp clientPort srv.ip srv.port
      pcm now addr) parallelAddr
    rwa [toUInt32_status_newPeer] at hlink

theorem Orderly.entered (h : s.Orderly) {o : ServerList × Option PeerInfo}
    (ho : s.Outcome clientIp clientPort pcm now addr parallelAddr o) (hq : o.2 = some q)
    (hqueue : s.parallelList = some queue)
    (hreused : s.reusedPeer clientIp clientPort now = none)
    (hlost : s.NoSession clientIp now → (s.assignment clientIp clientPort now).isSome = true →
      ∀ x ∈ s.peerList, isLostOf clientIp x = false) :
    ∃ i, s.Entered o.1 q i parallelAddr := by
  have hconfig := ho.sameConfig
  cases ho with
  | refused last hnone hassign => cases hq
  | reused hvalid hport hfound hassign =>
      rw [hreused] at hfound
      cases hfound
  | @recreated peer server old hvalid hassign =>
      obtain rfl := Option.some.inj hq
      exact ⟨server, h.entered_afterRecreation hvalid hconfig hqueue⟩
  | @assigned last srv hnone hsrv hallowed hassign =>
      obtain rfl := Option.some.inj hq
      exact ⟨last, h.entered_afterAssignment hsrv hconfig (hlost hnone (hassign ▸ rfl)) hqueue⟩

theorem disconnected_recreatedServer (gone : List PeerInfo) (srv : ServerInfo) :
    srv.disconnected - (gone.countP PeerInfo.disconnected : Int) ≤
      (recreatedServer gone srv).disconnected := by
  have hstart : srv.disconnected = srv.startConnecting.disconnected := rfl
  rw [hstart, recreatedServer]
  generalize srv.startConnecting = srv
  induction gone generalizing srv with
  | nil => simp
  | cons x gone ih =>
      have hrest := ih (srv.forget x)
      have hforget : srv.disconnected - (if x.disconnected then 1 else 0) ≤
          (srv.forget x).disconnected := by
        unfold ServerInfo.forget
        split_ifs
        · exact Int.le_max_left _ _
        · exact Int.le_of_eq (Int.sub_zero _)
      rw [List.foldl_cons, List.countP_cons]
      split_ifs at hforget ⊢ <;> omega

namespace Orderly

theorem length_lost (h : s.Orderly) (ip : IpAddress) :
    (s.peerList.filter (isLostOf ip)).length ≤ 1 := by
  have hpairs := h.apart.filter (isLostOf ip)
  have hlost : ∀ x ∈ s.peerList.filter (isLostOf ip), x.srcIp = ip ∧ x.notConnected = true := by
    intro x hx
    simpa [isLostOf] using (List.mem_filter.mp hx).2
  revert hpairs hlost
  rcases s.peerList.filter (isLostOf ip) with _ | ⟨x, _ | ⟨y, rest⟩⟩
  · exact fun _ _ => Nat.zero_le _
  · exact fun _ _ => Nat.le_refl _
  · intro hpairs hlost
    obtain ⟨hx, hended⟩ := hlost x List.mem_cons_self
    obtain ⟨hy, -⟩ := hlost y (List.mem_cons_of_mem _ List.mem_cons_self)
    have hactive := (List.pairwise_cons.mp hpairs).1 y List.mem_cons_self (hx.trans hy.symm)
    rw [hended] at hactive
    cases hactive.1

theorem enter (h : s.Orderly) (he : s.Entered t q i p) (hqueue : s.parallelList = some queue)
    (hfresh : s.parallels p = none) : t.Orderly := by
  have hparallels : t.parallels = Function.update s.parallels p (some (copyAt q p)) :=
    congrArg Prod.snd (he.announced queue hqueue)
  have hnew : (t.parallels p).isSome := by
    rw [hparallels, Function.update_self]
    rfl
  have hstatus : q.notConnected = false ∧ q.disconnected = false := by
    rw [PeerInfo.notConnected, PeerInfo.disconnected, he.status]
    decide
  have hpeers : t.peerList.Perm
      ((some q).toList ++ s.peerList.filter fun x => !isLostOf q.srcIp x) := by
    rw [he.peers]
    exact List.perm_append_singleton _ _
  refine h.exchange he.config (some q) hpeers List.filter_sublist (fun x hx => ?_)
    (fun y hy => ?_) fun j srv hsrv => ?_
  · exact hparallels ▸ isSome_update hx _
  · obtain rfl := Option.some.inj hy
    refine ⟨he.dst ▸ rfl, ⟨p, he.parallel, hnew⟩, fun x hx => ⟨fun heq => ?_, fun hsrc => ?_⟩⟩
    · obtain ⟨p', hp', hsome⟩ := h.copies x (List.mem_of_mem_filter hx)
      rw [he.parallel, hp'] at heq
      exact ne_of_isSome hfresh hsome (Option.some.inj heq).symm
    · have hkept := (List.mem_filter.mp hx).2
      rw [isLostOf, hsrc, beq_self_eq_true, Bool.true_and, Bool.not_eq_true'] at hkept
      exact ⟨hstatus.1, hkept⟩
  · have hsplit := List.countP_eq_countP_filter_add s.peerList (s.lostAt j) (isLostOf q.srcIp)
    have hq : s.lostAt j q = false := by rw [lostAt, hstatus.2, Bool.and_false]
    rw [Option.toList_some, List.singleton_append, List.countP_cons, hq]
    rw [he.servers] at hsrv
    rcases getElem?_modify_cases hsrv with ⟨rfl, before, hbefore, rfl⟩ | ⟨hij, hsrv⟩
    · have hbound := h.counted i before hbefore
      have hafter := disconnected_recreatedServer (s.peerList.filter (isLostOf q.srcIp)) before
      have hgone : (s.peerList.filter (isLostOf q.srcIp)).countP (s.lostAt i) =
          (s.peerList.filter (isLostOf q.srcIp)).countP PeerInfo.disconnected := by
        apply List.countP_congr
        intro x hx
        rw [lostAt, he.gone x hx, beq_self_eq_true, Bool.true_and]
      simp only [Bool.false_eq_true, if_false]
      omega
    · have hbound := h.counted j srv hsrv
      simp only [Bool.false_eq_true, if_false]
      omega

end Orderly

/-! ## Tasks -/

theorem cleanConnections_of_active (h : ∀ q ∈ s.peerList, q.notConnected = false) :
    s.cleanConnections = s := by
  have hfold : ∀ (l : List PeerInfo) (s : ServerList), (∀ q ∈ l, q.notConnected = false) →
      l.foldl cleanEntry s = { s with peerList := s.peerList ++ l } := by
    intro l
    induction l with
    | nil => simp
    | cons q l ih =>
        intro s hl
        have hq : s.cleanEntry q = { s with peerList := s.peerList ++ [q] } :=
          if_neg (by rw [hl q List.mem_cons_self]; decide)
        rw [List.foldl_cons, hq, ih _ fun x hx => hl x (List.mem_cons_of_mem _ hx)]
        simp
  rw [cleanConnections, hfold _ _ h]
  rfl

theorem link_purgeConnections (s : ServerList) (now : Datetime) :
    (s.purgeConnections now).link = s.link := by
  exact foldl_keeps (f := link) (fun s q => link_closePInfo _ _) s.peerList s

end ServerList

end Relb
