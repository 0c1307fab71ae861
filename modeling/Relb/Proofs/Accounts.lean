import Relb.Proofs.Messages
/-!
# The accounts of `ServerList`

Seen from the reports processed so far, a listed connection is connecting, established or
ended. `Accounts` bounds the two counters of every server by the numbers of its entries in
the first two phases. Every operation keeps the bounds if the phases follow the reports: a
first report of a connection is never an end, a later one always is.
-/

namespace Relb

open Lib

open ConnectionPeer (Report report)

/-- How far a connection has come. -/
inductive Phase
  | connecting
  | established
  | ended
  deriving DecidableEq, Repr

/-- The phase that a report leads to. -/
def ConnectionPeer.Report.next : Report → Phase
  | .established => .established
  | .failed => .ended
  | .ended => .ended

namespace ServerInfo

/-- The counter of the connections in a phase; those that have ended have other counters. -/
def counter (srv : ServerInfo) : Phase → Int
  | .connecting => srv.connecting
  | .established => srv.connected
  | .ended => 0

@[simp] theorem counter_forget (srv : ServerInfo) (q : PeerInfo) :
    (srv.forget q).counter = srv.counter := by
  unfold forget
  split <;> rfl

@[simp] theorem counter_clean (srv : ServerInfo) (q : PeerInfo) :
    (srv.clean q).counter = srv.counter := by
  unfold clean
  split <;> rfl

end ServerInfo

namespace ServerList

variable {s t : ServerList} {q pinfo : PeerInfo} {id : UInt32} {now : Datetime} {i j index : Nat}
  {phase : Ptr → Phase} {ph ph' : Phase} {srv : ServerInfo} {r : Report}

@[simp] theorem counter_recreatedServer (gone : List PeerInfo) :
    (recreatedServer gone srv).counter = srv.startConnecting.counter := by
  exact foldl_keeps (f := ServerInfo.counter) ServerInfo.counter_forget gone _

theorem maxConnections_recreatedServer (gone : List PeerInfo) :
    (recreatedServer gone srv).maxConnections = srv.maxConnections := by
  have hforget : ∀ (srv : ServerInfo) (q : PeerInfo),
      (srv.forget q).maxConnections = srv.maxConnections := by
    intro srv q
    unfold ServerInfo.forget
    split <;> rfl
  exact foldl_keeps (f := ServerInfo.maxConnections) hforget gone _

/-- A connection is put on one account, at which it is connecting. -/
theorem Outcome.accounted {clientIp : IpAddress} {clientPort : UInt16} {pcm : Option ManagerId}
    {addr parallelAddr : Ptr} {o : ServerList × Option PeerInfo}
    (h : s.Outcome clientIp clientPort pcm now addr parallelAddr o) (hq : o.2 = some q) :
    ∃ i f, s.assignment clientIp clientPort now = some (i, q.dstIp, q.dstPort) ∧
      o.1.serversList = s.serversList.modify i f ∧
      ∀ srv, (f srv).counter = srv.startConnecting.counter ∧
        (f srv).maxConnections = srv.maxConnections := by
  cases h with
  | refused last hnone hassign => cases hq
  | @reused peer server p hvalid hport hreused hassign =>
      obtain rfl := Option.some.inj hq
      exact ⟨server, _, hassign, serversList_afterReuse _ _ _ _ _ _ _, fun _ => ⟨rfl, rfl⟩⟩
  | @recreated peer server p hvalid hassign =>
      obtain rfl := Option.some.inj hq
      refine ⟨server, _, ?_, serversList_afterRecreation _ _ _ _ _, fun srv =>
        ⟨counter_recreatedServer _, maxConnections_recreatedServer _⟩⟩
      rw [hassign]
      exact congrArg (fun x => some (server, x)) (congrArg Prod.snd (route_withParallel s
        (newPeer clientIp clientPort p.dstIp p.dstPort pcm now addr) parallelAddr)).symm
  | @assigned last srv hnone hsrv hallowed hassign =>
      obtain rfl := Option.some.inj hq
      refine ⟨last, _, ?_, serversList_afterAssignment _ _ _ _, fun _ => ⟨rfl, rfl⟩⟩
      rw [hassign]
      exact congrArg (fun x => some (last, x)) (congrArg Prod.snd (route_withParallel s
        (newPeer clientIp clientPort srv.ip srv.port pcm now addr) parallelAddr)).symm

theorem Outcome.refuses {clientIp : IpAddress} {clientPort : UInt16} {pcm : Option ManagerId}
    {addr parallelAddr : Ptr} {o : ServerList × Option PeerInfo}
    (h : s.Outcome clientIp clientPort pcm now addr parallelAddr o) (hnone : o.2 = none) :
    ∃ last, o.1 = { s with lastServerAssigned := last } := by
  cases h with
  | refused last hnone hassign => exact ⟨last, rfl⟩
  | reused => cases hnone
  | recreated => cases hnone
  | assigned => cases hnone

/-! ## Counters -/

/-- What a counter may be after a connection has gone from `old` to `new`. -/
def Moved (old new : Phase) (f : ServerInfo → ServerInfo) : Prop :=
  ∀ srv ph, ph ≠ .ended → 0 ≤ srv.counter ph → 0 ≤ (f srv).counter ph ∧
    (f srv).counter ph ≤ max (srv.counter ph - if old = ph then 1 else 0) 0 +
      if new = ph then 1 else 0

theorem moved_establishedServer (now : Datetime) :
    Moved .connecting .established (establishedServer · now) := by
  intro srv ph hph hc
  cases ph with
  | connecting =>
      simp only [ServerInfo.counter, establishedServer, if_true, reduceCtorEq, if_false]
      omega
  | established =>
      simp only [ServerInfo.counter, establishedServer, if_true, reduceCtorEq, if_false] at hc ⊢
      omega
  | ended => exact absurd rfl hph

/-- A failure is counted off `connecting`, an end off `connected`. -/
theorem moved_endedServer {old : Phase} (hr : ConnectionPeer.report id = some r)
    (hnext : r.next = .ended) (hold : r = .ended ↔ old ≠ .connecting) (removed : Bool)
    (now : Datetime) : Moved old .ended (endedServer · id removed now) := by
  have hid := ConnectionPeer.posted_of_report hr
  intro srv ph hph hc
  cases r with
  | established => cases hnext
  | failed =>
      have hconnecting : old = .connecting := by
        by_contra hne
        cases hold.mpr hne
      subst hconnecting
      cases ph with
      | connecting =>
          simp only [ServerInfo.counter, connecting_endedServer hid, hr, if_true, reduceCtorEq,
            if_false]
          omega
      | established =>
          simp only [ServerInfo.counter, connected_endedServer hid, hr, if_true, reduceCtorEq,
            if_false] at hc ⊢
          omega
      | ended => exact absurd rfl hph
  | ended =>
      have hne : old ≠ .connecting := hold.mp rfl
      cases ph with
      | connecting =>
          simp only [ServerInfo.counter, connecting_endedServer hid, hr, Option.some.injEq,
            reduceCtorEq, if_false, if_neg hne] at hc ⊢
          omega
      | established =>
          simp only [ServerInfo.counter, connected_endedServer hid, hr, Option.some.injEq,
            reduceCtorEq, if_false] at hc ⊢
          split_ifs <;> omega
      | ended => exact absurd rfl hph

theorem moved_startConnecting : Moved .ended .connecting ServerInfo.startConnecting := by
  intro srv ph hph hc
  cases ph with
  | connecting =>
      simp only [ServerInfo.counter, ServerInfo.startConnecting, if_true, reduceCtorEq,
        if_false] at hc ⊢
      omega
  | established =>
      simp only [ServerInfo.counter, ServerInfo.startConnecting, reduceCtorEq, if_false] at hc ⊢
      omega
  | ended => exact absurd rfl hph

/-! ## Entries in a phase -/

/-- The entries of a server whose connection is in a phase. -/
def load (s : ServerList) (phase : Ptr → Phase) (ph : Phase) (j : Nat) : Nat :=
  s.peerList.countP fun q => s.dstServer q = some j ∧ phase q.addr = ph

/-- What an entry contributes to a load. -/
def share (s : ServerList) (phase : Ptr → Phase) (ph : Phase) (j : Nat) (q : PeerInfo) : Nat :=
  if s.dstServer q = some j ∧ phase q.addr = ph then 1 else 0

@[simp] theorem share_update_self :
    s.share (Function.update phase q.addr ph') ph j q =
      if s.dstServer q = some j ∧ ph' = ph then 1 else 0 := by
  rw [share, Function.update_self]

theorem share_le (hq : s.peerList[i]? = some q) : s.share phase ph j q ≤ s.load phase ph j := by
  have hcount := countP_eraseIdx_add hq fun x =>
    decide (s.dstServer x = some j ∧ phase x.addr = ph)
  simp only [decide_eq_true_eq] at hcount
  rw [share, load, ← hcount]
  omega

theorem load_congr (hconfig : s.SameConfig t)
    (hpeers : t.peerList.map (fun q => (q.addr, q.dstIp, q.dstPort)) =
      s.peerList.map fun q => (q.addr, q.dstIp, q.dstPort)) :
    t.load phase ph j = s.load phase ph j := by
  have hcount : ∀ u : ServerList, s.SameConfig u → u.load phase ph j =
      (u.peerList.map fun q => (q.addr, q.dstIp, q.dstPort)).countP fun x =>
        (s.serversList.map ServerInfo.address).findIdx? (· == x.2) = some j ∧ phase x.1 = ph := by
    intro u hu
    rw [List.countP_map]
    apply List.countP_congr
    intro q _
    simp [hu.dstServer, dstServer_eq]
  rw [hcount t hconfig, hcount s (.refl s), hpeers]

theorem load_update (hnodup : (s.peerList.map PeerInfo.addr).Nodup)
    (hq : s.peerList[i]? = some q) :
    s.load (Function.update phase q.addr ph') ph j + s.share phase ph j q =
      s.load phase ph j + s.share (Function.update phase q.addr ph') ph j q := by
  have hchange := countP_change hnodup hq
    (fun x => s.dstServer x = some j ∧ phase x.addr = ph)
    (fun x => s.dstServer x = some j ∧ Function.update phase q.addr ph' x.addr = ph)
    fun x _ hx => by rw [Function.update_of_ne hx]
  simpa [load, share] using hchange

theorem load_update_fresh {a : Ptr} (hfresh : ∀ q ∈ s.peerList, q.addr ≠ a) :
    s.load (Function.update phase a ph') ph j = s.load phase ph j := by
  apply List.countP_congr
  intro q hq
  rw [Function.update_of_ne (hfresh q hq)]

theorem load_eraseIdx (hconfig : s.SameConfig t) (hq : s.peerList[i]? = some q)
    (hpeers : t.peerList = s.peerList.eraseIdx i) :
    t.load phase ph j + s.share phase ph j q = s.load phase ph j := by
  have hcount := countP_eraseIdx_add hq fun x =>
    decide (s.dstServer x = some j ∧ phase x.addr = ph)
  simpa [load, share, hpeers, hconfig.dstServer] using hcount

theorem load_append (hconfig : s.SameConfig t) (hpeers : t.peerList = s.peerList ++ [q]) :
    t.load phase ph j = s.load phase ph j + s.share phase ph j q := by
  simp [load, share, hpeers, hconfig.dstServer, List.countP_append, List.countP_cons]

theorem load_filter {keep : PeerInfo → Bool} (hconfig : s.SameConfig t)
    (hpeers : t.peerList = s.peerList.filter keep)
    (hgone : ∀ q ∈ s.peerList, keep q = false → phase q.addr ≠ ph) :
    t.load phase ph j = s.load phase ph j := by
  rw [load, load, hpeers, List.countP_filter]
  apply List.countP_congr
  intro q hq
  cases hkeep : keep q with
  | true => simp [hconfig.dstServer]
  | false => simp [hgone q hq hkeep]

/-! ## Accounts -/

structure Accounts (s : ServerList) (phase : Ptr → Phase) : Prop where
  nodup : (s.peerList.map PeerInfo.addr).Nodup
  ended : ∀ q ∈ s.peerList, q.notConnected = true → phase q.addr = .ended
  bounded : ∀ j srv, s.serversList[j]? = some srv →
    ∀ ph, 0 ≤ srv.counter ph ∧ srv.counter ph ≤ (s.load phase ph j : Int)

namespace Accounts

theorem of_counters (h : s.Accounts phase) {phase' : Ptr → Phase}
    (hcounters : t.serversList.map ServerInfo.counter = s.serversList.map ServerInfo.counter)
    (hnodup : (t.peerList.map PeerInfo.addr).Nodup)
    (hover : ∀ q ∈ t.peerList, q.notConnected = true → phase' q.addr = .ended)
    (hload : ∀ j ph, ph ≠ .ended → s.load phase ph j ≤ t.load phase' ph j) :
    t.Accounts phase' := by
  refine ⟨hnodup, hover, fun j srv hsrv ph => ?_⟩
  have hsame : (s.serversList.map ServerInfo.counter)[j]? = some srv.counter := by
    rw [← hcounters, List.getElem?_map, hsrv]
    rfl
  rw [List.getElem?_map, Option.map_eq_some_iff] at hsame
  obtain ⟨old, hold, hcounter⟩ := hsame
  have hbound := h.bounded j old hold ph
  rw [hcounter] at hbound
  by_cases hph : ph = .ended
  · subst hph
    exact ⟨hbound.1, Int.natCast_nonneg _⟩
  · have hle := hload j ph hph
    omega

/-- One connection goes from a phase to another one, on the account of the server `dst`. -/
theorem move (h : s.Accounts phase) {phase' : Ptr → Phase} (old new : Phase) (dst : Option Nat)
    (f : ServerInfo → ServerInfo)
    (hservers : t.serversList = (dst.elim s.serversList fun i => s.serversList.modify i f))
    (hnodup : (t.peerList.map PeerInfo.addr).Nodup)
    (hover : ∀ q ∈ t.peerList, q.notConnected = true → phase' q.addr = .ended)
    (hold : ∀ j ph, ph ≠ .ended → dst = some j ∧ old = ph → 1 ≤ s.load phase ph j)
    (hload : ∀ j ph, ph ≠ .ended →
      t.load phase' ph j + (if dst = some j ∧ old = ph then 1 else 0) =
        s.load phase ph j + if dst = some j ∧ new = ph then 1 else 0)
    (hf : Moved old new f) : t.Accounts phase' := by
  refine ⟨hnodup, hover, fun j srv hsrv ph => ?_⟩
  by_cases hph : ph = .ended
  · subst hph
    exact ⟨Int.le_refl _, Int.natCast_nonneg _⟩
  · have hj := hload j ph hph
    have hj' := hold j ph hph
    rw [hservers] at hsrv
    rcases getElem?_elim_modify_cases hsrv with ⟨rfl, before, hbefore, rfl⟩ | ⟨hdst, hsrv⟩
    · simp only [true_and] at hj hj'
      have hbound := h.bounded j before hbefore ph
      have hmove := hf before ph hph hbound.1
      by_cases ho : old = ph
      · have hone := hj' ho
        rw [if_pos ho] at hj hmove
        split_ifs at hj hmove <;> omega
      · rw [if_neg ho] at hj hmove
        split_ifs at hj hmove <;> omega
    · have hbound := h.bounded j srv hsrv ph
      simp only [hdst, false_and, if_false] at hj
      omega

/-! ## Messages -/

theorem load_recordMessage (s : ServerList) (index : Nat) (pinfo : PeerInfo) (id : UInt32)
    (now : Datetime) (phase : Ptr → Phase) (ph : Phase) (j : Nat) :
    (s.recordMessage index pinfo id now).load phase ph j = s.load phase ph j := by
  apply load_congr (sameConfig_recordMessage s _ _ _ _)
  rw [peerList_recordMessage]
  split
  · rfl
  · exact map_modify (by intro q; rfl) _ _

theorem addr_recordMessage (s : ServerList) (index : Nat) (pinfo : PeerInfo) (id : UInt32)
    (now : Datetime) :
    (s.recordMessage index pinfo id now).peerList.map PeerInfo.addr =
      s.peerList.map PeerInfo.addr := by
  rw [peerList_recordMessage]
  split
  · rfl
  · exact map_modify (by intro q; rfl) _ _

theorem record (h : s.Accounts phase) (hid : id ∈ postedIds) (hr : report id = none)
    (index : Nat) (pinfo : PeerInfo) (now : Datetime) :
    ((s.recordMessage index pinfo id now).countMessage index pinfo id now).Accounts phase := by
  rw [countMessage_of_none hid hr]
  refine h.of_counters (by rw [serversList_recordMessage])
    (by rw [addr_recordMessage]; exact h.nodup) ?_
    fun j ph _ => Nat.le_of_eq (load_recordMessage s _ _ _ _ _ _ _).symm
  rw [peerList_recordMessage]
  split
  · exact h.ended
  · apply forall_mem_modify h.ended
    intro q hq hstatus
    simp [notConnected_setStatus hid, hr] at hstatus

theorem ended_recordMessage (h : s.Accounts phase) (hq : s.peerList[index]? = some pinfo)
    (hr : ConnectionPeer.report id = some r)
    (hmem : q ∈ (s.recordMessage index pinfo id now).peerList) (hstatus : q.notConnected = true) :
    Function.update phase pinfo.addr r.next q.addr = .ended := by
  rw [peerList_recordMessage_of_report hr] at hmem
  rcases mem_modify hmem with hmem | ⟨p, hp, rfl⟩
  · rw [Function.update_of_ne (key_ne_of_mem_eraseIdx h.nodup hq hmem)]
    exact h.ended q (List.mem_of_mem_eraseIdx hmem) hstatus
  · obtain rfl : p = pinfo := Option.some.inj (hp.symm.trans hq)
    rw [notConnected_setStatus (ConnectionPeer.posted_of_report hr), hr] at hstatus
    change Function.update phase p.addr r.next p.addr = .ended
    rw [Function.update_self]
    rcases hstatus with hstatus | hstatus
    · rw [Option.some.inj hstatus]
      rfl
    · rw [Option.some.inj hstatus]
      rfl

theorem load_endConnection (hindex : s.peerList[index]?.map PeerInfo.addr = some pinfo.addr)
    (hph : ph ≠ .ended) (id : UInt32) (now : Datetime) (j : Nat) :
    (s.endConnection index pinfo id now).load (Function.update phase pinfo.addr .ended) ph j =
      s.load (Function.update phase pinfo.addr .ended) ph j := by
  have hconfig := sameConfig_endConnection s index pinfo id now
  obtain ⟨hpeers, -⟩ := endConnection_spec s index pinfo id now
  split at hpeers
  · obtain ⟨p, hp, haddr⟩ := Option.map_eq_some_iff.mp hindex
    have hgone : s.share (Function.update phase pinfo.addr .ended) ph j p = 0 := by
      rw [share, haddr, Function.update_self, if_neg fun hc => hph hc.2.symm]
    rw [← load_eraseIdx hconfig hp hpeers, hgone, Nat.add_zero]
  · exact load_congr hconfig (by rw [hpeers])

/-- A report moves its entry to the next phase. -/
theorem report (h : s.Accounts phase) (hq : s.peerList[index]? = some pinfo)
    (hr : ConnectionPeer.report id = some r) (hphase : r = .ended ↔ phase pinfo.addr ≠ .connecting)
    (now : Datetime) :
    ((s.recordMessage index pinfo id now).countMessage index pinfo id now).Accounts
      (Function.update phase pinfo.addr r.next) := by
  have hconfig := sameConfig_recordMessage s index pinfo id now
  have hservers := serversList_recordMessage s index pinfo id now
  have hnodup : ((s.recordMessage index pinfo id now).peerList.map PeerInfo.addr).Nodup := by
    rw [addr_recordMessage]
    exact h.nodup
  have hover : ∀ q ∈ (s.recordMessage index pinfo id now).peerList, q.notConnected = true →
      Function.update phase pinfo.addr r.next q.addr = .ended :=
    fun q hmem hstatus => h.ended_recordMessage hq hr hmem hstatus
  have hload : ∀ j ph, (s.recordMessage index pinfo id now).load
      (Function.update phase pinfo.addr r.next) ph j + s.share phase ph j pinfo =
        s.load phase ph j + if s.dstServer pinfo = some j ∧ r.next = ph then 1 else 0 := by
    intro j ph
    rw [load_recordMessage, load_update h.nodup hq, share_update_self]
  have hold : ∀ j ph, ph ≠ .ended → s.dstServer pinfo = some j ∧ phase pinfo.addr = ph →
      1 ≤ s.load phase ph j := by
    intro j ph _ hj
    have hshare : s.share phase ph j pinfo = 1 := if_pos hj
    exact hshare ▸ share_le hq
  have hindex : (s.recordMessage index pinfo id now).peerList[index]?.map PeerInfo.addr =
      some pinfo.addr := by
    rw [← List.getElem?_map, addr_recordMessage, List.getElem?_map, hq]
    rfl
  generalize s.recordMessage index pinfo id now = u at hconfig hservers hnodup hover hload hindex ⊢
  have hdst := hconfig.dstServer pinfo
  by_cases hest : r = .established
  · subst hest
    have hbefore : phase pinfo.addr = .connecting := by
      by_contra hne
      cases hphase.mpr hne
    rw [countMessage_of_established hr]
    obtain ⟨hpeers, hafter⟩ := establishConnection_spec u pinfo now
    rw [hdst, hservers] at hafter
    refine h.move (phase pinfo.addr) .established _ (establishedServer · now) hafter
      (hpeers ▸ hnodup) (hpeers ▸ hover) hold ?_ (hbefore ▸ moved_establishedServer now)
    intro j ph _
    rw [load_congr (sameConfig_establishConnection u pinfo now) (by rw [hpeers])]
    exact hload j ph
  · have hnext : r.next = .ended := by cases r <;> trivial
    have hrest := sublist_countMessage u index pinfo id now
    rw [countMessage_of_end (ConnectionPeer.failed_or_ended hr hest)] at hrest ⊢
    rw [hnext] at hload hover ⊢
    obtain ⟨-, hafter⟩ := endConnection_spec u index pinfo id now
    rw [hdst, hservers] at hafter
    refine h.move (phase pinfo.addr) .ended _ (endedServer · id (u.removes index pinfo) now) hafter
      (hnodup.sublist (hrest.map _)) (fun q hmem => hover q (hrest.mem hmem)) hold ?_
      (moved_endedServer hr hnext hphase _ now)
    intro j ph hph
    rw [load_endConnection hindex hph]
    exact hload j ph

theorem processMessage (h : s.Accounts phase) {msg : Message} (hid : msg.id ∈ postedIds)
    (hphase : ∀ r, ConnectionPeer.report msg.id = some r →
      (r = .ended ↔ phase msg.param ≠ .connecting)) (now : Datetime) :
    (s.processMessage msg now).Accounts
      (match ConnectionPeer.report msg.id with
        | some r => Function.update phase msg.param r.next
        | none => phase) := by
  rcases processMessage_cases s msg now with ⟨hmissing, hsame⟩ | ⟨index, pinfo, hq, haddr, hmsg⟩
  · rw [hsame]
    cases ConnectionPeer.report msg.id with
    | none => exact h
    | some r =>
        refine h.of_counters rfl h.nodup ?_ fun j ph _ =>
          Nat.le_of_eq (load_update_fresh hmissing).symm
        intro q hq hstatus
        dsimp only
        rw [Function.update_of_ne (hmissing q hq)]
        exact h.ended q hq hstatus
  · rw [hmsg]
    cases hr : ConnectionPeer.report msg.id with
    | none => exact h.record hid hr index pinfo now
    | some r =>
        dsimp only
        rw [← haddr]
        exact h.report hq hr (haddr ▸ hphase r hr) now

/-! ## Tasks -/

theorem cleanConnections (h : s.Accounts phase) : s.cleanConnections.Accounts phase := by
  have hpeers := peerList_cleanConnections s
  refine h.of_counters (map_cleanConnections ServerInfo.counter_clean s) ?_ ?_ ?_
  · rw [hpeers]
    exact h.nodup.sublist (List.filter_sublist.map _)
  · intro q hq
    rw [hpeers] at hq
    exact h.ended q (List.mem_of_mem_filter hq)
  · intro j ph hph
    refine Nat.le_of_eq (load_filter (sameConfig_cleanConnections s) hpeers ?_).symm
    intro q hq hgone heq
    exact hph (heq.symm.trans (h.ended q hq (by simpa using hgone)))

theorem purgeConnections (h : s.Accounts phase) (now : Datetime) :
    (s.purgeConnections now).Accounts phase := by
  have hpeers := peerList_purgeConnections s now
  refine h.of_counters (by rw [serversList_purgeConnections]) (hpeers ▸ h.nodup)
    (hpeers ▸ h.ended) fun j ph _ => ?_
  exact Nat.le_of_eq (load_congr (sameConfig_purgeConnections s now) (by rw [hpeers])).symm

/-! ## Assignments -/

/-- A connecting entry takes a place; only ended ones make room for it. -/
theorem enter (h : s.Accounts phase) {keep : PeerInfo → Bool} {f : ServerInfo → ServerInfo}
    (hconfig : s.SameConfig t) (hservers : t.serversList = s.serversList.modify i f)
    (hpeers : t.peerList = s.peerList.filter keep ++ [q])
    (hkeep : ∀ x ∈ s.peerList, keep x = false → x.notConnected = true)
    (hnodup : (t.peerList.map PeerInfo.addr).Nodup)
    (hfresh : ∀ x ∈ s.peerList, x.addr ≠ q.addr) (hstatus : q.notConnected = false)
    (hdst : s.dstServer q = some i) (hf : Moved .ended .connecting f) :
    t.Accounts (Function.update phase q.addr .connecting) := by
  refine h.move .ended .connecting (some i) f hservers hnodup ?_ ?_ ?_ hf
  · intro x hx hover
    rw [hpeers, List.mem_append, List.mem_singleton] at hx
    rcases hx with hx | rfl
    · have hmem := List.mem_of_mem_filter hx
      rw [Function.update_of_ne (hfresh x hmem)]
      exact h.ended x hmem hover
    · rw [hstatus] at hover
      cases hover
  · rintro j ph hph ⟨-, rfl⟩
    exact absurd rfl hph
  · intro j ph hph
    have hsame : s.SameConfig (s.filterPeers keep) := .of_eq rfl rfl rfl
    have hrest : (s.filterPeers keep).load (Function.update phase q.addr .connecting) ph j =
        s.load phase ph j := by
      rw [load_filter hsame rfl, load_update_fresh hfresh]
      intro x hx hgone
      rw [Function.update_of_ne (hfresh x hx), h.ended x hx (hkeep x hx hgone)]
      exact Ne.symm hph
    have hnew : (s.filterPeers keep).SameConfig t := ⟨hconfig.filterList, hconfig.addresses,
      hconfig.reconnect⟩
    rw [load_append hnew hpeers, hrest, share_update_self, hsame.dstServer, hdst]
    have hended : ¬(some i = some j ∧ Phase.ended = ph) := fun hc => hph hc.2.symm
    rw [if_neg hended, Nat.add_zero]

end Accounts

/-- The server on whose account an assignment goes is the one that its messages are counted
for. -/
def CountedRight (s : ServerList) (clientIp : IpAddress) (clientPort : UInt16) (now : Datetime) :
    Prop :=
  ∀ i dst, s.assignment clientIp clientPort now = some (i, dst) →
    (s.serversList.map ServerInfo.address).findIdx? (· == dst) = some i

namespace Accounts

variable {clientIp : IpAddress} {clientPort : UInt16} {pcm : Option ManagerId}
  {addr parallelAddr : Ptr}

theorem newPeer_enters (pcm : Option ManagerId) (parallelAddr : Ptr)
    (hright : s.CountedRight clientIp clientPort now)
    (hfresh : ∀ q ∈ s.peerList, q.addr ≠ addr) {dstIp : IpAddress} {dstPort : UInt16}
    (hassign : s.assignment clientIp clientPort now = some (i, dstIp, dstPort)) :
    (∀ x ∈ s.peerList, x.addr ≠ (s.withParallel (newPeer clientIp clientPort dstIp dstPort pcm now
      addr) parallelAddr).addr) ∧
    (s.withParallel (newPeer clientIp clientPort dstIp dstPort pcm now addr)
      parallelAddr).notConnected = false ∧
    s.dstServer (s.withParallel (newPeer clientIp clientPort dstIp dstPort pcm now addr)
      parallelAddr) = some i := by
  refine ⟨fun x hx => ?_, ?_, ?_⟩
  · rw [addr_withParallel]
    exact hfresh x hx
  · simp
  · rw [dstServer_of_route (route_withParallel s _ _), dstServer_eq]
    exact hright _ _ hassign

/-- An entry of an ended connection is armed again, and counted for its server. -/
theorem rearm (h : s.Accounts phase) {peer server : Nat} {p : PeerInfo}
    (hp : s.peerList[peer]? = some p) (hphase : phase p.addr = .ended)
    (hdst : s.dstServer p = some server)
    (hconfig : s.SameConfig (s.afterReuse peer server p clientPort pcm now))
    (hnodup : ((s.afterReuse peer server p clientPort pcm now).peerList.map PeerInfo.addr).Nodup) :
    (s.afterReuse peer server p clientPort pcm now).Accounts
      (Function.update phase p.addr .connecting) := by
  have hpeers := peerList_afterReuse s peer server p clientPort pcm now
  refine h.move .ended .connecting (some server) ServerInfo.startConnecting
    (serversList_afterReuse s peer server p clientPort pcm now) hnodup ?_ ?_ ?_
    moved_startConnecting
  · intro q hq hover
    rw [hpeers] at hq
    rcases mem_modify hq with hq | ⟨b, hb, rfl⟩
    · have hne := key_ne_of_mem_eraseIdx h.nodup hp hq
      rw [Function.update_of_ne hne]
      exact h.ended q (List.mem_of_mem_eraseIdx hq) hover
    · simp at hover
  · rintro j ph hph ⟨-, rfl⟩
    exact absurd rfl hph
  · intro j ph hph
    have hload : s.load (Function.update phase p.addr .connecting) ph j +
        s.share phase ph j p = s.load phase ph j +
          s.share (Function.update phase p.addr .connecting) ph j p := load_update h.nodup hp
    have hended : s.share phase ph j p = 0 := by
      rw [share, hphase, if_neg fun hc => hph hc.2.symm]
    rw [share_update_self, hended, hdst, Nat.add_zero] at hload
    have hnone : ¬(some server = some j ∧ Phase.ended = ph) := fun hc => hph hc.2.symm
    rw [if_neg hnone, Nat.add_zero, ← hload]
    apply load_congr hconfig
    rw [hpeers]
    exact map_modify (by intro q; rfl) _ _

theorem outcome (h : s.Accounts phase) {o : ServerList × Option PeerInfo}
    (ho : s.Outcome clientIp clientPort pcm now addr parallelAddr o)
    (hright : s.CountedRight clientIp clientPort now)
    (hfresh : ∀ q ∈ s.peerList, q.addr ≠ addr)
    (hended : ∀ q, o.2 = some q → q.addr ∈ s.peerList.map PeerInfo.addr → phase q.addr = .ended) :
    o.1.Accounts (match o.2 with
      | some q => Function.update phase q.addr .connecting
      | none => phase) := by
  have hconfig := ho.sameConfig
  have hnodup := ho.nodup h.nodup hfresh
  cases ho with
  | refused last hnone hassign => exact ⟨h.nodup, h.ended, h.bounded⟩
  | @reused peer server p hvalid hport hreused hassign =>
      have hlisted : p.addr ∈ s.peerList.map PeerInfo.addr :=
        List.mem_map_of_mem (List.mem_of_getElem? hvalid.found)
      have hdst : s.dstServer p = some server := by
        rw [dstServer_eq]
        exact hright _ _ hassign
      exact h.rearm hvalid.found (hended (p.rearm clientPort pcm now) rfl hlisted) hdst hconfig
        hnodup
  | @recreated peer server p hvalid hassign =>
      obtain ⟨hnew, hstatus, hdst⟩ := newPeer_enters pcm parallelAddr hright hfresh hassign
      refine h.enter hconfig (serversList_afterRecreation s server clientIp _ parallelAddr)
        (peerList_afterRecreation s server clientIp _ parallelAddr) ?_ hnodup hnew hstatus hdst ?_
      · intro x hx hgone
        simp only [isLostOf, Bool.not_eq_false', Bool.and_eq_true] at hgone
        exact hgone.2
      · intro srv ph hph hc
        rw [counter_recreatedServer]
        exact moved_startConnecting srv ph hph hc
  | @assigned last srv hnone hsrv hallowed hassign =>
      obtain ⟨hnew, hstatus, hdst⟩ := newPeer_enters pcm parallelAddr hright hfresh hassign
      have hpeers := peerList_afterAssignment s last
        (newPeer clientIp clientPort srv.ip srv.port pcm now addr) parallelAddr
      rw [← List.filter_true s.peerList] at hpeers
      refine h.enter hconfig (serversList_afterAssignment s last _ parallelAddr) hpeers ?_ hnodup
        hnew hstatus hdst moved_startConnecting
      exact fun x hx hgone => (nomatch hgone)

end Accounts

end ServerList

end Relb
