import Relb.Proofs.Assignment
import Relb.Proofs.Messages
/-!
# Which entries are forgotten

`ServerList` with the history of its entries: when `getServer` returned one, and when a
message for it was processed. A listed entry shows a status of an end only after such a
message, until it is armed again; so an entry that goes has ended.
-/

namespace Relb

open Lib

open ConnectionPeer (report)

inductive Happened
  | returned (addr : Ptr)
  | processed (msg : Message)
  deriving DecidableEq

structure Chronicle where
  list : ServerList
  history : List Happened

namespace Chronicle

/-- What an operation adds to the history. -/
def news (s : ServerList) : ServerList.Op → List Happened
  | .getServer clientIp clientPort pcm now addr parallelAddr =>
      (s.getServer clientIp clientPort pcm now addr parallelAddr).2.toList.map (.returned ·.addr)
  | .processMessage msg _ => [.processed msg]
  | .cleanConnections => []
  | .purgeConnections _ => []

def perform (c : Chronicle) (op : ServerList.Op) : Chronicle :=
  ⟨c.list.perform op, c.history ++ news c.list op⟩

def Started (c : Chronicle) : Prop := ServerList.Configured c.list ∧ c.history = []

/-- `new` returns an address that no listed entry has, and the messages are those that the
program posts. -/
def Promised (c : Chronicle) : ServerList.Op → Prop
  | .getServer _ _ _ _ addr _ => ∀ q ∈ c.list.peerList, q.addr ≠ addr
  | .processMessage msg _ => msg.id ∈ postedIds
  | .cleanConnections => True
  | .purgeConnections _ => True

/-- The states of the runs whose steps all meet `guard`. -/
def ReachableBy (guard : Chronicle → ServerList.Op → Prop) : Chronicle → Prop :=
  Reach (fun c op c' => c.perform op = c') guard Started

def endIds : List UInt32 :=
  [statusConnectionFailed, statusServerConnectionLost, statusClientConnectionLost,
    statusServerDisconnectedOk, statusClientDisconnectedOk]

/-- An end has been processed for the entry since the last call that returned it. -/
def EndedSince (history : List Happened) (p : Ptr) : Prop :=
  ∃ before msg after, history = before ++ .processed msg :: after ∧ msg.param = p ∧
    msg.id ∈ endIds ∧ .returned p ∉ after

variable {c : Chronicle} {history new : List Happened} {p : Ptr} {msg : Message}

theorem EndedSince.append (h : EndedSince history p) (hnew : .returned p ∉ new) :
    EndedSince (history ++ new) p := by
  obtain ⟨before, msg, after, rfl, hparam, hid, hafter⟩ := h
  refine ⟨before, msg, after ++ new, by simp, hparam, hid, fun hmem => ?_⟩
  rcases List.mem_append.mp hmem with hmem | hmem
  · exact hafter hmem
  · exact hnew hmem

theorem endedSince_processed (hid : msg.id ∈ endIds) :
    EndedSince (history ++ [.processed msg]) msg.param :=
  ⟨history, msg, [], rfl, rfl, hid, by simp⟩

theorem mem_endIds_iff {id : UInt32} (hid : id ∈ postedIds) :
    id ∈ endIds ↔ report id = some .failed ∨ report id = some .ended := by
  have hall : ∀ id ∈ postedIds, id ∈ endIds ↔ report id = some .failed ∨ report id = some .ended :=
    List.all_iff_forall_prop.mp (by decide)
  exact hall id hid

end Chronicle

namespace ServerList

variable {s : ServerList} {q x pinfo : PeerInfo} {clientIp : IpAddress} {clientPort : UInt16}
  {pcm : Option ManagerId} {now : Datetime} {addr parallelAddr : Ptr} {id : UInt32} {index : Nat}
  {r : ServerList × Option PeerInfo}

/-! ## The directory after a call -/

/-- Some entries have gone, the others are in the order of before, and at most one has come. -/
def InOrder (s t : ServerList) : Prop :=
  ∃ kept new, t.peerList.map PeerInfo.addr = kept ++ new ∧
    kept.Sublist (s.peerList.map PeerInfo.addr) ∧ new.length ≤ 1 ∧
    ∀ p ∈ new, p ∉ s.peerList.map PeerInfo.addr

theorem InOrder.of_sublist {t : ServerList}
    (h : (t.peerList.map PeerInfo.addr).Sublist (s.peerList.map PeerInfo.addr)) : s.InOrder t :=
  ⟨_, [], (List.append_nil _).symm, h, Nat.zero_le 1, by simp⟩

theorem InOrder.of_append {t : ServerList} {l : List PeerInfo} (ht : t.peerList = l ++ [q])
    (hl : l.Sublist s.peerList) (hq : ∀ x ∈ s.peerList, x.addr ≠ q.addr) : s.InOrder t := by
  refine ⟨l.map PeerInfo.addr, [q.addr], by simp [ht], hl.map _, Nat.le_refl 1, ?_⟩
  intro p hp hmem
  rw [List.mem_singleton] at hp
  obtain ⟨x, hx, hpx⟩ := List.mem_map.mp hmem
  exact hq x hx (hpx.trans hp)

theorem Outcome.inOrder (h : s.Outcome clientIp clientPort pcm now addr parallelAddr r)
    (hfresh : ∀ q ∈ s.peerList, q.addr ≠ addr) : s.InOrder r.1 := by
  cases h with
  | refused last hnone hassign => exact .of_sublist (List.Sublist.refl _)
  | reused hvalid hport hreused hassign =>
      apply InOrder.of_sublist
      rw [peerList_afterReuse, map_modify (by intro q; rfl)]
  | recreated hvalid hassign =>
      refine .of_append (peerList_afterRecreation ..) List.filter_sublist fun x hx => ?_
      rw [addr_withParallel]
      exact hfresh x hx
  | assigned hnone hsrv hallowed hassign =>
      refine .of_append (peerList_afterAssignment ..) (List.Sublist.refl _) fun x hx => ?_
      rw [addr_withParallel]
      exact hfresh x hx

/-- An entry that shows an end after a call was there before, and the call did not return it. -/
theorem Outcome.of_notConnected (h : s.Outcome clientIp clientPort pcm now addr parallelAddr r)
    (hnodup : (s.peerList.map PeerInfo.addr).Nodup) (hfresh : ∀ q ∈ s.peerList, q.addr ≠ addr)
    (hx : x ∈ r.1.peerList) (hended : x.notConnected = true) :
    x ∈ s.peerList ∧ ∀ q, r.2 = some q → q.addr ≠ x.addr := by
  have hnew : ∀ dstIp dstPort, (s.withParallel (newPeer clientIp clientPort dstIp dstPort pcm now
      addr) parallelAddr).notConnected = false := by simp
  cases h with
  | refused last hnone hassign => exact ⟨hx, fun q hq => nomatch hq⟩
  | @reused peer server old hvalid hport hreused hassign =>
      rw [peerList_afterReuse] at hx
      rcases mem_modify hx with hx | ⟨y, hy, rfl⟩
      · refine ⟨List.mem_of_mem_eraseIdx hx, fun q hq => ?_⟩
        obtain rfl := Option.some.inj hq
        exact (key_ne_of_mem_eraseIdx hnodup hvalid.found hx).symm
      · simp at hended
  | recreated hvalid hassign =>
      rw [peerList_afterRecreation, List.mem_append, List.mem_singleton] at hx
      rcases hx with hx | rfl
      · refine ⟨List.mem_of_mem_filter hx, fun q hq => ?_⟩
        obtain rfl := Option.some.inj hq
        rw [addr_withParallel]
        exact (hfresh x (List.mem_of_mem_filter hx)).symm
      · rw [hnew] at hended
        cases hended
  | assigned hnone hsrv hallowed hassign =>
      rw [peerList_afterAssignment, List.mem_append, List.mem_singleton] at hx
      rcases hx with hx | rfl
      · refine ⟨hx, fun q hq => ?_⟩
        obtain rfl := Option.some.inj hq
        rw [addr_withParallel]
        exact (hfresh x hx).symm
      · rw [hnew] at hended
        cases hended

theorem Outcome.kept (h : s.Outcome clientIp clientPort pcm now addr parallelAddr r)
    (hx : x ∈ s.peerList) :
    (∃ y ∈ r.1.peerList, y.addr = x.addr) ∨
      x.notConnected = true ∧ ∀ q, r.2 = some q → q.addr = addr := by
  cases h with
  | refused last hnone hassign => exact .inl ⟨x, hx, rfl⟩
  | @reused peer server old hvalid hport hreused hassign =>
      left
      rw [peerList_afterReuse]
      have hmem : x.addr ∈ (s.peerList.modify peer (·.rearm clientPort pcm now)).map
          PeerInfo.addr := by
        rw [map_modify (by intro q; rfl)]
        exact List.mem_map_of_mem hx
      exact List.mem_map.mp hmem
  | recreated hvalid hassign =>
      rw [peerList_afterRecreation]
      by_cases hlost : isLostOf clientIp x = true
      · refine .inr ⟨(Bool.and_eq_true_iff.mp hlost).2, fun q hq => ?_⟩
        obtain rfl := Option.some.inj hq
        exact addr_withParallel _ _ _
      · exact .inl ⟨x, List.mem_append_left _ (List.mem_filter.mpr ⟨hx, by simpa using hlost⟩), rfl⟩
  | assigned hnone hsrv hallowed hassign =>
      rw [peerList_afterAssignment]
      exact .inl ⟨x, List.mem_append_left _ hx, rfl⟩

theorem peerList_countMessage_of_not_end (hid : id ∈ postedIds)
    (h : ¬(report id = some .failed ∨ report id = some .ended)) :
    (s.countMessage index pinfo id now).peerList = s.peerList := by
  cases hr : report id with
  | none => rw [countMessage_of_none hid hr]
  | some r =>
      cases r with
      | established =>
          rw [countMessage_of_established hr, (establishConnection_spec s pinfo now).1]
      | failed => exact absurd (.inl hr) h
      | ended => exact absurd (.inr hr) h

theorem inOrder_perform {op : Op}
    (hfresh : ∀ clientIp clientPort pcm now addr parallelAddr,
      op = .getServer clientIp clientPort pcm now addr parallelAddr →
        ∀ q ∈ s.peerList, q.addr ≠ addr) : s.InOrder (s.perform op) := by
  cases op with
  | getServer clientIp clientPort pcm now addr parallelAddr =>
      apply (getServer_outcome s clientIp clientPort pcm now addr parallelAddr).inOrder
      exact hfresh _ _ _ _ _ _ rfl
  | processMessage msg now =>
      apply InOrder.of_sublist
      exact map_processMessage (by intro q status now; rfl) s msg now
  | cleanConnections =>
      apply InOrder.of_sublist
      change (s.cleanConnections.peerList.map PeerInfo.addr).Sublist _
      rw [peerList_cleanConnections]
      exact List.filter_sublist.map _
  | purgeConnections now =>
      apply InOrder.of_sublist
      change ((s.purgeConnections now).peerList.map PeerInfo.addr).Sublist _
      rw [peerList_purgeConnections]

theorem InOrder.nodup {t : ServerList} (h : s.InOrder t)
    (hnodup : (s.peerList.map PeerInfo.addr).Nodup) :
    (t.peerList.map PeerInfo.addr).Nodup := by
  obtain ⟨kept, new, heq, hkept, hlength, hnew⟩ := h
  rw [heq, List.nodup_append]
  refine ⟨hkept.nodup hnodup, List.nodup_iff_count_le_one.mpr fun p => ?_, ?_⟩
  · exact Nat.le_trans List.count_le_length hlength
  · rintro p hp p' hp' rfl
    exact hnew p hp' (hkept.subset hp)

end ServerList

namespace Chronicle

open ServerList

variable {c : Chronicle} {op : ServerList.Op}

/-- An entry that shows an end has ended. -/
structure Truthful (c : Chronicle) : Prop where
  nodup : (c.list.peerList.map PeerInfo.addr).Nodup
  ended : ∀ q ∈ c.list.peerList, q.notConnected = true → EndedSince c.history q.addr

theorem Started.truthful (h : Started c) : c.Truthful := by
  have hnone : c.list.peerList = [] := h.1.fresh.peerList
  exact ⟨by simp [hnone], by simp [hnone]⟩

theorem Promised.inOrder (hop : Promised c op) : c.list.InOrder (c.perform op).list := by
  apply inOrder_perform
  rintro clientIp clientPort pcm now addr parallelAddr rfl
  exact hop

theorem EndedSince.call {r : ServerList × Option PeerInfo} {x : PeerInfo}
    (h : EndedSince c.history x.addr) (hx : ∀ q, r.2 = some q → q.addr ≠ x.addr) :
    EndedSince (c.history ++ r.2.toList.map (.returned ·.addr)) x.addr := by
  apply h.append
  intro hmem
  obtain ⟨q, hq, haddr⟩ := List.mem_map.mp hmem
  exact hx q (Option.mem_toList.mp hq) (Happened.returned.inj haddr)

theorem ended_processMessage (hc : c.Truthful) {msg : Message} {now : Datetime} {q : PeerInfo}
    (hid : msg.id ∈ postedIds) (hq : q ∈ (c.list.processMessage msg now).peerList)
    (hended : q.notConnected = true) :
    EndedSince (c.history ++ [.processed msg]) q.addr := by
  have hold : ∀ x ∈ c.list.peerList, x.notConnected = true →
      EndedSince (c.history ++ [.processed msg]) x.addr :=
    fun x hx hended => (hc.ended x hx hended).append (by simp)
  rcases processMessage_cases c.list msg now with ⟨-, hsame⟩ | ⟨index, pinfo, hget, haddr, hmsg⟩
  · rw [hsame] at hq
    exact hold q hq hended
  · have hrecorded : q ∈ (c.list.recordMessage index pinfo msg.id now).peerList := by
      rw [hmsg] at hq
      exact (sublist_countMessage _ index pinfo msg.id now).mem hq
    rw [peerList_recordMessage] at hrecorded
    split at hrecorded
    · exact hold q hrecorded hended
    · rcases mem_modify hrecorded with hq | ⟨x, hx, rfl⟩
      · exact hold q (List.mem_of_mem_eraseIdx hq) hended
      · obtain rfl := Option.some.inj (hget.symm.trans hx)
        have hend := (mem_endIds_iff hid).mpr ((notConnected_setStatus hid).mp hended)
        change EndedSince _ pinfo.addr
        rw [haddr]
        exact endedSince_processed hend

theorem Truthful.perform (hc : c.Truthful) (hop : Promised c op) : (c.perform op).Truthful := by
  refine ⟨hop.inOrder.nodup hc.nodup, fun q hq hended => ?_⟩
  cases op with
  | getServer clientIp clientPort pcm now addr parallelAddr =>
      have hcall := getServer_outcome c.list clientIp clientPort pcm now addr parallelAddr
      obtain ⟨hbefore, hother⟩ := hcall.of_notConnected hc.nodup hop hq hended
      exact (hc.ended q hbefore hended).call hother
  | processMessage msg now => exact ended_processMessage hc hop hq hended
  | cleanConnections =>
      change q ∈ c.list.cleanConnections.peerList at hq
      rw [peerList_cleanConnections] at hq
      exact (hc.ended q (List.mem_of_mem_filter hq) hended).append (by simp [news])
  | purgeConnections now =>
      change q ∈ (c.list.purgeConnections now).peerList at hq
      rw [peerList_purgeConnections] at hq
      exact (hc.ended q hq hended).append (by simp [news])

theorem ReachableBy.truthful (hc : ReachableBy Promised c) : c.Truthful := by
  refine Reach.invariant (I := Truthful) (fun c h => h.truthful) ?_ hc
  intro c op c' ih hop hstep
  rw [← hstep]
  exact ih.perform hop

/-- A message drops no entry but its own, and that one only when it ends it. -/
theorem kept_processMessage {msg : Message} {now : Datetime} {q : PeerInfo}
    (hid : msg.id ∈ postedIds) (hq : q ∈ c.list.peerList) :
    (∃ x ∈ (c.list.processMessage msg now).peerList, x.addr = q.addr) ∨
      EndedSince (c.history ++ [.processed msg]) q.addr := by
  rcases processMessage_cases c.list msg now with ⟨-, hsame⟩ | ⟨index, pinfo, hget, haddr, hmsg⟩
  · exact .inl ⟨q, by rwa [hsame], rfl⟩
  · have hmap : (c.list.recordMessage index pinfo msg.id now).peerList.map PeerInfo.addr =
        c.list.peerList.map PeerInfo.addr := by
      rw [peerList_recordMessage]
      split
      · rfl
      · exact map_modify (by intro q; rfl) _ _
    have hlisted : q.addr ∈ c.list.peerList.map PeerInfo.addr := List.mem_map_of_mem hq
    by_cases hend : msg.id ∈ endIds
    · by_cases hown : q.addr = msg.param
      · right
        rw [hown]
        exact endedSince_processed hend
      · left
        apply List.mem_map.mp
        rw [hmsg]
        rcases peerList_countMessage (c.list.recordMessage index pinfo msg.id now) index pinfo
          msg.id now with hcount | hcount
        · rwa [hcount, hmap]
        · rw [hcount, ← List.eraseIdx_map, hmap, List.mem_eraseIdx_iff_getElem?]
          obtain ⟨n, hn⟩ := List.mem_iff_getElem?.mp hlisted
          refine ⟨n, ?_, hn⟩
          rintro rfl
          rw [List.getElem?_map, hget] at hn
          exact hown ((Option.some.inj hn).symm.trans haddr)
    · left
      rw [mem_endIds_iff hid] at hend
      apply List.mem_map.mp
      rwa [hmsg, peerList_countMessage_of_not_end hid hend, hmap]

/-- An entry stays in the directory until it has ended since the last call that returned it,
and those that stay are in the order of before. -/
theorem live_retained (hc : ReachableBy Promised c) (hop : Promised c op) :
    (∀ q ∈ c.list.peerList, (∃ x ∈ (c.perform op).list.peerList, x.addr = q.addr) ∨
        EndedSince (c.perform op).history q.addr) ∧
      c.list.InOrder (c.perform op).list := by
  refine ⟨fun q hq => ?_, hop.inOrder⟩
  cases op with
  | getServer clientIp clientPort pcm now addr parallelAddr =>
      have hcall := getServer_outcome c.list clientIp clientPort pcm now addr parallelAddr
      rcases hcall.kept hq with hkept | ⟨hended, hnew⟩
      · exact .inl hkept
      · right
        refine (hc.truthful.ended q hq hended).call fun x hx => ?_
        rw [hnew x hx]
        exact (hop q hq).symm
  | processMessage msg now => exact kept_processMessage hop hq
  | cleanConnections =>
      cases hended : q.notConnected with
      | false =>
          left
          change ∃ x ∈ c.list.cleanConnections.peerList, x.addr = q.addr
          rw [peerList_cleanConnections]
          exact ⟨q, List.mem_filter.mpr ⟨hq, by simp [hended]⟩, rfl⟩
      | true => exact .inr ((hc.truthful.ended q hq hended).append (by simp [news]))
  | purgeConnections now =>
      left
      change ∃ x ∈ (c.list.purgeConnections now).peerList, x.addr = q.addr
      rw [peerList_purgeConnections]
      exact ⟨q, hq, rfl⟩

namespace Sample

def started : Chronicle := ⟨ServerList.Sample.twoServers, []⟩

def ended : Chronicle :=
  (started.perform ServerList.Sample.connect).perform
    (.processMessage ⟨statusClientDisconnectedOk, 100⟩ 20)

theorem reachable_ended : ReachableBy Promised ended := by
  have hstarted : ReachableBy Promised started :=
    .start ⟨ServerList.Sample.configured_twoServers, rfl⟩
  have hconnected : ReachableBy Promised (started.perform ServerList.Sample.connect) :=
    hstarted.next (a := ServerList.Sample.connect) (fun q hq => absurd hq List.not_mem_nil) rfl
  exact hconnected.next (a := .processMessage ⟨statusClientDisconnectedOk, 100⟩ 20)
    (by change statusClientDisconnectedOk ∈ postedIds; decide) rfl

end Sample

theorem live_retained_cleaned :
    (Sample.ended.perform .cleanConnections).list.peerList = [] ∧
      (∀ q ∈ Sample.ended.list.peerList,
        (∃ x ∈ (Sample.ended.perform .cleanConnections).list.peerList, x.addr = q.addr) ∨
          EndedSince (Sample.ended.perform .cleanConnections).history q.addr) ∧
      Sample.ended.list.InOrder (Sample.ended.perform .cleanConnections).list :=
  ⟨by decide +kernel, live_retained Sample.reachable_ended trivial⟩

end Chronicle

end Relb
