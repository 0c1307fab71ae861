import Relb.Model.ThreadedConnectionManager
import Relb.Proofs.Lifecycle
/-!
# A peer in the hands of a manager

A manager may report more about a peer than its lifecycle allows, but only ends, and only
after a first report: a refused peer has failed first, a peer under way was established
first. `Extends` says what an operation adds to the messages of a peer.
-/

namespace Relb

open Lib

namespace ConnectionPeer

variable {p q r : ConnectionPeer} {e : Endpoint} {io : SocketIO} {setr setw : FdSet} {id : UInt32}

/-! ## What an operation posts -/

/-- `q` is `p` some messages later. -/
structure Extends (p q : ConnectionPeer) : Prop where
  pjq : q.pjq = p.pjq
  pinfo : q.pinfo = p.pinfo
  posted : ∃ new, q.posted = p.posted ++ new ∧ ∀ id ∈ new, id ∈ postedIds

namespace Extends

theorem refl (p : ConnectionPeer) : p.Extends p := ⟨rfl, rfl, [], by simp, by simp⟩

theorem trans (h : p.Extends q) (h' : q.Extends r) : p.Extends r := by
  obtain ⟨new, hnew, hknown⟩ := h.posted
  obtain ⟨new', hnew', hknown'⟩ := h'.posted
  refine ⟨h'.pjq.trans h.pjq, h'.pinfo.trans h.pinfo, new ++ new', ?_, ?_⟩
  · rw [hnew', hnew, List.append_assoc]
  · intro id hid
    exact (List.mem_append.mp hid).elim (hknown id) (hknown' id)

theorem of_sameEnds (h : p.SameEnds q) : p.Extends q := ⟨h.pjq, h.pinfo, [], by simp [h.posted],
  by simp⟩

theorem of_closedBy (h : p.ClosedBy e id q) (hid : id ∈ postedIds) : p.Extends q := by
  refine ⟨h.pjq, h.pinfo, if p.pjq ∧ p.pinfo.isSome then [id] else [], ?_, ?_⟩
  · rw [h.posted]
    split <;> simp
  · split <;> simp [hid]

theorem of_post (hid : id ∈ postedIds) : p.Extends (p.post id) := by
  refine ⟨by simp, by simp, if p.pjq ∧ p.pinfo.isSome then [id] else [], ?_, ?_⟩
  · rw [posted_post]
    split <;> simp
  · split <;> simp [hid]

theorem of_close : p.Extends p.close := ⟨by simp, by simp, [], by simp, by simp⟩

theorem of_closeEndpoint : p.Extends (p.closeEndpoint e) :=
  ⟨by simp, by simp, [], by simp, by simp⟩

end Extends

theorem extends_getMissingDataFromClient : p.Extends (p.getMissingDataFromClient io) := by
  by_cases hf : p.ReadFails .client io
  · obtain ⟨id, hid, hq⟩ := getMissingDataFromClient_of_fails hf
    exact .of_closedBy hq (posted_of_report hid)
  · exact .of_sameEnds (getMissingDataFromClient_of_not_fails hf).same

theorem extends_getMissingDataFromServer : p.Extends (p.getMissingDataFromServer io) := by
  by_cases hf : p.ReadFails .server io
  · obtain ⟨id, hid, hq⟩ := getMissingDataFromServer_of_fails hf
    exact .of_closedBy hq (posted_of_report hid)
  · exact .of_sameEnds (getMissingDataFromServer_of_not_fails hf).same

theorem extends_sendMissingDataTo {disconnected lost : UInt32}
    (hdisconnected : disconnected ∈ postedIds) (hlost : lost ∈ postedIds) :
    p.Extends (p.sendMissingDataTo e disconnected lost io) := by
  by_cases hf : p.SendFails e io
  · obtain ⟨id, hid, hq⟩ := sendMissingDataTo_of_fails disconnected lost hf
    exact .of_closedBy hq (by rcases hid with rfl | rfl <;> assumption)
  · by_cases hd : p.Drains e io
    · exact .of_closedBy (sendMissingDataTo_of_drains _ _ hd) (by decide)
    · exact .of_sameEnds (sendMissingDataTo_of_not_fails _ _ hf hd).same

theorem extends_checkEndpoint {lost : UInt32} (hlost : lost ∈ postedIds) :
    p.Extends (p.checkEndpoint e lost io) := by
  by_cases hf : p.CheckFails e io
  · exact .of_closedBy (checkEndpoint_of_fails _ hf) hlost
  · exact .of_sameEnds (checkEndpoint_of_not_fails _ hf).1

theorem kept_extends (p : ConnectionPeer) : Kept p.Extends where
  getMissingDataFromClient _ _ h := h.trans extends_getMissingDataFromClient
  getMissingDataFromServer _ _ h := h.trans extends_getMissingDataFromServer
  sendMissingDataToClient _ _ h := h.trans (extends_sendMissingDataTo (by decide) (by decide))
  sendMissingDataToServer _ _ h := h.trans (extends_sendMissingDataTo (by decide) (by decide))
  checkServer _ _ h := h.trans (extends_checkEndpoint (by decide))
  checkClient _ _ h := h.trans (extends_checkEndpoint (by decide))
  establish q h _ := by
    have hset : q.Extends { q with pServerConnected := true } :=
      ⟨rfl, rfl, [], by simp [ConnectionPeer.posted], by simp⟩
    exact (h.trans hset).trans (.of_post (by decide))
  finish _ _ h _ _ := (h.trans .of_closeEndpoint).trans (.of_post (by decide))

theorem extends_perform (p : ConnectionPeer) (op : Op) : Always p.Extends (p.perform op) := by
  by_cases hop : p.EndsPeer op
  · rcases perform_of_endsPeer hop with hq | ⟨hclient, hq⟩ <;> rw [hq]
    · exact .ok (Extends.of_close.trans (.of_post (by decide)))
    · exact .ok (Extends.of_closeEndpoint.trans (.of_post (by decide)))
  · exact (kept_extends p).perform (.refl p) hop

/-! ## Stages -/

/-- One first report, and then ends only. -/
def ReportsFrom (first : Report) (p : ConnectionPeer) : Prop :=
  ∃ n, p.reports = first :: List.replicate n .ended

theorem ReportsFrom.end {first : Report} (h : p.ReportsFrom first)
    (hq : q.reports = p.reports ++ [.ended]) : q.ReportsFrom first := by
  obtain ⟨n, hn⟩ := h
  refine ⟨n + 1, ?_⟩
  rw [hq, hn, List.replicate_succ', List.cons_append]

/-- Refused before the server was connected, and closed since. -/
structure Gone (p : ConnectionPeer) : Prop where
  attached : p.Attached
  closed : ∀ d, p.socket d = none
  reports : p.ReportsFrom .failed

/-- Established, and perhaps ended since. -/
structure Underway (p : ConnectionPeer) : Prop where
  accounted : p.Accounted
  connected : p.pServerConnected = true
  reports : p.ReportsFrom .established

theorem Refused.gone (h : p.Refused) : p.Gone := ⟨h.attached, h.closed, 0, h.reports⟩

theorem Established.underway (h : p.Established) : p.Underway :=
  ⟨⟨h.attached, .inl h.opened⟩, h.connected, 0, h.reports⟩

/-- Closed without ever having been established. -/
structure Departed (p : ConnectionPeer) : Prop where
  attached : p.Attached
  closed : ∀ d, p.socket d = none
  reports : ∃ first, first ≠ .established ∧ p.ReportsFrom first

theorem closed_close (d : Endpoint) : p.close.socket d = none := by
  have hinactive := p.isActive_close
  rw [isActive_eq_false] at hinactive
  exact hinactive d

theorem closePInfo_self : p.closePInfo p.pinfo = p.close.post statusServerDisconnectedOk :=
  if_pos rfl

theorem closePInfo_other {pcheck : Option Ptr} (h : p.pinfo ≠ pcheck) :
    p.closePInfo pcheck = p := if_neg h.symm

theorem inactive_perform {op : Op} (h : p.isActive = false) (hop : p.perform op = .ok q) :
    q.isActive = false := by
  rcases perform_of_inactive h op with hp | ⟨id, hp⟩
  · exact Except.ok.inj (hop.symm.trans hp) ▸ h
  · rw [Except.ok.inj (hop.symm.trans hp), isActive_post]
    exact h

theorem Gone.closePInfo (h : p.Gone) : (p.closePInfo p.pinfo).Gone := by
  refine ⟨?_, fun d => ?_, h.reports.end (reports_closePInfo h.attached)⟩
  · rw [closePInfo_self]
    exact attached_post (by simpa [Attached] using h.attached)
  · rw [closePInfo_self, socket_post, closed_close]

theorem Departed.closePInfo (h : p.Departed) : (p.closePInfo p.pinfo).Departed := by
  obtain ⟨first, hfirst, hreports⟩ := h.reports
  refine ⟨?_, fun d => ?_, first, hfirst, hreports.end (reports_closePInfo h.attached)⟩
  · rw [closePInfo_self]
    exact attached_post (by simpa [Attached] using h.attached)
  · rw [closePInfo_self, socket_post, closed_close]

theorem Connecting.closePInfo (h : p.Connecting) : (p.closePInfo p.pinfo).Departed := by
  refine ⟨?_, fun d => ?_, .ended, by decide, 0, ?_⟩
  · rw [closePInfo_self]
    exact attached_post (by simpa [Attached] using h.attached)
  · rw [closePInfo_self, socket_post, closed_close]
  · rw [reports_closePInfo h.attached, h.reports]
    rfl

theorem Connecting.departed_of_closedBy (h : p.Connecting) (hq : p.ClosedBy e id q)
    (hid : report id = some .ended) : q.Departed := by
  refine ⟨hq.attached h.attached, hq.closed_of_follows (h.follows e), .ended, by decide, 0, ?_⟩
  rw [hq.reports h.attached, h.reports, hid]
  rfl

theorem Connecting.departed_checkPeers (h : p.Connecting) (hf : ∃ d, p.CheckFails d io) :
    (p.checkPeers io).Departed := by
  by_cases hserver : p.CheckFails .server io
  · have hq := h.departed_of_closedBy
      (checkEndpoint_of_fails statusServerConnectionLost hserver) rfl
    rw [ConnectionPeer.checkPeers, checkEndpoint_of_closed (hq.closed .client)]
    exact hq
  · obtain ⟨r, hr, hbuf, hq⟩ := checkPeers_of_client_fails hf hserver
    exact (h.sameEnds hr (hbuf _)).departed_of_closedBy hq rfl

theorem Underway.closePInfo (h : p.Underway) : (p.closePInfo p.pinfo).Underway := by
  refine ⟨?_, ?_, h.reports.end (reports_closePInfo h.accounted.attached)⟩
  · rw [closePInfo_self]
    exact h.accounted.close
  · rw [closePInfo_self]
    simpa using h.connected

namespace Underway

theorem sameEnds (h : p.Underway) (hq : p.SameEnds q) : q.Underway := by
  refine ⟨h.accounted.sameEnds hq, hq.pServerConnected.trans h.connected, ?_⟩
  rw [ReportsFrom, hq.reports]
  exact h.reports

theorem closedBy (h : p.Underway) (hq : p.ClosedBy e id q) (hid : report id = some .ended) :
    q.Underway := by
  refine ⟨h.accounted.closedBy hq (.inr hid), hq.pServerConnected.trans h.connected,
    h.reports.end ?_⟩
  rw [hq.reports h.accounted.attached, hid]
  rfl

theorem finish (h : p.Underway) {d : Endpoint} (hclosed : p.socket d = none) :
    ((p.closeEndpoint e).post statusPeerConnectionCancelled).Underway := by
  refine ⟨h.accounted.closeEndpoint hclosed, by simpa using h.connected, ?_⟩
  rw [ReportsFrom, reports_finish h.accounted.attached]
  exact h.reports

theorem sendMissingDataTo (h : p.Underway) {disconnected lost : UInt32}
    (hdisconnected : report disconnected = some .ended) (hlost : report lost = some .ended) :
    (p.sendMissingDataTo e disconnected lost io).Underway := by
  by_cases hf : p.SendFails e io
  · obtain ⟨id, hid, hq⟩ := sendMissingDataTo_of_fails disconnected lost hf
    exact h.closedBy hq (by rcases hid with rfl | rfl <;> assumption)
  · by_cases hd : p.Drains e io
    · have hq := sendMissingDataTo_of_drains disconnected lost hd
      refine ⟨h.accounted.sendMissingDataTo hdisconnected hlost,
        hq.pServerConnected.trans h.connected, ?_⟩
      have hsame : report statusPeerConnectionCancelled = none := by decide
      rw [ReportsFrom, hq.reports h.accounted.attached, hsame, Option.toList_none,
        List.append_nil]
      exact h.reports
    · exact h.sameEnds (sendMissingDataTo_of_not_fails _ _ hf hd).same

theorem checkEndpoint (h : p.Underway) {lost : UInt32} (hlost : report lost = some .ended) :
    (p.checkEndpoint e lost io).Underway := by
  by_cases hf : p.CheckFails e io
  · exact h.closedBy (checkEndpoint_of_fails _ hf) hlost
  · exact h.sameEnds (checkEndpoint_of_not_fails _ hf).1

end Underway

theorem keptByCalls_underway : KeptByCalls Underway where
  getMissingDataFromClient p io h := by
    by_cases hf : p.ReadFails .client io
    · obtain ⟨id, hid, hq⟩ := getMissingDataFromClient_of_fails hf
      exact h.closedBy hq (by simpa [h.connected] using hid)
    · exact h.sameEnds (getMissingDataFromClient_of_not_fails hf).same
  getMissingDataFromServer p io h := by
    by_cases hf : p.ReadFails .server io
    · obtain ⟨id, hid, hq⟩ := getMissingDataFromServer_of_fails hf
      exact h.closedBy hq hid
    · exact h.sameEnds (getMissingDataFromServer_of_not_fails hf).same
  sendMissingDataToClient _ _ h := h.sendMissingDataTo rfl rfl
  sendMissingDataToServer _ _ h := h.sendMissingDataTo rfl rfl
  checkServer _ _ h := h.checkEndpoint rfl
  checkClient _ _ h := h.checkEndpoint rfl
  finish _ _ h hother _ := h.finish hother

/-- A peer just built with both sockets. -/
def CreatedOpen (p : ConnectionPeer) : Prop :=
  ∃ memory c s jq info, p = create memory (some c) (some s) jq info

theorem connecting_create (memory : Endpoint → Nat → UInt8) (c s : Socket) (info : Ptr) :
    (create memory (some c) (some s) true (some info)).Connecting :=
  ⟨⟨rfl, rfl⟩, fun d => by cases d <;> rfl, rfl, rfl, rfl⟩

end ConnectionPeer

end Relb
