import Relb.Proofs.Reports
/-!
# The sequence of reports of one peer

A manager calls `manageConnectingPeer` until it returns true and `manageConnections`
from then on. In between it checks the sockets, and passes on close requests. The server
list expects one failure, or an establishment and then one end. A peer goes through four
stages under this protocol, and `ReportsOnce` is what a step must meet so that the peer
stays within them.
-/

namespace Relb

open Lib

namespace ConnectionPeer

variable {p q : ConnectionPeer} {e : Endpoint} {io : SocketIO} {setr setw : FdSet} {id : UInt32}

/-! ## Stages -/

structure Connecting (p : ConnectionPeer) : Prop where
  attached : p.Attached
  opened : ∀ d, (p.socket d).isSome
  notConnected : p.pServerConnected = false
  nothingForClient : (p.bufferFor .client).bytesToSend = 0
  reports : p.reports = []

structure Established (p : ConnectionPeer) : Prop where
  attached : p.Attached
  opened : ∀ d, (p.socket d).isSome
  connected : p.pServerConnected = true
  reports : p.reports = [.established]

structure Ending (p : ConnectionPeer) : Prop where
  attached : p.Attached
  closed : ∃ d, p.socket d = none
  reports : p.reports = [.established, .ended]

structure Refused (p : ConnectionPeer) : Prop where
  attached : p.Attached
  closed : ∀ d, p.socket d = none
  reports : p.reports = [.failed]

/-- One report too many. -/
def EndedTwice (p : ConnectionPeer) : Prop := p.reports = [.established, .ended, .ended]

/-! ## Single calls -/

theorem Connecting.sameEnds (h : p.Connecting) (hq : p.SameEnds q)
    (hbuf : q.bufferFor .client = p.bufferFor .client) : q.Connecting :=
  ⟨hq.attached h.attached, fun d => by rw [hq.socket]; exact h.opened d,
    hq.pServerConnected.trans h.notConnected, by rw [hbuf]; exact h.nothingForClient,
    hq.reports.trans h.reports⟩

theorem Established.sameEnds (h : p.Established) (hq : p.SameEnds q) : q.Established :=
  ⟨hq.attached h.attached, fun d => by rw [hq.socket]; exact h.opened d,
    hq.pServerConnected.trans h.connected, hq.reports.trans h.reports⟩

theorem Ending.sameEnds (h : p.Ending) (hq : p.SameEnds q) : q.Ending :=
  ⟨hq.attached h.attached, h.closed.imp fun d hd => (hq.socket d).trans hd,
    hq.reports.trans h.reports⟩

theorem Established.closedBy (h : p.Established) (hq : p.ClosedBy e id q)
    (hid : report id = some .ended) : q.Ending :=
  ⟨hq.attached h.attached, ⟨e, hq.closed⟩, by rw [hq.reports h.attached, h.reports, hid]; rfl⟩

theorem Ending.closedBy (h : p.Ending) (hq : p.ClosedBy e id q)
    (hid : report id = some .ended) : q.EndedTwice := by
  rw [EndedTwice, hq.reports h.attached, h.reports, hid]
  rfl

theorem Ending.cancelledBy (h : p.Ending) (hq : p.ClosedBy e statusPeerConnectionCancelled q) :
    q.Ending :=
  ⟨hq.attached h.attached, ⟨e, hq.closed⟩, by rw [hq.reports h.attached, h.reports]; rfl⟩

theorem Ending.sendMissingDataTo (h : p.Ending) (disconnected lost : UInt32)
    (hf : ¬p.SendFails e io) : (p.sendMissingDataTo e disconnected lost io).Ending := by
  by_cases hd : p.Drains e io
  · exact h.cancelledBy (sendMissingDataTo_of_drains _ _ hd)
  · exact h.sameEnds (sendMissingDataTo_of_not_fails _ _ hf hd).same

theorem Ending.finish (h : p.Ending) :
    ((p.closeEndpoint e).post statusPeerConnectionCancelled).Ending := by
  have hattached : (p.closeEndpoint e).Attached := by simpa [Attached] using h.attached
  exact ⟨attached_post hattached, ⟨e, by simp⟩, (reports_finish h.attached).trans h.reports⟩

theorem not_drains_of_open {d : Endpoint} (h : ∀ d, (p.socket d).isSome) : ¬p.Drains d io := by
  rintro ⟨-, hother, -⟩
  simpa [hother] using h d.other

theorem Established.sendMissingDataTo (h : p.Established) (disconnected lost : UInt32)
    (hf : ¬p.SendFails e io) :
    p.Sends e io (p.sendMissingDataTo e disconnected lost io) ∧
      (p.sendMissingDataTo e disconnected lost io).Established :=
  have hq := sendMissingDataTo_of_not_fails _ _ hf (not_drains_of_open h.opened)
  ⟨hq, h.sameEnds hq.same⟩

/-! ## The connecting phase -/

theorem Connecting.follows (h : p.Connecting) (e : Endpoint) : p.Follows e :=
  follows_of_connecting (h.opened _) h.notConnected h.nothingForClient

theorem Established.not_follows (h : p.Established)
    (hpending : (p.bufferFor e.other).bytesToSend ≠ 0) : ¬p.Follows e := by
  rintro ⟨-, hz | ⟨-, hnot⟩⟩
  · exact hpending hz
  · rw [h.connected] at hnot
    cases hnot

theorem Connecting.getMissingDataFromClient (h : p.Connecting) :
    (p.getMissingDataFromClient io).Connecting ∨ (p.getMissingDataFromClient io).Refused := by
  by_cases hf : p.ReadFails .client io
  · obtain ⟨id, hid, hq⟩ := getMissingDataFromClient_of_fails hf
    have hid' : report id = some .failed := by simpa [h.notConnected] using hid
    refine .inr ⟨hq.attached h.attached, hq.closed_of_follows (h.follows .client), ?_⟩
    rw [hq.reports h.attached, h.reports, hid']
    rfl
  · have hq := getMissingDataFromClient_of_not_fails hf
    exact .inl (h.sameEnds hq.same hq.buffer)

theorem Connecting.establish (h : p.Connecting) :
    ({ p with pServerConnected := true }.post statusConnectionEstablished).Established := by
  have hattached : Attached { p with pServerConnected := true } := h.attached
  refine ⟨attached_post hattached, fun d => ?_, by simp, ?_⟩
  · rw [socket_post]
    cases d
    · exact h.opened .client
    · exact h.opened .server
  · rw [reports_post hattached]
    change p.reports ++ [.established] = _
    rw [h.reports, List.nil_append]

theorem Connecting.manageConnectingPeer (h : p.Connecting) (setr setw : FdSet) (io : SocketIO) :
    ∃ r, p.manageConnectingPeer setr setw io = .ok r ∧
      (r.1 = false ∧ (r.2.Connecting ∨ r.2.Refused) ∨ r.1 = true ∧ r.2.Established) := by
  have hboth : p.pClient.isSome ∧ p.pServer.isSome := ⟨h.opened .client, h.opened .server⟩
  obtain ⟨c, hc⟩ := Option.isSome_iff_exists.mp hboth.1
  rw [ConnectionPeer.manageConnectingPeer, if_pos hboth, connectBoth_eq hc]
  have hq : (if c.isInFDSET setr then p.getMissingDataFromClient io else p).Connecting ∨
      (if c.isInFDSET setr then p.getMissingDataFromClient io else p).Refused := by
    split
    · exact h.getMissingDataFromClient
    · exact .inl h
  generalize (if c.isInFDSET setr then p.getMissingDataFromClient io else p) = q at hq
  rcases hq with hq | hq
  · obtain ⟨s, hs⟩ := Option.isSome_iff_exists.mp (hq.opened .server)
    rw [← pServer_eq] at hs
    have hest := hq.establish
    simp only [hs] at hest ⊢
    split
    · exact ⟨_, rfl, .inr ⟨rfl, hest⟩⟩
    · exact ⟨_, rfl, .inl ⟨rfl, .inl hq⟩⟩
  · have hs : q.pServer = none := hq.closed .server
    simp only [hs]
    exact ⟨_, rfl, .inl ⟨rfl, .inr hq⟩⟩

theorem Refused.manageConnectingPeer (h : p.Refused) :
    p.manageConnectingPeer setr setw io = .ok (false, p) :=
  manageConnectingPeer_of_closed h.closed

theorem Connecting.checkPeers (h : p.Connecting) (hok : ∀ d, ¬p.CheckFails d io) :
    (p.checkPeers io).Connecting := by
  have hq := checkPeers_of_not_fails hok
  exact h.sameEnds hq.1 (hq.2 _)

theorem Connecting.checkPeers_of_fails (h : p.Connecting) (hf : ∃ d, p.CheckFails d io) :
    (p.checkPeers io).reports = [.ended] := by
  by_cases hserver : p.CheckFails .server io
  · have hq := checkEndpoint_of_fails statusServerConnectionLost hserver
    have hclient : (p.checkEndpoint .server statusServerConnectionLost io).socket .client = none :=
      hq.closed_of_follows (h.follows .server) .client
    rw [ConnectionPeer.checkPeers, checkEndpoint_of_closed hclient, hq.reports h.attached,
      h.reports]
    rfl
  · obtain ⟨r, hr, -, hq⟩ := checkPeers_of_client_fails hf hserver
    rw [hq.reports (hr.attached h.attached), hr.reports, h.reports]
    rfl

/-! ## Checks of an established peer -/

theorem Established.checkPeers (h : p.Established)
    (hok : ¬(p.CheckFails .server io ∧ (p.bufferFor .client).bytesToSend ≠ 0 ∧
      p.CheckFails .client io)) :
    (p.checkPeers io).Established ∨ (p.checkPeers io).Ending := by
  unfold ConnectionPeer.checkPeers
  by_cases hserver : p.CheckFails .server io
  · have hq := checkEndpoint_of_fails statusServerConnectionLost hserver
    have hr : (p.checkEndpoint .server statusServerConnectionLost io).Ending := h.closedBy hq rfl
    have hclient :
        ¬(p.checkEndpoint .server statusServerConnectionLost io).CheckFails .client io := by
      rintro ⟨hopen, hneg⟩
      by_cases hfollows : p.Follows .server
      · rw [hq.closed_of_follows hfollows .client] at hopen
        cases hopen
      · refine hok ⟨hserver, fun hz => ?_, h.opened _, hneg⟩
        exact hfollows ⟨h.opened _, .inl hz⟩
    exact .inr (hr.sameEnds (checkEndpoint_of_not_fails _ hclient).1)
  · have hr := h.sameEnds (checkEndpoint_of_not_fails statusServerConnectionLost hserver).1
    generalize p.checkEndpoint .server statusServerConnectionLost io = r at hr
    by_cases hclient : r.CheckFails .client io
    · exact .inr (hr.closedBy (checkEndpoint_of_fails _ hclient) rfl)
    · exact .inl (hr.sameEnds (checkEndpoint_of_not_fails _ hclient).1)

theorem Established.checkPeers_of_fails (h : p.Established) (hserver : p.CheckFails .server io)
    (hpending : (p.bufferFor .client).bytesToSend ≠ 0) (hclient : p.CheckFails .client io) :
    (p.checkPeers io).EndedTwice := by
  have hq := checkEndpoint_of_fails statusServerConnectionLost hserver
  have hstays : ¬p.Follows .server := h.not_follows hpending
  have hother := hq.other
  rw [if_neg hstays] at hother
  have hclient' : (p.checkEndpoint .server statusServerConnectionLost io).CheckFails .client io :=
    ⟨hother ▸ hclient.1, hclient.2⟩
  exact (h.closedBy hq rfl).closedBy (checkEndpoint_of_fails _ hclient') rfl

theorem Ending.checkPeers (h : p.Ending) (hok : ∀ d, ¬p.CheckFails d io) :
    (p.checkPeers io).Ending := by
  exact h.sameEnds (checkPeers_of_not_fails hok).1

theorem Ending.checkPeers_of_fails (h : p.Ending) (hf : ∃ d, p.CheckFails d io) :
    (p.checkPeers io).EndedTwice := by
  by_cases hserver : p.CheckFails .server io
  · have hq := checkEndpoint_of_fails statusServerConnectionLost hserver
    obtain ⟨d, hd⟩ := h.closed
    have hclient :
        (p.checkEndpoint .server statusServerConnectionLost io).socket .client = none := by
      cases d with
      | client => exact (hq.shrinks .client).elim (·) (·.trans hd)
      | server => exact absurd hserver.1 (by simp [hd])
    rw [ConnectionPeer.checkPeers, checkEndpoint_of_closed hclient]
    exact h.closedBy hq rfl
  · obtain ⟨r, hr, -, hq⟩ := checkPeers_of_client_fails hf hserver
    exact (h.sameEnds hr).closedBy hq rfl

/-! ## Relaying -/

def marked (p : ConnectionPeer) (e : Endpoint) (set : FdSet) : Bool :=
  (p.socket e).any fun s => s.isInFDSET set

/-- The client ends during this operation. -/
def ClientEnds (setr : FdSet) (io : SocketIO) (p : ConnectionPeer) : Prop :=
  p.marked .client setr = true ∧ p.ReadFails .client io

/-- The server cannot take all that is pending for it. -/
def ServerFull (io : SocketIO) (p : ConnectionPeer) : Prop :=
  p.bufferForServer.bytesToSend ≠ 0 ∧
    (io.sendNB .server p.bufferForServer.bytesToSend).ret < p.bufferForServer.bytesToSend

/-- What the first half has for the server if the client stays. -/
def outgoing (setr : FdSet) (io : SocketIO) (p : ConnectionPeer) : Nat :=
  p.bufferForServer.bytesToSend + if p.marked .client setr then p.bytesRead .client io else 0

/-- The first half sends to the server, and the send fails. -/
def ServerRefuses (setr setw : FdSet) (io : SocketIO) (p : ConnectionPeer) : Prop :=
  (p.marked .client setr = true ∨ p.marked .server setw = true) ∧ p.outgoing setr io ≠ 0 ∧
    (io.sendNB .server (p.outgoing setr io)).ret < 0

/-- What the first half leaves of an established peer. -/
inductive FirstHalf (setr setw : FdSet) (io : SocketIO) (p q : ConnectionPeer) : Prop
  | clientEndedServerBroken : p.ClientEnds setr io → p.SendFails .server io → q.EndedTwice →
      q.socket .server = none → FirstHalf setr setw io p q
  | clientEnded : p.ClientEnds setr io → ¬p.SendFails .server io → ¬p.ServerFull io → q.Ending →
      q.socket .server = none → FirstHalf setr setw io p q
  | clientEndedServerLeft : p.ClientEnds setr io → ¬p.SendFails .server io → p.ServerFull io →
      q.Ending → q.socket .client = none → q.socket .server = p.socket .server →
      (q.bufferFor .client).bytesToReceive = stamBufferSocket → FirstHalf setr setw io p q
  | serverEnded : ¬p.ClientEnds setr io → p.ServerRefuses setr setw io → q.Ending →
      q.socket .server = none → FirstHalf setr setw io p q
  | relayed : ¬p.ClientEnds setr io → ¬p.ServerRefuses setr setw io → q.Established →
      q.socket .client = p.socket .client → q.socket .server = p.socket .server →
      q.bufferFor .client = p.bufferFor .client → FirstHalf setr setw io p q

/-- The client ends: what becomes of the server. -/
theorem Established.firstHalf_of_clientEnds (h : p.Established) (hends : p.ClientEnds setr io) :
    FirstHalf setr setw io p ((p.getMissingDataFromClient io).sendMissingDataToServer io) := by
  obtain ⟨id, hid, hr⟩ := getMissingDataFromClient_of_fails hends.2
  have hid' : report id = some .ended := by simpa [h.connected] using hid
  have hending := h.closedBy hr hid'
  generalize p.getMissingDataFromClient io = r at hr hending
  by_cases hz : p.bufferForServer.bytesToSend = 0
  · have hfollows : p.Follows .client := ⟨h.opened _, .inl hz⟩
    have hclosed : r.socket .server = none := hr.other.trans (if_pos hfollows)
    have hnotFails : ¬p.SendFails .server io := fun hf => hf.2.1 hz
    rw [sendMissingDataToServer, sendMissingDataTo_of_closed hclosed]
    exact .clientEnded hends hnotFails (fun hfull => hfull.1 hz) hending hclosed
  · have hstays : ¬p.Follows .client := h.not_follows hz
    have hserver : r.socket .server = p.socket .server := hr.other.trans (if_neg hstays)
    have hbuf : r.bufferFor .server = p.bufferFor .server := hr.pending hstays
    have hfails := sendFails_congr io hserver hbuf
    by_cases hf : p.SendFails .server io
    · obtain ⟨id', hid', hq⟩ := sendMissingDataToServer_of_fails (hfails.mpr hf)
      exact .clientEndedServerBroken hends hf (hending.closedBy hq hid') hq.closed
    · have hdrains : r.Drains .server io ↔
          p.bufferForServer.bytesToSend ≤
            (io.sendNB .server p.bufferForServer.bytesToSend).ret := by
        have hiff := drains_iff (hserver ▸ h.opened .server) hr.closed (hbuf ▸ hz)
          (hfails.not.mpr hf)
        rwa [hbuf] at hiff
      have hkeep := hending.sendMissingDataTo statusServerDisconnectedOk
        statusServerConnectionLost (hfails.not.mpr hf)
      by_cases hd : r.Drains .server io
      · have hclosed := (sendMissingDataTo_of_drains statusServerDisconnectedOk
          statusServerConnectionLost hd).closed
        refine .clientEnded hends hf (fun hfull => ?_) hkeep hclosed
        exact absurd (hdrains.mp hd) (Int.not_le.mpr hfull.2)
      · have hq := sendMissingDataTo_of_not_fails statusServerDisconnectedOk
          statusServerConnectionLost (hfails.not.mpr hf) hd
        refine .clientEndedServerLeft hends hf ⟨hz, ?_⟩ hkeep
          ((hq.same.socket _).trans hr.closed) ((hq.same.socket _).trans hserver) ?_
        · exact Int.not_le.mp (hdrains.not.mp hd)
        · have hroom := hr.room
          rw [← hroom]
          exact congrArg Buffer.bytesToReceive hq.buffer

theorem Established.firstHalf_of_send {r : ConnectionPeer} (h : r.Established)
    (hstays : ¬p.ClientEnds setr io)
    (hmarked : p.marked .client setr = true ∨ p.marked .server setw = true)
    (hsocket : ∀ d, r.socket d = p.socket d) (hbuf : r.bufferFor .client = p.bufferFor .client)
    (hout : (r.bufferFor .server).bytesToSend = p.outgoing setr io) :
    FirstHalf setr setw io p (r.sendMissingDataToServer io) := by
  by_cases hf : r.SendFails .server io
  · obtain ⟨id, hid, hq⟩ := sendMissingDataToServer_of_fails hf
    obtain ⟨-, hsend, hneg⟩ := hf
    rw [hout] at hsend hneg
    exact .serverEnded hstays ⟨hmarked, hsend, hneg⟩ (h.closedBy hq hid) hq.closed
  · obtain ⟨hq, hest⟩ := h.sendMissingDataTo statusServerDisconnectedOk
      statusServerConnectionLost hf
    refine .relayed hstays (fun hrefuses => hf ⟨h.opened _, ?_, ?_⟩) hest
      ((hq.same.socket _).trans (hsocket _)) ((hq.same.socket _).trans (hsocket _))
      (hq.buffer.trans hbuf)
    · rw [hout]
      exact hrefuses.2.1
    · rw [hout]
      exact hrefuses.2.2

theorem relayFromClient_of_opened (hopen : ∀ d, (p.socket d).isSome) (setr setw : FdSet)
    (io : SocketIO) : p.relayFromClient setr setw io =
      .ok (if p.marked .client setr then (p.getMissingDataFromClient io).sendMissingDataToServer io
        else if p.marked .server setw then p.sendMissingDataToServer io else p) := by
  obtain ⟨c, hc⟩ := Option.isSome_iff_exists.mp (hopen .client)
  obtain ⟨s, hs⟩ := Option.isSome_iff_exists.mp (hopen .server)
  rw [relayFromClient_eq _ _ _ hc hs]
  simp [marked, hc, hs]

theorem Established.relayFromClient (h : p.Established) (setr setw : FdSet) (io : SocketIO) :
    ∃ q, p.relayFromClient setr setw io = .ok q ∧ FirstHalf setr setw io p q := by
  refine ⟨_, relayFromClient_of_opened h.opened setr setw io, ?_⟩
  by_cases hends : p.ClientEnds setr io
  · rw [if_pos hends.1]
    exact h.firstHalf_of_clientEnds hends
  by_cases hr : p.marked .client setr = true
  · rw [if_pos hr]
    have hread := getMissingDataFromClient_of_not_fails fun hf => hends ⟨hr, hf⟩
    refine (h.sameEnds hread.same).firstHalf_of_send hends (.inl hr) hread.same.socket
      hread.buffer (hread.pending.trans ?_)
    rw [outgoing, if_pos hr]
    rfl
  · rw [if_neg hr]
    have hout : p.outgoing setr io = p.bufferForServer.bytesToSend := by
      rw [outgoing, if_neg hr, Nat.add_zero]
    by_cases hw : p.marked .server setw = true
    · rw [if_pos hw]
      exact h.firstHalf_of_send hends (.inr hw) (fun _ => rfl) rfl hout.symm
    · rw [if_neg hw]
      refine .relayed hends (fun hrefuses => ?_) h rfl rfl rfl
      exact hrefuses.1.elim hr hw

/-- The second half after the client has stayed. -/
theorem Established.relayFromServer (h : p.Established) (setr setw : FdSet) (io : SocketIO) :
    ∃ q, p.relayFromServer setr setw io = .ok q ∧
      if p.marked .server setr = true ∧ p.ReadFails .server io ∧ p.SendFails .client io then
        q.EndedTwice
      else q.Established ∨ q.Ending := by
  obtain ⟨c, hc⟩ := Option.isSome_iff_exists.mp (h.opened .client)
  obtain ⟨s, hs⟩ := Option.isSome_iff_exists.mp (h.opened .server)
  have hms : p.marked .server setr = s.isInFDSET setr := by simp [marked, hs]
  have hsend : ∀ r : ConnectionPeer, r.Established →
      (r.sendMissingDataToClient io).Established ∨ (r.sendMissingDataToClient io).Ending := by
    intro r hr
    by_cases hf : r.SendFails .client io
    · obtain ⟨id, hid, hq⟩ := sendMissingDataToClient_of_fails hf
      exact .inr (hr.closedBy hq hid)
    · exact .inl (hr.sendMissingDataTo _ _ hf).2
  by_cases hr : s.isInFDSET setr
  swap
  · rw [relayFromServer_of_not_readable hs hr, show p.pClient = some c from hc]
    refine ⟨_, rfl, ?_⟩
    rw [if_neg fun hboth => hr (hms.symm.trans hboth.1)]
    split
    · exact hsend p h
    · exact .inl h
  refine ⟨_, relayFromServer_of_readable hs hr, ?_⟩
  by_cases hf : p.ReadFails .server io
  · obtain ⟨id, hid, hq⟩ := getMissingDataFromServer_of_fails hf
    have hending := h.closedBy hq hid
    generalize p.getMissingDataFromServer io = r at hq hending
    by_cases hz : (p.bufferFor .client).bytesToSend = 0
    · have hclosed : r.socket .client = none :=
        hq.other.trans (if_pos ⟨h.opened _, .inl hz⟩)
      rw [if_neg fun hboth => hboth.2.2.2.1 hz, sendMissingDataToClient,
        sendMissingDataTo_of_closed hclosed]
      exact .inr hending
    · have hstays : ¬p.Follows .server := h.not_follows hz
      have hclient : r.socket .client = p.socket .client := hq.other.trans (if_neg hstays)
      have hbuf : r.bufferFor .client = p.bufferFor .client := hq.pending hstays
      have hfails := sendFails_congr io hclient hbuf
      by_cases hsf : p.SendFails .client io
      · rw [if_pos ⟨hms.trans hr, hf, hsf⟩]
        obtain ⟨id', hid', hq'⟩ := sendMissingDataToClient_of_fails (hfails.mpr hsf)
        exact hending.closedBy hq' hid'
      · rw [if_neg fun hboth => hsf hboth.2.2]
        exact .inr (hending.sendMissingDataTo _ _ (hfails.not.mpr hsf))
  · rw [if_neg fun hboth => hf hboth.2.1]
    exact hsend _ (h.sameEnds (getMissingDataFromServer_of_not_fails hf).same)

/-- Two ends are reported by one `manageConnections`: the client ends and the server breaks
while it takes, or instead of giving, the rest of its bytes; or the server ends and the client
breaks while it takes the rest of its own. -/
def EndsTwice (setr setw : FdSet) (io : SocketIO) (p : ConnectionPeer) : Prop :=
  p.ClientEnds setr io ∧
      (p.SendFails .server io ∨
        p.ServerFull io ∧ p.marked .server setr = true ∧
          (io.receiveNB .server stamBufferSocket).ret < 0) ∨
    ¬p.ClientEnds setr io ∧ ¬p.ServerRefuses setr setw io ∧ p.marked .server setr = true ∧
      p.ReadFails .server io ∧ p.SendFails .client io

/-- A server left behind is read from, if it is readable. -/
theorem Ending.relayFromServer (h : p.Ending) (setr setw : FdSet) (io : SocketIO)
    (hclient : p.socket .client = none) (hserver : (p.socket .server).isSome)
    (hroom : (p.bufferFor .client).bytesToReceive = stamBufferSocket) :
    (¬(p.marked .server setr = true ∧ (io.receiveNB .server stamBufferSocket).ret < 0) →
        ∀ q, p.relayFromServer setr setw io = .ok q → q.Ending) ∧
      (p.marked .server setr = true → (io.receiveNB .server stamBufferSocket).ret < 0 →
        ∃ q, p.relayFromServer setr setw io = .ok q ∧ q.EndedTwice) := by
  obtain ⟨s, hs⟩ := Option.isSome_iff_exists.mp hserver
  have hms : p.marked .server setr = s.isInFDSET setr := by simp [marked, hs]
  have hfails : p.ReadFails .server io ↔ (io.receiveNB .server stamBufferSocket).ret < 0 := by
    unfold ReadFails
    change _ ∧ (p.bufferFor .client).bytesToReceive ≠ 0 ∧
      (io.receiveNB .server (p.bufferFor .client).bytesToReceive).ret < 0 ↔ _
    rw [hroom]
    exact ⟨fun hf => hf.2.2, fun hneg => ⟨hserver, by decide, hneg⟩⟩
  rw [hms, ← hfails]
  by_cases hr : s.isInFDSET setr
  swap
  · rw [relayFromServer_of_not_readable hs hr, show p.pClient = none from hclient]
    exact ⟨fun _ q hq => (nomatch hq), fun hr' => absurd hr' hr⟩
  rw [relayFromServer_of_readable hs hr]
  constructor
  · intro hok q hq
    obtain rfl := Except.ok.inj hq
    have hq := getMissingDataFromServer_of_not_fails fun hf => hok ⟨hr, hf⟩
    have hclosed := (hq.same.socket .client).trans hclient
    rw [sendMissingDataToClient, sendMissingDataTo_of_closed hclosed]
    exact h.sameEnds hq.same
  · intro _ hf
    obtain ⟨id, hid, hq⟩ := getMissingDataFromServer_of_fails hf
    have hclosed : (p.getMissingDataFromServer io).socket .client = none :=
      (hq.shrinks .client).elim (·) (·.trans hclient)
    refine ⟨_, rfl, ?_⟩
    rw [sendMissingDataToClient, sendMissingDataTo_of_closed hclosed]
    exact h.closedBy hq hid

theorem Established.manageConnections (h : p.Established) (setr setw : FdSet) (io : SocketIO) :
    (¬p.EndsTwice setr setw io → ∀ q, p.manageConnections setr setw io = .ok q →
        q.Established ∨ q.Ending) ∧
      (p.EndsTwice setr setw io →
        ∃ q, p.manageConnections setr setw io = .ok q ∧ q.EndedTwice) := by
  obtain ⟨q, hq, hhalf⟩ := h.relayFromClient setr setw io
  have hmanage : p.manageConnections setr setw io = q.relayFromServer setr setw io := by
    rw [ConnectionPeer.manageConnections, if_pos ⟨h.opened .client, h.opened .server⟩, hq]
    rfl
  rw [hmanage]
  cases hhalf with
  | clientEndedServerBroken hends hf htwice hclosed =>
      rw [relayFromServer_of_closed hclosed]
      exact ⟨fun hok => absurd (.inl ⟨hends, .inl hf⟩) hok, fun _ => ⟨q, rfl, htwice⟩⟩
  | clientEnded hends hf hfull hending hclosed =>
      rw [relayFromServer_of_closed hclosed]
      refine ⟨fun _ r hr => .inr (Except.ok.inj hr ▸ hending), ?_⟩
      rintro (⟨-, hf' | ⟨hfull', -⟩⟩ | ⟨hstays, -⟩)
      · exact absurd hf' hf
      · exact absurd hfull' hfull
      · exact absurd hends hstays
  | clientEndedServerLeft hends hf hfull hending hclient hserver hroom =>
      have hmarked : q.marked .server setr = p.marked .server setr := by
        rw [marked, hserver, marked]
      obtain ⟨hok, htwice⟩ := hending.relayFromServer setr setw io
        hclient (hserver ▸ h.opened .server) hroom
      rw [hmarked] at hok htwice
      refine ⟨fun hnot r hr =>
        .inr (hok (fun hbad => hnot (.inl ⟨hends, .inr ⟨hfull, hbad⟩⟩)) r hr), ?_⟩
      rintro (⟨-, hf' | ⟨-, hm, hneg⟩⟩ | ⟨hstays, -⟩)
      · exact absurd hf' hf
      · exact htwice hm hneg
      · exact absurd hends hstays
  | serverEnded hstays hrefuses hending hclosed =>
      rw [relayFromServer_of_closed hclosed]
      refine ⟨fun _ r hr => .inr (Except.ok.inj hr ▸ hending), ?_⟩
      rintro (⟨hends, -⟩ | ⟨-, hnot, -⟩)
      · exact absurd hends hstays
      · exact absurd hrefuses hnot
  | relayed hstays hrefuses hest hclient hserver hbuf =>
      obtain ⟨r, hr, hsecond⟩ := hest.relayFromServer setr setw io
      have hcond : (q.marked .server setr = true ∧ q.ReadFails .server io ∧ q.SendFails .client io)
          ↔ p.EndsTwice setr setw io := by
        rw [readFails_congr io hserver hbuf, sendFails_congr io hclient hbuf, marked, hserver]
        simp only [EndsTwice, hstays, hrefuses, marked, false_and, false_or, not_false_eq_true,
          true_and]
      rw [hr]
      by_cases hbad : p.EndsTwice setr setw io
      · rw [if_pos (hcond.mpr hbad)] at hsecond
        exact ⟨fun hok => absurd hbad hok, fun _ => ⟨r, rfl, hsecond⟩⟩
      · rw [if_neg (hcond.not.mpr hbad)] at hsecond
        exact ⟨fun _ r' hr' => Except.ok.inj hr' ▸ hsecond, fun hbad' => absurd hbad' hbad⟩

/-! ## Draining what is left -/

theorem Ending.drainSingle (h : p.Ending) (e : Endpoint) (setw : FdSet) (io : SocketIO)
    {send : SocketIO → ConnectionPeer → ConnectionPeer} {disconnected lost : UInt32}
    (hsend : ∀ q : ConnectionPeer, send io q = q.sendMissingDataTo e disconnected lost io)
    (hdisconnected : report disconnected = some .ended) (hlost : report lost = some .ended) :
    ∃ q, p.drainSingle e send setw io = .ok q ∧
      (∀ d, p.socket d = none → q.socket d = none) ∧
      if p.marked e setw = true ∧ p.SendFails e io then q.EndedTwice else q.Ending := by
  cases he : p.socket e with
  | none =>
      refine ⟨p, drainSingle_of_closed he, fun _ => id, ?_⟩
      rw [if_neg (by simp [marked, he])]
      exact h
  | some s =>
      have hms : p.marked e setw = s.isInFDSET setw := by simp [marked, he]
      have hkeep : ∀ d, p.socket d = none →
          (if s.isInFDSET setw then send io p else p).socket d = none := by
        intro d hd
        split
        · rw [hsend]
          exact closed_sendMissingDataTo hd
        · exact hd
      refine ⟨_, drainSingle_of_open he, fun d hd => closed_finish (hkeep d hd), ?_⟩
      rw [hms]
      by_cases hbad : s.isInFDSET setw = true ∧ p.SendFails e io
      · obtain ⟨id, hid, hq⟩ := sendMissingDataTo_of_fails disconnected lost hbad.2
        have hid' : report id = some .ended := by rcases hid with rfl | rfl <;> assumption
        rw [if_pos hbad]
        simp only [if_pos hbad.1, hsend]
        have htwice := h.closedBy hq hid'
        split
        · exact (reports_finish (hq.attached h.attached)).trans htwice
        · exact htwice
      · have hq : (if s.isInFDSET setw then send io p else p).Ending := by
          split
          · rename_i hw
            rw [hsend]
            exact h.sendMissingDataTo _ _ fun hf => hbad ⟨hw, hf⟩
          · exact h
        rw [if_neg hbad]
        generalize (if s.isInFDSET setw then send io p else p) = q at hq
        split
        · exact hq.finish
        · exact hq

theorem not_sendFails_of_closed {d : Endpoint} (h : p.socket d = none) : ¬p.SendFails d io := by
  intro hf
  have hopen := hf.1
  rw [h] at hopen
  cases hopen

/-- One endpoint is gone; what is left for the other one is drained. -/
theorem Ending.manageConnections (h : p.Ending) (setr setw : FdSet) (io : SocketIO) :
    ∃ q, p.manageConnections setr setw io = .ok q ∧
      ((∃ d, p.marked d setw = true ∧ p.SendFails d io) → q.EndedTwice) ∧
      (¬(∃ d, p.marked d setw = true ∧ p.SendFails d io) → q.Ending) := by
  obtain ⟨d, hd⟩ := h.closed
  have hboth : ¬(p.pClient.isSome ∧ p.pServer.isSome) := by
    rintro ⟨hc, hs⟩
    cases d with
    | client => rw [pClient_eq, hd] at hc; cases hc
    | server => rw [pServer_eq, hd] at hs; cases hs
  rw [ConnectionPeer.manageConnections, if_neg hboth]
  cases d with
  | client =>
      obtain ⟨q, hq, -, hdrain⟩ := h.drainSingle .server setw io
        (fun q => (rfl : sendMissingDataToServer io q = _)) rfl rfl
      refine ⟨q, ?_, ?_, fun hok => ?_⟩
      · rw [drainSingle_of_closed hd]
        exact hq
      · rintro ⟨x, hx⟩
        cases x with
        | client => exact absurd hx.2 (not_sendFails_of_closed hd)
        | server => rwa [if_pos hx] at hdrain
      · rwa [if_neg fun hx => hok ⟨_, hx⟩] at hdrain
  | server =>
      obtain ⟨q, hq, hkeep, hdrain⟩ := h.drainSingle .client setw io
        (fun q => (rfl : sendMissingDataToClient io q = _)) rfl rfl
      refine ⟨q, ?_, ?_, fun hok => ?_⟩
      · rw [hq]
        exact drainSingle_of_closed (hkeep _ hd)
      · rintro ⟨x, hx⟩
        cases x with
        | client => rwa [if_pos hx] at hdrain
        | server => exact absurd hx.2 (not_sendFails_of_closed hd)
      · rwa [if_neg fun hx => hok ⟨_, hx⟩] at hdrain

/-! ## Close requests -/

theorem reports_closePInfo (ha : p.Attached) :
    (p.closePInfo p.pinfo).reports = p.reports ++ [.ended] := by
  have hattached : p.close.Attached := by simpa [Attached] using ha
  rw [closePInfo, if_pos rfl, reports_post hattached, reports, posted_close]
  rfl

theorem Established.closePInfo (h : p.Established) : (p.closePInfo p.pinfo).Ending := by
  refine ⟨?_, ⟨.client, ?_⟩, by rw [reports_closePInfo h.attached, h.reports]; rfl⟩
  · rw [ConnectionPeer.closePInfo, if_pos rfl]
    exact attached_post (by simpa [Attached] using h.attached)
  · rw [ConnectionPeer.closePInfo, if_pos rfl, socket_post]
    exact p.close.isActive_eq_false.mp p.isActive_close .client

end ConnectionPeer

/-! ## One peer in the hands of its manager -/

/-- A peer with the list it is on: `promoted` once `manageConnectingPeer` has returned true. -/
structure Managed where
  peer : ConnectionPeer
  promoted : Bool

namespace Managed

open ConnectionPeer

inductive Step
  | manage (setr setw : FdSet) (io : SocketIO)
  | check (io : SocketIO)
  | closeRequest

def perform (m : Managed) : Step → Except Managed Managed
  | .manage setr setw io =>
      if m.promoted then
        match m.peer.manageConnections setr setw io with
        | .ok q => .ok ⟨q, true⟩
        | .error q => .error ⟨q, true⟩
      else
        match m.peer.manageConnectingPeer setr setw io with
        | .ok (changed, q) => .ok ⟨q, changed⟩
        | .error q => .error ⟨q, false⟩
  | .check io =>
      .ok { m with peer := if m.promoted then m.peer.checkPeers io
        else m.peer.checkConnectingPeers io }
  | .closeRequest => .ok { m with peer := m.peer.closePInfo m.peer.pinfo }

/-- What the server list expects of one peer. -/
def Legal (m : Managed) : Prop :=
  m.peer.reports <+: [.failed] ∨ m.peer.reports <+: [.established, .ended]

/-- The condition on a step. A close request comes while both sockets of a connected peer are
open; a check fails for at most one endpoint, which is still to report; no
`manageConnections` loses both endpoints, and none that drains an endpoint loses it. -/
def ReportsOnce (m : Managed) : Step → Prop
  | .closeRequest => m.peer.pServerConnected = true ∧ ∀ d, (m.peer.socket d).isSome
  | .check io =>
      ((∃ d, m.peer.CheckFails d io) →
        m.peer.pServerConnected = true ∧ ∀ d, (m.peer.socket d).isSome) ∧
      ¬(m.peer.CheckFails .server io ∧ (m.peer.bufferFor .client).bytesToSend ≠ 0 ∧
        m.peer.CheckFails .client io)
  | .manage setr setw io =>
      m.promoted = true →
        ((∀ d, (m.peer.socket d).isSome) → ¬m.peer.EndsTwice setr setw io) ∧
        ((∃ d, m.peer.socket d = none) →
          ¬∃ d, m.peer.marked d setw = true ∧ m.peer.SendFails d io)

/-- The stages of a peer whose reports are legal. -/
inductive Stage (m : Managed) : Prop
  | connecting : m.promoted = false → m.peer.Connecting → Stage m
  | established : m.promoted = true → m.peer.Established → Stage m
  | ending : m.promoted = true → m.peer.Ending → Stage m
  | refused : m.promoted = false → m.peer.Refused → Stage m

variable {m : Managed} {step : Step}

theorem Stage.legal (h : m.Stage) : m.Legal := by
  cases h with
  | connecting _ hp => exact .inl (by rw [hp.reports]; exact List.nil_prefix)
  | established _ hp => exact .inr (by rw [hp.reports]; exact ⟨[.ended], rfl⟩)
  | ending _ hp => exact .inr (hp.reports ▸ List.prefix_rfl)
  | refused _ hp => exact .inl (hp.reports ▸ List.prefix_rfl)

theorem not_legal_of_endedTwice (h : m.peer.EndedTwice) : ¬m.Legal := by
  have hreports : m.peer.reports = [.established, .ended, .ended] := h
  rw [Legal, hreports]
  decide

/-- A step keeps the stages when it meets the condition, and breaks the law otherwise. -/
def Decides (m : Managed) (step : Step) : Prop :=
  (m.ReportsOnce step → ∀ t, m.perform step = .ok t → t.Stage) ∧
    (¬m.ReportsOnce step → ∃ t, m.perform step = .ok t ∧ ¬t.Legal)

theorem Decides.of_good (h : ∀ t, m.perform step = .ok t → t.Stage) (hg : m.ReportsOnce step) :
    m.Decides step :=
  ⟨fun _ => h, fun hnot => absurd hg hnot⟩

theorem Decides.of_stage {t : Managed} (ht : m.perform step = .ok t) (hstage : t.Stage)
    (hg : m.ReportsOnce step) : m.Decides step :=
  .of_good (fun _ hu => Except.ok.inj (ht.symm.trans hu) ▸ hstage) hg

theorem Decides.of_bad {t : Managed} (ht : m.perform step = .ok t) (hbad : ¬t.Legal)
    (hg : ¬m.ReportsOnce step) : m.Decides step :=
  ⟨fun h => absurd h hg, fun _ => ⟨t, ht, hbad⟩⟩

theorem Stage.closeRequest (h : m.Stage) : m.Decides .closeRequest := by
  have hperform : m.perform .closeRequest = .ok { m with peer := m.peer.closePInfo m.peer.pinfo } :=
    rfl
  cases h with
  | connecting _ hp =>
      refine .of_bad hperform ?_ fun hg => by simpa [hp.notConnected] using hg.1
      rw [Legal, reports_closePInfo hp.attached, hp.reports]
      decide
  | established hpromoted hp =>
      exact .of_stage hperform (.ending hpromoted hp.closePInfo) ⟨hp.connected, hp.opened⟩
  | ending _ hp =>
      obtain ⟨d, hd⟩ := hp.closed
      refine .of_bad hperform ?_ fun hg => by simpa [hd] using hg.2 d
      rw [Legal, reports_closePInfo hp.attached, hp.reports]
      decide
  | refused _ hp =>
      refine .of_bad hperform ?_ fun hg => by simpa [hp.closed] using hg.2 .client
      rw [Legal, reports_closePInfo hp.attached, hp.reports]
      decide

theorem perform_check (m : Managed) (io : SocketIO) :
    m.perform (.check io) = .ok { m with peer := m.peer.checkPeers io } := by
  have hsame : m.peer.checkConnectingPeers io = m.peer.checkPeers io := rfl
  simp only [perform, hsame, ite_self]

theorem decides_check {io : SocketIO} (hf : ∀ d, ¬m.peer.CheckFails d io)
    (hstage : Stage { m with peer := m.peer.checkPeers io }) : m.Decides (.check io) :=
  .of_stage (m.perform_check io) hstage
    ⟨fun ⟨d, hd⟩ => absurd hd (hf d), fun hg => hf _ hg.1⟩

theorem Stage.check (h : m.Stage) (io : SocketIO) : m.Decides (.check io) := by
  have hperform := m.perform_check io
  cases h with
  | connecting hpromoted hp =>
      by_cases hf : ∃ d, m.peer.CheckFails d io
      · refine .of_bad hperform ?_ fun hg => by simpa [hp.notConnected] using (hg.1 hf).1
        rw [Legal, hp.checkPeers_of_fails hf]
        decide
      · rw [not_exists] at hf
        exact decides_check hf (.connecting hpromoted (hp.checkPeers hf))
  | established hpromoted hp =>
      by_cases hf : m.peer.CheckFails .server io ∧ (m.peer.bufferFor .client).bytesToSend ≠ 0 ∧
          m.peer.CheckFails .client io
      · exact .of_bad hperform
          (not_legal_of_endedTwice (hp.checkPeers_of_fails hf.1 hf.2.1 hf.2.2)) fun hg => hg.2 hf
      · refine .of_stage hperform ?_ ⟨fun _ => ⟨hp.connected, hp.opened⟩, hf⟩
        rcases hp.checkPeers hf with hq | hq
        · exact .established hpromoted hq
        · exact .ending hpromoted hq
  | ending hpromoted hp =>
      obtain ⟨d, hd⟩ := hp.closed
      by_cases hf : ∃ d, m.peer.CheckFails d io
      · exact .of_bad hperform (not_legal_of_endedTwice (hp.checkPeers_of_fails hf))
          fun hg => by simpa [hd] using (hg.1 hf).2 d
      · rw [not_exists] at hf
        exact decides_check hf (.ending hpromoted (hp.checkPeers hf))
  | refused hpromoted hp =>
      have hf : ∀ d, ¬m.peer.CheckFails d io := fun d hd => by simpa [hp.closed] using hd.1
      apply decides_check hf
      rw [checkPeers_of_closed hp.closed]
      exact .refused hpromoted hp

theorem perform_manage_connecting {setr setw : FdSet} {io : SocketIO} {changed : Bool}
    {q : ConnectionPeer} (hpromoted : m.promoted = false)
    (hq : m.peer.manageConnectingPeer setr setw io = .ok (changed, q)) :
    m.perform (.manage setr setw io) = .ok ⟨q, changed⟩ := by
  simp only [perform, hpromoted, hq, Bool.false_eq_true, if_false]

theorem perform_manage_promoted {setr setw : FdSet} {io : SocketIO} {q : ConnectionPeer}
    (hpromoted : m.promoted = true) (hq : m.peer.manageConnections setr setw io = .ok q) :
    m.perform (.manage setr setw io) = .ok ⟨q, true⟩ := by
  simp only [perform, hpromoted, hq, if_true]

theorem decides_manage_established (hpromoted : m.promoted = true) (hp : m.peer.Established)
    (setr setw : FdSet) (io : SocketIO) : m.Decides (.manage setr setw io) := by
  obtain ⟨hgood, hbad⟩ := hp.manageConnections setr setw io
  have hopen : ¬∃ d, m.peer.socket d = none := by
    rintro ⟨d, hd⟩
    simpa [hd] using hp.opened d
  by_cases htwice : m.peer.EndsTwice setr setw io
  · obtain ⟨q, hq, hq2⟩ := hbad htwice
    exact .of_bad (perform_manage_promoted hpromoted hq) (not_legal_of_endedTwice hq2)
      fun hg => (hg hpromoted).1 hp.opened htwice
  · refine .of_good (fun t ht => ?_) fun _ => ⟨fun _ => htwice, fun hc => absurd hc hopen⟩
    cases hq : m.peer.manageConnections setr setw io with
    | ok q =>
        rw [perform_manage_promoted hpromoted hq] at ht
        obtain rfl := Except.ok.inj ht
        rcases hgood htwice q hq with hq' | hq'
        · exact .established rfl hq'
        · exact .ending rfl hq'
    | error q =>
        simp only [perform, hpromoted, hq, if_true] at ht
        cases ht

theorem decides_manage_ending (hpromoted : m.promoted = true) (hp : m.peer.Ending)
    (setr setw : FdSet) (io : SocketIO) : m.Decides (.manage setr setw io) := by
  obtain ⟨q, hq, hbad, hgood⟩ := hp.manageConnections setr setw io
  have hperform := perform_manage_promoted hpromoted hq
  obtain ⟨d, hd⟩ := hp.closed
  by_cases hf : ∃ d, m.peer.marked d setw = true ∧ m.peer.SendFails d io
  · exact .of_bad hperform (not_legal_of_endedTwice (hbad hf))
      fun hg => (hg hpromoted).2 hp.closed hf
  · refine .of_stage hperform (.ending rfl (hgood hf)) fun _ => ⟨fun hopen => ?_, fun _ => hf⟩
    simpa [hd] using hopen d

theorem Stage.manage (h : m.Stage) (setr setw : FdSet) (io : SocketIO) :
    m.Decides (.manage setr setw io) := by
  cases h with
  | connecting hpromoted hp =>
      obtain ⟨⟨changed, q⟩, hq, hcases⟩ := hp.manageConnectingPeer setr setw io
      refine .of_stage (perform_manage_connecting hpromoted hq) ?_
        fun hp' => by simp [hpromoted] at hp'
      rcases hcases with ⟨hchanged, hq | hq⟩ | ⟨hchanged, hq⟩
      · exact .connecting hchanged hq
      · exact .refused hchanged hq
      · exact .established hchanged hq
  | refused hpromoted hp =>
      exact .of_stage (perform_manage_connecting hpromoted hp.manageConnectingPeer)
        (.refused rfl hp) fun hp' => by simp [hpromoted] at hp'
  | established hpromoted hp => exact decides_manage_established hpromoted hp setr setw io
  | ending hpromoted hp => exact decides_manage_ending hpromoted hp setr setw io

theorem Stage.decides (h : m.Stage) (step : Step) : m.Decides step := by
  cases step with
  | manage setr setw io => exact h.manage setr setw io
  | check io => exact h.check io
  | closeRequest => exact h.closeRequest

/-- The run of a peer built with both sockets, the queue and the entry reports one failure, or
an establishment and one end, exactly when every step meets `ReportsOnce`. -/
theorem lifecycle_iff (memory : Endpoint → Nat → UInt8) (c s : Socket) (info : Ptr)
    (steps : List Step) :
    Along perform Legal ⟨create memory (some c) (some s) true (some info), false⟩ steps ↔
      Clear perform ReportsOnce ⟨create memory (some c) (some s) true (some info), false⟩
        steps := by
  have hstart : Stage ⟨create memory (some c) (some s) true (some info), false⟩ :=
    .connecting rfl ⟨⟨rfl, rfl⟩, fun d => by cases d <;> rfl, rfl, rfl, rfl⟩
  exact along_iff_clear (fun m hm => Stage.legal hm)
    (fun m step t hm hg ht => (hm.decides step).1 hg t ht)
    (fun m step hm hg => (hm.decides step).2 hg) hstart steps

/-- A close request for a connection that is still being made reports the end of one. -/
theorem lifecycle_closed_while_connecting :
    ¬∀ (memory : Endpoint → Nat → UInt8) (c s : Socket) (info : Ptr) (steps : List Step),
      Along perform Legal ⟨create memory (some c) (some s) true (some info), false⟩ steps := by
  intro h
  obtain ⟨-, hafter⟩ := h (fun _ _ => 0) Sample.client Sample.server 1 [.closeRequest]
  have hlegal := hafter _ rfl
  revert hlegal
  simp only [Along, Legal]
  decide

end Managed

end Relb
