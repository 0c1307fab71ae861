import Relb.Proofs.BufferWindow
import Relb.Proofs.PeerBasics
/-!
# What one socket call of a peer can do

`ReadFails`, `SendFails` and `CheckFails` say, from the state before and the answers
of the sockets, that a call is made and returns a negative number. The spec lemmas
of the four transfer functions split on them: a failed call closes its endpoint and
posts one id, any other call leaves the sockets alone, except that a socket whose
counterpart is gone is closed once it has been sent everything.
-/

namespace Relb

open Lib

namespace ConnectionPeer

/-- The peer reads from `e` and the read returns a negative number. -/
def ReadFails (e : Endpoint) (io : SocketIO) (p : ConnectionPeer) : Prop :=
  (p.socket e).isSome ∧ (p.bufferFor e.other).bytesToReceive ≠ 0 ∧
    (io.receiveNB e (p.bufferFor e.other).bytesToReceive).ret < 0

/-- The peer sends to `e` and the send returns a negative number. -/
def SendFails (e : Endpoint) (io : SocketIO) (p : ConnectionPeer) : Prop :=
  (p.socket e).isSome ∧ (p.bufferFor e).bytesToSend ≠ 0 ∧
    (io.sendNB e (p.bufferFor e).bytesToSend).ret < 0

theorem readFails_congr {p q : ConnectionPeer} {e : Endpoint} (io : SocketIO)
    (hsocket : q.socket e = p.socket e) (hbuf : q.bufferFor e.other = p.bufferFor e.other) :
    q.ReadFails e io ↔ p.ReadFails e io := by
  unfold ReadFails
  rw [hsocket, hbuf]

theorem sendFails_congr {p q : ConnectionPeer} {e : Endpoint} (io : SocketIO)
    (hsocket : q.socket e = p.socket e) (hbuf : q.bufferFor e = p.bufferFor e) :
    q.SendFails e io ↔ p.SendFails e io := by
  unfold SendFails
  rw [hsocket, hbuf]

/-- The peer checks `e` and the check returns a negative number. -/
def CheckFails (e : Endpoint) (io : SocketIO) (p : ConnectionPeer) : Prop :=
  (p.socket e).isSome ∧ io.checkSocket e < 0

instance (e : Endpoint) (io : SocketIO) (p : ConnectionPeer) : Decidable (p.ReadFails e io) := by
  unfold ReadFails; infer_instance

instance (e : Endpoint) (io : SocketIO) (p : ConnectionPeer) : Decidable (p.SendFails e io) := by
  unfold SendFails; infer_instance

instance (e : Endpoint) (io : SocketIO) (p : ConnectionPeer) : Decidable (p.CheckFails e io) := by
  unfold CheckFails; infer_instance

def bytesRead (e : Endpoint) (io : SocketIO) (p : ConnectionPeer) : Nat :=
  if (p.socket e).isSome ∧ (p.bufferFor e.other).bytesToReceive ≠ 0 then
    (io.receiveNB e (p.bufferFor e.other).bytesToReceive).ret.toNat
  else 0

def bytesSent (e : Endpoint) (io : SocketIO) (p : ConnectionPeer) : Nat :=
  if (p.socket e).isSome ∧ (p.bufferFor e).bytesToSend ≠ 0 then
    (io.sendNB e (p.bufferFor e).bytesToSend).ret.toNat
  else 0

/-- The kinds of message that change the counters of a server. -/
inductive Report
  | established
  | failed
  | ended
  deriving DecidableEq, Repr

/-- What a message reports to the server list. -/
def report (id : UInt32) : Option Report :=
  if id = statusConnectionEstablished then some .established
  else if id = statusConnectionFailed then some .failed
  else if id = statusServerDisconnectedOk ∨ id = statusClientDisconnectedOk ∨
      id = statusServerConnectionLost ∨ id = statusClientConnectionLost then some .ended
  else none

theorem failed_or_ended {id : UInt32} {r : Report} (h : report id = some r)
    (hr : r ≠ .established) : report id = some .failed ∨ report id = some .ended := by
  cases r with
  | established => exact absurd rfl hr
  | failed => exact .inl h
  | ended => exact .inr h

theorem posted_of_report {id : UInt32} {r : Report} (h : report id = some r) : id ∈ postedIds := by
  unfold report at h
  split_ifs at h with hest hfail hend
  · simp [hest, postedIds]
  · simp [hfail, postedIds]
  · rcases hend with rfl | rfl | rfl | rfl <;> decide

/-- The reports posted so far, in order. -/
def reports (p : ConnectionPeer) : List Report := p.posted.filterMap report

/-- `q` has the sockets, the posted ids and the flags of `p`; bytes may have moved. -/
structure SameEnds (p q : ConnectionPeer) : Prop where
  socket : ∀ d, q.socket d = p.socket d
  posted : q.posted = p.posted
  pServerConnected : q.pServerConnected = p.pServerConnected
  pjq : q.pjq = p.pjq
  pinfo : q.pinfo = p.pinfo

variable {p : ConnectionPeer} {e : Endpoint} {io : SocketIO}

/-! ## Posted ids -/

@[simp] theorem posted_emit_receiveNB (off max : Nat) (ret : Int) (bytes : List UInt8) :
    (p.emit (.receiveNB e off max ret bytes)).posted = p.posted := by
  simp [posted]

@[simp] theorem posted_emit_sendNB (ret : Int) (bytes : List UInt8) :
    (p.emit (.sendNB e bytes ret)).posted = p.posted := by
  simp [posted]

@[simp] theorem posted_emit_checkSocket (ret : Int) :
    (p.emit (.checkSocket e ret)).posted = p.posted := by
  simp [posted]

@[simp] theorem posted_setBufferFor (b : Buffer) : (p.setBufferFor e b).posted = p.posted := by
  simp [posted]

@[simp] theorem posted_drop : (p.drop e).posted = p.posted := by
  simp [posted]

@[simp] theorem posted_closeEndpoint : (p.closeEndpoint e).posted = p.posted :=
  p.closeEndpoint_induct e (I := fun q => q.posted = p.posted) (fun q d h => by simpa using h) rfl

@[simp] theorem posted_close : p.close.posted = p.posted := by
  simp [close, closeServer, closeClient]

theorem posted_post (id : UInt32) :
    (p.post id).posted = if p.pjq ∧ p.pinfo.isSome then p.posted ++ [id] else p.posted := by
  unfold post
  split <;> simp [posted]

@[simp] theorem pServerConnected_close : p.close.pServerConnected = p.pServerConnected := by
  simp [close, closeServer, closeClient]

@[simp] theorem pjq_close : p.close.pjq = p.pjq := by
  simp [close, closeServer, closeClient]

@[simp] theorem pinfo_close : p.close.pinfo = p.pinfo := by
  simp [close, closeServer, closeClient]

namespace SameEnds

theorem refl (p : ConnectionPeer) : p.SameEnds p := ⟨fun _ => rfl, rfl, rfl, rfl, rfl⟩

theorem trans {q r : ConnectionPeer} (h : p.SameEnds q) (h' : q.SameEnds r) : p.SameEnds r :=
  ⟨fun d => (h'.socket d).trans (h.socket d), h'.posted.trans h.posted,
    h'.pServerConnected.trans h.pServerConnected, h'.pjq.trans h.pjq, h'.pinfo.trans h.pinfo⟩

theorem emit {ev : Event} (h : (p.emit ev).posted = p.posted) : p.SameEnds (p.emit ev) :=
  ⟨fun _ => by simp, h, rfl, rfl, rfl⟩

theorem setBufferFor (b : Buffer) : p.SameEnds (p.setBufferFor e b) :=
  ⟨fun _ => by simp, by simp, by simp, by simp, by simp⟩

end SameEnds

/-- `q` is `p` after `e` has been closed, with the other endpoint if it follows, and `id` has
been posted. -/
structure ClosedBy (p : ConnectionPeer) (e : Endpoint) (id : UInt32) (q : ConnectionPeer) :
    Prop where
  closed : q.socket e = none
  other : q.socket e.other = if p.Follows e then none else p.socket e.other
  pending : ¬p.Follows e → q.bufferFor e.other = p.bufferFor e.other
  room : (q.bufferFor e).bytesToReceive = stamBufferSocket
  posted : q.posted = if p.pjq ∧ p.pinfo.isSome then p.posted ++ [id] else p.posted
  pServerConnected : q.pServerConnected = p.pServerConnected
  pjq : q.pjq = p.pjq
  pinfo : q.pinfo = p.pinfo

theorem closedBy_closeEndpoint {q : ConnectionPeer} (hopen : (p.socket e).isSome)
    (hsame : p.SameEnds q) (hbuf : q.bufferFor e.other = p.bufferFor e.other) (id : UInt32) :
    p.ClosedBy e id ((q.closeEndpoint e).post id) := by
  have hfollows : q.Follows e ↔ p.Follows e := by
    simp only [Follows, hsame.socket, hbuf, hsame.pServerConnected]
  have hopen' : (q.socket e).isSome := by rwa [hsame.socket]
  refine ⟨by simp, ?_, fun hnot => ?_, ?_, ?_, ?_, ?_, ?_⟩
  · rw [socket_post, socket_closeEndpoint_other]
    simp only [hopen, true_and, hfollows, hsame.socket]
  · rw [bufferFor_post, closeEndpoint_of_open q e hopen', if_neg (hfollows.not.mpr hnot),
      bufferFor_drop_other, hbuf]
  · rw [bufferFor_post, closeEndpoint_of_open q e hopen']
    split <;> simp [Buffer.reset]
  · rw [posted_post, pjq_closeEndpoint, pinfo_closeEndpoint, posted_closeEndpoint, hsame.pjq,
      hsame.pinfo, hsame.posted]
  · rw [pServerConnected_post, pServerConnected_closeEndpoint, hsame.pServerConnected]
  · rw [pjq_post, pjq_closeEndpoint, hsame.pjq]
  · rw [pinfo_post, pinfo_closeEndpoint, hsame.pinfo]

theorem ClosedBy.closed_of_follows {id : UInt32} {q : ConnectionPeer} (h : p.ClosedBy e id q)
    (hfollows : p.Follows e) (d : Endpoint) : q.socket d = none := by
  rcases d.eq_or_other e with rfl | rfl
  · exact h.closed
  · rw [h.other, if_pos hfollows]

/-- Before the server is connected nothing waits for the client, and the server never stays
behind. -/
theorem follows_of_connecting (hopen : (p.socket e.other).isSome)
    (hcon : p.pServerConnected = false) (hnothing : (p.bufferFor .client).bytesToSend = 0) :
    p.Follows e := by
  refine ⟨hopen, ?_⟩
  cases e with
  | client => exact .inr ⟨rfl, hcon⟩
  | server => exact .inl hnothing

/-- A read from `e` that does not fail. -/
structure Reads (p : ConnectionPeer) (e : Endpoint) (io : SocketIO) (q : ConnectionPeer) :
    Prop where
  same : p.SameEnds q
  buffer : q.bufferFor e = p.bufferFor e
  pending : (q.bufferFor e.other).bytesToSend =
    (p.bufferFor e.other).bytesToSend + p.bytesRead e io

/-- A send to `e` that neither fails nor empties the buffer of a peer without `e.other`. -/
structure Sends (p : ConnectionPeer) (e : Endpoint) (io : SocketIO) (q : ConnectionPeer) :
    Prop where
  same : p.SameEnds q
  buffer : q.bufferFor e.other = p.bufferFor e.other
  pending : (q.bufferFor e).bytesToSend = (p.bufferFor e).bytesToSend - p.bytesSent e io

/-! ## Frames of the transfer functions -/

section Frames

variable {disconnected lost : ConnectionPeer → UInt32} {id id' : UInt32}

@[simp] theorem pServerConnected_getMissingDataFrom :
    (p.getMissingDataFrom e disconnected lost io).pServerConnected = p.pServerConnected := by
  simp only [getMissingDataFrom]
  split_ifs <;> simp

@[simp] theorem pServerConnected_checkEndpoint :
    (p.checkEndpoint e id io).pServerConnected = p.pServerConnected := by
  simp only [checkEndpoint]
  split_ifs <;> simp

end Frames

theorem bytesSent_le (p : ConnectionPeer) (e : Endpoint) (io : SocketIO) :
    p.bytesSent e io ≤ (p.bufferFor e).bytesToSend := by
  unfold bytesSent
  split
  · have hle := (io.sendNB e (p.bufferFor e).bytesToSend).ret_le
    omega
  · exact Nat.zero_le _

/-! ## Spec lemmas of the transfer functions -/

theorem getMissingDataFrom_of_fails {disconnected lost : ConnectionPeer → UInt32}
    (h : p.ReadFails e io) :
    ∃ ev id, (id = disconnected (p.emit ev) ∨ id = lost (p.emit ev)) ∧
      p.ClosedBy e id (p.getMissingDataFrom e disconnected lost io) := by
  obtain ⟨hopen, hroom, hneg⟩ := h
  have hnot : ¬0 < (io.receiveNB e (p.bufferFor e.other).bytesToReceive).ret := by omega
  simp only [getMissingDataFrom, if_pos (And.intro hopen hroom), if_neg hnot, if_pos hneg]
  split
  · exact ⟨_, _, .inl rfl, closedBy_closeEndpoint hopen (.emit (by simp)) (by simp) _⟩
  · exact ⟨_, _, .inr rfl, closedBy_closeEndpoint hopen (.emit (by simp)) (by simp) _⟩

theorem getMissingDataFrom_of_not_fails {disconnected lost : ConnectionPeer → UInt32}
    (h : ¬p.ReadFails e io) : p.Reads e io (p.getMissingDataFrom e disconnected lost io) := by
  by_cases hread : (p.socket e).isSome ∧ (p.bufferFor e.other).bytesToReceive ≠ 0
  · have hnot : ¬(io.receiveNB e (p.bufferFor e.other).bytesToReceive).ret < 0 :=
      fun hneg => h ⟨hread.1, hread.2, hneg⟩
    by_cases hret : 0 < (io.receiveNB e (p.bufferFor e.other).bytesToReceive).ret
    · simp only [getMissingDataFrom, if_pos hread, if_pos hret]
      refine ⟨(SameEnds.emit (by simp)).trans (SameEnds.setBufferFor _), by simp, ?_⟩
      simp [Buffer.received, Buffer.write, bytesRead, if_pos hread]
    · simp only [getMissingDataFrom, if_pos hread, if_neg hret, if_neg hnot]
      refine ⟨SameEnds.emit (by simp), by simp, ?_⟩
      rw [bufferFor_emit, bytesRead, if_pos hread]
      omega
  · simp only [getMissingDataFrom, if_neg hread]
    exact ⟨SameEnds.refl p, rfl, by rw [bytesRead, if_neg hread, Nat.add_zero]⟩

theorem sendMissingDataTo_of_fails (disconnected lost : UInt32) (h : p.SendFails e io) :
    ∃ id, (id = disconnected ∨ id = lost) ∧
      p.ClosedBy e id (p.sendMissingDataTo e disconnected lost io) := by
  obtain ⟨hopen, hsend, hneg⟩ := h
  have hnot : ¬0 < (io.sendNB e (p.bufferFor e).bytesToSend).ret := by omega
  simp only [sendMissingDataTo, if_pos (And.intro hopen hsend), if_neg hnot, if_pos hneg]
  split
  · exact ⟨_, .inl rfl, closedBy_closeEndpoint hopen (.emit (by simp)) (by simp) _⟩
  · exact ⟨_, .inr rfl, closedBy_closeEndpoint hopen (.emit (by simp)) (by simp) _⟩

/-- A send hands over the last bytes for an endpoint whose counterpart is gone. -/
def Drains (e : Endpoint) (io : SocketIO) (p : ConnectionPeer) : Prop :=
  (p.socket e).isSome ∧ p.socket e.other = none ∧ (p.bufferFor e).bytesToSend ≠ 0 ∧
    p.bytesSent e io = (p.bufferFor e).bytesToSend

theorem ret_nonneg_of_not_sendFails (hopen : (p.socket e).isSome)
    (hsend : (p.bufferFor e).bytesToSend ≠ 0) (h : ¬p.SendFails e io) :
    0 ≤ (io.sendNB e (p.bufferFor e).bytesToSend).ret := by
  by_contra hneg
  exact h ⟨hopen, hsend, Int.not_le.mp hneg⟩

theorem drains_iff (hopen : (p.socket e).isSome) (hother : p.socket e.other = none)
    (hsend : (p.bufferFor e).bytesToSend ≠ 0) (h : ¬p.SendFails e io) :
    p.Drains e io ↔
      (p.bufferFor e).bytesToSend ≤ (io.sendNB e (p.bufferFor e).bytesToSend).ret := by
  have hnonneg := ret_nonneg_of_not_sendFails hopen hsend h
  have hle := (io.sendNB e (p.bufferFor e).bytesToSend).ret_le
  have hsent : p.bytesSent e io = (io.sendNB e (p.bufferFor e).bytesToSend).ret.toNat :=
    if_pos ⟨hopen, hsend⟩
  constructor
  · intro hd
    have hall := hd.2.2.2
    rw [hsent] at hall
    omega
  · intro hall
    refine ⟨hopen, hother, hsend, ?_⟩
    rw [hsent]
    omega

theorem sendMissingDataTo_of_not_fails (disconnected lost : UInt32) (h : ¬p.SendFails e io)
    (hkeep : ¬p.Drains e io) : p.Sends e io (p.sendMissingDataTo e disconnected lost io) := by
  by_cases hsend : (p.socket e).isSome ∧ (p.bufferFor e).bytesToSend ≠ 0
  · have hnot : ¬(io.sendNB e (p.bufferFor e).bytesToSend).ret < 0 :=
      fun hneg => h ⟨hsend.1, hsend.2, hneg⟩
    have hle := (io.sendNB e (p.bufferFor e).bytesToSend).ret_le
    simp only [sendMissingDataTo, if_pos hsend, if_neg hnot]
    by_cases hret : 0 < (io.sendNB e (p.bufferFor e).bytesToSend).ret
    · rw [if_pos hret, if_neg]
      · refine ⟨(SameEnds.emit (by simp)).trans (SameEnds.setBufferFor _), by simp, ?_⟩
        rw [bufferFor_setBufferFor_self, Buffer.bytesToSend_sent, bytesSent, if_pos hsend]
      · rintro ⟨hother, hlast⟩
        rw [Buffer.bytesToSend_sent] at hlast
        refine hkeep ⟨hsend.1, by simpa using hother, hsend.2, ?_⟩
        rw [bytesSent, if_pos hsend]
        omega
    · rw [if_neg hret]
      refine ⟨SameEnds.emit (by simp), by simp, ?_⟩
      rw [bufferFor_emit, bytesSent, if_pos hsend]
      omega
  · simp only [sendMissingDataTo, if_neg hsend]
    exact ⟨SameEnds.refl p, rfl, by rw [bytesSent, if_neg hsend, Nat.sub_zero]⟩

theorem sendMissingDataTo_of_drains (disconnected lost : UInt32) (h : p.Drains e io) :
    p.ClosedBy e statusPeerConnectionCancelled (p.sendMissingDataTo e disconnected lost io) := by
  obtain ⟨hopen, hother, hsend, hall⟩ := h
  have hcall : (p.socket e).isSome ∧ (p.bufferFor e).bytesToSend ≠ 0 := ⟨hopen, hsend⟩
  simp only [bytesSent, if_pos hcall] at hall
  have hret : 0 < (io.sendNB e (p.bufferFor e).bytesToSend).ret := by omega
  have hlast : ((p.bufferFor e).sent
      (io.sendNB e (p.bufferFor e).bytesToSend).ret.toNat).bytesToSend = 0 := by
    rw [Buffer.bytesToSend_sent, hall, Nat.sub_self]
  simp only [sendMissingDataTo, if_pos hcall, if_pos hret]
  rw [if_pos ⟨by simp [hother], hlast⟩]
  exact closedBy_closeEndpoint hopen ((SameEnds.emit (by simp)).trans (SameEnds.setBufferFor _))
    (by simp) _

theorem checkEndpoint_of_fails (lost : UInt32) (h : p.CheckFails e io) :
    p.ClosedBy e lost (p.checkEndpoint e lost io) := by
  have hsame : p.SameEnds (p.emit (.checkSocket e (io.checkSocket e))) := .emit (by simp)
  have hdone := closedBy_closeEndpoint h.1 hsame (by simp) lost
  simpa [checkEndpoint, h.1, h.2] using hdone

theorem checkEndpoint_of_not_fails (lost : UInt32) (h : ¬p.CheckFails e io) :
    p.SameEnds (p.checkEndpoint e lost io) ∧
      ∀ d, (p.checkEndpoint e lost io).bufferFor d = p.bufferFor d := by
  by_cases hopen : (p.socket e).isSome
  · have hnot : ¬io.checkSocket e < 0 := fun hneg => h ⟨hopen, hneg⟩
    simp only [checkEndpoint, if_pos hopen, if_neg hnot]
    exact ⟨SameEnds.emit (by simp), fun d => by simp⟩
  · simp only [checkEndpoint, if_neg hopen]
    exact ⟨SameEnds.refl p, by simp⟩

theorem sendMissingDataTo_of_closed {disconnected lost : UInt32} (h : p.socket e = none) :
    p.sendMissingDataTo e disconnected lost io = p := by
  simp [sendMissingDataTo, h]

theorem checkEndpoint_of_closed {lost : UInt32} (h : p.socket e = none) :
    p.checkEndpoint e lost io = p := by
  simp [checkEndpoint, h]

theorem checkPeers_of_not_fails (hok : ∀ d, ¬p.CheckFails d io) :
    p.SameEnds (p.checkPeers io) ∧ ∀ d, (p.checkPeers io).bufferFor d = p.bufferFor d := by
  have hserver := checkEndpoint_of_not_fails statusServerConnectionLost (hok .server)
  have hstill : ¬(p.checkEndpoint .server statusServerConnectionLost io).CheckFails .client io :=
    fun hf => hok .client ⟨by rw [← hserver.1.socket]; exact hf.1, hf.2⟩
  have hclient := checkEndpoint_of_not_fails statusClientConnectionLost hstill
  exact ⟨hserver.1.trans hclient.1, fun d => (hclient.2 d).trans (hserver.2 d)⟩

theorem checkPeers_of_client_fails (hf : ∃ d, p.CheckFails d io)
    (hserver : ¬p.CheckFails .server io) :
    ∃ q, p.SameEnds q ∧ (∀ d, q.bufferFor d = p.bufferFor d) ∧
      q.ClosedBy .client statusClientConnectionLost (p.checkPeers io) := by
  have hclient : p.CheckFails .client io := by
    obtain ⟨d, hd⟩ := hf
    cases d with
    | client => exact hd
    | server => exact absurd hd hserver
  have hr := checkEndpoint_of_not_fails statusServerConnectionLost hserver
  refine ⟨_, hr.1, hr.2, checkEndpoint_of_fails statusClientConnectionLost ⟨?_, hclient.2⟩⟩
  rw [hr.1.socket]
  exact hclient.1

/-! The four functions of the source. -/

theorem getMissingDataFromClient_of_fails (h : p.ReadFails .client io) :
    ∃ id, report id = some (if p.pServerConnected then .ended else .failed) ∧
      p.ClosedBy .client id (p.getMissingDataFromClient io) := by
  obtain ⟨ev, id, hid, hq⟩ := getMissingDataFrom_of_fails h
  refine ⟨id, ?_, hq⟩
  rw [pServerConnected_emit] at hid
  cases hcon : p.pServerConnected <;> rcases hid with rfl | rfl <;> simp [hcon] <;> decide

theorem getMissingDataFromClient_of_not_fails (h : ¬p.ReadFails .client io) :
    p.Reads .client io (p.getMissingDataFromClient io) :=
  getMissingDataFrom_of_not_fails h

theorem getMissingDataFromServer_of_fails (h : p.ReadFails .server io) :
    ∃ id, report id = some .ended ∧ p.ClosedBy .server id (p.getMissingDataFromServer io) := by
  obtain ⟨ev, id, hid, hq⟩ := getMissingDataFrom_of_fails h
  exact ⟨id, by rcases hid with rfl | rfl <;> rfl, hq⟩

theorem getMissingDataFromServer_of_not_fails (h : ¬p.ReadFails .server io) :
    p.Reads .server io (p.getMissingDataFromServer io) :=
  getMissingDataFrom_of_not_fails h

theorem sendMissingDataToClient_of_fails (h : p.SendFails .client io) :
    ∃ id, report id = some .ended ∧ p.ClosedBy .client id (p.sendMissingDataToClient io) := by
  obtain ⟨id, hid, hq⟩ := sendMissingDataTo_of_fails _ _ h
  exact ⟨id, by rcases hid with rfl | rfl <;> rfl, hq⟩

theorem sendMissingDataToServer_of_fails (h : p.SendFails .server io) :
    ∃ id, report id = some .ended ∧ p.ClosedBy .server id (p.sendMissingDataToServer io) := by
  obtain ⟨id, hid, hq⟩ := sendMissingDataTo_of_fails _ _ h
  exact ⟨id, by rcases hid with rfl | rfl <;> rfl, hq⟩

/-! ## Closed sockets stay closed -/

variable {d : Endpoint}

theorem closed_closeEndpoint (h : p.socket d = none) : (p.closeEndpoint e).socket d = none := by
  refine p.closeEndpoint_induct e (I := fun q => q.socket d = none) (fun q x hq => ?_) h
  rcases x.eq_or_other d with rfl | rfl
  · exact q.socket_drop_self x
  · rw [socket_drop_of_other, hq]

/-- An endpoint that is still open has its socket of before. -/
def Shrinks (p q : ConnectionPeer) : Prop := ∀ d, q.socket d = none ∨ q.socket d = p.socket d

theorem Shrinks.trans {q r : ConnectionPeer} (h : p.Shrinks q) (h' : q.Shrinks r) :
    p.Shrinks r := by
  intro d
  rcases h' d with hr | hr
  · exact .inl hr
  · rw [hr]
    exact h d

theorem SameEnds.shrinks {q : ConnectionPeer} (h : p.SameEnds q) : p.Shrinks q :=
  fun d => .inr (h.socket d)

theorem ClosedBy.shrinks {id : UInt32} {q : ConnectionPeer} (h : p.ClosedBy e id q) :
    p.Shrinks q := by
  intro d
  rcases d.eq_or_other e with rfl | rfl
  · exact .inl h.closed
  · rw [h.other]
    split
    · exact .inl rfl
    · exact .inr rfl

theorem shrinks_getMissingDataFrom {disconnected lost : ConnectionPeer → UInt32} :
    p.Shrinks (p.getMissingDataFrom e disconnected lost io) := by
  by_cases hf : p.ReadFails e io
  · obtain ⟨-, id, -, hq⟩ := getMissingDataFrom_of_fails hf
    exact hq.shrinks
  · exact (getMissingDataFrom_of_not_fails hf).same.shrinks

theorem shrinks_sendMissingDataTo {disconnected lost : UInt32} :
    p.Shrinks (p.sendMissingDataTo e disconnected lost io) := by
  by_cases hf : p.SendFails e io
  · obtain ⟨id, -, hq⟩ := sendMissingDataTo_of_fails disconnected lost hf
    exact hq.shrinks
  · by_cases hd : p.Drains e io
    · exact (sendMissingDataTo_of_drains _ _ hd).shrinks
    · exact (sendMissingDataTo_of_not_fails _ _ hf hd).same.shrinks

theorem closed_sendMissingDataTo {disconnected lost : UInt32} (h : p.socket d = none) :
    (p.sendMissingDataTo e disconnected lost io).socket d = none := by
  rcases p.shrinks_sendMissingDataTo d with hq | hq
  · exact hq
  · rw [hq, h]

theorem closed_finish {id : UInt32} (h : p.socket d = none) :
    (if (p.bufferFor e).bytesToSend = 0 then (p.closeEndpoint e).post id else p).socket d
      = none := by
  split
  · rw [socket_post]
    exact closed_closeEndpoint h
  · exact h

theorem client_open_of_connecting (hcon : p.pServerConnected = false)
    (hclient : (p.socket .client).isSome)
    (hserver : ((p.getMissingDataFromClient io).socket .server).isSome) :
    ((p.getMissingDataFromClient io).socket .client).isSome := by
  by_cases hf : p.ReadFails .client io
  · obtain ⟨id, -, hq⟩ := getMissingDataFromClient_of_fails hf
    have hother := hq.other
    simp only [Endpoint.other, Follows, hcon] at hother
    rw [hother] at hserver
    cases hs : p.socket .server <;> simp_all
  · rw [(getMissingDataFromClient_of_not_fails hf).same.socket]
    exact hclient

/-! ## The public operations where their pointers are known -/

variable {c s : Socket} {setr setw : FdSet}

theorem connectBoth_eq (hc : p.pClient = some c) :
    p.connectBoth setr setw io =
      let q := if c.isInFDSET setr then p.getMissingDataFromClient io else p
      match q.pServer with
      | none => .ok (false, q)
      | some s =>
          if s.isInFDSET setw then
            .ok (true, { q with pServerConnected := true }.post statusConnectionEstablished)
          else .ok (false, q) := by
  simp only [connectBoth, isInFDSET, hc, bind, Except.bind, pure, Except.pure]
  cases (if c.isInFDSET setr then p.getMissingDataFromClient io else p).pServer <;> simp

theorem relayFromClient_eq (setr setw : FdSet) (io : SocketIO) (hc : p.pClient = some c)
    (hs : p.pServer = some s) :
    p.relayFromClient setr setw io =
      .ok (if c.isInFDSET setr then (p.getMissingDataFromClient io).sendMissingDataToServer io
        else if s.isInFDSET setw then p.sendMissingDataToServer io else p) := by
  simp only [relayFromClient, isInFDSET, hc, hs, bind, Except.bind, pure, Except.pure]
  split
  · rfl
  · split <;> rfl

theorem relayFromServer_of_closed (hs : p.pServer = none) :
    p.relayFromServer setr setw io = .ok p := by
  simp [relayFromServer, hs, pure, Except.pure]

theorem relayFromServer_of_readable (hs : p.pServer = some s) (hr : s.isInFDSET setr) :
    p.relayFromServer setr setw io =
      .ok ((p.getMissingDataFromServer io).sendMissingDataToClient io) := by
  simp [relayFromServer, isInFDSET, hs, hr, bind, Except.bind, pure, Except.pure]

theorem relayFromServer_of_not_readable (hs : p.pServer = some s) (hr : ¬s.isInFDSET setr) :
    p.relayFromServer setr setw io =
      match p.pClient with
      | none => .error p
      | some c => .ok (if c.isInFDSET setw then p.sendMissingDataToClient io else p) := by
  simp only [relayFromServer, isInFDSET, hs, hr, bind, Except.bind, pure, Except.pure,
    Option.isSome_some, if_true, Bool.false_eq_true, if_false]
  cases p.pClient with
  | none => rfl
  | some c => dsimp only; split <;> rfl

theorem drainSingle_of_closed {send : SocketIO → ConnectionPeer → ConnectionPeer}
    (h : p.socket e = none) : p.drainSingle e send setw io = .ok p := by
  simp [drainSingle, h, pure, Except.pure]

theorem drainSingle_of_open {send : SocketIO → ConnectionPeer → ConnectionPeer}
    (h : p.socket e = some s) :
    p.drainSingle e send setw io =
      let q := if s.isInFDSET setw then send io p else p
      .ok (if (q.bufferFor e).bytesToSend = 0 then
        (q.closeEndpoint e).post statusPeerConnectionCancelled else q) := by
  simp only [drainSingle, isInFDSET, h, bind, Except.bind, pure, Except.pure, Option.isSome_some,
    if_true]
  split <;> split <;> rfl

/-- What `connectSingle` does to the client, with its result so far. -/
def connectSingleClient (setw : FdSet) (io : SocketIO) (p : ConnectionPeer) :
    Bool × ConnectionPeer :=
  match p.pClient with
  | none => (false, p)
  | some c =>
      let q := if c.isInFDSET setw then p.sendMissingDataToClient io else p
      if q.bufferForClient.bytesToSend = 0 then
        (true, q.closeClient.post statusPeerConnectionCancelled)
      else (false, q)

theorem closed_connectSingleClient (setw : FdSet) (io : SocketIO) (h : p.socket d = none) :
    (p.connectSingleClient setw io).2.socket d = none := by
  unfold connectSingleClient
  cases hc : p.pClient with
  | none => exact h
  | some c =>
      have hq : (if c.isInFDSET setw then p.sendMissingDataToClient io else p).socket d = none := by
        split
        · exact closed_sendMissingDataTo h
        · exact h
      dsimp only
      generalize (if c.isInFDSET setw then p.sendMissingDataToClient io else p) = q at hq
      split
      · rw [socket_post]
        exact closed_closeEndpoint hq
      · exact hq

theorem connectSingle_eq :
    p.connectSingle setw io =
      let q := p.connectSingleClient setw io
      .ok (if q.2.pServer.isSome then
        (false, q.2.closeServer.post statusPeerConnectionCancelled) else q) := by
  rcases hc : p.pClient with _ | c
  · simp only [connectSingle, connectSingleClient, hc, bind, Except.bind, pure, Except.pure,
      Option.isSome_none, Bool.false_eq_true, if_false]
    split <;> rfl
  · simp only [connectSingle, connectSingleClient, isInFDSET, hc, bind, Except.bind, pure,
      Except.pure, Option.isSome_some, if_true]
    generalize (if c.isInFDSET setw = true then sendMissingDataToClient io p else p) = q
    by_cases hz : q.bufferForClient.bytesToSend = 0
    · simp only [if_pos hz]
      split <;> rfl
    · simp only [if_neg hz]
      split <;> rfl

/-! ## A peer without sockets -/

theorem checkPeers_of_closed (h : ∀ d, p.socket d = none) : p.checkPeers io = p := by
  rw [checkPeers, checkEndpoint_of_closed (h .server), checkEndpoint_of_closed (h .client)]

theorem manageConnectingPeer_of_closed (h : ∀ d, p.socket d = none) :
    p.manageConnectingPeer setr setw io = .ok (false, p) := by
  have hc : p.pClient = none := h .client
  have hs : p.pServer = none := h .server
  simp [manageConnectingPeer, connectSingle_eq, connectSingleClient, hc, hs]

theorem manageConnections_of_closed (h : ∀ d, p.socket d = none) :
    p.manageConnections setr setw io = .ok p := by
  have hc : p.pClient = none := h .client
  have hs : p.pServer = none := h .server
  simp [manageConnections, drainSingle_of_closed, socket, hc, hs, bind, Except.bind]

theorem close_of_closed (h : ∀ d, p.socket d = none) : p.close = p := by
  rw [close, closeClient, closeEndpoint_of_closed p .client (h _), closeServer,
    closeEndpoint_of_closed p .server (h _)]

theorem perform_of_inactive (h : p.isActive = false) (op : Op) :
    p.perform op = .ok p ∨ ∃ id, p.perform op = .ok (p.post id) := by
  have hclosed := p.isActive_eq_false.mp h
  cases op with
  | manageConnectingPeer setr setw io =>
      exact .inl (by rw [perform, manageConnectingPeer_of_closed hclosed]; rfl)
  | manageConnections setr setw io => exact .inl (manageConnections_of_closed hclosed)
  | checkPeers io => exact .inl (congrArg _ (checkPeers_of_closed hclosed))
  | checkConnectingPeers io => exact .inl (congrArg _ (checkPeers_of_closed hclosed))
  | closePInfo pcheck =>
      by_cases hp : pcheck = p.pinfo
      · exact .inr ⟨_, by rw [perform, closePInfo, if_pos hp, close_of_closed hclosed]⟩
      · exact .inl (by rw [perform, closePInfo, if_neg hp])

end ConnectionPeer

end Relb
