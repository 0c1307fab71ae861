import Relb.Proofs.PeerRule
import Relb.Proofs.Relay
/-!
# Clean closes, and relay fidelity over whole runs

`Settled p e` says that a closed endpoint either failed itself or was closed together
with the other one after it had been sent everything. Together with `Faithful` it
survives every public operation of a peer, with two exceptions that end the peer:
`closePInfo`, and `manageConnectingPeer` on a peer whose client is gone.
-/

namespace Relb

open Lib

namespace ConnectionPeer

/-- A closed endpoint of an established peer has failed itself, or both endpoints are closed
and it has been sent everything. -/
def Settled (p : ConnectionPeer) (e : Endpoint) : Prop :=
  p.pServerConnected = true → p.socket e = none →
    (∃ ev ∈ p.trace, ev.Negative e) ∨
      (p.isActive = false ∧ p.deliveredTo e = p.receivedFor e)

variable {p : ConnectionPeer}

/-! ## Clean closes -/

theorem Settled.of_open {e : Endpoint} (h : (p.socket e).isSome) : p.Settled e := by
  intro _ hclosed
  simp [hclosed] at h

theorem Settled.of_negative {e : Endpoint} (h : ∃ ev ∈ p.trace, ev.Negative e) : p.Settled e :=
  fun _ _ => .inl h

/-- While one endpoint is open, a closed one has failed itself; more events do not change
that. -/
theorem Settled.extend {q : ConnectionPeer} {e d : Endpoint} (h : p.Settled e)
    (hopen : (p.socket d).isSome) (hclosed : p.socket e = none)
    (hcon : q.pServerConnected = true → p.pServerConnected = true)
    (htrace : p.trace <+: q.trace) : q.Settled e := by
  intro hq _
  rcases h (hcon hq) hclosed with ⟨ev, hev, hneg⟩ | ⟨hinactive, -⟩
  · exact .inl ⟨ev, htrace.subset hev, hneg⟩
  · rw [p.isActive_eq_false.mp hinactive d] at hopen
    simp at hopen

theorem Settled.emit {e : Endpoint} (h : p.Settled e) {ev : Event}
    (hin : ev.bytesFrom e.other = []) (hout : ev.bytesTo e = []) : (p.emit ev).Settled e := by
  intro hcon hclosed
  rcases h hcon (by simpa using hclosed) with ⟨x, hx, hneg⟩ | ⟨hinactive, hbytes⟩
  · exact .inl ⟨x, by simp [hx], hneg⟩
  · refine .inr ⟨hinactive, ?_⟩
    simpa [deliveredTo, receivedFor, hin, hout] using hbytes

theorem Settled.post {e : Endpoint} (h : p.Settled e) (id : UInt32) : (p.post id).Settled e := by
  unfold ConnectionPeer.post
  split
  · exact h.emit rfl rfl
  · exact h

/-- Why `d` may be closed: it has failed, or it is the only one left and has nothing to be
sent. -/
def MayClose (p : ConnectionPeer) (d : Endpoint) : Prop :=
  (∃ ev ∈ p.trace, ev.Negative d) ∨
    (p.socket d.other = none ∧ (p.bufferFor d).bytesToSend = 0)

theorem mayClose_of_negative {d : Endpoint} {ev : Event} (h : ev.Negative d) :
    (p.emit ev).MayClose d :=
  .inl ⟨ev, by simp, h⟩

theorem deliveredTo_drop (d e : Endpoint) : (p.drop d).deliveredTo e = p.deliveredTo e := by
  simp [deliveredTo, Event.bytesTo]

theorem receivedFor_drop (d e : Endpoint) : (p.drop d).receivedFor e = p.receivedFor e := by
  simp [receivedFor, Event.bytesFrom]

theorem Faithful.drained {e : Endpoint} (h : p.Faithful e) (hopen : (p.socket e).isSome)
    (hsend : (p.bufferFor e).bytesToSend = 0) : p.deliveredTo e = p.receivedFor e :=
  (h.conserves hopen).drained (h.sound.pending_nil hsend)

theorem settled_closeEndpoint {d : Endpoint} (hf : ∀ e, p.Faithful e) (hs : ∀ e, p.Settled e)
    (hcause : p.MayClose d) (e : Endpoint) : (p.closeEndpoint d).Settled e := by
  by_cases hopen : (p.socket d).isSome
  swap
  · rw [closeEndpoint_of_closed p d (by simpa using hopen)]
    exact hs e
  rw [closeEndpoint_of_open p d hopen]
  rcases e.eq_or_other d with rfl | rfl
  · rcases hcause with ⟨ev, hev, hneg⟩ | ⟨hother, hsend⟩
    · apply Settled.of_negative
      split <;> exact ⟨ev, by simp [hev], hneg⟩
    · have hnot : ¬p.Follows e := by simp [Follows, hother]
      rw [if_neg hnot]
      intro _ _
      refine .inr ⟨?_, ?_⟩
      · rw [isActive_eq_false]
        intro x
        rcases x.eq_or_other e with rfl | rfl
        · exact socket_drop_self p x
        · rw [socket_drop_other, hother]
      · rw [deliveredTo_drop, receivedFor_drop]
        exact (hf e).drained hopen hsend
  · split
    · rename_i hfollows
      intro hcon _
      refine .inr ⟨?_, ?_⟩
      · rw [isActive_eq_false]
        intro x
        rcases x.eq_or_other d with rfl | rfl <;> simp
      · have hsend : (p.bufferFor d.other).bytesToSend = 0 := by
          rcases hfollows.2 with hz | ⟨-, hnot⟩
          · exact hz
          · simp [hnot] at hcon
        rw [deliveredTo_drop, receivedFor_drop, deliveredTo_drop, receivedFor_drop]
        exact (hf d.other).drained hfollows.1 hsend
    · cases hother : p.socket d.other with
      | none => exact (hs d.other).extend hopen hother (by simp) (by simp)
      | some s => exact .of_open (by simp [hother])

theorem settled_emit {d : Endpoint} (hs : ∀ e, p.Settled e) (hopen : (p.socket d).isSome)
    (ev : Event) (e : Endpoint) : (p.emit ev).Settled e := by
  cases he : p.socket e with
  | none => exact (hs e).extend hopen he (by simp) (by simp)
  | some s => exact .of_open (by simp [he])

theorem settled_setBufferFor {d : Endpoint} (hs : ∀ e, p.Settled e) (b : Buffer) (e : Endpoint) :
    (p.setBufferFor d b).Settled e := by
  intro hcon hclosed
  have h := hs e (by simpa using hcon) (by simpa using hclosed)
  simpa [deliveredTo, receivedFor, isActive, pClient_eq, pServer_eq] using h

theorem settled_getMissingDataFrom (e : Endpoint) (disconnected lost : ConnectionPeer → UInt32)
    (io : SocketIO) (hf : ∀ d, p.Faithful d) (hs : ∀ d, p.Settled d) (d : Endpoint) :
    (p.getMissingDataFrom e disconnected lost io).Settled d := by
  have hinside := (hf e.other).sound.window_inside
  simp only [getMissingDataFrom]
  split
  · rename_i hopen
    split
    · exact settled_setBufferFor (settled_emit hs hopen.1 _) _ d
    · rename_i hret
      split
      · rename_i hneg
        split <;>
          exact (settled_closeEndpoint (fun d => (hf d).emit_receive hinside hret)
            (settled_emit hs hopen.1 _) (mayClose_of_negative ⟨rfl, hneg⟩) d).post _
      · exact settled_emit hs hopen.1 _ d
  · exact hs d

theorem settled_sendMissingDataTo (e : Endpoint) (disconnected lost : UInt32) (io : SocketIO)
    (hf : ∀ d, p.Faithful d) (hs : ∀ d, p.Settled d) (d : Endpoint) :
    (p.sendMissingDataTo e disconnected lost io).Settled d := by
  simp only [sendMissingDataTo]
  split
  · rename_i hopen
    split
    · rename_i hret
      have hset := settled_setBufferFor (d := e) (settled_emit hs hopen.1
        (.sendNB e ((p.bufferFor e).slice (p.bufferFor e).rOffset (p.bufferFor e).bytesToSend)
          (io.sendNB e (p.bufferFor e).bytesToSend).ret))
        ((p.bufferFor e).sent (io.sendNB e (p.bufferFor e).bytesToSend).ret.toNat)
      split
      · rename_i hlast
        refine (settled_closeEndpoint (faithful_sent hf hopen.1 _ hret) hset (.inr ?_) d).post _
        simpa using hlast
      · exact hset d
    · rename_i hret
      split
      · rename_i hneg
        split <;>
          exact (settled_closeEndpoint (fun d => (hf d).emit_send hret)
            (settled_emit hs hopen.1 _) (mayClose_of_negative ⟨rfl, hneg⟩) d).post _
      · exact settled_emit hs hopen.1 _ d
  · exact hs d

theorem settled_checkEndpoint (e : Endpoint) (lost : UInt32) (io : SocketIO)
    (hf : ∀ d, p.Faithful d) (hs : ∀ d, p.Settled d) (d : Endpoint) :
    (p.checkEndpoint e lost io).Settled d := by
  simp only [checkEndpoint]
  split
  · rename_i hopen
    split
    · rename_i hneg
      exact (settled_closeEndpoint (fun d => (hf d).emit_check (d := e) _) (settled_emit hs hopen _)
        (mayClose_of_negative ⟨rfl, hneg⟩) d).post _
    · exact settled_emit hs hopen _ d
  · exact hs d

/-! ## Public operations -/

/-- Both directions are faithful, and closed endpoints settled. -/
structure Relaying (p : ConnectionPeer) : Prop where
  faithful : ∀ d, p.Faithful d
  settled : ∀ d, p.Settled d

theorem Relaying.establish (h : p.Relaying)
    (hopen : p.pServerConnected = false → ∀ e, (p.socket e).isSome) :
    Relaying { p with pServerConnected := true } := by
  refine ⟨fun d => (h.faithful d).setConnected, fun d => ?_⟩
  by_cases hcon : p.pServerConnected = true
  · have hsame : { p with pServerConnected := true } = p := by rw [← hcon]
    rw [hsame]
    exact h.settled d
  · have hd := hopen (by simpa using hcon) d
    cases d <;> exact .of_open hd

theorem Relaying.post (h : p.Relaying) (id : UInt32) : (p.post id).Relaying :=
  ⟨fun d => (h.faithful d).post id, fun d => (h.settled d).post id⟩

theorem kept_relaying : Kept Relaying where
  getMissingDataFromClient _ io h := ⟨faithful_getMissingDataFrom _ _ _ io h.faithful,
    settled_getMissingDataFrom _ _ _ io h.faithful h.settled⟩
  getMissingDataFromServer _ io h := ⟨faithful_getMissingDataFrom _ _ _ io h.faithful,
    settled_getMissingDataFrom _ _ _ io h.faithful h.settled⟩
  sendMissingDataToClient _ io h := ⟨faithful_sendMissingDataTo _ _ _ io h.faithful,
    settled_sendMissingDataTo _ _ _ io h.faithful h.settled⟩
  sendMissingDataToServer _ io h := ⟨faithful_sendMissingDataTo _ _ _ io h.faithful,
    settled_sendMissingDataTo _ _ _ io h.faithful h.settled⟩
  checkServer _ io h := ⟨faithful_checkEndpoint _ _ io h.faithful,
    settled_checkEndpoint _ _ io h.faithful h.settled⟩
  checkClient _ io h := ⟨faithful_checkEndpoint _ _ io h.faithful,
    settled_checkEndpoint _ _ io h.faithful h.settled⟩
  establish _ h hopen := (h.establish hopen).post _
  finish _ e h hother hsend := Relaying.post ⟨fun d => (h.faithful d).closeEndpoint e,
    settled_closeEndpoint h.faithful h.settled (.inr ⟨hother, hsend⟩)⟩ _

/-! ## Whole runs -/

theorem faithful_of_endsPeer (h : ∀ d, p.Faithful d) {op : Op} (hop : p.EndsPeer op)
    (d : Endpoint) : (final (p.perform op)).Faithful d := by
  rcases perform_of_endsPeer hop with hq | ⟨-, hq⟩ <;> rw [hq]
  · exact (h d).close.post _
  · exact ((h d).closeEndpoint .server).post _

/-- What holds of every peer that public operations lead to. -/
structure Sane (p : ConnectionPeer) : Prop where
  faithful : ∀ d, p.Faithful d
  settled : p.isActive = true → ∀ d, p.Settled d

theorem sane_of_created (h : p.Created) : p.Sane := by
  obtain ⟨memory, pcli, psrv, jq, info, rfl⟩ := h
  refine ⟨fun d => ⟨?_, ?_, ?_, ?_⟩, fun _ d hcon => ?_⟩
  · cases d <;> exact Buffer.sound_reset _
  · intro ev hev
    cases hev
  · exact .nil
  · intro _
    cases d <;> exact .nil
  · cases hcon

theorem Sane.perform (h : p.Sane) (op : Op) : Always Sane (p.perform op) := by
  cases hactive : p.isActive with
  | false =>
      rcases perform_of_inactive hactive op with hq | ⟨id, hq⟩ <;> rw [hq]
      · exact .ok h
      · refine .ok ⟨fun d => (h.faithful d).post id, fun hpost => ?_⟩
        rw [isActive_post, hactive] at hpost
        cases hpost
  | true =>
      by_cases hop : p.EndsPeer op
      · refine ⟨faithful_of_endsPeer h.faithful hop, fun hq => ?_⟩
        rw [inactive_of_endsPeer hop] at hq
        cases hq
      · have hrel : Relaying p := ⟨h.faithful, h.settled hactive⟩
        exact (kept_relaying.perform hrel hop).imp fun q hq => ⟨hq.faithful, fun _ => hq.settled⟩

theorem sane_of_reachable (h : p.Reachable) : p.Sane :=
  h.invariant (fun _ => sane_of_created) fun _ op hq => hq.perform op

/-- The operation closes `e` of a connected peer although no call on it has failed and no
close request named the peer. -/
structure ClosesUnasked (p : ConnectionPeer) (op : Op) (e : Endpoint) : Prop where
  opened : (p.socket e).isSome
  closed : (final (p.perform op)).socket e = none
  connected : (final (p.perform op)).pServerConnected = true
  notFailed : ¬∃ ev ∈ (final (p.perform op)).trace, ev.Negative e
  notAsked : op ≠ .closePInfo p.pinfo

/-- In every run and for both directions: receive windows stay inside the buffer, what is
delivered is a prefix of what was received, nothing is lost while the destination is open,
and an endpoint closed unasked has been sent everything that was received for it, unless
`manageConnectingPeer` is called for a peer whose client is gone. -/
theorem relay_fidelity (h : p.Reachable) (op : Op) (e : Endpoint) :
    p.Faithful e ∧ (final (p.perform op)).Faithful e ∧
      (p.ClosesUnasked op e →
        ¬((∃ setr setw io, op = .manageConnectingPeer setr setw io) ∧ p.socket .client = none) →
        (final (p.perform op)).deliveredTo e = (final (p.perform op)).receivedFor e) := by
  have hsane := sane_of_reachable h
  refine ⟨hsane.faithful e, (hsane.perform op).faithful e, fun hclose hop => ?_⟩
  have hactive : p.isActive = true := by
    by_contra hinactive
    have hclosed := p.isActive_eq_false.mp (by simpa using hinactive) e
    simpa [hclosed] using hclose.opened
  have hnot : ¬p.EndsPeer op := by
    intro hends
    cases op with
    | manageConnectingPeer setr setw io => exact hop ⟨⟨setr, setw, io, rfl⟩, hends.1⟩
    | closePInfo pcheck => exact hclose.notAsked (congrArg Op.closePInfo hends)
    | _ => exact hends
  have hrel : Relaying p := ⟨hsane.faithful, hsane.settled hactive⟩
  have hsettled := (kept_relaying.perform hrel hnot).settled e hclose.connected hclose.closed
  rcases hsettled with hneg | ⟨-, hbytes⟩
  · exact absurd hneg hclose.notFailed
  · exact hbytes

/-! Two short runs. The client sends a byte while the server becomes connected, and is found
broken by `checkPeers`. If the byte was sent on before, both sockets are closed; otherwise the
server stays, and a `manageConnectingPeer` that follows closes it with the byte pending. -/

namespace HalfOpen

open Sample

def serverAccepts : SocketIO :=
  { SocketIO.idle with sendNB := fun _ => SendResult.upTo 1 }

def clientBroken : SocketIO :=
  { SocketIO.idle with checkSocket := fun e => if e = .client then -1 else 0 }

def send : Op := .manageConnections (fun _ => false) (fun fd => fd == 2) serverAccepts

def check : Op := .checkPeers clientBroken

def connectAgain : Op := .manageConnectingPeer (fun _ => false) (fun _ => false) .idle

def sent : ConnectionPeer := final (connected.perform send)

def halfOpen : ConnectionPeer := final (connected.perform check)

theorem reachable_sent : sent.Reachable := reachable_connected.perform send rfl

theorem reachable_halfOpen : halfOpen.Reachable := reachable_connected.perform check rfl

end HalfOpen

theorem relay_fidelity_drained :
    (final (HalfOpen.sent.perform HalfOpen.check)).deliveredTo .server = [97] := by
  have hfidelity := (relay_fidelity HalfOpen.reachable_sent HalfOpen.check .server).2.2
  have hclose : HalfOpen.sent.ClosesUnasked HalfOpen.check .server :=
    ⟨rfl, rfl, rfl, by decide, by simp [HalfOpen.check]⟩
  rw [hfidelity hclose (by simp [HalfOpen.check])]
  rfl

theorem relay_fidelity_connectingPeer_loses :
    ¬∀ (p : ConnectionPeer) (op : Op) (e : Endpoint), p.Reachable → p.ClosesUnasked op e →
      (final (p.perform op)).deliveredTo e = (final (p.perform op)).receivedFor e := by
  intro h
  have hclose : HalfOpen.halfOpen.ClosesUnasked HalfOpen.connectAgain .server :=
    ⟨rfl, rfl, rfl, by decide, by simp [HalfOpen.connectAgain]⟩
  have hlost := h _ _ _ HalfOpen.reachable_halfOpen hclose
  revert hlost
  decide

end ConnectionPeer

end Relb
