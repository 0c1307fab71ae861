import Relb.Proofs.PeerSteps
/-!
# An invariant rule for the public operations of a peer

The public operations are built from a few calls. `Kept I` says that each of them keeps
`I`, under what is known where it is made, and then every public operation keeps `I`,
also where it faults. `KeptByCalls I` leaves the establishment out, which only
`manageConnectingPeer` makes. Two operations may end a peer with bytes pending
(`EndsPeer`), and `perform_of_endsPeer` says what they do.
-/

namespace Relb

open Lib

namespace ConnectionPeer

variable {p : ConnectionPeer} {io : SocketIO} {setr setw : FdSet}

structure KeptByCalls (I : ConnectionPeer → Prop) : Prop where
  getMissingDataFromClient : ∀ p io, I p → I (p.getMissingDataFromClient io)
  getMissingDataFromServer : ∀ p io, I p → I (p.getMissingDataFromServer io)
  sendMissingDataToClient : ∀ p io, I p → I (p.sendMissingDataToClient io)
  sendMissingDataToServer : ∀ p io, I p → I (p.sendMissingDataToServer io)
  checkServer : ∀ p io, I p → I (p.checkEndpoint .server statusServerConnectionLost io)
  checkClient : ∀ p io, I p → I (p.checkEndpoint .client statusClientConnectionLost io)
  /-- An endpoint without counterpart that has been sent everything is closed. -/
  finish : ∀ (p : ConnectionPeer) e, I p → p.socket e.other = none →
    (p.bufferFor e).bytesToSend = 0 → I ((p.closeEndpoint e).post statusPeerConnectionCancelled)

structure Kept (I : ConnectionPeer → Prop) : Prop extends KeptByCalls I where
  establish : ∀ p : ConnectionPeer, I p →
    (p.pServerConnected = false → ∀ e, (p.socket e).isSome) →
    I ({ p with pServerConnected := true }.post statusConnectionEstablished)

/-- The operations that may end a peer with bytes still pending: a close request for it, and
`manageConnectingPeer` where only the server is left, which is no longer connecting. -/
def EndsPeer (p : ConnectionPeer) : Op → Prop
  | .closePInfo pcheck => pcheck = p.pinfo
  | .manageConnectingPeer _ _ _ => p.socket .client = none ∧ (p.socket .server).isSome
  | _ => False

namespace KeptByCalls

variable {I : ConnectionPeer → Prop}

theorem finishIfDrained (hI : KeptByCalls I) (h : I p) {e : Endpoint}
    (hother : p.socket e.other = none) :
    I (if (p.bufferFor e).bytesToSend = 0 then
      (p.closeEndpoint e).post statusPeerConnectionCancelled else p) := by
  split
  · rename_i hz
    exact hI.finish p e h hother hz
  · exact h

theorem connectSingleClient (hI : KeptByCalls I) (h : I p)
    (hone : p.socket .client = none ∨ p.socket .server = none) :
    I (p.connectSingleClient setw io).2 := by
  cases hc : p.pClient with
  | none => simpa [ConnectionPeer.connectSingleClient, hc] using h
  | some c =>
      have hs : p.socket .server = none := by simpa [socket, hc] using hone
      have hq : I (if c.isInFDSET setw then p.sendMissingDataToClient io else p) := by
        split
        · exact hI.sendMissingDataToClient p io h
        · exact h
      have hqs : (if c.isInFDSET setw then p.sendMissingDataToClient io else p).socket .server
          = none := by
        split
        · exact closed_sendMissingDataTo hs
        · exact hs
      simp only [ConnectionPeer.connectSingleClient, hc]
      generalize (if c.isInFDSET setw then p.sendMissingDataToClient io else p) = q at hq hqs
      split
      · rename_i hz
        exact hI.finish q .client hq hqs hz
      · exact hq

theorem relayFromClient (hI : KeptByCalls I) (h : I p)
    (hboth : p.pClient.isSome ∧ p.pServer.isSome) :
    Always I (p.relayFromClient setr setw io) := by
  obtain ⟨c, hc⟩ := Option.isSome_iff_exists.mp hboth.1
  obtain ⟨s, hs⟩ := Option.isSome_iff_exists.mp hboth.2
  rw [relayFromClient_eq _ _ _ hc hs]
  apply Always.ok
  split
  · exact hI.sendMissingDataToServer _ io (hI.getMissingDataFromClient p io h)
  · split
    · exact hI.sendMissingDataToServer p io h
    · exact h

theorem relayFromServer (hI : KeptByCalls I) (h : I p) :
    Always I (p.relayFromServer setr setw io) := by
  rcases hs : p.pServer with _ | s
  · rw [relayFromServer_of_closed hs]
    exact .ok h
  · by_cases hr : s.isInFDSET setr
    · rw [relayFromServer_of_readable hs hr]
      exact .ok (hI.sendMissingDataToClient _ io (hI.getMissingDataFromServer p io h))
    · rw [relayFromServer_of_not_readable hs hr]
      rcases p.pClient with _ | c
      · exact h
      · apply Always.ok
        split
        · exact hI.sendMissingDataToClient p io h
        · exact h

theorem drainSingle (hI : KeptByCalls I) (setw : FdSet) (h : I p) {e : Endpoint}
    {send : SocketIO → ConnectionPeer → ConnectionPeer} (hsend : I (send io p))
    (hkeep : p.socket e.other = none → (send io p).socket e.other = none)
    (hone : p.socket e = none ∨ p.socket e.other = none) :
    Always (fun q => I q ∧ (q.socket e = none ∨ q.socket e.other = none))
      (p.drainSingle e send setw io) := by
  cases he : p.socket e with
  | none =>
      rw [drainSingle_of_closed he]
      exact .ok ⟨h, hone⟩
  | some s =>
      have hother : p.socket e.other = none := by simpa [he] using hone
      rw [drainSingle_of_open he]
      have hq : I (if s.isInFDSET setw then send io p else p) := by
        split
        · exact hsend
        · exact h
      have hqother : (if s.isInFDSET setw then send io p else p).socket e.other = none := by
        split
        · exact hkeep hother
        · exact hother
      exact .ok ⟨hI.finishIfDrained hq hqother, .inr (closed_finish hqother)⟩

theorem manageConnections (hI : KeptByCalls I) (h : I p) :
    Always I (p.manageConnections setr setw io) := by
  by_cases hboth : p.pClient.isSome ∧ p.pServer.isSome
  · rw [ConnectionPeer.manageConnections, if_pos hboth]
    exact (hI.relayFromClient h hboth).bind (fun q hq => hI.relayFromServer hq) fun q hq => hq
  · rw [ConnectionPeer.manageConnections, if_neg hboth]
    have hclient := hI.drainSingle setw h (hI.sendMissingDataToClient p io h)
      closed_sendMissingDataTo (one_closed hboth)
    refine hclient.bind (fun q hq => ?_) fun q hq => hq.1
    exact (hI.drainSingle setw (e := .server) hq.1 (hI.sendMissingDataToServer q io hq.1)
      closed_sendMissingDataTo hq.2.symm).imp fun r hr => hr.1

theorem checkPeers (hI : KeptByCalls I) (h : I p) : I (p.checkPeers io) :=
  hI.checkClient _ io (hI.checkServer p io h)

end KeptByCalls

namespace Kept

variable {I : ConnectionPeer → Prop}

theorem establishIfWritable (hI : Kept I) (h : I p)
    (hopen : p.pServerConnected = false → (p.socket .server).isSome → (p.socket .client).isSome) :
    Always I
      ((match p.pServer with
        | none => .ok (false, p)
        | some s =>
            if s.isInFDSET setw then
              .ok (true, { p with pServerConnected := true }.post statusConnectionEstablished)
            else .ok (false, p) : Except ConnectionPeer (Bool × ConnectionPeer)).map Prod.snd) := by
  cases hs : p.pServer with
  | none => exact h
  | some s =>
      dsimp only
      split
      · have hserver : (p.socket .server).isSome := by simp [socket, hs]
        have hest := hI.establish p h fun hcon e => by
          cases e with
          | client => exact hopen hcon hserver
          | server => exact hserver
        rw [hs] at hest
        exact hest
      · exact h

theorem connectBoth (hI : Kept I) (h : I p) (hboth : p.pClient.isSome ∧ p.pServer.isSome) :
    Always I ((p.connectBoth setr setw io).map Prod.snd) := by
  obtain ⟨c, hc⟩ := Option.isSome_iff_exists.mp hboth.1
  rw [connectBoth_eq hc]
  by_cases hr : c.isInFDSET setr
  · rw [if_pos hr]
    apply hI.establishIfWritable (hI.getMissingDataFromClient p io h)
    intro hcon hserver
    refine client_open_of_connecting ?_ hboth.1 hserver
    simpa [ConnectionPeer.getMissingDataFromClient] using hcon
  · rw [if_neg hr]
    exact hI.establishIfWritable h fun _ _ => hboth.1

theorem perform (hI : Kept I) (h : I p) {op : Op} (hop : ¬p.EndsPeer op) :
    Always I (p.perform op) := by
  cases op with
  | manageConnectingPeer setr setw io =>
      by_cases hboth : p.pClient.isSome ∧ p.pServer.isSome
      · rw [ConnectionPeer.perform, ConnectionPeer.manageConnectingPeer, if_pos hboth]
        exact hI.connectBoth h hboth
      · rw [ConnectionPeer.perform, ConnectionPeer.manageConnectingPeer, if_neg hboth]
        have hserver : p.socket .server = none := by
          rcases one_closed hboth with hc | hs
          · exact Option.not_isSome_iff_eq_none.mp fun hs => hop ⟨hc, hs⟩
          · exact hs
        have hclosed := closed_connectSingleClient setw io hserver
        rw [connectSingle_eq]
        simp only [pServer_eq, hclosed, Option.isSome_none, Bool.false_eq_true, if_false]
        exact hI.connectSingleClient h (.inr hserver)
  | manageConnections setr setw io => exact hI.manageConnections h
  | checkPeers io => exact .ok (hI.checkPeers h)
  | checkConnectingPeers io => exact .ok (hI.checkPeers h)
  | closePInfo pcheck =>
      have hp : pcheck ≠ p.pinfo := hop
      rw [ConnectionPeer.perform, closePInfo, if_neg hp]
      exact .ok h

end Kept

theorem perform_of_endsPeer {op : Op} (hop : p.EndsPeer op) :
    p.perform op = .ok (p.close.post statusServerDisconnectedOk) ∨
      p.socket .client = none ∧
        p.perform op = .ok (p.closeServer.post statusPeerConnectionCancelled) := by
  cases op with
  | manageConnections | checkPeers | checkConnectingPeers => exact hop.elim
  | manageConnectingPeer setr setw io =>
      obtain ⟨hclient, hserver⟩ := hop
      refine .inr ⟨hclient, ?_⟩
      rw [← pClient_eq] at hclient
      rw [← pServer_eq] at hserver
      simp [ConnectionPeer.perform, ConnectionPeer.manageConnectingPeer, connectSingle_eq,
        ConnectionPeer.connectSingleClient, hclient, hserver, Except.map]
  | closePInfo pcheck =>
      have hp : pcheck = p.pinfo := hop
      exact .inl (by rw [ConnectionPeer.perform, closePInfo, if_pos hp])

theorem isActive_post (id : UInt32) : (p.post id).isActive = p.isActive := by
  simp only [isActive, pClient_eq, pServer_eq, socket_post]

theorem isActive_closeServer (hclient : p.socket .client = none) :
    p.closeServer.isActive = false := by
  rw [isActive_eq_false]
  intro d
  cases d with
  | client => exact closed_closeEndpoint hclient
  | server => exact socket_closeEndpoint_self p .server

theorem inactive_of_endsPeer {op : Op} (hop : p.EndsPeer op) :
    (final (p.perform op)).isActive = false := by
  rcases perform_of_endsPeer hop with hq | ⟨hclient, hq⟩
  · rw [hq, final_ok, isActive_post, isActive_close]
  · rw [hq, final_ok, isActive_post, isActive_closeServer hclient]

end ConnectionPeer

end Relb
