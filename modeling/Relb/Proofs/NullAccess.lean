import Relb.Proofs.PeerSteps
/-!
# Where a peer goes through a null pointer

`manageConnections` tests both sockets, relays from the client and then goes on with
the server. If the client has ended meanwhile and the server could not take the rest of
its bytes, the server stays without a client, and the test for a writable client goes
through the null pointer unless the server happens to be readable. `ServerBlocked` is
that situation, and it is the only one.
-/

namespace Relb

open Lib

namespace ConnectionPeer

variable {p : ConnectionPeer} {io : SocketIO} {setr setw : FdSet}

/-- The client ends while the connected server, which is not readable, cannot take all of the
bytes still pending for it. -/
structure ServerBlocked (setr : FdSet) (io : SocketIO) (p : ConnectionPeer) : Prop where
  clientReadable : ∃ c, p.pClient = some c ∧ c.isInFDSET setr
  serverNotReadable : ∃ s, p.pServer = some s ∧ ¬s.isInFDSET setr
  clientEnds : p.ReadFails .client io
  connected : p.pServerConnected = true
  pending : p.bufferForServer.bytesToSend ≠ 0
  notBroken : 0 ≤ (io.sendNB .server p.bufferForServer.bytesToSend).ret
  notAll : (io.sendNB .server p.bufferForServer.bytesToSend).ret < p.bufferForServer.bytesToSend

theorem manageConnectingPeer_ok (setr setw : FdSet) (io : SocketIO) :
    ∃ r, p.manageConnectingPeer setr setw io = .ok r := by
  unfold manageConnectingPeer
  split
  · rename_i hboth
    obtain ⟨c, hc⟩ := Option.isSome_iff_exists.mp hboth.1
    rw [connectBoth_eq hc]
    dsimp only
    split
    · exact ⟨_, rfl⟩
    · split <;> exact ⟨_, rfl⟩
  · rw [connectSingle_eq]
    exact ⟨_, rfl⟩

theorem drainSingle_ok (e : Endpoint) (send : SocketIO → ConnectionPeer → ConnectionPeer)
    (setw : FdSet) (io : SocketIO) :
    ∃ q, p.drainSingle e send setw io = .ok q := by
  cases he : p.socket e with
  | none => exact ⟨_, drainSingle_of_closed he⟩
  | some s => exact ⟨_, drainSingle_of_open he⟩

theorem relayFromServer_error_iff :
    (∃ q, p.relayFromServer setr setw io = .error q) ↔
      p.pClient = none ∧ ∃ s, p.pServer = some s ∧ ¬s.isInFDSET setr := by
  cases hs : p.pServer with
  | none => simp [relayFromServer_of_closed hs]
  | some s =>
      by_cases hr : s.isInFDSET setr
      · simp [relayFromServer_of_readable hs hr, hr]
      · rw [relayFromServer_of_not_readable hs hr]
        cases hc : p.pClient <;> simp [hr]

theorem client_open_of_sendMissingDataToServer (hclient : (p.socket .client).isSome)
    (hserver : ((p.sendMissingDataToServer io).socket .server).isSome) :
    ((p.sendMissingDataToServer io).socket .client).isSome := by
  have hnotDrains : ¬p.Drains .server io := by
    rintro ⟨-, hother, -⟩
    simp [Endpoint.other] at hother
    simp [hother] at hclient
  by_cases hf : p.SendFails .server io
  · obtain ⟨id, -, hq⟩ := sendMissingDataToServer_of_fails hf
    simp [hq.closed] at hserver
  · rw [sendMissingDataToServer, (sendMissingDataTo_of_not_fails _ _ hf hnotDrains).same.socket]
    exact hclient

theorem client_open_of_relayFromClient {c s : Socket} (hc : p.pClient = some c)
    (hs : p.pServer = some s) (hends : ¬(c.isInFDSET setr ∧ p.ReadFails .client io))
    {q : ConnectionPeer} (hq : p.relayFromClient setr setw io = .ok q)
    (hserver : (q.socket .server).isSome) : (q.socket .client).isSome := by
  have hclient : (p.socket .client).isSome := by simp [socket, hc]
  rw [relayFromClient_eq _ _ _ hc hs] at hq
  obtain rfl := Except.ok.inj hq
  by_cases hr : c.isInFDSET setr
  · rw [if_pos hr] at hserver ⊢
    have hreads := getMissingDataFromClient_of_not_fails (fun hf => hends ⟨hr, hf⟩)
    exact client_open_of_sendMissingDataToServer (by rwa [hreads.same.socket]) hserver
  · rw [if_neg hr] at hserver ⊢
    by_cases hw : s.isInFDSET setw
    · rw [if_pos hw] at hserver ⊢
      exact client_open_of_sendMissingDataToServer hclient hserver
    · rw [if_neg hw]
      exact hclient

/-- After the end of the client, the server is left alone exactly when it is connected and has
taken some but not all of its bytes. -/
theorem server_left_iff (hs : (p.socket .server).isSome) (hends : p.ReadFails .client io) :
    (((p.getMissingDataFromClient io).sendMissingDataToServer io).socket .server).isSome ↔
      p.pServerConnected = true ∧ p.bufferForServer.bytesToSend ≠ 0 ∧
        0 ≤ (io.sendNB .server p.bufferForServer.bytesToSend).ret ∧
        (io.sendNB .server p.bufferForServer.bytesToSend).ret <
          p.bufferForServer.bytesToSend := by
  obtain ⟨id, -, hr⟩ := getMissingDataFromClient_of_fails hends
  generalize p.getMissingDataFromClient io = r at hr
  by_cases hf : p.Follows .client
  · have hclosed : r.socket .server = none := by simpa [Endpoint.other, hf] using hr.other
    have hq : (r.sendMissingDataToServer io).socket .server = none :=
      closed_sendMissingDataTo hclosed
    rw [hq]
    rcases hf.2 with hz | ⟨-, hnot⟩
    · have hz' : p.bufferForServer.bytesToSend = 0 := hz
      simp [hz']
    · simp [hnot]
  · have hcon : p.pServerConnected = true ∧ p.bufferForServer.bytesToSend ≠ 0 := by
      have hs' : (p.socket Endpoint.client.other).isSome := hs
      simp only [Follows, hs', true_and, not_or, true_and, Bool.not_eq_false] at hf
      exact ⟨hf.2, hf.1⟩
    have hopen : (r.socket .server).isSome := by
      have hother := hr.other
      rw [if_neg hf] at hother
      exact hother ▸ hs
    have hbuf : r.bufferFor .server = p.bufferForServer := hr.pending hf
    have hsend : (r.bufferFor .server).bytesToSend ≠ 0 := hbuf ▸ hcon.2
    by_cases hsf : r.SendFails .server io
    · obtain ⟨id', -, hq⟩ := sendMissingDataToServer_of_fails hsf
      have hneg := hsf.2.2
      rw [hbuf] at hneg
      simp only [hq.closed, Option.isSome_none, Bool.false_eq_true, false_iff]
      omega
    · have hnonneg := ret_nonneg_of_not_sendFails hopen hsend hsf
      have hdrains := drains_iff hopen hr.closed hsend hsf
      rw [hbuf] at hnonneg hdrains
      by_cases hd : r.Drains .server io
      · rw [sendMissingDataToServer, (sendMissingDataTo_of_drains _ _ hd).closed]
        refine iff_of_false Bool.false_ne_true ?_
        rintro ⟨-, -, -, hleft⟩
        exact absurd (hdrains.mp hd) (Int.not_le.mpr hleft)
      · rw [sendMissingDataToServer, (sendMissingDataTo_of_not_fails _ _ hsf hd).same.socket]
        exact iff_of_true hopen ⟨hcon.1, hcon.2, hnonneg, Int.not_le.mp (hdrains.not.mp hd)⟩

/-- `manageConnections` goes through a null pointer exactly when the server is blocked. -/
theorem manageConnections_error_iff (setw : FdSet) :
    (∃ q, p.manageConnections setr setw io = .error q) ↔ p.ServerBlocked setr io := by
  by_cases hboth : p.pClient.isSome ∧ p.pServer.isSome
  swap
  · obtain ⟨q, hq⟩ := p.drainSingle_ok .client sendMissingDataToClient setw io
    obtain ⟨r, hr⟩ := q.drainSingle_ok .server sendMissingDataToServer setw io
    have hok : p.manageConnections setr setw io = .ok r := by
      rw [manageConnections, if_neg hboth, hq]
      exact hr
    simp only [hok, reduceCtorEq, exists_false, false_iff]
    rintro ⟨⟨c, hc, -⟩, ⟨s, hs, -⟩, -⟩
    exact hboth ⟨by simp [hc], by simp [hs]⟩
  obtain ⟨c, hc⟩ := Option.isSome_iff_exists.mp hboth.1
  obtain ⟨s, hs⟩ := Option.isSome_iff_exists.mp hboth.2
  have hfirst := relayFromClient_eq setr setw io hc hs
  rw [manageConnections, if_pos hboth]
  by_cases hends : c.isInFDSET setr ∧ p.ReadFails .client io
  · have hserver : (p.socket .server).isSome := hboth.2
    have hleft := server_left_iff hserver hends.2
    have hshrinks : p.Shrinks ((p.getMissingDataFromClient io).sendMissingDataToServer io) :=
      shrinks_getMissingDataFrom.trans shrinks_sendMissingDataTo
    have hclient : ((p.getMissingDataFromClient io).sendMissingDataToServer io).pClient = none := by
      obtain ⟨id, -, hr⟩ := getMissingDataFromClient_of_fails hends.2
      exact closed_sendMissingDataTo hr.closed
    rw [if_pos hends.1] at hfirst
    rw [hfirst]
    change (∃ q, relayFromServer setr setw io _ = .error q) ↔ _
    rw [relayFromServer_error_iff]
    constructor
    · rintro ⟨-, s', hs', hr⟩
      obtain rfl : s' = s := by
        rcases hshrinks .server with hq | hq
        · simp [socket, hs'] at hq
        · simpa [socket, hs', hs] using hq
      obtain ⟨hcon, hpending, hnotBroken, hnotAll⟩ := hleft.mp (by simp [socket, hs'])
      exact ⟨⟨c, hc, hends.1⟩, ⟨s', hs, hr⟩, hends.2, hcon, hpending, hnotBroken, hnotAll⟩
    · rintro ⟨-, ⟨s', hs', hr⟩, -, hcon, hpending, hnotBroken, hnotAll⟩
      refine ⟨hclient, s', ?_, hr⟩
      have hopen := hleft.mpr ⟨hcon, hpending, hnotBroken, hnotAll⟩
      rcases hshrinks .server with hq | hq
      · simp [hq] at hopen
      · exact hq.trans hs'
  · rw [hfirst]
    have hkeep := fun h => client_open_of_relayFromClient hc hs hends hfirst h
    change (∃ q, relayFromServer setr setw io _ = .error q) ↔ _
    rw [relayFromServer_error_iff]
    constructor
    · rintro ⟨hnone, s', hs', -⟩
      have hclient := hkeep (by simp only [socket, hs', Option.isSome_some])
      simp only [socket, hnone, Option.isSome_none, Bool.false_eq_true] at hclient
    · rintro ⟨⟨c', hc', hr⟩, -, hfails, -⟩
      rw [hc] at hc'
      obtain rfl := Option.some.inj hc'
      exact absurd ⟨hr, hfails⟩ hends

/-! ## Whole runs -/

/-- What an operation must meet. -/
def Unblocked (p : ConnectionPeer) : Op → Prop
  | .manageConnections setr _ io => ¬p.ServerBlocked setr io
  | _ => True

theorem perform_ok_iff (p : ConnectionPeer) (op : Op) :
    (∃ q, p.perform op = .ok q) ↔ p.Unblocked op := by
  cases op with
  | manageConnectingPeer setr setw io =>
      obtain ⟨r, hr⟩ := p.manageConnectingPeer_ok setr setw io
      exact iff_of_true ⟨r.2, by rw [perform, hr]; rfl⟩ trivial
  | manageConnections setr setw io =>
      rw [Unblocked, ← manageConnections_error_iff setw, perform]
      cases p.manageConnections setr setw io <;> simp
  | checkPeers io => exact iff_of_true ⟨_, rfl⟩ trivial
  | checkConnectingPeers io => exact iff_of_true ⟨_, rfl⟩ trivial
  | closePInfo pcheck => exact iff_of_true ⟨_, rfl⟩ trivial

/-- A run from the constructor goes through a null pointer exactly when one of its steps finds
the server blocked. -/
theorem null_access_iff (memory : Endpoint → Nat → UInt8) (pcli psrv : Option Socket) (jq : Bool)
    (info : Option Ptr) (ops : List Op) :
    (∃ q, runAll perform (create memory pcli psrv jq info) ops = .ok q) ↔
      Clear perform Unblocked (create memory pcli psrv jq info) ops :=
  runAll_ok_iff perform_ok_iff _ ops

/-- The client closes after sending a byte that the server has no room for. -/
theorem null_access_blocked_server :
    ¬∀ (memory : Endpoint → Nat → UInt8) (pcli psrv : Option Socket) (jq : Bool)
      (info : Option Ptr) (ops : List Op),
      ∃ q, runAll perform (create memory pcli psrv jq info) ops = .ok q := by
  intro h
  obtain ⟨q, hq⟩ := h (fun _ _ => 0) (some Sample.client) (some Sample.server) true (some 1)
    [Sample.connect,
      .manageConnections (fun fd => fd == 1) (fun _ => false) Sample.clientCloses]
  cases hq

end ConnectionPeer

end Relb
