import Relb.Proofs.PeerStages
/-!
# Both sockets or none

Until the server is connected nothing has been read from it, so nothing is pending for the client.
A close of the server then takes the client along, and a close of the client takes the server along
whatever is pending for it. A peer that is active in this phase has both sockets, and the branch of
`manageConnectingPeer` for one socket is left to the peers that have none.
-/

namespace Relb

open Lib

namespace ConnectionPeer

variable {p q : ConnectionPeer} {e : Endpoint} {io : SocketIO} {setr setw : FdSet} {id : UInt32}

/-! ## Nothing for the client -/

def NothingForClient (p : ConnectionPeer) : Prop := (p.bufferFor .client).bytesToSend = 0

namespace NothingForClient

theorem emit (h : p.NothingForClient) (ev : Event) : (p.emit ev).NothingForClient := by
  rwa [NothingForClient, bufferFor_emit]

theorem post (h : p.NothingForClient) (id : UInt32) : (p.post id).NothingForClient := by
  rwa [NothingForClient, bufferFor_post]

theorem closeEndpoint (h : p.NothingForClient) (e : Endpoint) :
    (p.closeEndpoint e).NothingForClient := by
  refine p.closeEndpoint_induct e (I := NothingForClient) (fun q d hq => ?_) h
  cases d with
  | client => exact congrArg Buffer.bytesToSend (bufferFor_drop_self q .client)
  | server => exact (congrArg Buffer.bytesToSend (bufferFor_drop_other q .server)).trans hq

theorem close (h : p.NothingForClient) : p.close.NothingForClient :=
  (h.closeEndpoint .client).closeEndpoint .server

theorem getMissingDataFrom_client (h : p.NothingForClient)
    (disconnected lost : ConnectionPeer → UInt32) (io : SocketIO) :
    (p.getMissingDataFrom .client disconnected lost io).NothingForClient := by
  simp only [getMissingDataFrom]
  split_ifs
  · rw [NothingForClient, bufferFor_setBufferFor_of_other]
    exact h.emit _
  · exact ((h.emit _).closeEndpoint .client).post _
  · exact ((h.emit _).closeEndpoint .client).post _
  · exact h.emit _
  · exact h

theorem checkEndpoint (h : p.NothingForClient) (e : Endpoint) (lost : UInt32) (io : SocketIO) :
    (p.checkEndpoint e lost io).NothingForClient := by
  simp only [ConnectionPeer.checkEndpoint]
  split_ifs
  · exact ((h.emit _).closeEndpoint e).post _
  · exact h.emit _
  · exact h

end NothingForClient

/-! ## Both or none -/

structure BothOrNone (p : ConnectionPeer) : Prop where
  ends : (∀ d, (p.socket d).isSome) ∨ ∀ d, p.socket d = none
  nothingForClient : p.NothingForClient

namespace BothOrNone

theorem opened (h : p.BothOrNone) (hactive : p.isActive = true) :
    p.pClient.isSome ∧ p.pServer.isSome := by
  rcases h.ends with hopen | hclosed
  · exact ⟨hopen .client, hopen .server⟩
  · rw [p.isActive_eq_false.mpr hclosed] at hactive
    cases hactive

theorem sameEnds (h : p.BothOrNone) (hq : p.SameEnds q) (hnothing : q.NothingForClient) :
    q.BothOrNone := by
  refine ⟨?_, hnothing⟩
  simpa only [hq.socket] using h.ends

theorem closedBy (h : p.BothOrNone) (hcon : p.pServerConnected = false)
    (hopen : (p.socket e).isSome) (hq : p.ClosedBy e id q) (hnothing : q.NothingForClient) :
    q.BothOrNone := by
  have hboth : ∀ d, (p.socket d).isSome := by
    rcases h.ends with hboth | hclosed
    · exact hboth
    · rw [hclosed e] at hopen
      cases hopen
  have hfollows : p.Follows e := follows_of_connecting (hboth _) hcon h.nothingForClient
  exact ⟨.inr (hq.closed_of_follows hfollows), hnothing⟩

theorem close (h : p.BothOrNone) : p.close.BothOrNone :=
  ⟨.inr (isActive_eq_false _ |>.mp p.isActive_close), h.nothingForClient.close⟩

theorem post (h : p.BothOrNone) (id : UInt32) : (p.post id).BothOrNone := by
  refine ⟨?_, h.nothingForClient.post id⟩
  simpa only [socket_post] using h.ends

theorem checkEndpoint (h : p.BothOrNone) (hcon : p.pServerConnected = false) (e : Endpoint)
    (lost : UInt32) (io : SocketIO) : (p.checkEndpoint e lost io).BothOrNone := by
  have hnothing := h.nothingForClient.checkEndpoint e lost io
  by_cases hf : p.CheckFails e io
  · exact h.closedBy hcon hf.1 (checkEndpoint_of_fails lost hf) hnothing
  · exact h.sameEnds (checkEndpoint_of_not_fails lost hf).1 hnothing

theorem closePInfo (h : p.BothOrNone) (pcheck : Option Ptr) : (p.closePInfo pcheck).BothOrNone := by
  unfold ConnectionPeer.closePInfo
  split
  · exact h.close.post _
  · exact h

theorem getMissingDataFromClient (h : p.BothOrNone) (hcon : p.pServerConnected = false)
    (io : SocketIO) : (p.getMissingDataFromClient io).BothOrNone := by
  have hnothing : (p.getMissingDataFromClient io).NothingForClient :=
    h.nothingForClient.getMissingDataFrom_client _ _ io
  by_cases hf : p.ReadFails .client io
  · obtain ⟨id, -, hq⟩ := getMissingDataFromClient_of_fails hf
    exact h.closedBy hcon hf.1 hq hnothing
  · exact h.sameEnds (getMissingDataFromClient_of_not_fails hf).same hnothing

end BothOrNone

/-! ## Establishments -/

theorem ne_established_of_report {r : Report} (h : report id = some r) (hr : r ≠ .established) :
    id ≠ statusConnectionEstablished := by
  rintro rfl
  have hreport : report statusConnectionEstablished = some .established := rfl
  exact hr (Option.some.inj (h.symm.trans hreport))

theorem count_post (hid : id ≠ statusConnectionEstablished) :
    (p.post id).posted.count statusConnectionEstablished =
      p.posted.count statusConnectionEstablished := by
  rw [posted_post]
  split
  · rw [List.count_append, List.count_singleton, if_neg (by simpa using hid), Nat.add_zero]
  · rfl

theorem ClosedBy.count (hq : p.ClosedBy e id q) (hid : id ≠ statusConnectionEstablished) :
    q.posted.count statusConnectionEstablished = p.posted.count statusConnectionEstablished := by
  rw [hq.posted, ← posted_post, count_post hid]

/-- Still connecting. -/
structure Awaiting (p : ConnectionPeer) : Prop where
  bothOrNone : p.BothOrNone
  notConnected : p.pServerConnected = false
  count : p.posted.count statusConnectionEstablished = 0

/-- The server is connected, which has been posted at most once. -/
structure Arrived (p : ConnectionPeer) : Prop where
  connected : p.pServerConnected = true
  count : p.posted.count statusConnectionEstablished ≤ 1

/-- The call that goes from `p` to `q` connects the server and posts it, if there is somebody to
post it to. -/
structure Establishes (p q : ConnectionPeer) : Prop where
  opened : ∀ d, (q.socket d).isSome
  connected : q.pServerConnected = true
  posted : q.posted = p.posted ++
    if p.pjq ∧ p.pinfo.isSome then [statusConnectionEstablished] else []

theorem Awaiting.getMissingDataFromClient (h : p.Awaiting) (io : SocketIO) :
    (p.getMissingDataFromClient io).Awaiting := by
  refine ⟨h.bothOrNone.getMissingDataFromClient h.notConnected io, ?_, ?_⟩
  · exact pServerConnected_getMissingDataFrom.trans h.notConnected
  · by_cases hf : p.ReadFails .client io
    · obtain ⟨id, hid, hq⟩ := getMissingDataFromClient_of_fails hf
      rw [h.notConnected] at hid
      rw [hq.count (ne_established_of_report hid (by decide)), h.count]
    · rw [(getMissingDataFromClient_of_not_fails hf).same.posted, h.count]

theorem Awaiting.sameEnds_of_server (h : p.Awaiting)
    (hserver : ((p.getMissingDataFromClient io).socket .server).isSome) :
    p.SameEnds (p.getMissingDataFromClient io) := by
  by_cases hf : p.ReadFails .client io
  · obtain ⟨id, -, hq⟩ := getMissingDataFromClient_of_fails hf
    have hnone : (p.getMissingDataFromClient io).socket .server = none := by
      rcases (h.getMissingDataFromClient io).bothOrNone.ends with hopen | hclosed
      · have hclient := hopen .client
        rw [hq.closed] at hclient
        cases hclient
      · exact hclosed .server
    rw [hnone] at hserver
    cases hserver
  · exact (getMissingDataFromClient_of_not_fails hf).same

theorem Awaiting.establish (h : p.Awaiting) (hserver : (p.socket .server).isSome) :
    BothOrNone ({ p with pServerConnected := true }.post statusConnectionEstablished) ∧
      p.Establishes ({ p with pServerConnected := true }.post statusConnectionEstablished) := by
  have hboth : ∀ d, (p.socket d).isSome := by
    rcases h.bothOrNone.ends with hboth | hclosed
    · exact hboth
    · rw [hclosed .server] at hserver
      cases hserver
  have hopen : ∀ d, (socket { p with pServerConnected := true } d).isSome := by
    intro d
    cases d with
    | client => exact hboth .client
    | server => exact hboth .server
  have hset : BothOrNone { p with pServerConnected := true } :=
    ⟨.inl hopen, h.bothOrNone.nothingForClient⟩
  refine ⟨hset.post _, fun d => ?_, pServerConnected_post _ _, ?_⟩
  · rw [socket_post]
    exact hopen d
  · rw [posted_post]
    dsimp only
    split
    · rfl
    · exact (List.append_nil _).symm

/-- The call returns true if and only if it establishes the connection. -/
theorem Awaiting.manageConnectingPeer (h : p.Awaiting) (setr setw : FdSet) (io : SocketIO) :
    ∃ changed q, p.manageConnectingPeer setr setw io = .ok (changed, q) ∧ q.BothOrNone ∧
      (changed = false ∧ q.Awaiting ∨ changed = true ∧ p.Establishes q) := by
  rcases h.bothOrNone.ends with hopen | hclosed
  · have hboth : p.pClient.isSome ∧ p.pServer.isSome := ⟨hopen .client, hopen .server⟩
    obtain ⟨c, hc⟩ := Option.isSome_iff_exists.mp hboth.1
    rw [ConnectionPeer.manageConnectingPeer, if_pos hboth, connectBoth_eq hc]
    have hr : (if c.isInFDSET setr then p.getMissingDataFromClient io else p).Awaiting ∧
        (((if c.isInFDSET setr then p.getMissingDataFromClient io else p).socket .server).isSome →
          p.SameEnds (if c.isInFDSET setr then p.getMissingDataFromClient io else p)) := by
      split
      · exact ⟨h.getMissingDataFromClient io, h.sameEnds_of_server⟩
      · exact ⟨h, fun _ => .refl p⟩
    generalize (if c.isInFDSET setr then p.getMissingDataFromClient io else p) = r at hr
    obtain ⟨hawaiting, hsame⟩ := hr
    cases hs : r.pServer with
    | none => exact ⟨_, _, by simp only [hs], hawaiting.bothOrNone, .inl ⟨rfl, hawaiting⟩⟩
    | some s =>
        have hserver : (r.socket .server).isSome := by rw [← pServer_eq, hs]; rfl
        obtain ⟨hq, hest⟩ := hawaiting.establish hserver
        simp only [hs] at hq hest ⊢
        split
        · refine ⟨_, _, rfl, hq, .inr ⟨rfl, hest.opened, hest.connected, ?_⟩⟩
          rw [hest.posted, (hsame hserver).posted, (hsame hserver).pjq, (hsame hserver).pinfo]
        · exact ⟨_, _, rfl, hawaiting.bothOrNone, .inl ⟨rfl, hawaiting⟩⟩
  · exact ⟨_, _, manageConnectingPeer_of_closed hclosed, h.bothOrNone, .inl ⟨rfl, h⟩⟩

theorem Awaiting.checkEndpoint (h : p.Awaiting) (e : Endpoint) {lost : UInt32}
    (hlost : lost ≠ statusConnectionEstablished) (io : SocketIO) :
    (p.checkEndpoint e lost io).Awaiting := by
  refine ⟨h.bothOrNone.checkEndpoint h.notConnected e lost io,
    pServerConnected_checkEndpoint.trans h.notConnected, ?_⟩
  by_cases hf : p.CheckFails e io
  · rw [(checkEndpoint_of_fails lost hf).count hlost, h.count]
  · rw [(checkEndpoint_of_not_fails lost hf).1.posted, h.count]

theorem Awaiting.checkConnectingPeers (h : p.Awaiting) (io : SocketIO) :
    (p.checkConnectingPeers io).Awaiting :=
  (h.checkEndpoint .server (by decide) io).checkEndpoint .client (by decide) io

theorem count_closePInfo (pcheck : Option Ptr) :
    (p.closePInfo pcheck).posted.count statusConnectionEstablished =
      p.posted.count statusConnectionEstablished := by
  unfold closePInfo
  split
  · rw [count_post (by decide), posted_close]
  · rfl

theorem pServerConnected_closePInfo (pcheck : Option Ptr) :
    (p.closePInfo pcheck).pServerConnected = p.pServerConnected := by
  unfold closePInfo
  split
  · rw [pServerConnected_post, pServerConnected_close]
  · rfl

theorem Awaiting.closePInfo (h : p.Awaiting) (pcheck : Option Ptr) :
    (p.closePInfo pcheck).Awaiting :=
  ⟨h.bothOrNone.closePInfo pcheck, (pServerConnected_closePInfo pcheck).trans h.notConnected,
    (count_closePInfo pcheck).trans h.count⟩

/-! ## After the establishment -/

namespace Arrived

theorem sameEnds (h : p.Arrived) (hq : p.SameEnds q) : q.Arrived :=
  ⟨hq.pServerConnected.trans h.connected, by rw [hq.posted]; exact h.count⟩

theorem closedBy (h : p.Arrived) (hq : p.ClosedBy e id q)
    (hid : id ≠ statusConnectionEstablished) : q.Arrived :=
  ⟨hq.pServerConnected.trans h.connected, by rw [hq.count hid]; exact h.count⟩

theorem sendMissingDataTo (h : p.Arrived) {disconnected lost : UInt32}
    (hdisconnected : disconnected ≠ statusConnectionEstablished)
    (hlost : lost ≠ statusConnectionEstablished) :
    (p.sendMissingDataTo e disconnected lost io).Arrived := by
  by_cases hf : p.SendFails e io
  · obtain ⟨id, hid, hq⟩ := sendMissingDataTo_of_fails disconnected lost hf
    exact h.closedBy hq (by rcases hid with rfl | rfl <;> assumption)
  · by_cases hd : p.Drains e io
    · exact h.closedBy (sendMissingDataTo_of_drains _ _ hd) (by decide)
    · exact h.sameEnds (sendMissingDataTo_of_not_fails _ _ hf hd).same

theorem checkEndpoint (h : p.Arrived) {lost : UInt32}
    (hlost : lost ≠ statusConnectionEstablished) : (p.checkEndpoint e lost io).Arrived := by
  by_cases hf : p.CheckFails e io
  · exact h.closedBy (checkEndpoint_of_fails lost hf) hlost
  · exact h.sameEnds (checkEndpoint_of_not_fails lost hf).1

end Arrived

theorem keptByCalls_arrived : KeptByCalls Arrived where
  getMissingDataFromClient p io h := by
    by_cases hf : p.ReadFails .client io
    · obtain ⟨id, hid, hq⟩ := getMissingDataFromClient_of_fails hf
      rw [h.connected] at hid
      exact h.closedBy hq (ne_established_of_report hid (by decide))
    · exact h.sameEnds (getMissingDataFromClient_of_not_fails hf).same
  getMissingDataFromServer p io h := by
    by_cases hf : p.ReadFails .server io
    · obtain ⟨id, hid, hq⟩ := getMissingDataFromServer_of_fails hf
      exact h.closedBy hq (ne_established_of_report hid (by decide))
    · exact h.sameEnds (getMissingDataFromServer_of_not_fails hf).same
  sendMissingDataToClient _ _ h := h.sendMissingDataTo (by decide) (by decide)
  sendMissingDataToServer _ _ h := h.sendMissingDataTo (by decide) (by decide)
  checkServer _ _ h := h.checkEndpoint (by decide)
  checkClient _ _ h := h.checkEndpoint (by decide)
  finish p e h _ _ := by
    refine ⟨by simpa using h.connected, ?_⟩
    rw [count_post (by decide), posted_closeEndpoint]
    exact h.count

/-! ## Runs -/

/-- The operations of the phase that a peer is in; a close request may come at any time. -/
def InPhase (p : ConnectionPeer) : Op → Prop
  | .manageConnectingPeer _ _ _ => p.pServerConnected = false
  | .checkConnectingPeers _ => p.pServerConnected = false
  | .manageConnections _ _ _ => p.pServerConnected = true
  | .checkPeers _ => p.pServerConnected = true
  | .closePInfo _ => True

theorem Awaiting.arrived (h : p.Awaiting) (hq : p.Establishes q) : q.Arrived := by
  refine ⟨hq.connected, ?_⟩
  rw [hq.posted, List.count_append, h.count, Nat.zero_add]
  split <;> simp

theorem CreatedOpen.awaiting (h : p.CreatedOpen) : p.Awaiting := by
  obtain ⟨memory, c, s, jq, info, rfl⟩ := h
  exact ⟨⟨.inl fun d => by cases d <;> rfl, rfl⟩, rfl, rfl⟩

theorem Awaiting.perform (h : p.Awaiting) {op : Op} (hop : p.InPhase op)
    (hq : p.perform op = .ok q) : q.Awaiting ∨ q.Arrived := by
  cases op with
  | manageConnectingPeer setr setw io =>
      obtain ⟨changed, r, hr, -, hcases⟩ := h.manageConnectingPeer setr setw io
      rw [ConnectionPeer.perform, hr] at hq
      obtain rfl := Except.ok.inj hq
      exact hcases.imp And.right fun hest => h.arrived hest.2
  | checkConnectingPeers io =>
      obtain rfl := Except.ok.inj hq
      exact .inl (h.checkConnectingPeers io)
  | closePInfo pcheck =>
      obtain rfl := Except.ok.inj hq
      exact .inl (h.closePInfo pcheck)
  | manageConnections | checkPeers =>
      rw [InPhase, h.notConnected] at hop
      cases hop

theorem Arrived.perform (h : p.Arrived) {op : Op} (hop : p.InPhase op)
    (hq : p.perform op = .ok q) : q.Arrived := by
  cases op with
  | manageConnections setr setw io =>
      have halways : Always Arrived (p.manageConnections setr setw io) :=
        keptByCalls_arrived.manageConnections h
      rw [ConnectionPeer.perform] at hq
      rwa [hq] at halways
  | checkPeers io =>
      obtain rfl := Except.ok.inj hq
      exact keptByCalls_arrived.checkPeers h
  | closePInfo pcheck =>
      obtain rfl := Except.ok.inj hq
      exact ⟨(pServerConnected_closePInfo pcheck).trans h.connected,
        Nat.le_trans (Nat.le_of_eq (count_closePInfo pcheck)) h.count⟩
  | manageConnectingPeer | checkConnectingPeers =>
      rw [InPhase, h.connected] at hop
      cases hop

theorem awaiting_or_arrived
    (h : Reach (fun p op q => p.perform op = .ok q) InPhase CreatedOpen p) :
    p.Awaiting ∨ p.Arrived := by
  refine Reach.invariant (I := fun p => p.Awaiting ∨ p.Arrived) (fun p hp => .inl hp.awaiting)
    (fun p op q hp hop hq => ?_) h
  rcases hp with hp | hp
  · exact hp.perform hop hq
  · exact .inr (hp.perform hop hq)

/-- Until the server is connected a peer has both sockets or none, with nothing pending for the
client, and an active one has both. A call of `manageConnectingPeer` leaves it so, and returns true
if and only if it establishes the connection, which is posted at most once. -/
theorem both_or_none_while_connecting
    (h : Reach (fun p op q => p.perform op = .ok q) InPhase CreatedOpen p) :
    (p.pServerConnected = false →
      p.BothOrNone ∧ (p.isActive = true → p.pClient.isSome ∧ p.pServer.isSome) ∧
      ∀ setr setw io, ∃ changed q, p.manageConnectingPeer setr setw io = .ok (changed, q) ∧
        q.BothOrNone ∧
        if changed then p.Establishes q
        else q.pServerConnected = false ∧ statusConnectionEstablished ∉ q.posted) ∧
    p.posted.count statusConnectionEstablished ≤ 1 := by
  rcases awaiting_or_arrived h with hp | hp
  · refine ⟨fun _ => ⟨hp.bothOrNone, hp.bothOrNone.opened, fun setr setw io => ?_⟩,
      by rw [hp.count]; exact Nat.zero_le 1⟩
    obtain ⟨changed, q, hq, hboth, ⟨rfl, hawaiting⟩ | ⟨rfl, hest⟩⟩ :=
      hp.manageConnectingPeer setr setw io
    · exact ⟨_, q, hq, hboth, hawaiting.notConnected, List.count_eq_zero.mp hawaiting.count⟩
    · exact ⟨_, q, hq, hboth, hest⟩
  · refine ⟨fun hcon => ?_, hp.count⟩
    rw [hp.connected] at hcon
    cases hcon

namespace Sample

/-- The client has sent a byte, and the server does not answer yet. -/
def waitForServer : Op := .manageConnectingPeer (fun fd => fd == 1) (fun _ => false) clientSends

def waiting : ConnectionPeer := final (created.perform waitForServer)

def withoutQueue : ConnectionPeer :=
  create (fun _ _ => 0) (some client) (some server) false (some 1)

theorem createdOpen_created : created.CreatedOpen := ⟨_, _, _, _, _, rfl⟩

end Sample

theorem both_or_none_waiting :
    (Sample.waiting.bufferForServer.bytesToSend = 1 ∧ Sample.waiting.pServerConnected = false) ∧
    (Sample.waiting.pServerConnected = false →
      Sample.waiting.BothOrNone ∧
      (Sample.waiting.isActive = true →
        Sample.waiting.pClient.isSome ∧ Sample.waiting.pServer.isSome) ∧
      ∀ setr setw io, ∃ changed q,
        Sample.waiting.manageConnectingPeer setr setw io = .ok (changed, q) ∧ q.BothOrNone ∧
        if changed then Sample.waiting.Establishes q
        else q.pServerConnected = false ∧ statusConnectionEstablished ∉ q.posted) ∧
    Sample.waiting.posted.count statusConnectionEstablished ≤ 1 :=
  ⟨⟨rfl, rfl⟩, both_or_none_while_connecting
    (.next (a := Sample.waitForServer) (.start Sample.createdOpen_created) rfl rfl)⟩

/-- A peer that has no queue returns true and posts nothing. -/
theorem established_without_queue :
    ¬∀ p, Reach (fun p op q => perform p op = .ok q) InPhase CreatedOpen p →
      p.pServerConnected = false → ∀ setr setw io q,
        p.manageConnectingPeer setr setw io = .ok (true, q) →
          statusConnectionEstablished ∈ q.posted := by
  intro h
  have hposted := h Sample.withoutQueue (.start ⟨_, _, _, _, _, rfl⟩) rfl (fun _ => false)
    (fun _ => true) SocketIO.idle _ rfl
  revert hposted
  decide

end ConnectionPeer

end Relb
