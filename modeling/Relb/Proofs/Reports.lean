import Relb.Proofs.PeerRule
/-!
# What a peer reports

A peer attached to a queue and to its entry of the session directory posts a message at
every close that an endpoint brings on itself. The other closes are silent, and happen
only to an endpoint whose counterpart is gone already. So a peer built with two sockets
has reported an end by the time it is inactive.
-/

namespace Relb

open Lib

namespace ConnectionPeer

variable {p q : ConnectionPeer} {e : Endpoint} {io : SocketIO} {setr setw : FdSet} {id : UInt32}

/-- The queue and the entry are set. -/
def Attached (p : ConnectionPeer) : Prop := p.pjq = true ∧ p.pinfo.isSome

theorem SameEnds.attached (h : p.SameEnds q) (ha : p.Attached) : q.Attached := by
  simpa only [Attached, h.pjq, h.pinfo] using ha

theorem SameEnds.reports (h : p.SameEnds q) : q.reports = p.reports := by
  simp only [ConnectionPeer.reports, h.posted]

theorem ClosedBy.attached (h : p.ClosedBy e id q) (ha : p.Attached) : q.Attached := by
  simpa only [Attached, h.pjq, h.pinfo] using ha

theorem ClosedBy.reports (h : p.ClosedBy e id q) (ha : p.Attached) :
    q.reports = p.reports ++ (report id).toList := by
  have hpost : p.pjq = true ∧ p.pinfo.isSome := ha
  rw [ConnectionPeer.reports, h.posted, if_pos hpost, List.filterMap_append]
  cases hid : report id <;> simp [ConnectionPeer.reports, hid]

theorem attached_post (ha : p.Attached) : (p.post id).Attached := by
  simpa [Attached] using ha

theorem reports_post (ha : p.Attached) :
    (p.post id).reports = p.reports ++ (report id).toList := by
  have hpost : p.pjq = true ∧ p.pinfo.isSome := ha
  rw [reports, posted_post, if_pos hpost, List.filterMap_append]
  cases hid : report id <;> simp [reports, hid]

theorem reports_finish (ha : p.Attached) :
    ((p.closeEndpoint e).post statusPeerConnectionCancelled).reports = p.reports := by
  have hattached : (p.closeEndpoint e).Attached := by simpa [Attached] using ha
  rw [reports_post hattached]
  change (p.closeEndpoint e).reports ++ [] = _
  rw [List.append_nil, reports, posted_closeEndpoint, reports]

/-! ## No end is lost -/

/-- Both endpoints are open, or the end of the connection has been reported. -/
structure Accounted (p : ConnectionPeer) : Prop where
  attached : p.Attached
  openOrReported : (∀ d, (p.socket d).isSome) ∨ .failed ∈ p.reports ∨ .ended ∈ p.reports

namespace Accounted

theorem reported (h : p.Accounted) {d : Endpoint} (hclosed : p.socket d = none) :
    .failed ∈ p.reports ∨ .ended ∈ p.reports := by
  rcases h.openOrReported with hopen | hrep
  · simpa [hclosed] using hopen d
  · exact hrep

theorem sameEnds (h : p.Accounted) (hq : p.SameEnds q) : q.Accounted := by
  refine ⟨hq.attached h.attached, ?_⟩
  simpa only [hq.socket, hq.reports] using h.openOrReported

theorem closedBy (h : p.Accounted) (hq : p.ClosedBy e id q)
    (hid : report id = some .failed ∨ report id = some .ended) : q.Accounted := by
  refine ⟨hq.attached h.attached, .inr ?_⟩
  rw [hq.reports h.attached]
  rcases hid with hid | hid
  · exact .inl (by simp [hid])
  · exact .inr (by simp [hid])

theorem afterClose (h : p.Accounted) {d : Endpoint} (hclosed : p.socket d = none)
    (hattached : q.Attached) (hreports : p.reports <+: q.reports) : q.Accounted :=
  ⟨hattached, .inr ((h.reported hclosed).imp (hreports.subset ·) (hreports.subset ·))⟩

theorem post (h : p.Accounted) : (p.post id).Accounted := by
  refine ⟨attached_post h.attached, ?_⟩
  rw [reports_post h.attached]
  apply h.openOrReported.imp (fun hopen d => by simpa using hopen d)
  intro hrep
  simp only [List.mem_append]
  exact hrep.imp .inl .inl

theorem sendMissingDataTo (h : p.Accounted) {disconnected lost : UInt32}
    (hdisconnected : report disconnected = some .ended) (hlost : report lost = some .ended) :
    (p.sendMissingDataTo e disconnected lost io).Accounted := by
  by_cases hf : p.SendFails e io
  · obtain ⟨id, hid, hq⟩ := sendMissingDataTo_of_fails _ _ hf
    exact h.closedBy hq (.inr (by rcases hid with rfl | rfl <;> assumption))
  · by_cases hd : p.Drains e io
    · have hq := sendMissingDataTo_of_drains disconnected lost hd
      apply h.afterClose hd.2.1 (hq.attached h.attached)
      rw [hq.reports h.attached]
      exact List.prefix_append _ _
    · exact h.sameEnds (sendMissingDataTo_of_not_fails _ _ hf hd).same

theorem checkEndpoint (h : p.Accounted) {lost : UInt32} (hlost : report lost = some .ended) :
    (p.checkEndpoint e lost io).Accounted := by
  by_cases hf : p.CheckFails e io
  · exact h.closedBy (checkEndpoint_of_fails _ hf) (.inr hlost)
  · exact h.sameEnds (checkEndpoint_of_not_fails _ hf).1

theorem closeEndpoint (h : p.Accounted) {d : Endpoint} (hclosed : p.socket d = none) :
    ((p.closeEndpoint e).post id).Accounted := by
  have hattached : (p.closeEndpoint e).Attached := by simpa [Attached] using h.attached
  apply h.afterClose hclosed (attached_post hattached)
  rw [reports_post hattached]
  simp only [reports, posted_closeEndpoint, List.prefix_append]

theorem close (h : p.Accounted) : (p.close.post statusServerDisconnectedOk).Accounted := by
  have hattached : p.close.Attached := by simpa [Attached] using h.attached
  refine ⟨attached_post hattached, .inr (.inr ?_)⟩
  rw [reports_post hattached]
  exact List.mem_append_right _ (List.mem_singleton.mpr rfl)

end Accounted

theorem kept_accounted : Kept Accounted where
  getMissingDataFromClient p io h := by
    by_cases hf : p.ReadFails .client io
    · obtain ⟨id, hid, hq⟩ := getMissingDataFromClient_of_fails hf
      apply h.closedBy hq
      rw [hid]
      split
      · exact .inr rfl
      · exact .inl rfl
    · exact h.sameEnds (getMissingDataFromClient_of_not_fails hf).same
  getMissingDataFromServer p io h := by
    by_cases hf : p.ReadFails .server io
    · obtain ⟨id, hid, hq⟩ := getMissingDataFromServer_of_fails hf
      exact h.closedBy hq (.inr hid)
    · exact h.sameEnds (getMissingDataFromServer_of_not_fails hf).same
  sendMissingDataToClient _ _ h := h.sendMissingDataTo rfl rfl
  sendMissingDataToServer _ _ h := h.sendMissingDataTo rfl rfl
  checkServer _ _ h := h.checkEndpoint rfl
  checkClient _ _ h := h.checkEndpoint rfl
  establish p h _ := by
    have hopen : ∀ d, socket { p with pServerConnected := true } d = p.socket d :=
      fun d => by cases d <;> rfl
    refine Accounted.post ⟨h.attached, ?_⟩
    simp only [hopen]
    exact h.openOrReported
  finish _ _ h hother _ := h.closeEndpoint hother

theorem Accounted.perform (h : p.Accounted) (op : Op) : Always Accounted (p.perform op) := by
  by_cases hop : p.EndsPeer op
  · rcases perform_of_endsPeer hop with hq | ⟨hclient, hq⟩ <;> rw [hq]
    · exact .ok h.close
    · exact .ok (h.closeEndpoint hclient)
  · exact kept_accounted.perform h hop

/-- A peer just built with both sockets, the queue and the entry. -/
def CreatedWhole (p : ConnectionPeer) : Prop :=
  ∃ memory c s info, p = create memory (some c) (some s) true (some info)

/-- In every run of a peer built with both sockets, the queue and the entry, whenever an
operation leaves it inactive it has posted a failure or an end. -/
theorem reported_of_inactive
    (h : Reach (fun p op q => p.perform op = .ok q) anyStep CreatedWhole p)
    (hinactive : p.isActive = false) :
    ∃ id ∈ p.posted, id ∈ [statusConnectionFailed, statusServerConnectionLost,
      statusClientConnectionLost, statusServerDisconnectedOk, statusClientDisconnectedOk] := by
  have hacc : p.Accounted := by
    refine Reach.invariant (fun p hp => ?_) (fun p op q hp _ hstep => ?_) h
    · obtain ⟨memory, c, s, info, rfl⟩ := hp
      exact ⟨⟨rfl, rfl⟩, .inl fun d => by cases d <;> rfl⟩
    · have hq := hp.perform op
      rwa [hstep] at hq
  rcases hacc.reported (p.isActive_eq_false.mp hinactive .client) with hrep | hrep
  all_goals
    obtain ⟨id, hid, hkind⟩ := List.mem_filterMap.mp hrep
    refine ⟨id, hid, ?_⟩
    unfold report at hkind
    grind

/-- The client closes before the server is connected. -/
theorem reported_of_client_gone :
    ∃ id ∈ (final (Sample.created.perform (.manageConnectingPeer (fun fd => fd == 1)
        (fun _ => false) Sample.clientCloses))).posted,
      id ∈ [statusConnectionFailed, statusServerConnectionLost, statusClientConnectionLost,
        statusServerDisconnectedOk, statusClientDisconnectedOk] := by
  have hcreated : CreatedWhole Sample.created := ⟨_, _, _, _, rfl⟩
  exact reported_of_inactive (.next (a := .manageConnectingPeer (fun fd => fd == 1)
    (fun _ => false) Sample.clientCloses) (.start hcreated) trivial rfl) rfl

end ConnectionPeer

end Relb
