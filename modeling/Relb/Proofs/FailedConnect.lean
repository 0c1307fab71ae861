import Relb.Proofs.Messages
import Relb.Proofs.PeerStages
/-!
# A server that cannot be reached

The result of `connect` is discarded, and a server counts as connected once its socket is
writable, which the socket of a failed connection is as well. A failure is posted when the
client ends first; whatever else comes first is taken for an establishment or for an end.
-/

namespace Relb

open Lib

/-- The connection to the server has failed: nothing can be read from it or sent to it. -/
structure SocketIO.ServerFails (io : SocketIO) : Prop where
  receiveNB : ∀ max, (io.receiveNB .server max).ret < 0
  sendNB : ∀ max, (io.sendNB .server max).ret < 0

/-! ## The retry window -/

namespace ServerList

theorem inRetry_processMessage {s : ServerList} {q : PeerInfo} {i : Nat}
    (hnodup : (s.peerList.map PeerInfo.addr).Nodup) (hq : q ∈ s.peerList)
    (hdst : s.dstServer q = some i) (now : Datetime) :
    ∃ srv, (s.processMessage ⟨statusConnectionFailed, q.addr⟩ now).serversList[i]? = some srv ∧
      ∀ now', srv.inRetry s.serverRetryMilliseconds now' =
        decide (now' - now < s.serverRetryMilliseconds) := by
  rcases processMessage_cases s ⟨statusConnectionFailed, q.addr⟩ now with
    ⟨hnone, -⟩ | ⟨index, pinfo, hfound, haddr, hmessage⟩
  · exact absurd rfl (hnone q hq)
  · obtain rfl := eq_of_key hnodup (List.mem_of_getElem? hfound) hq haddr
    obtain ⟨srv, hsrv, -⟩ := getElem?_of_dstServer hdst
    have hreport : ConnectionPeer.report statusConnectionFailed = some .failed := rfl
    obtain ⟨removed, hservers⟩ := serversList_of_report hreport s index pinfo now
    rw [hmessage, hservers, hdst, Option.elim_some, List.getElem?_modify_eq, hsrv]
    have hended : reportedServer srv statusConnectionFailed removed now =
        endedServer srv statusConnectionFailed removed now := if_neg (by decide)
    refine ⟨reportedServer srv statusConnectionFailed removed now, rfl, fun now' => ?_⟩
    have hfailed :
        (endedServer srv statusConnectionFailed removed now).lastConnectionFailed = true ∧
          (endedServer srv statusConnectionFailed removed now).lastConnectionAttempt = now := by
      simp only [endedServer, if_true]
      split_ifs <;> exact ⟨rfl, rfl⟩
    rw [ServerInfo.inRetry, hended, hfailed.1, hfailed.2]
    simp

end ServerList

/-! ## Calls and what they must post -/

namespace ConnectionPeer

variable {p q : ConnectionPeer} {e : Endpoint} {io : SocketIO} {setr setw : FdSet} {id : UInt32}

/-- A call that meets a server whose connection has failed. `select` marks its socket writable if
it has been asked for it. -/
def Op.ServerFails : Op → Prop
  | .manageConnectingPeer _ _ io => io.ServerFails
  | .manageConnections _ _ io => io.ServerFails
  | .checkPeers _ => True
  | .checkConnectingPeers _ => True
  | .closePInfo _ => True

def performFailing (p : ConnectionPeer) (op : { op : Op // op.ServerFails }) :
    Except ConnectionPeer ConnectionPeer := p.perform op.1

/-- No establishment has been posted, and an inactive peer has posted the failure. -/
def FailurePosted (p : ConnectionPeer) : Prop :=
  statusConnectionEstablished ∉ p.posted ∧
    (p.isActive = false → statusConnectionFailed ∈ p.posted)

/-- The condition on a call: it reads the end of the client, or it leaves the server alone. -/
def ClientFirst (p : ConnectionPeer) : Op → Prop
  | .manageConnectingPeer setr setw io => p.ClientEnds setr io ∨ p.marked .server setw = false
  | .manageConnections setr setw io =>
      p.ClientEnds setr io ∨
        ¬p.ServerRefuses setr setw io ∧ ¬(p.marked .server setr = true ∧ p.ReadFails .server io)
  | .checkPeers io => ∀ d, ¬p.CheckFails d io
  | .checkConnectingPeers io => ∀ d, ¬p.CheckFails d io
  | .closePInfo pcheck => p.isActive = true → pcheck ≠ p.pinfo

/-! ## Reports and posted ids -/

theorem mem_posted_iff {r : Report} (honly : postedIds.filter (report · == some r) = [id]) :
    id ∈ p.posted ↔ r ∈ p.reports := by
  have hmakes : ∀ id', report id' = some r ↔ id' = id := by
    intro id'
    have hmem : id' ∈ postedIds.filter (report · == some r) ↔ _ := List.mem_filter
    rw [honly, List.mem_singleton, beq_iff_eq] at hmem
    exact ⟨fun h => hmem.mpr ⟨posted_of_report h, h⟩, fun h => (hmem.mp h).2⟩
  constructor
  · exact fun h => List.mem_filterMap.mpr ⟨id, h, (hmakes id).mpr rfl⟩
  · intro h
    obtain ⟨id', hid', hreport⟩ := List.mem_filterMap.mp h
    rwa [(hmakes id').mp hreport] at hid'

theorem failurePosted_iff : p.FailurePosted ↔
    .established ∉ p.reports ∧ (p.isActive = false → .failed ∈ p.reports) := by
  have hestablished : statusConnectionEstablished ∈ p.posted ↔ .established ∈ p.reports :=
    mem_posted_iff (by decide)
  have hfailed : statusConnectionFailed ∈ p.posted ↔ .failed ∈ p.reports :=
    mem_posted_iff (by decide)
  rw [FailurePosted, hestablished, hfailed]

/-! ## What a connecting peer can become -/

theorem Connecting.isActive (h : p.Connecting) : p.isActive = true := by
  have hopen : p.pClient.isSome := h.opened .client
  rw [ConnectionPeer.isActive, hopen, Bool.true_or]

theorem Connecting.failurePosted (h : p.Connecting) : p.FailurePosted := by
  rw [failurePosted_iff, h.reports]
  refine ⟨List.not_mem_nil, fun hinactive => ?_⟩
  rw [h.isActive] at hinactive
  cases hinactive

theorem Gone.failurePosted (h : p.Gone) : p.FailurePosted := by
  obtain ⟨n, hn⟩ := h.reports
  rw [failurePosted_iff, hn]
  refine ⟨?_, fun _ => List.mem_cons_self⟩
  simp [List.mem_replicate]

theorem Established.not_failurePosted (h : p.Established) : ¬p.FailurePosted := by
  rw [failurePosted_iff, h.reports]
  exact fun hposted => hposted.1 List.mem_cons_self

/-- Closed, with the report of an end in place of the failure. -/
structure Unnoticed (p : ConnectionPeer) : Prop where
  closed : ∀ d, p.socket d = none
  reports : p.reports = [.ended]

theorem Unnoticed.not_failurePosted (h : p.Unnoticed) : ¬p.FailurePosted := by
  rw [failurePosted_iff, h.reports]
  intro hposted
  have hfailed := hposted.2 (p.isActive_eq_false.mpr h.closed)
  cases List.mem_singleton.mp hfailed

theorem Connecting.unnoticed (h : p.Connecting) (hq : p.ClosedBy e id q)
    (hid : report id = some .ended) : q.Unnoticed := by
  refine ⟨(h.departed_of_closedBy hq hid).closed, ?_⟩
  rw [hq.reports h.attached, h.reports, hid]
  rfl

theorem Connecting.unnoticed_closePInfo (h : p.Connecting) :
    (p.closePInfo p.pinfo).Unnoticed := by
  refine ⟨h.closePInfo.closed, ?_⟩
  rw [reports_closePInfo h.attached, h.reports]
  rfl

theorem Connecting.unnoticed_checkPeers (h : p.Connecting) (hf : ∃ d, p.CheckFails d io) :
    (p.checkPeers io).Unnoticed :=
  ⟨(h.departed_checkPeers hf).closed, h.checkPeers_of_fails hf⟩

theorem Connecting.refused_of_fails (h : p.Connecting) (hf : p.ReadFails .client io) :
    (p.getMissingDataFromClient io).Refused := by
  have hcases : (p.getMissingDataFromClient io).Connecting ∨
      (p.getMissingDataFromClient io).Refused := h.getMissingDataFromClient
  rcases hcases with hq | hq
  · obtain ⟨id, -, hclosed⟩ := getMissingDataFromClient_of_fails hf
    have hopen := hq.opened .client
    rw [hclosed.closed] at hopen
    cases hopen
  · exact hq

theorem Connecting.reads (h : p.Connecting) (hf : ¬p.ReadFails .client io) :
    (p.getMissingDataFromClient io).Connecting := by
  have hq := getMissingDataFromClient_of_not_fails hf
  exact h.sameEnds hq.same hq.buffer

/-! ## Relaying to a failed connection -/

theorem Connecting.sendMissingDataToClient_eq (h : p.Connecting) :
    p.sendMissingDataToClient io = p := by
  rw [sendMissingDataToClient, sendMissingDataTo, if_neg fun hcall => hcall.2 h.nothingForClient]

theorem Connecting.sendMissingDataToServer (h : p.Connecting) (hio : io.ServerFails) :
    if (p.bufferFor .server).bytesToSend = 0 then p.sendMissingDataToServer io = p
    else (p.sendMissingDataToServer io).Unnoticed := by
  split
  · rename_i hz
    rw [ConnectionPeer.sendMissingDataToServer, sendMissingDataTo, if_neg fun hcall => hcall.2 hz]
  · rename_i hpending
    have hf : p.SendFails .server io := ⟨h.opened _, hpending, hio.sendNB _⟩
    obtain ⟨id, hid, hq⟩ := sendMissingDataToServer_of_fails hf
    exact h.unnoticed hq hid

theorem Connecting.getMissingDataFromServer (h : p.Connecting) (hio : io.ServerFails) :
    (p.ReadFails .server io → (p.getMissingDataFromServer io).Unnoticed) ∧
      (¬p.ReadFails .server io → p.getMissingDataFromServer io = p) := by
  constructor
  · intro hf
    obtain ⟨id, hid, hq⟩ := getMissingDataFromServer_of_fails hf
    exact h.unnoticed hq hid
  · intro hf
    rw [ConnectionPeer.getMissingDataFromServer, getMissingDataFrom, if_neg]
    exact fun hcall => hf ⟨hcall.1, hcall.2, hio.receiveNB _⟩

/-- The first half of `manageConnections` while the client stays: the send to the server, after
the read if there was one. -/
theorem Connecting.firstHalf_of_send {r : ConnectionPeer} (h : r.Connecting)
    (hio : io.ServerFails) (setr setw : FdSet)
    (hmarked : p.marked .client setr = true ∨ p.marked .server setw = true)
    (hout : (r.bufferFor .server).bytesToSend = p.outgoing setr io) :
    (p.ServerRefuses setr setw io → (r.sendMissingDataToServer io).Unnoticed) ∧
      (¬p.ServerRefuses setr setw io → r.sendMissingDataToServer io = r) := by
  have hsend := h.sendMissingDataToServer hio
  rw [hout] at hsend
  constructor
  · intro hrefuses
    rwa [if_neg hrefuses.2.1] at hsend
  · intro hok
    have hnothing : p.outgoing setr io = 0 := by
      by_contra hpending
      exact hok ⟨hmarked, hpending, hio.sendNB _⟩
    rwa [if_pos hnothing] at hsend

theorem Connecting.relayFromClient_of_ends (h : p.Connecting) (hends : p.ClientEnds setr io)
    (setw : FdSet) : ∃ q, p.relayFromClient setr setw io = .ok q ∧ q.Refused := by
  have hq := h.refused_of_fails hends.2
  refine ⟨_, relayFromClient_of_opened h.opened setr setw io, ?_⟩
  rw [if_pos hends.1, ConnectionPeer.sendMissingDataToServer,
    sendMissingDataTo_of_closed (hq.closed .server)]
  exact hq

/-- What the first half leaves of a peer whose client stays. -/
theorem Connecting.relayFromClient (h : p.Connecting) (hio : io.ServerFails)
    (hstays : ¬p.ClientEnds setr io) (setw : FdSet) :
    ∃ q, p.relayFromClient setr setw io = .ok q ∧
      (p.ServerRefuses setr setw io → q.Unnoticed) ∧
      (¬p.ServerRefuses setr setw io → q.Connecting ∧
        q.socket .server = p.socket .server ∧ q.bufferFor .client = p.bufferFor .client) := by
  refine ⟨_, relayFromClient_of_opened h.opened setr setw io, ?_⟩
  by_cases hr : p.marked .client setr = true
  · rw [if_pos hr]
    have hreads : ¬p.ReadFails .client io := fun hf => hstays ⟨hr, hf⟩
    have hq := getMissingDataFromClient_of_not_fails hreads
    obtain ⟨hbad, hgood⟩ := (h.reads hreads).firstHalf_of_send hio setr setw (.inl hr)
      (hq.pending.trans (by rw [outgoing, if_pos hr]; rfl))
    refine ⟨hbad, fun hok => ?_⟩
    rw [hgood hok]
    exact ⟨h.reads hreads, hq.same.socket _, hq.buffer⟩
  · rw [if_neg hr]
    by_cases hw : p.marked .server setw = true
    · obtain ⟨hbad, hgood⟩ := h.firstHalf_of_send hio setr setw (.inr hw)
        (by rw [outgoing, if_neg hr]; rfl)
      rw [if_pos hw]
      refine ⟨hbad, fun hok => ?_⟩
      rw [hgood hok]
      exact ⟨h, rfl, rfl⟩
    · rw [if_neg hw]
      exact ⟨fun hrefuses => absurd hrefuses.1 (by simp [hr, hw]), fun _ => ⟨h, rfl, rfl⟩⟩

theorem Connecting.relayFromServer (h : p.Connecting) (hio : io.ServerFails)
    (setr setw : FdSet) :
    ∃ q, p.relayFromServer setr setw io = .ok q ∧
      (p.marked .server setr = true ∧ p.ReadFails .server io → q.Unnoticed) ∧
      (¬(p.marked .server setr = true ∧ p.ReadFails .server io) → q.Connecting) := by
  obtain ⟨c, hc⟩ := Option.isSome_iff_exists.mp (h.opened .client)
  obtain ⟨s, hs⟩ := Option.isSome_iff_exists.mp (h.opened .server)
  have hms : p.marked .server setr = s.isInFDSET setr := by simp [marked, hs]
  obtain ⟨hbad, hgood⟩ := h.getMissingDataFromServer hio
  by_cases hr : s.isInFDSET setr
  · refine ⟨_, relayFromServer_of_readable hs hr, fun hf => ?_, fun hok => ?_⟩
    · have hq := hbad hf.2
      rwa [sendMissingDataToClient, sendMissingDataTo_of_closed (hq.closed .client)]
    · rw [hgood fun hf => hok ⟨hms.trans hr, hf⟩, h.sendMissingDataToClient_eq]
      exact h
  · refine ⟨p, ?_, fun hf => absurd (hms.symm.trans hf.1) hr, fun _ => h⟩
    rw [relayFromServer_of_not_readable hs hr, show p.pClient = some c from hc]
    simp only [h.sendMissingDataToClient_eq, ite_self]

/-! ## One call -/

/-- A call keeps the peer in these stages when it meets the condition, and breaks the property
otherwise. -/
def Settles (p : ConnectionPeer) (op : Op) : Prop :=
  ∃ q, p.perform op = .ok q ∧
    (p.ClientFirst op → q.Connecting ∨ q.Gone) ∧ (¬p.ClientFirst op → ¬q.FailurePosted)

theorem Settles.of_stage {op : Op} (hq : p.perform op = .ok q) (hstage : q.Connecting ∨ q.Gone)
    (hfirst : p.ClientFirst op) : p.Settles op :=
  ⟨q, hq, fun _ => hstage, fun hnot => absurd hfirst hnot⟩

theorem Settles.of_broken {op : Op} (hq : p.perform op = .ok q) (hbroken : ¬q.FailurePosted)
    (hfirst : ¬p.ClientFirst op) : p.Settles op :=
  ⟨q, hq, fun hyes => absurd hyes hfirst, fun _ => hbroken⟩

/-- A writable server counts as connected. -/
theorem Connecting.settles_manageConnectingPeer (h : p.Connecting) (setr setw : FdSet)
    (io : SocketIO) : p.Settles (.manageConnectingPeer setr setw io) := by
  have hboth : p.pClient.isSome ∧ p.pServer.isSome := ⟨h.opened .client, h.opened .server⟩
  obtain ⟨c, hc⟩ := Option.isSome_iff_exists.mp hboth.1
  obtain ⟨s, hs⟩ := Option.isSome_iff_exists.mp (h.opened .server)
  have hmc : p.marked .client setr = c.isInFDSET setr := by simp [marked, ← pClient_eq, hc]
  have hms : p.marked .server setw = s.isInFDSET setw := by simp [marked, hs]
  have hmanage : p.connectBoth setr setw io = _ := connectBoth_eq hc
  rw [← hmc] at hmanage
  have hperform : p.perform (.manageConnectingPeer setr setw io) =
      (p.connectBoth setr setw io).map Prod.snd := by
    rw [perform, ConnectionPeer.manageConnectingPeer, if_pos hboth]
  by_cases hends : p.ClientEnds setr io
  · have hq := h.refused_of_fails hends.2
    have hclosed : (p.getMissingDataFromClient io).pServer = none := hq.closed .server
    simp only [if_pos hends.1, hclosed] at hmanage
    rw [hmanage] at hperform
    exact .of_stage hperform (.inr hq.gone) (.inl hends)
  have hq : (if p.marked .client setr = true then p.getMissingDataFromClient io
      else p).Connecting ∧ (if p.marked .client setr = true then p.getMissingDataFromClient io
      else p).pServer = some s := by
    split
    · rename_i hr
      have hreads : ¬p.ReadFails .client io := fun hf => hends ⟨hr, hf⟩
      have hsame := (getMissingDataFromClient_of_not_fails hreads).same
      exact ⟨h.reads hreads, (hsame.socket .server).trans hs⟩
    · exact ⟨h, hs⟩
  generalize (if p.marked .client setr = true then p.getMissingDataFromClient io else p) = q
    at hq hmanage
  simp only [hq.2, ← hms] at hmanage
  rw [hmanage] at hperform
  by_cases hw : p.marked .server setw = true
  · rw [if_pos hw] at hperform
    have hest := hq.1.establish
    rw [hq.2] at hest
    refine .of_broken hperform hest.not_failurePosted ?_
    rintro (hends' | hnot)
    · exact hends hends'
    · simp [hw] at hnot
  · rw [if_neg hw] at hperform
    exact .of_stage hperform (.inl hq.1) (.inr (by simpa using hw))

theorem Connecting.settles_manageConnections (h : p.Connecting) (setr setw : FdSet)
    (hio : io.ServerFails) : p.Settles (.manageConnections setr setw io) := by
  have hmanage : ∀ q, p.relayFromClient setr setw io = .ok q →
      p.perform (.manageConnections setr setw io) = q.relayFromServer setr setw io := by
    intro q hq
    rw [perform, ConnectionPeer.manageConnections,
      if_pos ⟨h.opened .client, h.opened .server⟩, hq]
    rfl
  by_cases hends : p.ClientEnds setr io
  · obtain ⟨q, hq, hrefused⟩ := h.relayFromClient_of_ends hends setw
    have hperform := hmanage q hq
    rw [relayFromServer_of_closed (hrefused.closed .server)] at hperform
    exact .of_stage hperform (.inr hrefused.gone) (.inl hends)
  obtain ⟨q, hq, hbad, hgood⟩ := h.relayFromClient hio hends setw
  have hperform := hmanage q hq
  by_cases hrefuses : p.ServerRefuses setr setw io
  · rw [relayFromServer_of_closed ((hbad hrefuses).closed .server)] at hperform
    refine .of_broken hperform (hbad hrefuses).not_failurePosted ?_
    rintro (hends' | hok)
    · exact hends hends'
    · exact hok.1 hrefuses
  · obtain ⟨hconnecting, hserver, hbuf⟩ := hgood hrefuses
    obtain ⟨r, hr, hbad', hgood'⟩ := hconnecting.relayFromServer hio setr setw
    have hmarked : q.marked .server setr = p.marked .server setr := by
      rw [marked, hserver, marked]
    rw [hr] at hperform
    rw [hmarked, readFails_congr io hserver hbuf] at hbad' hgood'
    by_cases hreads : p.marked .server setr = true ∧ p.ReadFails .server io
    · refine .of_broken hperform (hbad' hreads).not_failurePosted ?_
      rintro (hends' | hok)
      · exact hends hends'
      · exact hok.2 hreads
    · exact .of_stage hperform (.inl (hgood' hreads)) (.inr ⟨hrefuses, hreads⟩)

theorem Connecting.settles_checkPeers (h : p.Connecting) (io : SocketIO) :
    p.Settles (.checkPeers io) := by
  have hperform : p.perform (.checkPeers io) = .ok (p.checkPeers io) := rfl
  by_cases hf : ∃ d, p.CheckFails d io
  · refine .of_broken hperform (h.unnoticed_checkPeers hf).not_failurePosted fun hok => ?_
    obtain ⟨d, hd⟩ := hf
    exact hok d hd
  · rw [not_exists] at hf
    exact .of_stage hperform (.inl (h.checkPeers hf)) hf

theorem Connecting.settles_closePInfo (h : p.Connecting) (pcheck : Option Ptr) :
    p.Settles (.closePInfo pcheck) := by
  have hperform : p.perform (.closePInfo pcheck) = .ok (p.closePInfo pcheck) := rfl
  by_cases hp : pcheck = p.pinfo
  · subst hp
    exact .of_broken hperform h.unnoticed_closePInfo.not_failurePosted
      fun hok => hok h.isActive rfl
  · rw [ConnectionPeer.closePInfo, if_neg hp] at hperform
    exact .of_stage hperform (.inl h) fun _ => hp

theorem Connecting.settles (h : p.Connecting) {op : Op} (hop : op.ServerFails) :
    p.Settles op := by
  cases op with
  | manageConnectingPeer setr setw io => exact h.settles_manageConnectingPeer setr setw io
  | manageConnections setr setw io => exact h.settles_manageConnections setr setw hop
  | checkPeers io => exact h.settles_checkPeers io
  | checkConnectingPeers io => exact h.settles_checkPeers io
  | closePInfo pcheck => exact h.settles_closePInfo pcheck

theorem Gone.settles (h : p.Gone) (op : Op) : p.Settles op := by
  have hmarked : ∀ d set, p.marked d set = false := fun d set => by simp [marked, h.closed]
  have hinactive : p.isActive = false := p.isActive_eq_false.mpr h.closed
  cases op with
  | manageConnectingPeer setr setw io =>
      have hperform : p.perform (.manageConnectingPeer setr setw io) = .ok p := by
        rw [perform, manageConnectingPeer_of_closed h.closed]
        rfl
      exact .of_stage hperform (.inr h) (.inr (hmarked _ _))
  | manageConnections setr setw io =>
      refine .of_stage (manageConnections_of_closed h.closed) (.inr h) (.inr ⟨?_, ?_⟩)
      · rintro ⟨hm, -⟩
        simp [hmarked] at hm
      · rintro ⟨hm, -⟩
        simp [hmarked] at hm
  | checkPeers io =>
      have hperform : p.perform (.checkPeers io) = .ok p :=
        congrArg _ (checkPeers_of_closed h.closed)
      refine .of_stage hperform (.inr h) fun d hd => ?_
      simpa [h.closed] using hd.1
  | checkConnectingPeers io =>
      have hperform : p.perform (.checkConnectingPeers io) = .ok p :=
        congrArg _ (checkPeers_of_closed h.closed)
      refine .of_stage hperform (.inr h) fun d hd => ?_
      simpa [h.closed] using hd.1
  | closePInfo pcheck =>
      have hgone : (p.closePInfo pcheck).Gone := by
        by_cases hp : pcheck = p.pinfo
        · rw [hp]
          exact h.closePInfo
        · rwa [ConnectionPeer.closePInfo, if_neg hp]
      exact .of_stage rfl (.inr hgone) fun hactive => absurd hactive (by simp [hinactive])

/-! ## Runs -/

/-- For a peer whose connection to the server fails: in a run, no establishment is ever posted and
the failure has been posted by the time the peer is inactive, exactly if the client ends before
any call takes up the server. A failure that is posted puts the server into its retry window. -/
theorem failed_connect_posted (memory : Endpoint → Nat → UInt8) (c s : Socket) (info : Ptr)
    (ops : List { op : Op // op.ServerFails }) :
    (Along performFailing FailurePosted (create memory (some c) (some s) true (some info)) ops ↔
      Clear performFailing (fun p op => p.ClientFirst op.1)
        (create memory (some c) (some s) true (some info)) ops) ∧
    ∀ (list : ServerList) q i now, (list.peerList.map PeerInfo.addr).Nodup → q ∈ list.peerList →
      q.addr = info → list.dstServer q = some i →
      ∃ srv, (list.processMessage ⟨statusConnectionFailed, info⟩ now).serversList[i]? = some srv ∧
        ∀ now', srv.inRetry list.serverRetryMilliseconds now' =
          decide (now' - now < list.serverRetryMilliseconds) := by
  have hsettles : ∀ (p : ConnectionPeer) (op : { op : Op // op.ServerFails }),
      p.Connecting ∨ p.Gone → p.Settles op.1 := by
    intro p op hp
    rcases hp with hp | hp
    · exact hp.settles op.2
    · exact hp.settles op.1
  constructor
  · refine along_iff_clear (I := fun p : ConnectionPeer => p.Connecting ∨ p.Gone) ?_ ?_ ?_
      (.inl (connecting_create memory c s info)) ops
    · intro p hp
      exact hp.elim (·.failurePosted) (·.failurePosted)
    · intro p op q hp hfirst hq
      obtain ⟨r, hr, hstage, -⟩ := hsettles p op hp
      obtain rfl := Except.ok.inj (hr.symm.trans hq)
      exact hstage hfirst
    · intro p op hp hfirst
      obtain ⟨r, hr, -, hbroken⟩ := hsettles p op hp
      exact ⟨r, hr, hbroken hfirst⟩
  · rintro list q i now hnodup hq rfl hdst
    exact ServerList.inRetry_processMessage hnodup hq hdst now

namespace Sample

def refused : SocketIO where
  receiveNB _ := ReceiveResult.code (-1) (by decide)
  sendNB _ := SendResult.code (-1) (by decide)
  checkSocket _ := 0

theorem serverFails_refused : refused.ServerFails :=
  ⟨fun _ => Int.negSucc_lt_zero 0, fun _ => Int.negSucc_lt_zero 0⟩

end Sample

/-- `select` marks the server as writable, and the establishment is posted. -/
theorem failed_connect_established : ¬∀ (memory : Endpoint → Nat → UInt8) (c s : Socket)
    (info : Ptr) (ops : List { op : Op // op.ServerFails }),
      Along performFailing FailurePosted (create memory (some c) (some s) true (some info))
        ops := by
  intro h
  obtain ⟨-, hafter⟩ := h (fun _ _ => 0) Sample.client Sample.server 1
    [⟨.manageConnectingPeer (fun _ => false) (fun fd => fd == 2) Sample.refused,
      Sample.serverFails_refused⟩]
  have hposted := hafter _ rfl
  revert hposted
  simp only [Along, FailurePosted]
  decide

end ConnectionPeer

end Relb
