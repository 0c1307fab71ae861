import Relb.Proofs.AdminBooks
import Relb.Proofs.ConnectionTable
import Relb.Proofs.SortLinks
/-!
# The page of the servers

A server is shown with two numbers and with a link. The link comes back as a request for the table
of the server's connections, in whatever request it stands, and the numbers are those of the rows
that this table has in their account.
-/

namespace Relb

open Lib

variable {texts : Texts} {srv : ServerInfo} {headers : List (List Char)}

/-! ## The link -/

namespace ServerInfo

/-- The request for the connections of the server. -/
def listRequest (srv : ServerInfo) : ListRequest := ⟨ipnone, srv.ip, 0, srv.port, 0, 1, true⟩

theorem sortBy_listRequest (srv : ServerInfo) : srv.listRequest.sortBy = sortBySrcIp := rfl

/-- What the link is cut into, behind its page. -/
def linkWords (srv : ServerInfo) : List (List Char) :=
  [textDstIpParam.toList ++ srv.ip.text, textDstPortParam.toList ++ decimal srv.port.toNat,
    "HTTP/1.1".toList]

theorem isPlain_linkWords (srv : ServerInfo) : ∀ w ∈ srv.linkWords, IsPlain w := by
  have hip : IsPlain (textDstIpParam.toList ++ srv.ip.text) :=
    IsPlain.append (by decide) (isPlain_text _)
  have hport : IsPlain (textDstPortParam.toList ++ decimal srv.port.toNat) :=
    IsPlain.append (by decide) (isPlain_decimal _)
  have hversion : IsPlain "HTTP/1.1".toList := by decide
  intro w hw
  simp only [linkWords, List.mem_cons, List.not_mem_nil, or_false] at hw
  rcases hw with rfl | rfl | rfl
  · exact hip
  · exact hport
  · exact hversion

theorem cut_row_link (htexts : texts.Canonical) (srv : ServerInfo) :
    ((srv.row texts).link ++ " HTTP/1.1".toList).map cutChar =
      webPageList.toList ++ behindNuls srv.linkWords := by
  have hplain := srv.isPlain_linkWords
  rw [linkWords, List.forall_mem_cons, List.forall_mem_cons] at hplain
  have hpage : webPageList.toList.map cutChar = webPageList.toList := by decide
  have hversion : " HTTP/1.1".toList.map cutChar = behindNuls ["HTTP/1.1".toList] := rfl
  have hfirst : ∀ w ∈ [textDstIpParam.toList ++ srv.ip.text], IsPlain w :=
    fun w hw => List.mem_singleton.mp hw ▸ hplain.1
  have hwords := cut_words hfirst (show isSeparator '?' = true from rfl)
    (textDstPortParam.toList ++ decimal srv.port.toNat ++ " HTTP/1.1".toList)
  rw [List.flatMap_singleton, List.map_append, hplain.2.1.map_cutChar] at hwords
  have hlink : (srv.row texts).link ++ " HTTP/1.1".toList = webPageList.toList ++
      ('?' :: (textDstIpParam.toList ++ srv.ip.text ++ ['&'] ++
        (textDstPortParam.toList ++ decimal srv.port.toNat ++ " HTTP/1.1".toList))) := by
    unfold row
    dsimp only
    rw [htexts.iptostring, htexts.itostring]
    simp only [List.append_assoc, List.cons_append, List.nil_append]
  rw [hlink, List.map_append, hpage, hwords, hversion, ← behindNuls_cons, ← behindNuls_append]
  rfl

theorem listParamOf_version (r : ListRequest) : listParamOf "HTTP/1.1".toList r = r := rfl

theorem listRequestOf_linkWords (srv : ServerInfo) :
    listRequestOf (webPageList.toList ++ behindNuls srv.linkWords) = srv.listRequest := by
  have hport : atoi (decimal srv.port.toNat) = srv.port.toNat := by
    simpa using atoi_decimal (srv.port.toNat_lt.trans (by decide)) endsNumber_nil
  rw [listRequestOf_words (by decide) fun w hw => (srv.isPlain_linkWords w hw).not_mem_nul,
    linkWords, List.foldl_cons, List.foldl_cons, List.foldl_cons, List.foldl_nil,
    listParamOf_dstIp, ipaddressOf_text, listParamOf_dstPort, hport, ofInt_toNat,
    listParamOf_version]
  rfl

theorem getLine_row_link (htexts : texts.Canonical) (srv : ServerInfo) (redirection : Bool) :
    getLine (requestLine (srv.row texts).link) redirection =
      .ok ([.list srv.listRequest], false) := by
  have hcut := srv.cut_row_link htexts
  rw [getLine_requestLine, pageCallsOf_list hcut, hcut, listRequestOf_linkWords,
    answer_singleton]

end ServerInfo

/-! ## Requests -/

theorem requestCalls_of_first {line : List Char} {calls : List PageCall} {redirection : Bool}
    (hline : getLine line true = .ok (calls, redirection))
    (hheaders : ∀ h ∈ headers, startsWith h "GET " = false) :
    requestCalls (line :: headers) = .ok calls := by
  have hrest : headers.foldlM (fun (answered : List PageCall × Bool) line => do
      let more ← getLine line answered.2
      return (answered.1 ++ more.1, more.2)) (calls, redirection) = .ok (calls, redirection) := by
    induction headers with
    | nil => rfl
    | cons h headers ih =>
        rw [List.forall_mem_cons] at hheaders
        rw [List.foldlM_cons, getLine_other hheaders.1]
        have hsame : (calls ++ ([] : List PageCall), redirection) = (calls, redirection) := by
          rw [List.append_nil]
        change List.foldlM _ (calls ++ [], redirection) headers = _
        rw [hsame]
        exact ih hheaders.2
  unfold requestCalls
  rw [List.foldlM_cons, hline]
  change (List.foldlM _ (calls, redirection) headers >>= _) = _
  rw [hrest]
  rfl

/-! ## The numbers -/

theorem ServerInfo.selects_listRequest (hip : srv.ip ≠ ipnone) (hport : srv.port ≠ 0)
    (q : PeerInfo) : srv.listRequest.Selects q ↔ srv.isDst q = true := by
  constructor
  · intro h
    have hsame : q.dstIp = srv.ip := h.dstIp hip
    have hsamePort : q.dstPort = srv.port := h.dstPort hport
    simp [isDst, hsame, hsamePort]
  · intro h
    simp only [isDst, Bool.and_eq_true, beq_iff_eq] at h
    exact ⟨fun h => absurd rfl h, fun h => absurd rfl h, fun _ => h.1.symm, fun _ => h.2.symm,
      fun h => absurd rfl h⟩

namespace AdminRun

variable {w : AdminRun} {x : ServerRow}

theorem perm_list (w : AdminRun) (hip : srv.ip ≠ ipnone) (hport : srv.port ≠ 0) :
    (w.admin.list w.heap srv.listRequest).Perm
      (((w.admin.peerList.filterMap w.heap).filter fun q => srv.isDst q).map PeerInfo.row) := by
  have hselects : (fun q => decide (srv.listRequest.Selects q)) = srv.isDst :=
    funext fun q => Bool.eq_iff_iff.mpr
      (by rw [decide_eq_true_iff, ServerInfo.selects_listRequest hip hport])
  unfold AdminHTTPServer.list
  rw [ListRequest.rows_eq (by simp [ServerInfo.sortBy_listRequest]), hselects]
  exact perm_insertAll _ _

theorem Audited.countP_list (h : w.Audited) (hsrv : srv ∈ w.admin.serverList)
    (hip : srv.ip ≠ ipnone) (hport : srv.port ≠ 0) (a : Account) :
    srv.book a = ((w.admin.list w.heap srv.listRequest).countP
      fun row => statusAccount row.status == some a : Nat) := by
  calc
    srv.book a = (ServerList.tally PeerInfo.account (w.admin.peerList.filterMap w.heap) srv a :
        Int) := h.books srv hsrv a
    _ = (((w.admin.peerList.filterMap w.heap).filter fun q => srv.isDst q).map
        PeerInfo.row).countP (fun row => statusAccount row.status == some a) := by
      rw [List.countP_map, List.countP_filter, ServerList.tally]
      congr 1
      apply List.countP_congr
      intro q _
      rw [Bool.and_comm]
      rfl
    _ = _ := by rw [(w.perm_list hip hport).countP_eq]

/-- The link of a server leads to the rows of its connections, by client, and the numbers in front
of it count these rows. -/
theorem servers_agree (htexts : texts.Canonical) (hw : ReachableBy Admissible w)
    (hset : ∀ srv ∈ w.admin.serverList, srv.ip ≠ ipnone ∧ srv.port ≠ 0)
    (hx : x ∈ w.admin.servers texts) (hheaders : ∀ h ∈ headers, startsWith h "GET " = false) :
    ∃ srv ∈ w.admin.serverList, ∃ r,
      x.name = srv.ip.text ++ ':' :: decimal srv.port.toNat ∧
      requestCalls (requestLine x.link :: headers) = .ok [.list r] ∧
      (w.admin.list w.heap r).Perm
        (((w.admin.peerList.filterMap w.heap).filter fun q => srv.isDst q).map PeerInfo.row) ∧
      (w.admin.list w.heap r).Pairwise (SortedBy sortBySrcIp) ∧
      x.connected = ((w.admin.list w.heap r).countP
        fun row => statusAccount row.status == some .connected : Nat) ∧
      x.disconnected = ((w.admin.list w.heap r).countP
        fun row => statusAccount row.status == some .disconnected : Nat) := by
  obtain ⟨srv, hsrv, rfl⟩ := List.mem_map.mp hx
  obtain ⟨hip, hport⟩ := hset srv hsrv
  have hname : (srv.row texts).name = srv.ip.text ++ ':' :: decimal srv.port.toNat := by
    unfold ServerInfo.row
    dsimp only
    rw [htexts.iptostring, htexts.itostring, List.append_assoc]
    rfl
  have hsorted : (w.admin.list w.heap srv.listRequest).Pairwise (SortedBy sortBySrcIp) := by
    unfold AdminHTTPServer.list
    rw [ListRequest.rows_eq (by simp [ServerInfo.sortBy_listRequest])]
    exact (ListRequest.places_insertHere (r := srv.listRequest) rfl
      ⟨Int.le_refl 1, (by decide : (1 : Int) ≤ 5)⟩).pairwise_insertAll _
  refine ⟨srv, hsrv, srv.listRequest, hname, ?_, w.perm_list hip hport, hsorted, ?_, ?_⟩
  · exact requestCalls_of_first (srv.getLine_row_link htexts true) hheaders
  · exact hw.audited.countP_list hsrv hip hport .connected
  · exact hw.audited.countP_list hsrv hip hport .disconnected

namespace Sample

def established : AdminRun :=
  (start.receive ⟨statusConnectingServer, 200⟩ 10).receive ⟨statusConnectionEstablished, 200⟩ 20

theorem reachable_established : ReachableBy Admissible established := by
  have hunlisted : ∀ (w : AdminRun) (msg : Message), msg.id ≠ statusPeerConnectionDeleted →
      w.Unlisted msg := fun w msg hid heq => absurd heq hid
  have hannounced : ReachableBy Admissible (start.receive ⟨statusConnectingServer, 200⟩ 10) :=
    .next (a := (⟨statusConnectingServer, 200⟩, 10)) (.start started_start)
      ⟨rfl, hunlisted _ _ (by decide)⟩ rfl
  exact hannounced.next (a := (⟨statusConnectionEstablished, 200⟩, 20))
    ⟨.inl (.inl ⟨rfl, .inl rfl⟩), hunlisted _ _ (by decide)⟩ rfl

end Sample

/-- One connection is open. -/
theorem servers_agree_established :
    ∃ srv ∈ Sample.established.admin.serverList, ∃ r,
      "10.0.0.1:80".toList = srv.ip.text ++ ':' :: decimal srv.port.toNat ∧
      requestCalls [requestLine "list?dst_ip=10.0.0.1&dst_port=80".toList,
        "Host: relb".toList] = .ok [.list r] ∧
      (Sample.established.admin.list Sample.established.heap r).Perm
        (((Sample.established.admin.peerList.filterMap Sample.established.heap).filter
          fun q => srv.isDst q).map PeerInfo.row) ∧
      (Sample.established.admin.list Sample.established.heap r).Pairwise (SortedBy sortBySrcIp) ∧
      (1 : Int) = ((Sample.established.admin.list Sample.established.heap r).countP
        fun row => statusAccount row.status == some .connected : Nat) ∧
      (0 : Int) = ((Sample.established.admin.list Sample.established.heap r).countP
        fun row => statusAccount row.status == some .disconnected : Nat) := by
  have hx : ⟨"list?dst_ip=10.0.0.1&dst_port=80".toList, "10.0.0.1:80".toList, 1, 0⟩ ∈
      Sample.established.admin.servers canonicalTexts := by decide +kernel
  have hset : ∀ srv ∈ Sample.established.admin.serverList, srv.ip ≠ ipnone ∧ srv.port ≠ 0 := by
    decide +kernel
  exact servers_agree canonicalTexts_canonical Sample.reachable_established hset hx (by decide)

end AdminRun

end Relb
