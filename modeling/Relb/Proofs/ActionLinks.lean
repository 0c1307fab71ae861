import Relb.Proofs.ConnectionTable
import Relb.Proofs.Links
/-!
# Action links

A row has a link for each action on its client. The page of a link is its first word, and no page
is the beginning of a word that is compared with another one; the parameters are the next two words,
and the pointers that the action gets stand in front of their values.
-/

namespace Relb

open Lib

variable {texts : Texts} {r : ListRequest} {row : PeerRow} {a : AdminHTTPServer}
  {heap : Ptr → Option PeerInfo} {line v w front : List Char}

/-! ## The words of a link -/

theorem peerParamOf_srcIp (h : Nat) (v : List Char) (q : PeerParams) :
    peerParamOf h (textSrcIpParam.toList ++ v) q =
      { q with srcIp := some (h + textSrcIpParam.toList.length) } := by
  simp (disch := decide +kernel) only [peerParamOf, onParamOf_self, onParamOf_other]

theorem peerParamOf_srcPort (h : Nat) (v : List Char) (q : PeerParams) :
    peerParamOf h (textSrcPortParam.toList ++ v) q =
      { q with srcPort := some (h + textSrcPortParam.toList.length) } := by
  simp (disch := decide +kernel) only [peerParamOf, onParamOf_self, onParamOf_other]

theorem peerParamOf_version (h : Nat) (q : PeerParams) :
    peerParamOf h ("HTTP/1.1".toList ++ []) q = q := rfl

/-- What a link of a row is cut into. -/
def actionWords (v w : List Char) : List (List Char) :=
  [textSrcIpParam.toList ++ v, textSrcPortParam.toList ++ w, "HTTP/1.1".toList]

theorem actionText_eq (front v w : List Char) : front ++ behindNuls (actionWords v w) =
    front ++ '\x00' :: (textSrcIpParam.toList ++ (v ++
      '\x00' :: (textSrcPortParam.toList ++ (w ++ '\x00' :: ("HTTP/1.1".toList ++ []))))) := by
  unfold actionWords
  rw [behindNuls_cons, behindNuls_cons, behindNuls_cons, List.append_assoc, List.append_assoc]
  rfl

theorem peerParamsOf_actionText (hfront : '\x00' ∉ front) (hv : '\x00' ∉ v)
    (hw : '\x00' ∉ w) : peerParamsOf (front ++ behindNuls (actionWords v w)) =
      ⟨some (5 + front.length + 1 + textSrcIpParam.toList.length),
        some (5 + front.length + 1 + textSrcIpParam.toList.length + v.length + 1 +
          textSrcPortParam.toList.length)⟩ := by
  have hip : '\x00' ∉ textSrcIpParam.toList := by decide
  have hport : '\x00' ∉ textSrcPortParam.toList := by decide
  have hversion : '\x00' ∉ "HTTP/1.1".toList := by decide
  unfold peerParamsOf
  rw [actionText_eq, sweep_word hfront, sweep, behindNul, if_pos rfl, peerParamOf_srcIp,
    sweep_word hip, sweep_word hv, sweep, behindNul, if_pos rfl, peerParamOf_srcPort,
    sweep_word hport, sweep_word hw, sweep, behindNul, if_pos rfl, peerParamOf_version,
    sweep_word hversion]
  rfl

theorem peer_actionText (hfront : '\x00' ∉ front) (hv : '\x00' ∉ v) (hw : '\x00' ∉ w)
    (hs : Stands line 5 (front ++ behindNuls (actionWords v w))) :
    (peerParamsOf (front ++ behindNuls (actionWords v w))).peer line =
      some (.ok (ipaddressOf v, UInt16.ofInt (atoi w))) := by
  rw [peerParamsOf_actionText hfront hv hw]
  rw [actionText_eq] at hs
  have hsrcIp := hs.append.next.append
  have hsrcPort := hsrcIp.append.next.append
  have hpeer := peerAt_eq hsrcIp hsrcPort
  rw [ipaddressOf_nul, atoi_nul] at hpeer
  exact congrArg some hpeer

/-! ## Actions -/

/-- What can be done to the client of a row. -/
inductive RowAction
  | kick
  | ban
  | banAll
  deriving DecidableEq, Repr

namespace RowAction

def page : RowAction → String
  | kick => webPageKick
  | ban => webPageBan
  | banAll => webPageBanAll

def link (texts : Texts) (row : PeerRow) : RowAction → List Char
  | kick => row.kickLink texts
  | ban => row.banLink texts
  | banAll => row.banAllLink texts

def call (q : PeerParams) : RowAction → PageCall
  | kick => .kick q
  | ban => .ban q
  | banAll => .banAll q

/-- What the action posts for an address and a port. -/
def post (a : AdminHTTPServer) (heap : Ptr → Option PeerInfo) (ip : IpAddress) (port : UInt16) :
    RowAction → Option Message
  | kick => a.kick heap ip port
  | ban => a.ban heap ip port
  | banAll => a.banAll heap ip port

def messageId : RowAction → UInt32
  | kick => statusPeerConnectionKicked
  | ban => statusPeerConnectionBanThis
  | banAll => statusPeerConnectionBanAll

theorem post_eq (action : RowAction) (a : AdminHTTPServer) (heap : Ptr → Option PeerInfo)
    (ip : IpAddress) (port : UInt16) :
    action.post a heap ip port = (a.requested heap ip port).map (⟨action.messageId, ·⟩) := by
  cases action <;> rfl

theorem not_mem_nul_page (action : RowAction) : '\x00' ∉ action.page.toList := by
  cases action <;> decide

/-- A link is cut into its page and its parameters. -/
theorem cut_link (htexts : texts.Canonical) (action : RowAction) (row : PeerRow) :
    (action.link texts row ++ " HTTP/1.1".toList).map cutChar =
      action.page.toList ++
        behindNuls (actionWords row.srcIp.text (decimal row.srcPort.toNat)) := by
  have hpage : action.page.toList.map cutChar = action.page.toList := by
    cases action <;> decide
  have hlink : action.link texts row = action.page.toList ++ ['?'] ++ row.actionParams texts := by
    cases action <;> rfl
  have hip : IsPlain (textSrcIpParam.toList ++ row.srcIp.text) :=
    IsPlain.append (by decide) (isPlain_text _)
  have hport : IsPlain (textSrcPortParam.toList ++ decimal row.srcPort.toNat) :=
    IsPlain.append (by decide) (isPlain_decimal _)
  have hversion : " HTTP/1.1".toList.map cutChar = behindNuls ["HTTP/1.1".toList] := rfl
  have hfirst : ∀ w ∈ [textSrcIpParam.toList ++ row.srcIp.text], IsPlain w :=
    fun w hw => List.mem_singleton.mp hw ▸ hip
  have hwords := cut_words hfirst (show isSeparator '?' = true from rfl)
    (textSrcPortParam.toList ++ decimal row.srcPort.toNat ++ " HTTP/1.1".toList)
  rw [List.flatMap_singleton, List.map_append, hport.map_cutChar] at hwords
  have hparams : row.actionParams texts ++ " HTTP/1.1".toList =
      textSrcIpParam.toList ++ row.srcIp.text ++ ['&'] ++
        (textSrcPortParam.toList ++ decimal row.srcPort.toNat ++ " HTTP/1.1".toList) := by
    unfold PeerRow.actionParams
    rw [htexts.iptostring, htexts.itostring]
    simp only [List.append_assoc]
  rw [hlink, List.append_assoc, List.append_assoc, List.map_append, hpage, hparams,
    List.singleton_append, hwords, hversion, ← behindNuls_cons, ← behindNuls_append]
  rfl

theorem pageCallsOf_actionText (action : RowAction) (v w : List Char) :
    pageCallsOf (action.page.toList ++ behindNuls (actionWords v w)) =
      [action.call (peerParamsOf (action.page.toList ++ behindNuls (actionWords v w)))] := by
  have hpage : ∀ other : String, '\x00' ∉ other.toList →
      isText (action.page.toList ++ behindNuls (actionWords v w)) other =
        isText action.page.toList other := fun other hother =>
    isText_page hother _ _
  unfold pageCallsOf
  rw [hpage _ (by decide), hpage _ (by decide), hpage _ (by decide), hpage _ (by decide),
    hpage _ (by decide)]
  cases action <;> rfl

end RowAction

/-! ## Selection -/

theorem ListRequest.exists_of_mem_rows {peerList : List PeerInfo} (h : row ∈ r.rows peerList) :
    ∃ e ∈ peerList, e.row = row := by
  by_cases hkey : r.sortBy = 0
  · unfold rows at h
    rw [if_neg (not_not.mpr hkey)] at h
    exact List.mem_map.mp h
  · rw [rows_eq hkey, (perm_insertAll _ _).mem_iff] at h
    obtain ⟨e, he, hrow⟩ := List.mem_map.mp h
    exact ⟨e, List.mem_of_mem_filter he, hrow⟩

/-- The entry has the address and the port that an action looks for. -/
def PeerInfo.isPeer (e : PeerInfo) (ip : IpAddress) (port : UInt16) : Bool :=
  decide (e.srcIp = ip ∧ e.srcPort = port)

theorem AdminHTTPServer.requested_of_find {ip : IpAddress} {port : UInt16} {e : PeerInfo} {x : Ptr}
    (hfind : (a.peerList.filterMap heap).find? (·.isPeer ip port) = some e)
    (hparallel : e.parallel = some x) : a.requested heap ip port = some x := by
  unfold requested
  generalize a.peerList = l at *
  induction l with
  | nil => cases hfind
  | cons p l ih =>
      rw [List.findSome?_cons]
      cases hp : heap p with
      | none =>
          rw [List.filterMap_cons_none hp] at hfind
          exact ih hfind
      | some q =>
          rw [List.filterMap_cons_some hp] at hfind
          by_cases hq : q.srcIp = ip ∧ q.srcPort = port
          · rw [List.find?_cons_of_pos (by simpa [PeerInfo.isPeer] using hq)] at hfind
            obtain rfl := Option.some.inj hfind
            rw [Option.bind_some, if_pos hq, hparallel]
          · rw [List.find?_cons_of_neg (by simpa [PeerInfo.isPeer] using hq)] at hfind
            rw [Option.bind_some, if_neg hq]
            exact ih hfind

/-- The links of a row come back as exactly their actions, on the address and the port of the row,
and so on the first entry with these. -/
theorem actionLink_addresses_row (htexts : texts.Canonical) (hrow : row ∈ a.list heap r)
    (action : RowAction) (redirection : Bool) :
    (∃ q, getLine (requestLine (action.link texts row)) redirection = .ok ([action.call q], false) ∧
        q.peer (cutLine (requestLine (action.link texts row))) =
          some (.ok (row.srcIp, row.srcPort))) ∧
      ∃ e, (a.peerList.filterMap heap).find? (·.isPeer row.srcIp row.srcPort) = some e ∧
        ∀ x, e.parallel = some x →
          action.post a heap row.srcIp row.srcPort = some ⟨action.messageId, x⟩ := by
  constructor
  · have hport : atoi (decimal row.srcPort.toNat) = row.srcPort.toNat := by
      simpa using atoi_decimal (row.srcPort.toNat_lt.trans (by decide)) endsNumber_nil
    have hcut := action.cut_link htexts row
    have hs := stands_requestLine (action.link texts row)
    rw [hcut] at hs
    have hpeer := peer_actionText action.not_mem_nul_page (isPlain_text _).not_mem_nul
      (isPlain_decimal _).not_mem_nul hs
    rw [ipaddressOf_text, hport, ofInt_toNat] at hpeer
    refine ⟨_, ?_, hpeer⟩
    rw [getLine_requestLine, hcut, action.pageCallsOf_actionText, answer_singleton]
  · obtain ⟨e, he, rfl⟩ := ListRequest.exists_of_mem_rows hrow
    have hsome : ((a.peerList.filterMap heap).find? (·.isPeer e.srcIp e.srcPort)).isSome = true :=
      List.find?_isSome.mpr ⟨e, he, by simp [PeerInfo.isPeer]⟩
    obtain ⟨first, hfirst⟩ := Option.isSome_iff_exists.mp hsome
    refine ⟨first, hfirst, fun x hx => ?_⟩
    have hrequested : a.requested heap e.row.srcIp e.row.srcPort = some x :=
      AdminHTTPServer.requested_of_find hfirst hx
    rw [action.post_eq, hrequested]
    rfl

namespace AdminHTTPServer.Sample

/-- The row of the second connection, from the table by duration. -/
theorem actionLink_addresses_row_second :
    let link := RowAction.link canonicalTexts (connection 2 70).row .banAll
    (∃ q, getLine (requestLine link) true = .ok ([.banAll q], false) ∧
        q.peer (cutLine (requestLine link)) = some (.ok (⟨10, 0, 0, 7⟩, 2))) ∧
      ∃ e, (admin.peerList.filterMap Sample.heap).find? (·.isPeer ⟨10, 0, 0, 7⟩ 2) = some e ∧
        ∀ x, e.parallel = some x →
          admin.banAll Sample.heap ⟨10, 0, 0, 7⟩ 2 = some ⟨statusPeerConnectionBanAll, x⟩ :=
  actionLink_addresses_row (r := byDuration) canonicalTexts_canonical (by decide +kernel) .banAll
    true

end AdminHTTPServer.Sample

end Relb
