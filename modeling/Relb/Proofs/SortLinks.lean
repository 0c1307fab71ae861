import Relb.Proofs.Links
/-!
# Sort links

A sort link has the active filters in front of its key, so that the table that it leads to keeps
them. The source port is written under the name of the destination port, and is not there any more
when the link comes back.
-/

namespace Relb

open Lib

variable {texts : Texts} {r : ListRequest} {column : SortColumn} {v : List Char} {name m : String}

/-! ## What a word does -/

theorem listParamOf_srcIp (v : List Char) (r : ListRequest) :
    listParamOf (textSrcIpParam.toList ++ v) r = { r with srcFilter := ipaddressOf v } := by
  simp (disch := decide +kernel) only [listParamOf, onParamOf_self, onParamOf_other]

theorem listParamOf_dstIp (v : List Char) (r : ListRequest) :
    listParamOf (textDstIpParam.toList ++ v) r = { r with dstFilter := ipaddressOf v } := by
  simp (disch := decide +kernel) only [listParamOf, onParamOf_self, onParamOf_other]

theorem listParamOf_dstPort (v : List Char) (r : ListRequest) :
    listParamOf (textDstPortParam.toList ++ v) r =
      { r with dstPort := UInt16.ofInt (atoi v) } := by
  simp (disch := decide +kernel) only [listParamOf, onParamOf_self, onParamOf_other]

theorem listParamOf_sortBy (v : List Char) (r : ListRequest) :
    listParamOf (textSortByParam.toList ++ v) r = sortByOf v r := by
  simp (disch := decide +kernel) only [listParamOf, onParamOf_self, onParamOf_other]

def SortColumn.number : SortColumn → Int
  | source => sortBySrcIp
  | destination => sortByDstIp
  | status => sortByStatus
  | duration => sortByModified
  | registeredAt => sortByCreation

theorem sortByOf_text (column : SortColumn) (r : ListRequest) :
    sortByOf column.text.toList r = { r with sortBy := column.number } := by
  cases column <;> rfl

/-! ## The words of a link -/

def ListRequest.filterWords (texts : Texts) (r : ListRequest) : List (List Char) :=
  (if r.srcFilter ≠ ipnone then [textSrcIpParam.toList ++ texts.iptostring r.srcFilter] else []) ++
  (if r.srcPort ≠ 0 then [textDstPortParam.toList ++ texts.itostring r.srcPort.toNat] else []) ++
  (if r.dstFilter ≠ ipnone then [textDstIpParam.toList ++ texts.iptostring r.dstFilter] else []) ++
  (if r.dstPort ≠ 0 then [textDstPortParam.toList ++ texts.itostring r.dstPort.toNat] else [])

theorem filters_eq (hstatus : r.statusFilter = 0) :
    r.filters texts = (r.filterWords texts).flatMap (· ++ ['&']) := by
  have hone : ∀ (p : Prop) [Decidable p] (w : List Char),
      (if p then w ++ ['&'] else []) = (if p then [w] else []).flatMap (· ++ ['&']) := by
    intro p _ w
    split
    · rw [List.flatMap_singleton]
    · rfl
  unfold ListRequest.filters ListRequest.filterWords
  rw [hstatus, if_neg (Int.lt_irrefl 0), List.append_nil, hone, hone, hone, hone,
    List.flatMap_append, List.flatMap_append, List.flatMap_append]

theorem isPlain_filterWords (htexts : texts.Canonical) (r : ListRequest) :
    ∀ w ∈ r.filterWords texts, IsPlain w := by
  have hip : ∀ {name : String} (ip : IpAddress), IsPlain name.toList →
      IsPlain (name.toList ++ texts.iptostring ip) := fun ip hname =>
    IsPlain.append hname (htexts.iptostring ip ▸ isPlain_text ip)
  have hnumber : ∀ {name : String} (n : Nat), IsPlain name.toList →
      IsPlain (name.toList ++ texts.itostring n) := fun n hname =>
    IsPlain.append hname (htexts.itostring n ▸ isPlain_decimal n)
  have hone : ∀ {p : Prop} [Decidable p] {v : List Char}, IsPlain v →
      ∀ w ∈ (if p then [v] else []), IsPlain w := by
    intro p _ v hv w hw
    split at hw
    · exact List.mem_singleton.mp hw ▸ hv
    · cases hw
  intro w hw
  unfold ListRequest.filterWords at hw
  simp only [List.mem_append] at hw
  rcases hw with ((hw | hw) | hw) | hw
  · exact hone (hip _ (by decide)) w hw
  · exact hone (hnumber _ (by decide)) w hw
  · exact hone (hip _ (by decide)) w hw
  · exact hone (hnumber _ (by decide)) w hw

/-- What stands behind the filters. -/
def SortColumn.keyText (column : SortColumn) (ascending : Bool) : List Char :=
  textSortByParam.toList ++ column.text.toList ++
    if ascending then [] else ['&'] ++ textSortAscParam.toList

theorem sortLink_eq (texts : Texts) (r : ListRequest) (column : SortColumn) (ascending : Bool) :
    r.sortLink texts column ascending =
      webPageList.toList ++ '?' :: (r.filters texts ++ column.keyText ascending) := by
  unfold ListRequest.sortLink SortColumn.keyText
  simp only [List.append_assoc, List.cons_append, List.nil_append]

/-- The words of a link, and of what stands behind it in a request. -/
def ListRequest.linkWords (texts : Texts) (r : ListRequest) (column : SortColumn)
    (ascending : Bool) : List (List Char) :=
  r.filterWords texts ++ (textSortByParam.toList ++ column.text.toList) ::
    ((if ascending then [] else [textSortAscParam.toList]) ++ ["HTTP/1.1".toList])

theorem cut_keyText (column : SortColumn) (ascending : Bool) :
    (column.keyText ascending ++ " HTTP/1.1".toList).map cutChar =
      textSortByParam.toList ++ column.text.toList ++
        behindNuls ((if ascending then [] else [textSortAscParam.toList]) ++
          ["HTTP/1.1".toList]) := by
  cases column <;> cases ascending <;> rfl

theorem cut_sortLink (htexts : texts.Canonical) (hstatus : r.statusFilter = 0)
    (column : SortColumn) (ascending : Bool) :
    (r.sortLink texts column ascending ++ " HTTP/1.1".toList).map cutChar =
      webPageList.toList ++ behindNuls (r.linkWords texts column ascending) := by
  have hlist : webPageList.toList.map cutChar = webPageList.toList := by decide
  rw [sortLink_eq, filters_eq hstatus, List.append_assoc, List.cons_append, List.append_assoc,
    List.map_append, hlist, cut_words (isPlain_filterWords htexts r) rfl, cut_keyText]
  rw [ListRequest.linkWords, behindNuls_append (r.filterWords texts), behindNuls_cons (_ ++ _)]

theorem not_mem_nul_linkWords (htexts : texts.Canonical) (column : SortColumn) (ascending : Bool) :
    ∀ w ∈ r.linkWords texts column ascending, '\x00' ∉ w := by
  have hkey : IsPlain (textSortByParam.toList ++ column.text.toList) := by
    cases column <;> decide
  have hlast : ∀ w ∈ (if ascending then [] else [textSortAscParam.toList]) ++
      ["HTTP/1.1".toList], IsPlain w := by
    cases ascending <;> decide
  intro w hw
  unfold ListRequest.linkWords at hw
  rcases List.mem_append.mp hw with hw | hw
  · exact (isPlain_filterWords htexts r w hw).not_mem_nul
  · rcases List.mem_cons.mp hw with rfl | hw
    · exact hkey.not_mem_nul
    · exact (hlast w hw).not_mem_nul

/-! ## The request that comes back -/

theorem foldl_addressWord {d : ListRequest} (htexts : texts.Canonical)
    (set : ListRequest → IpAddress → ListRequest)
    (hset : ∀ v d, listParamOf (name.toList ++ v) d = set d (ipaddressOf v))
    (ip : IpAddress) (hnone : set d ipnone = d) :
    (if ip ≠ ipnone then [name.toList ++ texts.iptostring ip] else []).foldl
      (fun r w => listParamOf w r) d = set d ip := by
  split
  · rw [List.foldl_cons, List.foldl_nil, hset, htexts.iptostring, ipaddressOf_text]
  · rename_i hip
    rw [not_not.mp hip, hnone]
    rfl

theorem foldl_portWord (htexts : texts.Canonical) (port : UInt16) (d : ListRequest) :
    (if port ≠ 0 then [textDstPortParam.toList ++ texts.itostring port.toNat] else []).foldl
      (fun r w => listParamOf w r) d =
        { d with dstPort := if port ≠ 0 then port else d.dstPort } := by
  have hport : atoi (decimal port.toNat) = port.toNat := by
    simpa using atoi_decimal (port.toNat_lt.trans (by decide)) endsNumber_nil
  split
  · rw [List.foldl_cons, List.foldl_nil, listParamOf_dstPort, htexts.itostring, hport, ofInt_toNat]
  · rfl

/-- The source port has become a destination port, unless there is one. -/
theorem listRequestOf_sortLink (htexts : texts.Canonical) (hstatus : r.statusFilter = 0)
    (column : SortColumn) (ascending : Bool) :
    listRequestOf ((r.sortLink texts column ascending ++ " HTTP/1.1".toList).map cutChar) =
      ⟨r.srcFilter, r.dstFilter, 0, if r.dstPort ≠ 0 then r.dstPort else r.srcPort, 0,
        column.number, ascending⟩ := by
  have hzero : (if r.srcPort ≠ 0 then r.srcPort else 0) = r.srcPort := by
    split
    · rfl
    · rename_i hport
      exact (not_not.mp hport).symm
  have hsrcIp := foldl_addressWord htexts (fun d ip => { d with srcFilter := ip })
    listParamOf_srcIp r.srcFilter (d := ⟨ipnone, ipnone, 0, 0, 0, 1, true⟩) rfl
  have hsrcPort := foldl_portWord htexts r.srcPort ⟨r.srcFilter, ipnone, 0, 0, 0, 1, true⟩
  have hdstIp := foldl_addressWord htexts (fun d ip => { d with dstFilter := ip })
    listParamOf_dstIp r.dstFilter (d := ⟨r.srcFilter, ipnone, 0, r.srcPort, 0, 1, true⟩) rfl
  have hdstPort := foldl_portWord htexts r.dstPort
    ⟨r.srcFilter, r.dstFilter, 0, r.srcPort, 0, 1, true⟩
  dsimp only at hsrcIp hsrcPort hdstIp hdstPort
  rw [hzero] at hsrcPort
  rw [cut_sortLink htexts hstatus, listRequestOf_words (by decide)
    (not_mem_nul_linkWords htexts column ascending)]
  unfold ListRequest.linkWords ListRequest.filterWords
  rw [List.foldl_append, List.foldl_append, List.foldl_append, List.foldl_append, hsrcIp,
    hsrcPort, hdstIp, hdstPort, List.foldl_cons, listParamOf_sortBy, sortByOf_text]
  cases ascending <;> rfl

theorem pageCallsOf_list {s : List Char} {ws : List (List Char)} {w : List Char}
    (hs : s = webPageList.toList ++ behindNuls (w :: ws)) :
    pageCallsOf s = [.list (listRequestOf s)] := by
  have hpage : ∀ other : String, '\x00' ∉ other.toList →
      isText s other = isText webPageList.toList other := by
    intro other hother
    rw [hs, isText_page hother]
  unfold pageCallsOf
  rw [hpage _ (by decide), hpage _ (by decide), hpage _ (by decide), hpage _ (by decide),
    hpage _ (by decide)]
  rfl

theorem getLine_sortLink (htexts : texts.Canonical) (hstatus : r.statusFilter = 0)
    (column : SortColumn) (ascending redirection : Bool) :
    getLine (requestLine (r.sortLink texts column ascending)) redirection =
      .ok ([.list ⟨r.srcFilter, r.dstFilter, 0,
        if r.dstPort ≠ 0 then r.dstPort else r.srcPort, 0, column.number, ascending⟩], false) := by
  obtain ⟨w, ws, hwords⟩ : ∃ w ws, r.linkWords texts column ascending = w :: ws :=
    List.exists_cons_of_ne_nil (by simp [ListRequest.linkWords])
  have hcut := cut_sortLink htexts hstatus column ascending
  rw [hwords] at hcut
  rw [getLine_requestLine, pageCallsOf_list hcut, listRequestOf_sortLink htexts hstatus,
    answer_singleton]

/-- A sort link keeps the filters just if no source port is set. -/
theorem sortLink_keeps_iff (htexts : texts.Canonical) (hstatus : r.statusFilter = 0)
    (column : SortColumn) (ascending redirection : Bool) :
    getLine (requestLine (r.sortLink texts column ascending)) redirection =
        .ok ([.list { r with sortBy := column.number, ascending := ascending }], false) ↔
      r.srcPort = 0 := by
  rw [getLine_sortLink htexts hstatus]
  simp only [Except.ok.injEq, Prod.mk.injEq, List.cons.injEq, PageCall.list.injEq,
    ListRequest.mk.injEq, and_true, true_and, hstatus]
  constructor
  · rintro ⟨hport, -⟩
    exact hport.symm
  · intro hport
    refine ⟨hport.symm, ?_⟩
    split
    · rfl
    · rename_i hdst
      rw [hport, not_not.mp hdst]

/-- A table of one destination. -/
theorem sortLink_keeps_iff_destination :
    getLine (requestLine (ListRequest.sortLink canonicalTexts
        ⟨ipnone, ⟨10, 0, 0, 1⟩, 0, 80, 0, 1, true⟩ .duration false)) true =
        .ok ([.list ⟨ipnone, ⟨10, 0, 0, 1⟩, 0, 80, 0, 4, false⟩], false) ↔ (0 : UInt16) = 0 :=
  sortLink_keeps_iff (r := ⟨ipnone, ⟨10, 0, 0, 1⟩, 0, 80, 0, 1, true⟩) canonicalTexts_canonical rfl
    .duration false true

/-- The table of a source port leads to that of a destination port. -/
theorem source_port_lost :
    let link :=
      ListRequest.sortLink canonicalTexts ⟨ipnone, ipnone, 5000, 0, 0, 1, true⟩ .source true
    getLine (requestLine link) true = .ok ([.list ⟨ipnone, ipnone, 0, 5000, 0, 1, true⟩], false) ∧
      getLine (requestLine link) true ≠
        .ok ([.list ⟨ipnone, ipnone, 5000, 0, 0, 1, true⟩], false) := by
  decide +kernel

end Relb
