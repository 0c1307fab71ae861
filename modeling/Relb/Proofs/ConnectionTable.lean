import Mathlib.Data.Prod.Lex
import Relb.Lib.Insertion
import Relb.Model.AdminPages
/-!
# The table of connections

The rows of a page are the connections that all filters let through, each inserted at the place
that the key asks for. In either direction the test of a key agrees with one order, and the test of
the descending direction is the opposite of the other one, so that the descending table is the
ascending one read backwards.
-/

namespace Relb

open Lib

variable {r : ListRequest} {row other : PeerRow} {ip ip' : IpAddress} {j : Nat}

/-! ## Addresses as numbers -/

def IpAddress.toNat (ip : IpAddress) : Nat :=
  ((ip.data0.toNat * 256 + ip.data1.toNat) * 256 + ip.data2.toNat) * 256 + ip.data3.toNat

theorem IpAddress.toNat_inj : ip.toNat = ip'.toNat ↔ ip = ip' := by
  constructor
  · intro h
    have h0 := ip.data0.toNat_lt
    have h1 := ip.data1.toNat_lt
    have h2 := ip.data2.toNat_lt
    have h3 := ip.data3.toNat_lt
    have h0' := ip'.data0.toNat_lt
    have h1' := ip'.data1.toNat_lt
    have h2' := ip'.data2.toNat_lt
    have h3' := ip'.data3.toNat_lt
    unfold IpAddress.toNat at h
    cases ip
    cases ip'
    simp only [IpAddress.mk.injEq, ← UInt8.toNat_inj] at *
    omega
  · rintro rfl
    rfl

theorem lessFrom_cons {a b : UInt8} {lt gt : List UInt8} :
    lessFrom (a :: lt) (b :: gt) = true ↔
      a.toNat < b.toNat ∨ a.toNat = b.toNat ∧ lessFrom lt gt = true := by
  rw [lessFrom]
  split
  · rename_i hgt
    have hlt : b.toNat < a.toNat := UInt8.lt_iff_toNat_lt.mp hgt
    simp only [Bool.false_eq_true, false_iff]
    omega
  · rename_i hle
    split
    · rename_i hlt
      exact iff_of_true rfl (.inl (UInt8.lt_iff_toNat_lt.mp hlt))
    · rename_i hge
      have hgt' : ¬b.toNat < a.toNat := fun h => hle (UInt8.lt_iff_toNat_lt.mpr h)
      have hlt' : ¬a.toNat < b.toNat := fun h => hge (UInt8.lt_iff_toNat_lt.mpr h)
      have hsame : a.toNat = b.toNat := by omega
      simp [hsame]

theorem ipLessThan_iff : ipLessThan ip ip' = true ↔ ip.toNat < ip'.toNat := by
  have h1 := ip.data1.toNat_lt
  have h2 := ip.data2.toNat_lt
  have h3 := ip.data3.toNat_lt
  have h1' := ip'.data1.toNat_lt
  have h2' := ip'.data2.toNat_lt
  have h3' := ip'.data3.toNat_lt
  unfold ipLessThan IpAddress.data IpAddress.toNat
  rw [lessFrom_cons, lessFrom_cons, lessFrom_cons, lessFrom_cons]
  simp only [lessFrom, Bool.false_eq_true, and_false, or_false]
  omega

/-! ## Keys -/

/-- The order of a key. The durations ascend when the times of the last change descend. -/
def SortedBy (sortBy : Int) (row other : PeerRow) : Prop :=
  if sortBy = sortBySrcIp then
    row.srcIp.toNat < other.srcIp.toNat ∨
      row.srcIp.toNat = other.srcIp.toNat ∧ row.srcPort ≤ other.srcPort
  else if sortBy = sortByDstIp then
    row.dstIp.toNat < other.dstIp.toNat ∨
      row.dstIp.toNat = other.dstIp.toNat ∧ row.dstPort ≤ other.dstPort
  else if sortBy = sortByStatus then row.status ≤ other.status
  else if sortBy = sortByModified then other.modified ≤ row.modified
  else row.created ≤ other.created

def endpointKey (ip : IpAddress) (port : UInt16) : ℕ ×ₗ ℕ := toLex (ip.toNat, port.toNat)

section Endpoint

variable {port port' : UInt16}

theorem endpointTest_iff :
    (if ipLessThan ip ip' then true else ip == ip' && decide (port < port')) = true ↔
      endpointKey ip port < endpointKey ip' port' := by
  rw [endpointKey, endpointKey, Prod.Lex.toLex_lt_toLex, ← ipLessThan_iff, IpAddress.toNat_inj,
    ← UInt16.lt_iff_toNat_lt]
  split
  · rename_i hless
    simp [hless]
  · rename_i hless
    simp [hless]

theorem endpointOrder_iff :
    (ip.toNat < ip'.toNat ∨ ip.toNat = ip'.toNat ∧ port ≤ port') ↔
      endpointKey ip port ≤ endpointKey ip' port' := by
  rw [endpointKey, endpointKey, Prod.Lex.toLex_le_toLex, UInt16.le_iff_toNat_le]

theorem endpointTest_not :
    (if !ipLessThan ip ip' && !(ip == ip') then true
      else ip == ip' && decide (port ≥ port')) =
    !if ipLessThan ip ip' then true else ip == ip' && decide (port < port') := by
  have hless : ipLessThan ip ip' = true → (ip == ip') = false := by
    intro h
    rw [beq_eq_false_iff_ne]
    rintro rfl
    exact Nat.lt_irrefl _ (ipLessThan_iff.mp h)
  have hport : decide (port ≥ port') = !decide (port < port') := by
    simp only [ge_iff_le, ← UInt16.not_lt, decide_not]
  rw [hport]
  cases hlt : ipLessThan ip ip' with
  | true => simp [hless hlt]
  | false => cases hsame : ip == ip' <;> simp

end Endpoint

namespace ListRequest

theorem sortBy_cases (hkey : 1 ≤ r.sortBy ∧ r.sortBy ≤ 5) :
    r.sortBy = 1 ∨ r.sortBy = 2 ∨ r.sortBy = 3 ∨ r.sortBy = 4 ∨ r.sortBy = 5 := by
  omega

/-! ### The test of each key -/

theorem insertHere_srcIp (hkey : r.sortBy = sortBySrcIp) : r.insertHere row other =
    if r.ascending then
      if ipLessThan row.srcIp other.srcIp then true
      else row.srcIp == other.srcIp && decide (row.srcPort < other.srcPort)
    else if !ipLessThan row.srcIp other.srcIp && !(row.srcIp == other.srcIp) then true
      else row.srcIp == other.srcIp && decide (row.srcPort ≥ other.srcPort) := by
  rw [insertHere, hkey]
  rfl

theorem insertHere_dstIp (hkey : r.sortBy = sortByDstIp) : r.insertHere row other =
    if r.ascending then
      if ipLessThan row.dstIp other.dstIp then true
      else row.dstIp == other.dstIp && decide (row.dstPort < other.dstPort)
    else if !ipLessThan row.dstIp other.dstIp && !(row.dstIp == other.dstIp) then true
      else row.dstIp == other.dstIp && decide (row.dstPort ≥ other.dstPort) := by
  rw [insertHere, hkey]
  rfl

theorem insertHere_status (hkey : r.sortBy = sortByStatus) : r.insertHere row other =
    if r.ascending then decide (row.status < other.status)
    else decide (row.status ≥ other.status) := by
  rw [insertHere, hkey]
  rfl

theorem insertHere_modified (hkey : r.sortBy = sortByModified) : r.insertHere row other =
    if r.ascending then decide (row.modified ≥ other.modified)
    else decide (row.modified < other.modified) := by
  rw [insertHere, hkey]
  rfl

theorem insertHere_created (hkey : r.sortBy = sortByCreation) : r.insertHere row other =
    if r.ascending then decide (row.created < other.created)
    else decide (row.created ≥ other.created) := by
  rw [insertHere, hkey]
  rfl

/-- The ascending test of a key agrees with its order. -/
theorem places_insertHere (hasc : r.ascending = true) (hkey : 1 ≤ r.sortBy ∧ r.sortBy ≤ 5) :
    Places (fun row other => r.insertHere row other = true) (SortedBy r.sortBy) := by
  rcases sortBy_cases hkey with hkey | hkey | hkey | hkey | hkey
  · apply (places_lt fun row : PeerRow => endpointKey row.srcIp row.srcPort).congr
    · intro row other
      rw [insertHere_srcIp hkey, if_pos hasc]
      exact endpointTest_iff
    · intro row other
      rw [hkey]
      exact endpointOrder_iff
  · apply (places_lt fun row : PeerRow => endpointKey row.dstIp row.dstPort).congr
    · intro row other
      rw [insertHere_dstIp hkey, if_pos hasc]
      exact endpointTest_iff
    · intro row other
      rw [hkey]
      exact endpointOrder_iff
  · apply (places_lt fun row : PeerRow => row.status.toNat).congr
    · intro row other
      rw [insertHere_status hkey, if_pos hasc, decide_eq_true_iff]
      exact UInt8.lt_iff_toNat_lt
    · intro row other
      rw [hkey]
      exact UInt8.le_iff_toNat_le
  · apply (places_le fun row : PeerRow => OrderDual.toDual row.modified).congr
    · intro row other
      rw [insertHere_modified hkey, if_pos hasc, decide_eq_true_iff]
      rfl
    · intro row other
      rw [hkey]
      rfl
  · apply (places_lt PeerRow.created).congr
    · intro row other
      rw [insertHere_created hkey, if_pos hasc, decide_eq_true_iff]
    · intro row other
      rw [hkey]
      rfl

theorem insertHere_not {d : ListRequest} (hasc : r.ascending = true) (hdesc : d.ascending = false)
    (hkey : 1 ≤ r.sortBy ∧ r.sortBy ≤ 5) (hsame : d.sortBy = r.sortBy) :
    d.insertHere row other = !r.insertHere row other := by
  have hnot : ¬d.ascending = true := by simp [hdesc]
  rcases sortBy_cases hkey with hkey | hkey | hkey | hkey | hkey
  · rw [insertHere_srcIp hkey, insertHere_srcIp (hsame.trans hkey), if_pos hasc, if_neg hnot]
    exact endpointTest_not
  · rw [insertHere_dstIp hkey, insertHere_dstIp (hsame.trans hkey), if_pos hasc, if_neg hnot]
    exact endpointTest_not
  · rw [insertHere_status hkey, insertHere_status (hsame.trans hkey), if_pos hasc, if_neg hnot,
      ← decide_not]
    simp
  · rw [insertHere_modified hkey, insertHere_modified (hsame.trans hkey), if_pos hasc, if_neg hnot,
      ← decide_not]
    simp
  · rw [insertHere_created hkey, insertHere_created (hsame.trans hkey), if_pos hasc, if_neg hnot,
      ← decide_not]
    simp

/-! ## Insertion -/

theorem searchFrom_eq (here : PeerRow → Bool) (l : List PeerRow) (j : Nat) :
    searchFrom here l j =
      match l.findIdx? here with
      | some k => (j + k + 1, true)
      | none => (j + l.length, false) := by
  induction l generalizing j with
  | nil => rfl
  | cons other rest ih =>
      rw [searchFrom, List.findIdx?_cons]
      split
      · rfl
      · rw [ih]
        cases rest.findIdx? here with
        | none =>
            simp
            omega
        | some k =>
            simp
            omega

theorem insertRow_eq (pList : List PeerRow) (row : PeerRow) :
    r.insertRow pList row = pList.orderedInsert (fun a b => r.insertHere a b = true) row := by
  unfold insertRow
  rw [searchFrom_eq]
  induction pList with
  | nil => rfl
  | cons other rest ih =>
      rw [List.findIdx?_cons, List.orderedInsert_cons]
      by_cases hhere : r.insertHere row other = true
      · rw [if_pos hhere, if_pos hhere]
        rfl
      · rw [if_neg hhere, if_neg hhere, ← ih]
        cases rest.findIdx? (r.insertHere row) with
        | none => rfl
        | some k => rfl

/-! ## The table -/

/-- The entry meets every filter that is set. -/
structure Selects (r : ListRequest) (q : PeerInfo) : Prop where
  srcIp : r.srcFilter ≠ ipnone → q.srcIp = r.srcFilter
  srcPort : r.srcPort ≠ 0 → q.srcPort = r.srcPort
  dstIp : r.dstFilter ≠ ipnone → q.dstIp = r.dstFilter
  dstPort : r.dstPort ≠ 0 → q.dstPort = r.dstPort
  status : r.statusFilter ≠ 0 → q.status.toUInt32 &&& UInt32.ofInt r.statusFilter ≠ 0

theorem filterOk_iff (r : ListRequest) (q : PeerInfo) : r.filterOk q = true ↔ r.Selects q := by
  unfold filterOk statusHas
  simp only [Bool.and_eq_true, Bool.not_eq_true', Bool.and_eq_false_iff, decide_eq_false_iff_not,
    not_not, Bool.not_eq_false', decide_eq_true_iff, or_iff_not_imp_left]
  constructor
  · rintro ⟨⟨⟨⟨hsrcIp, hsrcPort⟩, hdstIp⟩, hdstPort⟩, hstatus⟩
    exact ⟨hsrcIp, hsrcPort, hdstIp, hdstPort, hstatus⟩
  · rintro ⟨hsrcIp, hsrcPort, hdstIp, hdstPort, hstatus⟩
    exact ⟨⟨⟨⟨hsrcIp, hsrcPort⟩, hdstIp⟩, hdstPort⟩, hstatus⟩

instance (r : ListRequest) : DecidablePred r.Selects := fun q =>
  decidable_of_iff _ (r.filterOk_iff q)

theorem rows_eq (hkey : r.sortBy ≠ 0) (peerList : List PeerInfo) :
    r.rows peerList = insertAll (fun a b => r.insertHere a b = true)
      ((peerList.filter fun q => r.Selects q).map PeerInfo.row) := by
  have hfilter : (fun q => decide (r.Selects q)) = r.filterOk :=
    funext fun q => Bool.eq_iff_iff.mpr (by rw [decide_eq_true_iff, filterOk_iff])
  unfold rows insertAll
  rw [if_pos hkey, hfilter, List.foldl_map, List.foldl_filter]
  simp only [insertRow_eq]

theorem rows_reverse {d : ListRequest} (hasc : r.ascending = true) (hdesc : d.ascending = false)
    (hkey : 1 ≤ r.sortBy ∧ r.sortBy ≤ 5) (hsame : d.sortBy = r.sortBy)
    (hselects : d.Selects = r.Selects) (peerList : List PeerInfo) :
    d.rows peerList = (r.rows peerList).reverse := by
  have hopposite : (fun a b => d.insertHere a b = true) = fun a b => ¬r.insertHere a b = true := by
    funext a b
    rw [insertHere_not hasc hdesc hkey hsame, Bool.not_eq_true', Bool.not_eq_true]
  rw [rows_eq (by omega), rows_eq (by omega), (places_insertHere hasc hkey).reverse_insertAll]
  simp only [hselects, hopposite]

end ListRequest

/-- The table has the connections that meet all filters, sorted by the key, and the descending table
is the ascending one read backwards. -/
theorem AdminHTTPServer.list_sorted (a : AdminHTTPServer) (heap : Ptr → Option PeerInfo)
    (hkey : 1 ≤ r.sortBy ∧ r.sortBy ≤ 5) :
    (a.list heap r).Perm
        (((a.peerList.filterMap heap).filter fun q => r.Selects q).map PeerInfo.row) ∧
      (a.list heap { r with ascending := true }).Pairwise (SortedBy r.sortBy) ∧
      a.list heap { r with ascending := false } =
        (a.list heap { r with ascending := true }).reverse := by
  refine ⟨?_, ?_, ?_⟩
  · unfold list
    rw [ListRequest.rows_eq (by omega)]
    exact perm_insertAll _ _
  · unfold list
    rw [ListRequest.rows_eq (r := { r with ascending := true }) (by simp; omega)]
    exact (ListRequest.places_insertHere (r := { r with ascending := true }) rfl
      hkey).pairwise_insertAll _
  · exact ListRequest.rows_reverse (r := { r with ascending := true })
      (d := { r with ascending := false }) rfl rfl hkey rfl
      (funext fun q => propext ⟨fun h => ⟨h.1, h.2, h.3, h.4, h.5⟩,
        fun h => ⟨h.1, h.2, h.3, h.4, h.5⟩⟩) _

namespace AdminHTTPServer.Sample

/-- A connection from the port `n` of one client, last changed at `modified`. -/
def connection (n : Ptr) (modified : Datetime) : PeerInfo :=
  ⟨n, ⟨10, 0, 0, 7⟩, .ofNat n, ⟨192, 168, 0, 1⟩, 80, statusConnectionEstablished.toUInt8,
    some (n + 100), none, 0, modified⟩

/-- Three connections, two of which have changed at the same time. -/
def heap (p : Ptr) : Option PeerInfo :=
  if p = 1 then some (connection 1 50) else if p = 2 then some (connection 2 70)
  else if p = 3 then some (connection 3 50) else none

def admin : AdminHTTPServer := ⟨[], [1, 2, 3], 0⟩

def byDuration : ListRequest := ⟨ipnone, ipnone, 0, 0, 0, sortByModified, true⟩

end AdminHTTPServer.Sample

open AdminHTTPServer.Sample in
theorem AdminHTTPServer.list_sorted_three :
    (admin.list heap byDuration).Perm
        (((admin.peerList.filterMap heap).filter fun q => byDuration.Selects q).map
          PeerInfo.row) ∧
      (admin.list heap { byDuration with ascending := true }).Pairwise
        (SortedBy byDuration.sortBy) ∧
      admin.list heap { byDuration with ascending := false } =
        (admin.list heap { byDuration with ascending := true }).reverse :=
  admin.list_sorted heap (by decide)

end Relb
