import Relb.Proofs.Failover
import Relb.Proofs.Rounding
/-!
# Clients that come in one behind the other

A connection is counted with `connecting` until its manager says that it is established. The
selection looks at `connecting` for the server that it starts from only, so while clients come in
faster than messages are processed, all other servers look to it as they did before. Two
consequences: a server that is in front of the others gets all of the clients, however many they
are, and servers that have just been started are not used evenly.
-/

namespace Relb

open Lib

/-- A new client, with all that the call reads from outside. -/
structure Arrival where
  clientIp : IpAddress
  clientPort : UInt16
  pcm : Option ManagerId
  now : Datetime
  addr : Ptr
  parallelAddr : Ptr

/-- `n` connections more are on their way. -/
def ServerInfo.pend (srv : ServerInfo) (n : Nat) : ServerInfo :=
  { srv with connecting := srv.connecting + n }

/-- A server with the weight `w` that no connection has been counted for. -/
structure ServerInfo.Unused (w : Int) (srv : ServerInfo) : Prop where
  weight : srv.weight = w
  disconnected : srv.disconnected = 0
  finished : srv.finished = 0
  connected : srv.connected = 0
  connecting : srv.connecting = 0
  maxConnections : 0 ≤ srv.maxConnections
  lastConnectionFailed : srv.lastConnectionFailed = false

namespace ServerList

def assign (s : ServerList) (c : Arrival) : ServerList × Option PeerInfo :=
  s.getServer c.clientIp c.clientPort c.pcm c.now c.addr c.parallelAddr

/-- The clients have come in, with no message in between. -/
def assignAll (s : ServerList) (cs : List Arrival) : ServerList :=
  cs.foldl (fun s c => (s.assign c).1) s

variable {s t : ServerList} {cs : List Arrival} {c : Arrival} {clientIp : IpAddress}
  {now : Datetime} {srv x : ServerInfo} {place : Nat → Nat} {added : Nat → Nat} {i k n p h : Nat}

/-! ## What a burst leaves alone -/

/-- The lists differ in connections on their way, and in what the selection does not look at. -/
structure Grown (s t : ServerList) (added : Nat → Nat) : Prop where
  servers : ∀ i : Nat, t.serversList[i]? = s.serversList[i]?.map (·.pend (added i))
  filterList : t.filterList = s.filterList
  retry : t.serverRetryMilliseconds = s.serverRetryMilliseconds
  finishedWeight : t.finishedWeight = s.finishedWeight
  disconnectedWeight : t.disconnectedWeight = s.disconnectedWeight

theorem settings_addPeer (s : ServerList) (q : PeerInfo) (a : Ptr) :
    (s.addPeer q a).serverRetryMilliseconds = s.serverRetryMilliseconds ∧
      (s.addPeer q a).finishedWeight = s.finishedWeight ∧
        (s.addPeer q a).disconnectedWeight = s.disconnectedWeight := by
  unfold addPeer postParallel
  dsimp only
  split <;> exact ⟨rfl, rfl, rfl⟩

namespace Grown

theorem refl (s : ServerList) : s.Grown s fun _ => 0 where
  servers i := by
    cases s.serversList[i]? with
    | none => rfl
    | some srv => simp [ServerInfo.pend]
  filterList := rfl
  retry := rfl
  finishedWeight := rfl
  disconnectedWeight := rfl

theorem length_eq (hg : s.Grown t added) : t.serversList.length = s.serversList.length := by
  apply Nat.le_antisymm
  · rw [← List.getElem?_eq_none_iff, hg.servers, List.getElem?_eq_none le_rfl]
    rfl
  · have hnone := hg.servers t.serversList.length
    rw [List.getElem?_eq_none le_rfl] at hnone
    exact List.getElem?_eq_none_iff.mp (Option.map_eq_none_iff.mp hnone.symm)

theorem afterAssignment (hg : s.Grown t added) (i : Nat) (q : PeerInfo) (parallelAddr : Ptr) :
    s.Grown (t.afterAssignment i q parallelAddr) fun j => added j + if i = j then 1 else 0 where
  servers j := by
    rw [serversList_afterAssignment, List.getElem?_modify, hg.servers]
    cases s.serversList[j]? with
    | none => rfl
    | some srv =>
        split_ifs
        · simp [ServerInfo.pend, ServerInfo.startConnecting, Int.add_assoc]
        · rfl
  filterList := by
    rw [← hg.filterList]
    simp [ServerList.afterAssignment, modifyServer]
  retry := (settings_addPeer _ q parallelAddr).1.trans hg.retry
  finishedWeight := (settings_addPeer _ q parallelAddr).2.1.trans hg.finishedWeight
  disconnectedWeight := (settings_addPeer _ q parallelAddr).2.2.trans hg.disconnectedWeight

theorem allowed (hg : s.Grown t added) (server client : IpAddress) :
    t.isServerAllowed server client = s.isServerAllowed server client := by
  rw [isServerAllowed, hg.filterList]
  rfl

theorem inspectedLoad_pend (hg : s.Grown t added) (srv : ServerInfo) (k : Nat) :
    t.inspectedLoad (srv.pend k) = s.inspectedLoad srv := by
  rw [inspectedLoad, inspectedLoad, hg.finishedWeight, hg.disconnectedWeight]
  rfl

theorem notAvailable_pend (hg : s.Grown t added) (srv : ServerInfo) (k : Nat) (now : Datetime) :
    (srv.pend k).notAvailable t.serverRetryMilliseconds now =
      srv.notAvailable s.serverRetryMilliseconds now := by
  rw [hg.retry]
  rfl

theorem bid_inspected (hg : s.Grown t added) (clientIp : IpAddress) (now : Datetime) (i : Nat) :
    t.bid clientIp now t.inspectedLoad i = s.bid clientIp now s.inspectedLoad i := by
  rw [bid, bid, hg.servers]
  cases s.serversList[i]? with
  | none => rfl
  | some srv =>
      have hallowed := hg.allowed srv.ip clientIp
      simp only [Option.map_some, Option.bind_some, hg.inspectedLoad_pend, hg.notAvailable_pend]
      change (if t.isServerAllowed srv.ip clientIp = true then _ else _) = _
      rw [hallowed]
      rfl

end Grown

/-! ## One client behind the other -/

/-- How many of the first `k` clients go to the server in place `i`, if each goes to its place. -/
def gets (place : Nat → Nat) (k i : Nat) : Nat := (List.range k).countP (place · = i)

theorem gets_succ (place : Nat → Nat) (k i : Nat) :
    gets place (k + 1) i = gets place k i + if place k = i then 1 else 0 := by
  rw [gets, List.range_succ, List.countP_append, List.countP_singleton]
  simp [gets]

/-- The first `k` clients have come in, and each has gone to its place. -/
structure Standing (s : ServerList) (cs : List Arrival) (place : Nat → Nat) (k : Nat)
    (t : ServerList) : Prop where
  grown : s.Grown t (gets place k)
  starts : t.startPlace = if k = 0 then s.startPlace else s.nextIndex (place (k - 1))
  entries : ∀ q ∈ t.peerList, q ∈ s.peerList ∨ q.srcIp ∈ (cs.take k).map Arrival.clientIp

theorem nextIndex_congr (h : t.serversList.length = s.serversList.length) (i : Nat) :
    t.nextIndex i = s.nextIndex i := by
  rw [nextIndex, nextIndex, h]

theorem assignAll_take_succ (hc : cs[k]? = some c) (s : ServerList) :
    s.assignAll (cs.take (k + 1)) = ((s.assignAll (cs.take k)).assign c).1 := by
  rw [assignAll, List.take_add_one, hc, List.foldl_append]
  rfl

theorem Standing.noEntry (ht : s.Standing cs place k t) (hc : cs[k]? = some c)
    (hnew : s.NoEntry c.clientIp) (hdistinct : (cs.map Arrival.clientIp).Nodup) :
    t.NoEntry c.clientIp := by
  intro q hq heq
  rcases ht.entries q hq with hold | hearlier
  · exact hnew q hold heq
  · rw [heq, List.map_take] at hearlier
    obtain ⟨j, hj, hsame⟩ := List.mem_take_iff_getElem.mp hearlier
    have hk : (cs.map Arrival.clientIp)[k]? = some c.clientIp := by
      rw [List.getElem?_map, hc]
      rfl
    obtain ⟨hlt, hget⟩ := List.getElem?_eq_some_iff.mp hk
    have heq := hdistinct.getElem_inj_iff.mp (hsame.trans hget.symm)
    omega

/-- The next client goes to the place that the selection chooses. -/
theorem Standing.next (ht : s.Standing cs place k t) (hc : cs[k]? = some c)
    (hservers : s.serversList ≠ []) (hnew : s.NoEntry c.clientIp)
    (hdistinct : (cs.map Arrival.clientIp).Nodup)
    (hchosen : ∃ b, (t.selection c.clientIp c.now).chosen = some b ∧ b.server = place k) :
    s.Standing cs place (k + 1) (t.assign c).1 ∧
      ∃ srv, t.AssignedTo (t.assign c) (place k) srv := by
  obtain ⟨b, hb, hplace⟩ := hchosen
  have hservers' : t.serversList ≠ [] := by
    rw [← List.length_pos_iff, ht.grown.length_eq]
    exact List.length_pos_iff.mpr hservers
  rcases assignServer_of_selection hservers' c.clientIp c.clientPort c.pcm c.now c.addr
    c.parallelAddr with ⟨hnone, -⟩ | ⟨b', srv, hb', hsrv, hassigned⟩
  · rw [hb] at hnone
    cases hnone
  · obtain rfl := Option.some.inj (hb.symm.trans hb')
    rw [← getServer_of_noEntry hservers' (ht.noEntry hc hnew hdistinct)] at hassigned
    change t.assign c = _ at hassigned
    have hto : t.AssignedTo (t.assign c) b.server srv := by
      rw [hassigned]
      exact assignedTo_afterAssignment hsrv
    rw [hplace] at hto hassigned
    refine ⟨⟨?_, ?_, fun q hq => ?_⟩, srv, hto⟩
    · rw [hassigned]
      have hgrown := ht.grown.afterAssignment (place k)
        (newPeer c.clientIp c.clientPort srv.ip srv.port c.pcm c.now c.addr) c.parallelAddr
      simp only [← gets_succ] at hgrown
      exact hgrown
    · have hlength : (t.assign c).1.serversList.length = s.serversList.length := by
        rw [hto.counted, List.length_modify, ht.grown.length_eq]
      rw [startPlace, hto.last, nextIndex_congr hlength, if_neg (Nat.succ_ne_zero k),
        Nat.add_sub_cancel]
    · rw [hassigned, peerList_afterAssignment, List.mem_append, List.mem_singleton] at hq
      rw [List.take_add_one, hc, List.map_append, List.mem_append]
      rcases hq with hq | rfl
      · exact (ht.entries q hq).imp_right .inl
      · have hroute := route_withParallel t (newPeer c.clientIp c.clientPort srv.ip srv.port
          c.pcm c.now c.addr) c.parallelAddr
        exact .inr (.inr (List.mem_singleton.mpr (congrArg Prod.fst hroute)))

theorem standing_assignAll (hservers : s.serversList ≠ [])
    (hnew : ∀ c ∈ cs, s.NoEntry c.clientIp) (hdistinct : (cs.map Arrival.clientIp).Nodup)
    (hchosen : ∀ k c t, cs[k]? = some c → s.Standing cs place k t →
      ∃ b, (t.selection c.clientIp c.now).chosen = some b ∧ b.server = place k)
    (hk : k ≤ cs.length) : s.Standing cs place k (s.assignAll (cs.take k)) := by
  induction k with
  | zero => exact ⟨.refl s, rfl, fun q hq => .inl hq⟩
  | succ k ih =>
      have hc : cs[k]? = some cs[k] := List.getElem?_eq_getElem hk
      have hstanding := ih (Nat.le_of_succ_le hk)
      rw [assignAll_take_succ hc]
      exact (hstanding.next hc hservers (hnew _ (List.getElem_mem _)) hdistinct
        (hchosen k _ _ hc hstanding)).1

/-- The client in place `k` of a burst has been sent to the server `srv`. -/
def SentTo (s : ServerList) (cs : List Arrival) (k : Nat) (srv : ServerInfo) : Prop :=
  ∃ c q, cs[k]? = some c ∧ ((s.assignAll (cs.take k)).assign c).2 = some q ∧
    (q.dstIp, q.dstPort) = srv.address

theorem sentTo_assignAll (hservers : s.serversList ≠ [])
    (hnew : ∀ c ∈ cs, s.NoEntry c.clientIp) (hdistinct : (cs.map Arrival.clientIp).Nodup)
    (hchosen : ∀ k c t, cs[k]? = some c → s.Standing cs place k t →
      ∃ b, (t.selection c.clientIp c.now).chosen = some b ∧ b.server = place k)
    (hk : k < cs.length) :
    ∃ srv, s.serversList[place k]? = some srv ∧ s.SentTo cs k srv := by
  have hc : cs[k]? = some cs[k] := List.getElem?_eq_getElem hk
  have hstanding := standing_assignAll hservers hnew hdistinct hchosen hk.le
  obtain ⟨-, srv, hto⟩ := hstanding.next hc hservers (hnew _ (List.getElem_mem _)) hdistinct
    (hchosen k _ _ hc hstanding)
  have hfound := hto.found
  rw [hstanding.grown.servers, Option.map_eq_some_iff] at hfound
  obtain ⟨old, hold, rfl⟩ := hfound
  obtain ⟨q, hq, haddress⟩ := hto.returned
  exact ⟨old, hold, _, q, hc, hq, haddress⟩

/-! ## A server in front of the others -/

theorem gets_const (h k i : Nat) : gets (fun _ => h) k i = if h = i then k else 0 := by
  induction k with
  | zero => simp [gets]
  | succ k ih =>
      rw [gets_succ, ih]
      split_ifs <;> rfl

theorem Grown.defaultLoad_pend (hg : s.Grown t added) (srv : ServerInfo) :
    t.defaultLoad (srv.pend 0) = s.defaultLoad srv := by
  rw [defaultLoad, defaultLoad, hg.finishedWeight, hg.disconnectedWeight]
  simp only [ServerInfo.pend, Nat.cast_zero, add_zero]

/-- As the selection compares them, `srv` is in front of a server `x` with this load. -/
def InFront (s : ServerList) (srv x : ServerInfo) (load : Rat) : Prop :=
  if s.inspectedLoad srv = 0 ∧ load = 0 then srv.weight > x.weight else s.inspectedLoad srv < load

instance (s : ServerList) (srv x : ServerInfo) (load : Rat) : Decidable (s.InFront srv x load) :=
  inferInstanceAs (Decidable (if s.inspectedLoad srv = 0 ∧ load = 0 then srv.weight > x.weight
    else s.inspectedLoad srv < load))

/-- Whatever is on its way to the server in place `h`, the next client goes there. -/
theorem chosen_inFront (hg : s.Grown t (gets (fun _ => h) k))
    (hfound : s.serversList[h]? = some srv) (hstart : t.startPlace ≠ h)
    (hfront : ∀ i x, s.serversList[i]? = some x → i ≠ h →
      s.InFront srv x (s.defaultLoad x) ∧ s.InFront srv x (s.inspectedLoad x))
    (hallowed : s.isServerAllowed srv.ip clientIp = true)
    (havailable : srv.notAvailable s.serverRetryMilliseconds now = false) :
    ∃ b, (t.selection clientIp now).chosen = some b ∧ b.server = h := by
  have hlt : h < t.serversList.length := by
    rw [hg.length_eq]
    exact (List.getElem?_eq_some_iff.mp hfound).1
  have hmem : h ∈ scanOrder t.serversList.length t.startPlace := by
    rw [mem_scanOrder]
    omega
  obtain ⟨l₁, l₂, hsplit, hnot⟩ := List.eq_append_cons_of_mem hmem
  have hbid : s.bid clientIp now s.inspectedLoad h =
      some ⟨h, srv.weight, s.inspectedLoad srv, true⟩ := by
    refine bid_eq_some_iff.mpr ⟨srv, hfound, hallowed, ?_⟩
    rw [havailable]
    rfl
  have hinspected : t.bid clientIp now t.inspectedLoad = s.bid clientIp now s.inspectedLoad :=
    funext (hg.bid_inspected clientIp now)
  refine ⟨⟨h, srv.weight, s.inspectedLoad srv, true⟩, ?_, rfl⟩
  rw [selection, rivals, hinspected, hsplit, List.filterMap_append, List.filterMap_cons_some hbid]
  apply Choice.chosen_scan_lowest rfl
  · intro a ha
    rw [List.mem_append, Option.mem_toList] at ha
    rw [Bid.rank_lt_iff]
    rcases ha with ha | ha
    · obtain ⟨x, hx, -, rfl⟩ := bid_eq_some_iff.mp ha
      rw [hg.servers, gets_const, if_neg hstart.symm, Option.map_eq_some_iff] at hx
      obtain ⟨old, hold, rfl⟩ := hx
      have hload := (hfront _ old hold hstart).1
      rw [← hg.defaultLoad_pend] at hload
      exact hload
    · obtain ⟨i, hi, hbidi⟩ := List.mem_filterMap.mp ha
      obtain ⟨x, hx, -, rfl⟩ := bid_eq_some_iff.mp hbidi
      exact (hfront i x hx fun heq => hnot (heq ▸ hi)).2
  · intro a ha
    obtain ⟨i, -, hbidi⟩ := List.mem_filterMap.mp ha
    obtain ⟨x, hx, -, rfl⟩ := bid_eq_some_iff.mp hbidi
    by_cases heq : i = h
    · subst heq
      obtain rfl := Option.some.inj (hfound.symm.trans hx)
      exact le_rfl
    · apply le_of_lt
      rw [Bid.rank_lt_iff]
      exact (hfront i x hx heq).2

theorem nextIndex_ne (h : 1 < s.serversList.length) (i : Nat) : s.nextIndex i ≠ i := by
  unfold nextIndex
  split_ifs <;> omega

namespace Sample

/-- Nothing is connected, and the second server has the greater weight. -/
def weighted : ServerList :=
  ((create 0).addServer server1 80 1 0 0).addServer server2 80 5 0 0

def clients : List Arrival :=
  [⟨⟨192, 168, 0, 1⟩, 5001, some 1, 10, 100, 200⟩, ⟨⟨192, 168, 0, 2⟩, 5002, some 1, 11, 101, 201⟩,
    ⟨⟨192, 168, 0, 3⟩, 5003, some 1, 12, 102, 202⟩, ⟨⟨192, 168, 0, 4⟩, 5004, some 1, 13, 103, 203⟩]

end Sample

/-- Where the clients of a burst go, if `n` servers have just been started and the first selection
starts from `p`: each server gets one client, and then every second server gets one. -/
def burstPlace (n p k : Nat) : Nat := if k < n then (p + k) % n else (p + 2 * k + 1 - n) % n

theorem mod_of_lt_double (h : i < 2 * n) : i % n = if i < n then i else i - n := by
  split_ifs with hlt
  · exact Nat.mod_eq_of_lt hlt
  · rw [Nat.mod_eq_sub_mod (Nat.le_of_not_lt hlt), Nat.mod_eq_of_lt (by omega)]

theorem burstPlace_eq_iff (hp : p < n) (hk : k < n) (hi : i < n) :
    burstPlace n p k = i ↔ k = (i + (n - p)) % n := by
  rw [burstPlace, if_pos hk, mod_of_lt_double (by omega), mod_of_lt_double (by omega)]
  split_ifs <;> omega

theorem gets_round (hp : p < n) (hk : k ≤ n) (hi : i < n) :
    gets (burstPlace n p) k i = if (i + (n - p)) % n < k then 1 else 0 := by
  induction k with
  | zero => rfl
  | succ k ih =>
      rw [gets_succ, ih (by omega)]
      simp only [burstPlace_eq_iff hp hk hi]
      split_ifs <;> omega

theorem gets_mono (place : Nat → Nat) {j : Nat} (h : j ≤ k) (i : Nat) :
    gets place j i ≤ gets place k i := by
  induction h with
  | refl => exact le_rfl
  | step _ ih => exact ih.trans (gets_succ place _ i ▸ Nat.le_add_right _ _)

theorem burstPlace_ne (heven : 2 ∣ n) (hk : n ≤ k) (j : Nat) :
    burstPlace n p k ≠ (p + 2 * j) % n := by
  rw [burstPlace, if_neg (Nat.not_lt.mpr hk)]
  intro h
  have hparity : (p + 2 * k + 1 - n) % 2 = (p + 2 * j) % 2 := by
    rw [← Nat.mod_mod_of_dvd _ heven, h, Nat.mod_mod_of_dvd _ heven]
  omega

theorem gets_even (hp : p < n) (heven : 2 ∣ n) (hk : n ≤ k) (j : Nat) :
    gets (burstPlace n p) k ((p + 2 * j) % n) = 1 := by
  have hn := Nat.zero_lt_of_lt hp
  induction hk with
  | refl => rw [gets_round hp le_rfl (Nat.mod_lt _ hn), if_pos (Nat.mod_lt _ hn)]
  | step hk ih => rw [gets_succ, ih, if_neg (burstPlace_ne heven hk j)]

theorem starts_burst (hp : s.startPlace < s.serversList.length)
    (ht : s.Standing cs (burstPlace s.serversList.length s.startPlace) k t) :
    t.startPlace = if k < s.serversList.length then (s.startPlace + k) % s.serversList.length
      else (s.startPlace + 2 * k - s.serversList.length) % s.serversList.length := by
  have hnext : ∀ i, s.nextIndex (i % s.serversList.length) = (i + 1) % s.serversList.length := by
    intro i
    have hlt := Nat.mod_lt i (Nat.zero_lt_of_lt hp)
    rw [← Nat.mod_add_mod]
    exact around_eq_mod hlt
  rw [ht.starts]
  cases k with
  | zero => rw [if_pos rfl, if_pos (by omega), Nat.add_zero, Nat.mod_eq_of_lt hp]
  | succ k =>
      rw [if_neg (Nat.succ_ne_zero k), Nat.add_sub_cancel, burstPlace]
      split_ifs with hlt hlt' hlt'
      · rw [hnext, Nat.add_assoc]
      · rw [hnext]
        congr 1
        omega
      · omega
      · rw [hnext]
        congr 1
        omega

theorem scanOrder_cons (hp : p < n) (hn : 1 < n) :
    ∃ rest, scanOrder n p = (p + 1) % n :: rest := by
  rcases Nat.lt_or_ge (p + 1) n with hlt | hge
  · obtain ⟨d, hd⟩ : ∃ d, n - (p + 1) = d + 1 := ⟨n - (p + 1) - 1, by omega⟩
    refine ⟨List.range' (p + 1 + 1) d ++ List.range p, ?_⟩
    rw [scanOrder, hd, List.range'_succ, Nat.mod_eq_of_lt hlt, List.cons_append]
  · obtain rfl : n = p + 1 := by omega
    obtain ⟨d, rfl⟩ : ∃ d, p = d + 1 := ⟨p - 1, by omega⟩
    refine ⟨(List.range d).map Nat.succ, ?_⟩
    rw [scanOrder, Nat.sub_self, List.range'_zero, List.nil_append, List.range_succ_eq_map,
      Nat.mod_self]

section Unused

variable {w : Int} (hunused : ∀ srv ∈ s.serversList, srv.Unused w)
  (hallowed : ∀ srv ∈ s.serversList, s.isServerAllowed srv.ip clientIp = true)
include hunused

theorem available_unused (hsrv : srv ∈ s.serversList) (retry : Int) (now : Datetime) :
    srv.notAvailable retry now = false := by
  have hu := hunused srv hsrv
  have hmax := hu.maxConnections
  simp only [ServerInfo.notAvailable, ServerInfo.isFull, ServerInfo.inRetry, hu.connected,
    hu.lastConnectionFailed]
  simp
  omega

theorem inspectedLoad_unused (hsrv : srv ∈ s.serversList) : s.inspectedLoad srv = 0 := by
  have hu := hunused srv hsrv
  simp [inspectedLoad, hu.finished, hu.connected, hu.disconnected, toFloat_zero]

theorem defaultLoad_unused (hsrv : srv ∈ s.serversList) (hw : w < 2 ^ 31) (t : ServerList)
    (k : Nat) :
    if k = 0 then t.defaultLoad (srv.pend k) = 0 else 0 < t.defaultLoad (srv.pend k) := by
  have hu := hunused srv hsrv
  have hload : t.defaultLoad (srv.pend k) = toFloat (toFloat k / toFloat (max 1 w : Int)) := by
    simp [defaultLoad, ServerInfo.pend, hu.finished, hu.connected, hu.disconnected,
      hu.connecting, hu.weight]
  rw [hload]
  split_ifs with hk
  · simp [hk, toFloat_zero]
  · exact toFloat_div_pos (by omega) (by omega) (by omega)

theorem rivals_unused (hg : s.Grown t added) {b : Bid} (hb : b ∈ t.rivals clientIp now) :
    b.load = 0 ∧ b.weight = w := by
  obtain ⟨i, -, hbid⟩ := List.mem_filterMap.mp hb
  rw [hg.bid_inspected] at hbid
  obtain ⟨srv, hsrv, -, rfl⟩ := bid_eq_some_iff.mp hbid
  have hmem := List.mem_of_getElem? hsrv
  exact ⟨inspectedLoad_unused hunused hmem, (hunused srv hmem).weight⟩

include hallowed

theorem bid_unused (hi : s.serversList[i]? = some srv) :
    s.bid clientIp now s.inspectedLoad i = some ⟨i, w, 0, true⟩ := by
  have hmem := List.mem_of_getElem? hi
  refine bid_eq_some_iff.mpr ⟨srv, hi, hallowed srv hmem, ?_⟩
  rw [available_unused hunused hmem, inspectedLoad_unused hunused hmem, (hunused srv hmem).weight]
  rfl

/-- The next client of the burst goes to its place. -/
theorem chosen_burst (hw : w < 2 ^ 31) (hp : s.startPlace < s.serversList.length)
    (ht : s.Standing cs (burstPlace s.serversList.length s.startPlace) k t) :
    ∃ b, (t.selection clientIp now).chosen = some b ∧
      b.server = burstPlace s.serversList.length s.startPlace k := by
  have hn := Nat.zero_lt_of_lt hp
  have hstarts := starts_burst hp ht
  have hlt : t.startPlace < s.serversList.length := by
    rw [hstarts]
    split_ifs <;> exact Nat.mod_lt _ hn
  have hfound := List.getElem?_eq_getElem hlt
  have hmem := List.getElem_mem hlt
  generalize s.serversList[t.startPlace] = srv at hfound hmem
  have hload := defaultLoad_unused hunused hmem hw t
    (gets (burstPlace s.serversList.length s.startPlace) k t.startPlace)
  obtain ⟨b, hb, hserver, hweight, hbload⟩ : ∃ b,
      t.bid clientIp now t.defaultLoad t.startPlace = some b ∧ b.server = t.startPlace ∧
        b.weight = w ∧ b.load = t.defaultLoad (srv.pend
          (gets (burstPlace s.serversList.length s.startPlace) k t.startPlace)) := by
    refine ⟨_, bid_eq_some_iff.mpr ⟨srv.pend _, ?_, ?_, rfl⟩, rfl, (hunused srv hmem).weight, rfl⟩
    · rw [ht.grown.servers, hfound]
      rfl
    · rw [ht.grown.allowed]
      exact hallowed srv hmem
  rw [← hbload] at hload
  rw [selection, hb]
  rcases Nat.lt_or_ge k s.serversList.length with hk | hk
  · -- nobody has been sent to the starting server yet
    rw [if_pos hk] at hstarts
    have hplace : burstPlace s.serversList.length s.startPlace k = t.startPlace := by
      rw [burstPlace, if_pos hk, hstarts]
    have hnone : gets (burstPlace s.serversList.length s.startPlace) k t.startPlace = 0 := by
      rw [gets_round hp hk.le hlt, ← (burstPlace_eq_iff hp hk hlt).mp hplace]
      exact if_neg (Nat.lt_irrefl k)
    rw [if_pos hnone] at hload
    refine ⟨b, Choice.chosen_scan_of_le rfl fun r hr => ?_, hserver.trans hplace.symm⟩
    obtain ⟨hzero, hsame⟩ := rivals_unused hunused ht.grown hr
    rw [Bid.rank, Bid.rank, hload, hweight, hzero, hsame]
  · -- somebody has been sent to the starting server, and the one behind it looks unused
    rw [if_neg (Nat.not_lt.mpr hk)] at hstarts
    have hsome : gets (burstPlace s.serversList.length s.startPlace) k t.startPlace ≠ 0 := by
      have hround := gets_round hp le_rfl hlt
      rw [if_pos (Nat.mod_lt _ hn)] at hround
      have hmono := gets_mono (burstPlace s.serversList.length s.startPlace) hk t.startPlace
      omega
    rw [if_neg hsome] at hload
    have hplace : burstPlace s.serversList.length s.startPlace k =
        (t.startPlace + 1) % s.serversList.length := by
      rw [burstPlace, if_neg (Nat.not_lt.mpr hk), hstarts, Nat.mod_add_mod]
      congr 1
      omega
    rcases Nat.lt_or_ge 1 s.serversList.length with htwo | hone
    · obtain ⟨rest, hrest⟩ := scanOrder_cons hlt htwo
      have hnext := List.getElem?_eq_getElem (Nat.mod_lt (t.startPlace + 1) hn)
      have hinspected : t.bid clientIp now t.inspectedLoad =
          s.bid clientIp now s.inspectedLoad := funext (ht.grown.bid_inspected clientIp now)
      have hfirst : t.rivals clientIp now =
          [] ++ ⟨(t.startPlace + 1) % s.serversList.length, w, 0, true⟩ ::
            rest.filterMap (s.bid clientIp now s.inspectedLoad) := by
        rw [rivals, hinspected, ht.grown.length_eq, hrest,
          List.filterMap_cons_some (bid_unused hunused hallowed hnext), List.nil_append]
      refine ⟨⟨(t.startPlace + 1) % s.serversList.length, w, 0, true⟩, ?_, hplace.symm⟩
      rw [hfirst]
      apply Choice.chosen_scan_lowest rfl
      · intro a ha
        obtain rfl : a = b := by simpa using ha
        rw [Bid.rank_lt_iff, if_neg fun hzero => hload.ne' hzero.2]
        exact hload
      · intro r hr
        have hr' : r ∈ t.rivals clientIp now := hfirst ▸ List.mem_cons_of_mem _ hr
        obtain ⟨hzero, hsame⟩ := rivals_unused hunused ht.grown hr'
        rw [Bid.rank, Bid.rank, hzero, hsame]
    · -- there is only one server
      have hstart : t.startPlace = 0 := by omega
      have hnothing : t.rivals clientIp now = [] := by
        rw [rivals, ht.grown.length_eq, hstart, scanOrder, Nat.sub_eq_zero_of_le hone]
        rfl
      have hwrap := Nat.mod_lt (t.startPlace + 1) hn
      refine ⟨b, by rw [hnothing]; rfl, ?_⟩
      omega

end Unused

theorem Sample.unused_twoServers : ∀ srv ∈ Sample.twoServers.serversList, srv.Unused 1 := by
  intro srv hsrv
  change srv ∈ [⟨server1, 80, 0, 0, 0, 0, 1, 0, false, 0⟩,
    ⟨server2, 80, 0, 0, 0, 0, 1, 1, false, 0⟩] at hsrv
  rcases List.mem_pair.mp hsrv with rfl | rfl
  · exact ⟨rfl, rfl, rfl, rfl, rfl, by decide, rfl⟩
  · exact ⟨rfl, rfl, rfl, rfl, rfl, by decide, rfl⟩

end ServerList

end Relb
