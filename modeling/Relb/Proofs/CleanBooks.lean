import Relb.Proofs.AdminBasics
import Relb.Proofs.AssignmentBooks
/-!
# The books after a cleanup

`cleanConnections` drops the ended entries and takes each of them off the account of the first
server with its address, whatever the port. This is right exactly for the entries whose server
is the first one with that address.
-/

namespace Relb

open Lib

open ServerList (Booked)

/-! ## One entry -/

/-- The search by the address alone finds the server that the entry points to. -/
def FoundByIp (servers : List ServerInfo) (q : PeerInfo) : Prop :=
  servers.findIdx? (fun srv => srv.ip == q.dstIp) = servers.findIdx? (·.isDst q)

instance (servers : List ServerInfo) (q : PeerInfo) : Decidable (FoundByIp servers q) :=
  inferInstanceAs (Decidable (_ = _))

variable {servers servers' : List ServerInfo} {q : PeerInfo} {rest gone : List PeerInfo} {k : Nat}
  {srv : ServerInfo}

theorem findIdx?_ip (servers : List ServerInfo) (ip : IpAddress) :
    servers.findIdx? (fun srv => srv.ip == ip) =
      (servers.map ServerInfo.address).findIdx? fun x => x.1 == ip := by
  rw [List.findIdx?_map]
  rfl

theorem FoundByIp.congr (h : FoundByIp servers q)
    (haddress : servers'.map ServerInfo.address = servers.map ServerInfo.address) :
    FoundByIp servers' q := by
  unfold FoundByIp at h ⊢
  rwa [findIdx?_ip, findIdx?_isDst, haddress, ← findIdx?_ip, ← findIdx?_isDst]

theorem PeerInfo.standing_of_notConnected (h : q.notConnected = true) :
    q.standing = some q.endAccount := if_pos h

theorem ServerInfo.book_clean (h : 1 ≤ srv.book q.endAccount) (a : Account) :
    (srv.clean q).book a = srv.book a - if q.endAccount = a then 1 else 0 := by
  unfold PeerInfo.endAccount at h ⊢
  unfold clean
  cases hq : q.disconnected with
  | false =>
      rw [hq, if_neg Bool.false_ne_true] at h
      rw [if_neg (by simp)]
      cases a <;> simp [book] at h ⊢
      omega
  | true =>
      rw [hq, if_pos rfl] at h
      rw [if_pos ⟨rfl, by simp only [book] at h; omega⟩]
      cases a <;> simp [book] at h ⊢
      omega

theorem getElem?_cleanFirst (h : servers.findIdx? (fun srv => srv.ip == q.dstIp) ≠ some k) :
    (cleanFirst servers q)[k]? = servers[k]? := by
  unfold cleanFirst
  cases hi : servers.findIdx? fun srv => srv.ip == q.dstIp with
  | none => rfl
  | some i => exact List.getElem?_modify_ne _ _ fun heq => h (heq ▸ hi)

theorem getElem?_foldl_cleanFirst
    (h : ∀ x ∈ gone, servers.findIdx? (fun srv => srv.ip == x.dstIp) ≠ some k) :
    (gone.foldl cleanFirst servers)[k]? = servers[k]? := by
  induction gone generalizing servers with
  | nil => rfl
  | cons x gone ih =>
      rw [List.foldl_cons, ih, getElem?_cleanFirst (h x List.mem_cons_self)]
      intro y hy
      rw [findIdx?_ip, address_cleanFirst, ← findIdx?_ip]
      exact h y (List.mem_cons_of_mem _ hy)

namespace ServerList.Booked

theorem clean (h : Booked PeerInfo.standing servers (q :: rest))
    (hnodup : (servers.map ServerInfo.address).Nodup) (hended : q.notConnected = true)
    (hfound : FoundByIp servers q) (hpointed : (q.dstIp, q.dstPort) ∈ servers.map
      ServerInfo.address) : Booked PeerInfo.standing (cleanFirst servers q) rest := by
  obtain ⟨i, dst, hdst, hisDst, hserver⟩ := exists_dst hnodup hpointed
  have hstanding := PeerInfo.standing_of_notConnected hended
  have hone : 1 ≤ dst.book q.endAccount :=
    h.one_le_book (List.mem_of_getElem? hdst) List.mem_cons_self hisDst hstanding
  have hclean : cleanFirst servers q = servers.modify i (·.clean q) := by
    rw [cleanFirst, hfound, hserver]
  rw [hclean]
  refine h.exchange_entry hnodup hdst (some q) none (fun x hx => Option.some.inj hx ▸ hisDst)
    (fun x hx => nomatch hx) (List.Perm.refl _) (List.Perm.refl _) (dst.address_clean q)
    fun a => ?_
  rw [dst.book_clean hone, Option.bind_some, hstanding]
  simp

theorem foldl_clean (h : Booked PeerInfo.standing servers (gone ++ rest))
    (hnodup : (servers.map ServerInfo.address).Nodup)
    (hended : ∀ x ∈ gone, x.notConnected = true) (hfound : ∀ x ∈ gone, FoundByIp servers x)
    (hpointed : ∀ x ∈ gone, (x.dstIp, x.dstPort) ∈ servers.map ServerInfo.address) :
    Booked PeerInfo.standing (gone.foldl cleanFirst servers) rest := by
  induction gone generalizing servers with
  | nil => exact h
  | cons x gone ih =>
      have hself := List.mem_cons_self (a := x) (l := gone)
      rw [List.foldl_cons]
      apply ih
      · exact clean h hnodup (hended x hself) (hfound x hself) (hpointed x hself)
      · rwa [address_cleanFirst]
      · exact fun y hy => hended y (List.mem_cons_of_mem _ hy)
      · exact fun y hy => (hfound y (List.mem_cons_of_mem _ hy)).congr (address_cleanFirst _ _)
      · intro y hy
        rw [address_cleanFirst]
        exact hpointed y (List.mem_cons_of_mem _ hy)

end ServerList.Booked

/-! ## The whole cleanup -/

namespace ServerList

variable {s t : ServerList}

/-- The messages for the copies of the entries that go. -/
def deletions (gone : List PeerInfo) : List Message :=
  gone.filterMap fun q => q.parallel.map (⟨statusPeerConnectionDeleted, ·⟩)

theorem cleanServer_eq (s : ServerList) (q : PeerInfo) :
    s.cleanServer q = { s with serversList := cleanFirst s.serversList q } := by
  unfold cleanServer cleanFirst
  cases s.serversList.findIdx? fun srv => srv.ip == q.dstIp with
  | none => rfl
  | some i => rfl

theorem postParallel_deleted (s : ServerList) (q : PeerInfo) :
    s.postParallel statusPeerConnectionDeleted q.parallel =
      { s with parallelList := s.parallelList.map (· ++ deletions [q]) } := by
  unfold postParallel
  cases hlist : s.parallelList with
  | none =>
      change s = _
      rw [Option.map_none, ← hlist]
  | some queue =>
      cases hp : q.parallel with
      | none => simp [deletions, hp, ← hlist]
      | some p => simp [deletions, hp]

theorem foldl_cleanEntry (l : List PeerInfo) (s : ServerList) :
    l.foldl cleanEntry s =
      { s with
        peerList := s.peerList ++ l.filter (!·.notConnected)
        serversList := (l.filter (·.notConnected)).foldl cleanFirst s.serversList
        parallelList := s.parallelList.map (· ++ deletions (l.filter (·.notConnected))) } := by
  induction l generalizing s with
  | nil => simp [deletions]
  | cons q l ih =>
      rw [List.foldl_cons, ih]
      cases hq : q.notConnected with
      | false => simp [cleanEntry, hq]
      | true =>
          have happend : ∀ queue : List Message,
              queue ++ deletions [q] ++ deletions (l.filter (·.notConnected)) =
                queue ++ deletions (q :: l.filter (·.notConnected)) := by
            intro queue
            rw [List.append_assoc, deletions, deletions, deletions, ← List.filterMap_append]
            rfl
          rw [cleanEntry, if_pos hq, cleanServer_eq, postParallel_deleted]
          simp [hq, Function.comp_def, happend]

/-- What a cleanup should leave: the ended entries have gone, each with one message for its
copy, and the counters are the numbers of the others. -/
structure Cleaned (s t : ServerList) : Prop where
  peerList : t.peerList = s.peerList.filter (!·.notConnected)
  posted : t.parallelList =
    s.parallelList.map (· ++ deletions (s.peerList.filter (·.notConnected)))
  books : t.Balanced PeerInfo.standing

theorem cleanConnections_eq (s : ServerList) : s.cleanConnections =
    { s with
      serversList := (s.peerList.filter (·.notConnected)).foldl cleanFirst s.serversList
      peerList := s.peerList.filter (!·.notConnected)
      parallelList :=
        s.parallelList.map (· ++ deletions (s.peerList.filter (·.notConnected))) } := by
  have hclean := foldl_cleanEntry s.peerList { s with peerList := [] }
  rwa [List.nil_append] at hclean

theorem peerList_perm_ended (s : ServerList) : s.peerList.Perm
    (s.peerList.filter (·.notConnected) ++ s.peerList.filter (!·.notConnected)) :=
  (List.filter_append_perm _ _).symm

/-- The entries that go can only balance the books if each is found at its own server. -/
theorem foundByIp_of_cleaned (hnodup : (s.serversList.map ServerInfo.address).Nodup)
    (hpointed : s.Pointed) (hbooks : s.Balanced PeerInfo.standing)
    (h : s.Cleaned s.cleanConnections) (hq : q ∈ s.peerList) (hended : q.notConnected = true) :
    FoundByIp s.serversList q := by
  by_contra hother
  obtain ⟨k, srv, hsrv, hdst⟩ := exists_isDst hpointed hq
  have hkept : s.cleanConnections.serversList[k]? = some srv := by
    rw [cleanConnections_eq]
    dsimp only
    rw [getElem?_foldl_cleanFirst, hsrv]
    -- a search that ends here ends here for `q` as well, which is found at its own server
    intro x hx hfound
    obtain ⟨hk, hip, -⟩ := List.findIdx?_eq_some_iff_getElem.mp hfound
    have hsame : x.dstIp = q.dstIp := by
      have hq := congrArg Prod.fst ((ServerInfo.isDst_iff srv q).mp hdst)
      rw [List.getElem?_eq_getElem hk] at hsrv
      rw [Option.some.inj hsrv, beq_iff_eq] at hip
      exact hip.symm.trans hq
    apply hother
    rw [FoundByIp, ← hsame, hfound]
    exact (dstServer_of_isDst hnodup hsrv hdst).symm
  have hmem : q ∈ s.peerList.filter (·.notConnected) := List.mem_filter.mpr ⟨hq, hended⟩
  have hpos : 0 < tally PeerInfo.standing (s.peerList.filter (·.notConnected)) srv
      q.endAccount := by
    refine List.countP_pos_iff.mpr ⟨q, hmem, ?_⟩
    rw [hdst, PeerInfo.standing_of_notConnected hended]
    simp
  have hbefore := hbooks srv (List.mem_of_getElem? hsrv) q.endAccount
  have hafter := h.books srv (List.mem_of_getElem? hkept) q.endAccount
  rw [tally_perm s.peerList_perm_ended, tally_append] at hbefore
  rw [h.peerList] at hafter
  omega

theorem cleaned_of_foundByIp (hnodup : (s.serversList.map ServerInfo.address).Nodup)
    (hpointed : s.Pointed) (hbooks : s.Balanced PeerInfo.standing)
    (hfound : ∀ q ∈ s.peerList, q.notConnected = true → FoundByIp s.serversList q) :
    s.Cleaned s.cleanConnections := by
  have hgone : ∀ x ∈ s.peerList.filter (·.notConnected),
      x ∈ s.peerList ∧ x.notConnected = true := fun x hx => List.mem_filter.mp hx
  have hbooked : Booked PeerInfo.standing s.serversList
      (s.peerList.filter (·.notConnected) ++ s.peerList.filter (!·.notConnected)) := by
    intro srv hsrv a
    rw [hbooks srv hsrv a, tally_perm s.peerList_perm_ended]
  refine ⟨by rw [cleanConnections_eq], by rw [cleanConnections_eq], ?_⟩
  rw [cleanConnections_eq]
  apply hbooked.foldl_clean hnodup
  · exact fun x hx => (hgone x hx).2
  · exact fun x hx => hfound x (hgone x hx).1 (hgone x hx).2
  · exact fun x hx => hpointed x (hgone x hx).1

/-- A cleanup keeps the books exactly if every ended entry is found at its own server. -/
theorem clean_keeps_books (hnodup : (s.serversList.map ServerInfo.address).Nodup)
    (hpointed : s.Pointed) (hbooks : s.Balanced PeerInfo.standing) :
    s.Cleaned s.cleanConnections ↔
      ∀ q ∈ s.peerList, q.notConnected = true → FoundByIp s.serversList q := by
  constructor
  · exact fun h q hq hended => foundByIp_of_cleaned hnodup hpointed hbooks h hq hended
  · exact cleaned_of_foundByIp hnodup hpointed hbooks

namespace Sample

/-- Two servers; a connection to the first one has ended and one to the second one is lost, both
with a copy for the admin. -/
def twoEnded : ServerList :=
  { twoServers with
    serversList := [⟨server1, 80, 0, 1, 0, 0, 1, 0, false, 0⟩,
      ⟨server2, 80, 1, 0, 0, 0, 1, 0, false, 0⟩]
    peerList := [⟨100, client, 5000, server1, 80, statusServerDisconnectedOk.toUInt8, some 200,
        some 1, 3, 5⟩,
      ⟨101, client, 5001, server2, 80, statusServerConnectionLost.toUInt8, some 201, some 1, 4, 7⟩]
    parallelList := some [] }

end Sample

theorem clean_keeps_books_shown :
    Sample.twoEnded.cleanConnections.parallelList =
        some [⟨statusPeerConnectionDeleted, 200⟩, ⟨statusPeerConnectionDeleted, 201⟩] ∧
      Sample.twoEnded.Cleaned Sample.twoEnded.cleanConnections :=
  ⟨by decide +kernel, (clean_keeps_books (by decide) (by decide) (by decide)).mpr (by decide)⟩

/-- The ended entry of the second server is taken off the account of the first one. -/
theorem clean_breaks_books :
    (Sample.lastAddress.serversList.map ServerInfo.address).Nodup ∧ Sample.lastAddress.Pointed ∧
      Sample.lastAddress.Balanced PeerInfo.standing ∧
      ¬Sample.lastAddress.Cleaned Sample.lastAddress.cleanConnections := by
  refine ⟨by decide, by decide, by decide, fun h => ?_⟩
  have hbooks := h.books
  revert hbooks
  decide +kernel

end ServerList

end Relb
