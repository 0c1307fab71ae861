import Mathlib.Algebra.Order.Ring.Rat
import Mathlib.Data.Prod.Lex
import Relb.Lib.Circuit
import Relb.Lib.Selection
import Relb.Proofs.Assignment
/-!
# The selection of a server

A client without an entry gets what the scan over the servers chooses. Seen from outside, the
scan is the one of `Relb.Lib.Selection`: the servers that the filters allow are the candidates,
in the order in which they are looked at, and the flag tells whether the choice is available.
The second scan starts where it has to stop, so it looks at no server.
-/

namespace Relb

open Lib

namespace ServerList

variable {s : ServerList} {clientIp : IpAddress} {clientPort : UInt16} {pcm : Option ManagerId}
  {now : Datetime} {addr parallelAddr : Ptr} {srv first : ServerInfo} {i n last : Nat}

/-! ## Bids -/

/-- What the selection compares. -/
structure Bid where
  server : Nat
  weight : Int
  load : Rat
  available : Bool
  deriving DecidableEq

/-- A smaller load ranks before a greater one; among servers without load a greater weight
ranks before a smaller one. -/
def Bid.rank (b : Bid) : Rat ×ₗ Int := toLex (b.load, if b.load = 0 then -b.weight else 0)

theorem Bid.rank_lt_iff (a b : Bid) : a.rank < b.rank ↔
    if a.load = 0 ∧ b.load = 0 then a.weight > b.weight else a.load < b.load := by
  rw [rank, rank, Prod.Lex.toLex_lt_toLex]
  by_cases ha : a.load = 0
  · by_cases hb : b.load = 0
    · simp [ha, hb]
    · simp [ha, hb, Ne.symm hb]
  · by_cases heq : a.load = b.load
    · rw [← heq]
      simp [ha]
    · simp [ha, heq]

/-- The bid of the server in place `i`, if the client may use it. -/
def bid (s : ServerList) (clientIp : IpAddress) (now : Datetime) (load : ServerInfo → Rat)
    (i : Nat) : Option Bid :=
  s.serversList[i]?.bind fun srv =>
    if s.isServerAllowed srv.ip clientIp then
      some ⟨i, srv.weight, load srv, !srv.notAvailable s.serverRetryMilliseconds now⟩
    else none

theorem bid_eq_some_iff {load : ServerInfo → Rat} {b : Bid} :
    s.bid clientIp now load i = some b ↔ ∃ srv, s.serversList[i]? = some srv ∧
      s.isServerAllowed srv.ip clientIp = true ∧
      b = ⟨i, srv.weight, load srv, !srv.notAvailable s.serverRetryMilliseconds now⟩ := by
  simp only [bid, Option.bind_eq_some_iff, Option.ite_none_right_eq_some, Option.some.injEq]
  exact exists_congr fun srv => and_congr_right fun _ => and_congr_right fun _ => eq_comm

/-- The places behind `last`, and then those before it. -/
def scanOrder (n last : Nat) : List Nat :=
  List.range' (last + 1) (n - (last + 1)) ++ List.range last

theorem mem_scanOrder : i ∈ scanOrder n last ↔ i < last ∨ last < i ∧ i < n := by
  simp only [scanOrder, List.mem_append, List.mem_range'_1, List.mem_range]
  omega

theorem rotate_range (hlast : last < n) :
    (List.range n).rotate last = last :: scanOrder n last := by
  have hrest : n - last = n - (last + 1) + 1 := by omega
  rw [List.rotate_eq_drop_append_take (by simpa using hlast.le), List.take_range,
    Nat.min_eq_left hlast.le, List.range_eq_range', List.drop_range', hrest, List.range'_succ]
  simp [scanOrder, List.range_eq_range']

/-- Where the selection starts. -/
def startPlace (s : ServerList) : Nat := s.nextIndex s.lastServerAssigned

theorem nextIndex_lt (h : s.serversList ≠ []) (i : Nat) :
    s.nextIndex i < s.serversList.length := by
  unfold nextIndex
  split
  · exact List.length_pos_iff.mpr h
  · omega

/-- The bids of all servers but the starting one. -/
def rivals (s : ServerList) (clientIp : IpAddress) (now : Datetime) : List Bid :=
  (scanOrder s.serversList.length s.startPlace).filterMap (s.bid clientIp now s.inspectedLoad)

/-- The servers that the client may use, as the selection sees them and in its order. -/
def bids (s : ServerList) (clientIp : IpAddress) (now : Datetime) : List Bid :=
  (s.bid clientIp now s.defaultLoad s.startPlace).toList ++ s.rivals clientIp now

theorem mem_bids {b : Bid} (h : b ∈ s.bids clientIp now) :
    ∃ srv, s.serversList[b.server]? = some srv ∧ s.isServerAllowed srv.ip clientIp = true ∧
      b.available = !srv.notAvailable s.serverRetryMilliseconds now ∧
      b.load = if b.server = s.startPlace then s.defaultLoad srv else s.inspectedLoad srv := by
  rw [bids, List.mem_append, Option.mem_toList] at h
  rcases h with h | h
  · obtain ⟨srv, hsrv, hallowed, rfl⟩ := bid_eq_some_iff.mp h
    exact ⟨srv, hsrv, hallowed, rfl, (if_pos rfl).symm⟩
  · obtain ⟨i, hi, h⟩ := List.mem_filterMap.mp h
    obtain ⟨srv, hsrv, hallowed, rfl⟩ := bid_eq_some_iff.mp h
    have hne : i ≠ s.startPlace := by
      rcases mem_scanOrder.mp hi with hlt | ⟨hlt, -⟩
      · exact Nat.ne_of_lt hlt
      · exact Nat.ne_of_gt hlt
    exact ⟨srv, hsrv, hallowed, rfl, (if_neg hne).symm⟩

theorem exists_bid (hsrv : s.serversList[i]? = some srv)
    (hallowed : s.isServerAllowed srv.ip clientIp = true) (now : Datetime) :
    ∃ b ∈ s.bids clientIp now, b.server = i := by
  have hbid : ∀ load, ∃ b, s.bid clientIp now load i = some b ∧ b.server = i :=
    fun load => ⟨_, bid_eq_some_iff.mpr ⟨srv, hsrv, hallowed, rfl⟩, rfl⟩
  rcases Nat.lt_trichotomy i s.startPlace with hlt | heq | hlt
  · obtain ⟨b, hb, hplace⟩ := hbid s.inspectedLoad
    refine ⟨b, List.mem_append_right _ (List.mem_filterMap.mpr ⟨i, ?_, hb⟩), hplace⟩
    exact mem_scanOrder.mpr (.inl hlt)
  · obtain ⟨b, hb, hplace⟩ := hbid s.defaultLoad
    rw [heq] at hb
    exact ⟨b, List.mem_append_left _ (Option.mem_toList.mpr hb), hplace⟩
  · obtain ⟨b, hb, hplace⟩ := hbid s.inspectedLoad
    refine ⟨b, List.mem_append_right _ (List.mem_filterMap.mpr ⟨i, ?_, hb⟩), hplace⟩
    exact mem_scanOrder.mpr (.inr ⟨hlt, (List.getElem?_eq_some_iff.mp hsrv).1⟩)

/-! ## The scan -/

/-- The variables of the scan that the choice `x` stands for. -/
structure Candidate.Shows (next : Candidate) (x : Choice Bid) : Prop where
  assigned : next.assigned = x.chosen.isSome
  notAvailable : next.notAvailable = !x.up
  chosen : ∀ b, x.chosen = some b →
    next.server = b.server ∧ next.weight = b.weight ∧ next.index = b.load

theorem shows_inspectServer (s : ServerList) (clientIp : IpAddress) (now : Datetime)
    {next : Candidate} {x : Choice Bid} (h : next.Shows x) (i : Nat) :
    (s.inspectServer clientIp i
      (s.serversList[i]?.any (·.notAvailable s.serverRetryMilliseconds now)) next).Shows
      (x.scan Bid.rank Bid.available (s.bid clientIp now s.inspectedLoad i).toList) := by
  unfold inspectServer bid
  cases s.serversList[i]? with
  | none => exact h
  | some srv =>
      by_cases hallowed : s.isServerAllowed srv.ip clientIp = true
      · simp only [Option.bind_some, if_pos hallowed, Option.any_some, Option.toList_some]
        obtain ⟨o, flag⟩ := x
        obtain ⟨server, weight, index, down, assigned⟩ := next
        obtain ⟨rfl, rfl, hchosen⟩ := h
        cases o with
        | none =>
            simp only [Option.isSome_none, Bool.not_false, Bool.true_or, ite_self, Bool.true_and,
              Choice.scan, List.foldl_cons, List.foldl_nil, Choice.pick, Option.all_none,
              Bool.and_true]
            cases srv.notAvailable s.serverRetryMilliseconds now <;> cases flag <;>
              exact ⟨rfl, rfl, by simp⟩
        | some a =>
            obtain ⟨rfl, rfl, rfl⟩ := hchosen a rfl
            have hbetter : (if s.inspectedLoad srv = 0 ∧ a.load = 0 then
                !(some a).isSome || decide (srv.weight > a.weight)
                else !(some a).isSome || decide (s.inspectedLoad srv < a.load)) =
                decide (Bid.rank ⟨i, srv.weight, s.inspectedLoad srv,
                  !srv.notAvailable s.serverRetryMilliseconds now⟩ < a.rank) := by
              rw [Bool.eq_iff_iff, decide_eq_true_eq, Bid.rank_lt_iff]
              split <;> simp
            simp only [hbetter, Choice.scan, List.foldl_cons, List.foldl_nil, Choice.pick,
              Option.all_some]
            generalize decide (Bid.rank _ < a.rank) = better
            cases srv.notAvailable s.serverRetryMilliseconds now <;> cases flag <;>
              cases better <;> exact ⟨rfl, rfl, by simp⟩
      · simp only [Option.bind_some, if_neg hallowed]
        exact h

theorem shows_foldl (s : ServerList) (clientIp : IpAddress) (now : Datetime) {next : Candidate}
    {x : Choice Bid} (h : next.Shows x) (places : List Nat) :
    (places.foldl (fun next i => s.inspectServer clientIp i
      (s.serversList[i]?.any (·.notAvailable s.serverRetryMilliseconds now)) next) next).Shows
      (x.scan Bid.rank Bid.available
        (places.filterMap (s.bid clientIp now s.inspectedLoad))) := by
  induction places generalizing next x with
  | nil => exact h
  | cons i places ih =>
      have hnext := ih (shows_inspectServer s clientIp now h i)
      rw [List.foldl_cons]
      have hscan : ∀ l, (x.scan Bid.rank Bid.available
          (s.bid clientIp now s.inspectedLoad i).toList).scan Bid.rank Bid.available l =
          x.scan Bid.rank Bid.available ((s.bid clientIp now s.inspectedLoad i).toList ++ l) :=
        fun l => List.foldl_append.symm
      rw [hscan] at hnext
      cases hbid : s.bid clientIp now s.inspectedLoad i with
      | none =>
          rw [List.filterMap_cons_none hbid]
          rwa [hbid] at hnext
      | some b =>
          rw [List.filterMap_cons_some hbid]
          rwa [hbid] at hnext

theorem scanServers_of_whileNot {notAvailable : ServerInfo → Bool} {next : Candidate}
    {fuel i : Nat} {r : Nat × Candidate}
    (h : whileNot last s.nextIndex (fun next i => some (s.inspectServer clientIp i
      (s.serversList[i]?.any notAvailable) next)) fuel i next = some r) :
    s.scanServers clientIp last notAvailable fuel i next = r := by
  induction fuel generalizing i next with
  | zero =>
      rw [whileNot] at h
      split at h
      · exact Option.some.inj h
      · cases h
  | succ fuel ih =>
      rw [whileNot] at h
      rw [scanServers]
      split at h
      · rename_i hstop
        rw [if_pos hstop]
        exact Option.some.inj h
      · rename_i hstop
        rw [if_neg hstop]
        exact ih h

theorem scanServers_eq {notAvailable : ServerInfo → Bool} {next : Candidate}
    (hlast : last < s.serversList.length) :
    s.scanServers clientIp last notAvailable s.serversList.length (s.nextIndex last) next =
      (last, (scanOrder s.serversList.length last).foldl (fun next i =>
        s.inspectServer clientIp i (s.serversList[i]?.any notAvailable) next) next) := by
  apply scanServers_of_whileNot
  have hround := whileNot_around (fun next i =>
    some (s.inspectServer clientIp i (s.serversList[i]?.any notAvailable) next)) hlast
    (Nat.sub_le _ 1) next
  rw [rotate_range hlast, List.tail_cons, foldlM_eq_some fun _ _ _ => rfl] at hround
  exact hround

theorem scanServers_again {notAvailable : ServerInfo → Bool} {next : Candidate} (fuel : Nat) :
    s.scanServers clientIp last notAvailable fuel last next = (last, next) := by
  cases fuel with
  | zero => rfl
  | succ fuel => exact if_pos rfl

/-- The starting server may be tried. -/
def StartAvailable (s : ServerList) (now : Datetime) : Prop :=
  ∃ srv, s.serversList[s.startPlace]? = some srv ∧
    srv.notAvailable s.serverRetryMilliseconds now = false

instance (s : ServerList) (now : Datetime) : Decidable (s.StartAvailable now) :=
  match h : s.serversList[s.startPlace]? with
  | none => isFalse (by simp [StartAvailable, h])
  | some srv => decidable_of_iff (srv.notAvailable s.serverRetryMilliseconds now = false)
      (by simp [StartAvailable, h])

/-- What the whole selection chooses. -/
def selection (s : ServerList) (clientIp : IpAddress) (now : Datetime) : Choice Bid :=
  Choice.scan Bid.rank Bid.available
    ⟨s.bid clientIp now s.defaultLoad s.startPlace, decide (s.StartAvailable now)⟩
    (s.rivals clientIp now)

theorem shows_selectServer (clientIp : IpAddress) (now : Datetime)
    (hfirst : s.serversList[s.startPlace]? = some first) :
    (s.selectServer clientIp now s.startPlace first).Shows (s.selection clientIp now) := by
  have hlast := (List.getElem?_eq_some_iff.mp hfirst).1
  have hup : decide (s.StartAvailable now) =
      !first.notAvailable s.serverRetryMilliseconds now := by
    simp [StartAvailable, hfirst]
  have hstart : Candidate.Shows ⟨s.startPlace, first.weight, s.defaultLoad first,
      first.notAvailable s.serverRetryMilliseconds now, s.isServerAllowed first.ip clientIp⟩
      ⟨s.bid clientIp now s.defaultLoad s.startPlace, decide (s.StartAvailable now)⟩ := by
    have hbid : s.bid clientIp now s.defaultLoad s.startPlace =
        if s.isServerAllowed first.ip clientIp then
          some ⟨s.startPlace, first.weight, s.defaultLoad first,
            !first.notAvailable s.serverRetryMilliseconds now⟩
        else none := by
      rw [bid, hfirst, Option.bind_some]
    rw [hbid, hup]
    cases s.isServerAllowed first.ip clientIp with
    | false => exact ⟨rfl, by simp, by simp⟩
    | true => exact ⟨rfl, by simp, by simp⟩
  have hscan := shows_foldl s clientIp now hstart (scanOrder s.serversList.length s.startPlace)
  unfold selectServer
  simp only [scanServers_eq hlast, scanServers_again]
  split
  · exact hscan
  · exact hscan

/-! ## Clients without an entry -/

/-- The client has no entry. -/
def NoEntry (s : ServerList) (clientIp : IpAddress) : Prop := ∀ q ∈ s.peerList, q.srcIp ≠ clientIp

instance (s : ServerList) (clientIp : IpAddress) : Decidable (s.NoEntry clientIp) :=
  inferInstanceAs (Decidable (∀ q ∈ s.peerList, q.srcIp ≠ clientIp))

theorem getServer_of_noEntry (hservers : s.serversList ≠ []) (hnew : s.NoEntry clientIp) :
    s.getServer clientIp clientPort pcm now addr parallelAddr =
      s.assignServer clientIp clientPort pcm now addr parallelAddr := by
  have hnothing : s.scanSessions clientIp clientPort now s.peerList 0 none = .nothing := by
    have hscan : s.ScanCorrect clientIp clientPort now s.peerList none
        (s.scanSessions clientIp clientPort now s.peerList 0 none) :=
      scanSessions_correct rfl (by simp)
    revert hscan
    cases s.scanSessions clientIp clientPort now s.peerList 0 none with
    | nothing => exact fun _ => rfl
    | lost peer server =>
        rintro ⟨q, hq⟩
        exact absurd hq.client (hnew q (List.mem_of_getElem? hq.found))
    | reuse peer server =>
        rintro ⟨q, hq, -⟩
        exact absurd hq.client (hnew q (List.mem_of_getElem? hq.found))
  unfold getServer
  rw [if_neg (by simpa using hservers), hnothing]
  split <;> rfl

/-- The server of the choice is assigned; without a choice the client is refused. -/
theorem assignServer_of_selection (hservers : s.serversList ≠ []) (clientIp : IpAddress)
    (clientPort : UInt16) (pcm : Option ManagerId) (now : Datetime) (addr parallelAddr : Ptr) :
    (s.selection clientIp now).chosen = none ∧
        (∃ last, s.assignServer clientIp clientPort pcm now addr parallelAddr =
          ({ s with lastServerAssigned := last }, none)) ∨
      ∃ b srv, (s.selection clientIp now).chosen = some b ∧
        s.serversList[b.server]? = some srv ∧
        s.assignServer clientIp clientPort pcm now addr parallelAddr =
          (s.afterAssignment b.server
            (newPeer clientIp clientPort srv.ip srv.port pcm now addr) parallelAddr,
          some (s.withParallel (newPeer clientIp clientPort srv.ip srv.port pcm now addr)
            parallelAddr)) := by
  obtain ⟨first, hfirst⟩ : ∃ first, s.serversList[s.startPlace]? = some first :=
    ⟨_, List.getElem?_eq_getElem (nextIndex_lt hservers s.lastServerAssigned)⟩
  have hshows := shows_selectServer clientIp now hfirst
  have hallowed : s.CandidateAllowed clientIp (s.selectServer clientIp now s.startPlace first) :=
    candidateAllowed_selectServer hfirst
  unfold assignServer
  change s.serversList[s.nextIndex s.lastServerAssigned]? = some first at hfirst
  dsimp only
  rw [hfirst]
  dsimp only
  rw [← startPlace]
  generalize s.selectServer clientIp now s.startPlace first = next at hshows hallowed ⊢
  cases hchosen : (s.selection clientIp now).chosen with
  | none =>
      have hassigned : ¬next.assigned = true := by
        rw [hshows.assigned, hchosen]
        exact Bool.false_ne_true
      rw [if_neg hassigned]
      exact .inl ⟨rfl, _, rfl⟩
  | some b =>
      have hassigned : next.assigned = true := by
        rw [hshows.assigned, hchosen]
        rfl
      obtain ⟨srv, hsrv, -⟩ := hallowed hassigned
      have hplace := (hshows.chosen b hchosen).1
      rw [if_pos hassigned, if_neg (hallowed.inRange hassigned), hsrv]
      rw [hplace] at hsrv ⊢
      exact .inr ⟨b, srv, rfl, hsrv, rfl⟩

/-- The call has put a new connection on the account of the server in place `i`. -/
structure AssignedTo (s : ServerList) (r : ServerList × Option PeerInfo) (i : Nat)
    (srv : ServerInfo) : Prop where
  found : s.serversList[i]? = some srv
  returned : ∃ q, r.2 = some q ∧ (q.dstIp, q.dstPort) = srv.address
  counted : r.1.serversList = s.serversList.modify i ServerInfo.startConnecting
  last : r.1.lastServerAssigned = i

theorem lastServerAssigned_addPeer (s : ServerList) (q : PeerInfo) (a : Ptr) :
    (s.addPeer q a).lastServerAssigned = s.lastServerAssigned := by
  unfold addPeer postParallel
  dsimp only
  split <;> rfl

theorem AssignedTo.unique {r : ServerList × Option PeerInfo} {j : Nat} {srv' : ServerInfo}
    (h : s.AssignedTo r i srv) (h' : s.AssignedTo r j srv') : i = j ∧ srv = srv' := by
  obtain rfl : i = j := h.last.symm.trans h'.last
  exact ⟨rfl, Option.some.inj (h.found.symm.trans h'.found)⟩

theorem assignedTo_afterAssignment (hsrv : s.serversList[i]? = some srv) :
    s.AssignedTo (s.afterAssignment i
        (newPeer clientIp clientPort srv.ip srv.port pcm now addr) parallelAddr,
      some (s.withParallel (newPeer clientIp clientPort srv.ip srv.port pcm now addr)
        parallelAddr)) i srv where
  found := hsrv
  returned := ⟨_, rfl, congrArg Prod.snd (route_withParallel s (newPeer clientIp clientPort srv.ip
    srv.port pcm now addr) parallelAddr)⟩
  counted := serversList_afterAssignment s i _ parallelAddr
  last := lastServerAssigned_addPeer _ _ _

end ServerList

end Relb
