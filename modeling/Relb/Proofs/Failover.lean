import Relb.Proofs.Rounding
import Relb.Proofs.Selection
/-!
# What the selection promises

A client without an entry and a list with at least one server. The three promises are that an
available server is taken if the client may use one, that nobody is refused who may use a
server, and that the server taken has the least load. None of them holds in general: the
starting server has a say although it is denied or unavailable, and its load is computed with
`connecting` where all other loads are computed with `finished`.
-/

namespace Relb

open Lib

namespace ServerList

variable {s : ServerList} {clientIp : IpAddress} {clientPort : UInt16} {pcm : Option ManagerId}
  {now : Datetime} {addr parallelAddr : Ptr} {srv : ServerInfo} {i : Nat} {b : Bid}

/-- The client may use the server in place `i`. -/
def AllowedAt (s : ServerList) (clientIp : IpAddress) (i : Nat) : Prop :=
  ∃ srv, s.serversList[i]? = some srv ∧ s.isServerAllowed srv.ip clientIp = true

/-- The client may use some server that is available. -/
def SomeAvailable (s : ServerList) (clientIp : IpAddress) (now : Datetime) : Prop :=
  ∃ srv ∈ s.serversList, s.isServerAllowed srv.ip clientIp = true ∧
    srv.notAvailable s.serverRetryMilliseconds now = false

/-! ## The choice -/

theorem mem_bids_of_selection (h : (s.selection clientIp now).chosen = some b) :
    b ∈ s.bids clientIp now := Choice.mem_of_scan h

theorem coherent_selection (s : ServerList) (clientIp : IpAddress) (now : Datetime) :
    (s.selection clientIp now).Coherent Bid.available := by
  apply Choice.Coherent.scan
  intro a ha
  obtain ⟨srv, hsrv, -, rfl⟩ := bid_eq_some_iff.mp ha
  simp [StartAvailable, hsrv]

/-- Something is chosen if the starting server is allowed or unavailable, or if some server is
both allowed and available. -/
theorem isSome_selection : (s.selection clientIp now).chosen.isSome = true ↔
    s.AllowedAt clientIp s.startPlace ∨ s.SomeAvailable clientIp now ∨
      ¬s.StartAvailable now ∧ ∃ srv ∈ s.serversList, s.isServerAllowed srv.ip clientIp = true := by
  have hstart : (s.bid clientIp now s.defaultLoad s.startPlace).isSome = true ↔
      s.AllowedAt clientIp s.startPlace := by
    rw [Option.isSome_iff_exists]
    constructor
    · rintro ⟨a, ha⟩
      obtain ⟨srv, hsrv, hallowed, -⟩ := bid_eq_some_iff.mp ha
      exact ⟨srv, hsrv, hallowed⟩
    · rintro ⟨srv, hsrv, hallowed⟩
      exact ⟨_, bid_eq_some_iff.mpr ⟨srv, hsrv, hallowed, rfl⟩⟩
  have hbid : ∀ b ∈ s.rivals clientIp now, ∃ srv, s.serversList[b.server]? = some srv ∧
      s.isServerAllowed srv.ip clientIp = true ∧
      b.available = !srv.notAvailable s.serverRetryMilliseconds now := by
    intro b hb
    obtain ⟨srv, hsrv, hallowed, havailable, -⟩ := mem_bids (List.mem_append_right _ hb)
    exact ⟨srv, hsrv, hallowed, havailable⟩
  -- a server that is not the starting one has a bid among the rivals
  have hrival : ∀ srv ∈ s.serversList, s.isServerAllowed srv.ip clientIp = true →
      s.AllowedAt clientIp s.startPlace ∨ ∃ b ∈ s.rivals clientIp now,
        b.available = !srv.notAvailable s.serverRetryMilliseconds now := by
    intro srv hmem hallowed
    obtain ⟨i, hi⟩ := List.mem_iff_getElem?.mp hmem
    obtain ⟨b, hb, rfl⟩ := exists_bid hi hallowed now
    rw [bids, List.mem_append, Option.mem_toList] at hb
    rcases hb with hb | hb
    · exact .inl (hstart.mp (Option.isSome_iff_exists.mpr ⟨b, hb⟩))
    · obtain ⟨srv', hsrv, -, havailable⟩ := hbid b hb
      obtain rfl := Option.some.inj (hi.symm.trans hsrv)
      exact .inr ⟨b, hb, havailable⟩
  rw [selection, Choice.isSome_scan, hstart, decide_eq_false_iff_not]
  constructor
  · rintro (hallowed | ⟨b, hb, havailable⟩ | ⟨hdown, hne⟩)
    · exact .inl hallowed
    · obtain ⟨srv, hsrv, hallowed, heq⟩ := hbid b hb
      refine .inr (.inl ⟨srv, List.mem_of_getElem? hsrv, hallowed, ?_⟩)
      simpa [heq] using havailable
    · obtain ⟨b, hb⟩ := List.exists_mem_of_ne_nil _ hne
      obtain ⟨srv, hsrv, hallowed, -⟩ := hbid b hb
      exact .inr (.inr ⟨hdown, srv, List.mem_of_getElem? hsrv, hallowed⟩)
  · rintro (hallowed | ⟨srv, hmem, hallowed, havailable⟩ | ⟨hdown, srv, hmem, hallowed⟩)
    · exact .inl hallowed
    · rcases hrival srv hmem hallowed with hstart | ⟨b, hb, heq⟩
      · exact .inl hstart
      · exact .inr (.inl ⟨b, hb, by simp [heq, havailable]⟩)
    · rcases hrival srv hmem hallowed with hstart | ⟨b, hb, -⟩
      · exact .inl hstart
      · exact .inr (.inr ⟨hdown, List.ne_nil_of_mem hb⟩)

theorem getServer_of_selection (hservers : s.serversList ≠ []) (hnew : s.NoEntry clientIp)
    (clientPort : UInt16) (pcm : Option ManagerId) (now : Datetime) (addr parallelAddr : Ptr) :
    (s.selection clientIp now).chosen = none ∧
        (s.getServer clientIp clientPort pcm now addr parallelAddr).2 = none ∨
      ∃ b srv, (s.selection clientIp now).chosen = some b ∧
        s.AssignedTo (s.getServer clientIp clientPort pcm now addr parallelAddr) b.server srv := by
  rw [getServer_of_noEntry hservers hnew]
  rcases assignServer_of_selection hservers clientIp clientPort pcm now addr parallelAddr with
    ⟨hnone, last, hrefused⟩ | ⟨b, srv, hchosen, hsrv, hassigned⟩
  · rw [hrefused]
    exact .inl ⟨hnone, rfl⟩
  · rw [hassigned]
    exact .inr ⟨b, srv, hchosen, assignedTo_afterAssignment hsrv⟩

theorem AssignedTo.returned_ne_none {r : ServerList × Option PeerInfo}
    (h : s.AssignedTo r i srv) : r.2 ≠ none := by
  obtain ⟨q, hq, -⟩ := h.returned
  rw [hq]
  exact Option.some_ne_none q

theorem exists_assignedTo_iff (hservers : s.serversList ≠ []) (hnew : s.NoEntry clientIp)
    {P : ServerInfo → Prop} :
    (∃ i srv, s.AssignedTo (s.getServer clientIp clientPort pcm now addr parallelAddr) i srv ∧
        P srv) ↔
      ∃ b srv, (s.selection clientIp now).chosen = some b ∧
        s.serversList[b.server]? = some srv ∧ P srv := by
  rcases getServer_of_selection hservers hnew clientPort pcm now addr parallelAddr with
    ⟨hnone, hrefused⟩ | ⟨b, srv, hchosen, hassigned⟩
  · constructor
    · rintro ⟨i, srv, h, -⟩
      exact absurd hrefused h.returned_ne_none
    · rintro ⟨b, srv, hchosen, -⟩
      rw [hnone] at hchosen
      cases hchosen
  · constructor
    · rintro ⟨i, srv', h, hP⟩
      obtain ⟨-, rfl⟩ := hassigned.unique h
      exact ⟨b, srv, hchosen, hassigned.found, hP⟩
    · rintro ⟨b', srv', hchosen', hsrv', hP⟩
      obtain rfl := Option.some.inj (hchosen.symm.trans hchosen')
      obtain rfl := Option.some.inj (hassigned.found.symm.trans hsrv')
      exact ⟨b.server, srv, hassigned, hP⟩

/-! ## An available server -/

/-- Whoever may use an available server gets one exactly if the starting server is available,
or some available server that the client may use ranks before all those looked at earlier. -/
theorem available_assigned (hservers : s.serversList ≠ []) (hnew : s.NoEntry clientIp)
    (hsome : s.SomeAvailable clientIp now) :
    (∃ i srv, s.AssignedTo (s.getServer clientIp clientPort pcm now addr parallelAddr) i srv ∧
        s.isServerAllowed srv.ip clientIp = true ∧
        srv.notAvailable s.serverRetryMilliseconds now = false) ↔
      s.StartAvailable now ∨ HasWinner Bid.rank Bid.available (s.bids clientIp now) := by
  obtain ⟨b, hchosen⟩ := Option.isSome_iff_exists.mp (isSome_selection.mpr (.inr (.inl hsome)))
  obtain ⟨srv, hsrv, hallowed, havailable, -⟩ := mem_bids (mem_bids_of_selection hchosen)
  have hup : (s.selection clientIp now).up = b.available :=
    coherent_selection s clientIp now b hchosen
  have hflag : (s.selection clientIp now).up = true ↔
      s.StartAvailable now ∨ HasWinner Bid.rank Bid.available (s.bids clientIp now) := by
    by_cases hstart : s.StartAvailable now
    · refine iff_of_true (Choice.up_scan (decide_eq_true hstart) _) (.inl hstart)
    · rw [or_iff_right hstart]
      refine Choice.up_scan_iff (decide_eq_false hstart) ?_ _
      intro a ha
      obtain ⟨srv', hsrv', -, rfl⟩ := bid_eq_some_iff.mp ha
      simp [StartAvailable, hsrv']
  rw [exists_assignedTo_iff hservers hnew, ← hflag, hup, havailable, Bool.not_eq_true']
  constructor
  · rintro ⟨b', srv', hchosen', hsrv', -, hok⟩
    obtain rfl := Option.some.inj (hchosen.symm.trans hchosen')
    obtain rfl := Option.some.inj (hsrv.symm.trans hsrv')
    exact hok
  · intro hok
    exact ⟨b, srv, hchosen, hsrv, hallowed, hok⟩

theorem available_assigned_shown :
    ∃ i srv, Sample.twoServers.AssignedTo
        (Sample.twoServers.getServer Sample.client 5000 (some 1) 10 100 200) i srv ∧
      Sample.twoServers.isServerAllowed srv.ip Sample.client = true ∧
      srv.notAvailable Sample.twoServers.serverRetryMilliseconds 10 = false :=
  (available_assigned (by decide) (by decide)
    ⟨_, List.mem_cons_self, by decide, by decide⟩).mpr (.inl ⟨_, rfl, by decide⟩)

/-- The starting server has failed a moment ago; the other one is in use. -/
def Sample.failed : ServerList :=
  { Sample.twoServers with
    serversList := [⟨Sample.server1, 80, 0, 0, 0, 0, 1, 0, true, 0⟩,
      ⟨Sample.server2, 80, 0, 0, 1, 0, 1, 0, false, 0⟩] }

/-- The failed server is assigned: it has no load. -/
theorem unavailable_assigned :
    Sample.failed.serversList ≠ [] ∧ Sample.failed.NoEntry Sample.client ∧
      Sample.failed.SomeAvailable Sample.client 10 ∧
      ¬∃ i srv, Sample.failed.AssignedTo
          (Sample.failed.getServer Sample.client 5000 (some 1) 10 100 200) i srv ∧
        Sample.failed.isServerAllowed srv.ip Sample.client = true ∧
        srv.notAvailable Sample.failed.serverRetryMilliseconds 10 = false := by
  refine ⟨by decide, by decide, ⟨_, List.mem_cons_of_mem _ List.mem_cons_self, by decide,
    by decide⟩, ?_⟩
  rintro ⟨i, srv, hassigned, -, havailable⟩
  obtain rfl : 0 = i := Eq.trans (by decide +kernel) hassigned.last
  obtain rfl := Option.some.inj hassigned.found
  revert havailable
  decide

/-! ## No needless refusal -/

/-- Only a client that may use no server is refused, exactly unless the starting server is
available but denied and every server that the client may use is unavailable. -/
theorem refused_denied (hservers : s.serversList ≠ []) (hnew : s.NoEntry clientIp) :
    ((s.getServer clientIp clientPort pcm now addr parallelAddr).2 = none →
        ∀ srv ∈ s.serversList, s.isServerAllowed srv.ip clientIp = false) ↔
      s.AllowedAt clientIp s.startPlace ∨ ¬s.StartAvailable now ∨ s.SomeAvailable clientIp now ∨
        ∀ srv ∈ s.serversList, s.isServerAllowed srv.ip clientIp = false := by
  have hrefused : (s.getServer clientIp clientPort pcm now addr parallelAddr).2 = none ↔
      (s.selection clientIp now).chosen.isSome = false := by
    rcases getServer_of_selection hservers hnew clientPort pcm now addr parallelAddr with
      ⟨hnone, hrefused⟩ | ⟨b, srv, hchosen, hassigned⟩
    · exact iff_of_true hrefused (by rw [hnone]; rfl)
    · exact iff_of_false hassigned.returned_ne_none (by rw [hchosen]; exact Bool.noConfusion)
  have hdenied : (∀ srv ∈ s.serversList, s.isServerAllowed srv.ip clientIp = false) ↔
      ¬∃ srv ∈ s.serversList, s.isServerAllowed srv.ip clientIp = true := by
    simp
  rw [hrefused, ← Bool.not_eq_true, isSome_selection, hdenied]
  by_cases hsome : ∃ srv ∈ s.serversList, s.isServerAllowed srv.ip clientIp = true
  · rw [not_imp_not]
    simp only [hsome, and_true, not_true, or_false, forall_const]
    exact or_congr_right or_comm
  · exact iff_of_true (fun _ => hsome) (.inr (.inr (.inr hsome)))

theorem refused_denied_shown :
    Sample.twoServers.AllowedAt Sample.client Sample.twoServers.startPlace ∧
      ((Sample.twoServers.getServer Sample.client 5000 (some 1) 10 100 200).2 = none →
        ∀ srv ∈ Sample.twoServers.serversList,
          Sample.twoServers.isServerAllowed srv.ip Sample.client = false) :=
  have hallowed : Sample.twoServers.AllowedAt Sample.client Sample.twoServers.startPlace :=
    ⟨_, rfl, by decide⟩
  ⟨hallowed, (refused_denied (by decide) (by decide)).mpr (.inl hallowed)⟩

/-- The client may not use the starting server, and the other one has reached its limit. -/
def Sample.deniedAndFull : ServerList :=
  { Sample.filtered with
    serversList := [⟨Sample.server1, 80, 0, 0, 0, 0, 1, 0, false, 0⟩,
      ⟨Sample.server2, 80, 0, 0, 1, 0, 1, 1, false, 0⟩] }

theorem refused_allowed :
    Sample.deniedAndFull.serversList ≠ [] ∧ Sample.deniedAndFull.NoEntry Sample.client ∧
      ¬((Sample.deniedAndFull.getServer Sample.client 5000 (some 1) 10 100 200).2 = none →
        ∀ srv ∈ Sample.deniedAndFull.serversList,
          Sample.deniedAndFull.isServerAllowed srv.ip Sample.client = false) := by
  refine ⟨by decide, by decide, fun h => ?_⟩
  have hallowed := h (by decide +kernel) _ (List.mem_cons_of_mem _ List.mem_cons_self)
  revert hallowed
  decide

/-! ## The least load -/

/-- The load of a server: its connections of all kinds over its weight. -/
def loadRatio (s : ServerList) (srv : ServerInfo) : Rat :=
  (srv.connecting + srv.connected + srv.finished * s.finishedWeight +
    srv.disconnected * s.disconnectedWeight : Int) / (max 1 srv.weight : Int)

/-- The load of `srv` is the least. -/
def LeastLoaded (s : ServerList) (srv : ServerInfo) : Prop :=
  ∀ x ∈ s.serversList, s.loadRatio srv ≤ s.loadRatio x

instance (s : ServerList) (srv : ServerInfo) : Decidable (s.LeastLoaded srv) :=
  inferInstanceAs (Decidable (∀ x ∈ s.serversList, s.loadRatio srv ≤ s.loadRatio x))

theorem first_of_selection (hservers : s.serversList ≠ [])
    (hall : ∀ srv ∈ s.serversList, s.isServerAllowed srv.ip clientIp = true ∧
      srv.notAvailable s.serverRetryMilliseconds now = false) :
    ∃ b, (s.selection clientIp now).chosen = some b ∧
      First Bid.rank (s.bids clientIp now) b := by
  have hstart := List.getElem?_eq_getElem (nextIndex_lt hservers s.lastServerAssigned)
  obtain ⟨a, ha⟩ : ∃ a, s.bid clientIp now s.defaultLoad s.startPlace = some a :=
    ⟨_, bid_eq_some_iff.mpr ⟨_, hstart, (hall _ (List.getElem_mem _)).1, rfl⟩⟩
  have hup : ∀ b ∈ s.rivals clientIp now, b.available = true := by
    intro b hb
    obtain ⟨srv, hsrv, -, havailable, -⟩ := mem_bids (List.mem_append_right _ hb)
    rw [havailable, (hall srv (List.mem_of_getElem? hsrv)).2]
    rfl
  rw [selection, bids, ha]
  exact Choice.first_scan hup _

/-- Where as many connections have finished as are being made, the scan counts what the starting
server is counted by. -/
def NothingMiscounted (s : ServerList) : Prop :=
  ∀ i srv, s.serversList[i]? = some srv → i ≠ s.startPlace → srv.finished = srv.connecting

/-- Two loads that differ do so by more than `float` can lose. -/
def LoadsApart (s : ServerList) : Prop :=
  ∀ x ∈ s.serversList, ∀ y ∈ s.serversList, s.loadRatio x < s.loadRatio y →
    |s.loadRatio x| + |s.loadRatio y| < 2 ^ 21 * (s.loadRatio y - s.loadRatio x)

instance (s : ServerList) : Decidable s.LoadsApart :=
  inferInstanceAs (Decidable (∀ x ∈ s.serversList, ∀ y ∈ s.serversList, _ → _))

def WeightsFit (s : ServerList) : Prop := ∀ srv ∈ s.serversList, srv.weight < 2 ^ 31

instance (s : ServerList) : Decidable s.WeightsFit :=
  inferInstanceAs (Decidable (∀ srv ∈ s.serversList, _))

theorem defaultLoad_near (s : ServerList) (hfit : srv.weight < 2 ^ 31) :
    |s.defaultLoad srv - s.loadRatio srv| ≤ 2 ^ (-21 : Int) * |s.loadRatio srv| := by
  exact toFloat_div_near _ (by omega) (by omega)

theorem load_near (hcounted : s.NothingMiscounted) (hfit : s.WeightsFit)
    (hb : b ∈ s.bids clientIp now) (hsrv : s.serversList[b.server]? = some srv) :
    |b.load - s.loadRatio srv| ≤ 2 ^ (-21 : Int) * |s.loadRatio srv| := by
  obtain ⟨srv', hsrv', -, -, hload⟩ := mem_bids hb
  obtain rfl := Option.some.inj (hsrv.symm.trans hsrv')
  have hsame : b.load = s.defaultLoad srv := by
    rw [hload]
    split
    · rfl
    · rename_i hplace
      rw [inspectedLoad, defaultLoad, hcounted b.server srv hsrv hplace]
  rw [hsame]
  exact s.defaultLoad_near (hfit srv (List.mem_of_getElem? hsrv))

theorem lt_of_near {u x y x' y' : Rat} (hx : |x' - x| ≤ u * |x|) (hy : |y' - y| ≤ u * |y|)
    (hapart : u * (|x| + |y|) < y - x) : x' < y' := by
  rw [abs_le] at hx hy
  linarith

theorem leastLoaded_of_first
    (hall : ∀ srv ∈ s.serversList, s.isServerAllowed srv.ip clientIp = true)
    (hcounted : s.NothingMiscounted) (hfit : s.WeightsFit) (hapart : s.LoadsApart)
    (hb : First Bid.rank (s.bids clientIp now) b) (hsrv : s.serversList[b.server]? = some srv) :
    s.LeastLoaded srv := by
  intro x hx
  obtain ⟨i, hi⟩ := List.mem_iff_getElem?.mp hx
  obtain ⟨a, ha, rfl⟩ := exists_bid hi (hall x hx) now
  by_contra hle
  have hfar := hapart x hx srv (List.mem_of_getElem? hsrv) (not_le.mp hle)
  have hlt : a.load < b.load := by
    apply lt_of_near (load_near hcounted hfit ha hi) (load_near hcounted hfit hb.mem hsrv)
    rw [zpow_neg, inv_mul_lt_iff₀ (by positivity)]
    exact_mod_cast hfar
  have hrank : a.rank < b.rank := by
    rw [Bid.rank_lt_iff, if_neg ?_]
    · exact hlt
    · rintro ⟨ha, hb⟩
      rw [ha, hb] at hlt
      exact lt_irrefl 0 hlt
  exact absurd hrank (hb.le ha).not_gt

/-- Both servers have connections of all kinds, the second one fewer of them for its weight. -/
def Sample.counted : ServerList :=
  { Sample.twoServers with
    serversList := [⟨Sample.server1, 80, 0, 0, 3, 1, 1, 0, false, 0⟩,
      ⟨Sample.server2, 80, 0, 1, 2, 1, 2, 0, false, 0⟩] }

/-- Both servers have the same weight; five connections to the second one are not established
yet. -/
def Sample.pending : ServerList :=
  { Sample.twoServers with
    serversList := [⟨Sample.server1, 80, 0, 0, 1, 0, 1, 0, false, 0⟩,
      ⟨Sample.server2, 80, 0, 0, 0, 5, 1, 0, false, 0⟩] }

end ServerList

end Relb
