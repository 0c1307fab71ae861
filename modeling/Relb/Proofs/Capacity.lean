import Relb.Proofs.ManagerChoice
import Relb.Proofs.PeerBasics
import Relb.Proofs.Phases
/-!
# Managers within their capacity

A manager counts its peers apart from its lists, and its loops delete and move peers while they
walk the lists. Whatever a phase does, the count stays the number of peers on the two lists, and
each peer stays on one of them until it is deleted. A phase can only free places, and there is
one accept thread, so the manager that it has been given still has a free place when the peer
is added.
-/

namespace Relb

open Lib

namespace PooledManager

variable {m t : PooledManager} {p q : PeerObject} {i j : Nat} {sets sets' : FdSets}
  {setr setw : FdSet} {io : Nat → SocketIO}

/-! ## What a manager keeps -/

/-- How often object `x` is on a list. -/
def occurrences (l : List PeerObject) (x : Nat) : Nat := l.countP fun p => p.id == x

theorem occurrences_append (l l' : List PeerObject) (x : Nat) :
    occurrences (l ++ l') x = occurrences l x + occurrences l' x := List.countP_append

theorem occurrences_singleton (p : PeerObject) (x : Nat) :
    occurrences [p] x = if p.id = x then 1 else 0 := by
  simp [occurrences, List.countP_cons]

theorem occurrences_perm {l l' : List PeerObject}
    (h : (l'.map PeerObject.id).Perm (l.map PeerObject.id)) (x : Nat) :
    occurrences l' x = occurrences l x := by
  have hcount : ∀ l : List PeerObject,
      occurrences l x = (l.map PeerObject.id).countP (· == x) := by
    intro l
    rw [List.countP_map]
    rfl
  rw [hcount, hcount, h.countP_eq]

/-- The count and the lists agree with the peers that were added and deleted. -/
structure Consistent (m : PooledManager) : Prop where
  counted : m.currentconnections = m.peerList.length + m.connectingPeerList.length
  listed : ∀ x, m.added.count x =
    occurrences m.peerList x + occurrences m.connectingPeerList x + occurrences m.removed x
  inactive : ∀ p ∈ m.removed, p.peer.isActive = false

/-- A phase can only free places. -/
structure Keeps (m t : PooledManager) : Prop where
  consistent : t.Consistent
  maxConnections : t.maxConnections = m.maxConnections
  added : t.added = m.added
  frees : t.currentconnections ≤ m.currentconnections

namespace Keeps

theorem refl (h : m.Consistent) : m.Keeps m := ⟨h, rfl, rfl, Int.le_refl _⟩

theorem trans {u : PooledManager} (h : m.Keeps t) (h' : t.Keeps u) : m.Keeps u :=
  ⟨h'.consistent, h'.maxConnections.trans h.maxConnections, h'.added.trans h.added,
    Int.le_trans h'.frees h.frees⟩

theorem of_perm (h : m.Consistent)
    (hids : ((t.peerList ++ t.connectingPeerList).map PeerObject.id).Perm
      ((m.peerList ++ m.connectingPeerList).map PeerObject.id))
    (hremoved : t.removed = m.removed) (hcount : t.currentconnections = m.currentconnections)
    (hmax : t.maxConnections = m.maxConnections) (hadded : t.added = m.added) : m.Keeps t := by
  have hlength := hids.length_eq
  rw [List.length_map, List.length_map, List.length_append, List.length_append] at hlength
  refine ⟨⟨?_, fun x => ?_, ?_⟩, hmax, hadded, Int.le_of_eq hcount⟩
  · have hcounted := h.counted
    omega
  · have hsame := occurrences_perm hids x
    rw [occurrences_append, occurrences_append] at hsame
    rw [hadded, hremoved, hsame]
    exact h.listed x
  · rw [hremoved]
    exact h.inactive

theorem of_removed (h : m.Consistent) (hinactive : p.peer.isActive = false)
    (hlists : (m.peerList ++ m.connectingPeerList).Perm
      (p :: (t.peerList ++ t.connectingPeerList)))
    (hremoved : t.removed = m.removed ++ [p])
    (hcount : t.currentconnections = m.currentconnections - 1)
    (hmax : t.maxConnections = m.maxConnections) (hadded : t.added = m.added) : m.Keeps t := by
  have hcounted := h.counted
  have hlength := hlists.length_eq
  rw [List.length_cons, List.length_append, List.length_append] at hlength
  refine ⟨⟨by omega, fun x => ?_, ?_⟩, hmax, hadded, by omega⟩
  · have hids := occurrences_perm (hlists.map PeerObject.id) x
    rw [← List.singleton_append, occurrences_append, occurrences_append, occurrences_append]
      at hids
    rw [hadded, hremoved, occurrences_append, h.listed x]
    omega
  · intro q hq
    rw [hremoved] at hq
    rcases List.mem_append.mp hq with hq | hq
    · exact h.inactive q hq
    · rwa [List.mem_singleton.mp hq]

end Keeps

/-! ## What one pass keeps -/

theorem map_id_set {l : List PeerObject} (hp : l[i]? = some p) (q : ConnectionPeer) :
    (l.set i { p with peer := q }).map PeerObject.id = l.map PeerObject.id :=
  map_set_of_eq hp rfl

theorem keeps_registerIn {list : PooledManager → List PeerObject}
    {setList : PooledManager → List PeerObject → PooledManager}
    {add : FdSets → ConnectionPeer → FdSets} {count : PooledManager × FdSets → Nat} {fuel : Nat}
    (hloses : ∀ (m : PooledManager) i p, (list m)[i]? = some p →
      (m.peerList ++ m.connectingPeerList).Perm
        (p :: ((setList m ((list m).eraseIdx i)).peerList ++
          (setList m ((list m).eraseIdx i)).connectingPeerList)))
    (hmax : ∀ m l, (setList m l).maxConnections = m.maxConnections)
    (hadded : ∀ m l, (setList m l).added = m.added) (h : m.Consistent)
    (hloop : whileBelow count (registerIn list setList add) fuel i (m, sets) =
      some (j, t, sets')) : m.Keeps t := by
  refine whileBelow_keeps (P := fun _ s => m.Keeps s.1) ?_ (.refl h) hloop
  intro i s j t hs hpass
  obtain ⟨p, hp, ⟨-, -, hsame, -⟩ | ⟨hinactive, -, -, hgone⟩⟩ := registerIn_cases hpass
  · rwa [hsame]
  · have hkeeps : s.1.Keeps t.1 := by
      rw [hgone]
      exact .of_removed hs.consistent hinactive (hloses s.1 i p hp) rfl rfl (hmax _ _) (hadded _ _)
    exact hs.trans hkeeps

theorem keeps_managePeer (h : m.Consistent)
    (hpass : managePeer setr setw io i m = some (j, t)) : m.Keeps t := by
  obtain ⟨p, q, hp, -, -, rfl⟩ := managePeer_cases hpass
  refine .of_perm h ?_ rfl rfl rfl rfl
  dsimp only
  rw [List.map_append, List.map_append, map_id_set hp]

theorem keeps_promotePeer (h : m.Consistent)
    (hpass : promotePeer setr setw io i m = some (j, t)) : m.Keeps t := by
  obtain ⟨p, changed, q, hp, -, ⟨-, -, rfl⟩ | ⟨-, -, rfl⟩⟩ := promotePeer_cases hpass
  · refine .of_perm h ?_ rfl rfl rfl rfl
    have hmoved := ((perm_cons_eraseIdx hp).append_left m.peerList).map PeerObject.id
    rw [List.append_assoc]
    simpa using hmoved.symm
  · refine .of_perm h ?_ rfl rfl rfl rfl
    dsimp only
    rw [List.map_append, List.map_append, map_id_set hp]

theorem keeps_serveRequest (h : m.Consistent) (top : Option Ptr) :
    m.Keeps (m.serveRequest top) := by
  refine .of_perm h ?_ rfl rfl rfl rfl
  simp [serveRequest, Function.comp_def]

/-! ## What a phase keeps -/

theorem keeps_purgeRequests (h : m.Consistent) : m.Keeps m.purgeRequests := by
  have hfold : ∀ (requests : List (Option Ptr)) (t : PooledManager), m.Keeps t →
      m.Keeps (requests.foldl serveRequest t) := by
    intro requests
    induction requests with
    | nil => exact fun t ht => ht
    | cons top requests ih =>
        exact fun t ht => ih _ (ht.trans (keeps_serveRequest ht.consistent top))
  exact hfold _ m (.refl h)

theorem keeps_register (h : m.Consistent) {r : PooledManager × FdSets}
    (hphase : m.register = some r) : m.Keeps r.1 := by
  obtain ⟨i, j, s, hfirst, hsecond⟩ := register_cases hphase
  have hpeers : m.Keeps s.1 := by
    refine keeps_registerIn ?_ (fun _ _ => ?_) (fun _ _ => ?_) h hfirst
    · exact fun m i p hp => (perm_cons_eraseIdx hp).append_right _
    · rfl
    · rfl
  have hconnecting : s.1.Keeps r.1 := by
    refine keeps_registerIn ?_ (fun _ _ => ?_) (fun _ _ => ?_) hpeers.consistent hsecond
    · exact fun m i p hp => ((perm_cons_eraseIdx hp).append_left _).trans List.perm_middle
    · rfl
    · rfl
  exact hpeers.trans hconnecting

theorem keeps_manageConnections (h : m.Consistent)
    (hphase : m.manageConnections setr setw io = some t) : m.Keeps t := by
  obtain ⟨⟨i, u⟩, hloop, rfl⟩ := Option.map_eq_some_iff.mp hphase
  refine whileBelow_keeps (P := fun _ t => m.Keeps t) ?_ (.refl h) hloop
  intro i s j t hs hpass
  exact hs.trans (keeps_managePeer hs.consistent hpass)

theorem keeps_manageConnectingPeers (h : m.Consistent)
    (hphase : m.manageConnectingPeers setr setw io = some t) : m.Keeps t := by
  obtain ⟨⟨i, u⟩, hloop, rfl⟩ := Option.map_eq_some_iff.mp hphase
  refine whileBelow_keeps (P := fun _ t => m.Keeps t) ?_ (.refl h) hloop
  intro i s j t hs hpass
  exact hs.trans (keeps_promotePeer hs.consistent hpass)

theorem keeps_checkConnections (h : m.Consistent) (io : Nat → SocketIO) :
    m.Keeps (m.checkConnections io) := by
  refine .of_perm h ?_ rfl rfl rfl rfl
  simp [checkConnections, Function.comp_def]

theorem keeps_perform (h : m.Consistent) {phase : Phase} (hphase : m.perform phase = some t) :
    m.Keeps t := by
  cases phase with
  | purgeRequests =>
      obtain rfl := Option.some.inj hphase
      exact keeps_purgeRequests h
  | register =>
      obtain ⟨r, hr, rfl⟩ := Option.map_eq_some_iff.mp hphase
      exact keeps_register h hr
  | manageConnections setr setw io => exact keeps_manageConnections h hphase
  | manageConnectingPeers setr setw io => exact keeps_manageConnectingPeers h hphase
  | checkConnections io =>
      obtain rfl := Option.some.inj hphase
      exact keeps_checkConnections h io

end PooledManager

/-! ## The manager with a free place -/

namespace ThreadedConnectionManagerList

variable {l : ThreadedConnectionManagerList} {m : PooledManager} {k : Nat}

theorem getFree_cases (l : ThreadedConnectionManagerList) :
    (∃ k m, l.getFreeThreadedConnectionManager = (l, k) ∧ l.mList[k]? = some m ∧
        m.currentconnections < m.maxConnections) ∨
      l.getFreeThreadedConnectionManager = l.addNew := by
  cases hl : l.mList with
  | nil => exact .inr (by simp [getFreeThreadedConnectionManager, hl])
  | cons first rest =>
      rcases getFree_spec hl with ⟨-, hnew⟩ | ⟨j, m, hm, hfree, -, hfound⟩
      · exact .inr hnew
      · refine .inl ⟨1 + j, m, hfound, ?_, ?_⟩
        · rw [Nat.add_comm, List.getElem?_cons_succ, hm]
        · unfold PooledManager.getFreeConnections at hfree
          omega

end ThreadedConnectionManagerList

/-! ## Runs of the pool -/

namespace ConnectionPool

open PooledManager (Consistent Keeps occurrences)

variable {c d : ConnectionPool} {m t : PooledManager} {k : Nat} {op : Op}

/-! ### Steps -/

/-- What each step needs, and what it leaves. -/
inductive Stepped (c : ConnectionPool) : Op → ConnectionPool → Prop
  | setPeersPerThread (ppt : Int) :
      Stepped c (.setPeersPerThread ppt) { c with cmlist := c.cmlist.setPeersPerThread ppt }
  | getFree : c.pcm = none →
      Stepped c .getFreeThreadedConnectionManager { c with
        cmlist := c.cmlist.getFreeThreadedConnectionManager.1
        pcm := some c.cmlist.getFreeThreadedConnectionManager.2 }
  | addConnectionPeer (k : Nat) (peer : ConnectionPeer) : c.pcm = some k →
      Stepped c (.addConnectionPeer peer)
        { c.modifyManager k (·.addConnectionPeer ⟨c.created, peer⟩) with
          pcm := none, created := c.created + 1 }
  | refuse : Stepped c .refuse { c with pcm := none }
  | closePInfo (k : Nat) (pinfo : Option Ptr) :
      Stepped c (.closePInfo k pinfo) (c.modifyManager k (·.closePInfo pinfo))
  | manager (k : Nat) (phase : PooledManager.Phase) (m t : PooledManager) :
      c.cmlist.mList[k]? = some m → m.perform phase = some t →
        Stepped c (.manager k phase) (c.modifyManager k fun _ => t)

theorem stepped_perform (hstep : c.perform op = some d) : c.Stepped op d := by
  cases op with
  | setPeersPerThread ppt =>
      obtain rfl := Option.some.inj hstep
      exact .setPeersPerThread ppt
  | getFreeThreadedConnectionManager =>
      cases hpcm : c.pcm with
      | some k => simp [ConnectionPool.perform, hpcm] at hstep
      | none =>
          simp only [ConnectionPool.perform, hpcm] at hstep
          obtain rfl := Option.some.inj hstep
          exact .getFree hpcm
  | addConnectionPeer peer =>
      cases hpcm : c.pcm with
      | none => simp [ConnectionPool.perform, hpcm] at hstep
      | some k =>
          simp only [ConnectionPool.perform, hpcm] at hstep
          obtain rfl := Option.some.inj hstep
          exact .addConnectionPeer k peer hpcm
  | refuse =>
      obtain rfl := Option.some.inj hstep
      exact .refuse
  | closePInfo k pinfo =>
      obtain rfl := Option.some.inj hstep
      exact .closePInfo k pinfo
  | manager k phase =>
      cases hm : c.cmlist.mList[k]? with
      | none => simp [ConnectionPool.perform, hm] at hstep
      | some m =>
          simp only [ConnectionPool.perform, hm] at hstep
          obtain ⟨t, ht, rfl⟩ := Option.map_eq_some_iff.mp hstep
          exact .manager k phase m t hm ht

/-! ### What holds between the steps -/

structure Sound (c : ConnectionPool) : Prop where
  consistent : ∀ m ∈ c.cmlist.mList, m.Consistent
  within : ∀ m ∈ c.cmlist.mList, m.currentconnections ≤ m.maxConnections
  /-- Each peer has been added once, to one manager. -/
  added : ∀ x, (c.cmlist.mList.flatMap PooledManager.added).count x =
    if x < c.created then 1 else 0
  /-- The manager that `setServer` holds has a free place. -/
  free : ∀ k, c.pcm = some k → ∃ m, c.cmlist.mList[k]? = some m ∧
    m.currentconnections < m.maxConnections
  positive : 0 < c.cmlist.peersPerThread

theorem sound_create : create.Sound where
  consistent m hm := absurd hm List.not_mem_nil
  within m hm := absurd hm List.not_mem_nil
  added x := by simp [create, ThreadedConnectionManagerList.create]
  free k hk := by cases hk
  positive := by decide

theorem mem_modifyManager {f : PooledManager → PooledManager}
    (hm : c.cmlist.mList[k]? = some m) (ht : t ∈ (c.modifyManager k f).cmlist.mList) :
    t = f m ∨ t ∈ c.cmlist.mList := by
  rcases mem_modify ht with ht | ⟨m', hm', rfl⟩
  · exact .inr (List.mem_of_mem_eraseIdx ht)
  · obtain rfl := Option.some.inj (hm.symm.trans hm')
    exact .inl rfl

theorem count_modifyManager {f : PooledManager → PooledManager}
    (hm : c.cmlist.mList[k]? = some m) (x : Nat) :
    ((c.modifyManager k f).cmlist.mList.flatMap PooledManager.added).count x + m.added.count x =
      (c.cmlist.mList.flatMap PooledManager.added).count x + (f m).added.count x := by
  have hafter := ((modify_perm_cons_eraseIdx hm f).flatMap_right PooledManager.added).count_eq x
  have hbefore := ((perm_cons_eraseIdx hm).flatMap_right PooledManager.added).count_eq x
  rw [List.flatMap_cons, List.count_append] at hafter hbefore
  change ((c.cmlist.mList.modify k f).flatMap PooledManager.added).count x + _ = _
  omega

/-- A step of one manager that can only free places. -/
theorem Sound.modifyManager (h : c.Sound) {f : PooledManager → PooledManager}
    (hm : c.cmlist.mList[k]? = some m) (hf : m.Keeps (f m)) : (c.modifyManager k f).Sound := by
  have hfrees := hf.frees
  have hmax := hf.maxConnections
  constructor
  case consistent =>
    intro t ht
    rcases mem_modifyManager hm ht with rfl | ht
    · exact hf.consistent
    · exact h.consistent t ht
  case within =>
    intro t ht
    rcases mem_modifyManager hm ht with rfl | ht
    · have hbound := h.within m (List.mem_of_getElem? hm)
      omega
    · exact h.within t ht
  case added =>
    intro x
    have hcount := count_modifyManager (f := f) hm x
    have hadded := h.added x
    rw [hf.added] at hcount
    change _ = if x < c.created then 1 else 0
    omega
  case free =>
    intro j hj
    obtain ⟨t, ht, hfree⟩ := h.free j hj
    by_cases hk : k = j
    · subst hk
      obtain rfl := Option.some.inj (hm.symm.trans ht)
      refine ⟨f m, ?_, by omega⟩
      change (c.cmlist.mList.modify k f)[k]? = _
      rw [List.getElem?_modify_eq, hm]
      rfl
    · exact ⟨t, (List.getElem?_modify_ne f _ hk).trans ht, hfree⟩
  case positive => exact h.positive

/-- A new manager is empty, and has a free place. -/
theorem Sound.addNew (h : c.Sound) :
    Sound { c with cmlist := c.cmlist.addNew.1, pcm := some c.cmlist.addNew.2 } := by
  have hpositive := h.positive
  have hroom : 0 < min c.cmlist.peersPerThread maxPeersPerFdset := by
    have hmax : maxPeersPerFdset = 511 := rfl
    omega
  constructor
  case consistent =>
    intro m hm
    rcases List.mem_append.mp hm with hm | hm
    · exact h.consistent m hm
    · rw [List.mem_singleton.mp hm]
      exact ⟨rfl, fun _ => rfl, fun p hp => absurd hp List.not_mem_nil⟩
  case within =>
    intro m hm
    rcases List.mem_append.mp hm with hm | hm
    · exact h.within m hm
    · rw [List.mem_singleton.mp hm]
      exact Int.le_of_lt hroom
  case added =>
    intro x
    have hadded := h.added x
    simpa [ThreadedConnectionManagerList.addNew, PooledManager.create] using hadded
  case free =>
    rintro k hk
    obtain rfl := Option.some.inj hk
    refine ⟨.create c.cmlist.peersPerThread, ?_, hroom⟩
    simp [ThreadedConnectionManagerList.addNew]
  case positive => exact hpositive

theorem consistent_addConnectionPeer (h : m.Consistent) (p : PeerObject) :
    (m.addConnectionPeer p).Consistent := by
  have hcounted := h.counted
  refine ⟨?_, fun x => ?_, h.inactive⟩
  · simp only [PooledManager.addConnectionPeer, List.length_append, List.length_singleton]
    omega
  · have hlisted := h.listed x
    have hone : List.count x [p.id] = if p.id = x then 1 else 0 := by
      simp [List.count_singleton]
    simp only [PooledManager.addConnectionPeer, List.count_append, hone,
      PooledManager.occurrences_append, PooledManager.occurrences_singleton]
    omega

/-- The peer takes the free place of the manager that is held. -/
theorem Sound.addConnectionPeer (h : c.Sound) (hpcm : c.pcm = some k) (peer : ConnectionPeer) :
    Sound { c.modifyManager k (·.addConnectionPeer ⟨c.created, peer⟩) with
      pcm := none, created := c.created + 1 } := by
  obtain ⟨m, hm, hfree⟩ := h.free k hpcm
  constructor
  case consistent =>
    intro t ht
    rcases mem_modifyManager hm ht with rfl | ht
    · exact consistent_addConnectionPeer (h.consistent m (List.mem_of_getElem? hm)) _
    · exact h.consistent t ht
  case within =>
    intro t ht
    rcases mem_modifyManager hm ht with rfl | ht
    · change m.currentconnections + 1 ≤ m.maxConnections
      omega
    · exact h.within t ht
  case added =>
    intro x
    have hcount := count_modifyManager (f := (·.addConnectionPeer ⟨c.created, peer⟩)) hm x
    have hadded := h.added x
    have hnew : (m.addConnectionPeer ⟨c.created, peer⟩).added.count x =
        m.added.count x + if c.created = x then 1 else 0 := by
      simp [PooledManager.addConnectionPeer, List.count_singleton]
    change _ = if x < c.created + 1 then 1 else 0
    dsimp only at hcount ⊢
    rw [hnew] at hcount
    split_ifs at hadded hcount ⊢ <;> omega
  case free => exact fun j hj => nomatch hj
  case positive => exact h.positive

theorem Sound.setPeersPerThread (h : c.Sound) (ppt : Int) :
    Sound { c with cmlist := c.cmlist.setPeersPerThread ppt } := by
  by_cases hppt : ppt > 0
  · have hset : c.cmlist.setPeersPerThread ppt = { c.cmlist with peersPerThread := ppt } :=
      if_pos hppt
    rw [hset]
    exact ⟨h.consistent, h.within, h.added, h.free, hppt⟩
  · have hset : c.cmlist.setPeersPerThread ppt = c.cmlist := if_neg hppt
    rw [hset]
    exact h

theorem Sound.getFree (h : c.Sound) : Sound { c with
    cmlist := c.cmlist.getFreeThreadedConnectionManager.1
    pcm := some c.cmlist.getFreeThreadedConnectionManager.2 } := by
  rcases c.cmlist.getFree_cases with ⟨k, m, hfree, hm, hroom⟩ | hnew
  · rw [hfree]
    refine ⟨h.consistent, h.within, h.added, fun j hj => ?_, h.positive⟩
    obtain rfl := Option.some.inj hj
    exact ⟨m, hm, hroom⟩
  · rw [hnew]
    exact h.addNew

theorem Sound.perform (h : c.Sound) (hstep : c.perform op = some d) : d.Sound := by
  cases stepped_perform hstep with
  | setPeersPerThread ppt => exact h.setPeersPerThread ppt
  | getFree => exact h.getFree
  | addConnectionPeer k peer hpcm => exact h.addConnectionPeer hpcm peer
  | refuse => exact ⟨h.consistent, h.within, h.added, fun j hj => (nomatch hj), h.positive⟩
  | closePInfo k pinfo =>
      cases hm : c.cmlist.mList[k]? with
      | none =>
          have hsame : c.modifyManager k (·.closePInfo pinfo) = c := by
            rw [ConnectionPool.modifyManager, List.modify_eq_self (List.getElem?_eq_none_iff.mp hm)]
          rw [hsame]
          exact h
      | some m =>
          exact h.modifyManager hm
            (.of_perm (h.consistent m (List.mem_of_getElem? hm)) (List.Perm.refl _) rfl rfl rfl rfl)
  | manager k phase m t hm ht =>
      have hkeeps := PooledManager.keeps_perform (h.consistent m (List.mem_of_getElem? hm)) ht
      exact h.modifyManager hm hkeeps

theorem Reachable.sound (h : c.Reachable) : c.Sound := by
  refine Reach.invariant (I := Sound) ?_ (fun c op d hc _ hstep => hc.perform hstep) h
  rintro c rfl
  exact sound_create

theorem Sound.occurrences (h : c.Sound) (hm : m ∈ c.cmlist.mList) (x : Nat) :
    occurrences m.peerList x + occurrences m.connectingPeerList x + occurrences m.removed x =
      if x ∈ m.added then 1 else 0 := by
  rw [← (h.consistent m hm).listed x]
  have hle : m.added.count x ≤ 1 := by
    have hsub : m.added.Sublist (c.cmlist.mList.flatMap PooledManager.added) :=
      List.sublist_flatten_of_mem (List.mem_map_of_mem hm)
    have hone := h.added x
    have hcount := hsub.count_le x
    split_ifs at hone <;> omega
  split
  · rename_i hx
    have hpos := List.count_pos_iff.mpr hx
    omega
  · rename_i hx
    exact List.count_eq_zero.mpr hx

/-- In every run each manager stays within its capacity, and its count is the number of its peers;
each peer that was built was added to one manager, is on one of its two lists until it is
deleted, which happens once, and was inactive then. -/
theorem managers_within_capacity (h : c.Reachable) :
    (∀ m ∈ c.cmlist.mList,
      m.currentconnections = m.peerList.length + m.connectingPeerList.length ∧
        m.currentconnections ≤ m.maxConnections ∧
        (∀ x, PooledManager.occurrences m.peerList x +
            PooledManager.occurrences m.connectingPeerList x +
            PooledManager.occurrences m.removed x = if x ∈ m.added then 1 else 0) ∧
        ∀ p ∈ m.removed, p.peer.isActive = false) ∧
      ∀ x, (c.cmlist.mList.flatMap PooledManager.added).count x =
        if x < c.created then 1 else 0 := by
  have hsound := h.sound
  refine ⟨fun m hm => ⟨?_, hsound.within m hm, hsound.occurrences hm, ?_⟩, hsound.added⟩
  · exact (hsound.consistent m hm).counted
  · exact (hsound.consistent m hm).inactive

namespace Sample

/-- A peer is added and promoted, and closed on request. Another one is added while it is still
listed, and then it is removed. -/
def ops : List Op :=
  [.getFreeThreadedConnectionManager, .addConnectionPeer ConnectionPeer.Sample.created,
    .manager 0 (.manageConnectingPeers (fun fd => fd == 1) (fun fd => fd == 2)
      fun _ => ConnectionPeer.Sample.clientSends),
    .closePInfo 0 (some 1), .manager 0 .purgeRequests, .getFreeThreadedConnectionManager,
    .addConnectionPeer ConnectionPeer.Sample.created, .manager 0 .register]

theorem isSome_ops : (ops.foldlM perform create).isSome = true := by decide +kernel

def afterOps : ConnectionPool := (ops.foldlM perform create).get isSome_ops

theorem reachable_afterOps : afterOps.Reachable :=
  Reach.foldlM (.start rfl) (guarded_anyStep perform create ops) (Option.some_get isSome_ops).symm

end Sample

theorem managers_within_capacity_two :
    (Sample.afterOps.cmlist.mList.map fun m =>
        (m.peerList.map PeerObject.id, m.connectingPeerList.map PeerObject.id,
          m.removed.map PeerObject.id)) = [([], [], [0]), ([], [1], [])] ∧
      ∀ m ∈ Sample.afterOps.cmlist.mList, m.currentconnections ≤ m.maxConnections :=
  ⟨by decide +kernel,
    fun m hm => ((managers_within_capacity Sample.reachable_afterOps).1 m hm).2.1⟩

end ConnectionPool

end Relb
